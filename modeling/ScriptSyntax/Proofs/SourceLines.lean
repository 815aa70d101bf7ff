import ScriptSyntax.Proofs.Diagnostics

/-!
The line at an offset. A text falls into lines in one way: cut behind a line feed, its
lines are those of the two parts. So a line that is given by what is above it and what is
below it is one of the lines that are searched, and the search for an offset comes to the
line that has this byte. It fails only where there is no byte.
-/

namespace ScriptSyntax

namespace Text

theorem lines_cons {c : Char} (hc : c ≠ '\n') {cs first : List Char} {rest : List (List Char)}
    (h : lines cs = first :: rest) : lines (c :: cs) = (c :: first) :: rest := by
  simp only [lines, if_neg hc, h]

/-- Behind a line feed a new line begins. -/
theorem lines_append {above : List Char} (h : ∀ c ∈ above.getLast?, c = '\n')
    (below : List Char) : lines (above ++ below) = lines above ++ lines below := by
  induction above with
  | nil => rfl
  | cons c above ih =>
      have hrest : ∀ d ∈ above.getLast?, d = '\n' := by
        intro d hd
        apply h d
        rw [List.getLast?_cons, hd]
        rfl
      have hlines := ih hrest
      by_cases hc : c = '\n'
      · simp only [List.cons_append, lines, hc, if_true, hlines]
      · -- the line goes on, so there is a line feed ahead
        cases above with
        | nil => exact absurd (h c rfl) hc
        | cons d above =>
            obtain ⟨first, more, hfirst⟩ : ∃ first more, lines (d :: above) = first :: more := by
              apply List.exists_cons_of_ne_nil
              intro hnone
              have hflatten := flatten_lines (d :: above)
              rw [hnone] at hflatten
              cases hflatten
            have hwhole : lines (d :: above ++ below) = first :: (more ++ lines below) := by
              rw [hlines, hfirst, List.cons_append]
            rw [List.cons_append, lines_cons hc hwhole, lines_cons hc hfirst, List.cons_append]

/-- A line is the first of the lines from it on. -/
theorem IsLine.lines_append {line below : List Char} (h : IsLine line below) :
    lines (line ++ below) = line :: lines below := by
  induction line with
  | nil => exact absurd rfl h.ne_nil
  | cons c line ih =>
      cases line with
      | nil =>
          by_cases hc : c = '\n'
          · rw [List.cons_append, List.nil_append, lines, if_pos hc]
          · have hbelow : below = [] := by
              by_contra hne
              exact hc (Option.some.inj (h.last hne))
            simp only [hbelow, List.append_nil, lines, if_neg hc]
      | cons d line =>
          have hinner : '\n' ∉ c :: (d :: line).dropLast := h.inner
          have hc : c ≠ '\n' := fun heq => hinner (by simp [heq])
          have hrest : IsLine (d :: line) below := by
            refine ⟨by simp, fun hmem => hinner (List.mem_cons_of_mem _ hmem), ?_⟩
            intro hbelow
            have hlast := h.last hbelow
            rwa [List.getLast?_cons_cons] at hlast
          rw [List.cons_append, lines_cons hc (ih hrest)]

/-- The lines of a text with a line in it are those above, the line and those below. -/
theorem LineOf.lines_eq {cs above line below : List Char} (h : LineOf cs above line below) :
    lines cs = lines above ++ line :: lines below := by
  rw [h.eq, List.append_assoc, lines_append h.above_ends, h.isLine.lines_append]

end Text

namespace SourceLine

open Text

theorem find?_eq_none_iff {number offset : Nat} {lines : List (List Char)} :
    find? number offset lines = none ↔ byteLength lines.flatten ≤ offset := by
  fun_induction find? number offset lines with
  | case1 => simp
  | case2 number offset line rest hhere =>
      rw [List.flatten_cons, byteLength_append]
      simp only [reduceCtorEq, false_iff]
      omega
  | case3 number offset line rest hthere ih =>
      rw [ih, List.flatten_cons, byteLength_append]
      omega

/-- There is no line at the end of the source and past it, and only there. -/
theorem at?_eq_none_iff {source : String} {offset : UInt32} :
    at? source offset = none ↔ source.utf8ByteSize ≤ offset.toNat := by
  rw [at?, find?_eq_none_iff, flatten_lines, byteLength_toList]

/-- The line at an offset has this byte, and as many lines are above it as line feeds. -/
theorem at?_eq_some_iff {source : String} {offset : UInt32} {line : SourceLine} :
    at? source offset = some line ↔
      ∃ above below, LineOf source.toList above line.text.toList below ∧
        byteLength above + line.column = offset.toNat ∧
        line.column < byteLength line.text.toList ∧ line.number = above.count '\n' + 1 := by
  rw [at?, find?_eq_some_iff]
  constructor
  · rintro ⟨front, text, back, hlines, hnumber, htext, hoffset, hcolumn⟩
    rw [htext, String.toList_ofList]
    refine ⟨front.flatten, back.flatten, lineOf_of_lines hlines, hoffset.symm, hcolumn, ?_⟩
    rw [count_flatten_of_lines hlines, hnumber, Nat.add_comm]
  · rintro ⟨above, below, hline, hoffset, hcolumn, hnumber⟩
    have hcount := count_flatten_of_lines hline.lines_eq
    rw [flatten_lines] at hcount
    refine ⟨lines above, line.text.toList, lines below, hline.lines_eq, ?_, ?_, ?_, hcolumn⟩
    · rw [hnumber, hcount, Nat.add_comm]
    · rw [String.ofList_toList]
    · rw [flatten_lines, hoffset]

end SourceLine

/-- No line is found exactly for the offsets at the end of the source and past it. For any
other, the line that is found is the one line of the source that has this byte: in front of
the line the source is empty or ends with a line feed, the line has a line feed at most at
its end and lacks it only if nothing is below, its column counts the bytes in front of the
offset, and its number is one more than the line feeds above. -/
theorem line_holds_offset (source : String) (offset : UInt32) :
    (SourceLine.at? source offset = none ↔ source.utf8ByteSize ≤ offset.toNat) ∧
    ∀ line, SourceLine.at? source offset = some line ↔
      ∃ above below, Text.LineOf source.toList above line.text.toList below ∧
        Text.byteLength above + line.column = offset.toNat ∧
        line.column < line.text.utf8ByteSize ∧ line.number = above.count '\n' + 1 := by
  refine ⟨SourceLine.at?_eq_none_iff, ?_⟩
  intro line
  rw [SourceLine.at?_eq_some_iff, Text.byteLength_toList]

/-- The second byte of the letter in the third line, which has no line feed. -/
example : SourceLine.at? "a\n\né" 4 = some ⟨3, "é", 1⟩ := by decide

end ScriptSyntax
