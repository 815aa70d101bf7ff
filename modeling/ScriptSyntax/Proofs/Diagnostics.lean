import Mathlib.Data.List.DropRight
import ScriptSyntax.Diagnostic
import ScriptSyntax.Proofs.Viability
import ScriptSyntax.Proofs.Writing

/-!
Where a diagnostic points. A byte offset is brought to a line and a byte column, the line
is shown without its indentation and without the blanks at its end, and the caret counts
characters. For a place that has a character other than a blank all of these agree: the
line is the one around it, what is cut off does not reach it, and the caret stands under it.

Main statement: the diagnostic of a fault at a token has the line on which the token
starts, and the caret under its first character.
-/

namespace ScriptSyntax

namespace Text

/-! Lines of a text. -/

/-- The text is one line with `below` behind it: it has no line feed but at its end, and
lacks that one only if nothing is below. -/
structure IsLine (line below : List Char) : Prop where
  ne_nil : line ≠ []
  inner : '\n' ∉ line.dropLast
  last : below ≠ [] → line.getLast? = some '\n'

theorem isLine_of_lines {cs line : List Char} {front back : List (List Char)}
    (h : lines cs = front ++ line :: back) : IsLine line back.flatten := by
  fun_induction lines cs generalizing front line with
  | case1 => simp at h
  | case2 cs ih =>
      cases front with
      | nil =>
          obtain ⟨rfl, _⟩ := List.cons.inj h
          exact ⟨by simp, by simp, by simp⟩
      | cons first front => exact ih (List.cons.inj h).2
  | case3 c cs hc hnone ih =>
      obtain ⟨rfl, hline⟩ : front = [] ∧ [c] = line ∧ back = [] := by
        cases front <;> simp_all
      obtain ⟨rfl, rfl⟩ := hline
      exact ⟨by simp, by simp, by simp⟩
  | case4 c cs hc first rest hlines ih =>
      cases front with
      | nil =>
          obtain ⟨rfl, rfl⟩ := List.cons.inj h
          have hsame : lines cs = [] ++ first :: rest := hlines
          have hfirst : IsLine first rest.flatten := ih hsame
          refine ⟨by simp, ?_, ?_⟩
          · rw [List.dropLast_cons_of_ne_nil hfirst.ne_nil, List.mem_cons, not_or]
            exact ⟨fun heq => hc heq.symm, hfirst.inner⟩
          · intro hbelow
            rw [List.getLast?_cons, hfirst.last hbelow]
            rfl
      | cons other front =>
          obtain ⟨_, rfl⟩ := List.cons.inj h
          have hsame : lines cs = (first :: front) ++ line :: back := hlines
          exact ih hsame

/-- A line with something below it has one line feed. -/
theorem IsLine.count {line below : List Char} (h : IsLine line below) (hbelow : below ≠ []) :
    line.count '\n' = 1 := by
  have hsplit := List.dropLast_append_getLast? '\n' (h.last hbelow)
  rw [← hsplit, List.count_append, List.count_eq_zero_of_not_mem h.inner]
  rfl

/-- As many lines as line feeds stand in front of a line. -/
theorem count_flatten_of_lines {cs line : List Char} {front back : List (List Char)}
    (h : lines cs = front ++ line :: back) : front.flatten.count '\n' = front.length := by
  have hline := isLine_of_lines h
  induction front using List.reverseRecOn generalizing line back with
  | nil => rfl
  | append_singleton front last ih =>
      have hlast : lines cs = front ++ last :: (line :: back) := by simpa using h
      have hone := (isLine_of_lines hlast).count (by simp [hline.ne_nil])
      rw [List.flatten_append, List.count_append, ih hlast (isLine_of_lines hlast)]
      simp [hone]

/-- The lines in front of a line end with a line feed, if there are any. -/
theorem getLast?_flatten_of_lines {cs line : List Char} {front back : List (List Char)}
    (h : lines cs = front ++ line :: back) : ∀ c ∈ front.flatten.getLast?, c = '\n' := by
  intro c hc
  rcases List.eq_nil_or_concat' front with rfl | ⟨front, last, rfl⟩
  · cases hc
  · have hline := isLine_of_lines h
    have hlast : lines cs = front ++ last :: (line :: back) := by simpa using h
    have hfeed := (isLine_of_lines hlast).last (by simp [hline.ne_nil])
    rw [List.flatten_append, List.getLast?_append, List.flatten_singleton, hfeed] at hc
    exact (Option.some.inj hc).symm

/-- Every character of a text is on one of its lines. -/
theorem exists_line_at {cs before after : List Char} {c : Char} (h : cs = before ++ c :: after) :
    ∃ front left right back, lines cs = front ++ (left ++ c :: right) :: back ∧
      before = front.flatten ++ left ∧ after = right ++ back.flatten := by
  have hflatten : (lines cs).flatten = before ++ c :: after := by rw [flatten_lines, h]
  rcases List.flatten_eq_append_iff.mp hflatten with
    ⟨front, rest, hlines, hbefore, hrest⟩ | ⟨front, left, d, right, back, hlines, hbefore, hafter⟩
  · obtain ⟨empties, right, back, rfl, hempty, hafter⟩ := List.flatten_eq_cons_iff.mp hrest.symm
    refine ⟨front ++ empties, [], right, back, by simp [hlines], ?_, hafter⟩
    rw [List.flatten_append, List.flatten_eq_nil_iff.mpr hempty, hbefore, List.append_nil,
      List.append_nil]
  · obtain ⟨rfl, rfl⟩ := List.cons.inj hafter
    exact ⟨front, left, right, back, hlines, hbefore, rfl⟩

/-- A text with one of its lines, what is above it and what is below. -/
structure LineOf (cs above line below : List Char) : Prop where
  eq : cs = above ++ line ++ below
  above_ends : ∀ c ∈ above.getLast?, c = '\n'
  isLine : IsLine line below

theorem lineOf_of_lines {cs line : List Char} {front back : List (List Char)}
    (h : lines cs = front ++ line :: back) : LineOf cs front.flatten line back.flatten where
  eq := by rw [← flatten_lines cs, h]; simp
  above_ends := getLast?_flatten_of_lines h
  isLine := isLine_of_lines h

/-! A line without its indentation and without the blanks at its end. -/

/-- The line is `shown` behind spaces and tabs, and in front of blanks. -/
structure Trims (line indent shown tail : List Char) : Prop where
  eq : line = indent ++ shown ++ tail
  indentation : ∀ c ∈ indent, c = ' ' ∨ c = '\t'
  indentation_ends : ∀ c ∈ (shown ++ tail).head?, ¬ (c = ' ' ∨ c = '\t')
  blanks : ∀ c ∈ tail, isBlank c
  blanks_begin : ∀ c ∈ shown.getLast?, ¬ isBlank c

/-- Spaces and tabs have one byte each, so it is all the same how indentation is counted. -/
theorem byteLength_of_indent {indent : List Char} (h : ∀ c ∈ indent, c = ' ' ∨ c = '\t') :
    byteLength indent = indent.length := by
  induction indent with
  | nil => rfl
  | cons c indent ih =>
      have hc : c.utf8Size = 1 := by
        rcases h c (by simp) with rfl | rfl <;> rfl
      rw [byteLength_cons, hc, ih fun d hd => h d (by simp [hd]), List.length_cons]
      omega

/-- A character that is no blank stays, with all that is between it and what is cut off. -/
theorem Trims.exists_of_not_blank {line indent shown tail before after : List Char} {c : Char}
    (h : Trims line indent shown tail) (hline : line = before ++ c :: after)
    (hc : ¬ isBlank c) :
    ∃ left right, shown = left ++ c :: right ∧ before = indent ++ left ∧ after = right ++ tail := by
  have hindent : c ∉ indent := by
    intro hmem
    rcases h.indentation c hmem with rfl | rfl <;> exact hc (by decide)
  have htail : c ∉ tail := fun hmem => hc (h.blanks c hmem)
  have hsplit : indent ++ (shown ++ tail) = before ++ c :: after := by
    rw [← hline, h.eq, List.append_assoc]
  rcases exists_of_append_eq_append_cons hsplit with ⟨left, hbefore, hrest⟩ | ⟨_, hin, _⟩
  · rcases exists_of_append_eq_append_cons hrest with ⟨_, _, hin⟩ | ⟨right, hshown, hafter⟩
    · exact absurd (by simp [hin]) htail
    · exact ⟨left, right, hshown, hbefore, hafter⟩
  · exact absurd (by simp [hin]) hindent

end Text

namespace SourceLine

open Text

theorem isIndent_iff {c : Char} : isIndent c ↔ c = ' ' ∨ c = '\t' := by
  simp [isIndent]

theorem shown_append (line : SourceLine) :
    line.shown ++ (line.text.toList.dropWhile isIndent).rtakeWhile isBlank =
      line.text.toList.dropWhile isIndent :=
  List.rdropWhile_append_rtakeWhile

/-- What is shown of a line. -/
theorem trims (line : SourceLine) :
    Trims line.text.toList (line.text.toList.takeWhile isIndent) line.shown
      ((line.text.toList.dropWhile isIndent).rtakeWhile isBlank) := by
  refine ⟨?_, ?_, ?_, ?_, ?_⟩
  · rw [List.append_assoc, shown_append, List.takeWhile_append_dropWhile]
  · intro c hc
    exact isIndent_iff.mp (List.mem_takeWhile_imp hc)
  · intro c hc hindent
    rw [shown_append] at hc
    have hnot := List.head?_dropWhile_not isIndent line.text.toList
    rw [hc] at hnot
    exact absurd (isIndent_iff.mpr hindent) (by simpa using hnot)
  · intro c hc
    exact List.mem_rtakeWhile_imp hc
  · intro c hc
    obtain ⟨hne, rfl⟩ := List.mem_getLast?_eq_getLast hc
    exact List.rdropWhile_last_not _ _ hne

/-- A place that has a character other than a blank is shown, and the caret is under it. -/
theorem shows_place {line : SourceLine} {before after : List Char} {c : Char}
    (htext : line.text.toList = before ++ c :: after) (hcolumn : line.column = byteLength before)
    (hc : ¬ isBlank c) :
    ∃ indent left right tail, Trims line.text.toList indent (left ++ c :: right) tail ∧
      before = indent ++ left ∧ line.shown = left ++ c :: right ∧
      line.caretColumn = left.length := by
  have htrims := line.trims
  obtain ⟨left, right, hshown, hbefore, hafter⟩ := htrims.exists_of_not_blank htext hc
  refine ⟨_, left, right, _, hshown ▸ htrims, hbefore, hshown, ?_⟩
  have hindent := byteLength_of_indent htrims.indentation
  have hplace : line.column - (line.text.toList.takeWhile isIndent).length = byteLength left := by
    rw [hcolumn, hbefore, byteLength_append, hindent]
    omega
  have hrest : line.text.toList.dropWhile isIndent = left ++ c :: after := by
    rw [← shown_append, hshown, hafter]
    simp
  have hsplit : splitBytes? (byteLength left) (left ++ c :: after) = some (left, c :: after) :=
    splitBytes?_eq_some_iff.mpr ⟨rfl, rfl⟩
  simp only [caretColumn, hplace, hrest, hsplit]

/-- The line in its gutter, with its number, and the caret behind as many dashes. -/
theorem excerpt_eq (line : SourceLine) :
    line.excerpt =
      let number := toString line.number
      let pad := String.ofList (List.replicate (number.length + 1) ' ')
      pad ++ "|\n" ++
        number ++ " | " ++ String.ofList line.shown ++ "\n" ++
        pad ++ "| " ++ String.ofList (List.replicate line.caretColumn '-') ++ "^\n" := by
  -- not by `rw`: the equation of a long text of appends takes seconds to be made
  delta excerpt
  simp [String.append_assoc]

/-- A line is found for the offsets of its bytes. -/
theorem find?_eq_some_iff {number offset : Nat} {lines : List (List Char)} {found : SourceLine} :
    find? number offset lines = some found ↔
      ∃ front line back, lines = front ++ line :: back ∧ found.number = number + front.length ∧
        found.text = String.ofList line ∧ offset = byteLength front.flatten + found.column ∧
        found.column < byteLength line := by
  fun_induction find? number offset lines with
  | case1 => simp
  | case2 number offset line rest hhere =>
      constructor
      · intro h
        obtain rfl := Option.some.inj h
        exact ⟨[], line, rest, rfl, rfl, rfl, by simp, hhere⟩
      · rintro ⟨front, other, back, hlines, hnumber, htext, hoffset, hcolumn⟩
        cases front with
        | nil =>
            obtain ⟨rfl, _⟩ := List.cons.inj hlines
            obtain ⟨n, text, column⟩ := found
            simp_all
        | cons first front =>
            obtain ⟨rfl, _⟩ := List.cons.inj hlines
            simp only [List.flatten_cons, byteLength_append] at hoffset
            omega
  | case3 number offset line rest hthere ih =>
      rw [ih]
      constructor
      · rintro ⟨front, other, back, rfl, hnumber, htext, hoffset, hcolumn⟩
        refine ⟨line :: front, other, back, rfl, ?_, htext, ?_, hcolumn⟩
        · rw [hnumber, List.length_cons]
          omega
        · rw [List.flatten_cons, byteLength_append]
          omega
      · rintro ⟨front, other, back, hlines, hnumber, htext, hoffset, hcolumn⟩
        cases front with
        | nil =>
            obtain ⟨rfl, _⟩ := List.cons.inj hlines
            simp only [List.flatten_nil, byteLength_nil] at hoffset
            omega
        | cons first front =>
            obtain ⟨rfl, rfl⟩ := List.cons.inj hlines
            rw [List.flatten_cons, byteLength_append] at hoffset
            rw [List.length_cons] at hnumber
            exact ⟨front, other, back, rfl, by omega, htext, by omega, hcolumn⟩

/-- For a place that has a character the line around it is found. -/
theorem at?_eq_some {source : String} {offset : UInt32} {before after : List Char} {c : Char}
    (h : source.toList = before ++ c :: after) (hoffset : offset.toNat = byteLength before) :
    ∃ above left right below line, at? source offset = some line ∧
      LineOf source.toList above line.text.toList below ∧
      line.text.toList = left ++ c :: right ∧ before = above ++ left ∧
      line.column = byteLength left ∧ line.number = before.count '\n' + 1 := by
  obtain ⟨front, left, right, back, hlines, rfl, rfl⟩ := exists_line_at h
  have hline := lineOf_of_lines hlines
  refine ⟨front.flatten, left, right, back.flatten,
    ⟨1 + front.length, String.ofList (left ++ c :: right), byteLength left⟩,
    ?_, ?_, ?_, rfl, rfl, ?_⟩
  · rw [at?, find?_eq_some_iff]
    refine ⟨front, _, back, hlines, rfl, rfl, ?_, ?_⟩
    · rw [hoffset, byteLength_append]
    · have hpos := c.utf8Size_pos
      simp only [byteLength_append, byteLength_cons]
      omega
  · simpa using hline
  · simp
  · have hinner : left.count '\n' = 0 := by
      apply List.count_eq_zero_of_not_mem
      intro hmem
      apply hline.isLine.inner
      rw [List.dropLast_append_of_ne_nil (by simp)]
      exact List.mem_append_left _ hmem
    rw [List.count_append, count_flatten_of_lines hlines, hinner]
    exact Nat.add_comm 1 front.length

end SourceLine

/-! The character that a token begins with. -/

/-- The characters of ASCII behind the space are no blanks. -/
theorem Text.not_isBlank_of_between {first c last : Char} (h : first ≤ c ∧ c ≤ last)
    (hfirst : 0x20 < first.toNat) (hlast : last.toNat < 0x85) : ¬ isBlank c := by
  have hlow : first.toNat ≤ c.toNat := h.1
  have hhigh : c.toNat ≤ last.toNat := h.2
  have hcontrol : ¬ c.toNat ≤ 0xD := by omega
  have hspace : ¬ c.toNat ≤ 0x20 := by omega
  have hnext : c.toNat ≤ 0x85 := by omega
  rw [isBlank, blanks, RangeTable.contains, if_neg hcontrol, RangeTable.contains, if_neg hspace,
    RangeTable.contains, if_pos hnext, decide_eq_true_iff]
  omega

theorem Begins.not_blank {kind : TokenKind} {c : Char} (h : Begins kind c) : ¬ Text.isBlank c := by
  have hwords : ∀ word ∈ operators ++ keywords,
      word.toList.head?.all fun c => ¬ Text.isBlank c := by decide
  cases kind with
  | string | comment =>
      obtain rfl := h
      decide
  | number =>
      rcases h with rfl | hdigit
      · decide
      · exact Text.not_isBlank_of_between hdigit (by decide) (by decide)
  | operator =>
      obtain ⟨word, hmem, hc⟩ := h
      exact of_mem_head? hwords (List.mem_append_left _ hmem) hc
  | keyword =>
      obtain ⟨word, hmem, hc⟩ := h
      exact of_mem_head? hwords (List.mem_append_right _ hmem) hc
  | identifier => exact Text.not_isBlank_of_between h (by decide) (by decide)

/-- A token begins where its span says, with a character that is no blank. -/
theorem exists_begin_of_scan {source : String} {file : Option String} {t : Token}
    (hshort : source.utf8ByteSize < UInt32.size) (h : .token t ∈ scan source file) :
    ∃ before c after, source.toList = before ++ c :: after ∧
      t.span.start.offset.toNat = Text.byteLength before ∧ t.value.toList.head? = some c ∧
      t.span.start.file = file.getD defaultFile ∧ ¬ Text.isBlank c := by
  obtain ⟨front, back, hscan⟩ := List.append_of_mem h
  have hfits := (segmentation_scan source file).fits (front.map Lexeme.segment)
    (.token t.kind t.value.toList) (back.map Lexeme.segment) (by rw [hscan]; simp [Lexeme.segment])
  obtain ⟨c, hc, hbegins⟩ := hfits.2.1.1.begins
  obtain ⟨more, hmore⟩ : ∃ more, t.value.toList = c :: more := List.head?_eq_some_iff.mp hc
  refine ⟨front.flatMap (·.text.toList), c, more ++ back.flatMap (·.text.toList), ?_, ?_, hc, ?_,
    hbegins.not_blank⟩
  · rw [← flatMap_text_scan source file, hscan, List.flatMap_append, List.flatMap_cons]
    simp [Lexeme.text, hmore]
  · have hstart := (offsets_of_scan hshort hscan).1
    rw [Lexeme.bytesOfAll_eq] at hstart
    exact hstart
  · have hspan : t.span = _ := span_of_scan hscan
    rw [hspan]
    rfl

/-! Faults at tokens. -/

theorem mem_of_mem_significantTokens {ls : List Lexeme} {t : Token}
    (h : t ∈ significantTokens ls) : .token t ∈ ls := by
  obtain ⟨lexeme, hlexeme, ht⟩ := List.mem_filterMap.mp h
  obtain ⟨rfl, _⟩ := Lexeme.significant?_eq_some_iff.mp ht
  exact hlexeme

/-- The token of a fault is one of those that the parse was given, and the fault is at its
start. -/
theorem fault_at_token {ls : List Lexeme} {fault : Fault} {t : Token}
    (h : parse ls = .error fault) (ht : fault.token = some t) :
    t ∈ significantTokens ls ∧ fault.position = t.span.start := by
  have hprogram := parse_eq_error_iff.mp h
  obtain ⟨read, hread, -, hstands⟩ := Production.program_fails hprogram
  change ls = read ++ _ at hread
  refine ⟨?_, (Production.program_faithful hprogram).position_eq ht⟩
  rw [hstands.token_eq] at ht
  rw [hread, significantTokens_append]
  exact List.mem_append_right _ (List.mem_of_head? ht)

/-- In a source without wrapped offsets a fault at a token has the place of the character that
the token begins with, which is no blank. -/
theorem exists_char_of_fault {source : String} {file : Option String} {fault : Fault} {t : Token}
    (hshort : source.utf8ByteSize < UInt32.size)
    (hparse : parse (scan source file) = .error fault) (ht : fault.token = some t) :
    ∃ before c after, source.toList = before ++ c :: after ∧
      fault.position.offset.toNat = Text.byteLength before ∧ t.value.toList.head? = some c ∧
      fault.position.file = file.getD defaultFile ∧ ¬ Text.isBlank c := by
  obtain ⟨hmem, hposition⟩ := fault_at_token hparse ht
  rw [hposition]
  exact exists_begin_of_scan hshort (mem_of_mem_significantTokens hmem)

theorem Fault.headline_eq (fault : Fault) :
    fault.headline = "Error: " ++ fault.name ++ " (" ++ fault.tip.text ++ ")\n" := by
  obtain ⟨cause, token, position⟩ := fault
  cases cause <;> rfl

/-- For a fault at a character other than a blank the diagnostic shows the line around this
character, with the caret under it. -/
theorem Fault.diagnostic_at_char {source : String} {fault : Fault} {before after : List Char}
    {c : Char} (hsource : source.toList = before ++ c :: after)
    (hoffset : fault.position.offset.toNat = Text.byteLength before)
    (hc : ¬ Text.isBlank c) :
    ∃ above line below, Text.LineOf source.toList above line below ∧
      ∃ indent shown tail, Text.Trims line indent shown tail ∧
      ∃ left right, shown = left ++ c :: right ∧ before = above ++ indent ++ left ∧
        let number := toString (before.count '\n' + 1)
        let pad := String.ofList (List.replicate (number.length + 1) ' ')
        fault.diagnostic source =
          "Error: " ++ fault.name ++ " (" ++ fault.tip.text ++ ")\n" ++
          "-> " ++ fault.position.file ++ "\n" ++
          (pad ++ "|\n" ++
            number ++ " | " ++ String.ofList shown ++ "\n" ++
            pad ++ "| " ++ String.ofList (List.replicate left.length '-') ++ "^\n") := by
  obtain ⟨above, left, right, below, line, hat, hline, htext, hbefore, hcolumn, hnumber⟩ :=
    SourceLine.at?_eq_some hsource hoffset
  obtain ⟨indent, left, right, tail, htrims, rfl, hshown, hcaret⟩ :=
    SourceLine.shows_place htext hcolumn hc
  refine ⟨above, _, below, hline, indent, _, tail, htrims, left, right, rfl, ?_, ?_⟩
  · rw [hbefore, List.append_assoc]
  · intro number pad
    have hexcerpt := line.excerpt_eq
    rw [hnumber, hshown, hcaret] at hexcerpt
    rw [Fault.diagnostic, Fault.headline_eq, hat, ← hexcerpt]

/-- The diagnostic of a fault at a token shows the line on which the token starts, without
its indentation and without the blanks at its end, and has its caret under the first
character of the token. -/
theorem diagnostic_points_at_token (source : String) (file : Option String) (fault : Fault)
    (t : Token) (hshort : source.utf8ByteSize < UInt32.size)
    (hparse : parse (scan source file) = .error fault) (htoken : fault.token = some t) :
    ∃ before c after, Text.splitBytes? t.span.start.offset.toNat source.toList =
        some (before, c :: after) ∧ t.value.toList.head? = some c ∧
      ∃ above line below, Text.LineOf source.toList above line below ∧
      ∃ indent shown tail, Text.Trims line indent shown tail ∧
      ∃ left right, shown = left ++ c :: right ∧ before = above ++ indent ++ left ∧
        let number := toString (before.count '\n' + 1)
        let pad := String.ofList (List.replicate (number.length + 1) ' ')
        fault.diagnostic source =
          "Error: " ++ fault.name ++ " (" ++ fault.tip.text ++ ")\n" ++
          "-> " ++ file.getD defaultFile ++ "\n" ++
          (pad ++ "|\n" ++
            number ++ " | " ++ String.ofList shown ++ "\n" ++
            pad ++ "| " ++ String.ofList (List.replicate left.length '-') ++ "^\n") := by
  obtain ⟨before, c, after, hsource, hoffset, hvalue, hfile, hc⟩ :=
    exists_char_of_fault hshort hparse htoken
  have hdiagnostic := fault.diagnostic_at_char hsource hoffset hc
  rw [hfile] at hdiagnostic
  rw [← (fault_at_token hparse htoken).2]
  exact ⟨before, c, after, Text.splitBytes?_eq_some_iff.mpr ⟨hsource, hoffset.symm⟩, hvalue,
    hdiagnostic⟩

/-- On the second line, behind a tab, a space and a letter of two bytes; the line ends with a
space and a carriage return. -/
theorem diagnostic_points_at_token_accent :
    let source := "f(1)\n\t f(\"é\" 2) \r\n"
    let t : Token := ⟨.number, "2", .between "shell" 14 15⟩
    let fault := Fault.raise (.unexpectedToken "Operator `)`" "2") (some t)
    source.utf8ByteSize < UInt32.size ∧ parse (scan source none) = .error fault ∧
      fault.diagnostic source =
        "Error: UnexpectedToken (expected Operator `)`, found `2`)\n" ++ "-> shell\n" ++
        "  |\n" ++ "2 | f(\"é\" 2)\n" ++ "  | ------^\n" ∧
      ∃ above line below indent left right tail, Text.LineOf source.toList above line below ∧
        Text.Trims line indent (left ++ '2' :: right) tail ∧
        above ++ indent ++ left = "f(1)\n\t f(\"é\" ".toList := by
  intro source t fault
  have hshort : source.utf8ByteSize < UInt32.size := by decide
  have hfault : (parsePartial (scan source none)).2 = some fault := by decide +kernel
  have hpair : parsePartial (scan source none) = (_, some fault) := Prod.ext rfl hfault
  have hparse := parse_eq_error_iff.mpr (parsePartial_eq_some_iff.mp hpair).1
  refine ⟨hshort, hparse, by decide +kernel, ?_⟩
  obtain ⟨before, c, after, hsplit, hc, above, line, below, hline, indent, _, tail, htrims, left,
    right, rfl, rfl, -⟩ := diagnostic_points_at_token source none fault t hshort hparse rfl
  have hvalue : t.value.toList.head? = some '2' := by decide
  obtain rfl : '2' = c := Option.some.inj (hvalue.symm.trans hc)
  have hbefore : (Text.splitBytes? t.span.start.offset.toNat source.toList).map Prod.fst =
      some "f(1)\n\t f(\"é\" ".toList := by decide
  rw [hsplit] at hbefore
  exact ⟨above, line, below, indent, left, right, tail, hline, htrims, Option.some.inj hbefore⟩

end ScriptSyntax
