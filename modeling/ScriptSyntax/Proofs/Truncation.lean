import ScriptSyntax.Proofs.Relocation

/-!
Parts of a source read by themselves. A spelling stays one when what is far behind
it is taken away, but taking text away can also make one: a word may end at the end
of the text where it went on before. It ends there too, with the text in place, if
the cut leaves no word open. Everything else that is spelled in front of a cut is
spelled in the whole text, if need be by something longer: only a comment reads on.

Main statement: lexemes that stand together in a scan, up to a cut that leaves no
word open, are the scan of their own text, moved to its beginning.
-/

namespace ScriptSyntax

open Segment

/-- No word goes on from the text in front into the one behind. -/
def CleanCut (front back : List Char) : Prop :=
  ∀ c ∈ front.getLast?, isWordChar c → WordEnds back

section Spellings

variable {kind : TokenKind} {text following front back : List Char}

theorem CleanCut.of_append (h : CleanCut (front ++ text) back) (htext : text ≠ []) :
    CleanCut text back := by
  intro c hc
  apply h c
  rwa [List.getLast?_append_of_ne_nil front htext]

theorem wordEnds_of_append (h : WordEnds (following ++ back)) : WordEnds following := by
  cases following with
  | nil => nofun
  | cons c following => exact h

theorem wordEnds_append (h : WordEnds following) (hback : following = [] → WordEnds back) :
    WordEnds (following ++ back) := by
  cases following with
  | nil => exact hback rfl
  | cons c following => exact h

/-- With the text behind taken away a spelling stays one. -/
theorem Spells.of_append (h : Spells kind text (following ++ back)) :
    Spells kind text following := by
  cases h with
  | string hbody => exact .string hbody
  | comment hbody hline =>
      apply Spells.comment hbody
      cases following with
      | nil => nofun
      | cons c following => exact hline
  | number hsign hdigits hsome => exact .number hsign hdigits hsome
  | operator htext => exact .operator htext
  | keyword htext hend => exact .keyword htext (wordEnds_of_append hend)
  | identifier hfirst hmore hend => exact .identifier hfirst hmore (wordEnds_of_append hend)

theorem wordEnds_behind (hword : ∀ c ∈ text, isWordChar c) (htext : text ≠ [])
    (hcut : CleanCut (text ++ following) back) (h : WordEnds following) :
    WordEnds (following ++ back) := by
  apply wordEnds_append h
  rintro rfl
  rw [List.append_nil] at hcut
  exact hcut _ (List.getLast?_eq_some_getLast htext) (hword _ (List.getLast_mem htext))

/-- What is spelled in front of a clean cut is spelled with the text behind in place, or
something longer is. -/
theorem Spells.append (h : Spells kind text following) (hcut : CleanCut (text ++ following) back) :
    ∃ longer rest, longer ++ rest = text ++ (following ++ back) ∧ text.length ≤ longer.length ∧
      Spells kind longer rest := by
  have hsame (hspells : Spells kind text (following ++ back)) :
      ∃ longer rest, longer ++ rest = text ++ (following ++ back) ∧ text.length ≤ longer.length ∧
        Spells kind longer rest :=
    ⟨text, following ++ back, rfl, Nat.le_refl _, hspells⟩
  cases h with
  | string hbody => exact hsame (.string hbody)
  | @comment body _ hbody _ =>
      -- a comment that ends with the text reads on behind the cut
      obtain ⟨r, hr, hlength⟩ := readComment?_line hbody (following ++ back)
      have hread : TokenKind.comment.read? ('-' :: '-' :: body ++ (following ++ back)) = some r := hr
      exact ⟨r.text, r.rest, (TokenKind.read?_splits hread).1, hlength,
        TokenKind.read?_spells hread⟩
  | number hsign hdigits hsome => exact hsame (.number hsign hdigits hsome)
  | operator htext => exact hsame (.operator htext)
  | keyword htext hend =>
      have hwords : ∀ word ∈ keywords, word.toList ≠ [] ∧ word.toList.all isWordChar := by decide
      obtain ⟨hne, hword⟩ := hwords _ htext
      rw [String.toList_ofList] at hne hword
      exact hsame (.keyword htext (wordEnds_behind (List.all_eq_true.mp hword) hne hcut hend))
  | @identifier first more _ hfirst hmore hend =>
      have hword : ∀ c ∈ first :: more, isWordChar c := by
        intro c hc
        have hc : IsLower c ∨ IsDigit c ∨ c = '_' := by
          rcases List.mem_cons.mp hc with rfl | hc
          · exact .inl hfirst
          · exact hmore c hc
        exact isWordChar_iff.mpr (.inr hc)
      exact hsame (.identifier hfirst hmore (wordEnds_behind hword (by simp) hcut hend))

theorem Matches.append (h : Matches kind front) (hcut : CleanCut front back) :
    Matches kind (front ++ back) := by
  obtain ⟨text, following, rfl, hspells⟩ := h
  obtain ⟨longer, rest, hsplit, -, hlonger⟩ := hspells.append hcut
  exact ⟨longer, rest, by rw [hsplit, List.append_assoc], hlonger⟩

/-- The token in front of a text is the token in front of what a clean cut leaves of it. -/
theorem IsTokenAt.of_append (h : IsTokenAt kind text (following ++ back))
    (hcut : CleanCut (text ++ following) back) : IsTokenAt kind text following := by
  obtain ⟨⟨hspells, hlongest⟩, hearlier⟩ := h
  refine ⟨⟨hspells.of_append, ?_⟩, ?_⟩
  · intro other rest hother hspelled
    rw [← hother] at hcut
    obtain ⟨longer, rest', hsplit, hlength, hlonger⟩ := hspelled.append hcut
    rw [← List.append_assoc, hother, List.append_assoc] at hsplit
    exact hlength.trans (hlongest longer rest' hsplit hlonger)
  · intro earlier hrank hmatches
    apply hearlier earlier hrank
    rw [← List.append_assoc]
    exact hmatches.append hcut

theorem Unmatched.of_append (h : Unmatched text (following ++ back))
    (hcut : CleanCut (text ++ following) back) : Unmatched text following := by
  rintro front c behind rfl kind hmatches
  apply h front c behind rfl kind
  rw [← List.append_assoc]
  apply hmatches.append
  have hbehind : CleanCut (front ++ (c :: behind ++ following)) back := by simpa using hcut
  exact hbehind.of_append (by simp)

end Spellings

theorem Segment.Fits.text_ne_nil {segment : Segment} {after : List Segment}
    (h : segment.Fits after) : segment.text ≠ [] := by
  cases segment with
  | token => exact h.1
  | skipped => exact h.1

/-- A piece fits in front of what a clean cut leaves of the pieces behind it. -/
theorem Segment.Fits.of_append {segment : Segment} {whole after : List Segment} {back : List Char}
    (h : segment.Fits whole) (htext : textOfAll whole = textOfAll after ++ back)
    (hhead : ∀ other, after.head? = some (skipped other) →
      ∃ longer, whole.head? = some (skipped longer))
    (hcut : CleanCut (segment.text ++ textOfAll after) back) : segment.Fits after := by
  cases segment with
  | token kind text =>
      obtain ⟨hne, htoken⟩ := h
      rw [htext] at htoken
      exact ⟨hne, htoken.of_append hcut⟩
  | skipped text =>
      obtain ⟨hne, halone, hunmatched⟩ := h
      rw [htext] at hunmatched
      refine ⟨hne, ?_, hunmatched.of_append hcut⟩
      intro other hother
      obtain ⟨longer, hlonger⟩ := hhead other hother
      exact halone longer hlonger

namespace Segmentation

variable {cs : List Char} {segments more : List Segment}

theorem text_ne_nil (h : Segmentation cs segments) : ∀ segment ∈ segments, segment.text ≠ [] := by
  intro segment hmem
  obtain ⟨before, after, hsplit⟩ := List.append_of_mem hmem
  exact (h.fits before segment after hsplit).text_ne_nil

/-- The pieces behind others fit without them. -/
theorem behind (h : Segmentation cs (segments ++ more)) : Segmentation (textOfAll more) more where
  text_eq := rfl
  fits := by
    rintro before segment after rfl
    exact h.fits (segments ++ before) segment after (by simp)

/-- The pieces in front of a clean cut fit without those behind it. -/
theorem before_cut (h : Segmentation cs (segments ++ more))
    (hcut : CleanCut (textOfAll segments) (textOfAll more)) :
    Segmentation (textOfAll segments) segments where
  text_eq := rfl
  fits := by
    rintro before segment after rfl
    have hfits := h.fits before segment (after ++ more) (by simp)
    apply hfits.of_append (textOfAll_append after more)
    · intro other hother
      exact ⟨other, by rw [List.head?_append, hother, Option.some_or]⟩
    · rw [textOfAll_append] at hcut
      exact hcut.of_append (by simp [hfits.text_ne_nil])

end Segmentation

/-- The position as counted from `base`. -/
def Position.back (base : UInt32) (p : Position) : Position := { p with offset := p.offset - base }

theorem Position.back_ofNat (base n : Nat) (file : String) :
    Position.back (.ofNat base) ⟨.ofNat (base + n), file⟩ = ⟨.ofNat n, file⟩ := by
  rw [Position.back, UInt32.ofNat_add, UInt32.add_comm, UInt32.add_sub_cancel]

/-- Lexemes of a scan up to a clean cut are the scan of their text, moved to its beginning. -/
theorem scan_join_text {source : String} {file : Option String} {before mid after : List Lexeme}
    (h : scan source file = before ++ mid ++ after)
    (hcut : CleanCut (textOfAll (mid.map Lexeme.segment)) (textOfAll (after.map Lexeme.segment))) :
    scan (String.join (mid.map Lexeme.text)) file =
      mid.map (Lexeme.relocate (.back (.ofNat (Lexeme.bytesOfAll before)))) := by
  have hsegments : (scan (String.join (mid.map Lexeme.text)) file).map Lexeme.segment =
      mid.map Lexeme.segment := by
    have hwhole := segmentation_scan source file
    rw [h, List.append_assoc, List.map_append, List.map_append] at hwhole
    have hmid := hwhole.behind.before_cut hcut
    rw [scan_segments, toList_join_text, ← hmid.eq_cut]
  have htiles := tiles_scan source file
  rw [h, List.append_assoc, Lexeme.tiles_append, Lexeme.tiles_append, Nat.zero_add] at htiles
  apply eq_map_relocate_of_tiles _ htiles.2.1 (tiles_scan _ file) hsegments
  intro n
  rw [Nat.zero_add]
  exact Position.back_ofNat _ n _

/-- A keyword of a scan ends its word. -/
theorem wordEnds_of_scan {source : String} {file : Option String} {before after : List Lexeme}
    {t : Token} (h : scan source file = before ++ .token t :: after) (ht : t.kind = .keyword) :
    WordEnds (textOfAll (after.map Lexeme.segment)) := by
  have hwhole := segmentation_scan source file
  rw [h, List.map_append, List.map_cons] at hwhole
  obtain ⟨_, ⟨⟨hspells, _⟩, _⟩⟩ := hwhole.fits _ (.token t.kind t.value.toList) _ rfl
  rw [ht] at hspells
  cases hspells with
  | keyword _ hend => exact hend

end ScriptSyntax
