import ScriptSyntax.Proofs.Spelling
import ScriptSyntax.Scanner

/-!
How a source falls into pieces, spans aside. A segmentation is described piece
by piece, each by what comes behind it: a token is the longest spelling of the
first kind that has one there, and in a skipped piece there is no spelling at
any character.

The scanner carries a pending run and flushes it late; `Segment.cut` is the same
cut written front to back. Main statement: the scanner's pieces are the one
segmentation of the source. Hence no character is lost.
-/

namespace ScriptSyntax

/-- A lexeme without its span. -/
inductive Segment where
  | token (kind : TokenKind) (text : List Char)
  | skipped (text : List Char)
  deriving DecidableEq, Repr

def Lexeme.segment : Lexeme → Segment
  | token t => .token t.kind t.value.toList
  | skipped s => .skipped s.text.toList

/-- No kind has a spelling at any character of the text, with `following` behind it. -/
def Unmatched (text following : List Char) : Prop :=
  ∀ front c back, text = front ++ c :: back → ∀ kind, ¬ Matches kind (c :: back ++ following)

namespace Segment

def text : Segment → List Char
  | token _ text => text
  | skipped text => text

def textOfAll (segments : List Segment) : List Char := segments.flatMap text

@[simp] theorem textOfAll_nil : textOfAll [] = [] := rfl

@[simp] theorem textOfAll_cons (segment : Segment) (segments : List Segment) :
    textOfAll (segment :: segments) = segment.text ++ textOfAll segments := rfl

@[simp] theorem textOfAll_append (segments more : List Segment) :
    textOfAll (segments ++ more) = textOfAll segments ++ textOfAll more :=
  List.flatMap_append

/-- What is asked of a piece in front of the pieces `after`. No piece is empty,
and no skipped piece stands in front of another. -/
def Fits (after : List Segment) : Segment → Prop
  | token kind text => text ≠ [] ∧ IsTokenAt kind text (textOfAll after)
  | skipped text => text ≠ [] ∧ (∀ other, after.head? ≠ some (skipped other)) ∧
      Unmatched text (textOfAll after)

end Segment

theorem Lexeme.segment_text (lexeme : Lexeme) : lexeme.segment.text = lexeme.text.toList := by
  cases lexeme <;> rfl

open Segment

/-- Pieces that make up the text and all fit in their places. -/
structure Segmentation (cs : List Char) (segments : List Segment) : Prop where
  text_eq : textOfAll segments = cs
  fits : ∀ before segment after, segments = before ++ segment :: after → segment.Fits after

namespace Segment

/-- Puts a skipped run in front, as part of the first piece if that is skipped too. -/
def prepend (run : List Char) (segments : List Segment) : List Segment :=
  if run = [] then segments
  else
    match segments with
    | skipped text :: rest => skipped (run ++ text) :: rest
    | rest => skipped run :: rest

/-- The cut from the front: a token where one is read, else one skipped character. -/
def cut : List Char → List Segment
  | [] => []
  | c :: cs =>
      match _ : firstReading? (c :: cs) with
      | some (kind, r) => token kind r.text :: cut r.rest
      | none => prepend [c] (cut cs)
  termination_by cs => cs.length
  decreasing_by
    · exact (firstReading?_splits ‹_›).length_lt
    · simp

@[simp] theorem prepend_nil (segments : List Segment) : prepend [] segments = segments := rfl

/-- A run in front of a token is a piece of its own. -/
theorem prepend_token (run : List Char) (kind : TokenKind) (text : List Char)
    (rest : List Segment) :
    prepend run (token kind text :: rest) = prepend run [] ++ token kind text :: rest := by
  unfold prepend
  split <;> rfl

/-- Two runs, one after the other, are one. -/
theorem prepend_prepend (run more : List Char) (segments : List Segment) :
    prepend run (prepend more segments) = prepend (run ++ more) segments := by
  by_cases hrun : run = []
  · simp [hrun]
  · by_cases hmore : more = []
    · simp [hmore]
    · cases segments with
      | nil => simp [prepend, hrun, hmore]
      | cons segment rest =>
          cases segment <;> simp [prepend, hrun, hmore]

/-- A token is cut off where one is read. -/
theorem cut_of_reading {cs : List Char} {kind : TokenKind} {r : Reading}
    (h : firstReading? cs = some (kind, r)) : cut cs = token kind r.text :: cut r.rest := by
  cases cs with
  | nil =>
      obtain ⟨hsplit, hne⟩ := firstReading?_splits h
      exact absurd (List.append_eq_nil_iff.mp hsplit).1 hne
  | cons c cs =>
      rw [cut]
      split <;> simp_all

theorem cut_of_none {c : Char} {cs : List Char} (h : firstReading? (c :: cs) = none) :
    cut (c :: cs) = prepend [c] (cut cs) := by
  rw [cut]
  split <;> simp_all

end Segment

namespace Scanner

@[simp] theorem flush_pending (s : Scanner) : s.flush.pending = "" := by
  unfold flush
  split
  · assumption
  · rfl

/-- Flushing emits the pending run as one piece, if there is one. -/
theorem flush_segments (s : Scanner) :
    s.flush.emitted.toList.map Lexeme.segment =
      s.emitted.toList.map Lexeme.segment ++ prepend s.pending.toList [] := by
  unfold flush
  by_cases hpending : s.pending = ""
  · simp [hpending]
  · have hrun : s.pending.toList ≠ [] := by simpa using hpending
    simp [hpending, hrun, prepend, Lexeme.segment]

@[simp] theorem accept_pending (s : Scanner) (kind : TokenKind) (text : List Char) :
    (s.accept kind text).pending = "" := s.flush_pending

theorem accept_segments (s : Scanner) (kind : TokenKind) (text : List Char) :
    (s.accept kind text).emitted.toList.map Lexeme.segment =
      s.emitted.toList.map Lexeme.segment ++ prepend s.pending.toList [] ++
        [token kind text] := by
  rw [← flush_segments]
  simp [accept, push, advance, Lexeme.segment]

/-- One step keeps the pieces there are and those still to come. -/
theorem step_segments (s : Scanner) (c : Char) (cs : List Char) :
    (s.step c cs).1.emitted.toList.map Lexeme.segment ++
        prepend (s.step c cs).1.pending.toList (cut (s.step c cs).2) =
      s.emitted.toList.map Lexeme.segment ++ prepend s.pending.toList (cut (c :: cs)) := by
  cases hreading : firstReading? (c :: cs) with
  | some found =>
      obtain ⟨kind, r⟩ := found
      have hstep : s.step c cs = (s.accept kind r.text, r.rest) := by simp [step, hreading]
      rw [hstep, cut_of_reading hreading, prepend_token, accept_segments]
      simp
  | none =>
      have hstep : s.step c cs = (s.skip c, cs) := by simp [step, hreading]
      rw [hstep, cut_of_none hreading, prepend_prepend]
      simp [skip]

/-- The pieces of a run: those emitted before, then the cut of what was left,
with what was pending in front. -/
theorem run_segments (s : Scanner) (rest : List Char) :
    (s.run rest).flush.emitted.toList.map Lexeme.segment =
      s.emitted.toList.map Lexeme.segment ++ prepend s.pending.toList (cut rest) := by
  fun_induction run s rest with
  | case1 s => rw [flush_segments, cut]
  | case2 s c cs next ih => rw [ih, step_segments]

end Scanner

theorem scan_segments (source : String) (file : Option String) :
    (scan source file).map Lexeme.segment = cut source.toList := by
  unfold scan
  rw [Scanner.run_segments]
  rfl

section Uniqueness

variable {cs : List Char} {segment : Segment} {segments : List Segment}

theorem segmentation_nil : Segmentation [] [] where
  text_eq := rfl
  fits := by
    intro before segment after h
    simp at h

theorem segmentation_cons_iff : Segmentation cs (segment :: segments) ↔
    segment.Fits segments ∧ ∃ rest, segment.text ++ rest = cs ∧ Segmentation rest segments := by
  constructor
  · intro h
    refine ⟨h.fits [] segment segments rfl, textOfAll segments, h.text_eq, rfl, ?_⟩
    intro before other after hother
    exact h.fits (segment :: before) other after (by rw [hother]; rfl)
  · rintro ⟨hfirst, rest, rfl, h⟩
    refine ⟨by rw [textOfAll_cons, h.text_eq], ?_⟩
    intro before other after hother
    rcases List.cons_eq_append_iff.mp hother with ⟨rfl, hfront⟩ | ⟨before, rfl, hbehind⟩
    · obtain ⟨rfl, rfl⟩ := List.cons.inj hfront
      exact hfirst
    · exact h.fits before other after hbehind

theorem unmatched_nil (following : List Char) : Unmatched [] following := by
  intro front c back h
  simp at h

theorem unmatched_cons_iff {c : Char} {text following : List Char} :
    Unmatched (c :: text) following ↔
      (∀ kind, ¬ Matches kind (c :: text ++ following)) ∧ Unmatched text following := by
  constructor
  · intro h
    refine ⟨h [] c text rfl, ?_⟩
    intro front d back heq
    exact h (c :: front) d back (by rw [heq]; rfl)
  · rintro ⟨hc, h⟩ front d back heq
    rcases List.cons_eq_append_iff.mp heq with ⟨rfl, hfront⟩ | ⟨front, rfl, hbehind⟩
    · obtain ⟨rfl, rfl⟩ := List.cons.inj hfront
      exact hc
    · exact h front d back hbehind

/-- A run is unmatched if both its parts are, the first one with the second behind it. -/
theorem unmatched_append_iff {text more following : List Char} :
    Unmatched (text ++ more) following ↔
      Unmatched text (more ++ following) ∧ Unmatched more following := by
  induction text with
  | nil => simp [unmatched_nil]
  | cons c text ih =>
      rw [List.cons_append, unmatched_cons_iff, unmatched_cons_iff, ih, and_assoc,
        List.cons_append, List.cons_append, List.append_assoc]

theorem cut_append_of_unmatched {text rest : List Char} (h : Unmatched text rest) :
    cut (text ++ rest) = prepend text (cut rest) := by
  induction text with
  | nil => rfl
  | cons c text ih =>
      obtain ⟨hc, htext⟩ := unmatched_cons_iff.mp h
      have hnone : firstReading? (c :: (text ++ rest)) = none := firstReading?_eq_none_iff.mpr hc
      rw [List.cons_append, cut_of_none hnone, ih htext, prepend_prepend]
      rfl

/-- There is no segmentation but the cut. -/
theorem Segmentation.eq_cut (h : Segmentation cs segments) : segments = cut cs := by
  induction segments generalizing cs with
  | nil =>
      obtain rfl : [] = cs := h.text_eq
      rw [cut]
  | cons segment segments ih =>
      obtain ⟨hfits, rest, rfl, hrest⟩ := segmentation_cons_iff.mp h
      have hcut := ih hrest
      cases segment with
      | token kind text =>
          obtain ⟨_, htoken⟩ := hfits
          rw [hrest.text_eq] at htoken
          have hreading : firstReading? (text ++ rest) = some (kind, ⟨text, rest⟩) :=
            firstReading?_eq_some_iff.mpr ⟨rfl, htoken⟩
          rw [Segment.text, cut_of_reading hreading, hcut]
      | skipped text =>
          obtain ⟨hne, halone, hnone⟩ := hfits
          rw [hrest.text_eq] at hnone
          rw [Segment.text, cut_append_of_unmatched hnone, ← hcut]
          unfold prepend
          rw [if_neg hne]
          split
          · next other _ => exact absurd rfl (halone other)
          · rfl

/-- A character at which no kind has a spelling joins the pieces behind it. -/
theorem Segmentation.prepend_char {c : Char} (h : Segmentation cs segments)
    (hnone : ∀ kind, ¬ Matches kind (c :: cs)) : Segmentation (c :: cs) (prepend [c] segments) := by
  -- the first piece becomes `c :: text`, where `text` is what it skipped before
  have hskipped {text : List Char} {after : List Segment}
      (halone : ∀ other, after.head? ≠ some (skipped other))
      (htext : Unmatched text (textOfAll after)) (hcs : text ++ textOfAll after = cs)
      (hafter : Segmentation (textOfAll after) after) :
      Segmentation (c :: cs) (skipped (c :: text) :: after) := by
    have hunmatched : Unmatched (c :: text) (textOfAll after) := by
      rw [unmatched_cons_iff, List.cons_append, hcs]
      exact ⟨hnone, htext⟩
    rw [segmentation_cons_iff]
    exact ⟨⟨by simp, halone, hunmatched⟩, textOfAll after, by simp [Segment.text, hcs], hafter⟩
  have htext := h.text_eq
  cases segments with
  | nil => exact hskipped (by simp) (unmatched_nil _) htext segmentation_nil
  | cons segment segments =>
      cases segment with
      | token kind text =>
          exact hskipped (by simp) (unmatched_nil _) htext (by rwa [htext])
      | skipped text =>
          obtain ⟨⟨_, halone, hunmatched⟩, rest, _, hrest⟩ := segmentation_cons_iff.mp h
          exact hskipped halone hunmatched htext (by rwa [hrest.text_eq])

theorem segmentation_cut (cs : List Char) : Segmentation cs (cut cs) := by
  fun_induction cut cs with
  | case1 => exact segmentation_nil
  | case2 c cs kind r hreading ih =>
      obtain ⟨hsplit, htoken⟩ := firstReading?_eq_some_iff.mp hreading
      have hne := (firstReading?_splits hreading).2
      rw [segmentation_cons_iff]
      exact ⟨⟨hne, by rwa [ih.text_eq]⟩, r.rest, hsplit, ih⟩
  | case3 c cs hreading ih => exact ih.prepend_char (firstReading?_eq_none_iff.mp hreading)

end Uniqueness

theorem segmentation_scan (source : String) (file : Option String) :
    Segmentation source.toList ((scan source file).map Lexeme.segment) := by
  rw [scan_segments]
  exact segmentation_cut _

theorem toList_join_text (lexemes : List Lexeme) :
    (String.join (lexemes.map Lexeme.text)).toList = textOfAll (lexemes.map Lexeme.segment) := by
  rw [String.toList_join, textOfAll, List.flatMap_map, List.flatMap_map]
  simp only [Lexeme.segment_text]

/-- No character of a source is lost. -/
theorem join_text_scan (source : String) (file : Option String) :
    String.join ((scan source file).map Lexeme.text) = source := by
  rw [← String.toList_inj, toList_join_text]
  exact (segmentation_scan source file).text_eq

/-- The lexemes of a source, spans aside, are its one segmentation. -/
theorem scan_iff_segmentation (source : String) (file : Option String) (segments : List Segment) :
    Segmentation source.toList segments ↔ segments = (scan source file).map Lexeme.segment := by
  rw [scan_segments]
  constructor
  · exact Segmentation.eq_cut
  · rintro rfl
    exact segmentation_cut _

-- `or` needs no end of word, and a comment comes before a number
example : (scan "order --1" none).map Lexeme.segment =
    [.token .operator "or".toList, .token .identifier "der".toList, .skipped [' '],
      .token .comment "--1".toList] := by
  decide +kernel

end ScriptSyntax
