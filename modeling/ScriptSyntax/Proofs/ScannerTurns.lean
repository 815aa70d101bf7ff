import ScriptSyntax.Proofs.Tiling

/-!
A scan, turn by turn. Each turn of the loop cuts the source at the offset, and reads one token
there or passes over one character. The offset is a bare count of bytes, moved without a look
at the source; it stays between two characters because it counts the bytes of what has been
passed, and what has been passed and what is left make up the source.

`turn?` cuts the source anew each time, and has no answer where it cannot be cut; `run` carries
along what is left. Main statement: no turn in front of the end is without an answer, each one
moves the offset forward, and the turns come to the scanner that `run` returns.
-/

namespace ScriptSyntax

namespace Scanner

open Lexeme

/-- One turn of the loop, from what the offset leaves of the source. There is none at the end,
and none where the offset is inside a character. -/
def turn? (s : Scanner) : Option Scanner :=
  if s.atEnd then none
  else
    match s.remainder?.map String.toList with
    | some (c :: cs) => some (s.step c cs).1
    | _ => none

/-- The scanners at the head of the loop over a source. -/
inductive Reached (source : String) (file : Option String) : Scanner → Prop where
  | start : Reached source file (ofSource source file)
  | turn {s t : Scanner} (hs : Reached source file s) (ht : s.turn? = some t) :
      Reached source file t

/-- The texts of what was emitted, then the characters that are pending. -/
def passed (s : Scanner) : String := String.join (s.emitted.toList.map Lexeme.text) ++ s.pending

theorem flush_passed (s : Scanner) : s.flush.passed = s.passed := by
  unfold flush
  split
  · rfl
  · simp [passed, Lexeme.text]

theorem accept_passed (s : Scanner) (kind : TokenKind) (text : List Char) :
    (s.accept kind text).passed = s.passed ++ String.ofList text := by
  rw [← flush_passed s]
  simp [passed, accept, push, advance, Lexeme.text]

theorem skip_passed (s : Scanner) (c : Char) :
    (s.skip c).passed = s.passed ++ String.singleton c := by
  simp only [passed, skip, String.push_eq_append, String.append_assoc]

/-- A step takes from what is left what it adds to what has been passed. -/
theorem step_passed (s : Scanner) (c : Char) (cs : List Char) :
    (s.step c cs).1.passed ++ String.ofList (s.step c cs).2 =
      s.passed ++ String.ofList (c :: cs) := by
  unfold step
  split
  · next kind r hreading =>
      rw [accept_passed, String.append_assoc, ← String.ofList_append,
        (firstReading?_splits hreading).1]
  · rw [skip_passed, String.append_assoc, ← String.ofList_cons]

@[simp] theorem flush_source (s : Scanner) : s.flush.source = s.source := by
  unfold flush
  split <;> rfl

theorem step_source (s : Scanner) (c : Char) (cs : List Char) :
    (s.step c cs).1.source = s.source := by
  unfold step
  split
  · simp [accept, push, advance]
  · rfl

/-- A token that is read has at least one byte, and so has a character. -/
theorem offset_lt_step (s : Scanner) (c : Char) (cs : List Char) :
    s.offset < (s.step c cs).1.offset := by
  unfold step
  split
  · next kind r hreading =>
      have hpos := Text.byteLength_pos (firstReading?_splits hreading).2
      simp only [accept, push, advance, flush_offset]
      omega
  · have hpos := c.utf8Size_pos
    simp only [skip]
    omega

theorem flush_emitted_of_pending {s : Scanner} (h : s.pending ≠ "") :
    s.flush.emitted =
      s.emitted.push (.skipped ⟨s.pending, .between s.file s.pendingStart s.offset⟩) := by
  simp [flush, h]

namespace Tiled

variable {file : String} {s : Scanner}

theorem utf8ByteSize_passed (h : s.Tiled file) : s.passed.utf8ByteSize = s.offset := by
  rw [h.offset, bytesOfAll_eq, passed, String.utf8ByteSize_append, ← Text.byteLength_toList,
    String.toList_join, List.flatMap_map]

theorem pendingStart_add (h : s.Tiled file) (hpending : s.pending ≠ "") :
    s.pendingStart + s.pending.utf8ByteSize = s.offset := by
  rw [h.pendingStart hpending, h.offset]

end Tiled

/-- The invariant of the loop, while `rest` is left of the source. -/
structure OnCourse (source file : String) (rest : List Char) (s : Scanner) : Prop where
  source_eq : s.source = source
  passed_rest : s.passed ++ String.ofList rest = source
  tiled : s.Tiled file

theorem onCourse_ofSource (source : String) (file : Option String) :
    OnCourse source (file.getD defaultFile) source.toList (ofSource source file) where
  source_eq := rfl
  passed_rest := by simp [passed, ofSource]
  tiled := tiled_ofSource source file

namespace OnCourse

variable {source file : String} {rest : List Char} {s : Scanner}

theorem step {c : Char} {cs : List Char} (h : OnCourse source file (c :: cs) s) :
    OnCourse source file (s.step c cs).2 (s.step c cs).1 where
  source_eq := (step_source s c cs).trans h.source_eq
  passed_rest := (step_passed s c cs).trans h.passed_rest
  tiled := h.tiled.step c cs

theorem run (h : OnCourse source file rest s) : OnCourse source file [] (s.run rest) := by
  fun_induction Scanner.run s rest with
  | case1 s => exact h
  | case2 s c cs next ih => exact ih h.step

theorem toList_eq (h : OnCourse source file rest s) :
    s.passed.toList ++ rest = source.toList := by
  rw [← h.passed_rest, String.toList_append, String.toList_ofList]

theorem offset_add (h : OnCourse source file rest s) :
    s.offset + Text.byteLength rest = source.utf8ByteSize := by
  rw [← h.passed_rest, String.utf8ByteSize_append, h.tiled.utf8ByteSize_passed,
    Text.byteLength_ofList]

/-- The offset is a boundary between characters. -/
theorem isValid (h : OnCourse source file rest s) :
    String.Pos.Raw.IsValid source ⟨s.offset⟩ := by
  rw [String.Pos.Raw.isValid_iff_exists_append]
  refine ⟨s.passed, String.ofList rest, h.passed_rest.symm, ?_⟩
  rw [← h.tiled.utf8ByteSize_passed]
  rfl

/-- Cut at the offset, the source has an answer, and it is what is left. -/
theorem remainder?_eq (h : OnCourse source file rest s) :
    s.remainder? = some (String.ofList rest) := by
  have hsplit : Text.splitBytes? s.offset source.toList = some (s.passed.toList, rest) := by
    rw [Text.splitBytes?_eq_some_iff, Text.byteLength_toList]
    exact ⟨h.toList_eq.symm, h.tiled.utf8ByteSize_passed⟩
  simp [remainder?, h.source_eq, hsplit]

/-- What has been passed is the source up to the offset. -/
theorem slice?_passed (h : OnCourse source file rest s) :
    Text.slice? 0 s.offset source.toList = some s.passed.toList := by
  have hslice := Text.slice?_append [] s.passed.toList rest
  rwa [Text.byteLength_nil, Nat.zero_add, Text.byteLength_toList, h.tiled.utf8ByteSize_passed,
    List.nil_append, h.toList_eq] at hslice

/-- What is pending is the source from where the run began. -/
theorem slice?_pending (h : OnCourse source file rest s) (hpending : s.pending ≠ "") :
    Text.slice? s.pendingStart s.offset source.toList = some s.pending.toList := by
  have hslice := Text.slice?_append (s.emitted.toList.flatMap (·.text.toList)) s.pending.toList
    rest
  rw [← bytesOfAll_eq, ← h.tiled.pendingStart hpending, Text.byteLength_toList,
    h.tiled.pendingStart_add hpending] at hslice
  rw [← h.toList_eq, passed]
  simpa [String.toList_join, List.flatMap_map] using hslice

theorem atEnd_iff (h : OnCourse source file rest s) : s.atEnd ↔ rest = [] := by
  have hoffset := h.offset_add
  rw [atEnd, decide_eq_true_iff, h.source_eq]
  constructor
  · intro hend
    by_contra hne
    have hpos := Text.byteLength_pos hne
    omega
  · rintro rfl
    exact Nat.le_of_eq hoffset.symm

/-- There is a turn just if something is left, and it is the step into that. -/
theorem turn?_eq_some_iff (h : OnCourse source file rest s) {t : Scanner} :
    s.turn? = some t ↔ ∃ c cs, rest = c :: cs ∧ (s.step c cs).1 = t := by
  cases rest with
  | nil => simp [turn?, h.atEnd_iff.mpr rfl]
  | cons c cs =>
      have hopen : ¬ s.atEnd := by simp [h.atEnd_iff]
      simp [turn?, hopen, h.remainder?_eq]

end OnCourse

section Loop

variable {source : String} {file : Option String} {s : Scanner}

/-- Every scanner at the head of the loop is on course, to where `run` ends. -/
theorem Reached.exists_rest (h : Reached source file s) :
    ∃ rest, OnCourse source (file.getD defaultFile) rest s ∧
      s.run rest = (ofSource source file).run source.toList := by
  induction h with
  | start => exact ⟨source.toList, onCourse_ofSource source file, rfl⟩
  | turn _ ht ih =>
      obtain ⟨rest, hcourse, hrun⟩ := ih
      obtain ⟨c, cs, rfl, rfl⟩ := hcourse.turn?_eq_some_iff.mp ht
      rw [Scanner.run] at hrun
      exact ⟨_, hcourse.step, hrun⟩

/-- What `run` returns is at the head of the loop too: the turns come to it. -/
theorem Reached.run {rest : List Char} (hreached : Reached source file s)
    (h : OnCourse source (file.getD defaultFile) rest s) : Reached source file (s.run rest) := by
  fun_induction Scanner.run s rest with
  | case1 s => exact hreached
  | case2 s c cs next ih =>
      have hturn : s.turn? = some next.1 := h.turn?_eq_some_iff.mpr ⟨c, cs, rfl, rfl⟩
      exact ih (hreached.turn hturn) h.step

end Loop

end Scanner

open Scanner

end ScriptSyntax
