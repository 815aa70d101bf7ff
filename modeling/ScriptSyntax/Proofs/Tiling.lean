import Mathlib.Data.List.Chain
import ScriptSyntax.Proofs.Segmentation

/-!
Where lexemes stand. Lexemes tile a source: each begins at the byte at which the
one in front of it stops, and covers the bytes of its own text. Spans keep these
byte counts modulo the size of a word, so they are exact for sources that are
short enough, and then the text of a lexeme is what the source has at its span.

The pending run gets its span late, from an offset saved when it began. The
invariant of a scan says that this offset is the end of the last lexeme emitted.
-/

namespace ScriptSyntax

namespace Text

/-- The part of a text between two byte offsets, if both lie between characters. -/
def slice? (start stop : Nat) (cs : List Char) : Option (List Char) := do
  let (_, rest) ← splitBytes? start cs
  let (text, _) ← splitBytes? (stop - start) rest
  return text

theorem slice?_append (before text after : List Char) :
    slice? (byteLength before) (byteLength before + byteLength text) (before ++ (text ++ after)) =
      some text := by
  have hbefore : splitBytes? (byteLength before) (before ++ (text ++ after)) =
      some (before, text ++ after) :=
    splitBytes?_eq_some_iff.mpr ⟨rfl, rfl⟩
  have htext : splitBytes? (byteLength text) (text ++ after) = some (text, after) :=
    splitBytes?_eq_some_iff.mpr ⟨rfl, rfl⟩
  simp [slice?, hbefore, htext]

end Text

namespace Lexeme

/-- Bytes that the texts of these lexemes have together. -/
def bytesOfAll : List Lexeme → Nat
  | [] => 0
  | lexeme :: lexemes => lexeme.text.utf8ByteSize + bytesOfAll lexemes

@[simp] theorem bytesOfAll_nil : bytesOfAll [] = 0 := rfl

@[simp] theorem bytesOfAll_cons (lexeme : Lexeme) (lexemes : List Lexeme) :
    bytesOfAll (lexeme :: lexemes) = lexeme.text.utf8ByteSize + bytesOfAll lexemes := rfl

@[simp] theorem bytesOfAll_append (lexemes more : List Lexeme) :
    bytesOfAll (lexemes ++ more) = bytesOfAll lexemes + bytesOfAll more := by
  induction lexemes with
  | nil => simp
  | cons lexeme lexemes ih => simp [ih, Nat.add_assoc]

theorem bytesOfAll_eq (lexemes : List Lexeme) :
    bytesOfAll lexemes = Text.byteLength (lexemes.flatMap (·.text.toList)) := by
  induction lexemes with
  | nil => rfl
  | cons lexeme lexemes ih => simp [ih, Text.byteLength_toList]

/-- The lexemes stand side by side from a byte on, each as long as its text. -/
def Tiles (file : String) : Nat → List Lexeme → Prop
  | _, [] => True
  | start, lexeme :: rest =>
      lexeme.span = .between file start (start + lexeme.text.utf8ByteSize) ∧
        Tiles file (start + lexeme.text.utf8ByteSize) rest

theorem tiles_append {file : String} {start : Nat} {lexemes more : List Lexeme} :
    Tiles file start (lexemes ++ more) ↔
      Tiles file start lexemes ∧ Tiles file (start + bytesOfAll lexemes) more := by
  induction lexemes generalizing start with
  | nil => simp [Tiles]
  | cons lexeme lexemes ih => simp [Tiles, ih, and_assoc, Nat.add_assoc]

end Lexeme

open Lexeme

namespace Scanner

/-- What was emitted tiles the bytes in front of the pending run, and the run
goes on from there to the offset. -/
structure Tiled (file : String) (s : Scanner) : Prop where
  file_eq : s.file = file
  emitted : Tiles file 0 s.emitted.toList
  pendingStart : s.pending ≠ "" → s.pendingStart = bytesOfAll s.emitted.toList
  offset : s.offset = bytesOfAll s.emitted.toList + s.pending.utf8ByteSize

variable {file : String} {s : Scanner}

theorem tiled_ofSource (source : String) (name : Option String) :
    (ofSource source name).Tiled (name.getD defaultFile) where
  file_eq := rfl
  emitted := trivial
  pendingStart h := absurd rfl h
  offset := rfl

@[simp] theorem flush_offset (s : Scanner) : s.flush.offset = s.offset := by
  unfold flush
  split <;> rfl

@[simp] theorem flush_file (s : Scanner) : s.flush.file = s.file := by
  unfold flush
  split <;> rfl

theorem Tiled.flush (h : s.Tiled file) : s.flush.Tiled file := by
  unfold Scanner.flush
  split
  · exact h
  · next hpending =>
      have hstart := h.pendingStart hpending
      have hoffset := h.offset
      refine ⟨h.file_eq, ?_, fun hne => absurd rfl hne, ?_⟩
      · rw [Array.toList_push, tiles_append]
        refine ⟨h.emitted, ?_, trivial⟩
        simp only [Lexeme.span, Lexeme.text, h.file_eq, hstart, hoffset, Nat.zero_add]
      · simpa [Lexeme.text] using hoffset

/-- A token that is accepted stands where the offset is. -/
theorem Tiled.accept (h : s.Tiled file) (kind : TokenKind) (text : List Char) :
    (s.accept kind text).Tiled file := by
  have hflush := h.flush
  have hoffset : s.offset = bytesOfAll s.flush.emitted.toList := by
    simpa using hflush.offset
  have hemitted : (s.accept kind text).emitted.toList = s.flush.emitted.toList ++
      [.token ⟨kind, String.ofList text,
        .between file s.offset (s.offset + Text.byteLength text)⟩] := by
    simp [Scanner.accept, push, advance, h.file_eq]
  refine ⟨?_, ?_, fun hne => absurd (accept_pending s kind text) hne, ?_⟩
  · simp [Scanner.accept, push, advance, h.file_eq]
  · rw [hemitted, tiles_append]
    refine ⟨hflush.emitted, ?_, trivial⟩
    simp only [Lexeme.span, Lexeme.text, Text.byteLength_ofList, hoffset, Nat.zero_add]
  · rw [hemitted, accept_pending]
    simp [Scanner.accept, push, advance, Lexeme.text, Text.byteLength_ofList, ← hoffset]

/-- A character that is skipped begins the pending run or prolongs it. -/
theorem Tiled.skip (h : s.Tiled file) (c : Char) : (s.skip c).Tiled file := by
  refine ⟨h.file_eq, h.emitted, fun _ => ?_, ?_⟩
  · by_cases hpending : s.pending = ""
    · simpa [Scanner.skip, hpending] using h.offset
    · simpa [Scanner.skip, hpending] using h.pendingStart hpending
  · simp [Scanner.skip, h.offset, Nat.add_assoc]

theorem Tiled.step (h : s.Tiled file) (c : Char) (cs : List Char) :
    (s.step c cs).1.Tiled file := by
  unfold Scanner.step
  split
  · exact h.accept _ _
  · exact h.skip c

theorem Tiled.run (h : s.Tiled file) (rest : List Char) : (s.run rest).Tiled file := by
  fun_induction Scanner.run s rest with
  | case1 s => exact h
  | case2 s c cs next ih => exact ih (h.step c cs)

end Scanner

theorem tiles_scan (source : String) (file : Option String) :
    Tiles (file.getD defaultFile) 0 (scan source file) :=
  ((Scanner.tiled_ofSource source file).run source.toList).flush.emitted

/-- The span of a lexeme of a source: as many bytes as its text has, behind as
many as the lexemes in front of it have. -/
theorem span_of_scan {source : String} {file : Option String} {before after : List Lexeme}
    {lexeme : Lexeme} (h : scan source file = before ++ lexeme :: after) :
    lexeme.span = .between (file.getD defaultFile) (bytesOfAll before)
      (bytesOfAll before + lexeme.text.utf8ByteSize) := by
  have htiles := tiles_scan source file
  rw [h, tiles_append, Nat.zero_add] at htiles
  exact htiles.2.1

theorem flatMap_text_scan (source : String) (file : Option String) :
    (scan source file).flatMap (·.text.toList) = source.toList := by
  have hjoin := congrArg String.toList (join_text_scan source file)
  rwa [String.toList_join, List.flatMap_map] at hjoin

theorem bytesOfAll_scan (source : String) (file : Option String) :
    bytesOfAll (scan source file) = source.utf8ByteSize := by
  rw [bytesOfAll_eq, flatMap_text_scan, Text.byteLength_toList]

/-- In a source that is short enough no byte count wraps around. -/
theorem offsets_of_scan {source : String} {file : Option String} {before after : List Lexeme}
    {lexeme : Lexeme} (hshort : source.utf8ByteSize < UInt32.size)
    (h : scan source file = before ++ lexeme :: after) :
    lexeme.span.start.offset.toNat = bytesOfAll before ∧
      lexeme.span.stop.offset.toNat = bytesOfAll before + lexeme.text.utf8ByteSize := by
  have hall := bytesOfAll_scan source file
  rw [h, bytesOfAll_append, bytesOfAll_cons] at hall
  have hstart : bytesOfAll before < UInt32.size := by omega
  have hstop : bytesOfAll before + lexeme.text.utf8ByteSize < UInt32.size := by omega
  rw [span_of_scan h]
  simp only [Span.between, UInt32.toNat_ofNat', Nat.mod_eq_of_lt hstart, Nat.mod_eq_of_lt hstop,
    and_self]

/-- No lexeme lies in front of an earlier one. -/
theorem start_le_of_scan {source : String} {file : Option String} {before after : List Lexeme}
    {first lexeme : Lexeme} (hshort : source.utf8ByteSize < UInt32.size)
    (h : scan source file = before ++ first :: after) (hmem : lexeme ∈ first :: after) :
    first.span.start.offset ≤ lexeme.span.start.offset ∧
      first.span.start.offset ≤ lexeme.span.stop.offset := by
  have hfirst := (offsets_of_scan hshort h).1
  obtain ⟨between, more, hsplit⟩ := List.append_of_mem hmem
  rw [hsplit, ← List.append_assoc] at h
  obtain ⟨hstart, hstop⟩ := offsets_of_scan hshort h
  rw [bytesOfAll_append] at hstart hstop
  rw [UInt32.le_iff_toNat_le, UInt32.le_iff_toNat_le]
  omega

theorem slice?_of_scan {source : String} {file : Option String} {lexeme : Lexeme}
    (hshort : source.utf8ByteSize < UInt32.size) (h : lexeme ∈ scan source file) :
    Text.slice? lexeme.span.start.offset.toNat lexeme.span.stop.offset.toNat source.toList =
      some lexeme.text.toList := by
  obtain ⟨before, after, hscan⟩ := List.append_of_mem h
  obtain ⟨hstart, hstop⟩ := offsets_of_scan hshort hscan
  have hsource : source.toList = before.flatMap (·.text.toList) ++ (lexeme.text.toList ++
      after.flatMap (·.text.toList)) := by
    rw [← flatMap_text_scan source file, hscan]
    simp
  rw [hstart, hstop, bytesOfAll_eq, ← Text.byteLength_toList, hsource]
  exact Text.slice?_append _ _ _

/-- Lexemes tile their source: their texts make it up, and their spans count its
bytes modulo the size of a word. In a source that is short enough the spans are
exact, so each lexeme is the slice of the source at its span. -/
theorem scan_tiles_source (source : String) (file : Option String) :
    String.join ((scan source file).map Lexeme.text) = source ∧
    (∀ before lexeme after, scan source file = before ++ lexeme :: after →
      lexeme.span.start.offset.toNat = bytesOfAll before % UInt32.size ∧
      lexeme.span.stop.offset.toNat =
        (bytesOfAll before + lexeme.text.utf8ByteSize) % UInt32.size ∧
      lexeme.span.start.file = file.getD "shell" ∧
      lexeme.span.stop.file = file.getD "shell") ∧
    (source.utf8ByteSize < UInt32.size →
      (∀ first ∈ (scan source file).head?, first.span.start.offset = 0) ∧
      (scan source file).IsChain (fun lexeme next => lexeme.span.stop = next.span.start) ∧
      (∀ last ∈ (scan source file).getLast?,
        last.span.stop.offset.toNat = source.utf8ByteSize) ∧
      ∀ lexeme ∈ scan source file,
        Text.slice? lexeme.span.start.offset.toNat lexeme.span.stop.offset.toNat source.toList =
          some lexeme.text.toList) := by
  refine ⟨join_text_scan source file, ?_, ?_⟩
  · intro before lexeme after h
    rw [span_of_scan h]
    exact ⟨UInt32.toNat_ofNat', UInt32.toNat_ofNat', rfl, rfl⟩
  · intro hshort
    refine ⟨?_, ?_, ?_, fun _ hlexeme => slice?_of_scan hshort hlexeme⟩
    · intro first hfirst
      obtain ⟨after, hscan⟩ := List.head?_eq_some_iff.mp hfirst
      have hfront : scan source file = [] ++ first :: after := hscan
      rw [span_of_scan hfront]
      rfl
    · rw [List.isChain_iff_forall_rel_of_append_cons_cons]
      intro lexeme next before after hscan
      have hnext : scan source file = (before ++ [lexeme]) ++ next :: after := by simp [hscan]
      rw [span_of_scan hscan, span_of_scan hnext]
      simp [Span.between]
    · intro last hlast
      obtain ⟨before, hscan⟩ := List.getLast?_eq_some_iff.mp hlast
      rw [(offsets_of_scan hshort hscan).2, ← bytesOfAll_scan source file, hscan]
      simp

/-- A skipped letter of two bytes moves the name behind it. -/
theorem scan_tiles_source_accent :
    "é f".utf8ByteSize < UInt32.size ∧
      (scan "é f" none).map (·.span) = [.between "shell" 0 3, .between "shell" 3 4] ∧
      (scan "é f" none).IsChain (fun lexeme next => lexeme.span.stop = next.span.start) ∧
      ∀ lexeme ∈ scan "é f" none,
        Text.slice? lexeme.span.start.offset.toNat lexeme.span.stop.offset.toNat "é f".toList =
          some lexeme.text.toList := by
  have hshort : "é f".utf8ByteSize < UInt32.size := by decide
  obtain ⟨_, hchain, _, hslices⟩ := (scan_tiles_source "é f" none).2.2 hshort
  exact ⟨hshort, by decide +kernel, hchain, hslices⟩

end ScriptSyntax
