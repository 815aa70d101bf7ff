import ScriptSyntax.Proofs.Layout
import ScriptSyntax.Proofs.Tiling

/-!
Lexemes moved to other positions. A parse only hands positions on: it puts those
of the lexemes into its tree and into its fault, and decides nothing by them. So
the parse of moved lexemes is the parse of the lexemes, moved. Scans that cut
their sources into the same pieces differ by such a move: a scan is its pieces,
put in their places.
-/

namespace ScriptSyntax

open ScriptSyntax.Tree

def Node.relocate (move : Position → Position) (node : Node) : Node :=
  { node with children := relocateAll move node.children }

/-- Lexemes pass for what they become when all positions are moved. -/
def Likeness.moved (move : Position → Position) : Likeness where
  token t u := t.relocate move = u
  trivia run run' := run.map (Lexeme.relocate move) = run'
  position p q := move p = q
  kind_eq h := h ▸ rfl
  value_eq h := h ▸ rfl
  start h := h ▸ rfl
  trivia_nil := rfl

section Moved

variable (move : Position → Position)

theorem Lexeme.significant?_relocate (lexeme : Lexeme) :
    (lexeme.relocate move).significant? = lexeme.significant?.map (Token.relocate move) := by
  cases lexeme with
  | skipped s => rfl
  | token t =>
      have hsame : (t.relocate move).isSignificant = t.isSignificant := rfl
      simp only [Lexeme.relocate, Lexeme.significant?, hsame]
      split <;> rfl

theorem significantTokens_relocate (lexemes : List Lexeme) :
    significantTokens (lexemes.map (Lexeme.relocate move)) =
      (significantTokens lexemes).map (Token.relocate move) := by
  rw [significantTokens, significantTokens, List.filterMap_map, List.map_filterMap]
  exact List.filterMap_congr fun lexeme _ => lexeme.significant?_relocate move

namespace Likeness

theorem meets_moved : (moved move).Meets move id where
  token h := h
  position h := h

variable {move}

theorem relocate_fault_eq {f g : Fault} (h : (moved move).Faults f g) : f.relocate move = g := by
  have hmoved := (meets_moved move).fault h
  rwa [Fault.relocate_id] at hmoved

theorem map_relocate_eq {fault? fault?' : Option Fault}
    (h : Option.Rel (moved move).Faults fault? fault?') :
    fault?' = fault?.map (Fault.relocate move) := by
  cases h with
  | none => rfl
  | some hfg => rw [Option.map_some, relocate_fault_eq hfg]

variable (move) in
theorem lexemes_moved (lexemes : List Lexeme) :
    (moved move).Lexemes lexemes (lexemes.map (Lexeme.relocate move)) := by
  have hmoved {run : List Lexeme} (hrun : significantTokens run = []) :
      significantTokens (run.map (Lexeme.relocate move)) = [] := by
    rw [significantTokens_relocate, hrun, List.map_nil]
  generalize htokens : significantTokens lexemes = tokens
  induction tokens generalizing lexemes with
  | nil => exact .trivia htokens (hmoved htokens) rfl
  | cons t tokens ih =>
      obtain ⟨run, after, rfl, hrun, ht, hafter⟩ := significantTokens_eq_cons_iff.mp htokens
      rw [List.map_append, List.map_cons]
      exact .token hrun (hmoved hrun) rfl ht rfl (ih after hafter)

/-- What passes for moved trees is the moved trees, trivia included. -/
theorem Trees.relocateAll_eq {trees trees' : List Tree} (h : (moved move).Trees trees trees') :
    relocateAll move trees = trees' := by
  have hlexemes (run : List Lexeme) : relocateAll move (run.map Tree.lexeme) =
      (run.map (Lexeme.relocate move)).map Tree.lexeme := by
    induction run with
    | nil => rfl
    | cons lexeme run ih => simp only [List.map_cons, relocateAll, relocate, Leaf.relocate, ih]
  induction h with
  | nil => rfl
  | trivia _ _ hrun =>
      obtain rfl := hrun
      exact hlexemes _
  | token _ htu =>
      obtain rfl := htu
      rfl
  | fault hfg => rw [relocateAll, relocate, Leaf.relocate, relocate_fault_eq hfg, relocateAll]
  | node kind _ ih => rw [relocateAll, relocate, ih, relocateAll]
  | append _ _ ih ihmore => rw [relocateAll_append, ih, ihmore]

end Likeness

/-- The parse of moved lexemes is the parse of the lexemes, moved. -/
theorem parsePartial_relocate (lexemes : List Lexeme) :
    parsePartial (lexemes.map (Lexeme.relocate move)) =
      ((parsePartial lexemes).1.relocate move,
        (parsePartial lexemes).2.map (Fault.relocate move)) := by
  cases hlast : lexemes.getLast? with
  | none =>
      obtain rfl := List.getLast?_eq_none_iff.mp hlast
      rfl
  | some last =>
      have heof : move (Cursor.ofLexemes lexemes).eof =
          (Cursor.ofLexemes (lexemes.map (Lexeme.relocate move))).eof := by
        simp only [Cursor.ofLexemes, List.getLast?_map, hlast]
        cases last <;> rfl
      obtain ⟨htrees, hfaults⟩ :=
        Likeness.parsePartial_alike ⟨Likeness.lexemes_moved move lexemes, heof⟩
      have hchildren := htrees.relocateAll_eq
      apply Prod.ext
      · rw [parsePartial_fst, parsePartial_fst] at hchildren ⊢
        exact congrArg (Node.mk .body) hchildren.symm
      · exact Likeness.map_relocate_eq hfaults

theorem parse_relocate {lexemes : List Lexeme} {root : Node} (h : parse lexemes = .ok root) :
    parse (lexemes.map (Lexeme.relocate move)) = .ok (root.relocate move) := by
  rw [parse_eq_ok_iff_parsePartial] at h ⊢
  rw [parsePartial_relocate, h]
  rfl

end Moved

namespace Lexeme

theorem segment_relocate (move : Position → Position) (lexeme : Lexeme) :
    (lexeme.relocate move).segment = lexeme.segment := by
  cases lexeme <;> rfl

theorem span_relocate (move : Position → Position) (lexeme : Lexeme) :
    (lexeme.relocate move).span = lexeme.span.relocate move := by
  cases lexeme <;> rfl

/-- A lexeme is told by its piece and its span. -/
theorem eq_of_segment_eq {lexeme other : Lexeme} (h : lexeme.segment = other.segment)
    (hspan : lexeme.span = other.span) : lexeme = other := by
  cases lexeme with
  | token t =>
      cases other with
      | skipped s => cases h
      | token u =>
          obtain ⟨hkind, hvalue⟩ := Segment.token.inj h
          obtain ⟨kind, value, span⟩ := t
          obtain ⟨kind', value', span'⟩ := u
          simp_all [Lexeme.span, String.toList_inj]
  | skipped s =>
      cases other with
      | token t => cases h
      | skipped r =>
          have htext := Segment.skipped.inj h
          obtain ⟨text, span⟩ := s
          obtain ⟨text', span'⟩ := r
          simp_all [Lexeme.span, String.toList_inj]

end Lexeme

/-- Lexemes of the same pieces, each list tiled from a byte of its own, differ by a move
that takes the places of the one to those of the other. -/
theorem eq_map_relocate_of_tiles {move : Position → Position} {file file' : String}
    {start start' : Nat} {lexemes lexemes' : List Lexeme}
    (hmove : ∀ n, move ⟨UInt32.ofNat (start + n), file⟩ = ⟨UInt32.ofNat (start' + n), file'⟩)
    (h : Lexeme.Tiles file start lexemes) (h' : Lexeme.Tiles file' start' lexemes')
    (hsegments : lexemes'.map Lexeme.segment = lexemes.map Lexeme.segment) :
    lexemes' = lexemes.map (Lexeme.relocate move) := by
  induction lexemes generalizing lexemes' start start' with
  | nil => simpa using hsegments
  | cons lexeme lexemes ih =>
      obtain ⟨lexeme', more, rfl, hfirst, hmore⟩ := List.map_eq_cons_iff.mp hsegments
      obtain ⟨hspan, hrest⟩ := h
      obtain ⟨hspan', hrest'⟩ := h'
      have htext : lexeme'.text = lexeme.text := by
        rw [← String.toList_inj, ← Lexeme.segment_text, ← Lexeme.segment_text, hfirst]
      rw [htext] at hspan' hrest'
      have hmoved : lexeme'.span = lexeme.span.relocate move := by
        have hstart := hmove 0
        have hstop := hmove lexeme.text.utf8ByteSize
        rw [Nat.add_zero, Nat.add_zero] at hstart
        rw [hspan, hspan', Span.between, Span.between, Span.relocate, hstart, hstop]
      have hlexeme : lexeme' = lexeme.relocate move := by
        apply Lexeme.eq_of_segment_eq
        · rw [hfirst, Lexeme.segment_relocate]
        · rw [hmoved, Lexeme.span_relocate]
      have hnext : ∀ n, move ⟨UInt32.ofNat (start + lexeme.text.utf8ByteSize + n), file⟩ =
          ⟨UInt32.ofNat (start' + lexeme.text.utf8ByteSize + n), file'⟩ := by
        intro n
        rw [Nat.add_assoc, Nat.add_assoc]
        exact hmove _
      rw [List.map_cons, hlexeme, ih hnext hrest hrest' hmore]

/-! Pieces put in their places. A scan is its segmentation with the places counted, so
what is known of the pieces of a source is known of its lexemes. -/

namespace Segment

/-- The piece as a lexeme that stands at this span. -/
def lexeme (span : Span) : Segment → Lexeme
  | token kind text => .token ⟨kind, String.ofList text, span⟩
  | skipped text => .skipped ⟨String.ofList text, span⟩

/-- The pieces as lexemes, side by side from a byte of a source on. -/
def placed (file : String) : Nat → List Segment → List Lexeme
  | _, [] => []
  | start, segment :: segments =>
      segment.lexeme (.between file start (start + Text.byteLength segment.text)) ::
        placed file (start + Text.byteLength segment.text) segments

variable {file : String} {start : Nat}

@[simp] theorem lexeme_span (segment : Segment) (span : Span) :
    (segment.lexeme span).span = span := by
  cases segment <;> rfl

@[simp] theorem segment_lexeme (segment : Segment) (span : Span) :
    (segment.lexeme span).segment = segment := by
  cases segment <;> simp [lexeme, Lexeme.segment]

theorem map_segment_placed (segments : List Segment) :
    (placed file start segments).map Lexeme.segment = segments := by
  induction segments generalizing start with
  | nil => rfl
  | cons segment segments ih => rw [placed, List.map_cons, segment_lexeme, ih]

theorem placed_append (before after : List Segment) :
    placed file start (before ++ after) = placed file start before ++
      placed file (start + Text.byteLength (textOfAll before)) after := by
  induction before generalizing start with
  | nil => rfl
  | cons segment before ih => simp [placed, ih, Nat.add_assoc]

theorem tiles_placed (segments : List Segment) :
    Lexeme.Tiles file start (placed file start segments) := by
  induction segments generalizing start with
  | nil => trivial
  | cons segment segments ih =>
      have hbytes (span : Span) : (segment.lexeme span).text.utf8ByteSize =
          Text.byteLength segment.text := by
        rw [← Text.byteLength_toList, ← Lexeme.segment_text, segment_lexeme]
      refine ⟨?_, ?_⟩
      · rw [lexeme_span, hbytes]
      · rw [hbytes]
        exact ih

theorem placed_relocate {move : Position → Position} {file' : String} {start' : Nat}
    (hmove : ∀ n, move ⟨UInt32.ofNat (start + n), file⟩ = ⟨UInt32.ofNat (start' + n), file'⟩)
    (segments : List Segment) :
    (placed file start segments).map (Lexeme.relocate move) = placed file' start' segments := by
  refine (eq_map_relocate_of_tiles hmove (tiles_placed _) (tiles_placed _) ?_).symm
  rw [map_segment_placed, map_segment_placed]

end Segment

/-- Lexemes that tile a source are their pieces in their places. -/
theorem eq_placed_of_tiles {file : String} {start : Nat} {lexemes : List Lexeme}
    (h : Lexeme.Tiles file start lexemes) :
    lexemes = Segment.placed file start (lexemes.map Lexeme.segment) := by
  have hstay (n : Nat) : id (⟨UInt32.ofNat (start + n), file⟩ : Position) =
      ⟨UInt32.ofNat (start + n), file⟩ := rfl
  have hsame := eq_map_relocate_of_tiles hstay (Segment.tiles_placed _) h
    (Segment.map_segment_placed _).symm
  rwa [funext Lexeme.relocate_id, List.map_id'] at hsame

/-- A scan is the segmentation of its source, in its places. -/
theorem scan_eq_placed {source : String} {segments : List Segment}
    (h : Segmentation source.toList segments) (file : Option String) :
    scan source file = Segment.placed (file.getD defaultFile) 0 segments := by
  rw [eq_placed_of_tiles (tiles_scan source file), scan_segments, h.eq_cut]

end ScriptSyntax
