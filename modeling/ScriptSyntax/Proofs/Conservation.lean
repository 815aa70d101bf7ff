import ScriptSyntax.Program
import ScriptSyntax.Proofs.Conformance
import ScriptSyntax.Proofs.Segmentation

/-!
Conservation of lexemes. A run may begin with a token in hand, one that was read
and not yet attached. That token and what the cursor had left are, in this
order, what the run attached and what the cursor has left now. A run that fails
attaches its fault last, and a token that it has taken goes into the fault.
-/

namespace ScriptSyntax

open ScriptSyntax.Tree

/-- What a fault took off the cursor. A token that begins no statement was only
looked at, and at the end there was nothing to take. -/
def Fault.taken (fault : Fault) : List Lexeme :=
  match fault.cause with
  | .unexpectedToken _ _ | .unexpectedValue _ _ => fault.token.toList.map .token
  | .unexpectedEof | .unknownToken _ => []

/-- The fault of a failure. -/
def Outcome.faults {α : Type} (o : Outcome α) : List Fault :=
  match o.result with
  | .ok _ => []
  | .error fault => [fault]

/-- What was ahead when the run ended: what its fault took, and what is left. -/
def Outcome.ahead {α : Type} (o : Outcome α) : List Lexeme :=
  o.faults.flatMap Fault.taken ++ o.rest

theorem Outcome.faults_of_ok {α : Type} {o : Outcome α} {a : α} (h : o.result = .ok a) :
    o.faults = [] := by
  simp only [faults, h]

theorem Outcome.faults_of_error {α : Type} {o : Outcome α} {fault : Fault}
    (h : o.result = .error fault) : o.faults = [fault] := by
  simp only [faults, h]

theorem Outcome.ahead_of_ok {α : Type} {o : Outcome α} {a : α} (h : o.result = .ok a) :
    o.ahead = o.rest := by
  rw [ahead, faults_of_ok h, List.flatMap_nil, List.nil_append]

namespace Production

/-- What a run attaches are lexemes, and then its fault. With what was ahead when
it ended, they are the lexemes that it was given. -/
theorem Run.accounts {held : List Token} {L : Language Tree} {c : Cursor} {o : Outcome Unit}
    (h : Run held L c o) :
    ∃ read : List Lexeme,
      leavesOfAll o.appended = read.map .lexeme ++ o.faults.map .fault ∧
        read ++ o.ahead = held.map .token ++ c.rest := by
  induction h with
  | nothing c => exact ⟨[], rfl, rfl⟩
  | @attach _ t c _ _ => exact ⟨[.token t], rfl, rfl⟩
  | @reject _ t cause c _ hcause =>
      refine ⟨[], rfl, ?_⟩
      cases cause with
      | unexpectedToken | unexpectedValue => rfl
      | unexpectedEof | unknownToken => exact hcause.elim
  | refuse c _ => exact ⟨[], rfl, rfl⟩
  | exhaust c _ _ =>
      refine ⟨c.rest, ?_, List.append_nil _⟩
      rw [leavesOfAll_append, leavesOfAll_lexemes]
      rfl
  | @read _ t trivia after _ o _ _ _ ih =>
      obtain ⟨read, hleaves, hread⟩ := ih
      refine ⟨trivia ++ read, ?_, ?_⟩
      · rw [leavesOfAll_append, leavesOfAll_lexemes, hleaves, List.map_append, List.append_assoc]
        rfl
      · rw [List.append_assoc]
        exact congrArg (trivia ++ ·) hread
  | stop _ _ _ ih => exact ih
  | @andThen _ _ _ c o o' _ hok _ ih ih' =>
      obtain ⟨read, hleaves, hread⟩ := ih
      obtain ⟨more, hleaves', hmore⟩ := ih'
      rw [Outcome.faults_of_ok hok, List.map_nil, List.append_nil] at hleaves
      rw [Outcome.ahead_of_ok hok] at hread
      refine ⟨read ++ more, ?_, ?_⟩
      · rw [leavesOfAll_append, hleaves, hleaves', List.map_append, List.append_assoc]
        rfl
      · rw [List.append_assoc, ← hread]
        exact congrArg (read ++ ·) hmore
  | within _ _ ih =>
      obtain ⟨read, hleaves, hread⟩ := ih
      exact ⟨read, (List.append_nil _).trans hleaves, hread⟩
  | mono _ _ ih => exact ih

/-! A program is its statements and nothing but trivia behind them. -/

section Program

variable {c : Cursor}

theorem program_of_error {fault : Fault} (h : (statements c).result = .error fault) :
    program c = statements c := by
  unfold program
  rw [bind_of_error h, ← h]

theorem program_of_nil (h : (statements c).result = .ok ())
    (hrest : significantTokens (statements c).rest = []) :
    program c =
      ⟨(statements c).appended ++ (statements c).rest.map Tree.lexeme, [], .ok ()⟩ := by
  unfold program
  rw [bind_of_ok h, finish_of_nil hrest]

theorem program_of_cons (h : (statements c).result = .ok ()) {token : Token} {tokens : List Token}
    (hrest : significantTokens (statements c).rest = token :: tokens) :
    program c = ⟨(statements c).appended ++
        [.fault (.raise (.unexpectedToken "end of file" token.value) (some token))],
      (statements c).rest,
      .error (.raise (.unexpectedToken "end of file" token.value) (some token))⟩ := by
  unfold program
  rw [bind_of_ok h, finish_of_cons hrest]
  rfl

theorem program_eq_ok (h : (program c).result = .ok ()) :
    (statements c).result = .ok () ∧ significantTokens (statements c).rest = [] := by
  cases hstatements : (statements c).result with
  | error fault =>
      rw [program_of_error hstatements, hstatements] at h
      cases h
  | ok _ =>
      cases hrest : significantTokens (statements c).rest with
      | nil => exact ⟨rfl, rfl⟩
      | cons token tokens =>
          rw [program_of_cons hstatements hrest] at h
          cases h

end Program

/-- A program that is read keeps every lexeme, in its place. -/
theorem program_leaves {c : Cursor} (h : (program c).result = .ok ()) :
    leavesOfAll (program c).appended = c.rest.map .lexeme := by
  obtain ⟨hstatements, hrest⟩ := program_eq_ok h
  obtain ⟨read, hleaves, hread⟩ := (run_statements c).accounts
  rw [Outcome.faults_of_ok hstatements, List.map_nil, List.append_nil] at hleaves
  rw [Outcome.ahead_of_ok hstatements, List.map_nil, List.nil_append] at hread
  rw [program_of_nil hstatements hrest, leavesOfAll_append, leavesOfAll_lexemes, hleaves, ← hread,
    List.map_append]

end Production

theorem parse_eq_ok_iff {ls : List Lexeme} {root : Node} :
    parse ls = .ok root ↔ (Production.program (.ofLexemes ls)).result = .ok () ∧
      root = ⟨.body, (Production.program (.ofLexemes ls)).appended⟩ := by
  simp only [parse, parsePartial]
  cases (Production.program (.ofLexemes ls)).result with
  | ok value => simp [eq_comm]
  | error fault => simp

theorem exists_of_parse_isOk (ls : List Lexeme) (h : (parse ls).isOk) :
    ∃ root, parse ls = .ok root := by
  cases hparse : parse ls with
  | ok root => exact ⟨root, rfl⟩
  | error fault =>
      rw [hparse] at h
      cases h

/-- The tree of a program holds every lexeme, in source order. -/
theorem leaves_of_parse {ls : List Lexeme} {root : Node} (h : parse ls = .ok root) :
    root.leaves = ls.map .lexeme := by
  obtain ⟨hresult, rfl⟩ := parse_eq_ok_iff.mp h
  exact Production.program_leaves hresult

/-- Nothing is lost, doubled or moved, and no fault is left behind: what the
grammar sees of a tree is what it sees of the lexemes, and the leaves of a
scanned program spell out its source. -/
theorem parse_conserves_lexemes (ls : List Lexeme) (root : Node) (h : parse ls = .ok root) :
    root.leaves = ls.map .lexeme ∧
      (∀ fault, Leaf.fault fault ∉ root.leaves) ∧
      root.allTokens = significantTokens ls ∧
      ∀ source file, scan source file = ls → root.sourceText = source := by
  have hleaves := leaves_of_parse h
  have hfaultless : ∀ fault, Leaf.fault fault ∉ root.leaves := by
    intro fault hfault
    rw [hleaves] at hfault
    obtain ⟨lexeme, _, hlexeme⟩ := List.mem_map.mp hfault
    cases hlexeme
  have htokens : root.allTokens = significantTokens ls := by
    rw [Node.allTokens, hleaves, List.filterMap_map]
    rfl
  have hsource : ∀ source file, scan source file = ls → root.sourceText = source := by
    rintro source file rfl
    rw [Node.sourceText, hleaves, List.map_map]
    exact join_text_scan source file
  exact ⟨hleaves, hfaultless, htokens, hsource⟩

theorem parse_conserves_lexemes_call :
    ∃ root, parse (scan "f( a ) -- b" none) = .ok root ∧
      root.leaves = (scan "f( a ) -- b" none).map .lexeme ∧
      root.sourceText = "f( a ) -- b" := by
  obtain ⟨root, hparse⟩ := exists_of_parse_isOk (scan "f( a ) -- b" none) (by decide +kernel)
  obtain ⟨hleaves, _, _, hsource⟩ := parse_conserves_lexemes _ root hparse
  exact ⟨root, hparse, hleaves, hsource _ none rfl⟩

end ScriptSyntax
