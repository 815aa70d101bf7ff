import ScriptSyntax.Proofs.Conservation

/-!
What a failed parse leaves. The fault is the last thing in the tree: it ends the
last child, all the way down from the root, since whatever encloses a failure
joins its parent and adds nothing more. The leaves in front of it are the
lexemes that were read, and the token at fault is the first one behind them.
Where that token was only looked at, trivia may stand in between.
-/

namespace ScriptSyntax

open ScriptSyntax.Tree

/-- The fault is the last of the trees, or ends the last of them in the same way. -/
inductive Tree.EndsWith (fault : Fault) : List Tree → Prop where
  | here (front : List Tree) : EndsWith fault (front ++ [.fault fault])
  | inside {children : List Tree} (front : List Tree) (kind : NodeKind)
      (h : EndsWith fault children) : EndsWith fault (front ++ [.node kind children])

theorem Tree.EndsWith.append_left {fault : Fault} {trees : List Tree} (h : EndsWith fault trees)
    (front : List Tree) : EndsWith fault (front ++ trees) := by
  cases h with
  | here more =>
      rw [← List.append_assoc]
      exact .here _
  | inside more kind h =>
      rw [← List.append_assoc]
      exact .inside _ kind h

theorem Tree.EndsWith.of_node {fault : Fault} {kind : NodeKind} {below : List Tree}
    (h : EndsWith fault [.node kind below]) : EndsWith fault below := by
  generalize htrees : [Tree.node kind below] = trees at h
  cases h with
  | here front => simpa using congrArg List.getLast? htrees
  | inside front other h =>
      obtain ⟨-, rfl⟩ : kind = other ∧ below = _ := by simpa using congrArg List.getLast? htrees
      exact h

/-- Raised on looking at a token: it begins no statement, or the file should have
ended in front of it. -/
def Cause.OnlyLooks : Cause → Prop
  | .unknownToken _ => True
  | .unexpectedToken expected _ => expected = "end of file"
  | .unexpectedValue _ _ | .unexpectedEof => False

/-- A fault is about the lexemes ahead: there are none, or the first token among
them is at fault. -/
inductive Fault.StandsAt (fault : Fault) : List Lexeme → Prop where
  | atEnd (hcause : fault.cause = .unexpectedEof) (hnone : fault.token = none) : StandsAt fault []
  | token {token : Token} {trivia after : List Lexeme} (hcause : fault.cause ≠ .unexpectedEof)
      (htoken : fault.token = some token) (hs : token.isSignificant)
      (htrivia : significantTokens trivia = []) (hlooks : ¬ fault.cause.OnlyLooks → trivia = []) :
      StandsAt fault (trivia ++ .token token :: after)

namespace Fault

/-- A token that was only looked at is still the first one ahead. -/
theorem standsAt_of_looks {cause : Cause} {token : Token} {tokens : List Token}
    {ahead : List Lexeme} (hcause : cause ≠ .unexpectedEof) (hlooks : cause.OnlyLooks)
    (h : significantTokens ahead = token :: tokens) :
    (raise cause (some token)).StandsAt ahead := by
  obtain ⟨trivia, after, rfl, htrivia, hs, _⟩ := significantTokens_eq_cons_iff.mp h
  exact .token hcause rfl hs htrivia fun hnot => absurd hlooks hnot

/-- The token at fault is the first one ahead. -/
theorem StandsAt.token_eq {fault : Fault} {ahead : List Lexeme} (h : fault.StandsAt ahead) :
    fault.token = (significantTokens ahead).head? := by
  cases h with
  | atEnd _ hnone => exact hnone
  | token _ htoken hs htrivia _ =>
      rw [significantTokens_append, htrivia, significantTokens_cons_token hs]
      exact htoken

/-- A fault tells the truth: it is at the end, at the position kept for that, or at the start
of a token whose text its cause gives. -/
inductive Faithful (eof : Position) : Fault → Prop where
  | atEnd : Faithful eof (.atEnd eof)
  | token {cause : Cause} {token : Token} (hcause : cause.Names token) :
      Faithful eof (.raise cause (some token))

theorem Faithful.position_eq {eof : Position} {fault : Fault} {token : Token}
    (h : fault.Faithful eof) (htoken : fault.token = some token) :
    fault.position = token.span.start := by
  cases h with
  | atEnd => cases htoken
  | token => cases htoken; rfl

theorem StandsAt.cause_ne_eof {fault : Fault} {ahead : List Lexeme} {token : Token}
    (h : fault.StandsAt ahead) (htoken : fault.token = some token) :
    fault.cause ≠ .unexpectedEof := by
  cases h with
  | atEnd _ hnone => cases hnone.symm.trans htoken
  | token hcause => exact hcause

end Fault

namespace Production

section Runs

variable {held : List Token} {L : Language Tree} {c : Cursor} {o : Outcome Unit} {fault : Fault}

/-- A run that fails adds nothing behind its fault. -/
theorem Run.endsWith (h : Run held L c o) (hfault : o.result = .error fault) :
    EndsWith fault o.appended := by
  induction h with
  | nothing | attach => cases hfault
  | reject | refuse =>
      cases hfault
      exact .here []
  | exhaust =>
      cases hfault
      exact .here _
  | read _ _ _ ih => exact (ih hfault).append_left _
  | stop _ _ _ ih => exact ih hfault
  | andThen _ _ _ _ ih => exact (ih hfault).append_left _
  | within kind _ ih => exact .inside [] kind (ih hfault)
  | mono _ _ ih => exact ih hfault

/-- A run fails at what is ahead when it ends. -/
theorem Run.standsAt (h : Run held L c o) (hfault : o.result = .error fault) :
    fault.StandsAt o.ahead := by
  induction h with
  | nothing | attach => cases hfault
  | @reject _ t cause c hs hcause =>
      cases hfault
      cases cause with
      | unexpectedToken | unexpectedValue =>
          change Fault.StandsAt _ ([] ++ .token t :: c.rest)
          exact .token (by simp [Fault.raise]) rfl hs rfl fun _ => rfl
      | unexpectedEof | unknownToken => exact hcause.elim
  | refuse c ht =>
      cases hfault
      obtain ⟨tokens, htokens⟩ := List.head?_eq_some_iff.mp ht
      exact Fault.standsAt_of_looks (by simp) trivial htokens
  | exhaust =>
      cases hfault
      exact .atEnd rfl rfl
  | read _ _ _ ih => exact ih hfault
  | stop _ _ _ ih => exact ih hfault
  | andThen _ _ _ _ ih => exact ih hfault
  | within _ _ ih => exact ih hfault
  | mono _ _ ih => exact ih hfault

/-- A run that fails says at which token, or that it came to the end. -/
theorem Run.faithful (h : Run held L c o) (hfault : o.result = .error fault) :
    fault.Faithful c.eof := by
  induction h with
  | nothing | attach => cases hfault
  | reject _ _ hcause =>
      cases hfault
      exact .token hcause.names
  | refuse =>
      cases hfault
      exact .token rfl
  | exhaust =>
      cases hfault
      exact .atEnd
  | read _ _ _ ih => exact ih hfault
  | stop _ _ _ ih => exact ih hfault
  | andThen _ _ _ _ ih => exact ih hfault
  | within _ _ ih => exact ih hfault
  | mono _ _ ih => exact ih hfault

end Runs

section Program

variable {c : Cursor} {fault : Fault}

/-- A program fails in its statements, or at a token behind them. -/
theorem program_eq_error (h : (program c).result = .error fault) :
    ((statements c).result = .error fault ∧ program c = statements c) ∨
      ∃ token tokens, (statements c).result = .ok () ∧
        significantTokens (statements c).rest = token :: tokens ∧
        fault = .raise (.unexpectedToken "end of file" token.value) (some token) ∧
        (program c).appended = (statements c).appended ++ [.fault fault] := by
  cases hstatements : (statements c).result with
  | error other =>
      have hprogram := program_of_error hstatements
      rw [hprogram, hstatements] at h
      cases h
      exact .inl ⟨rfl, hprogram⟩
  | ok _ =>
      cases hrest : significantTokens (statements c).rest with
      | nil =>
          rw [program_of_nil hstatements hrest] at h
          cases h
      | cons token tokens =>
          have hprogram := program_of_cons hstatements hrest
          rw [hprogram] at h
          cases h
          exact .inr ⟨token, tokens, rfl, rfl, rfl, by rw [hprogram]⟩

theorem program_endsWith (h : (program c).result = .error fault) :
    EndsWith fault (program c).appended := by
  rcases program_eq_error h with ⟨hfault, hprogram⟩ | ⟨token, tokens, _, _, _, happended⟩
  · rw [hprogram]
    exact (run_statements c).endsWith hfault
  · rw [happended]
    exact .here _

/-- A program that fails has read a front part of the lexemes, and fails at what
comes next. -/
theorem program_fails (h : (program c).result = .error fault) :
    ∃ read, c.rest = read ++ (statements c).ahead ∧
      leavesOfAll (program c).appended = read.map .lexeme ++ [.fault fault] ∧
      fault.StandsAt (statements c).ahead := by
  obtain ⟨read, hleaves, hread⟩ := (run_statements c).accounts
  refine ⟨read, hread.symm, ?_⟩
  rcases program_eq_error h with ⟨hfault, hprogram⟩ | ⟨token, tokens, hok, hrest, rfl, happended⟩
  · rw [Outcome.faults_of_error hfault, List.map_singleton] at hleaves
    rw [hprogram, hleaves]
    exact ⟨rfl, (run_statements c).standsAt hfault⟩
  · rw [Outcome.faults_of_ok hok, List.map_nil, List.append_nil] at hleaves
    rw [happended, leavesOfAll_append, hleaves, Outcome.ahead_of_ok hok]
    exact ⟨rfl, Fault.standsAt_of_looks (by simp) rfl hrest⟩

theorem program_faithful (h : (program c).result = .error fault) : fault.Faithful c.eof := by
  rcases program_eq_error h with ⟨hfault, _⟩ | ⟨token, tokens, _, _, rfl, _⟩
  · exact (run_statements c).faithful hfault
  · exact .token rfl

end Program

end Production

/-- The tokens in the tree of a failed parse are those that it has read. -/
theorem allTokens_of_leaves {root : Node} {read : List Lexeme} {fault : Fault}
    (h : root.leaves = read.map .lexeme ++ [.fault fault]) :
    root.allTokens = significantTokens read := by
  rw [Node.allTokens, h, List.filterMap_append, List.filterMap_map]
  exact List.append_nil _

theorem parsePartial_fst (ls : List Lexeme) :
    (parsePartial ls).1 = ⟨.body, (Production.program (.ofLexemes ls)).appended⟩ := by
  simp only [parsePartial]
  split <;> rfl

theorem parse_eq_ok_iff_parsePartial {ls : List Lexeme} {root : Node} :
    parse ls = .ok root ↔ parsePartial ls = (root, none) := by
  rw [parse]
  split <;> simp_all

theorem parsePartial_eq_some_iff {ls : List Lexeme} {root : Node} {fault : Fault} :
    parsePartial ls = (root, some fault) ↔
      (Production.program (.ofLexemes ls)).result = .error fault ∧
        root = ⟨.body, (Production.program (.ofLexemes ls)).appended⟩ := by
  simp only [parsePartial]
  cases (Production.program (.ofLexemes ls)).result with
  | ok value => simp
  | error other => simp [eq_comm, and_comm]

/-- A parse that fails keeps what it has read, and no more: the lexemes in its
tree are a front part of the list, all of it if the end came too early. Otherwise
the token at fault is the first token of the rest, and stands right at its front
unless it was only looked at. -/
theorem parsePartial_keeps_read (ls : List Lexeme) (root : Node) (fault : Fault)
    (h : parsePartial ls = (root, some fault)) :
    ∃ k ≤ ls.length, root.leaves.filterMap Leaf.lexeme? = ls.take k ∧
      (fault.cause = .unexpectedEof → k = ls.length) ∧
      (fault.cause ≠ .unexpectedEof → ∃ token trivia after,
        fault.token = some token ∧ token.isSignificant ∧
        ls.drop k = trivia ++ .token token :: after ∧ (∀ lexeme ∈ trivia, lexeme.isTrivia) ∧
        (¬ fault.cause.OnlyLooks → trivia = [])) := by
  obtain ⟨hfault, rfl⟩ := parsePartial_eq_some_iff.mp h
  obtain ⟨read, hls, hleaves, hahead⟩ := Production.program_fails hfault
  generalize (Production.statements (.ofLexemes ls)).ahead = ahead at hls hahead
  change ls = read ++ ahead at hls
  subst hls
  refine ⟨read.length, by simp, ?_, ?_, ?_⟩
  · rw [Node.leaves, hleaves, List.take_left, List.filterMap_append, List.filterMap_map]
    simp [Function.comp_def, Leaf.lexeme?]
  · intro heof
    cases hahead with
    | atEnd => simp
    | token hcause => exact absurd heof hcause
  · intro hnot
    cases hahead with
    | atEnd hcause => exact absurd hcause hnot
    | @token token trivia after _ htoken hs htrivia hlooks =>
        refine ⟨token, trivia, after, htoken, hs, List.drop_left, ?_, hlooks⟩
        simpa [significantTokens, Lexeme.isTrivia] using htrivia

theorem parsePartial_keeps_read_unknown :
    ∃ root fault, parsePartial (scan "f(1) -- 2\n)" none) = (root, some fault) ∧
      fault.cause = .unknownToken ")" ∧
      ∃ k, root.leaves.filterMap Leaf.lexeme? = (scan "f(1) -- 2\n)" none).take k ∧
        ∃ token trivia after, fault.token = some token ∧
          (scan "f(1) -- 2\n)" none).drop k = trivia ++ .token token :: after := by
  have hcause : (parsePartial (scan "f(1) -- 2\n)" none)).2.map (·.cause) =
      some (.unknownToken ")") := by decide +kernel
  obtain ⟨fault, hfault, hunknown⟩ := Option.map_eq_some_iff.mp hcause
  have hpair : parsePartial (scan "f(1) -- 2\n)" none) = (_, some fault) := Prod.ext rfl hfault
  obtain ⟨k, _, hread, _, htoken⟩ := parsePartial_keeps_read _ _ fault hpair
  obtain ⟨token, trivia, after, hfirst, _, hrest, _⟩ := htoken (by simp [hunknown])
  exact ⟨_, fault, hpair, hunknown, k, hread, token, trivia, after, hfirst, hrest⟩

/-- The faults in the tree are the fault of the parse. -/
theorem faults_parsePartial (ls : List Lexeme) :
    (parsePartial ls).1.leaves.filterMap Leaf.fault? = (parsePartial ls).2.toList := by
  have hnone (read : List Lexeme) : (read.map Leaf.lexeme).filterMap Leaf.fault? = [] := by
    simp [List.filterMap_map, Leaf.fault?]
  cases hresult : (Production.program (.ofLexemes ls)).result with
  | ok _ =>
      have hleaves := Production.program_leaves hresult
      simp only [parsePartial, hresult, Node.leaves, hleaves, hnone, Option.toList_none]
  | error fault =>
      obtain ⟨read, _, hleaves, _⟩ := Production.program_fails hresult
      simp only [parsePartial, hresult, Node.leaves, hleaves, List.filterMap_append, hnone,
        Option.toList_some]
      rfl

theorem fault?_parsePartial (ls : List Lexeme) :
    (parsePartial ls).1.fault? = (parsePartial ls).2 := by
  rw [Node.fault?, ← List.head?_filterMap, faults_parsePartial, Option.head?_toList]

theorem mem_leaves_parsePartial {ls : List Lexeme} {fault : Fault} :
    Leaf.fault fault ∈ (parsePartial ls).1.leaves ↔ (parsePartial ls).2 = some fault := by
  rw [← Option.mem_toList, ← faults_parsePartial, List.mem_filterMap]
  constructor
  · intro h
    exact ⟨_, h, rfl⟩
  · rintro ⟨leaf, hleaf, hfault⟩
    cases leaf with
    | lexeme => cases hfault
    | fault other =>
        cases hfault
        exact hleaf

/-- A parse has a fault exactly if its tree has one at a leaf. It is then the only
one, it is found from the root, and nothing in the tree comes behind it. -/
theorem parsePartial_fault_ends_tree (ls : List Lexeme) :
    ((parsePartial ls).2.isSome ↔ ∃ fault, Leaf.fault fault ∈ (parsePartial ls).1.leaves) ∧
      ∀ fault, (parsePartial ls).2 = some fault →
        (parsePartial ls).1.leaves.filterMap Leaf.fault? = [fault] ∧
        (parsePartial ls).1.fault? = some fault ∧
        EndsWith fault (parsePartial ls).1.children := by
  constructor
  · simp only [mem_leaves_parsePartial, Option.isSome_iff_exists]
  · intro fault h
    have hpair : parsePartial ls = ((parsePartial ls).1, some fault) := Prod.ext rfl h
    obtain ⟨hfault, hroot⟩ := parsePartial_eq_some_iff.mp hpair
    refine ⟨?_, ?_, ?_⟩
    · rw [faults_parsePartial, h, Option.toList_some]
    · rw [fault?_parsePartial, h]
    · rw [hroot]
      exact Production.program_endsWith hfault

theorem parsePartial_fault_ends_tree_group :
    ∃ fault, (parsePartial (scan "if a then f((1 + b c" none)).2 = some fault ∧
      (parsePartial (scan "if a then f((1 + b c" none)).1.fault? = some fault ∧
      EndsWith fault (parsePartial (scan "if a then f((1 + b c" none)).1.children := by
  obtain ⟨fault, hfault⟩ := Option.isSome_iff_exists.mp
    (show (parsePartial (scan "if a then f((1 + b c" none)).2.isSome by decide +kernel)
  obtain ⟨_, hfound, hends⟩ := (parsePartial_fault_ends_tree _).2 fault hfault
  exact ⟨fault, hfault, hfound, hends⟩

end ScriptSyntax
