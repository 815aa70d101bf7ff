import Mathlib.Computability.Language
import ScriptSyntax.Phrase.Unfolding
import ScriptSyntax.Proofs.Schema

/-!
What the productions of the grammar are made of, and what their runs do.

A production of the grammar reads a token and attaches it or fails at it, looks
at the next token to choose its way, puts a node around other steps, and runs
phrases one after the other; `Composed` says so. `Run` lists what can come of
such steps. Both know the tokens in hand, which are read and not yet attached,
and the words of trees that a success adds, trivia aside.

Main statement: every run of a phrase is a `Run`. So a property of all runs is
an induction over `Run`, with one case for each kind of step and none for each
rule of the grammar. Properties of two runs are inductions over `Composed`.
-/

namespace ScriptSyntax

open ScriptSyntax.Tree

/-- The cause tells what the token at fault is spelled like; if it is one of the right kind,
this is not what was expected. -/
def Cause.Names (token : Token) : Cause → Prop
  | .unexpectedToken _ found | .unknownToken found => found = token.value
  | .unexpectedValue expected found => found = token.value ∧ expected ≠ found
  | .unexpectedEof => False

/-- The token at fault has been read, and not only looked at. -/
def Cause.Takes (token : Token) : Cause → Prop
  | .unexpectedToken expected found => (unexpectedToken expected found).Names token
  | .unexpectedValue expected found => (unexpectedValue expected found).Names token
  | .unexpectedEof | .unknownToken _ => False

theorem Cause.Takes.names {token : Token} {cause : Cause} (h : cause.Takes token) :
    cause.Names token := by
  cases cause with
  | unexpectedToken | unexpectedValue => exact h
  | unexpectedEof | unknownToken => exact h.elim

namespace Production

/-! The children that a production adds to its node are a word over trees. -/

section Words

variable {L M : Language Tree} {Q : List Tree → Prop}

/-- One token of a class. -/
def oneToken (P : Token → Prop) : Language Tree :=
  {trees | ∃ t, P t ∧ trees = [.token t]}

/-- One node over a word. -/
def nodeOver (kind : NodeKind) (L : Language Tree) : Language Tree :=
  {trees | ∃ children ∈ L, trees = [.node kind children]}

/-- One tree of the schema. -/
def oneTree (symbol : Symbol) : Language Tree :=
  {trees | ∃ tree, Conforms symbol tree ∧ trees = [tree]}

/-- Any number of trees of the schema. -/
def manyTrees (symbol : Symbol) : Language Tree :=
  {trees | ∀ tree ∈ trees, Conforms symbol tree}

/-- At most one tree of the schema. -/
def atMostOneTree (symbol : Symbol) : Language Tree :=
  {trees | ∃ tree? : Option Tree, (∀ tree ∈ tree?, Conforms symbol tree) ∧ trees = tree?.toList}

theorem nil_mem_manyTrees (symbol : Symbol) : [] ∈ manyTrees symbol := by
  intro tree htree
  cases htree

/-! What holds of all words of a language is a statement about their parts. -/

theorem forall_mem_mul :
    (∀ trees ∈ L * M, Q trees) ↔ ∀ trees ∈ L, ∀ more ∈ M, Q (trees ++ more) := by
  constructor
  · intro h trees htrees more hmore
    exact h _ (Language.append_mem_mul htrees hmore)
  · rintro h _ ⟨trees, htrees, more, hmore, rfl⟩
    exact h trees htrees more hmore

theorem forall_mem_add :
    (∀ trees ∈ L + M, Q trees) ↔ (∀ trees ∈ L, Q trees) ∧ ∀ trees ∈ M, Q trees := by
  simp only [Language.mem_add, or_imp, forall_and]

theorem forall_mem_oneToken {P : Token → Prop} :
    (∀ trees ∈ oneToken P, Q trees) ↔ ∀ t, P t → Q [.token t] := by
  constructor
  · intro h t ht
    exact h _ ⟨t, ht, rfl⟩
  · rintro h _ ⟨t, ht, rfl⟩
    exact h t ht

theorem forall_mem_oneTree {symbol : Symbol} :
    (∀ trees ∈ oneTree symbol, Q trees) ↔ ∀ tree, Conforms symbol tree → Q [tree] := by
  constructor
  · intro h tree htree
    exact h _ ⟨tree, htree, rfl⟩
  · rintro h _ ⟨tree, htree, rfl⟩
    exact h tree htree

theorem forall_mem_nodeOver {kind : NodeKind} :
    (∀ trees ∈ nodeOver kind L, Q trees) ↔ ∀ children ∈ L, Q [.node kind children] := by
  constructor
  · intro h children hchildren
    exact h _ ⟨children, hchildren, rfl⟩
  · rintro h _ ⟨children, hchildren, rfl⟩
    exact h children hchildren

end Words

end Production

namespace Phrase

open Production

/-- What each phrase adds to its node. -/
def shape : Phrase → Language Tree
  | .expr => oneTree .expr
  | .statements => manyTrees .statement
  | .elseIfs => manyTrees .elseIf

end Phrase

namespace Production

/-- Steps, and then, if the token behind them passes the test, more steps that
begin with it; all of them stand in one node then. -/
def joined (p : Production Unit) (test : Token → Bool) (kind : NodeKind)
    (q : Token → Production Unit) : Production Unit := do
  let trees ← hold p
  if (← peek).any test then
    within kind do
      attachAll trees
      let token ← nextToken
      q token
  else
    attachAll trees

/-- Made of steps of the grammar and of the phrases `f`. With the tokens `held`
in hand, a success adds a word of the language. -/
inductive Composed (f : Phrase → Production Unit) :
    List Token → Language Tree → Production Unit → Prop where
  | phrase (i : Phrase) : Composed f [] i.shape (f i)
  | nothing : Composed f [] 1 (pure ())
  | andThen {held : List Token} {L M : Language Tree} {p q : Production Unit}
      (hp : Composed f held L p) (hq : Composed f [] M q) :
      Composed f held (L * M) (p >>= fun _ => q)
  | within {held : List Token} {L : Language Tree} {p : Production Unit} (kind : NodeKind)
      (hp : Composed f held L p) : Composed f held (nodeOver kind L) (within kind p)
  | attach {P : Token → Prop} {t : Token} (ht : P t) (hs : t.isSignificant) :
      Composed f [t] (oneToken P) (attach (.token t))
  /-- Fails at the token in hand. -/
  | reject {L : Language Tree} {t : Token} {cause : Cause} (hs : t.isSignificant)
      (hcause : cause.Takes t) (hL : ∃ word, word ∈ L) : Composed f [t] L (failAt t cause)
  | read {L : Language Tree} {q : Token → Production Unit}
      (hq : ∀ t, t.isSignificant → Composed f [t] L (q t)) : Composed f [] L (nextToken >>= q)
  /-- Goes on as the next token says, or refuses it. -/
  | look {L : Language Tree} {q : Option Token → Production Unit} (refuses : Token → Prop)
      (hnone : Composed f [] L (q none))
      (hsome : ∀ t, ¬ refuses t → Composed f [] L (q (some t)))
      (hrefuses : ∀ t, refuses t → q (some t) = failAt t (.unknownToken t.value)) :
      Composed f [] L (peek >>= q)
  | joined {held : List Token} {L M : Language Tree} {p : Production Unit} {test : Token → Bool}
      {q : Token → Production Unit} (kind : NodeKind) (hp : Composed f held L p)
      (hq : ∀ t, test t → Composed f [t] M (q t)) :
      Composed f held (L + nodeOver kind (L * M)) (joined p test kind q)
  | mono {held : List Token} {L M : Language Tree} {p : Production Unit}
      (hp : Composed f held L p) (hLM : ∀ word ∈ L, word ∈ M) : Composed f held M p

/-- What can come of steps of the grammar at a cursor. -/
inductive Run : List Token → Language Tree → Cursor → Outcome Unit → Prop where
  | nothing (c : Cursor) : Run [] 1 c ⟨[], c.rest, .ok ()⟩
  | attach {P : Token → Prop} {t : Token} (c : Cursor) (ht : P t) (hs : t.isSignificant) :
      Run [t] (oneToken P) c ⟨[.token t], c.rest, .ok ()⟩
  /-- The token in hand goes into the fault. -/
  | reject {L : Language Tree} {t : Token} {cause : Cause} (c : Cursor) (hs : t.isSignificant)
      (hcause : cause.Takes t) :
      Run [t] L c
        ⟨[.fault (.raise cause (some t))], c.rest, .error (.raise cause (some t))⟩
  /-- The next token begins no statement, and stays where it is. -/
  | refuse {L : Language Tree} {t : Token} (c : Cursor)
      (ht : (significantTokens c.rest).head? = some t) :
      Run [] L c ⟨[.fault (.raise (.unknownToken t.value) (some t))], c.rest,
        .error (.raise (.unknownToken t.value) (some t))⟩
  /-- There is no token to read. -/
  | exhaust {L : Language Tree} (c : Cursor) (hc : significantTokens c.rest = [])
      (hL : ∃ word, word ∈ L) :
      Run [] L c ⟨c.rest.map Tree.lexeme ++ [.fault (.atEnd c.eof)], [], .error (.atEnd c.eof)⟩
  | read {L : Language Tree} {t : Token} {trivia after : List Lexeme} {eof : Position}
      {o : Outcome Unit} (ht : t.isSignificant) (htrivia : significantTokens trivia = [])
      (ho : Run [t] L ⟨after, eof⟩ o) :
      Run [] L ⟨trivia ++ .token t :: after, eof⟩
        ⟨trivia.map Tree.lexeme ++ o.appended, o.rest, o.result⟩
  /-- The steps behind a failure do not run. -/
  | stop {held : List Token} {L M : Language Tree} {c : Cursor} {o : Outcome Unit} {fault : Fault}
      (ho : Run held L c o) (hfault : o.result = .error fault) (hM : ∃ word, word ∈ M) :
      Run held (L * M) c o
  | andThen {held : List Token} {L M : Language Tree} {c : Cursor} {o o' : Outcome Unit}
      (ho : Run held L c o) (hok : o.result = .ok ()) (ho' : Run [] M ⟨o.rest, c.eof⟩ o') :
      Run held (L * M) c ⟨o.appended ++ o'.appended, o'.rest, o'.result⟩
  | within {held : List Token} {L : Language Tree} {c : Cursor} {o : Outcome Unit}
      (kind : NodeKind) (ho : Run held L c o) :
      Run held (nodeOver kind L) c ⟨[.node kind o.appended], o.rest, o.result⟩
  | mono {held : List Token} {L M : Language Tree} {c : Cursor} {o : Outcome Unit}
      (ho : Run held L c o) (hLM : ∀ word ∈ L, word ∈ M) : Run held M c o

section Joined

variable {p : Production Unit} {test : Token → Bool} {kind : NodeKind}
  {q : Token → Production Unit} {c : Cursor}

theorem hold_of_ok (h : (p c).result = .ok ()) :
    hold p c = ⟨[], (p c).rest, .ok (p c).appended⟩ := by
  simp only [hold, h]

theorem hold_of_error {fault : Fault} (h : (p c).result = .error fault) :
    hold p c = ⟨(p c).appended, (p c).rest, .error fault⟩ := by
  simp only [hold, h]

theorem joined_of_error {fault : Fault} (h : (p c).result = .error fault) :
    joined p test kind q c = p c := by
  have herror : (hold p c).result = .error fault := by rw [hold_of_error h]
  unfold joined
  rw [bind_of_error herror, hold_of_error h, ← h]

theorem joined_of_not_test (h : (p c).result = .ok ())
    (htest : ¬ (significantTokens (p c).rest).head?.any test) :
    joined p test kind q c = p c := by
  have hok : (hold p c).result = .ok (p c).appended := by rw [hold_of_ok h]
  unfold joined
  rw [bind_of_ok hok, peek_bind, hold_of_ok h, if_neg htest]
  simp only [attachAll, List.nil_append, ← h]

theorem joined_of_test (h : (p c).result = .ok ())
    (htest : (significantTokens (p c).rest).head?.any test) :
    joined p test kind q c = within kind (p >>= fun _ => nextToken >>= q) c := by
  have hok : (hold p c).result = .ok (p c).appended := by rw [hold_of_ok h]
  unfold joined
  rw [bind_of_ok hok, peek_bind, hold_of_ok h, if_pos htest]
  simp only [within, bind_of_ok h]
  rfl

end Joined

/-- There is no language without words. -/
theorem Composed.exists_mem {f : Phrase → Production Unit} {held : List Token}
    {L : Language Tree} {p : Production Unit} (h : Composed f held L p) : ∃ word, word ∈ L := by
  induction h with
  | phrase i =>
      cases i with
      | expr => exact ⟨_, _, .single (.atom (t := ⟨.number, "0", .between "" 0 0⟩) (.inl rfl)), rfl⟩
      | statements => exact ⟨[], nil_mem_manyTrees _⟩
      | elseIfs => exact ⟨[], nil_mem_manyTrees _⟩
  | nothing => exact ⟨[], Language.nil_mem_one⟩
  | andThen _ _ ihp ihq =>
      obtain ⟨word, hword⟩ := ihp
      obtain ⟨more, hmore⟩ := ihq
      exact ⟨_, Language.append_mem_mul hword hmore⟩
  | within kind _ ih =>
      obtain ⟨word, hword⟩ := ih
      exact ⟨_, word, hword, rfl⟩
  | attach ht _ => exact ⟨_, _, ht, rfl⟩
  | reject _ _ hL => exact hL
  | read _ ih => exact ih ⟨.number, "0", .between "" 0 0⟩ rfl
  | look _ _ _ _ ih _ => exact ih
  | joined _ _ _ ih _ =>
      obtain ⟨word, hword⟩ := ih
      exact ⟨word, .inl hword⟩
  | mono _ hLM ih =>
      obtain ⟨word, hword⟩ := ih
      exact ⟨word, hLM word hword⟩

/-- Reading comes to a token or to the end. -/
theorem run_read {L : Language Tree} {q : Token → Production Unit} {c : Cursor}
    (hL : ∃ word, word ∈ L)
    (hq : ∀ t, t.isSignificant → (significantTokens c.rest).head? = some t →
      ∀ c, Run [t] L c (q t c)) :
    Run [] L c ((nextToken >>= q) c) := by
  obtain ⟨rest, eof⟩ := c
  cases htokens : significantTokens rest with
  | nil =>
      rw [nextToken_bind_atEnd htokens]
      exact .exhaust _ htokens hL
  | cons t tokens =>
      have hhead : (significantTokens rest).head? = some t := by rw [htokens]; rfl
      obtain ⟨trivia, after, rfl, htrivia, ht, _⟩ := significantTokens_eq_cons_iff.mp htokens
      rw [nextToken_bind_token htrivia ht]
      exact .read ht htrivia (hq t ht hhead _)

theorem run_andThen {held : List Token} {L M : Language Tree} {p q : Production Unit} {c : Cursor}
    (hM : ∃ word, word ∈ M) (hp : Run held L c (p c))
    (hq : (p c).result = .ok () → Run [] M ⟨(p c).rest, c.eof⟩ (q ⟨(p c).rest, c.eof⟩)) :
    Run held (L * M) c ((p >>= fun _ => q) c) := by
  cases hresult : (p c).result with
  | error fault =>
      have hstop := hp.stop hresult hM
      rwa [bind_of_error hresult, ← hresult]
  | ok _ =>
      rw [bind_of_ok hresult]
      exact hp.andThen hresult (hq hresult)

/-- Composed productions run as `Run` says, if the phrases inside do. -/
theorem Composed.run {f : Phrase → Production Unit} (hf : ∀ i c, Run [] i.shape c (f i c))
    {held : List Token} {L : Language Tree} {p : Production Unit} (h : Composed f held L p)
    (c : Cursor) : Run held L c (p c) := by
  induction h generalizing c with
  | phrase i => exact hf i c
  | nothing => exact .nothing c
  | andThen _ hq ihp ihq => exact run_andThen hq.exists_mem (ihp c) fun _ => ihq _
  | within kind _ ih => exact (ih c).within kind
  | attach ht hs => exact .attach c ht hs
  | reject hs hcause _ => exact .reject c hs hcause
  | read hq ih =>
      exact run_read (Composed.read hq).exists_mem fun t ht _ => ih t ht
  | @look L q refuses _ _ hrefuses ihnone ihsome =>
      rw [peek_bind]
      cases hhead : (significantTokens c.rest).head? with
      | none => exact ihnone c
      | some t =>
          by_cases ht : refuses t
          · rw [hrefuses t ht]
            exact .refuse c hhead
          · exact ihsome t ht c
  | @joined held L M p test q kind _ hq ihp ihq =>
      have hself : Run held (L + nodeOver kind (L * M)) c (p c) :=
        (ihp c).mono fun _ hword => .inl hword
      cases hresult : (p c).result with
      | error fault => rwa [joined_of_error hresult]
      | ok _ =>
          by_cases htest : (significantTokens (p c).rest).head?.any test
          · obtain ⟨t, hhead, ht⟩ := (Option.any_eq_true _ _).mp htest
            have hM := (hq t ht).exists_mem
            have hmore : Run [] M ⟨(p c).rest, c.eof⟩ ((nextToken >>= q) ⟨(p c).rest, c.eof⟩) := by
              apply run_read hM
              intro u _ hfirst
              obtain rfl : t = u := by simpa using hhead.symm.trans hfirst
              exact ihq t ht
            have hboth := (run_andThen hM (ihp c) fun _ => hmore).within kind
            rw [joined_of_test hresult htest]
            exact hboth.mono fun _ hword => .inr hword
          · rwa [joined_of_not_test hresult htest]
  | mono _ hLM ih => exact (ih c).mono hLM

/-- What is expected is attached; what is found in its place is rejected. -/
theorem discard_expect (kind : TokenKind) (value : String) :
    discard (expect kind value) = nextToken >>= fun token =>
      if token.kind != kind then
        failAt token (.unexpectedToken (Token.describe kind value) token.value)
      else if token.value != value then failAt token (.unexpectedValue value token.value)
      else attach (.token token) := by
  change (nextToken >>= fun token => _) >>= _ = _
  rw [bind_bind]
  congr 1
  funext token
  split
  · rfl
  · split <;> rfl

end Production

end ScriptSyntax
