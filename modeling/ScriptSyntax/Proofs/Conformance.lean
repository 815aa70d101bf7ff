import ScriptSyntax.Proofs.Composition

/-!
The rules of the grammar are composed, each with the words that it builds: a
rule builds the product of what its steps build, and a node of the schema is
what such a product holds. Hence every run of a phrase is a `Run`, and what a
success adds, trivia aside, is of the schema.
-/

namespace ScriptSyntax

open ScriptSyntax.Tree

namespace Phrase

open Production

section Rules

variable {f : Phrase → Production Unit}

theorem composed_expect (kind : TokenKind) (value : String) :
    Composed f [] (oneToken fun t => t.kind = kind ∧ t.value = value)
      (discard (expect kind value)) := by
  have hsome : ∃ word, word ∈ oneToken fun t => t.kind = kind ∧ t.value = value :=
    ⟨_, ⟨kind, value, .between "" 0 0⟩, ⟨rfl, rfl⟩, rfl⟩
  rw [discard_expect]
  apply Composed.read
  intro token hs
  split
  · exact .reject hs rfl hsome
  · next hk =>
      split
      · next hv =>
          have hother : token.value ≠ value := by simpa using hv
          exact .reject hs ⟨rfl, hother.symm⟩ hsome
      · next hv =>
          have htoken : token.kind = kind ∧ token.value = value := by simpa using And.intro hk hv
          exact .attach htoken hs

theorem composed_keyword (word : String) :
    Composed f [] (oneToken (·.Keyword word)) (keyword word) :=
  composed_expect .keyword word

theorem composed_operator (sign : String) :
    Composed f [] (oneToken (·.Operator sign)) (operator sign) :=
  composed_expect .operator sign

/-- The node of a name. -/
def nameTree : Language Tree := nodeOver .lhs (oneToken (·.kind = .identifier))

theorem composed_lhsRule : Composed f [] nameTree lhsRule := by
  apply Composed.within
  apply Composed.read
  intro token hs
  split
  · next hkind => exact .attach hkind hs
  · exact .reject hs rfl ⟨_, ⟨.identifier, "", .between "" 0 0⟩, rfl, rfl⟩

theorem composed_operandRule {token : Token} (hs : token.isSignificant) :
    Composed f [token] (oneTree .operand) (operandRule (f .expr) token) := by
  have hatom (ht : token.Atom) :
      Composed f [token] (oneTree .operand) (within .expr (attach (.token token))) := by
    apply ((Composed.attach ht hs).within .expr).mono
    simp only [forall_mem_nodeOver, forall_mem_oneToken]
    intro t ht
    exact ⟨_, .atom ht, rfl⟩
  have hsome : ∃ word, word ∈ oneTree .operand :=
    ⟨_, _, .atom (t := ⟨.number, "0", .between "" 0 0⟩) (.inl rfl), rfl⟩
  unfold operandRule
  split
  · next hopen =>
      have hl : token.Operator "(" := by simpa [Token.is, Token.Operator] using hopen
      have hattach : Composed f [token] (oneToken (·.Operator "(")) (attach (.token token)) :=
        .attach hl hs
      have hgroup := hattach.andThen ((Composed.phrase .expr).andThen (composed_operator ")"))
      apply (hgroup.within .expr).mono
      simp only [shape, forall_mem_nodeOver, forall_mem_mul, forall_mem_oneToken,
        forall_mem_oneTree]
      intro l hl e he r hr
      exact ⟨_, .group hl he hr, rfl⟩
  · cases hkind : token.kind with
    | number => exact hatom (.inl hkind)
    | string => exact hatom (.inr (.inl hkind))
    | identifier => exact hatom (.inr (.inr hkind))
    | comment => exact .reject hs rfl hsome
    | operator => exact .reject hs rfl hsome
    | keyword => exact .reject hs rfl hsome

/-- An operator that follows its operand takes it into the node of an operation. -/
theorem composed_exprFrom {token : Token} (hs : token.isSignificant) :
    Composed f [token] (oneTree .operand +
      nodeOver .expr (oneTree .operand * (oneToken Token.Binary * oneTree .expr)))
      (exprFrom (f .expr) token) := by
  apply (composed_operandRule hs).joined .expr
  intro operator hoperator
  have hbinary : operator.Binary := Token.isBinaryOperator_iff.mp hoperator
  exact (Composed.attach hbinary hbinary.isSignificant).andThen (.phrase .expr)

theorem composed_exprRule : Composed f [] (oneTree .expr) (exprRule (f .expr)) := by
  have hchildren := Composed.read fun _ hs => composed_exprFrom (f := f) hs
  apply (hchildren.within .expr).mono
  simp only [forall_mem_nodeOver, forall_mem_add, forall_mem_mul, forall_mem_oneToken,
    forall_mem_oneTree]
  constructor
  · intro o ho
    exact ⟨_, .single ho, rfl⟩
  · intro o ho b hb e he
    exact ⟨_, .operation ho hb he, rfl⟩

theorem composed_callRule : Composed f [] (oneTree .statement) (callRule (f .expr)) := by
  have hchildren := composed_lhsRule.andThen ((composed_operator "(").andThen
    ((Composed.phrase (f := f) .expr).andThen (composed_operator ")")))
  apply (hchildren.within .call).mono
  simp only [nameTree, shape, forall_mem_nodeOver, forall_mem_mul, forall_mem_oneToken,
    forall_mem_oneTree]
  intro n hn l hl e he r hr
  exact ⟨_, .call hn hl he hr, rfl⟩

/-- A block is a node over any number of statements. -/
theorem composed_block : Composed f [] (oneTree .block) (within .body (f .statements)) := by
  apply ((Composed.phrase .statements).within .body).mono
  rw [forall_mem_nodeOver]
  intro children hchildren
  exact ⟨_, .block hchildren, rfl⟩

theorem composed_forRule :
    Composed f [] (oneTree .statement) (forRule (f .expr) (f .statements)) := by
  have hexpr : Composed f [] (oneTree .expr) (f .expr) := .phrase .expr
  have hbody := (composed_keyword "do").andThen
    ((composed_block (f := f)).andThen (composed_keyword "end"))
  have hchildren := (composed_keyword "for").andThen <| composed_lhsRule.andThen <|
    (composed_operator "=").andThen <| hexpr.andThen <|
    (composed_operator ",").andThen <| hexpr.andThen <|
    (composed_operator ",").andThen <| hexpr.andThen hbody
  apply (hchildren.within .forLoop).mono
  simp only [nameTree, forall_mem_nodeOver, forall_mem_mul, forall_mem_oneToken,
    forall_mem_oneTree]
  intro w hw x hx q hq first hfirst m hm limit hlimit n hn step hstep d hd body hbody z hz
  exact ⟨_, .forLoop hw hx hq hfirst hm hlimit hn hstep hd hbody hz, rfl⟩

theorem composed_elseIfRule :
    Composed f [] (oneTree .elseIf) (elseIfRule (f .expr) (f .statements)) := by
  have hchildren := (composed_keyword "elseif").andThen ((Composed.phrase (f := f) .expr).andThen
    ((composed_keyword "then").andThen composed_block))
  apply (hchildren.within .elseIf).mono
  simp only [shape, forall_mem_nodeOver, forall_mem_mul, forall_mem_oneToken, forall_mem_oneTree]
  intro w hw test htest t ht body hbody
  exact ⟨_, .elseIf hw htest ht hbody, rfl⟩

theorem composed_elseRule : Composed f [] (oneTree .otherwise) (elseRule (f .statements)) := by
  have hchildren := (composed_keyword "else").andThen (composed_block (f := f))
  apply (hchildren.within .otherwise).mono
  simp only [forall_mem_nodeOver, forall_mem_mul, forall_mem_oneToken, forall_mem_oneTree]
  intro w hw body hbody
  exact ⟨_, .otherwise hw hbody, rfl⟩

/-- One tree of the schema in front of any number is any number. -/
theorem mem_manyTrees_of_mem_mul (symbol : Symbol) :
    ∀ trees ∈ oneTree symbol * manyTrees symbol, trees ∈ manyTrees symbol := by
  rw [forall_mem_mul, forall_mem_oneTree]
  intro tree htree more hmore other hother
  rcases List.mem_cons.mp hother with rfl | hother
  · exact htree
  · exact hmore other hother

theorem composed_return {L : Language Tree} (h : [] ∈ L) : Composed f [] L (pure ()) := by
  apply Composed.nothing.mono
  rintro _ rfl
  exact h

/-- Steps that are taken only in front of a token that passes a test. -/
theorem composed_optional {L : Language Tree} {p : Production Unit} (test : Token → Bool)
    (hp : Composed f [] L p) (hnil : [] ∈ L) :
    Composed f [] L (do if (← peek).any test then p) := by
  refine .look (fun _ => False) (composed_return hnil) ?_ (fun _ h => h.elim)
  intro t _
  by_cases ht : test t
  · simpa [ht] using hp
  · simpa [ht] using composed_return hnil

theorem composed_elseIfsRule :
    Composed f [] (manyTrees .elseIf) (elseIfsRule (f .expr) (f .statements) (f .elseIfs)) := by
  have hbranches := composed_elseIfRule.andThen (Composed.phrase (f := f) .elseIfs)
  exact composed_optional _ (hbranches.mono (mem_manyTrees_of_mem_mul .elseIf))
    (nil_mem_manyTrees _)

theorem composed_elseOptional :
    Composed f [] (atMostOneTree .otherwise) (elseOptional (f .statements)) := by
  apply composed_optional _ (composed_elseRule.mono _)
  · exact ⟨none, by simp, rfl⟩
  · rw [forall_mem_oneTree]
    intro branch hbranch
    exact ⟨some branch, by simpa using hbranch, rfl⟩

theorem composed_ifRule : Composed f [] (oneTree .statement)
    (ifRule (f .expr) (f .statements) (f .elseIfs)) := by
  have hbranches := (Composed.phrase (f := f) .elseIfs).andThen
    (composed_elseOptional.andThen (composed_keyword "end"))
  have hchildren := (composed_keyword "if").andThen <| (Composed.phrase .expr).andThen <|
    (composed_keyword "then").andThen <| composed_block.andThen hbranches
  apply (hchildren.within .conditional).mono
  simp only [shape, forall_mem_nodeOver, forall_mem_mul, forall_mem_oneToken, forall_mem_oneTree]
  rintro w hw test htest t ht body hbody branches hbranches _ ⟨last, hlast, rfl⟩ z hz
  exact ⟨_, .conditional hw htest ht hbody hbranches hlast hz, by simp⟩

/-- A token that a statement can begin with. -/
def BeginsStatement (token : Token) : Prop :=
  token.isKeyword ["for"] ∨ token.isKeyword ["if"] ∨ token.kind = .identifier

theorem composed_statementRule {token : Token} (h : BeginsStatement token) :
    Composed f [] (oneTree .statement)
      (statementRule (f .expr) (f .statements) (f .elseIfs) token) := by
  unfold statementRule
  split
  · exact composed_forRule
  · next hfor =>
      split
      · exact composed_ifRule
      · next hif =>
          have hkind : token.kind = .identifier := by
            rcases h with h | h | h
            · exact absurd h hfor
            · exact absurd h hif
            · exact h
          rw [if_pos hkind]
          exact composed_callRule

theorem statementRule_of_not_begins {expr statements elseIfs : Production Unit} {token : Token}
    (h : ¬ BeginsStatement token) :
    statementRule expr statements elseIfs token = failAt token (.unknownToken token.value) := by
  simp only [BeginsStatement, not_or] at h
  simp [statementRule, h]

theorem composed_statementsRule : Composed f [] (manyTrees .statement)
    (statementsRule (f .expr) (f .statements) (f .elseIfs)) := by
  have hnothing : Composed f [] (manyTrees .statement) (pure ()) :=
    composed_return (nil_mem_manyTrees _)
  refine .look
    (fun t => ¬ t.isKeyword ["end", "elseif", "else"] ∧ ¬ BeginsStatement t) hnothing ?_ ?_
  · intro t ht
    simp only
    split
    · exact hnothing
    · next hopen =>
        have hbegins : BeginsStatement t := by
          by_contra hnot
          exact ht ⟨hopen, hnot⟩
        have hall := (composed_statementRule hbegins).andThen (Composed.phrase (f := f) .statements)
        exact hall.mono (mem_manyTrees_of_mem_mul .statement)
  · rintro t ⟨hopen, hnot⟩
    simp only [hopen]
    rw [statementRule_of_not_begins hnot]
    rfl

theorem composed_rule : ∀ phrase, Composed f [] phrase.shape (rule f phrase)
  | .expr => composed_exprRule
  | .statements => composed_statementsRule
  | .elseIfs => composed_elseIfsRule

end Rules

/-- Productions for the phrases to begin an induction with: they reject whatever
they read. -/
def rejecting (_ : Phrase) : Production Unit :=
  nextToken >>= fun token => failAt token (.unexpectedToken "" token.value)

theorem run_rejecting (phrase : Phrase) (c : Cursor) :
    Run [] phrase.shape c (rejecting phrase c) := by
  apply run_read (Composed.phrase (f := parse) phrase).exists_mem
  exact fun _ hs _ c => .reject c hs rfl

/-- Every run of a phrase is made of steps of the grammar. -/
theorem run_parse (phrase : Phrase) (c : Cursor) : Run [] phrase.shape c (phrase.parse c) :=
  guarded_rule.recursive_induction (P := fun phrase c o => Run [] phrase.shape c o)
    rejecting run_rejecting (fun _ hf phrase c => (composed_rule phrase).run hf c) phrase c

end Phrase

namespace Production

theorem run_statements (c : Cursor) : Run [] (manyTrees .statement) c (statements c) :=
  Phrase.run_parse .statements c

/-- What a successful run adds is a word of its language. -/
theorem Run.builds {held : List Token} {L : Language Tree} {c : Cursor} {o : Outcome Unit}
    (h : Run held L c o) (hok : o.result = .ok ()) : withoutTriviaOfAll o.appended ∈ L := by
  induction h with
  | nothing => exact Language.nil_mem_one
  | attach _ ht hs => exact ⟨_, ht, withoutTriviaOfAll_token hs⟩
  | reject | refuse | exhaust => cases hok
  | read _ htrivia _ ih =>
      rw [withoutTriviaOfAll_append, withoutTriviaOfAll_lexemes htrivia]
      exact ih hok
  | stop _ hfault => cases hfault.symm.trans hok
  | andThen _ hfirst _ ih ih' =>
      rw [withoutTriviaOfAll_append]
      exact Language.append_mem_mul (ih hfirst) (ih' hok)
  | within _ _ ih => exact ⟨_, ih hok, rfl⟩
  | mono _ hLM ih => exact hLM _ (ih hok)

end Production

end ScriptSyntax
