import Mathlib.Data.List.Forall2
import ScriptSyntax.Program
import ScriptSyntax.Proofs.Composition

/-!
Runs in lockstep. A likeness says which tokens, which runs of trivia and which
positions of two lists of lexemes pass for each other; like tokens have the same
kind and text. Productions see no more of a token than that, and nothing of
trivia and positions. So on like lists they go the same way, add like trees, and
stop in front of like lists, in success and in failure.

The relation is carried through the monad once, by one lemma for each primitive;
the rules of the grammar are compositions of these. Main statement: parses of
like lists of lexemes have like trees and like faults.
-/

namespace ScriptSyntax

/-- What passes for the same in two lists of lexemes. -/
structure Likeness where
  token : Token → Token → Prop
  /-- Holds of the trivia between tokens, run by run. -/
  trivia : List Lexeme → List Lexeme → Prop
  position : Position → Position → Prop
  kind_eq {t u : Token} (h : token t u) : t.kind = u.kind
  value_eq {t u : Token} (h : token t u) : t.value = u.value
  start {t u : Token} (h : token t u) : position t.span.start u.span.start
  trivia_nil : trivia [] []

namespace Likeness

/-- The same cause, at like tokens and like positions. -/
structure Faults (K : Likeness) (f g : Fault) : Prop where
  cause_eq : f.cause = g.cause
  token : Option.Rel K.token f.token g.token
  position : K.position f.position g.position

/-- Like tokens in the same order, with like trivia around them. -/
inductive Lexemes (K : Likeness) : List Lexeme → List Lexeme → Prop where
  | trivia {run run' : List Lexeme} (hrun : significantTokens run = [])
      (hrun' : significantTokens run' = []) (h : K.trivia run run') : Lexemes K run run'
  | token {run run' after after' : List Lexeme} {t u : Token} (hrun : significantTokens run = [])
      (hrun' : significantTokens run' = []) (h : K.trivia run run') (ht : t.isSignificant)
      (htu : K.token t u) (hafter : Lexemes K after after') :
      Lexemes K (run ++ .token t :: after) (run' ++ .token u :: after')

/-- The same nodes over like leaves. Runs of trivia stand for each other as a whole. -/
inductive Trees (K : Likeness) : List Tree → List Tree → Prop where
  | nil : Trees K [] []
  | trivia {run run' : List Lexeme} (hrun : significantTokens run = [])
      (hrun' : significantTokens run' = []) (h : K.trivia run run') :
      Trees K (run.map Tree.lexeme) (run'.map Tree.lexeme)
  | token {t u : Token} (ht : t.isSignificant) (h : K.token t u) :
      Trees K [.token t] [.token u]
  | fault {f g : Fault} (h : K.Faults f g) : Trees K [.fault f] [.fault g]
  | node {children children' : List Tree} (kind : NodeKind) (h : Trees K children children') :
      Trees K [.node kind children] [.node kind children']
  | append {trees trees' more more' : List Tree} (h : Trees K trees trees')
      (hmore : Trees K more more') : Trees K (trees ++ more) (trees' ++ more')

structure Cursors (K : Likeness) (c d : Cursor) : Prop where
  rest : K.Lexemes c.rest d.rest
  eof : K.position c.eof d.eof

/-- Related values, or like faults. -/
inductive Results (K : Likeness) {α β : Type} (R : α → β → Prop) :
    Except Fault α → Except Fault β → Prop where
  | ok {a : α} {b : β} (h : R a b) : Results K R (.ok a) (.ok b)
  | error {f g : Fault} (h : K.Faults f g) : Results K R (.error f) (.error g)

structure Outcomes (K : Likeness) {α β : Type} (R : α → β → Prop) (o : Outcome α) (o' : Outcome β) :
    Prop where
  appended : K.Trees o.appended o'.appended
  rest : K.Lexemes o.rest o'.rest
  result : K.Results R o.result o'.result

/-- From like cursors, the productions come to like outcomes. -/
def InStep (K : Likeness) {α β : Type} (R : α → β → Prop) (p : Production α) (q : Production β) :
    Prop :=
  ∀ c d, K.Cursors c d → K.Outcomes R (p c) (q d)

variable {K : Likeness}

section Tokens

variable {t u : Token}

theorem isSignificant_eq (h : K.token t u) : t.isSignificant = u.isSignificant := by
  rw [Token.isSignificant, Token.isSignificant, K.kind_eq h]

theorem is_eq (h : K.token t u) (kind : TokenKind) (value : String) :
    t.is kind value = u.is kind value := by
  rw [Token.is, Token.is, K.kind_eq h, K.value_eq h]

theorem isKeyword_eq (h : K.token t u) (words : List String) :
    t.isKeyword words = u.isKeyword words := by
  rw [Token.isKeyword, Token.isKeyword, K.kind_eq h, K.value_eq h]

theorem isBinaryOperator_eq (h : K.token t u) : t.isBinaryOperator = u.isBinaryOperator := by
  rw [Token.isBinaryOperator, Token.isBinaryOperator, K.kind_eq h, K.value_eq h]

theorem any_eq {test : Token → Bool} (htest : ∀ {t u}, K.token t u → test t = test u)
    {next next' : Option Token} (h : Option.Rel K.token next next') :
    next.any test = next'.any test := by
  cases h with
  | none => rfl
  | some htu => exact htest htu

theorem faults_raise (h : K.token t u) (cause : Cause) :
    K.Faults (.raise cause (some t)) (.raise cause (some u)) :=
  ⟨rfl, .some h, K.start h⟩

theorem faults_atEnd {eof eof' : Position} (h : K.position eof eof') :
    K.Faults (.atEnd eof) (.atEnd eof') :=
  ⟨rfl, .none, h⟩

end Tokens

theorem lexemes_nil : K.Lexemes [] [] := .trivia rfl rfl K.trivia_nil

/-- Like lists show like first tokens. -/
theorem Lexemes.head? {rest rest' : List Lexeme} (h : K.Lexemes rest rest') :
    Option.Rel K.token (significantTokens rest).head? (significantTokens rest').head? := by
  cases h with
  | trivia hrun hrun' _ =>
      rw [hrun, hrun']
      exact .none
  | token hrun hrun' _ ht htu _ =>
      have hu := isSignificant_eq htu ▸ ht
      rw [significantTokens_append, significantTokens_append, hrun, hrun',
        significantTokens_cons_token ht, significantTokens_cons_token hu]
      exact .some htu

/-- Where all trivia passes for the same, lists with like tokens are alike. -/
theorem Lexemes.of_tokens (htrivia : ∀ run run', K.trivia run run') {a b : List Lexeme}
    (h : List.Forall₂ K.token (significantTokens a) (significantTokens b)) : K.Lexemes a b := by
  generalize hts : significantTokens a = ts at h
  generalize hus : significantTokens b = us at h
  induction h generalizing a b with
  | nil => exact .trivia hts hus (htrivia a b)
  | cons htu _ ih =>
      obtain ⟨run, after, rfl, hrun, ht, hafter⟩ := significantTokens_eq_cons_iff.mp hts
      obtain ⟨run', after', rfl, hrun', _, hafter'⟩ := significantTokens_eq_cons_iff.mp hus
      exact .token hrun hrun' (htrivia run run') ht htu (ih hafter hafter')

/-- Like trees have like tokens. -/
theorem Trees.tokens {trees trees' : List Tree} (h : K.Trees trees trees') :
    List.Forall₂ K.token (Tree.tokensOfAll trees) (Tree.tokensOfAll trees') := by
  induction h with
  | nil => exact .nil
  | trivia hrun hrun' _ =>
      rw [Tree.tokensOfAll_of_leaves (Tree.leavesOfAll_lexemes _), hrun,
        Tree.tokensOfAll_of_leaves (Tree.leavesOfAll_lexemes _), hrun']
      exact .nil
  | token ht htu =>
      have hu := isSignificant_eq htu ▸ ht
      rw [Tree.tokensOfAll_cons, Tree.tokensOfAll_cons, Tree.tokens_token ht, Tree.tokens_token hu]
      exact .cons htu .nil
  | fault _ => exact .nil
  | node _ _ ih =>
      rwa [Tree.tokensOfAll_cons, Tree.tokensOfAll_cons, Tree.tokens_node, Tree.tokens_node,
        Tree.tokensOfAll_nil, List.append_nil, List.append_nil]
  | append _ _ ih ihmore =>
      rw [Tree.tokensOfAll_append, Tree.tokensOfAll_append]
      exact List.rel_append ih ihmore

/-! The primitives of productions. -/

section Primitives

open Production

variable {α β γ δ : Type} {R : α → β → Prop} {S : γ → δ → Prop} {p : Production α}
  {q : Production β} {t u : Token}

theorem inStep_pure {a : α} {b : β} (h : R a b) : K.InStep R (pure a) (pure b) :=
  fun _ _ hcd => ⟨.nil, hcd.rest, .ok h⟩

theorem InStep.bind {f : α → Production γ} {g : β → Production δ} (hp : K.InStep R p q)
    (hf : ∀ a b, R a b → K.InStep S (f a) (g b)) : K.InStep S (p >>= f) (q >>= g) := by
  intro c d hcd
  obtain ⟨happended, hrest, hresult⟩ := hp c d hcd
  generalize hx : (p c).result = x at hresult
  generalize hy : (q d).result = y at hresult
  cases hresult with
  | ok hab =>
      obtain ⟨happended', hrest', hresult'⟩ :=
        hf _ _ hab ⟨(p c).rest, c.eof⟩ ⟨(q d).rest, d.eof⟩ ⟨hrest, hcd.eof⟩
      rw [bind_of_ok hx, bind_of_ok hy]
      exact ⟨happended.append happended', hrest', hresult'⟩
  | error hfault =>
      rw [bind_of_error hx, bind_of_error hy]
      exact ⟨happended, hrest, .error hfault⟩

/-- One step and then another, with no value in between. -/
theorem InStep.andThen {p q : Production Unit} {p' : Production γ} {q' : Production δ}
    (hp : K.InStep Eq p q) (hq : K.InStep S p' q') :
    K.InStep S (p >>= fun _ => p') (q >>= fun _ => q') :=
  hp.bind fun _ _ _ => hq

theorem inStep_attach (ht : t.isSignificant) (h : K.token t u) :
    K.InStep Eq (attach (.token t)) (attach (.token u)) :=
  fun _ _ hcd => ⟨.token ht h, hcd.rest, .ok rfl⟩

theorem inStep_attachAll {trees trees' : List Tree} (h : K.Trees trees trees') :
    K.InStep Eq (attachAll trees) (attachAll trees') :=
  fun _ _ hcd => ⟨h, hcd.rest, .ok rfl⟩

theorem inStep_failAt (h : K.token t u) {cause cause' : Cause} (hcause : cause = cause') :
    K.InStep R (failAt t cause) (failAt u cause') := by
  subst hcause
  exact fun _ _ hcd => ⟨.fault (faults_raise h cause), hcd.rest, .error (faults_raise h cause)⟩

theorem inStep_peek : K.InStep (Option.Rel K.token) peek peek := by
  intro c d hcd
  refine ⟨.nil, hcd.rest, ?_⟩
  rw [peek_result, peek_result]
  exact .ok hcd.rest.head?

/-- Reading takes like tokens, which are significant. -/
theorem inStep_nextToken :
    K.InStep (fun t u => t.isSignificant ∧ K.token t u) nextToken nextToken := by
  rintro ⟨rest, eof⟩ ⟨rest', eof'⟩ ⟨hrest, heof⟩
  change K.Lexemes rest rest' at hrest
  cases hrest with
  | trivia hrun hrun' h =>
      rw [nextToken_atEnd hrun, nextToken_atEnd hrun']
      have hfault := faults_atEnd heof
      exact ⟨(Trees.trivia hrun hrun' h).append (.fault hfault), lexemes_nil, .error hfault⟩
  | token hrun hrun' h ht htu hafter =>
      have hu := isSignificant_eq htu ▸ ht
      rw [nextToken_token hrun ht, nextToken_token hrun' hu]
      exact ⟨.trivia hrun hrun' h, hafter, .ok ⟨ht, htu⟩⟩

theorem inStep_discard_expect (kind : TokenKind) (value : String) :
    K.InStep Eq (discard (expect kind value)) (discard (expect kind value)) := by
  rw [discard_expect]
  refine inStep_nextToken.bind ?_
  rintro t u ⟨ht, htu⟩
  rw [← K.kind_eq htu, ← K.value_eq htu]
  split
  · exact inStep_failAt htu rfl
  · split
    · exact inStep_failAt htu rfl
    · exact inStep_attach ht htu

theorem inStep_keyword (word : String) : K.InStep Eq (keyword word) (keyword word) :=
  inStep_discard_expect .keyword word

theorem inStep_operator (sign : String) : K.InStep Eq (operator sign) (operator sign) :=
  inStep_discard_expect .operator sign

theorem InStep.within (kind : NodeKind) (h : K.InStep R p q) :
    K.InStep R (within kind p) (within kind q) := by
  intro c d hcd
  obtain ⟨happended, hrest, hresult⟩ := h c d hcd
  exact ⟨.node kind happended, hrest, hresult⟩

theorem InStep.hold {p q : Production Unit} (h : K.InStep Eq p q) :
    K.InStep K.Trees (hold p) (hold q) := by
  intro c d hcd
  obtain ⟨happended, hrest, hresult⟩ := h c d hcd
  generalize hx : (p c).result = x at hresult
  generalize hy : (q d).result = y at hresult
  cases hresult with
  | ok _ =>
      rw [hold_of_ok hx, hold_of_ok hy]
      exact ⟨.nil, hrest, .ok happended⟩
  | error hfault =>
      rw [hold_of_error hx, hold_of_error hy]
      exact ⟨happended, hrest, .error hfault⟩

theorem inStep_finish : K.InStep Eq finish finish := by
  rintro ⟨rest, eof⟩ ⟨rest', eof'⟩ ⟨hrest, heof⟩
  change K.Lexemes rest rest' at hrest
  cases hrest with
  | trivia hrun hrun' h =>
      rw [finish_of_nil hrun, finish_of_nil hrun']
      exact ⟨.trivia hrun hrun' h, lexemes_nil, .ok rfl⟩
  | @token run run' after after' t u hrun hrun' h ht htu hafter =>
      have hu := isSignificant_eq htu ▸ ht
      have htokens : significantTokens (run ++ .token t :: after) =
          t :: significantTokens after := by
        rw [significantTokens_append, hrun, significantTokens_cons_token ht, List.nil_append]
      have htokens' : significantTokens (run' ++ .token u :: after') =
          u :: significantTokens after' := by
        rw [significantTokens_append, hrun', significantTokens_cons_token hu, List.nil_append]
      rw [finish_of_cons htokens, finish_of_cons htokens', K.value_eq htu]
      exact inStep_failAt htu rfl _ _ ⟨.token hrun hrun' h ht htu hafter, heof⟩

end Primitives

/-! The rules of the grammar. -/

section Rules

open Production Phrase

variable {expr expr' statements statements' elseIfs elseIfs' : Production Unit} {t u : Token}

theorem inStep_lhsRule : K.InStep Eq lhsRule lhsRule := by
  refine .within _ (inStep_nextToken.bind ?_)
  rintro t u ⟨ht, htu⟩
  rw [← K.kind_eq htu, ← K.value_eq htu]
  split
  · exact inStep_attach ht htu
  · exact inStep_failAt htu rfl

theorem inStep_operandRule (hexpr : K.InStep Eq expr expr') (ht : t.isSignificant)
    (htu : K.token t u) : K.InStep Eq (operandRule expr t) (operandRule expr' u) := by
  unfold operandRule
  rw [← is_eq htu, ← K.kind_eq htu, ← K.value_eq htu]
  split
  · exact .within _ <| (inStep_attach ht htu).andThen <| hexpr.andThen (inStep_operator ")")
  · cases t.kind with
    | number | string | identifier => exact .within _ (inStep_attach ht htu)
    | comment | operator | keyword => exact inStep_failAt htu rfl

theorem inStep_operationRule (hexpr : K.InStep Eq expr expr') {operand operand' : List Tree}
    (hoperand : K.Trees operand operand') :
    K.InStep Eq (operationRule expr operand) (operationRule expr' operand') := by
  refine .within _ ((inStep_attachAll hoperand).andThen (inStep_nextToken.bind ?_))
  rintro b b' ⟨hb, hbb'⟩
  exact (inStep_attach hb hbb').andThen hexpr

theorem inStep_exprFrom (hexpr : K.InStep Eq expr expr') (ht : t.isSignificant)
    (htu : K.token t u) : K.InStep Eq (exprFrom expr t) (exprFrom expr' u) := by
  refine (inStep_operandRule hexpr ht htu).hold.bind fun operand operand' hoperand => ?_
  refine inStep_peek.bind fun next next' hnext => ?_
  rw [any_eq isBinaryOperator_eq hnext]
  split
  · exact inStep_operationRule hexpr hoperand
  · exact inStep_attachAll hoperand

theorem inStep_exprRule (hexpr : K.InStep Eq expr expr') :
    K.InStep Eq (exprRule expr) (exprRule expr') :=
  .within _ <| inStep_nextToken.bind fun _ _ ⟨ht, htu⟩ => inStep_exprFrom hexpr ht htu

theorem inStep_callRule (hexpr : K.InStep Eq expr expr') :
    K.InStep Eq (callRule expr) (callRule expr') :=
  .within _ <| inStep_lhsRule.andThen <| (inStep_operator "(").andThen <|
    hexpr.andThen (inStep_operator ")")

theorem inStep_forRule (hexpr : K.InStep Eq expr expr')
    (hstatements : K.InStep Eq statements statements') :
    K.InStep Eq (forRule expr statements) (forRule expr' statements') :=
  .within _ <| (inStep_keyword "for").andThen <| inStep_lhsRule.andThen <|
    (inStep_operator "=").andThen <| hexpr.andThen <|
    (inStep_operator ",").andThen <| hexpr.andThen <|
    (inStep_operator ",").andThen <| hexpr.andThen <|
    (inStep_keyword "do").andThen <| (hstatements.within .body).andThen (inStep_keyword "end")

theorem inStep_elseIfRule (hexpr : K.InStep Eq expr expr')
    (hstatements : K.InStep Eq statements statements') :
    K.InStep Eq (elseIfRule expr statements) (elseIfRule expr' statements') :=
  .within _ <| (inStep_keyword "elseif").andThen <| hexpr.andThen <|
    (inStep_keyword "then").andThen (hstatements.within .body)

/-- Like tokens lead into the same branch. -/
theorem inStep_optional {p q : Production Unit} (words : List String) (h : K.InStep Eq p q) :
    K.InStep Eq (do if (← peek).any (·.isKeyword words) then p)
      (do if (← peek).any (·.isKeyword words) then q) := by
  refine inStep_peek.bind fun next next' hnext => ?_
  rw [any_eq (fun htu => isKeyword_eq htu words) hnext]
  split
  · exact h
  · exact inStep_pure rfl

theorem inStep_elseIfsRule (hexpr : K.InStep Eq expr expr')
    (hstatements : K.InStep Eq statements statements') (helseIfs : K.InStep Eq elseIfs elseIfs') :
    K.InStep Eq (elseIfsRule expr statements elseIfs) (elseIfsRule expr' statements' elseIfs') :=
  inStep_optional _ <| (inStep_elseIfRule hexpr hstatements).andThen helseIfs

theorem inStep_elseOptional (hstatements : K.InStep Eq statements statements') :
    K.InStep Eq (elseOptional statements) (elseOptional statements') :=
  inStep_optional _ <| .within _ <| (inStep_keyword "else").andThen (hstatements.within .body)

theorem inStep_ifRule (hexpr : K.InStep Eq expr expr')
    (hstatements : K.InStep Eq statements statements') (helseIfs : K.InStep Eq elseIfs elseIfs') :
    K.InStep Eq (ifRule expr statements elseIfs) (ifRule expr' statements' elseIfs') :=
  .within _ <| (inStep_keyword "if").andThen <| hexpr.andThen <|
    (inStep_keyword "then").andThen <| (hstatements.within .body).andThen <|
    helseIfs.andThen <| (inStep_elseOptional hstatements).andThen (inStep_keyword "end")

theorem inStep_statementRule (hexpr : K.InStep Eq expr expr')
    (hstatements : K.InStep Eq statements statements') (helseIfs : K.InStep Eq elseIfs elseIfs')
    (htu : K.token t u) :
    K.InStep Eq (statementRule expr statements elseIfs t)
      (statementRule expr' statements' elseIfs' u) := by
  unfold statementRule
  rw [← isKeyword_eq htu, ← isKeyword_eq htu, ← K.kind_eq htu, ← K.value_eq htu]
  split
  · exact inStep_forRule hexpr hstatements
  · split
    · exact inStep_ifRule hexpr hstatements helseIfs
    · split
      · exact inStep_callRule hexpr
      · exact inStep_failAt htu rfl

theorem inStep_statementsRule (hexpr : K.InStep Eq expr expr')
    (hstatements : K.InStep Eq statements statements') (helseIfs : K.InStep Eq elseIfs elseIfs') :
    K.InStep Eq (statementsRule expr statements elseIfs)
      (statementsRule expr' statements' elseIfs') := by
  refine inStep_peek.bind fun next next' hnext => ?_
  cases hnext with
  | none => exact inStep_pure rfl
  | some htu =>
      simp only [← isKeyword_eq htu]
      split
      · exact inStep_pure rfl
      · exact (inStep_statementRule hexpr hstatements helseIfs htu).andThen hstatements

theorem inStep_rule {f : Phrase → Production Unit}
    (h : ∀ phrase, K.InStep Eq (f phrase) (f phrase)) :
    ∀ phrase, K.InStep Eq (rule f phrase) (rule f phrase)
  | .expr => inStep_exprRule (h .expr)
  | .statements => inStep_statementsRule (h .expr) (h .statements) (h .elseIfs)
  | .elseIfs => inStep_elseIfsRule (h .expr) (h .statements) (h .elseIfs)

end Rules

/-- Every phrase is read in step. -/
theorem inStep_parse (phrase : Phrase) : K.InStep Eq phrase.parse phrase.parse :=
  Phrase.guarded_rule.recursive_induction₂
    (P := fun _ c d o o' => K.Cursors c d → K.Outcomes Eq o o')
    (fun _ => pure ()) (fun _ c d => inStep_pure rfl c d) (fun _ hf => inStep_rule hf) phrase

theorem inStep_program : K.InStep Eq Production.program Production.program :=
  (inStep_parse .statements).andThen inStep_finish

/-- Like lists of lexemes have like trees, and like faults or none. -/
theorem parsePartial_alike {a b : List Lexeme} (h : K.Cursors (.ofLexemes a) (.ofLexemes b)) :
    K.Trees (parsePartial a).1.children (parsePartial b).1.children ∧
      Option.Rel K.Faults (parsePartial a).2 (parsePartial b).2 := by
  obtain ⟨happended, _, hresult⟩ := inStep_program _ _ h
  unfold parsePartial
  generalize Production.program (.ofLexemes a) = o at happended hresult
  generalize Production.program (.ofLexemes b) = o' at happended hresult
  obtain ⟨trees, rest, result⟩ := o
  obtain ⟨trees', rest', result'⟩ := o'
  cases hresult with
  | ok _ => exact ⟨happended, .none⟩
  | error hfault => exact ⟨happended, .some hfault⟩

end Likeness

end ScriptSyntax
