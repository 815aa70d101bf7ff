import ScriptSyntax.Proofs.Loops

/-!
Parsing comes to an end. The cursor only moves forward and never beyond the last lexeme; whatever
has been read holds a token; and a loop that does not return has read something. So each phrase
inside another is read with fewer lexemes left: the rules of the grammar determine the
productions, and following them as deep as there are lexemes, and one step deeper, is enough.
-/

namespace ScriptSyntax.Production

open ScriptSyntax.Tree

/-- What a parse is made of: the steps that read or look ahead, the productions of the grammar,
nodes around other steps, and steps one after the other. -/
inductive Routine : {α : Type} → Production α → Prop where
  | value {α : Type} (a : α) : Routine (pure a)
  | attach (tree : Tree) : Routine (attach tree)
  | fail {α : Type} (fault : Fault) : Routine (fail fault : Production α)
  | peek : Routine peek
  | nextToken : Routine nextToken
  | expect (kind : TokenKind) (value : String) : Routine (expect kind value)
  | finish : Routine finish
  | operand (token : Token) : Routine (Phrase.operandRule expr token)
  | operation (operand : List Tree) : Routine (Phrase.operationRule expr operand)
  | exprFrom (token : Token) : Routine (Phrase.exprFrom expr token)
  | expr : Routine expr
  | lhs : Routine lhs
  | call : Routine call
  | forLoop : Routine forLoop
  | elseIf : Routine elseIf
  | elseIfs : Routine Phrase.elseIfs.parse
  | otherwise : Routine (Phrase.elseRule statements)
  | elseOptional : Routine (Phrase.elseOptional statements)
  | conditional : Routine conditional
  | statement (token : Token) : Routine (statement token)
  | statements : Routine statements
  | block : Routine block
  | within {α : Type} {p : Production α} (kind : NodeKind) (h : Routine p) :
      Routine (within kind p)
  | andThen {α β : Type} {p : Production α} {f : α → Production β} (hp : Routine p)
      (hf : ∀ a, Routine (f a)) : Routine (p >>= f)

theorem forward_finish : Forward finish := by
  intro c
  cases htokens : significantTokens c.rest with
  | nil =>
      rw [finish_of_nil htokens]
      exact List.nil_suffix
  | cons token tokens =>
      rw [finish_of_cons htokens]
      exact @forward_failAt Unit token _ c

theorem Routine.forward {α : Type} {p : Production α} (h : Routine p) : Forward p := by
  have hexpr := Phrase.forward_parse .expr
  have hstatements := Phrase.forward_parse .statements
  have helseIfs := Phrase.forward_parse .elseIfs
  induction h with
  | value a => exact forward_pure a
  | attach tree => exact forward_attach tree
  | fail fault => exact forward_fail fault
  | peek => exact forward_peek
  | nextToken => exact forward_nextToken
  | expect kind value => exact forward_expect kind value
  | finish => exact forward_finish
  | operand token => exact Phrase.forward_operandRule hexpr token
  | operation operand => exact Phrase.forward_operationRule hexpr operand
  | exprFrom token => exact Phrase.forward_exprFrom hexpr token
  | expr => exact hexpr
  | lhs => exact Phrase.forward_lhsRule
  | call => exact Phrase.forward_callRule hexpr
  | forLoop => exact Phrase.forward_forRule hexpr hstatements
  | elseIf => exact Phrase.forward_elseIfRule hexpr hstatements
  | elseIfs => exact helseIfs
  | otherwise => exact .within _ ((forward_keyword _).bind fun _ => hstatements.within _)
  | elseOptional => exact Phrase.forward_elseOptional hstatements
  | conditional => exact Phrase.forward_ifRule hexpr hstatements helseIfs
  | statement token => exact Phrase.forward_statementRule hexpr hstatements helseIfs token
  | statements => exact hstatements
  | block => exact hstatements.within _
  | within kind _ ih => exact ih.within kind
  | andThen _ _ ihp ihf => exact ihp.bind ihf

/-- In terms of an index into a list of lexemes: it does not become smaller and stays in
bounds. -/
theorem Forward.exists_index {α : Type} {p : Production α} (h : Forward p) {ls : List Lexeme}
    {index : Nat} (hindex : index ≤ ls.length) (eof : Position) :
    ∃ next, index ≤ next ∧ next ≤ ls.length ∧ (p ⟨ls.drop index, eof⟩).rest = ls.drop next := by
  have hsuffix := h ⟨ls.drop index, eof⟩
  have hlength := hsuffix.length_le
  rw [List.suffix_iff_eq_drop, List.drop_drop] at hsuffix
  simp only [List.length_drop] at hsuffix hlength
  refine ⟨_, ?_, ?_, hsuffix⟩
  · omega
  · omega

/-! Tokens that are read. -/

/-- A success has read at least one significant token. -/
def Consumes (p : Production Unit) : Prop :=
  ∀ c, (p c).result = .ok () →
    ∃ read, c.rest = read ++ (p c).rest ∧ significantTokens read ≠ []

/-- What is read is in the trees that are added. -/
theorem Composed.consumes {L : Language Tree} {p : Production Unit}
    (h : Composed Phrase.parse [] L p) (hL : ∀ trees ∈ L, tokensOfAll trees ≠ []) :
    Consumes p := by
  intro c hok
  have hrun := h.run Phrase.run_parse c
  obtain ⟨read, hleaves, hread⟩ := hrun.accounts
  rw [Outcome.faults_of_ok hok, List.map_nil, List.append_nil] at hleaves
  rw [Outcome.ahead_of_ok hok, List.map_nil, List.nil_append] at hread
  refine ⟨read, hread.symm, ?_⟩
  rw [← tokensOfAll_of_leaves hleaves, ← tokensOfAll_withoutTriviaOfAll]
  exact hL _ (hrun.builds hok)

theorem tokensOfAll_ne_nil_of_oneTree {symbol : Symbol} (hsymbol : symbol ≠ .block) :
    ∀ trees ∈ oneTree symbol, tokensOfAll trees ≠ [] := by
  rw [forall_mem_oneTree]
  intro tree htree
  simpa using htree.tokens_ne_nil hsymbol

theorem consumes_expr : Consumes expr :=
  Composed.consumes (.phrase .expr) (tokensOfAll_ne_nil_of_oneTree nofun)

theorem consumes_lhs : Consumes lhs := by
  apply Phrase.composed_lhsRule.consumes
  rw [Phrase.nameTree, forall_mem_nodeOver, forall_mem_oneToken]
  intro t ht
  simp [tokens_token (Token.isSignificant_of_identifier ht)]

theorem consumes_call : Consumes call :=
  Phrase.composed_callRule.consumes (tokensOfAll_ne_nil_of_oneTree nofun)

theorem consumes_forLoop : Consumes forLoop :=
  Phrase.composed_forRule.consumes (tokensOfAll_ne_nil_of_oneTree nofun)

theorem consumes_conditional : Consumes conditional :=
  Phrase.composed_ifRule.consumes (tokensOfAll_ne_nil_of_oneTree nofun)

theorem consumes_elseIf : Consumes elseIf :=
  Phrase.composed_elseIfRule.consumes (tokensOfAll_ne_nil_of_oneTree nofun)

/-! Depth of recursion. -/

section Recursion

variable {ι : Type} {rule : (ι → Production Unit) → ι → Production Unit}

theorem iterate_of_fixed {f : ι → Production Unit} (hf : rule f = f) (n : Nat) :
    iterate rule f n = f := by
  induction n with
  | zero => rfl
  | succ n ih => rw [iterate, ih, hf]

/-- The productions of a guarded rule are the only ones that satisfy it. -/
theorem Guarded.eq_recursive_iff (h : Guarded rule) {f : ι → Production Unit} :
    (∀ i, f i = rule f i) ↔ f = recursive rule := by
  constructor
  · intro hf
    funext i c
    have hagree := h.iterate_agree f (c.rest.length + 1) i c (Nat.lt_succ_self _)
    rwa [iterate_of_fixed (funext fun i => (hf i).symm)] at hagree
  · rintro rfl i
    exact h.recursive_eq i

end Recursion

end Production

open Production

/-- Parsing comes to an end, with its cursor in bounds. Whatever a parse is made of moves the
cursor forward and not beyond the last lexeme, and the productions that succeed have read a
token. A turn of a loop returns or leaves fewer lexemes. What a rule does depends on the phrases
inside it only where fewer lexemes are left, so the rules have one solution, which is what is
run; and rules that are applied more often than there are lexemes come to it, whatever they are
applied to in the end. -/
theorem parse_progresses :
    (∀ {α : Type} (p : Production α), Routine p → ∀ (ls : List Lexeme) eof index,
      index ≤ ls.length → ∃ next, index ≤ next ∧ next ≤ ls.length ∧
        (p ⟨ls.drop index, eof⟩).rest = ls.drop next) ∧
    (∀ p ∈ [expr, lhs, call, forLoop, conditional, elseIf], ∀ c, (p c).result = .ok () →
      ∃ read, c.rest = read ++ (p c).rest ∧ significantTokens read ≠ []) ∧
    (∀ c, Turn nextStatement statements c ∧ Turn nextElseIf Phrase.elseIfs.parse c) ∧
    (∀ f g : Phrase → Production Unit, (∀ i, Forward (g i)) → ∀ i c,
      (∀ j d, d.rest.length < c.rest.length → f j d = g j d) →
      Phrase.rule f i c = Phrase.rule g i c) ∧
    (∀ f : Phrase → Production Unit, (∀ i, f i = Phrase.rule f i) ↔ f = Phrase.parse) ∧
    (∀ (base : Phrase → Production Unit) n i c, c.rest.length < n →
      iterate Phrase.rule base n i c = i.parse c) ∧
    ∀ n i c, c.rest.length < n → unfold Phrase.rule n i c = i.parse c := by
  have hguarded := Phrase.guarded_rule
  refine ⟨?_, ?_, fun c => ⟨turn_statements c, turn_elseIfs c⟩, ?_,
    fun f => hguarded.eq_recursive_iff, ?_, ?_⟩
  · intro α p hp ls eof index hindex
    exact hp.forward.exists_index hindex eof
  · simp only [List.forall_mem_cons]
    exact ⟨consumes_expr, consumes_lhs, consumes_call, consumes_forLoop, consumes_conditional,
      consumes_elseIf, nofun⟩
  · intro f g hg i c hfg
    exact hguarded.agree hg (fun j d hd => hfg j d hd) i c (Nat.lt_succ_self _)
  · intro base n i c hn
    exact hguarded.iterate_agree base n i c hn
  · intro n i c hn
    exact hguarded.unfold_agree_recursive n i c hn

/-- In front of the blank in `f (1) end`, and of its parenthesis. -/
theorem parse_progresses_group :
    let ls := scan "f (1) end" none
    let blank : Cursor := ⟨ls.drop 1, .null⟩
    let group : Cursor := ⟨ls.drop 2, .null⟩
    (∃ next, 1 ≤ next ∧ next ≤ ls.length ∧ (statements blank).rest = ls.drop next) ∧
      (expr group).result = .ok () ∧
      (∃ read, group.rest = read ++ (expr group).rest ∧ significantTokens read ≠ []) ∧
      unfold Phrase.rule (ls.length + 1) .statements blank = statements blank := by
  intro ls blank group
  obtain ⟨hbounds, hconsumes, -, -, -, -, hdepth⟩ := parse_progresses
  have hok : (expr group).result = .ok () := by decide +kernel
  refine ⟨hbounds statements .statements ls .null 1 (by decide +kernel), hok,
    hconsumes expr (by simp) group hok, hdepth _ .statements blank (by decide +kernel)⟩

end ScriptSyntax
