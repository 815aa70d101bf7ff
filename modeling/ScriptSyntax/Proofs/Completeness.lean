import ScriptSyntax.Proofs.Composition
import ScriptSyntax.Proofs.Dressing

/-!
Trees of the schema are read back. Wherever lexemes that dress a tree of the schema
are ahead, and what follows them cannot prolong it, the production of its symbol
succeeds, adds exactly the dressed tree, and stops in front of what follows. An
expression is prolonged by a binary operator, a block by anything but a keyword
that closes it.

The main proof is an induction on the schema, with one run for each constructor.
Hence the tree read from a list of tokens, trivia aside, does not depend on the
trivia between them; `Yields` is reading with the trivia left out of account.
-/

namespace ScriptSyntax

open ScriptSyntax.Tree

namespace Production

/-- With lexemes ahead that dress `trees`, and `after` behind them, the production
adds the dressed trees and stops behind these lexemes. -/
def Reads (p : Production Unit) (trees : List Tree) (after : List Token) : Prop :=
  ∀ lexemes dressed, Dressing trees lexemes dressed → ∀ rest eof,
    significantTokens rest = after → p ⟨lexemes ++ rest, eof⟩ = ⟨dressed, rest, .ok ()⟩

/-- The same for a production with the first of these lexemes in hand. -/
def ReadsFrom (t : Token) (p : Production Unit) (trees : List Tree) (after : List Token) : Prop :=
  ∀ lexemes dressed, Dressing trees (.token t :: lexemes) dressed → ∀ rest eof,
    significantTokens rest = after → p ⟨lexemes ++ rest, eof⟩ = ⟨dressed, rest, .ok ()⟩

section Steps

variable {p q : Production Unit} {trees more : List Tree} {after : List Token} {t : Token}

theorem bind_of_runs {c : Cursor} {first second : List Tree} {mid rest : List Lexeme}
    (hp : p c = ⟨first, mid, .ok ()⟩) (hq : q ⟨mid, c.eof⟩ = ⟨second, rest, .ok ()⟩) :
    (p >>= fun _ => q) c = ⟨first ++ second, rest, .ok ()⟩ := by
  have hok : (p c).result = .ok () := by rw [hp]
  rw [bind_of_ok hok, hp, hq]

theorem reads_pure (after : List Token) : Reads (pure ()) [] after := by
  intro lexemes dressed h rest eof _
  cases h
  rfl

theorem Reads.bind (hp : Reads p trees (tokensOfAll more ++ after)) (hq : Reads q more after) :
    Reads (p >>= fun _ => q) (trees ++ more) after := by
  intro lexemes dressed h rest eof hrest
  obtain ⟨front, back, first, second, rfl, rfl, hfirst, hsecond⟩ := h.of_append
  have hahead : significantTokens (back ++ rest) = tokensOfAll more ++ after := by
    rw [significantTokens_append, hsecond.significantTokens_eq, hrest]
  rw [List.append_assoc]
  exact bind_of_runs (hp front first hfirst _ eof hahead) (hq back second hsecond rest eof hrest)

theorem ReadsFrom.bind (hp : ReadsFrom t p trees (tokensOfAll more ++ after))
    (hq : Reads q more after) (htrees : tokensOfAll trees ≠ []) :
    ReadsFrom t (p >>= fun _ => q) (trees ++ more) after := by
  intro lexemes dressed h rest eof hrest
  obtain ⟨front, back, first, second, rfl, rfl, hfirst, hsecond⟩ := h.of_append_token htrees
  have hahead : significantTokens (back ++ rest) = tokensOfAll more ++ after := by
    rw [significantTokens_append, hsecond.significantTokens_eq, hrest]
  rw [List.append_assoc]
  exact bind_of_runs (hp front first hfirst _ eof hahead) (hq back second hsecond rest eof hrest)

/-- Looking ahead shows the first token of the trees, or else of what is behind them. -/
theorem reads_look {q : Option Token → Production Unit}
    (h : Reads (q (tokensOfAll trees ++ after).head?) trees after) :
    Reads (peek >>= q) trees after := by
  intro lexemes dressed hdressing rest eof hrest
  rw [peek_bind, significantTokens_append, hdressing.significantTokens_eq, hrest]
  exact h lexemes dressed hdressing rest eof hrest

/-- A token that is read stands behind its trivia in the same node. -/
theorem reads_read {q : Token → Production Unit} (h : ReadsFrom t (q t) (.token t :: more) after) :
    Reads (nextToken >>= q) (.token t :: more) after := by
  intro lexemes dressed hdressing rest eof hrest
  cases hdressing with
  | @token _ run lexemes _ dressed ht hrun hmore =>
      have hself : Dressing (.token t :: more) (.token t :: lexemes) (.token t :: dressed) :=
        @Dressing.token t [] lexemes more dressed ht rfl hmore
      have hread := h lexemes _ hself rest eof hrest
      rw [List.append_assoc, List.cons_append, nextToken_bind_token hrun ht, hread]

/-- The first token of an expression is read before the nodes inside are begun. -/
theorem reads_expr {q : Token → Production Unit} {tokens : List Token}
    (htokens : tokensOfAll trees = t :: tokens) (h : ReadsFrom t (q t) trees after) :
    Reads (within .expr (nextToken >>= q)) [.node .expr trees] after := by
  intro lexemes dressed hdressing rest eof hrest
  cases hdressing with
  | node hkind => exact absurd rfl hkind
  | @expr u run front lexemes _ _ inner _ hu hrun hbelow hmore =>
      cases hmore
      obtain rfl : u = t := by
        have hfirst := hbelow.significantTokens_eq
        rw [significantTokens_cons_token hu, htokens] at hfirst
        exact (List.cons.inj hfirst).1
      have hread := h front inner hbelow rest eof hrest
      unfold within
      rw [List.append_nil, List.append_assoc, List.cons_append, nextToken_bind_token hrun hu, hread]

theorem Reads.within {kind : NodeKind} (hkind : kind ≠ .expr) (h : Reads p trees after) :
    Reads (within kind p) [.node kind trees] after := by
  intro lexemes dressed hdressing rest eof hrest
  cases hdressing with
  | expr => exact absurd rfl hkind
  | @node _ front lexemes _ _ inner _ _ hbelow hmore =>
      cases hmore
      unfold Production.within
      rw [List.append_nil, h front inner hbelow rest eof hrest]

theorem ReadsFrom.within (ht : t.isSignificant) (h : ReadsFrom t p trees after) :
    ReadsFrom t (within .expr p) [.node .expr trees] after := by
  intro lexemes dressed hdressing rest eof hrest
  obtain ⟨inner, rfl, hinner⟩ := hdressing.of_expr ht
  unfold Production.within
  rw [h lexemes inner hinner rest eof hrest]

theorem readsFrom_attach (ht : t.isSignificant) (after : List Token) :
    ReadsFrom t (attach (.token t)) [.token t] after := by
  intro lexemes dressed hdressing rest eof _
  obtain ⟨rfl, rfl⟩ := hdressing.of_token ht
  rfl

theorem reads_expect {kind : TokenKind} {value : String}
    (htoken : t.kind = kind ∧ t.value = value) (ht : t.isSignificant) (after : List Token) :
    Reads (discard (expect kind value)) [.token t] after := by
  rw [discard_expect]
  apply reads_read
  simp only [htoken.1, htoken.2, bne_self_eq_false, Bool.false_eq_true, if_false]
  exact readsFrom_attach ht after

theorem reads_keyword {word : String} (h : t.Keyword word) (after : List Token) :
    Reads (keyword word) [.token t] after :=
  reads_expect h h.isSignificant after

theorem reads_operator {sign : String} (h : t.Operator sign) (after : List Token) :
    Reads (operator sign) [.token t] after :=
  reads_expect h h.isSignificant after

end Steps

/-! Reading with the trivia left out of account. -/

section Tokens

variable {α β : Type} {before mid after : List Token}

/-- From every cursor with `before` ahead, the production succeeds with `a`, adds
`trees` besides trivia and leaves `after` ahead. -/
def Yields (p : Production α) (before : List Token) (a : α) (trees : List Tree)
    (after : List Token) : Prop :=
  ∀ c, significantTokens c.rest = before →
    (p c).result = .ok a ∧ withoutTriviaOfAll (p c).appended = trees ∧
      significantTokens (p c).rest = after

theorem Yields.bind {p : Production α} {f : α → Production β} {a : α} {b : β}
    {trees more : List Tree} (hp : Yields p before a trees mid)
    (hf : Yields (f a) mid b more after) : Yields (p >>= f) before b (trees ++ more) after := by
  intro c hc
  obtain ⟨hresult, htrees, hrest⟩ := hp c hc
  obtain ⟨hresult', hmore, hrest'⟩ := hf { c with rest := (p c).rest } hrest
  rw [bind_of_ok hresult]
  refine ⟨hresult', ?_, hrest'⟩
  rw [withoutTriviaOfAll_append, htrees, hmore]

/-- What is read from lexemes that dress the trees is read from every layout of their tokens. -/
theorem Reads.yields {p : Production Unit} {trees : List Tree} (h : Reads p trees after)
    (htrees : Dressable trees) : Yields p (tokensOfAll trees ++ after) () trees after := by
  rintro ⟨lexemes, eof⟩ hc
  obtain ⟨front, rest, dressed, rfl, hrest, hdressing⟩ := htrees lexemes after hc
  rw [h front dressed hdressing rest eof hrest]
  exact ⟨rfl, hdressing.withoutTrivia_eq, hrest⟩

theorem ReadsFrom.yields {p : Production Unit} {trees : List Tree} {t : Token} {more : List Token}
    (h : ReadsFrom t p trees after) (htrees : Dressable trees) (ht : t.isSignificant)
    (htokens : tokensOfAll trees = t :: more) : Yields p (more ++ after) () trees after := by
  rintro ⟨lexemes, eof⟩ hc
  have hhand : significantTokens (.token t :: lexemes) = tokensOfAll trees ++ after := by
    rw [significantTokens_cons_token ht, htokens, List.cons_append]
    exact congrArg _ hc
  obtain ⟨front, rest, dressed, hfront, hrest, hdressing⟩ := htrees _ after hhand
  cases front with
  | nil => cases hdressing.significantTokens_eq.trans htokens
  | cons lexeme front =>
      rw [List.cons_append] at hfront
      obtain ⟨rfl, rfl⟩ := List.cons.inj hfront
      rw [h front dressed hdressing rest eof hrest]
      exact ⟨rfl, hdressing.withoutTrivia_eq, hrest⟩

end Tokens

end Production

namespace Phrase

open Production

theorem expr_eq : Production.expr = exprRule Production.expr := parse_eq .expr

/-- An expression adds one node, whatever it comes to. -/
theorem exists_appended_expr (c : Cursor) :
    ∃ children, (Production.expr c).appended = [.node .expr children] := by
  rw [expr_eq]
  exact ⟨_, rfl⟩

theorem statements_eq : Production.statements =
    statementsRule Production.expr Production.statements Phrase.elseIfs.parse :=
  parse_eq .statements

theorem elseIfs_eq : Phrase.elseIfs.parse =
    elseIfsRule Production.expr Production.statements Phrase.elseIfs.parse := parse_eq .elseIfs

/-- What cannot prolong an expression. -/
def EndsExpr (after : List Token) : Prop := ∀ token ∈ after.head?, ¬ token.Binary

/-- What cannot prolong a block. -/
def ClosesBlock (after : List Token) : Prop :=
  ∀ token ∈ after.head?, token.isKeyword ["end", "elseif", "else"]

theorem endsExpr_operator {token : Token} {sign : String} (h : token.Operator sign)
    (hsign : sign ∈ ["(", ")", ","]) (more : List Tree) (after : List Token) :
    EndsExpr (tokensOfAll (.token token :: more) ++ after) := by
  rw [tokensOfAll_cons, tokens_token h.isSignificant]
  intro other hother hbinary
  obtain rfl : token = other := by simpa using hother
  obtain ⟨_, hopen, hclose, hcomma⟩ := hbinary
  rw [h.2] at hopen hclose hcomma
  simp [hopen, hclose, hcomma] at hsign

theorem endsExpr_keyword {token : Token} {word : String} (h : token.Keyword word)
    (more : List Tree) (after : List Token) :
    EndsExpr (tokensOfAll (.token token :: more) ++ after) := by
  rw [tokensOfAll_cons, tokens_token h.isSignificant]
  intro other hother hbinary
  obtain rfl : token = other := by simpa using hother
  have hkind := h.1.symm.trans hbinary.1
  cases hkind

theorem closesBlock_keyword {tree : Tree} {token : Token} {tokens : List Token} {word : String}
    (htree : tree.tokens = token :: tokens) (h : token.Keyword word)
    (hword : word ∈ ["end", "elseif", "else"]) (more : List Tree) (after : List Token) :
    ClosesBlock (tokensOfAll (tree :: more) ++ after) := by
  rw [tokensOfAll_cons, htree]
  intro other hother
  obtain rfl : token = other := by simpa using hother
  exact Token.isKeyword_iff.mpr ⟨word, hword, h⟩

/-- A tree that the production of its symbol reads back from lexemes that dress it.
The first token of an operand is read, and that of a statement looked at, before
its production runs. -/
def ReadBack : Symbol → Tree → Prop
  | .operand, tree => ∃ token more, tree.tokens = token :: more ∧ token.isSignificant ∧
      ∀ after, ReadsFrom token (operandRule Production.expr token) [tree] after
  | .expr, tree => ∀ after, EndsExpr after → Reads Production.expr [tree] after
  | .statement, tree => ∃ token more, tree.tokens = token :: more ∧
      ¬ token.isKeyword ["end", "elseif", "else"] ∧
      ∀ after, Reads
        (statementRule Production.expr Production.statements Phrase.elseIfs.parse token)
        [tree] after
  | .block, tree => ∀ after, ClosesBlock after → Reads block [tree] after
  | .elseIf, tree => (∃ token more, tree.tokens = token :: more ∧ token.Keyword "elseif") ∧
      ∀ after, ClosesBlock after →
        Reads (elseIfRule Production.expr Production.statements) [tree] after
  | .otherwise, tree => (∃ token more, tree.tokens = token :: more ∧ token.Keyword "else") ∧
      ∀ after, ClosesBlock after → Reads (elseRule Production.statements) [tree] after

section Expressions

theorem readBack_atom {t : Token} (ht : t.Atom) :
    ReadBack .operand (.node .expr [.token t]) := by
  refine ⟨t, [], by simp [tokens_token ht.isSignificant], ht.isSignificant, ?_⟩
  intro after
  have hatom : ReadsFrom t (within .expr (attach (.token t))) [.node .expr [.token t]] after :=
    (readsFrom_attach ht.isSignificant after).within ht.isSignificant
  have hopen : t.is .operator "(" = false := by
    rcases ht with h | h | h <;> simp [Token.is, h]
  unfold operandRule
  rw [hopen]
  rcases ht with h | h | h
  all_goals
    rw [h]
    exact hatom

theorem readBack_group {l r : Token} {e : Tree} (hl : l.Operator "(") (he : ReadBack .expr e)
    (hr : r.Operator ")") : ReadBack .operand (.node .expr [.token l, e, .token r]) := by
  refine ⟨l, e.tokens ++ [r],
    by simp [tokens_token hl.isSignificant, tokens_token hr.isSignificant], hl.isSignificant, ?_⟩
  intro after
  have hopen : l.is .operator "(" := by simp [Token.is, hl.1, hl.2]
  have hinner := he _ (endsExpr_operator hr (by simp) [] after)
  unfold operandRule
  rw [if_pos hopen]
  apply ReadsFrom.within hl.isSignificant
  exact (readsFrom_attach hl.isSignificant _).bind (hinner.bind (reads_operator hr after))
    (by simp [tokens_token hl.isSignificant])

theorem readsFrom_single {t : Token} {o : Tree} {after : List Token}
    (ho : ReadsFrom t (operandRule Production.expr t) [o] after) (hafter : EndsExpr after) :
    ReadsFrom t (exprFrom Production.expr t) [o] after := by
  intro lexemes dressed hdressing rest eof hrest
  have hrun := ho lexemes dressed hdressing rest eof hrest
  have hok : (operandRule Production.expr t ⟨lexemes ++ rest, eof⟩).result = .ok () := by rw [hrun]
  have hnone : ¬ (significantTokens
      (operandRule Production.expr t ⟨lexemes ++ rest, eof⟩).rest).head?.any
        Token.isBinaryOperator := by
    rw [hrun, hrest, Option.any_eq_true]
    rintro ⟨next, hnext, hbinary⟩
    exact hafter next hnext (Token.isBinaryOperator_iff.mp hbinary)
  exact (joined_of_not_test hok hnone).trans hrun

theorem readsFrom_operation {t b : Token} {o e : Tree} {after : List Token}
    (ht : t.isSignificant) (htokens : tokensOfAll [o] ≠ [])
    (ho : ∀ after, ReadsFrom t (operandRule Production.expr t) [o] after) (hb : b.Binary)
    (he : Reads Production.expr [e] after) :
    ReadsFrom t (exprFrom Production.expr t) [.node .expr [o, .token b, e]] after := by
  have hoperator : Reads (nextToken >>= fun operator => do
      attach (.token operator)
      Production.expr) [.token b, e] after :=
    reads_read ((readsFrom_attach hb.isSignificant _).bind he
      (by simp [tokens_token hb.isSignificant]))
  have hwhole := ((ho _).bind hoperator htokens).within ht
  intro lexemes dressed hdressing rest eof hrest
  -- behind the operand its operator is seen, so the operand goes into the operation
  obtain ⟨inner, -, hinner⟩ := hdressing.of_expr ht
  rw [← List.singleton_append] at hinner
  obtain ⟨front, back, first, second, rfl, -, hfirst, hsecond⟩ := hinner.of_append_token htokens
  have hrun := ho _ front first hfirst (back ++ rest) eof rfl
  rw [← List.append_assoc] at hrun
  have hok : (operandRule Production.expr t ⟨front ++ back ++ rest, eof⟩).result = .ok () := by
    rw [hrun]
  have htest : (significantTokens
      (operandRule Production.expr t ⟨front ++ back ++ rest, eof⟩).rest).head?.any
        Token.isBinaryOperator := by
    rw [hrun, significantTokens_append, hsecond.significantTokens_eq, tokensOfAll_cons,
      tokens_token hb.isSignificant]
    exact Token.isBinaryOperator_iff.mpr hb
  exact (joined_of_test hok htest).trans (hwhole _ dressed hdressing rest eof hrest)

theorem readBack_single {o : Tree} (ho : ReadBack .operand o) :
    ReadBack .expr (.node .expr [o]) := by
  intro after hafter
  obtain ⟨token, more, htokens, -, hoperand⟩ := ho
  rw [expr_eq]
  exact reads_expr (by simpa using htokens) (readsFrom_single (hoperand after) hafter)

theorem readBack_operation {b : Token} {o e : Tree} (ho : ReadBack .operand o) (hb : b.Binary)
    (he : ReadBack .expr e) :
    ReadBack .expr (.node .expr [.node .expr [o, .token b, e]]) := by
  intro after hafter
  obtain ⟨token, more, htokens, htoken, hoperand⟩ := ho
  have hfirst : tokensOfAll [.node .expr [o, .token b, e]] = token :: (more ++ b :: e.tokens) := by
    simp [htokens, tokens_token hb.isSignificant]
  rw [expr_eq]
  exact reads_expr hfirst
    (readsFrom_operation htoken (by simp [htokens]) hoperand hb (he after hafter))

end Expressions

section Statements

theorem reads_lhs {t : Token} (h : t.kind = .identifier) (after : List Token) :
    Reads lhsRule [.node .lhs [.token t]] after := by
  apply Reads.within (by decide)
  apply reads_read
  rw [if_pos h]
  exact readsFrom_attach (Token.isSignificant_of_identifier h) after

theorem readBack_call {f l r : Token} {e : Tree} (hf : f.kind = .identifier)
    (hl : l.Operator "(") (he : ReadBack .expr e) (hr : r.Operator ")") :
    ReadBack .statement (.node .call [.node .lhs [.token f], .token l, e, .token r]) := by
  have hfor : ¬ f.isKeyword ["for"] := by simp [Token.isKeyword, hf]
  have hif : ¬ f.isKeyword ["if"] := by simp [Token.isKeyword, hf]
  have htokens : (node .call [.node .lhs [.token f], .token l, e, .token r]).tokens =
      f :: (tokensOfAll [.token l, e, .token r]) := by
    simp [tokens_token (Token.isSignificant_of_identifier hf)]
  refine ⟨f, _, htokens, by simp [Token.isKeyword, hf], ?_⟩
  intro after
  unfold statementRule
  rw [if_neg hfor, if_neg hif, if_pos hf]
  apply Reads.within (by decide)
  apply (reads_lhs hf _).bind
  apply (reads_operator hl _).bind
  exact (he _ (endsExpr_operator hr (by simp) _ _)).bind (reads_operator hr after)

theorem readBack_forLoop {w x q m n d z : Token} {first limit step body : Tree}
    (hw : w.Keyword "for") (hx : x.kind = .identifier) (hq : q.Operator "=")
    (hfirst : ReadBack .expr first) (hm : m.Operator ",") (hlimit : ReadBack .expr limit)
    (hn : n.Operator ",") (hstep : ReadBack .expr step) (hd : d.Keyword "do")
    (hbody : ReadBack .block body) (hz : z.Keyword "end") :
    ReadBack .statement
      (.node .forLoop [.token w, .node .lhs [.token x], .token q, first, .token m, limit,
        .token n, step, .token d, body, .token z]) := by
  have htokens : (node .forLoop [.token w, .node .lhs [.token x], .token q, first, .token m,
      limit, .token n, step, .token d, body, .token z]).tokens =
      w :: tokensOfAll [.node .lhs [.token x], .token q, first, .token m, limit, .token n, step,
        .token d, body, .token z] := by
    rw [tokens_node, tokensOfAll_cons, tokens_token hw.isSignificant, List.singleton_append]
  have hfor : w.isKeyword ["for"] := Token.isKeyword_iff.mpr ⟨"for", by simp, hw⟩
  refine ⟨w, _, htokens, by simp [Token.isKeyword, hw.2], ?_⟩
  intro after
  unfold statementRule
  rw [if_pos hfor]
  apply Reads.within (by decide)
  apply (reads_keyword hw _).bind
  apply (reads_lhs hx _).bind
  apply (reads_operator hq _).bind
  apply (hfirst _ (endsExpr_operator hm (by simp) _ _)).bind
  apply (reads_operator hm _).bind
  apply (hlimit _ (endsExpr_operator hn (by simp) _ _)).bind
  apply (reads_operator hn _).bind
  apply (hstep _ (endsExpr_keyword hd _ _)).bind
  apply (reads_keyword hd _).bind
  have hclose := closesBlock_keyword (tokens_token hz.isSignificant) hz (by simp) [] after
  exact (hbody _ hclose).bind (reads_keyword hz after)

theorem reads_statements {trees : List Tree} (h : ∀ tree ∈ trees, ReadBack .statement tree)
    {after : List Token} (hafter : ClosesBlock after) :
    Reads Production.statements trees after := by
  induction trees with
  | nil =>
      rw [statements_eq]
      apply reads_look
      rw [tokensOfAll_nil, List.nil_append]
      cases hhead : after.head? with
      | none => exact reads_pure after
      | some token =>
          simp only [hafter token hhead, if_true]
          exact reads_pure after
  | cons tree trees ih =>
      obtain ⟨token, more, htokens, hopens, hstatement⟩ := h tree (by simp)
      have hrest := ih fun other hother => h other (by simp [hother])
      rw [statements_eq]
      apply reads_look
      rw [tokensOfAll_cons, htokens]
      simp only [List.cons_append, List.head?_cons, hopens]
      exact (hstatement _).bind hrest

theorem readBack_block {statements : List Tree}
    (h : ∀ statement ∈ statements, ReadBack .statement statement) :
    ReadBack .block (.node .body statements) := by
  intro after hafter
  exact (reads_statements h hafter).within (by decide)

theorem readBack_elseIf {w t : Token} {test body : Tree} (hw : w.Keyword "elseif")
    (htest : ReadBack .expr test) (ht : t.Keyword "then") (hbody : ReadBack .block body) :
    ReadBack .elseIf (.node .elseIf [.token w, test, .token t, body]) := by
  have htokens : (node .elseIf [.token w, test, .token t, body]).tokens =
      w :: tokensOfAll [test, .token t, body] := by
    rw [tokens_node, tokensOfAll_cons, tokens_token hw.isSignificant, List.singleton_append]
  refine ⟨⟨w, _, htokens, hw⟩, ?_⟩
  intro after hafter
  apply Reads.within (by decide)
  apply (reads_keyword hw _).bind
  apply (htest _ (endsExpr_keyword ht _ _)).bind
  exact (reads_keyword ht _).bind (hbody after hafter)

theorem readBack_otherwise {w : Token} {body : Tree} (hw : w.Keyword "else")
    (hbody : ReadBack .block body) : ReadBack .otherwise (.node .otherwise [.token w, body]) := by
  have htokens : (node .otherwise [.token w, body]).tokens = w :: tokensOfAll [body] := by
    rw [tokens_node, tokensOfAll_cons, tokens_token hw.isSignificant, List.singleton_append]
  refine ⟨⟨w, _, htokens, hw⟩, ?_⟩
  intro after hafter
  exact Reads.within (by decide) ((reads_keyword hw _).bind (hbody after hafter))

/-- Branches that begin with `elseif` close the block in front of them. -/
theorem closesBlock_elseIfs {branches more : List Tree}
    (h : ∀ branch ∈ branches, ReadBack .elseIf branch) {after : List Token}
    (hmore : ClosesBlock (tokensOfAll more ++ after)) :
    ClosesBlock (tokensOfAll (branches ++ more) ++ after) := by
  cases branches with
  | nil => exact hmore
  | cons branch branches =>
      obtain ⟨⟨token, tokens, htokens, htoken⟩, _⟩ := h branch (by simp)
      exact closesBlock_keyword htokens htoken (by simp) _ after

theorem reads_elseIfs {branches : List Tree} (h : ∀ branch ∈ branches, ReadBack .elseIf branch)
    {after : List Token} (hafter : ClosesBlock after)
    (hnone : ∀ token ∈ after.head?, ¬ token.isKeyword ["elseif"]) :
    Reads Phrase.elseIfs.parse branches after := by
  induction branches with
  | nil =>
      have hany : ¬ after.head?.any (·.isKeyword ["elseif"]) := by
        simpa [Option.any_eq_true] using hnone
      rw [elseIfs_eq]
      apply reads_look
      rw [tokensOfAll_nil, List.nil_append, if_neg hany]
      exact reads_pure after
  | cons branch branches ih =>
      have hbranches : ∀ other ∈ branches, ReadBack .elseIf other :=
        fun other hother => h other (by simp [hother])
      obtain ⟨⟨token, tokens, htokens, htoken⟩, hbranch⟩ := h branch (by simp)
      have hany : (tokensOfAll (branch :: branches) ++ after).head?.any
          (·.isKeyword ["elseif"]) := by
        rw [tokensOfAll_cons, htokens]
        exact Token.isKeyword_iff.mpr ⟨"elseif", by simp, htoken⟩
      have hclose : ClosesBlock (tokensOfAll (branches ++ []) ++ after) :=
        closesBlock_elseIfs hbranches hafter
      rw [List.append_nil] at hclose
      rw [elseIfs_eq]
      apply reads_look
      rw [if_pos hany]
      exact (hbranch _ hclose).bind (ih hbranches)

/-- A last branch closes the blocks in front of it, and is no `elseif`. -/
theorem closesBlock_last {last : Option Tree} (h : ∀ branch ∈ last, ReadBack .otherwise branch)
    {z : Token} (hz : z.Keyword "end") (after : List Token) :
    ClosesBlock (tokensOfAll (last.toList ++ [.token z]) ++ after) ∧
      ∀ token ∈ (tokensOfAll (last.toList ++ [.token z]) ++ after).head?,
        ¬ token.isKeyword ["elseif"] := by
  cases last with
  | none =>
      refine ⟨closesBlock_keyword (tokens_token hz.isSignificant) hz (by simp) [] after, ?_⟩
      simp [tokens_token hz.isSignificant, Token.isKeyword, hz.2]
  | some branch =>
      obtain ⟨⟨token, tokens, htokens, htoken⟩, _⟩ := h branch rfl
      refine ⟨closesBlock_keyword htokens htoken (by simp) _ after, ?_⟩
      simp [htokens, Token.isKeyword, htoken.2]

theorem reads_elseOptional {last : Option Tree}
    (h : ∀ branch ∈ last, ReadBack .otherwise branch) {z : Token} (hz : z.Keyword "end")
    (after : List Token) :
    Reads (elseOptional Production.statements) last.toList (tokensOfAll [.token z] ++ after) := by
  apply reads_look
  cases last with
  | none =>
      have hany : ¬ (tokensOfAll [.token z] ++ after).head?.any (·.isKeyword ["else"]) := by
        simp [tokens_token hz.isSignificant, Token.isKeyword, hz.2]
      rw [Option.toList_none, tokensOfAll_nil, List.nil_append, if_neg hany]
      exact reads_pure _
  | some branch =>
      obtain ⟨⟨token, tokens, htokens, htoken⟩, hbranch⟩ := h branch rfl
      have hany : (tokensOfAll [branch] ++ (tokensOfAll [.token z] ++ after)).head?.any
          (·.isKeyword ["else"]) := by
        rw [tokensOfAll_cons, htokens]
        exact Token.isKeyword_iff.mpr ⟨"else", by simp, htoken⟩
      rw [Option.toList_some, if_pos hany]
      exact hbranch _ (closesBlock_keyword (tokens_token hz.isSignificant) hz (by simp) [] after)

theorem readBack_conditional {w t z : Token} {test body : Tree} {branches : List Tree}
    {last : Option Tree} (hw : w.Keyword "if") (htest : ReadBack .expr test)
    (ht : t.Keyword "then") (hbody : ReadBack .block body)
    (hbranches : ∀ branch ∈ branches, ReadBack .elseIf branch)
    (hlast : ∀ branch ∈ last, ReadBack .otherwise branch) (hz : z.Keyword "end") :
    ReadBack .statement
      (.node .conditional
        ([.token w, test, .token t, body] ++ branches ++ last.toList ++ [.token z])) := by
  have hchildren : [.token w, test, .token t, body] ++ branches ++ last.toList ++ [.token z] =
      .token w :: test :: .token t :: body :: (branches ++ (last.toList ++ [.token z])) := by simp
  have hfor : ¬ w.isKeyword ["for"] := by simp [Token.isKeyword, hw.2]
  have hif : w.isKeyword ["if"] := Token.isKeyword_iff.mpr ⟨"if", by simp, hw⟩
  rw [hchildren]
  refine ⟨w, _, by rw [tokens_node, tokensOfAll_cons, tokens_token hw.isSignificant]; rfl,
    by simp [Token.isKeyword, hw.2], ?_⟩
  intro after
  obtain ⟨hclose, hnone⟩ := closesBlock_last hlast hz after
  unfold statementRule
  rw [if_neg hfor, if_pos hif]
  apply Reads.within (by decide)
  apply (reads_keyword hw _).bind
  apply (htest _ (endsExpr_keyword ht _ _)).bind
  apply (reads_keyword ht _).bind
  apply (hbody _ (closesBlock_elseIfs hbranches hclose)).bind
  apply (reads_elseIfs hbranches hclose hnone).bind
  exact (reads_elseOptional hlast hz after).bind (reads_keyword hz after)

end Statements

/-- Every tree of the schema is read back. -/
theorem readBack_of_conforms {symbol : Symbol} {tree : Tree} (h : Conforms symbol tree) :
    ReadBack symbol tree := by
  induction h with
  | atom ht => exact readBack_atom ht
  | group hl _ hr ih => exact readBack_group hl ih hr
  | single _ ih => exact readBack_single ih
  | operation _ hb _ iho ihe => exact readBack_operation iho hb ihe
  | call hf hl _ hr ih => exact readBack_call hf hl ih hr
  | forLoop hw hx hq _ hm _ hn _ hd _ hz ihfirst ihlimit ihstep ihbody =>
      exact readBack_forLoop hw hx hq ihfirst hm ihlimit hn ihstep hd ihbody hz
  | conditional hw _ ht _ _ _ hz ihtest ihbody ihbranches ihlast =>
      exact readBack_conditional hw ihtest ht ihbody ihbranches ihlast hz
  | elseIf hw _ ht _ ihtest ihbody => exact readBack_elseIf hw ihtest ht ihbody
  | otherwise hw _ ih => exact readBack_otherwise hw ih
  | block _ ih => exact readBack_block ih

end Phrase

end ScriptSyntax
