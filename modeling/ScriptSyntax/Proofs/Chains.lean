import ScriptSyntax.Proofs.Completeness

/-!
Chains of operators. A chain is any number of operands with a binary operator between each
two of them, where an operand is a token by itself or a chain in parentheses. Whatever the
operators are, a chain groups to the right: its tree has the first operand on the left of
the first operator, and the tree of the rest on its right.

Main statement: from every cursor that has a chain ahead, with no operator behind it, an
expression reads the whole chain and nothing else, and adds the tree of the chain.
-/

namespace ScriptSyntax

open ScriptSyntax.Tree

/-- A token between two operands. -/
abbrev BinarySign := {b : Token // b.Binary}

/-- An operand of a chain. Inside the parentheses of a group are a first operand and the
links behind it, each of them an operator and the operand that follows. -/
inductive ChainOperand where
  | atom (t : Token) (ht : t.Atom)
  | group (opening closing : Token) (hopening : opening.Operator "(")
      (hclosing : closing.Operator ")") (first : ChainOperand)
      (links : List (BinarySign × ChainOperand))

structure Chain where
  first : ChainOperand
  links : List (BinarySign × ChainOperand)

mutual
def ChainOperand.tokens : ChainOperand → List Token
  | .atom t _ => [t]
  | .group opening closing _ _ first links =>
      opening :: (first.tokens ++ tokensOfLinks links) ++ [closing]

def ChainOperand.tokensOfLinks : List (BinarySign × ChainOperand) → List Token
  | [] => []
  | (b, operand) :: links => b.val :: (operand.tokens ++ tokensOfLinks links)
end

mutual
/-- A node of its own for each operand. -/
def ChainOperand.tree : ChainOperand → Tree
  | .atom t _ => .node .expr [.token t]
  | .group opening closing _ _ first links =>
      .node .expr [.token opening, groupRight first.tree links, .token closing]

/-- The tree of a chain that begins with this operand: the operand alone, or an operation of
the operand and the tree of what is behind the operator. -/
def ChainOperand.groupRight (operand : Tree) : List (BinarySign × ChainOperand) → Tree
  | [] => .node .expr [operand]
  | (b, next) :: links =>
      .node .expr [.node .expr [operand, .token b.val, groupRight next.tree links]]
end

def Chain.tokens (chain : Chain) : List Token :=
  chain.first.tokens ++ ChainOperand.tokensOfLinks chain.links

def Chain.tree (chain : Chain) : Tree := ChainOperand.groupRight chain.first.tree chain.links

namespace ChainOperand

mutual
theorem conforms (operand : ChainOperand) : Conforms .operand operand.tree := by
  cases operand with
  | atom t ht => exact .atom ht
  | group opening closing hopening hclosing first links =>
      exact .group hopening (conforms_groupRight first.conforms links) hclosing

/-- A chain is of the schema, however many operands follow the first. -/
theorem conforms_groupRight {tree : Tree} (h : Conforms .operand tree)
    (links : List (BinarySign × ChainOperand)) : Conforms .expr (groupRight tree links) := by
  cases links with
  | nil => exact .single h
  | cons link links =>
      obtain ⟨⟨b, hb⟩, next⟩ := link
      exact .operation h hb (conforms_groupRight next.conforms links)
end

mutual
theorem tokens_tree (operand : ChainOperand) : operand.tree.tokens = operand.tokens := by
  cases operand with
  | atom t ht => simp [tree, tokens, tokens_token ht.isSignificant]
  | group opening closing hopening hclosing first links =>
      have hinner := tokens_groupRight first.tree links
      rw [first.tokens_tree] at hinner
      simp [tree, tokens, tokens_token hopening.isSignificant,
        tokens_token hclosing.isSignificant, hinner]

theorem tokens_groupRight (tree : Tree) (links : List (BinarySign × ChainOperand)) :
    (groupRight tree links).tokens = tree.tokens ++ tokensOfLinks links := by
  cases links with
  | nil => simp [groupRight, tokensOfLinks]
  | cons link links =>
      obtain ⟨⟨b, hb⟩, next⟩ := link
      have hrest := tokens_groupRight next.tree links
      rw [next.tokens_tree] at hrest
      simp [groupRight, tokensOfLinks, tokens_token hb.isSignificant, hrest]
end

end ChainOperand

theorem Chain.conforms (chain : Chain) : Conforms .expr chain.tree :=
  ChainOperand.conforms_groupRight chain.first.conforms chain.links

theorem Chain.tokens_tree (chain : Chain) : chain.tree.tokens = chain.tokens := by
  rw [Chain.tree, ChainOperand.tokens_groupRight, ChainOperand.tokens_tree, Chain.tokens]

/-- A chain of any length, with groups of any depth, is read whole wherever it is ahead and no
binary operator is behind it. The expression adds one node to the node it stands in, and
this node without its trivia is the tree of the chain. -/
theorem chain_groups_right (c : Cursor) (node : Node) (chain : Chain) (after : List Token)
    (htokens : significantTokens c.rest = chain.tokens ++ after)
    (hafter : ∀ t ∈ after.head?, ¬ t.isBinaryOperator) :
    (Production.expr c).result = .ok () ∧
      significantTokens (Production.expr c).rest = after ∧
      ∃ tree, node.append (Production.expr c).appended = node.push tree ∧
        tree.withoutTrivia = chain.tree := by
  have hends : Phrase.EndsExpr after := by
    intro t ht hbinary
    exact hafter t ht (Token.isBinaryOperator_iff.mpr hbinary)
  have hreads : Production.expr.Reads [chain.tree] after :=
    Phrase.readBack_of_conforms chain.conforms after hends
  have hahead : significantTokens c.rest = tokensOfAll [chain.tree] ++ after := by
    rw [htokens, tokensOfAll_cons, chain.tokens_tree, tokensOfAll_nil, List.append_nil]
  obtain ⟨hresult, htrees, hrest⟩ :=
    hreads.yields (dressable_of_conforms chain.conforms) c hahead
  obtain ⟨children, happended⟩ := Phrase.exists_appended_expr c
  refine ⟨hresult, hrest, .node .expr children, by rw [happended]; rfl, ?_⟩
  rw [happended] at htrees
  simpa [withoutTriviaOfAll, isTrivia] using htrees

/-- Between `f(` and `)`, with trivia around the tokens: `a = (1 or b) == "c"`. -/
theorem chain_groups_right_group :
    let token (kind : TokenKind) (value : String) : Token := ⟨kind, value, .between "" 0 0⟩
    let blank : Lexeme := .skipped ⟨" ", .between "" 0 0⟩
    let a := token .identifier "a"
    let one := token .number "1"
    let b := token .identifier "b"
    let text := token .string "\"c\""
    let opening := token .operator "("
    let closing := token .operator ")"
    let assign := token .operator "="
    let or := token .operator "or"
    let equal := token .operator "=="
    let c : Cursor := ⟨[blank, .token a, blank, .token assign, .token (token .comment "--"),
      blank, .token opening, .token one, .token or, blank, .token b, blank, .token closing,
      .token equal, .token text, blank, .token closing], .null⟩
    let atom (t : Token) : Tree := .node .expr [.token t]
    let operation (left : Tree) (sign : Token) (right : Tree) : Tree :=
      .node .expr [.node .expr [left, .token sign, right]]
    (Production.expr c).result = .ok () ∧
      significantTokens (Production.expr c).rest = [closing] ∧
      ∃ tree, Node.append ⟨.call, [.token opening]⟩ (Production.expr c).appended =
          ⟨.call, [.token opening, tree]⟩ ∧
        tree.withoutTrivia =
          operation (atom a) assign (operation
            (.node .expr [.token opening,
              operation (atom one) or (.node .expr [atom b]), .token closing])
            equal (.node .expr [atom text])) := by
  intro token blank a one b text opening closing assign or equal c atom operation
  let chain : Chain :=
    ⟨.atom a (.inr (.inr rfl)),
      [(⟨assign, rfl, by decide⟩, .group opening closing ⟨rfl, rfl⟩ ⟨rfl, rfl⟩
          (.atom one (.inl rfl)) [(⟨or, rfl, by decide⟩, .atom b (.inr (.inr rfl)))]),
        (⟨equal, rfl, by decide⟩, .atom text (.inr (.inl rfl)))]⟩
  have htokens : significantTokens c.rest = chain.tokens ++ [closing] := rfl
  have hafter : ∀ t ∈ [closing].head?, ¬ t.isBinaryOperator := by
    intro t ht
    obtain rfl : closing = t := Option.some.inj ht
    decide
  exact chain_groups_right c ⟨.call, [.token opening]⟩ chain [closing] htokens hafter

end ScriptSyntax
