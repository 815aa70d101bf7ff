import ScriptSyntax.Fault
import ScriptSyntax.Lexeme

/-!
Syntax trees. Children stand in source order with every token and skipped run
among them, so the leaves of a complete tree spell out its source. The tree of
a failed parse holds the fault as a leaf where it arose.
-/

namespace ScriptSyntax

inductive NodeKind where
  /-- Statements, one after the other. -/
  | body
  | call
  /-- The name that is called or assigned. -/
  | lhs
  | expr
  | forLoop
  | conditional
  | elseIf
  | otherwise
  deriving DecidableEq, Repr

/-- The kind as outlines spell it. -/
def NodeKind.name : NodeKind → String
  | .body => "Body"
  | .call => "Function"
  | .lhs => "Lhs"
  | .expr => "Expr"
  | .forLoop => "For"
  | .conditional => "If"
  | .elseIf => "ElseIf"
  | .otherwise => "Else"

inductive Leaf where
  | lexeme (lexeme : Lexeme)
  | fault (fault : Fault)
  deriving DecidableEq, Repr

namespace Leaf

def lexeme? : Leaf → Option Lexeme
  | lexeme l => some l
  | fault _ => none

def fault? : Leaf → Option Fault
  | lexeme _ => none
  | fault f => some f

/-- A token that the grammar sees. -/
def significant? (leaf : Leaf) : Option Token := leaf.lexeme?.bind Lexeme.significant?

/-- Skipped runs and comments. A fault is no trivia. -/
def isTrivia : Leaf → Bool
  | lexeme l => l.isTrivia
  | fault _ => false

/-- The part of the source that the leaf stands for. -/
def text : Leaf → String
  | lexeme l => l.text
  | fault _ => ""

end Leaf

/-- The leaf of a token that was read. -/
abbrev Token.leaf (token : Token) : Leaf := .lexeme (.token token)

inductive Tree where
  | leaf (leaf : Leaf)
  | node (kind : NodeKind) (children : List Tree)
  deriving Repr

namespace Tree

abbrev lexeme (lexeme : Lexeme) : Tree := leaf (.lexeme lexeme)

abbrev token (token : Token) : Tree := leaf (.lexeme (.token token))

abbrev fault (fault : Fault) : Tree := leaf (.fault fault)

mutual
/-- The leaves in source order. -/
def leaves : Tree → List Leaf
  | leaf l => [l]
  | node _ children => leavesOfAll children

def leavesOfAll : List Tree → List Leaf
  | [] => []
  | tree :: trees => tree.leaves ++ leavesOfAll trees
end

@[simp] theorem leavesOfAll_append (trees more : List Tree) :
    leavesOfAll (trees ++ more) = leavesOfAll trees ++ leavesOfAll more := by
  induction trees with
  | nil => rfl
  | cons tree trees ih => simp [leavesOfAll, ih]

def isTrivia : Tree → Bool
  | leaf l => l.isTrivia
  | node _ _ => false

def leaf? : Tree → Option Leaf
  | leaf l => some l
  | node _ _ => none

mutual
/-- The tree without the trivia below it. -/
def withoutTrivia : Tree → Tree
  | leaf l => leaf l
  | node kind children => node kind (withoutTriviaOfAll children)

def withoutTriviaOfAll : List Tree → List Tree
  | [] => []
  | tree :: trees =>
      if tree.isTrivia then withoutTriviaOfAll trees
      else tree.withoutTrivia :: withoutTriviaOfAll trees
end

@[simp] theorem withoutTriviaOfAll_append (trees more : List Tree) :
    withoutTriviaOfAll (trees ++ more) = withoutTriviaOfAll trees ++ withoutTriviaOfAll more := by
  induction trees with
  | nil => rfl
  | cons tree trees ih =>
      simp only [List.cons_append, withoutTriviaOfAll]
      split
      · exact ih
      · rw [ih, List.cons_append]

theorem leavesOfAll_lexemes (lexemes : List Lexeme) :
    leavesOfAll (lexemes.map Tree.lexeme) = lexemes.map .lexeme := by
  induction lexemes with
  | nil => rfl
  | cons lexeme rest ih => simp [leavesOfAll, leaves, ih]

/-- Lexemes that the grammar does not see are all trivia. -/
theorem withoutTriviaOfAll_lexemes {lexemes : List Lexeme} (h : significantTokens lexemes = []) :
    withoutTriviaOfAll (lexemes.map Tree.lexeme) = [] := by
  induction lexemes with
  | nil => rfl
  | cons l rest ih =>
      cases hl : l.significant? with
      | some t => simp [significantTokens, hl] at h
      | none =>
          simp only [significantTokens, List.filterMap_cons, hl] at h
          simp [withoutTriviaOfAll, isTrivia, Leaf.isTrivia, Lexeme.isTrivia, hl, ih h]

end Tree

/-- An inner node of a tree: its kind and what stands below it. -/
structure Node where
  kind : NodeKind
  children : List Tree
  deriving Repr

namespace Node

def toTree (node : Node) : Tree := .node node.kind node.children

def push (node : Node) (child : Tree) : Node := { node with children := node.children ++ [child] }

def append (node : Node) (trees : List Tree) : Node :=
  { node with children := node.children ++ trees }

/-- The nodes right below. -/
def nodes (node : Node) : List Node :=
  node.children.filterMap fun
    | .node kind children => some ⟨kind, children⟩
    | .leaf _ => none

/-- The significant tokens right below. -/
def tokens (node : Node) : List Token :=
  node.children.filterMap fun child => child.leaf?.bind Leaf.significant?

/-- The first node of a kind right below. -/
def child? (node : Node) (kind : NodeKind) : Option Node :=
  node.nodes.find? (·.kind == kind)

theorem mem_of_child? {node child : Node} {kind : NodeKind}
    (h : node.child? kind = some child) : child.toTree ∈ node.children ∧ child.kind = kind := by
  have hkind := List.find?_some h
  obtain ⟨tree, htree, hnode⟩ := List.mem_filterMap.mp (List.mem_of_find?_eq_some h)
  cases tree with
  | leaf l => cases hnode
  | node other children =>
      cases hnode
      exact ⟨htree, by simpa using hkind⟩

def leaves (node : Node) : List Leaf := Tree.leavesOfAll node.children

/-- The significant tokens at any depth. -/
def allTokens (node : Node) : List Token := node.leaves.filterMap Leaf.significant?

/-- The first fault at any depth. -/
def fault? (node : Node) : Option Fault := node.leaves.findSome? Leaf.fault?

/-- The source that the leaves spell out. -/
def sourceText (node : Node) : String := String.join (node.leaves.map Leaf.text)

def withoutTrivia (node : Node) : Node :=
  { node with children := Tree.withoutTriviaOfAll node.children }

end Node

end ScriptSyntax
