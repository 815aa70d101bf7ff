import ScriptSyntax.Position

/-!
Tokens: a kind, the text as it stands in the source, and where it stands.
-/

namespace ScriptSyntax

inductive TokenKind where
  | string
  | comment
  | number
  | operator
  | keyword
  | identifier
  deriving DecidableEq, Repr

/-- The kind as messages and outlines spell it. -/
def TokenKind.name : TokenKind → String
  | .string => "String"
  | .comment => "Comment"
  | .number => "Number"
  | .operator => "Operator"
  | .keyword => "Keyword"
  | .identifier => "Identifier"

structure Token where
  kind : TokenKind
  value : String
  span : Span
  deriving DecidableEq, Repr

namespace Token

def is (token : Token) (kind : TokenKind) (value : String) : Bool :=
  token.kind == kind && token.value == value

def isKeyword (token : Token) (words : List String) : Bool :=
  token.kind == .keyword && words.contains token.value

/-- Parentheses and the comma are operators too, but they only delimit. -/
def isBinaryOperator (token : Token) : Bool :=
  token.kind == .operator && !(["(", ")", ","].contains token.value)

/-- Comments are tokens that the grammar never sees. -/
def isSignificant (token : Token) : Bool := token.kind != .comment

/-- What a message calls a token of this kind and text. -/
def describe (kind : TokenKind) (value : String) : String :=
  kind.name ++ " `" ++ value ++ "`"

def display (token : Token) : String := describe token.kind token.value

end Token

end ScriptSyntax
