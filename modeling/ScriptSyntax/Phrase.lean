import ScriptSyntax.Production

/-!
The grammar, one production for each phrase:

    Statements := (Call | For | If)*
    Call       := Lhs '(' Expr ')'
    Lhs        := Identifier
    For        := 'for' Lhs '=' Expr ',' Expr ',' Expr 'do' Statements 'end'
    If         := 'if' Expr 'then' Statements ElseIf* Else? 'end'
    ElseIf     := 'elseif' Expr 'then' Statements
    Else       := 'else' Statements
    Expr       := Operand (BinaryOperator Expr)?
    Operand    := Number | String | Identifier | '(' Expr ')'

All binary operators group to the right and none binds tighter than another.
-/

namespace ScriptSyntax

open Production

/-- The phrases that others contain, and that can contain themselves. -/
inductive Phrase where
  | expr
  | statements
  | elseIfs
  deriving DecidableEq, Repr

namespace Phrase

def lhsRule : Production Unit :=
  within .lhs do
    let token ← nextToken
    if token.kind = .identifier then
      attach (.token token)
    else
      failAt token (.unexpectedToken "identifier" token.value)

/-- The operand that begins with this token: a group, or the token alone. -/
def operandRule (expr : Production Unit) (token : Token) : Production Unit :=
  if token.is .operator "(" then
    within .expr do
      attach (.token token)
      expr
      operator ")"
  else
    match token.kind with
    | .number | .string | .identifier => within .expr (attach (.token token))
    | _ => failAt token (.unexpectedToken "number, string, identifier or `(`" token.value)

/-- An operation takes the operand in front of its operator into its node. -/
def operationRule (expr : Production Unit) (operand : List Tree) : Production Unit :=
  within .expr do
    attachAll operand
    let operator ← nextToken
    attach (.token operator)
    expr

/-- What an expression does with its first token. -/
def exprFrom (expr : Production Unit) (token : Token) : Production Unit := do
  let operand ← hold (operandRule expr token)
  if (← peek).any Token.isBinaryOperator then
    operationRule expr operand
  else
    attachAll operand

def exprRule (expr : Production Unit) : Production Unit :=
  within .expr do
    let token ← nextToken
    exprFrom expr token

def callRule (expr : Production Unit) : Production Unit :=
  within .call do
    lhsRule
    operator "("
    expr
    operator ")"

def forRule (expr statements : Production Unit) : Production Unit :=
  within .forLoop do
    keyword "for"
    lhsRule
    operator "="
    expr
    operator ","
    expr
    operator ","
    expr
    keyword "do"
    within .body statements
    keyword "end"

def elseIfRule (expr statements : Production Unit) : Production Unit :=
  within .elseIf do
    keyword "elseif"
    expr
    keyword "then"
    within .body statements

def elseRule (statements : Production Unit) : Production Unit :=
  within .otherwise do
    keyword "else"
    within .body statements

/-- All branches that begin with `elseif`. -/
def elseIfsRule (expr statements elseIfs : Production Unit) : Production Unit := do
  if (← peek).any (·.isKeyword ["elseif"]) then
    elseIfRule expr statements
    elseIfs

/-- The last branch, if there is one. -/
def elseOptional (statements : Production Unit) : Production Unit := do
  if (← peek).any (·.isKeyword ["else"]) then
    elseRule statements

def ifRule (expr statements elseIfs : Production Unit) : Production Unit :=
  within .conditional do
    keyword "if"
    expr
    keyword "then"
    within .body statements
    elseIfs
    elseOptional statements
    keyword "end"

/-- The statement that begins with this token. -/
def statementRule (expr statements elseIfs : Production Unit) (token : Token) :
    Production Unit :=
  if token.isKeyword ["for"] then forRule expr statements
  else if token.isKeyword ["if"] then ifRule expr statements elseIfs
  else if token.kind = .identifier then callRule expr
  else failAt token (.unknownToken token.value)

/-- Statements up to the end or to a keyword that closes a block, which is left
for whoever opened the block. -/
def statementsRule (expr statements elseIfs : Production Unit) : Production Unit := do
  match ← peek with
  | none => return
  | some token =>
      if token.isKeyword ["end", "elseif", "else"] then
        return
      else
        statementRule expr statements elseIfs token
        statements

/-- One production for each phrase, in terms of those for the phrases inside. -/
def rule (parse : Phrase → Production Unit) : Phrase → Production Unit
  | expr => exprRule (parse expr)
  | statements => statementsRule (parse expr) (parse statements) (parse elseIfs)
  | elseIfs => elseIfsRule (parse expr) (parse statements) (parse elseIfs)

def parse : Phrase → Production Unit := Production.recursive rule

end Phrase

namespace Production

def expr : Production Unit := Phrase.expr.parse

def lhs : Production Unit := Phrase.lhsRule

def call : Production Unit := Phrase.callRule expr

/-- Statements without a node of their own. -/
def statements : Production Unit := Phrase.statements.parse

/-- Statements in a node of their own. -/
def block : Production Unit := within .body statements

def forLoop : Production Unit := Phrase.forRule expr statements

def conditional : Production Unit := Phrase.ifRule expr statements Phrase.elseIfs.parse

end Production

end ScriptSyntax
