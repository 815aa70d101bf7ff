import ScriptSyntax.Token
import ScriptSyntax.Text.Quoted

/-!
Faults: why a list of lexemes is no program, at which token, and where. The
wording of messages and tips is fixed here and nowhere else.
-/

namespace ScriptSyntax

inductive Cause where
  /-- A token of a kind that cannot stand here; `expected` names what can. -/
  | unexpectedToken (expected found : String)
  /-- A token of the right kind with the wrong text. -/
  | unexpectedValue (expected found : String)
  | unexpectedEof
  /-- A token that begins no statement. -/
  | unknownToken (found : String)
  deriving DecidableEq, Repr

namespace Cause

def name : Cause → String
  | unexpectedToken _ _ => "UnexpectedToken"
  | unexpectedValue _ _ => "UnexpectedValue"
  | unexpectedEof => "UnexpectedEof"
  | unknownToken _ => "UnknownToken"

/-- What an unexpected token was expected to be is a phrase and stays as it is;
texts of tokens are quoted. -/
def message : Cause → String
  | unexpectedToken expected found =>
      "unexpected token - expected " ++ expected ++ ", found " ++ Text.quote found
  | unexpectedValue expected found =>
      "unexpected value - expected " ++ Text.quote expected ++ ", found " ++ Text.quote found
  | unexpectedEof => "unexpected end of file"
  | unknownToken found => "unknown token - " ++ Text.quote found

end Cause

/-- A hint on how to mend a fault, where there is one. -/
abbrev Tip := Option String

/-- The hint as it is shown; no hint shows nothing. -/
def Tip.text (tip : Tip) : String := tip.getD ""

def Cause.tip : Cause → Tip
  | .unexpectedToken expected found =>
      some ("expected " ++ expected ++ ", found `" ++ found ++ "`")
  | .unexpectedValue expected found =>
      some ("expected `" ++ expected ++ "`, found `" ++ found ++ "`")
  | .unexpectedEof => some "the file ended inside a statement, is an `end` missing?"
  | .unknownToken found =>
      some ("`" ++ found ++ "` cannot start a statement, expected `for`, `if` or a function call")

structure Fault where
  cause : Cause
  /-- The offending token; there is none at the end of the file. -/
  token : Option Token
  position : Position
  deriving DecidableEq, Repr

namespace Fault

/-- A fault raised at a token, and placed at its start. -/
def raise (cause : Cause) (token : Option Token) : Fault :=
  ⟨cause, token, (token.map (·.span.start)).getD .null⟩

/-- The end of the file came too early, at `position`. -/
def atEnd (position : Position) : Fault := ⟨.unexpectedEof, none, position⟩

def name (fault : Fault) : String := fault.cause.name

def message (fault : Fault) : String := fault.cause.message

def tip (fault : Fault) : Tip := fault.cause.tip

/-- The message, and the offset of the token if there is one. -/
def display (fault : Fault) : String :=
  match fault.token with
  | some token => fault.message ++ " at byte " ++ toString token.span.start.offset.toNat
  | none => fault.message

end Fault

end ScriptSyntax
