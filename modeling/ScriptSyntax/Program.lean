import ScriptSyntax.Phrase

/-!
Programs: lists of lexemes that the grammar accepts from the first to the last.
-/

namespace ScriptSyntax

/-- At the front of a list of lexemes. A fault at the end is placed where the
last lexeme stops. -/
def Cursor.ofLexemes (lexemes : List Lexeme) : Cursor :=
  ⟨lexemes, (lexemes.getLast?.map (·.span.stop)).getD ⟨0, defaultFile⟩⟩

def Production.program : Production Unit := do
  statements
  finish

/-- The tree as far as the parse came, and the fault that ended it, if any. -/
def parsePartial (lexemes : List Lexeme) : Node × Option Fault :=
  let outcome := Production.program (.ofLexemes lexemes)
  let root := ⟨.body, outcome.appended⟩
  match outcome.result with
  | .ok () => (root, none)
  | .error fault => (root, some fault)

/-- The tree of a program, or the first fault. -/
def parse (lexemes : List Lexeme) : Except Fault Node :=
  match parsePartial lexemes with
  | (root, none) => .ok root
  | (_, some fault) => .error fault

end ScriptSyntax
