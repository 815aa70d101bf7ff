import ScriptSyntax.Fault
import ScriptSyntax.Text.Blank
import ScriptSyntax.Text.Bytes
import ScriptSyntax.Text.Lines

/-!
Diagnostics: a fault shown with the line of the source it points into and a
caret under the place.
-/

namespace ScriptSyntax

/-- A line of a source, and a place in it. -/
structure SourceLine where
  /-- Counted from one. -/
  number : Nat
  /-- With its line feed, if it has one. -/
  text : String
  /-- Bytes of the line in front of the place. -/
  column : Nat
  deriving DecidableEq, Repr

namespace SourceLine

/-- Finds the line that holds a byte offset; the first line has number `number`. -/
def find? (number offset : Nat) : List (List Char) → Option SourceLine
  | [] => none
  | line :: rest =>
      if offset < Text.byteLength line then some ⟨number, String.ofList line, offset⟩
      else find? (number + 1) (offset - Text.byteLength line) rest

/-- The line at a byte offset of a source. At its end and past it there is none. -/
def at? (source : String) (offset : UInt32) : Option SourceLine :=
  find? 1 offset.toNat (Text.lines source.toList)

def isIndent (c : Char) : Bool := c == ' ' || c == '\t'

/-- The line as it is shown, without its indentation. -/
def shown (line : SourceLine) : List Char :=
  Text.trimEnd (line.text.toList.dropWhile isIndent)

/-- Characters between the indentation and the place. In front of the
indentation's end, and inside a character, there are none to count. -/
def caretColumn (line : SourceLine) : Nat :=
  let indentation := (line.text.toList.takeWhile isIndent).length
  match Text.splitBytes? (line.column - indentation) (line.text.toList.dropWhile isIndent) with
  | some (before, _) => before.length
  | none => 0

/-- The line under a bar, and the caret. -/
def excerpt (line : SourceLine) : String :=
  let number := toString line.number
  let gutter := String.ofList (List.replicate (number.length + 1) ' ') ++ "|"
  let dashes := String.ofList (List.replicate line.caretColumn '-')
  gutter ++ "\n" ++
    number ++ " | " ++ String.ofList line.shown ++ "\n" ++
    gutter ++ " " ++ dashes ++ "^\n"

end SourceLine

namespace Fault

/-- The name of the fault and its tip. -/
def headline (fault : Fault) : String :=
  match fault.tip with
  | none => "Error: " ++ fault.name ++ "\n"
  | some tip => "Error: " ++ fault.name ++ " (" ++ tip ++ ")\n"

/-- The fault as it is reported, with an excerpt of the source if it points into it. -/
def diagnostic (fault : Fault) (source : String) : String :=
  fault.headline ++ "-> " ++ fault.position.file ++ "\n" ++
    match SourceLine.at? source fault.position.offset with
    | none => ""
    | some line => line.excerpt

end Fault

end ScriptSyntax
