import ScriptSyntax.Text.Extender
import ScriptSyntax.Text.Unprintable

/-!
Quoted text: any text on one line between double quotes. Six characters have
an escape of their own form, the rest of a chosen set is written by code point,
and all else stands for itself. A backslash never stands for itself, so a
quoted text can be read back whatever the chosen set is.
-/

namespace ScriptSyntax.Text

/-- Digits in base sixteen, lower case, without leading zeros. -/
def hexDigits (n : Nat) : List Char := Nat.toDigits 16 n

/-- How one character is written between the quotes; `hidden` is the set
written by code point. -/
def escape (hidden : Char → Bool) (c : Char) : List Char :=
  match c with
  | '\x00' => ['\\', '0']
  | '\t' => ['\\', 't']
  | '\r' => ['\\', 'r']
  | '\n' => ['\\', 'n']
  | '"' => ['\\', '"']
  | '\\' => ['\\', '\\']
  | c => if hidden c then '\\' :: 'u' :: '{' :: hexDigits c.toNat ++ ['}'] else [c]

/-- The text between its quotes. -/
def enquote (hidden : Char → Bool) (cs : List Char) : List Char :=
  '"' :: cs.flatMap (escape hidden) ++ ['"']

/-- What has no visible form of its own, or would merge with its neighbour. -/
def isHidden (c : Char) : Bool := isExtender c || isUnprintable c

/-- A text as messages and outlines show it. -/
def quote (text : String) : String := String.ofList (enquote isHidden text.toList)

end ScriptSyntax.Text
