import ScriptSyntax.Text.RangeTable

/-!
Blank characters: the Unicode property `White_Space`. It is wider than the
four characters the scanner calls whitespace; diagnostics use it to cut the
end of the line they show.
-/

namespace ScriptSyntax.Text

def blanks : RangeTable :=
  [
    (0x9, 0xD), (0x20, 0x20), (0x85, 0x85), (0xA0, 0xA0), (0x1680, 0x1680), (0x2000, 0x200A),
    (0x2028, 0x2029), (0x202F, 0x202F), (0x205F, 0x205F), (0x3000, 0x3000)
  ]

def isBlank (c : Char) : Bool := blanks.contains c

/-- The text without the blanks at its end. -/
def trimEnd (cs : List Char) : List Char := (cs.reverse.dropWhile isBlank).reverse

end ScriptSyntax.Text
