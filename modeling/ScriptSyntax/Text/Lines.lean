/-!
Lines of a text. A line ends with its line feed, so the lines joined are the
text again; only the last one may lack a line feed.
-/

namespace ScriptSyntax.Text

def lines : List Char → List (List Char)
  | [] => []
  | c :: cs =>
      if c = '\n' then [c] :: lines cs
      else
        match lines cs with
        | [] => [[c]]
        | line :: rest => (c :: line) :: rest

theorem flatten_lines (cs : List Char) : (lines cs).flatten = cs := by
  fun_induction lines cs <;> simp_all

end ScriptSyntax.Text
