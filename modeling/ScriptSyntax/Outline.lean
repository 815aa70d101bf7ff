import ScriptSyntax.Tree

/-!
Outlines: lexemes and trees as text, one line for each lexeme, node and fault.
Depth shows as indentation and texts are quoted, so no content of a token can
look like a line of its own.
-/

namespace ScriptSyntax

def Token.outline (token : Token) : String := token.kind.name ++ " " ++ Text.quote token.value

/-- A skipped run is shown by the classes of its characters only. -/
def Skipped.outline (skipped : Skipped) : String :=
  String.join ("Skipped" :: skipped.classes.map fun c => " " ++ c.name)

def Lexeme.outline : Lexeme → String
  | token t => t.outline
  | skipped s => s.outline

def Leaf.outline : Leaf → String
  | lexeme l => l.outline
  | fault f => "Error " ++ f.display

/-- Every line ends with a line feed. -/
def unlines (lines : List String) : String := String.join (lines.map (· ++ "\n"))

def indent (depth : Nat) : String := String.ofList (List.replicate (2 * depth) ' ')

mutual
/-- The lines of a tree at a depth; `trivia` tells whether trivia is shown. -/
def Tree.outlineLines (trivia : Bool) (depth : Nat) : Tree → List String
  | leaf l => [indent depth ++ l.outline]
  | node kind children =>
      (indent depth ++ kind.name) :: outlineLinesOfAll trivia (depth + 1) children

def Tree.outlineLinesOfAll (trivia : Bool) (depth : Nat) : List Tree → List String
  | [] => []
  | tree :: trees =>
      if tree.isTrivia && !trivia then outlineLinesOfAll trivia depth trees
      else tree.outlineLines trivia depth ++ outlineLinesOfAll trivia depth trees
end

def Node.outline (node : Node) (trivia : Bool) : String :=
  unlines (node.toTree.outlineLines trivia 0)

def lexemesOutline (lexemes : List Lexeme) : String := unlines (lexemes.map Lexeme.outline)

end ScriptSyntax
