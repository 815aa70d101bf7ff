import ScriptSyntax.Proofs.Acceptance
import ScriptSyntax.Proofs.Writing

/-!
Programs as they are meant, how they are written and the tree they have. A
program that is written down with any blanks between its words is scanned and
parsed back: the parse succeeds, its tree spells out the source, and without
trivia and places it is the tree of the program.

The scanner gives the words back, and the parser sees nothing but words; so it
is enough to parse the words alone, and these are the leaves of a tree of the
schema, which the parser reads back.
-/

namespace ScriptSyntax

open ScriptSyntax.Tree

/-- A text that is well spelled for its kind. -/
structure Spelled (kind : TokenKind) where
  text : String
  wellSpelled : WellSpelled kind text.toList

abbrev Name := Spelled .identifier

/-- The binary operators. -/
inductive Sign where
  | equal
  | atMost
  | atLeast
  | unequal
  | assign
  | and
  | or
  deriving DecidableEq, Repr

inductive Atom where
  | name (name : Name)
  | number (number : Spelled .number)
  | string (string : Spelled .string)

mutual
inductive Operand where
  | atom (atom : Atom)
  | group (inner : Expression)

/-- An operation has an operand on its left and all the rest on its right. -/
inductive Expression where
  | single (operand : Operand)
  | operation (left : Operand) (sign : Sign) (right : Expression)
end

inductive Statement where
  | call (function : Name) (argument : Expression)
  | forLoop (index : Name) (first limit step : Expression) (body : List Statement)
  | conditional (test : Expression) (body : List Statement)
      (branches : List (Expression × List Statement)) (last : Option (List Statement))

/-! The words of a program, in the order in which they are written. -/

section Words

def Spelled.word {kind : TokenKind} (spelled : Spelled kind) : Word := ⟨kind, spelled.text⟩

def Word.keyword (text : String) : Word := ⟨.keyword, text⟩

def Word.operator (text : String) : Word := ⟨.operator, text⟩

def Sign.word : Sign → Word
  | equal => .operator "=="
  | atMost => .operator "<="
  | atLeast => .operator ">="
  | unequal => .operator "!="
  | assign => .operator "="
  | and => .operator "and"
  | or => .operator "or"

def Atom.word : Atom → Word
  | name n => n.word
  | number n => n.word
  | string s => s.word

mutual
def Operand.words : Operand → List Word
  | .atom a => [a.word]
  | .group e => .operator "(" :: (e.words ++ [.operator ")"])

def Expression.words : Expression → List Word
  | .single o => o.words
  | .operation o sign e => o.words ++ sign.word :: e.words
end

mutual
def Statement.words : Statement → List Word
  | .call f e => f.word :: .operator "(" :: (e.words ++ [.operator ")"])
  | .forLoop x first limit step body =>
      .keyword "for" :: x.word :: .operator "=" :: (first.words ++ .operator "," :: (limit.words ++
        .operator "," :: (step.words ++ .keyword "do" :: (wordsOfAll body ++ [.keyword "end"]))))
  | .conditional test body branches last =>
      .keyword "if" :: (test.words ++ .keyword "then" :: (wordsOfAll body ++
        (wordsOfBranches branches ++ (wordsOfLast last ++ [.keyword "end"]))))

def Statement.wordsOfAll : List Statement → List Word
  | [] => []
  | statement :: statements => statement.words ++ wordsOfAll statements

def Statement.wordsOfBranches : List (Expression × List Statement) → List Word
  | [] => []
  | (test, body) :: branches =>
      .keyword "elseif" :: (test.words ++ .keyword "then" :: wordsOfAll body) ++
        wordsOfBranches branches

def Statement.wordsOfLast : Option (List Statement) → List Word
  | none => []
  | some body => .keyword "else" :: wordsOfAll body
end

end Words

/-! The tree of a program. It stands nowhere: its positions are all null. -/

section Trees

def Word.token (word : Word) : Token := ⟨word.kind, word.text, ⟨.null, .null⟩⟩

abbrev Word.tree (word : Word) : Tree := .token word.token

mutual
def Operand.tree : Operand → Tree
  | .atom a => .node .expr [a.word.tree]
  | .group e => .node .expr [(Word.operator "(").tree, e.tree, (Word.operator ")").tree]

def Expression.tree : Expression → Tree
  | .single o => .node .expr [o.tree]
  | .operation o sign e => .node .expr [.node .expr [o.tree, sign.word.tree, e.tree]]
end

mutual
def Statement.tree : Statement → Tree
  | .call f e =>
      .node .call [.node .lhs [f.word.tree], (Word.operator "(").tree, e.tree,
        (Word.operator ")").tree]
  | .forLoop x first limit step body =>
      .node .forLoop [(Word.keyword "for").tree, .node .lhs [x.word.tree], (Word.operator "=").tree,
        first.tree, (Word.operator ",").tree, limit.tree, (Word.operator ",").tree, step.tree,
        (Word.keyword "do").tree, .node .body (treesOfAll body), (Word.keyword "end").tree]
  | .conditional test body branches last =>
      .node .conditional ([(Word.keyword "if").tree, test.tree, (Word.keyword "then").tree,
        .node .body (treesOfAll body)] ++ treesOfBranches branches ++ (treeOfLast last).toList ++
        [(Word.keyword "end").tree])

def Statement.treesOfAll : List Statement → List Tree
  | [] => []
  | statement :: statements => statement.tree :: treesOfAll statements

def Statement.treesOfBranches : List (Expression × List Statement) → List Tree
  | [] => []
  | (test, body) :: branches =>
      .node .elseIf [(Word.keyword "elseif").tree, test.tree, (Word.keyword "then").tree,
        .node .body (treesOfAll body)] :: treesOfBranches branches

def Statement.treeOfLast : Option (List Statement) → Option Tree
  | none => none
  | some body =>
      some (.node .otherwise [(Word.keyword "else").tree, .node .body (treesOfAll body)])
end

end Trees

/-! The tree of a program is of the schema. -/

section Conformance

theorem Atom.isAtom (atom : Atom) : atom.word.token.Atom := by
  cases atom with
  | name => exact .inr (.inr rfl)
  | number => exact .inl rfl
  | string => exact .inr (.inl rfl)

theorem Sign.isBinary (sign : Sign) : sign.word.token.Binary := by
  cases sign <;> exact ⟨rfl, by decide, by decide, by decide⟩

mutual
theorem Operand.conforms (operand : Operand) : Conforms .operand operand.tree := by
  cases operand with
  | atom a => exact .atom a.isAtom
  | group e => exact .group ⟨rfl, rfl⟩ e.conforms ⟨rfl, rfl⟩

theorem Expression.conforms (expression : Expression) : Conforms .expr expression.tree := by
  cases expression with
  | single o => exact .single o.conforms
  | operation o sign e => exact .operation o.conforms sign.isBinary e.conforms
end

namespace Statement

mutual
theorem conforms (statement : Statement) : Conforms .statement statement.tree := by
  cases statement with
  | call f e => exact .call rfl ⟨rfl, rfl⟩ e.conforms ⟨rfl, rfl⟩
  | forLoop x first limit step body =>
      exact .forLoop ⟨rfl, rfl⟩ rfl ⟨rfl, rfl⟩ first.conforms ⟨rfl, rfl⟩ limit.conforms ⟨rfl, rfl⟩
        step.conforms ⟨rfl, rfl⟩ (.block (conforms_treesOfAll body)) ⟨rfl, rfl⟩
  | conditional test body branches last =>
      exact .conditional ⟨rfl, rfl⟩ test.conforms ⟨rfl, rfl⟩ (.block (conforms_treesOfAll body))
        (conforms_treesOfBranches branches) (conforms_treeOfLast last) ⟨rfl, rfl⟩

theorem conforms_treesOfAll (statements : List Statement) :
    ∀ tree ∈ treesOfAll statements, Conforms .statement tree := by
  cases statements with
  | nil => simp [treesOfAll]
  | cons statement statements =>
      rw [treesOfAll, List.forall_mem_cons]
      exact ⟨statement.conforms, conforms_treesOfAll statements⟩

theorem conforms_treesOfBranches (branches : List (Expression × List Statement)) :
    ∀ tree ∈ treesOfBranches branches, Conforms .elseIf tree := by
  cases branches with
  | nil => simp [treesOfBranches]
  | cons branch branches =>
      obtain ⟨test, body⟩ := branch
      rw [treesOfBranches, List.forall_mem_cons]
      exact ⟨.elseIf ⟨rfl, rfl⟩ test.conforms ⟨rfl, rfl⟩ (.block (conforms_treesOfAll body)),
        conforms_treesOfBranches branches⟩

theorem conforms_treeOfLast (last : Option (List Statement)) :
    ∀ tree ∈ treeOfLast last, Conforms .otherwise tree := by
  cases last with
  | none => simp [treeOfLast]
  | some body =>
      rintro _ ⟨⟩
      exact .otherwise ⟨rfl, rfl⟩ (.block (conforms_treesOfAll body))
end

end Statement

end Conformance

/-- Trees with these words at their leaves, all of which can be written. -/
structure Holds (trees : List Tree) (words : List Word) : Prop where
  tokens_eq : tokensOfAll trees = words.map Word.token
  wellSpelled : ∀ word ∈ words, word.WellSpelled
  seen : ∀ word ∈ words, word.kind ≠ .comment

section Leaves

variable {trees more : List Tree} {words others : List Word}

theorem holds_nil : Holds [] [] := ⟨rfl, by simp, by simp⟩

theorem Holds.append (h : Holds trees words) (h' : Holds more others) :
    Holds (trees ++ more) (words ++ others) where
  tokens_eq := by rw [tokensOfAll_append, h.tokens_eq, h'.tokens_eq, List.map_append]
  wellSpelled := List.forall_mem_append.mpr ⟨h.wellSpelled, h'.wellSpelled⟩
  seen := List.forall_mem_append.mpr ⟨h.seen, h'.seen⟩

theorem Holds.node (kind : NodeKind) (h : Holds trees words) : Holds [.node kind trees] words where
  tokens_eq := by rw [tokensOfAll_cons, tokens_node, tokensOfAll_nil, List.append_nil, h.tokens_eq]
  wellSpelled := h.wellSpelled
  seen := h.seen

theorem holds_word {word : Word} (h : word.WellSpelled) (hkind : word.kind ≠ .comment) :
    Holds [word.tree] [word] where
  tokens_eq := by
    rw [tokensOfAll_cons, tokens_token (Token.isSignificant_of_kind hkind)]
    rfl
  wellSpelled := by simpa using h
  seen := by simpa using hkind

theorem holds_keyword (text : String) (h : text ∈ keywords) :
    Holds [(Word.keyword text).tree] [.keyword text] := by
  have hspells : Spells .keyword text.toList [] :=
    .keyword (by rwa [String.ofList_toList]) wordEnds_nil
  exact holds_word ⟨hspells, by simp [Word.keyword]⟩ (by simp [Word.keyword])

theorem holds_operator (text : String) (h : text ∈ operators) :
    Holds [(Word.operator text).tree] [.operator text] := by
  have hspells : Spells .operator text.toList [] := .operator (by rwa [String.ofList_toList])
  exact holds_word ⟨hspells, by simp [Word.operator]⟩ (by simp [Word.operator])

theorem Spelled.holds {kind : TokenKind} (spelled : Spelled kind) (hkind : kind ≠ .comment) :
    Holds [spelled.word.tree] [spelled.word] :=
  holds_word spelled.wellSpelled hkind

theorem Atom.holds (atom : Atom) : Holds [atom.word.tree] [atom.word] := by
  cases atom with
  | name n => exact n.holds (by decide)
  | number n => exact n.holds (by decide)
  | string s => exact s.holds (by decide)

theorem Sign.holds (sign : Sign) : Holds [sign.word.tree] [sign.word] := by
  cases sign <;> exact holds_operator _ (by decide)

mutual
theorem Operand.holds (operand : Operand) : Holds [operand.tree] operand.words := by
  cases operand with
  | atom a => exact a.holds.node .expr
  | group e =>
      have hinner := e.holds.append (holds_operator ")" (by decide))
      exact ((holds_operator "(" (by decide)).append hinner).node .expr

theorem Expression.holds (expression : Expression) :
    Holds [expression.tree] expression.words := by
  cases expression with
  | single o => exact o.holds.node .expr
  | operation o sign e => exact ((o.holds.append (sign.holds.append e.holds)).node .expr).node .expr
end

namespace Statement

-- children and words are concatenations in the same order, so they are put together piece by piece
mutual
theorem holds (statement : Statement) : Holds [statement.tree] statement.words := by
  cases statement with
  | call f e =>
      have hargument := (holds_operator "(" (by decide)).append <|
        e.holds.append (holds_operator ")" (by decide))
      exact (((f.holds (by decide)).node .lhs).append hargument).node .call
  | forLoop x first limit step body =>
      have hbody := (holds_keyword "do" (by decide)).append <|
        ((holds_treesOfAll body).node .body).append (holds_keyword "end" (by decide))
      have hrange := first.holds.append <| (holds_operator "," (by decide)).append <|
        limit.holds.append <| (holds_operator "," (by decide)).append <| step.holds.append hbody
      have hindex := ((x.holds (by decide)).node .lhs).append <|
        (holds_operator "=" (by decide)).append hrange
      exact ((holds_keyword "for" (by decide)).append hindex).node .forLoop
  | conditional test body branches last =>
      have hbranches := (holds_treesOfBranches branches).append <|
        (holds_treeOfLast last).append (holds_keyword "end" (by decide))
      have hbody := (holds_keyword "then" (by decide)).append <|
        ((holds_treesOfAll body).node .body).append hbranches
      rw [Statement.tree, List.append_assoc, List.append_assoc]
      exact ((holds_keyword "if" (by decide)).append (test.holds.append hbody)).node .conditional

theorem holds_treesOfAll (statements : List Statement) :
    Holds (treesOfAll statements) (wordsOfAll statements) := by
  cases statements with
  | nil => exact holds_nil
  | cons statement statements => exact statement.holds.append (holds_treesOfAll statements)

theorem holds_treesOfBranches (branches : List (Expression × List Statement)) :
    Holds (treesOfBranches branches) (wordsOfBranches branches) := by
  cases branches with
  | nil => exact holds_nil
  | cons branch branches =>
      obtain ⟨test, body⟩ := branch
      have hbody := (holds_keyword "then" (by decide)).append ((holds_treesOfAll body).node .body)
      have hbranch := ((holds_keyword "elseif" (by decide)).append (test.holds.append hbody)).node
        .elseIf
      exact hbranch.append (holds_treesOfBranches branches)

theorem holds_treeOfLast (last : Option (List Statement)) :
    Holds (treeOfLast last).toList (wordsOfLast last) := by
  cases last with
  | none => exact holds_nil
  | some body =>
      exact ((holds_keyword "else" (by decide)).append
        ((holds_treesOfAll body).node .body)).node .otherwise
end

end Statement

end Leaves

/-- The words of a program, with nothing between them. -/
def Statement.bareLexemes (program : List Statement) : List Lexeme :=
  (wordsOfAll program).map fun word => .token word.token

theorem significantTokens_bareLexemes (program : List Statement) :
    significantTokens (Statement.bareLexemes program) =
      (Statement.wordsOfAll program).map Word.token := by
  have hseen : ∀ token ∈ (Statement.wordsOfAll program).map Word.token, token.isSignificant := by
    intro token htoken
    obtain ⟨word, hword, rfl⟩ := List.mem_map.mp htoken
    exact Token.isSignificant_of_kind ((Statement.holds_treesOfAll program).seen word hword)
  have htokens := significantTokens_map_token hseen
  rwa [List.map_map] at htokens

theorem map_word_bareLexemes (program : List Statement) :
    (significantTokens (Statement.bareLexemes program)).map Token.word =
      Statement.wordsOfAll program := by
  rw [significantTokens_bareLexemes, List.map_map]
  exact List.map_id _

/-- The words alone are parsed to the tree of the program. -/
theorem parse_bareLexemes (program : List Statement) :
    ∃ root, parse (Statement.bareLexemes program) = .ok root ∧
      root.withoutTrivia = ⟨.body, Statement.treesOfAll program⟩ := by
  have htokens := (significantTokens_bareLexemes program).trans
    (Statement.holds_treesOfAll program).tokens_eq.symm
  obtain ⟨hresult, htrees, _⟩ := Production.yields_program
    (Statement.conforms_treesOfAll program) (.ofLexemes _) htokens
  exact ⟨_, parse_eq_ok_iff.mpr ⟨hresult, rfl⟩, congrArg (Node.mk .body) htrees⟩

/-- The tree of a program has no places to forget. -/
theorem withoutPlaces_treesOfAll (program : List Statement) :
    (⟨.body, Statement.treesOfAll program⟩ : Node).withoutPlaces =
      ⟨.body, Statement.treesOfAll program⟩ := by
  apply congrArg (Node.mk .body)
  apply relocateAll_eq_self
  intro leaf hleaf
  have hleaves := (Conforms.block (Statement.conforms_treesOfAll program)).leaves_eq
  rw [leaves, tokens_node, (Statement.holds_treesOfAll program).tokens_eq] at hleaves
  rw [hleaves] at hleaf
  obtain ⟨token, htoken, rfl⟩ := List.mem_map.mp hleaf
  obtain ⟨word, _, rfl⟩ := List.mem_map.mp htoken
  rfl

/-- A program that is written down is read back: the parse succeeds, its tree spells
out the source, and is the tree of the program but for trivia and places. -/
theorem parse_written (program : List Statement) (source : String) (file : Option String)
    (h : Written (Statement.wordsOfAll program) source) :
    ∃ root, parse (scan source file) = .ok root ∧ root.sourceText = source ∧
      root.withoutTrivia.withoutPlaces = ⟨.body, Statement.treesOfAll program⟩ := by
  have hholds := Statement.holds_treesOfAll program
  have hscan := h.words_scan hholds.wellSpelled hholds.seen file
  obtain ⟨bare, hbare, htree⟩ := parse_bareLexemes program
  obtain ⟨root, hparse, hsame⟩ :=
    exists_parse_of_words ((map_word_bareLexemes program).trans hscan.symm) hbare
  refine ⟨root, hparse, ?_, ?_⟩
  · rw [Node.sourceText, leaves_of_parse hparse, List.map_map]
    exact join_text_scan source file
  · rw [hsame, htree, withoutPlaces_treesOfAll]

/-- A name that begins like a keyword, an operator inside quotes, a number with its sign
and an empty block, with all sorts of blanks between them. -/
theorem parse_written_conditional :
    let program : List Statement :=
      [.conditional
        (.operation (.atom (.name ⟨"end_", by decide +kernel⟩)) .equal
          (.single (.atom (.string ⟨"\"a or\nb\"", by decide +kernel⟩))))
        [.call ⟨"f", by decide +kernel⟩
          (.single (.atom (.number ⟨"-1", by decide +kernel⟩)))]
        [] (some [])]
    let source := "if end_\t== \"a or\nb\"\r\nthen f ( -1 )  else\nend"
    Written (Statement.wordsOfAll program) source ∧
      ∃ root, parse (scan source none) = .ok root ∧ root.sourceText = source ∧
        root.withoutTrivia.withoutPlaces = ⟨.body, Statement.treesOfAll program⟩ := by
  intro program source
  have hgap {kind : TokenKind} {gap : List Char} (hkind : kind ≠ .comment) (hne : gap ≠ [])
      (hblank : ∀ c ∈ gap, IsBlank c) : IsGap kind gap :=
    ⟨hne, hblank, fun hcomment => absurd hcomment hkind⟩
  have hspace {kind : TokenKind} (hkind : kind ≠ .comment) : IsGap kind [' '] :=
    hgap hkind (by simp) (by simp [IsBlank])
  have htab : IsGap .identifier ['\t'] := hgap (by decide) (by simp) (by simp [IsBlank])
  have hline : IsGap .string ['\r', '\n'] := hgap (by decide) (by simp) (by simp [IsBlank])
  have hspaces : IsGap .operator [' ', ' '] := hgap (by decide) (by simp) (by simp [IsBlank])
  have hfeed : IsGap .keyword ['\n'] := hgap (by decide) (by simp) (by simp [IsBlank])
  have hlast : LaidOut [.keyword "else", .keyword "end"] _ := .more hfeed (.last _)
  have hcall : LaidOut [⟨.identifier, "f"⟩, .operator "(", ⟨.number, "-1"⟩, .operator ")",
      .keyword "else", .keyword "end"] _ :=
    .more (hspace (by decide)) <| .more (hspace (by decide)) <| .more (hspace (by decide)) <|
      .more hspaces hlast
  have hwritten : Written (Statement.wordsOfAll program) source :=
    ⟨_, .more (hspace (by decide)) <| .more htab <| .more (hspace (by decide)) <| .more hline <|
      .more (hspace (by decide)) hcall, by decide +kernel⟩
  exact ⟨hwritten, parse_written program source none hwritten⟩

end ScriptSyntax
