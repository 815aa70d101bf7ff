import ScriptSyntax.Program
import ScriptSyntax.Proofs.Completeness
import ScriptSyntax.Proofs.Conformance
import ScriptSyntax.Proofs.Conservation

/-!
The parser and the grammar. A list of lexemes is accepted exactly if its
significant tokens are a program of the grammar, and its tree, trivia aside, is
the only tree of the schema with these tokens at its leaves.

That the tree is of the schema is what productions build, that it has these
leaves is conservation, and that there is no other is completeness: whichever
tree of the schema has these leaves, the parser would read that one back.
-/

namespace ScriptSyntax

open ScriptSyntax.Tree

namespace Production

/-- A program that is read is statements of the schema, trivia aside. -/
theorem builds_program {c : Cursor} (h : (program c).result = .ok ()) :
    withoutTriviaOfAll (program c).appended ∈ manyTrees .statement := by
  obtain ⟨hstatements, hrest⟩ := program_eq_ok h
  rw [program_of_nil hstatements hrest, withoutTriviaOfAll_append,
    withoutTriviaOfAll_lexemes hrest, List.append_nil]
  exact (run_statements c).builds hstatements

theorem yields_finish : Yields finish [] () [] [] := by
  intro c hc
  rw [finish_of_nil hc]
  exact ⟨rfl, withoutTriviaOfAll_lexemes hc, rfl⟩

/-- The statements of a block of the schema are a program. -/
theorem yields_program {statements : List Tree}
    (h : ∀ statement ∈ statements, Conforms .statement statement) :
    Yields program (tokensOfAll statements) () statements [] := by
  have hread : Yields Production.statements (tokensOfAll statements ++ []) () statements [] := by
    apply Reads.yields
    · apply Phrase.reads_statements
      · intro statement hstatement
        exact Phrase.readBack_of_conforms (h statement hstatement)
      · simp [Phrase.ClosesBlock]
    · exact dressable_of_forall fun statement hstatement =>
        dressable_of_conforms (h statement hstatement)
  rw [List.append_nil] at hread
  have hprogram := hread.bind (f := fun _ => finish) yields_finish
  rwa [List.append_nil] at hprogram

end Production

theorem conforms_of_parse {ls : List Lexeme} {root : Node} (h : parse ls = .ok root) :
    Conforms .block root.withoutTrivia.toTree := by
  obtain ⟨hresult, rfl⟩ := parse_eq_ok_iff.mp h
  exact .block (Production.builds_program hresult)

theorem tokens_of_parse {ls : List Lexeme} {root : Node} (h : parse ls = .ok root) :
    root.withoutTrivia.toTree.tokens = significantTokens ls := by
  have hleaves := leaves_of_parse h
  have htokens : root.withoutTrivia.toTree.tokens = root.leaves.filterMap Leaf.significant? :=
    tokensOfAll_withoutTriviaOfAll root.children
  rw [htokens, hleaves, List.filterMap_map]
  rfl

/-- A list of lexemes is accepted exactly if its significant tokens can be derived. -/
theorem parse_ok_iff_derives (ls : List Lexeme) :
    (∃ root, parse ls = .ok root) ↔ Derives .block (significantTokens ls) := by
  constructor
  · rintro ⟨root, h⟩
    rw [← tokens_of_parse h]
    exact (conforms_of_parse h).derives
  · intro h
    obtain ⟨tree, htree, htokens⟩ := h.exists_conforms
    cases htree with
    | block hstatements =>
        obtain ⟨hresult, _, _⟩ :=
          Production.yields_program hstatements (.ofLexemes ls) htokens.symm
        exact ⟨_, parse_eq_ok_iff.mpr ⟨hresult, rfl⟩⟩

theorem isSignificant_of_mem_tokensOfAll {trees : List Tree} {t : Token}
    (h : t ∈ tokensOfAll trees) : t.isSignificant := by
  obtain ⟨leaf, _, hleaf⟩ := List.mem_filterMap.mp h
  obtain ⟨lexeme, _, hlexeme⟩ := Option.bind_eq_some_iff.mp hleaf
  exact (Lexeme.significant?_eq_some_iff.mp hlexeme).2

theorem significantTokens_map_token {tokens : List Token} (h : ∀ t ∈ tokens, t.isSignificant) :
    significantTokens (tokens.map .token) = tokens := by
  induction tokens with
  | nil => rfl
  | cons t tokens ih =>
      have ht := h t (by simp)
      have htokens := ih fun other hother => h other (by simp [hother])
      simpa [significantTokens, Lexeme.significant?, ht] using htokens

/-- One run of a production on given tokens adds one list of trees. -/
theorem Production.Yields.trees_eq {α : Type} {p : Production α} {tokens after after' : List Token}
    {a a' : α} {trees trees' : List Tree} (h : Yields p tokens a trees after)
    (h' : Yields p tokens a' trees' after') (htokens : ∀ t ∈ tokens, t.isSignificant) :
    trees = trees' := by
  have hcursor := significantTokens_map_token htokens
  obtain ⟨_, htrees, _⟩ := h ⟨tokens.map .token, .null⟩ hcursor
  obtain ⟨_, htrees', _⟩ := h' ⟨tokens.map .token, .null⟩ hcursor
  exact htrees.symm.trans htrees'

/-- The schema is unambiguous: both trees are what the production of the symbol
reads from their tokens. -/
theorem Conforms.eq_of_tokens_eq {symbol : Symbol} {tree other : Tree}
    (h : Conforms symbol tree) (h' : Conforms symbol other)
    (htokens : tree.tokens = other.tokens) : tree = other := by
  have hsignificant : ∀ t ∈ tree.tokens, t.isSignificant := by
    intro t ht
    exact @isSignificant_of_mem_tokensOfAll [tree] t (by simpa using ht)
  have hdressable := dressable_of_conforms h
  have hdressable' := dressable_of_conforms h'
  have hsame {p : Production Unit} (hy : p.Reads [tree] []) (hy' : p.Reads [other] []) :
      tree = other := by
    have hlists : tokensOfAll [tree] = tokensOfAll [other] := by simpa using htokens
    have htrees := hy'.yields hdressable'
    rw [← hlists] at htrees
    simpa using (hy.yields hdressable).trees_eq htrees (by simpa using hsignificant)
  have hread := Phrase.readBack_of_conforms h
  have hread' := Phrase.readBack_of_conforms h'
  have hclose : Phrase.ClosesBlock [] := by simp [Phrase.ClosesBlock]
  cases symbol with
  | operand =>
      obtain ⟨token, more, hfirst, htoken, hy⟩ := hread
      obtain ⟨token', more', hfirst', _, hy'⟩ := hread'
      obtain ⟨rfl, rfl⟩ : token = token' ∧ more = more' := by
        simpa using hfirst.symm.trans (htokens.trans hfirst')
      have hmore : ∀ t ∈ more ++ [], t.isSignificant := by
        intro t ht
        exact hsignificant t (by simp_all)
      have htrees := (hy []).yields hdressable htoken (by simpa using hfirst)
      have htrees' := (hy' []).yields hdressable' htoken (by simpa using hfirst')
      simpa using htrees.trees_eq htrees' hmore
  | statement =>
      obtain ⟨token, more, hfirst, _, hy⟩ := hread
      obtain ⟨token', more', hfirst', _, hy'⟩ := hread'
      obtain ⟨rfl, rfl⟩ : token = token' ∧ more = more' := by
        simpa using hfirst.symm.trans (htokens.trans hfirst')
      exact hsame (hy []) (hy' [])
  | expr =>
      have hends : Phrase.EndsExpr [] := by simp [Phrase.EndsExpr]
      exact hsame (hread [] hends) (hread' [] hends)
  | block => exact hsame (hread [] hclose) (hread' [] hclose)
  | elseIf => exact hsame (hread.2 [] hclose) (hread'.2 [] hclose)
  | otherwise => exact hsame (hread.2 [] hclose) (hread'.2 [] hclose)

/-- The tree of a program, trivia aside, is the one tree of the schema with the
significant tokens at its leaves; and no two different trees of the schema for one
symbol have the same leaves. -/
theorem parse_tree_unique :
    (∀ (ls : List Lexeme) (root : Node), parse ls = .ok root → ∀ tree,
      (Conforms .block tree ∧ tree.leaves = (significantTokens ls).map Token.leaf) ↔
        tree = root.withoutTrivia.toTree) ∧
    ∀ (symbol : Symbol) (tree other : Tree), Conforms symbol tree → Conforms symbol other →
      tree.leaves = other.leaves → tree = other := by
  have hunique {symbol : Symbol} {tree other : Tree} (h : Conforms symbol tree)
      (h' : Conforms symbol other) (hleaves : tree.leaves = other.leaves) : tree = other :=
    h.eq_of_tokens_eq h' (congrArg (·.filterMap Leaf.significant?) hleaves)
  refine ⟨?_, fun _ _ _ h h' hleaves => hunique h h' hleaves⟩
  intro ls root h tree
  have hconforms := conforms_of_parse h
  have hleaves : root.withoutTrivia.toTree.leaves = (significantTokens ls).map Token.leaf := by
    rw [hconforms.leaves_eq, tokens_of_parse h]
  constructor
  · rintro ⟨htree, htokens⟩
    exact hunique htree hconforms (htokens.trans hleaves.symm)
  · rintro rfl
    exact ⟨hconforms, hleaves⟩

/-- In `f(a =b=c--)` the operators group to the right, and the trivia is gone. -/
theorem parse_tree_unique_right :
    let token (kind : TokenKind) (value : String) : Token := ⟨kind, value, .between "" 0 0⟩
    let f := token .identifier "f"
    let a := token .identifier "a"
    let b := token .identifier "b"
    let c := token .identifier "c"
    let opening := token .operator "("
    let closing := token .operator ")"
    let equals := token .operator "="
    let lexemes : List Lexeme := [.token f, .token opening, .token a,
      .skipped ⟨" ", .between "" 1 2⟩, .token equals, .token b, .token equals, .token c,
      .token (token .comment "--"), .token closing]
    let atom (t : Token) : Tree := .node .expr [.token t]
    let operation (left right : Tree) : Tree :=
      .node .expr [.node .expr [left, .token equals, right]]
    ∃ root, parse lexemes = .ok root ∧
      root.withoutTrivia.toTree = .node .body [.node .call [.node .lhs [.token f], .token opening,
        operation (atom a) (operation (atom b) (.node .expr [atom c])), .token closing]] := by
  intro token f a b c opening closing equals lexemes atom operation
  have hatom (value : String) : Conforms .operand (atom (token .identifier value)) :=
    .atom (.inr (.inr rfl))
  have hequals : equals.Binary := by simp [Token.Binary, equals, token]
  have hinner := Conforms.operation (hatom "b") hequals (.single (hatom "c"))
  have hexpr := Conforms.operation (hatom "a") hequals hinner
  have hcall : Conforms .statement (.node .call [.node .lhs [.token f], .token opening,
      operation (atom a) (operation (atom b) (.node .expr [atom c])), .token closing]) :=
    .call rfl ⟨rfl, rfl⟩ hexpr ⟨rfl, rfl⟩
  obtain ⟨root, hparse⟩ := exists_of_parse_isOk lexemes (by decide +kernel)
  obtain ⟨hconforms, hleaves⟩ := (parse_tree_unique.1 lexemes root hparse _).mpr rfl
  refine ⟨root, hparse, ?_⟩
  apply parse_tree_unique.2 .block _ _ hconforms
  · apply Conforms.block
    simpa using hcall
  · rw [hleaves]
    rfl

end ScriptSyntax
