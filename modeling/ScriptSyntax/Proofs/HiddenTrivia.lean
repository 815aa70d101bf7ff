import ScriptSyntax.Proofs.SourceNames

/-!
Outlines without trivia. A line that is left out leaves no trace: the lines around it keep their
depths, and a node that held nothing but trivia keeps its own line. So an outline without trivia
is the full outline of the tree without trivia. Of a program that tree depends on the words of
its tokens and on where they stand; and only the line of a fault shows a place, of which a
program has none. Hence the layout of a program does not show in its outline.
-/

namespace ScriptSyntax

open ScriptSyntax.Tree

/-- Trivia are the skipped runs and the comments, and nothing else. -/
theorem Leaf.isTrivia_iff {leaf : Leaf} :
    leaf.isTrivia ↔ (∃ s, leaf = .lexeme (.skipped s)) ∨
      ∃ t : Token, leaf = t.leaf ∧ t.kind = .comment := by
  cases leaf with
  | fault f => simp [isTrivia]
  | lexeme l =>
      cases l with
      | skipped s => simp [isTrivia, Lexeme.isTrivia, Lexeme.significant?]
      | token t => simp [isTrivia, Lexeme.isTrivia, Lexeme.significant?, Token.isSignificant]

namespace Tree

mutual
theorem leaves_withoutTrivia {tree : Tree} (h : ¬ tree.isTrivia) :
    tree.withoutTrivia.leaves = tree.leaves.filter (!·.isTrivia) := by
  cases tree with
  | leaf l =>
      have hl : l.isTrivia = false := by simpa [isTrivia] using h
      simp [withoutTrivia, leaves, hl]
  | node kind children => exact leavesOfAll_withoutTriviaOfAll children

/-- The leaves that are left are those that are no trivia. -/
theorem leavesOfAll_withoutTriviaOfAll (trees : List Tree) :
    leavesOfAll (withoutTriviaOfAll trees) = (leavesOfAll trees).filter (!·.isTrivia) := by
  cases trees with
  | nil => rfl
  | cons tree trees =>
      have htrees := leavesOfAll_withoutTriviaOfAll trees
      rw [withoutTriviaOfAll, leavesOfAll, List.filter_append, ← htrees]
      split
      · next htrivia =>
          cases tree with
          | leaf l =>
              have hl : l.isTrivia = true := htrivia
              simp [leaves, hl]
          | node kind children => cases htrivia
      · next hkept => rw [leavesOfAll, leaves_withoutTrivia hkept]
end

mutual
theorem outlineLines_withoutTrivia (depth : Nat) (tree : Tree) :
    tree.outlineLines false depth = tree.withoutTrivia.outlineLines true depth := by
  cases tree with
  | leaf l => rfl
  | node kind children =>
      rw [withoutTrivia, outlineLines, outlineLines, outlineLinesOfAll_withoutTriviaOfAll]

/-- To leave trivia out of the lines is to leave it out of the trees. -/
theorem outlineLinesOfAll_withoutTriviaOfAll (depth : Nat) (trees : List Tree) :
    outlineLinesOfAll false depth trees =
      outlineLinesOfAll true depth (withoutTriviaOfAll trees) := by
  cases trees with
  | nil => rfl
  | cons tree trees =>
      have htree := outlineLines_withoutTrivia depth tree
      have htrees := outlineLinesOfAll_withoutTriviaOfAll depth trees
      rw [outlineLinesOfAll, withoutTriviaOfAll, Bool.not_false, Bool.and_true]
      split
      · exact htrees
      · rw [outlineLinesOfAll, Bool.not_true, Bool.and_false, htree, htrees]
        rfl
end

end Tree

theorem Node.leaves_withoutTrivia (node : Node) :
    node.withoutTrivia.leaves = node.leaves.filter (!·.isTrivia) :=
  leavesOfAll_withoutTriviaOfAll node.children

theorem Node.outline_withoutTrivia (node : Node) :
    node.outline false = node.withoutTrivia.outline true :=
  congrArg unlines (outlineLines_withoutTrivia 0 node.toTree)

/-- The place of a lexeme does not show in its line. -/
theorem Leaf.outline_relocate_of_mem {move : Position → Position} {ls : List Lexeme} {leaf : Leaf}
    (h : leaf ∈ ls.map Leaf.lexeme) : (leaf.relocate move).outline = leaf.outline := by
  obtain ⟨lexeme, -, rfl⟩ := List.mem_map.mp h
  cases lexeme <;> rfl

section Words

variable {a b : List Lexeme} {root root' : Node}

theorem outline_withoutPlaces_of_parse (h : parse a = .ok root) :
    root.withoutTrivia.withoutPlaces.outline true = root.outline false := by
  have hsame : root.withoutTrivia.withoutPlaces.outline true = root.withoutTrivia.outline true := by
    apply Node.outline_relocate
    intro leaf hleaf
    rw [Node.leaves_withoutTrivia, leaves_of_parse h] at hleaf
    exact Leaf.outline_relocate_of_mem (List.mem_filter.mp hleaf).1
  rw [hsame, Node.outline_withoutTrivia]

/-- Programs with the same words have the same outline without trivia. -/
theorem outline_eq_of_words (ha : parse a = .ok root) (hb : parse b = .ok root')
    (h : (significantTokens a).map Token.word = (significantTokens b).map Token.word) :
    root.outline false = root'.outline false := by
  have htrees := withoutPlaces_eq_of_words h
  rw [parse_eq_ok_iff_parsePartial.mp ha, parse_eq_ok_iff_parsePartial.mp hb] at htrees
  rw [← outline_withoutPlaces_of_parse ha, htrees, outline_withoutPlaces_of_parse hb]

end Words

namespace Command

/-- The report on a program is its outline. -/
theorem Options.reportSource_of_parse {options : Options} {source : String} {root : Node}
    (htokens : options.tokens = false)
    (h : parse (scan source (some options.sourceName)) = .ok root) :
    (options.reportSource source).stdout = root.outline options.trivia ∧
      (options.reportSource source).stderr = "" ∧ (options.reportSource source).exitCode = 0 := by
  have hparsed := parse_eq_ok_iff_parsePartial.mp h
  simp [reportSource, hparsed, htokens]

end Command

/-- To hide trivia is not to have it. The outline of a tree without trivia is that of the tree
from which the leaves that are trivia, the skipped runs and the comments, are taken out at every
depth, whether it holds faults or not. Programs with the same words have the same such
outline. So however a program is laid out anew, and whatever comments it gets, it stays a
program, and without options what is printed of it stays the same. -/
theorem outline_hides_trivia :
    (∀ leaf : Leaf, leaf.isTrivia ↔ (∃ s, leaf = .lexeme (.skipped s)) ∨
      ∃ t : Token, leaf = t.leaf ∧ t.kind = .comment) ∧
    (∀ node : Node, node.withoutTrivia.leaves = node.leaves.filter (!·.isTrivia) ∧
      node.outline false = node.withoutTrivia.outline true) ∧
    (∀ a b root root', parse a = .ok root → parse b = .ok root' →
      (significantTokens a).map Token.word = (significantTokens b).map Token.word →
      root.outline false = root'.outline false) ∧
    ∀ (options : Command.Options) (source source' : String) (root : Node),
      options.tokens = false → options.trivia = false →
      parse (scan source (some options.sourceName)) = .ok root →
      (significantTokens (scan source (some options.sourceName))).map Token.word =
        (significantTokens (scan source' (some options.sourceName))).map Token.word →
      (options.reportSource source').stdout = (options.reportSource source).stdout ∧
        (options.reportSource source').stderr = (options.reportSource source).stderr ∧
        (options.reportSource source').exitCode = (options.reportSource source).exitCode := by
  refine ⟨fun _ => Leaf.isTrivia_iff,
    fun node => ⟨node.leaves_withoutTrivia, node.outline_withoutTrivia⟩,
    fun _ _ _ _ ha hb h => outline_eq_of_words ha hb h, ?_⟩
  intro options source source' root htokens htrivia hparse hwords
  obtain ⟨root', hparse', -⟩ := exists_parse_of_words hwords hparse
  have houtline := outline_eq_of_words hparse hparse' hwords
  obtain ⟨hout, herr, hcode⟩ := Command.Options.reportSource_of_parse htokens hparse
  obtain ⟨hout', herr', hcode'⟩ := Command.Options.reportSource_of_parse htokens hparse'
  rw [htrivia] at hout hout'
  exact ⟨by rw [hout, hout', houtline], by rw [herr, herr'], by rw [hcode, hcode']⟩

/-- A loop on one line, and over several lines with comments. -/
theorem outline_hides_trivia_loop :
    let source := "for i = 1, 2, 3 do f(i) end"
    let commented := "for i = -- count\n  1, 2, 3\ndo\tf( i ) -- call\nend -- done"
    ∃ root root', parse (scan source (some "stdin")) = .ok root ∧
      parse (scan commented (some "stdin")) = .ok root' ∧
      root.outline false = root'.outline false ∧
      (({} : Command.Options).reportSource commented).stdout =
        (({} : Command.Options).reportSource source).stdout := by
  intro source commented
  obtain ⟨root, hparse⟩ := exists_of_parse_isOk (scan source (some "stdin")) (by decide +kernel)
  obtain ⟨root', hparse'⟩ :=
    exists_of_parse_isOk (scan commented (some "stdin")) (by decide +kernel)
  have hwords : (significantTokens (scan source (some "stdin"))).map Token.word =
      (significantTokens (scan commented (some "stdin"))).map Token.word := by decide +kernel
  obtain ⟨-, -, houtline, hreport⟩ := outline_hides_trivia
  exact ⟨root, root', hparse, hparse', houtline _ _ root root' hparse hparse' hwords,
    (hreport {} source commented root rfl rfl hparse hwords).1⟩

end ScriptSyntax
