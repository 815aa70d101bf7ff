import ScriptSyntax.Proofs.Acceptance
import ScriptSyntax.Proofs.Truncation

/-!
Statements by themselves. A statement at any depth is dressed with lexemes that
stand together, and from these alone it is read again: what a production reads does
not depend on what is behind it. Its text also scans to these lexemes, because a
statement ends with `)`, which is part of no word, or with `end`, which is a keyword
only where its word ends. So the text of a statement is a program of its own, and
its tree is that of the statement, with positions counted from its beginning.
-/

namespace ScriptSyntax

open ScriptSyntax.Tree Segment

/-- Dressed statements are the parse of their lexemes. -/
theorem parse_of_dressing {trees dressed : List Tree} {lexemes rest : List Lexeme}
    (h : ∀ tree ∈ trees, Conforms .statement tree) (hdressing : Dressing trees lexemes dressed)
    (hrest : significantTokens rest = []) :
    parse (lexemes ++ rest) = .ok ⟨.body, dressed ++ rest.map Tree.lexeme⟩ := by
  have hreads : Production.statements.Reads trees [] := by
    apply Phrase.reads_statements
    · intro tree htree
      exact Phrase.readBack_of_conforms (h tree htree)
    · simp [Phrase.ClosesBlock]
  have hrun : Production.statements (.ofLexemes (lexemes ++ rest)) = ⟨dressed, rest, .ok ()⟩ :=
    hreads lexemes dressed hdressing rest _ hrest
  have hprogram := Production.program_of_nil (c := .ofLexemes (lexemes ++ rest))
    (by rw [hrun]) (by rw [hrun]; exact hrest)
  rw [parse_eq_ok_iff, hprogram, hrun]
  exact ⟨rfl, rfl⟩

/-- A parse is the dressing of the statements that it has, trivia aside. -/
theorem exists_dressing_of_parse {lexemes : List Lexeme} {root : Node}
    (h : parse lexemes = .ok root) :
    ∃ trees dressed front rest, (∀ tree ∈ trees, Conforms .statement tree) ∧
      Dressing trees front dressed ∧ significantTokens rest = [] ∧ lexemes = front ++ rest ∧
      root = ⟨.body, dressed ++ rest.map Tree.lexeme⟩ := by
  have hstatements : ∀ tree ∈ root.withoutTrivia.children, Conforms .statement tree := by
    obtain ⟨hresult, rfl⟩ := parse_eq_ok_iff.mp h
    exact Production.builds_program hresult
  have hdressable : Dressable root.withoutTrivia.children :=
    dressable_of_forall fun tree htree => dressable_of_conforms (hstatements tree htree)
  have htokens : significantTokens lexemes = tokensOfAll root.withoutTrivia.children ++ [] := by
    rw [← tokens_of_parse h, List.append_nil]
    rfl
  obtain ⟨front, rest, dressed, rfl, hrest, hdressing⟩ := hdressable lexemes [] htokens
  have hsame := parse_of_dressing hstatements hdressing hrest
  rw [h] at hsame
  exact ⟨_, dressed, front, rest, hstatements, hdressing, hrest, rfl, Except.ok.inj hsame⟩

/-- The nodes of statements in a tree of the schema are statements of the schema. -/
theorem Conforms.statement_of_occurs {symbol : Symbol} {tree : Tree} (h : Conforms symbol tree)
    {kind : NodeKind} {children : List Tree} (hkind : kind.IsStatement) :
    Occurs (.node kind children) tree → Conforms .statement (.node kind children) := by
  apply h.tree_induction
  · intro t _ hin
    exact absurd hin not_occurs_leaf
  · intro outer below _ hstatement hbelow hin
    cases hin with
    | whole => exact hstatement hkind
    | inside hmem hin => exact hbelow _ hmem hin

/-- A statement ends with a parenthesis or with `end`. -/
theorem Conforms.exists_closing {kind : NodeKind} {children : List Tree}
    (h : Conforms .statement (.node kind children)) :
    ∃ front t, children = front ++ [.token t] ∧ (t.Operator ")" ∨ t.Keyword "end") := by
  cases h with
  | @call f l r e _ _ _ hr =>
      exact ⟨[.node .lhs [.token f], .token l, e], r, rfl, .inl hr⟩
  | @forLoop w x q m n d z first limit step body _ _ _ _ _ _ _ _ _ _ hz =>
      exact ⟨[.token w, .node .lhs [.token x], .token q, first, .token m, limit, .token n, step,
        .token d, body], z, rfl, .inr hz⟩
  | @conditional w t z test body branches last _ _ _ _ _ _ hz =>
      exact ⟨[.token w, test, .token t, body] ++ branches ++ last.toList, z, rfl, .inr hz⟩

theorem Tree.Dressing.exists_closing {trees dressed : List Tree} {t : Token}
    {lexemes : List Lexeme} (h : Dressing (trees ++ [.token t]) lexemes dressed) :
    ∃ front, lexemes = front ++ [.token t] := by
  obtain ⟨front, back, _, _, rfl, -, -, hlast⟩ := h.of_append
  cases hlast with
  | @token _ run _ _ _ _ _ hmore =>
      cases hmore
      exact ⟨front ++ run, by simp⟩

/-- A statement in a parse has the leaves of some lexemes that stand together, and is what
these lexemes are parsed to. -/
theorem exists_excerpt_of_parse {lexemes : List Lexeme} {root node : Node}
    (h : parse lexemes = .ok root) (hkind : node.kind.IsStatement)
    (hin : Occurs node.toTree root.toTree) :
    ∃ before front t after, lexemes = before ++ (front ++ [.token t]) ++ after ∧
      (t.Operator ")" ∨ t.Keyword "end") ∧
      node.leaves = (front ++ [.token t]).map .lexeme ∧
      parse (front ++ [.token t]) = .ok ⟨.body, [node.toTree]⟩ := by
  obtain ⟨kind, children⟩ := node
  obtain ⟨trees, dressed, lexemes, rest, htrees, hdressing, -, rfl, rfl⟩ :=
    exists_dressing_of_parse h
  have hbelow : ∃ tree ∈ dressed, Occurs (.node kind children) tree := by
    cases hin with
    | whole => exact absurd hkind (show ¬ NodeKind.IsStatement .body by decide)
    | @inside _ _ tree hmem hin =>
        rcases List.mem_append.mp hmem with hmem | hmem
        · exact ⟨tree, hmem, hin⟩
        · exact absurd hin (not_occurs_of_mem_lexemes hmem)
  obtain ⟨tree, htree, hin⟩ := hbelow
  obtain ⟨below, before, mid, after, ⟨other, hother, hinside⟩, rfl, hmid⟩ :=
    hdressing.hasDressed htree hin
  have hconforms := (htrees other hother).statement_of_occurs hkind hinside
  have hparse : parse mid = .ok ⟨.body, [.node kind children]⟩ := by
    have hsingle : ∀ tree ∈ [Tree.node kind below], Conforms .statement tree := by
      simpa using hconforms
    have halone : parse (mid ++ []) = .ok ⟨.body, [.node kind children] ++ []⟩ :=
      parse_of_dressing hsingle hmid rfl
    simpa using halone
  have hleaves : leavesOfAll children = mid.map .lexeme := by
    simpa [leavesOfAll, leaves] using hmid.leaves_eq
  obtain ⟨trees, t, rfl, ht⟩ := hconforms.exists_closing
  obtain ⟨front, rfl⟩ : ∃ front, mid = front ++ [.token t] := by
    cases hmid with
    | node _ hbelow hmore =>
        cases hmore
        rw [List.append_nil]
        exact hbelow.exists_closing
    | expr => exact absurd hkind (show ¬ NodeKind.IsStatement .expr by decide)
  exact ⟨before, front, t, after ++ rest, by simp, ht, hleaves, hparse⟩

/-- Behind a statement no word goes on. -/
theorem cleanCut_of_closing {source : String} {file : Option String}
    {before front after : List Lexeme} {t : Token}
    (h : scan source file = before ++ (front ++ [.token t]) ++ after)
    (ht : t.Operator ")" ∨ t.Keyword "end") :
    CleanCut (textOfAll ((front ++ [Lexeme.token t]).map Lexeme.segment))
      (textOfAll (after.map Lexeme.segment)) := by
  rcases ht with ⟨_, hvalue⟩ | ⟨hkind, _⟩
  · intro c hc hword
    have hclosing : c = ')' := by
      simpa [textOfAll, Lexeme.segment, Segment.text, hvalue, eq_comm] using hc
    rw [hclosing] at hword
    exact absurd hword (by decide)
  · have hkeyword : scan source file = (before ++ front) ++ .token t :: after := by simpa using h
    exact fun _ _ _ => wordEnds_of_scan hkeyword hkind

/-- The text of a statement, at any depth, is a program: it parses to the statement alone,
with all positions counted from its first leaf. -/
theorem statement_stands_alone (source : String) (file : Option String) (root node : Node)
    (hshort : source.utf8ByteSize < UInt32.size)
    (hparse : parse (scan source file) = .ok root)
    (hkind : node.kind = .forLoop ∨ node.kind = .conditional ∨ node.kind = .call)
    (hin : Occurs node.toTree root.toTree) :
    ∃ first, node.leaves.head? = some (.lexeme first) ∧
      (∀ leaf ∈ node.leaves, ∃ lexeme, leaf = .lexeme lexeme ∧
        first.span.start.offset ≤ lexeme.span.start.offset ∧
        first.span.start.offset ≤ lexeme.span.stop.offset) ∧
      parse (scan node.sourceText file) =
        .ok ⟨.body, [(node.relocate (.back first.span.start.offset)).toTree]⟩ := by
  have hstatement : node.kind.IsStatement := by simpa [NodeKind.IsStatement] using hkind
  obtain ⟨before, front, t, after, hscan, ht, hleaves, halone⟩ :=
    exists_excerpt_of_parse hparse hstatement hin
  have hcut := cleanCut_of_closing hscan ht
  obtain ⟨first, more, hfirst⟩ : ∃ first more, front ++ [.token t] = first :: more :=
    List.exists_cons_of_ne_nil (by simp)
  rw [hfirst] at hscan hleaves halone hcut
  have hbehind : scan source file = before ++ first :: (more ++ after) := by simpa using hscan
  have hstart : first.span.start.offset = .ofNat (Lexeme.bytesOfAll before) := by
    rw [span_of_scan hbehind]
    rfl
  refine ⟨first, by rw [hleaves]; rfl, ?_, ?_⟩
  · intro leaf hleaf
    rw [hleaves] at hleaf
    obtain ⟨lexeme, hlexeme, rfl⟩ := List.mem_map.mp hleaf
    exact ⟨lexeme, rfl, start_le_of_scan hshort hbehind (List.mem_append_left after hlexeme)⟩
  · have htext : node.sourceText = String.join ((first :: more).map Lexeme.text) := by
      rw [Node.sourceText, hleaves, List.map_map]
      rfl
    rw [htext, scan_join_text hscan hcut, hstart]
    exact parse_relocate _ halone

/-- The call in `if a then -- é\n f(1)end` begins with the comment in front of its name. -/
theorem statement_stands_alone_branch :
    let source := "if a then -- é\n f(1)end"
    let text := " -- é\n f(1)"
    source.utf8ByteSize < UInt32.size ∧
      ∃ root node : Node, parse (scan source none) = .ok root ∧ node.kind = .call ∧
        Occurs node.toTree root.toTree ∧ node.sourceText = text ∧
        parse (scan text none) = .ok ⟨.body, [(node.relocate (.back 9)).toTree]⟩ := by
  intro source text
  have hshort : source.utf8ByteSize < UInt32.size := by decide
  obtain ⟨root, hparse⟩ := exists_of_parse_isOk (scan source none) (by decide +kernel)
  have hfound : ((parse (scan source none)).toOption.bind fun root =>
      (root.child? .conditional).bind fun branch => (branch.child? .body).bind fun body =>
        (body.child? .call).bind fun node => (node.leaves.head?.bind Leaf.lexeme?).map fun first =>
          (node.sourceText, first.span.start.offset)) = some (text, 9) := by
    decide +kernel
  rw [hparse] at hfound
  simp only [Except.toOption, Option.bind_some, Option.bind_eq_some_iff, Option.map_eq_some_iff,
    Prod.mk.injEq] at hfound
  obtain ⟨branch, hbranch, body, hbody, node, hnode, first, ⟨leaf, hhead, hfirst⟩, htext, hstart⟩ :=
    hfound
  obtain ⟨hcall, hkind⟩ := Node.mem_of_child? hnode
  have hin : Occurs node.toTree root.toTree :=
    .inside (Node.mem_of_child? hbranch).1
      (.inside (Node.mem_of_child? hbody).1 (.inside hcall .whole))
  obtain ⟨other, hother, -, halone⟩ :=
    statement_stands_alone source none root node hshort hparse (.inr (.inr hkind)) hin
  obtain rfl : other = first := by
    rw [hother] at hhead
    cases hhead
    exact Option.some.inj hfirst
  rw [htext, hstart] at halone
  exact ⟨hshort, root, node, hparse, hkind, hin, htext, halone⟩

end ScriptSyntax
