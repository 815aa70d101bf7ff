import ScriptSyntax.Proofs.Excerpts

/-!
Where trivia is attached. A dressed list of trees has trivia only in front of tokens, so in a
node trivia is followed by a token, or by the operand of an expression, whose first token has
the trivia in front of the whole expression. A block is read without looking for tokens of its
own: the trivia in front of a statement is in the statement, and the trivia in front of what
closes the block is in the node around it. What is left behind the last token goes to the root.

Each leaf has a parent, told by the leaves in front of it and behind it. The first leaf of a
run of trivia has the rest of the run, and what the run is followed by, next to it.
-/

namespace ScriptSyntax

open ScriptSyntax.Tree

theorem significantTokens_eq_nil_iff {lexemes : List Lexeme} :
    significantTokens lexemes = [] ↔ ∀ lexeme ∈ lexemes, lexeme.isTrivia := by
  simp [significantTokens, Lexeme.isTrivia]

theorem Token.not_isTrivia_leaf {t : Token} (h : t.isSignificant) : ¬ t.leaf.isTrivia := by
  simp [Leaf.isTrivia, Lexeme.isTrivia, Lexeme.significant?, h]

theorem Token.Atom.kind_ne_operator {t : Token} (h : t.Atom) : t.kind ≠ .operator := by
  rcases h with h | h | h <;> simp [h]

namespace Tree

/-! Parts of a tree and the leaves around them. -/

/-- Is the tree, or stands somewhere in it, with these leaves in front of it and behind it. -/
inductive Stands (part : Tree) : List Leaf → List Leaf → Tree → Prop where
  | whole : Stands part [] [] part
  | inside {left right : List Leaf} {kind : NodeKind} {front back : List Tree} {child : Tree}
      (h : Stands part left right child) :
      Stands part (leavesOfAll front ++ left) (right ++ leavesOfAll back)
        (.node kind (front ++ child :: back))

theorem Stands.occurs {part tree : Tree} {left right : List Leaf}
    (h : Stands part left right tree) : Occurs part tree := by
  induction h with
  | whole => exact .whole
  | inside _ ih => exact .inside (by simp) ih

/-- What stands in a tree is the tree or has a parent there. -/
theorem Stands.eq_or_exists_parent {part tree : Tree} {left right : List Leaf}
    (h : Stands part left right tree) :
    (part = tree ∧ left = [] ∧ right = []) ∨
      ∃ kind front back before after,
        Stands (.node kind (front ++ part :: back)) before after tree ∧
        left = before ++ leavesOfAll front ∧ right = leavesOfAll back ++ after := by
  induction h with
  | whole => exact .inl ⟨rfl, rfl, rfl⟩
  | @inside left right kind front back child h ih =>
      rcases ih with ⟨rfl, rfl, rfl⟩ | ⟨inner, first, last, before, after, hparent, rfl, rfl⟩
      · exact .inr ⟨kind, front, back, [], [], .whole, by simp, by simp⟩
      · exact .inr ⟨inner, first, last, _, _, hparent.inside, by simp, by simp⟩

mutual
theorem stands_of_leaves {tree : Tree} {leaf : Leaf} {before after : List Leaf}
    (h : tree.leaves = before ++ leaf :: after) : Stands (.leaf leaf) before after tree := by
  cases tree with
  | leaf other =>
      obtain ⟨rfl, rfl, rfl⟩ : before = [] ∧ leaf = other ∧ after = [] := by
        simpa [leaves, List.singleton_eq_append_iff] using h
      exact .whole
  | node kind children =>
      obtain ⟨front, child, back, left, right, rfl, rfl, rfl, hchild⟩ := stands_of_leavesOfAll h
      exact hchild.inside

/-- Each leaf of some trees stands in one of them. -/
theorem stands_of_leavesOfAll {trees : List Tree} {leaf : Leaf} {before after : List Leaf}
    (h : leavesOfAll trees = before ++ leaf :: after) :
    ∃ front child back left right, trees = front ++ child :: back ∧
      before = leavesOfAll front ++ left ∧ after = right ++ leavesOfAll back ∧
      Stands (.leaf leaf) left right child := by
  cases trees with
  | nil => simp [leavesOfAll] at h
  | cons tree trees =>
      rcases exists_of_append_eq_append_cons h with ⟨left, rfl, hmore⟩ | ⟨right, htree, rfl⟩
      · obtain ⟨front, child, back, left, right, rfl, rfl, rfl, hchild⟩ :=
          stands_of_leavesOfAll hmore
        exact ⟨tree :: front, child, back, left, right, rfl, by simp [leavesOfAll], rfl, hchild⟩
      · exact ⟨[], tree, trees, before, right, rfl, rfl, rfl, stands_of_leaves htree⟩
end

/-! Trivia and what comes next. -/

/-- Is the token, or an expression that has it as the first leaf. -/
def BeginsWith (t : Token) (tree : Tree) : Prop :=
  tree = .token t ∨ ∃ below, tree = .node .expr below ∧ tree.leaves.head? = some t.leaf

theorem BeginsWith.exists_leaves {t : Token} {tree : Tree} (h : BeginsWith t tree) :
    ∃ more, tree.leaves = t.leaf :: more := by
  rcases h with rfl | ⟨below, -, hhead⟩
  · exact ⟨[], rfl⟩
  · exact List.head?_eq_some_iff.mp hhead

theorem BeginsWith.not_isTrivia {t : Token} {tree : Tree} (h : BeginsWith t tree)
    (ht : t.isSignificant) : ¬ tree.isTrivia := by
  rcases h with rfl | ⟨below, rfl, -⟩
  · exact Token.not_isTrivia_leaf ht
  · simp [isTrivia]

/-- Each trivia is followed by no more than trivia up to a tree that begins with a token. -/
def Forward : List Tree → Prop
  | [] => True
  | tree :: trees =>
      (tree.isTrivia → ∃ run next more t, trees = run.map Tree.lexeme ++ next :: more ∧
        significantTokens run = [] ∧ t.isSignificant ∧ BeginsWith t next) ∧ Forward trees

namespace Forward

theorem cons {tree : Tree} {trees : List Tree} (htree : ¬ tree.isTrivia) (h : Forward trees) :
    Forward (tree :: trees) :=
  ⟨fun htrivia => absurd htrivia htree, h⟩

theorem of_append {front back : List Tree} (h : Forward (front ++ back)) : Forward back := by
  induction front with
  | nil => exact h
  | cons tree front ih => exact ih h.2

theorem run {run : List Lexeme} {t : Token} {next : Tree} {more : List Tree}
    (hrun : significantTokens run = []) (ht : t.isSignificant) (hnext : BeginsWith t next)
    (h : Forward more) : Forward (run.map Tree.lexeme ++ next :: more) := by
  induction run with
  | nil => exact cons (hnext.not_isTrivia ht) h
  | cons lexeme run ih =>
      have hmore : significantTokens run = [] := by
        rw [← List.singleton_append, significantTokens_append] at hrun
        exact (List.append_eq_nil_iff.mp hrun).2
      exact ⟨fun _ => ⟨run, next, more, t, rfl, hmore, ht, hnext⟩, ih hmore⟩

/-- Trivia is never the last. -/
theorem getLast_not_trivia {trees : List Tree} (h : Forward trees) :
    ∀ tree ∈ trees.getLast?, ¬ tree.isTrivia := by
  intro tree hlast htrivia
  obtain ⟨front, rfl⟩ := List.getLast?_eq_some_iff.mp hlast
  obtain ⟨run, next, more, t, hnext, -⟩ := h.of_append.1 htrivia
  simp at hnext

end Forward

theorem Dressing.forward {bare dressed : List Tree} {lexemes : List Lexeme}
    (h : Dressing bare lexemes dressed) : Forward dressed := by
  induction h with
  | nil => trivial
  | token ht hrun _ ih => exact .run hrun ht (.inl rfl) ih
  | node _ _ _ _ ih => exact .cons nofun ih
  | expr _ _ _ _ _ ih => exact .cons nofun ih

/-! The nodes of a dressed tree. -/

/-- Is the node of a statement. -/
def IsStatement : Tree → Prop
  | .node kind _ => kind.IsStatement
  | .leaf _ => False

end Tree

theorem Conforms.ne_token {symbol : Symbol} {tree : Tree} (h : Conforms symbol tree) (t : Token) :
    tree ≠ .token t := by
  rintro rfl
  cases h

theorem Conforms.isStatement {tree : Tree} (h : Conforms .statement tree) : tree.IsStatement := by
  cases h <;> simp [Tree.IsStatement, NodeKind.IsStatement]

namespace Tree

/-- What attached trivia leaves of the children of a node: none of them is trivia that nothing
follows, those of a body are statements, and a token that is an operand is by itself. -/
structure Attaches (kind : NodeKind) (children : List Tree) : Prop where
  forward : Forward children
  statements : kind = .body → ∀ child ∈ children, child.IsStatement
  alone : kind = .expr → ∀ t : Token, t.Atom → .token t ∈ children → children = [.token t]

/-- Trivia is attached in all nodes of the tree. -/
def Attached (tree : Tree) : Prop :=
  ∀ kind children, Occurs (.node kind children) tree → Attaches kind children

theorem attached_leaf (leaf : Leaf) : Attached (.leaf leaf) :=
  fun _ _ hin => absurd hin not_occurs_leaf

theorem Attaches.attached {kind : NodeKind} {children : List Tree} (h : Attaches kind children)
    (hchildren : ∀ child ∈ children, Attached child) : Attached (.node kind children) := by
  intro inner below hin
  cases hin with
  | whole => exact h
  | inside hmem hin => exact hchildren _ hmem inner below hin

theorem attached_of_mem_lexemes {run : List Lexeme} {tree : Tree}
    (h : tree ∈ run.map Tree.lexeme) : Attached tree := by
  obtain ⟨lexeme, -, rfl⟩ := List.mem_map.mp h
  exact attached_leaf _

theorem token_not_mem_run {run : List Lexeme} {t : Token} (hrun : significantTokens run = [])
    (ht : t.isSignificant) : .token t ∉ run.map Tree.lexeme := by
  intro hmem
  obtain ⟨lexeme, hlexeme, heq⟩ := List.mem_map.mp hmem
  cases heq
  have hin : t ∈ significantTokens run :=
    List.mem_filterMap.mpr ⟨_, hlexeme, Lexeme.significant?_eq_some_iff.mpr ⟨rfl, ht⟩⟩
  rw [hrun] at hin
  cases hin

namespace Dressing

variable {bare dressed : List Tree} {lexemes : List Lexeme}

theorem isStatement (h : Dressing bare lexemes dressed) (hbare : ∀ tree ∈ bare, tree.IsStatement) :
    ∀ tree ∈ dressed, tree.IsStatement := by
  induction h with
  | nil => exact hbare
  | token => exact (hbare _ List.mem_cons_self).elim
  | node _ _ _ _ ih =>
      obtain ⟨hfirst, hmore⟩ := List.forall_mem_cons.mp hbare
      exact List.forall_mem_cons.mpr ⟨hfirst, ih hmore⟩
  | expr =>
      have hexpr : NodeKind.IsStatement .expr := hbare _ List.mem_cons_self
      exact absurd hexpr (by decide)

/-- The significant tokens among the trees were there before. -/
theorem mem_of_token {t : Token} (ht : t.isSignificant) (h : Dressing bare lexemes dressed)
    (hmem : .token t ∈ dressed) : .token t ∈ bare := by
  induction h with
  | nil => exact hmem
  | @token u run _ _ _ _ hrun _ ih =>
      rcases List.mem_append.mp hmem with hmem | hmem
      · exact absurd hmem (token_not_mem_run hrun ht)
      · rcases List.mem_cons.mp hmem with heq | hmem
        · exact heq ▸ List.mem_cons_self
        · exact List.mem_cons_of_mem _ (ih hmem)
  | node _ _ _ _ ih | expr _ _ _ _ _ ih =>
      rcases List.mem_cons.mp hmem with heq | hmem
      · cases heq
      · exact List.mem_cons_of_mem _ (ih hmem)

/-- Operands that are tokens are not next to other trees. -/
theorem attaches_expr (h : Dressing bare lexemes dressed)
    (hbare : ∀ t : Token, t.Atom → .token t ∉ bare) : Attaches .expr dressed :=
  ⟨h.forward, nofun, fun _ t ht hmem => absurd (h.mem_of_token ht.isSignificant hmem) (hbare t ht)⟩

/-- Behind the last token no trivia is taken. -/
theorem getLast_not_trivia (h : Dressing bare lexemes dressed) :
    ∀ lexeme ∈ lexemes.getLast?, ¬ lexeme.isTrivia := by
  have happend {front back : List Lexeme} (hfront : ∀ lexeme ∈ front.getLast?, ¬ lexeme.isTrivia)
      (hback : ∀ lexeme ∈ back.getLast?, ¬ lexeme.isTrivia) :
      ∀ lexeme ∈ (front ++ back).getLast?, ¬ lexeme.isTrivia := by
    intro lexeme hlast
    rw [List.getLast?_append, Option.mem_def, Option.or_eq_some_iff] at hlast
    rcases hlast with hlast | ⟨-, hlast⟩
    · exact hback lexeme hlast
    · exact hfront lexeme hlast
  induction h with
  | nil => simp
  | @token t run lexemes _ _ ht _ _ ih =>
      rw [List.append_cons]
      apply happend _ ih
      simp [Lexeme.isTrivia, Lexeme.significant?, ht]
  | node _ _ _ ihbelow ih => exact happend ihbelow ih
  | expr _ _ _ _ ihbelow ih =>
      apply happend _ ih
      rwa [List.getLast?_append_of_ne_nil _ (by simp)]

end Dressing

/-! Trees of the schema. -/

/-- However they are dressed, trivia is attached in the trees. -/
def Attachable (bare : List Tree) : Prop :=
  ∀ lexemes dressed, Dressing bare lexemes dressed → ∀ tree ∈ dressed, Attached tree

/-- The children of an operand, which is read from its first token on: however they are dressed
without trivia in front, it is attached in the operand. -/
def LeadAttachable (bare : List Tree) : Prop :=
  ∀ t lexemes dressed, t.isSignificant → Dressing bare (.token t :: lexemes) dressed →
    Attached (.node .expr dressed)

theorem attachable_of_forall {bare : List Tree} (h : ∀ tree ∈ bare, Attachable [tree]) :
    Attachable bare := by
  induction bare with
  | nil =>
      intro lexemes dressed hdressing
      cases hdressing
      simp
  | cons tree bare ih =>
      intro lexemes dressed hdressing
      obtain ⟨hfirst, hmore⟩ := List.forall_mem_cons.mp h
      rw [← List.singleton_append] at hdressing
      obtain ⟨front, back, first, second, rfl, rfl, hleft, hright⟩ := hdressing.of_append
      exact List.forall_mem_append.mpr ⟨hfirst front first hleft, ih hmore back second hright⟩

theorem attachable_token (t : Token) : Attachable [.token t] := by
  intro lexemes dressed hdressing
  cases hdressing with
  | token _ _ hmore =>
      cases hmore
      rw [List.forall_mem_append]
      exact ⟨fun _ => attached_of_mem_lexemes, by simpa using attached_leaf _⟩

theorem attachable_node {kind : NodeKind} {children : List Tree} (hkind : kind ≠ .expr)
    (hbody : kind = .body → ∀ child ∈ children, child.IsStatement)
    (h : ∀ child ∈ children, Attachable [child]) : Attachable [.node kind children] := by
  intro lexemes dressed hdressing
  cases hdressing with
  | expr => exact absurd rfl hkind
  | @node _ front _ _ _ inner _ _ hbelow hmore =>
      cases hmore
      have hattaches : Attaches kind inner :=
        ⟨hbelow.forward, fun heq => hbelow.isStatement (hbody heq), fun heq => absurd heq hkind⟩
      have hchildren := attachable_of_forall h front inner hbelow
      simpa using hattaches.attached hchildren

/-- The trivia in front of an operand is in the expression around it. -/
theorem LeadAttachable.attachable {below : List Tree} (h : LeadAttachable below) :
    Attachable [.node .expr [.node .expr below]] := by
  intro lexemes dressed hdressing
  cases hdressing with
  | node hkind => exact absurd rfl hkind
  | @expr t run front _ _ _ _ _ ht hrun hoperand hmore =>
      cases hmore
      obtain ⟨inner, rfl, hbelow⟩ := hoperand.of_expr ht
      have hnext : BeginsWith t (.node .expr inner) := by
        refine .inr ⟨inner, rfl, ?_⟩
        rw [leaves, hbelow.leaves_eq]
        rfl
      have hattaches : Attaches .expr (run.map Tree.lexeme ++ [.node .expr inner]) := by
        refine ⟨.run hrun ht hnext trivial, nofun, ?_⟩
        intro _ u hu hmem
        rcases List.mem_append.mp hmem with hmem | hmem
        · exact absurd hmem (token_not_mem_run hrun hu.isSignificant)
        · simp at hmem
      have hchildren : ∀ child ∈ run.map Tree.lexeme ++ [.node .expr inner], Attached child := by
        rw [List.forall_mem_append]
        exact ⟨fun _ => attached_of_mem_lexemes, by simpa using h t front inner ht hbelow⟩
      simpa using hattaches.attached hchildren

theorem leadAttachable_atom {t : Token} (ht : t.isSignificant) : LeadAttachable [.token t] := by
  intro u lexemes dressed hu hdressing
  have htokens := hdressing.significantTokens_eq
  rw [significantTokens_cons_token hu, tokensOfAll_cons, tokens_token ht] at htokens
  obtain ⟨rfl, -⟩ := List.cons.inj htokens
  obtain ⟨-, rfl⟩ := hdressing.of_token hu
  have hattaches : Attaches .expr [.token u] := by
    refine ⟨hdressing.forward, nofun, ?_⟩
    intro _ v _ hmem
    rw [List.mem_singleton.mp hmem]
  exact hattaches.attached (by simpa using attached_leaf _)

theorem leadAttachable_group {l r : Token} {e : Tree} (hl : l.Operator "(") (hr : r.Operator ")")
    (he : Conforms .expr e) (hattachable : Attachable [e]) :
    LeadAttachable [.token l, e, .token r] := by
  intro t lexemes dressed _ hdressing
  have hattaches : Attaches .expr dressed := by
    apply hdressing.attaches_expr
    intro u hu hmem
    rcases hmem with _ | ⟨_, _ | ⟨_, _ | ⟨_, hmem⟩⟩⟩
    · exact hu.kind_ne_operator hl.1
    · exact he.ne_token u rfl
    · exact hu.kind_ne_operator hr.1
    · cases hmem
  have hall : ∀ tree ∈ [.token l, e, .token r], Attachable [tree] := by
    simp [attachable_token, hattachable]
  exact hattaches.attached (attachable_of_forall hall _ dressed hdressing)

theorem leadAttachable_operation {b : Token} {e : Tree} {below : List Tree} (hb : b.Binary)
    (ho : Conforms .operand (.node .expr below)) (hbelow : LeadAttachable below)
    (he : Conforms .expr e) (hattachable : Attachable [e]) :
    LeadAttachable [.node .expr below, .token b, e] := by
  intro t lexemes dressed ht hdressing
  have hattaches : Attaches .expr dressed := by
    apply hdressing.attaches_expr
    intro u hu hmem
    rcases hmem with _ | ⟨_, _ | ⟨_, _ | ⟨_, hmem⟩⟩⟩
    · exact hu.kind_ne_operator hb.1
    · exact he.ne_token u rfl
    · cases hmem
  apply hattaches.attached
  -- the operand is read from the first token on, and the rest like any other trees
  rw [← List.singleton_append] at hdressing
  obtain ⟨front, back, first, second, rfl, rfl, hfirst, hsecond⟩ :=
    hdressing.of_append_token (by simpa using ho.tokens_ne_nil nofun)
  obtain ⟨inner, rfl, hinner⟩ := hfirst.of_expr ht
  have hrest : ∀ tree ∈ [.token b, e], Attachable [tree] := by
    simp [attachable_token, hattachable]
  rw [List.forall_mem_append]
  exact ⟨by simpa using hbelow t front inner ht hinner,
    attachable_of_forall hrest back second hsecond⟩

theorem attachable_of_conforms {tree : Tree} (h : Conforms .statement tree) :
    Attachable [tree] := by
  apply h.operand_induction fun tree => ∃ below, tree = .node .expr below ∧ LeadAttachable below
  · intro t _
    exact attachable_token t
  · intro kind children hkind _ hbody hchildren
    refine attachable_node hkind ?_ hchildren
    intro heq child hchild
    exact (hbody heq child hchild).isStatement
  · intro t ht
    exact ⟨_, rfl, leadAttachable_atom ht.isSignificant⟩
  · intro l r e hl hr he hattachable
    exact ⟨_, rfl, leadAttachable_group hl hr he hattachable⟩
  · rintro _ - ⟨below, rfl, hbelow⟩
    exact hbelow.attachable
  · rintro _ b e hb ho ⟨below, rfl, hbelow⟩ he hattachable
    exact (leadAttachable_operation hb ho hbelow he hattachable).attachable

/-! Runs of trivia among the leaves. -/

/-- Lists that begin with trivia up to something else are the same part by part. -/
theorem eq_of_runs_append {run run' more more' : List Leaf} {leaf leaf' : Leaf}
    (hrun : ∀ other ∈ run, other.isTrivia) (hleaf : ¬ leaf.isTrivia)
    (hrun' : ∀ other ∈ run', other.isTrivia) (hleaf' : ¬ leaf'.isTrivia)
    (h : run ++ leaf :: more = run' ++ leaf' :: more') :
    run = run' ∧ leaf = leaf' ∧ more = more' := by
  have htake := congrArg (List.takeWhile Leaf.isTrivia) h
  rw [List.takeWhile_append_of_pos hrun, List.takeWhile_append_of_pos hrun',
    List.takeWhile_cons_of_neg hleaf, List.takeWhile_cons_of_neg hleaf', List.append_nil,
    List.append_nil] at htake
  subst htake
  exact ⟨rfl, List.cons.inj (List.append_cancel_left h)⟩

/-- In a node where trivia is attached, trivia that is followed by more of it and then by a
token has all of this next to it. -/
theorem Forward.exists_next {front back : List Tree} {lexeme : Lexeme} {run : List Lexeme}
    {t : Token} {after more : List Leaf} (h : Forward (front ++ .lexeme lexeme :: back))
    (hlexeme : lexeme.isTrivia) (hrun : ∀ other ∈ run, other.isTrivia) (ht : t.isSignificant)
    (hleaves : leavesOfAll back ++ after = run.map .lexeme ++ t.leaf :: more) :
    ∃ next rest, back = run.map Tree.lexeme ++ next :: rest ∧ BeginsWith t next ∧
      leavesOfAll (next :: rest) ++ after = t.leaf :: more := by
  obtain ⟨run', next, rest, u, rfl, hrun', hu, hnext⟩ := h.of_append.1 hlexeme
  obtain ⟨below, hbelow⟩ := hnext.exists_leaves
  have hsame : run'.map Leaf.lexeme ++ u.leaf :: (below ++ leavesOfAll rest ++ after) =
      run.map .lexeme ++ t.leaf :: more := by
    rw [← hleaves, leavesOfAll_append, leavesOfAll_lexemes, leavesOfAll, hbelow]
    simp
  obtain ⟨hruns, htokens, hmore⟩ := eq_of_runs_append
    (by simpa [Leaf.isTrivia] using significantTokens_eq_nil_iff.mp hrun')
    (Token.not_isTrivia_leaf hu) (by simpa [Leaf.isTrivia] using hrun)
    (Token.not_isTrivia_leaf ht) hsame
  obtain rfl : run' = run := List.map_injective_iff.mpr (fun _ _ => Leaf.lexeme.inj) hruns
  obtain rfl : u = t := Lexeme.token.inj (Leaf.lexeme.inj htokens)
  refine ⟨next, rest, rfl, hnext, ?_⟩
  rw [leavesOfAll, hbelow, ← hmore]
  simp

end Tree

section Parsed

variable {ls : List Lexeme} {root : Node}

/-- A parse has statements and the trivia behind the last token; below the root trivia is
attached. -/
theorem exists_attached_of_parse (h : parse ls = .ok root) :
    ∃ statements front rest, root = ⟨.body, statements ++ rest.map Tree.lexeme⟩ ∧
      ls = front ++ rest ∧ (∀ lexeme ∈ front.getLast?, ¬ lexeme.isTrivia) ∧
      (∀ lexeme ∈ rest, lexeme.isTrivia) ∧
      ∀ tree ∈ statements, tree.IsStatement ∧ tree.Attached := by
  obtain ⟨trees, dressed, front, rest, htrees, hdressing, hrest, rfl, rfl⟩ :=
    exists_dressing_of_parse h
  have hattached : Attachable trees :=
    attachable_of_forall fun tree htree => attachable_of_conforms (htrees tree htree)
  have hstatements := hdressing.isStatement fun tree htree => (htrees tree htree).isStatement
  refine ⟨dressed, front, rest, rfl, rfl, hdressing.getLast_not_trivia,
    significantTokens_eq_nil_iff.mp hrest, ?_⟩
  intro tree htree
  exact ⟨hstatements tree htree, hattached front dressed hdressing tree htree⟩

theorem attaches_of_parse (h : parse ls = .ok root) {child : Tree} (hchild : child ∈ root.children)
    {kind : NodeKind} {children : List Tree} (hin : Occurs (.node kind children) child) :
    Attaches kind children := by
  obtain ⟨statements, front, rest, rfl, -, -, -, hstatements⟩ := exists_attached_of_parse h
  rcases List.mem_append.mp hchild with hchild | hchild
  · exact (hstatements child hchild).2 kind children hin
  · exact absurd hin (not_occurs_of_mem_lexemes hchild)

/-- The root has no trivia in front of a token among its children, so the parent of such trivia
is below it. -/
theorem attaches_parent (h : parse ls = .ok root) {kind : NodeKind} {front back : List Tree}
    {lexeme : Lexeme} {left right : List Leaf}
    (hparent : Stands (.node kind (front ++ .lexeme lexeme :: back)) left right root.toTree)
    (hbehind : ∃ leaf ∈ leavesOfAll back ++ right, ¬ leaf.isTrivia) :
    Attaches kind (front ++ .lexeme lexeme :: back) := by
  generalize hroot : root.toTree = tree at hparent
  cases hparent with
  | inside hparent =>
      obtain ⟨-, hchildren⟩ := Tree.node.inj hroot
      exact attaches_of_parse h (by simp [hchildren]) hparent.occurs
  | whole =>
      obtain ⟨statements, _, rest, rfl, -, -, hrest, hstatements⟩ := exists_attached_of_parse h
      obtain ⟨-, hchildren⟩ := Tree.node.inj hroot
      rcases exists_of_append_eq_append_cons hchildren with ⟨before, -, hback⟩ | ⟨more, hin, -⟩
      · obtain ⟨leaf, hleaf, hnot⟩ := hbehind
        have htrivia : ∀ leaf ∈ leavesOfAll (rest.map Tree.lexeme), leaf.isTrivia := by
          rw [leavesOfAll_lexemes]
          simpa [Leaf.isTrivia] using hrest
        refine absurd (htrivia leaf ?_) hnot
        rw [hback, List.append_cons, leavesOfAll_append]
        exact List.mem_append_right _ (by simpa using hleaf)
      · exact (hstatements (.lexeme lexeme) (by simp [hin])).1.elim

/-- A run of trivia in front of a token is in one node, in front of a tree that begins with
the token. -/
theorem exists_node_of_run (h : parse ls = .ok root) {before run after : List Lexeme} {t : Token}
    (hls : ls = before ++ run ++ .token t :: after) (hne : run ≠ [])
    (hrun : ∀ lexeme ∈ run, lexeme.isTrivia) (ht : t.isSignificant) :
    ∃ kind front next back left right,
      Stands (.node kind (front ++ run.map Tree.lexeme ++ next :: back)) left right root.toTree ∧
      left ++ leavesOfAll front = before.map .lexeme ∧
      leavesOfAll (next :: back) ++ right = (.token t :: after).map .lexeme ∧
      kind ≠ .body ∧ BeginsWith t next := by
  obtain ⟨first, run, rfl⟩ := List.exists_cons_of_ne_nil hne
  obtain ⟨hfirst, hrun⟩ := List.forall_mem_cons.mp hrun
  have hleaves : root.toTree.leaves =
      before.map .lexeme ++ .lexeme first :: (run.map .lexeme ++ t.leaf :: after.map .lexeme) := by
    have hall : root.toTree.leaves = ls.map .lexeme := leaves_of_parse h
    rw [hall, hls]
    simp
  rcases (stands_of_leaves hleaves).eq_or_exists_parent with
    ⟨heq, -⟩ | ⟨kind, front, back, left, right, hparent, hleft, hright⟩
  · cases heq
  · have hattaches : Attaches kind (front ++ .lexeme first :: back) := by
      apply attaches_parent h hparent
      exact ⟨t.leaf, by simp [← hright], Token.not_isTrivia_leaf ht⟩
    have hkind : kind ≠ .body := by
      rintro rfl
      exact (hattaches.statements rfl (.lexeme first) (by simp)).elim
    obtain ⟨next, rest, rfl, hnext, hbehind⟩ :=
      hattaches.forward.exists_next hfirst hrun ht hright.symm
    refine ⟨kind, front, next, rest, left, right, ?_, hleft.symm, hbehind, hkind, hnext⟩
    simpa using hparent

end Parsed

/-- Trivia is attached forward. A run of it in front of a token is among the children of one
node, which is no body and so not the root, and is followed there by the token or by an
expression that begins with it. What is behind the last token comes last in the root. So the
root has statements and then trivia, and of the nodes below it a body has statements only,
none has trivia as the last child, and an operand that is a token is by itself. -/
theorem trivia_attaches_forward (ls : List Lexeme) (root : Node) (h : parse ls = .ok root) :
    (∀ before run t after, ls = before ++ run ++ .token t :: after → run ≠ [] →
      (∀ lexeme ∈ run, lexeme.isTrivia) → t.isSignificant →
      ∃ kind front next back left right,
        Stands (.node kind (front ++ run.map Tree.lexeme ++ next :: back)) left right root.toTree ∧
        left ++ leavesOfAll front = before.map .lexeme ∧
        leavesOfAll (next :: back) ++ right = (.token t :: after).map .lexeme ∧
        kind ≠ .body ∧ BeginsWith t next) ∧
    (root.kind = .body ∧ ∃ statements front rest,
      root.children = statements ++ rest.map Tree.lexeme ∧
      (∀ tree ∈ statements, tree.IsStatement) ∧ ls = front ++ rest ∧
      (∀ lexeme ∈ front.getLast?, ¬ lexeme.isTrivia) ∧ ∀ lexeme ∈ rest, lexeme.isTrivia) ∧
    ∀ child ∈ root.children, ∀ kind children, Occurs (.node kind children) child →
      (kind = .body → ∀ tree ∈ children, tree.IsStatement) ∧
      (∀ tree ∈ children.getLast?, ¬ tree.isTrivia) ∧
      (kind = .expr → ∀ t : Token, t.Atom → .token t ∈ children → children = [.token t]) := by
  refine ⟨?_, ?_, ?_⟩
  · intro before run t after hls hne hrun ht
    exact exists_node_of_run h hls hne hrun ht
  · obtain ⟨statements, front, rest, rfl, hls, hlast, hrest, hstatements⟩ :=
      exists_attached_of_parse h
    exact ⟨rfl, statements, front, rest, rfl, fun tree htree => (hstatements tree htree).1, hls,
      hlast, hrest⟩
  · intro child hchild kind children hin
    have hattaches := attaches_of_parse h hchild hin
    exact ⟨hattaches.statements, hattaches.forward.getLast_not_trivia, hattaches.alone⟩

/-- The comment behind the parenthesis of the call is in front of the group, and not in it. -/
theorem trivia_attaches_forward_group :
    let ls := scan "f( -- é\n(1 -- 2\n))-- 3" none
    let run := (ls.drop 2).take 3
    let opening : Token := ⟨.operator, "(", .between "shell" 9 10⟩
    ls = ls.take 2 ++ run ++ .token opening :: ls.drop 6 ∧ run ≠ [] ∧
      (∀ lexeme ∈ run, lexeme.isTrivia) ∧ opening.isSignificant ∧
      ∃ root, parse ls = .ok root ∧
        (∃ kind front next back left right,
          Stands (.node kind (front ++ run.map Tree.lexeme ++ next :: back)) left right
            root.toTree ∧
          left ++ leavesOfAll front = (ls.take 2).map .lexeme ∧ kind ≠ .body ∧
          BeginsWith opening next) ∧
        ∃ statements front rest, root.children = statements ++ rest.map Tree.lexeme ∧
          ls = front ++ rest ∧ ∀ lexeme ∈ rest, lexeme.isTrivia := by
  intro ls run opening
  have hls : ls = ls.take 2 ++ run ++ .token opening :: ls.drop 6 := by decide +kernel
  have hne : run ≠ [] := by decide +kernel
  have hrun : ∀ lexeme ∈ run, lexeme.isTrivia := by decide +kernel
  obtain ⟨root, hparse⟩ := exists_of_parse_isOk ls (by decide +kernel)
  obtain ⟨hruns, ⟨-, statements, front, rest, hroot, -, hfront, -, hrest⟩, -⟩ :=
    trivia_attaches_forward ls root hparse
  obtain ⟨kind, first, next, back, left, right, hnode, hleft, -, hkind, hnext⟩ :=
    hruns _ run opening _ hls hne hrun rfl
  exact ⟨hls, hne, hrun, rfl, root, hparse,
    ⟨kind, first, next, back, left, right, hnode, hleft, hkind, hnext⟩,
    statements, front, rest, hroot, hfront, hrest⟩

end ScriptSyntax
