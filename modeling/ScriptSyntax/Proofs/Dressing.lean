import ScriptSyntax.Proofs.Schema

/-!
Where trivia stands in a tree. Trivia belongs to the token behind it, and stands in
front of that token in the same node. Only the first token of an expression is read
before the nodes of its operand are begun, so the trivia in front of it stands at
the front of the whole expression.

`Dressing` says how the trivia of a list of lexemes is put into trees that have none.
Every way to lay out the tokens of a tree of the schema dresses it, and the nodes of
a dressed tree are nodes of the tree, each dressed with a part of the lexemes.
-/

namespace ScriptSyntax

/-- A member of a list in two parts is in the second one or in the first. -/
theorem exists_of_append_eq_append_cons {α : Type} {front back before after : List α} {c : α}
    (h : front ++ back = before ++ c :: after) :
    (∃ left, before = front ++ left ∧ back = left ++ c :: after) ∨
      ∃ right, front = before ++ c :: right ∧ after = right ++ back := by
  rcases List.append_eq_append_iff.mp h with ⟨left, hbefore, hback⟩ | ⟨more, hfront, hmore⟩
  · exact .inl ⟨left, hbefore, hback⟩
  · cases more with
    | nil => exact .inl ⟨[], by simpa using hfront.symm, hmore.symm⟩
    | cons d right =>
        obtain ⟨rfl, hafter⟩ := List.cons.inj hmore
        exact .inr ⟨right, hfront, hafter⟩

namespace Tree

/-- Bare trees, lexemes with the same tokens, and the trees with the trivia put in. -/
inductive Dressing : List Tree → List Lexeme → List Tree → Prop where
  | nil : Dressing [] [] []
  | token {t : Token} {run lexemes : List Lexeme} {bare dressed : List Tree}
      (ht : t.isSignificant) (hrun : significantTokens run = [])
      (hmore : Dressing bare lexemes dressed) :
      Dressing (.token t :: bare) (run ++ .token t :: lexemes)
        (run.map Tree.lexeme ++ .token t :: dressed)
  | node {kind : NodeKind} {front lexemes : List Lexeme} {below bare inner dressed : List Tree}
      (hkind : kind ≠ .expr) (hbelow : Dressing below front inner)
      (hmore : Dressing bare lexemes dressed) :
      Dressing (.node kind below :: bare) (front ++ lexemes) (.node kind inner :: dressed)
  | expr {t : Token} {run front lexemes : List Lexeme} {below bare inner dressed : List Tree}
      (ht : t.isSignificant) (hrun : significantTokens run = [])
      (hbelow : Dressing below (.token t :: front) inner) (hmore : Dressing bare lexemes dressed) :
      Dressing (.node .expr below :: bare) (run ++ .token t :: front ++ lexemes)
        (.node .expr (run.map Tree.lexeme ++ inner) :: dressed)

namespace Dressing

variable {bare more dressed : List Tree} {lexemes : List Lexeme}

/-- The parts of a list of trees are dressed with parts of the lexemes. -/
theorem of_append (h : Dressing (bare ++ more) lexemes dressed) :
    ∃ front back first second, lexemes = front ++ back ∧ dressed = first ++ second ∧
      Dressing bare front first ∧ Dressing more back second := by
  induction bare generalizing lexemes dressed with
  | nil => exact ⟨[], lexemes, [], dressed, rfl, rfl, .nil, h⟩
  | cons tree bare ih =>
      cases h with
      | token ht hrun hmore =>
          obtain ⟨front, back, first, second, rfl, rfl, hfirst, hsecond⟩ := ih hmore
          exact ⟨_, back, _, second, by simp, by simp, .token ht hrun hfirst, hsecond⟩
      | node hkind hbelow hmore =>
          obtain ⟨front, back, first, second, rfl, rfl, hfirst, hsecond⟩ := ih hmore
          exact ⟨_, back, _, second, by simp, by simp, .node hkind hbelow hfirst, hsecond⟩
      | expr ht hrun hbelow hmore =>
          obtain ⟨front, back, first, second, rfl, rfl, hfirst, hsecond⟩ := ih hmore
          exact ⟨_, back, _, second, by simp, by simp, .expr ht hrun hbelow hfirst, hsecond⟩

theorem append {lexemes' : List Lexeme} {dressed' : List Tree} (h : Dressing bare lexemes dressed)
    (h' : Dressing more lexemes' dressed') :
    Dressing (bare ++ more) (lexemes ++ lexemes') (dressed ++ dressed') := by
  induction h with
  | nil => exact h'
  | token ht hrun _ ih => simpa using ih.token ht hrun
  | node hkind hbelow _ _ ih => simpa using hbelow.node hkind ih
  | expr ht hrun hbelow _ _ ih => simpa using hbelow.expr ht hrun ih

/-- The lexemes have the tokens of the bare trees. -/
theorem significantTokens_eq (h : Dressing bare lexemes dressed) :
    significantTokens lexemes = tokensOfAll bare := by
  induction h with
  | nil => rfl
  | token ht hrun _ ih =>
      simp [hrun, significantTokens_cons_token ht, tokens_token ht, ih]
  | node _ _ _ ihbelow ih => simp [ihbelow, ih]
  | expr _ hrun _ _ ihbelow ih =>
      rw [significantTokens_append, significantTokens_append, hrun, ihbelow, ih, List.nil_append,
        tokensOfAll_cons, tokens_node]

/-- All lexemes stand at the leaves, in order. -/
theorem leaves_eq (h : Dressing bare lexemes dressed) :
    leavesOfAll dressed = lexemes.map .lexeme := by
  induction h with
  | nil => rfl
  | token _ _ _ ih => simp [leavesOfAll_lexemes, leavesOfAll, leaves, ih]
  | node _ _ _ ihbelow ih => simp [leavesOfAll, leaves, ihbelow, ih]
  | expr _ _ _ _ ihbelow ih => simp [leavesOfAll, leaves, leavesOfAll_lexemes, ihbelow, ih]

/-- Without its trivia a dressed tree is bare. -/
theorem withoutTrivia_eq (h : Dressing bare lexemes dressed) :
    withoutTriviaOfAll dressed = bare := by
  induction h with
  | nil => rfl
  | token ht hrun _ ih =>
      rw [withoutTriviaOfAll_append, withoutTriviaOfAll_lexemes hrun, List.nil_append,
        ← List.singleton_append, withoutTriviaOfAll_append, withoutTriviaOfAll_token ht, ih]
      rfl
  | node _ _ _ ihbelow ih => simp [withoutTriviaOfAll, withoutTrivia, isTrivia, ihbelow, ih]
  | expr _ hrun _ _ ihbelow ih =>
      simp [withoutTriviaOfAll, withoutTrivia, isTrivia, withoutTriviaOfAll_lexemes hrun, ihbelow,
        ih]

/-! With a token in front of which there is no trivia. -/

theorem eq_of_run_append {run lexemes' : List Lexeme} {t u : Token}
    (hrun : significantTokens run = []) (ht : t.isSignificant)
    (h : Lexeme.token t :: lexemes = run ++ .token u :: lexemes') :
    run = [] ∧ t = u ∧ lexemes = lexemes' := by
  cases run with
  | nil => simpa using h
  | cons lexeme run =>
      obtain ⟨rfl, -⟩ := List.cons.inj h
      rw [significantTokens_cons_token ht] at hrun
      cases hrun

theorem of_token {t : Token} (ht : t.isSignificant)
    (h : Dressing [.token t] (.token t :: lexemes) dressed) :
    lexemes = [] ∧ dressed = [.token t] := by
  generalize hfront : Lexeme.token t :: lexemes = front at h
  cases h with
  | token _ hrun hmore =>
      cases hmore
      obtain ⟨rfl, -, rfl⟩ := eq_of_run_append hrun ht hfront
      exact ⟨rfl, rfl⟩

theorem of_expr {t : Token} (ht : t.isSignificant)
    (h : Dressing [.node .expr bare] (.token t :: lexemes) dressed) :
    ∃ inner, dressed = [.node .expr inner] ∧ Dressing bare (.token t :: lexemes) inner := by
  generalize hfront : Lexeme.token t :: lexemes = front at h
  cases h with
  | node hkind => exact absurd rfl hkind
  | @expr _ _ _ _ _ _ inner _ _ hrun hbelow hmore =>
      cases hmore
      rw [List.append_nil] at hfront
      obtain ⟨rfl, rfl, rfl⟩ := eq_of_run_append hrun ht hfront
      exact ⟨inner, rfl, by simpa using hbelow⟩

theorem of_append_token {t : Token} (h : Dressing (bare ++ more) (.token t :: lexemes) dressed)
    (hbare : tokensOfAll bare ≠ []) :
    ∃ front back first second, lexemes = front ++ back ∧ dressed = first ++ second ∧
      Dressing bare (.token t :: front) first ∧ Dressing more back second := by
  obtain ⟨front, back, first, second, hlexemes, rfl, hfirst, hsecond⟩ := h.of_append
  cases front with
  | nil => exact absurd hfirst.significantTokens_eq.symm hbare
  | cons lexeme front =>
      rw [List.cons_append] at hlexemes
      obtain ⟨rfl, rfl⟩ := List.cons.inj hlexemes
      exact ⟨front, back, first, second, rfl, rfl, hfirst, hsecond⟩

end Dressing

/-! Layouts. -/

/-- However its tokens are laid out, with whatever behind them, the trees can be dressed. -/
def Dressable (bare : List Tree) : Prop :=
  ∀ lexemes after, significantTokens lexemes = tokensOfAll bare ++ after →
    ∃ front rest dressed, lexemes = front ++ rest ∧ significantTokens rest = after ∧
      Dressing bare front dressed

theorem dressable_nil : Dressable [] :=
  fun lexemes _ h => ⟨[], lexemes, [], rfl, h, .nil⟩

theorem Dressable.append {bare more : List Tree} (h : Dressable bare) (h' : Dressable more) :
    Dressable (bare ++ more) := by
  intro lexemes after htokens
  rw [tokensOfAll_append, List.append_assoc] at htokens
  obtain ⟨front, back, first, rfl, hback, hfirst⟩ := h lexemes _ htokens
  obtain ⟨mid, rest, second, rfl, hrest, hsecond⟩ := h' back after hback
  exact ⟨front ++ mid, rest, first ++ second, by simp, hrest, hfirst.append hsecond⟩

theorem dressable_of_forall {trees : List Tree} (h : ∀ tree ∈ trees, Dressable [tree]) :
    Dressable trees := by
  induction trees with
  | nil => exact dressable_nil
  | cons tree trees ih =>
      exact (h tree (by simp)).append (ih fun other hother => h other (by simp [hother]))

theorem dressable_token {t : Token} (ht : t.isSignificant) : Dressable [.token t] := by
  intro lexemes after htokens
  simp only [tokensOfAll_cons, tokens_token ht, tokensOfAll_nil, List.append_nil,
    List.singleton_append] at htokens
  obtain ⟨run, rest, rfl, hrun, -, hrest⟩ := significantTokens_eq_cons_iff.mp htokens
  exact ⟨run ++ [.token t], rest, _, by simp, hrest, .token ht hrun .nil⟩

theorem dressable_node {kind : NodeKind} (hkind : kind ≠ .expr) {children : List Tree}
    (h : ∀ child ∈ children, Dressable [child]) : Dressable [.node kind children] := by
  intro lexemes after htokens
  simp only [tokensOfAll_cons, tokens_node, tokensOfAll_nil, List.append_nil] at htokens
  obtain ⟨front, rest, inner, rfl, hrest, hinner⟩ := dressable_of_forall h lexemes after htokens
  exact ⟨front ++ [], rest, _, by simp, hrest, .node hkind hinner .nil⟩

theorem dressable_expr {children : List Tree} (htokens : tokensOfAll children ≠ [])
    (h : ∀ child ∈ children, Dressable [child]) : Dressable [.node .expr children] := by
  intro lexemes after hlexemes
  simp only [tokensOfAll_cons, tokens_node, tokensOfAll_nil, List.append_nil] at hlexemes
  obtain ⟨t, tokens, hfirst⟩ := List.exists_cons_of_ne_nil htokens
  have hhead := hlexemes
  rw [hfirst] at hhead
  obtain ⟨run, back, rfl, hrun, ht, -⟩ := significantTokens_eq_cons_iff.mp hhead
  rw [significantTokens_append, hrun, List.nil_append] at hlexemes
  obtain ⟨front, rest, inner, hback, hrest, hinner⟩ := dressable_of_forall h _ after hlexemes
  -- the front has the tokens of the children, so it begins with the first of them
  cases front with
  | nil => exact absurd hinner.significantTokens_eq.symm htokens
  | cons lexeme front =>
      obtain ⟨rfl, rfl⟩ := List.cons.inj hback
      exact ⟨run ++ .token t :: front ++ [], rest, _, by simp, hrest, .expr ht hrun hinner .nil⟩

/-- However the tokens of a tree of the schema are laid out, it can be dressed. -/
theorem dressable_of_conforms {symbol : Symbol} {tree : Tree} (h : Conforms symbol tree) :
    Dressable [tree] := by
  apply h.tree_induction
  · intro t ht
    exact dressable_token ht
  · intro kind children htokens _ hchildren
    by_cases hkind : kind = .expr
    · obtain rfl := hkind
      exact dressable_expr (htokens rfl) hchildren
    · exact dressable_node hkind hchildren

/-! Nodes at any depth. -/

/-- Is the tree, or stands somewhere in it. -/
inductive Occurs (part : Tree) : Tree → Prop where
  | whole : Occurs part part
  | inside {kind : NodeKind} {children : List Tree} {child : Tree} (hmem : child ∈ children)
      (h : Occurs part child) : Occurs part (.node kind children)

theorem not_occurs_leaf {kind : NodeKind} {children : List Tree} {l : Leaf} :
    ¬ Occurs (.node kind children) (.leaf l) := nofun

theorem not_occurs_of_mem_lexemes {kind : NodeKind} {children : List Tree} {run : List Lexeme}
    {tree : Tree} (hmem : tree ∈ run.map Tree.lexeme) : ¬ Occurs (.node kind children) tree := by
  obtain ⟨lexeme, -, rfl⟩ := List.mem_map.mp hmem
  exact not_occurs_leaf

/-- Some node in the bare trees becomes this one when dressed with some of the lexemes. -/
def HasDressed (bare : List Tree) (lexemes : List Lexeme) (kind : NodeKind)
    (children : List Tree) : Prop :=
  ∃ below before mid after, (∃ tree ∈ bare, Occurs (.node kind below) tree) ∧
    lexemes = before ++ mid ++ after ∧ Dressing [.node kind below] mid [.node kind children]

namespace HasDressed

variable {bare below children : List Tree} {lexemes : List Lexeme} {kind : NodeKind}

theorem cons (h : HasDressed bare lexemes kind children) (tree : Tree) (front : List Lexeme) :
    HasDressed (tree :: bare) (front ++ lexemes) kind children := by
  obtain ⟨below, before, mid, after, ⟨other, hother, hin⟩, rfl, hmid⟩ := h
  exact ⟨below, front ++ before, mid, after, ⟨other, List.mem_cons_of_mem _ hother, hin⟩, by simp,
    hmid⟩

theorem inside (h : HasDressed below lexemes kind children) (outer : NodeKind) (bare : List Tree)
    (run rest : List Lexeme) :
    HasDressed (.node outer below :: bare) (run ++ lexemes ++ rest) kind children := by
  obtain ⟨below', before, mid, after, ⟨other, hother, hin⟩, rfl, hmid⟩ := h
  exact ⟨below', run ++ before, mid, after ++ rest,
    ⟨_, List.mem_cons_self, .inside hother hin⟩, by simp, hmid⟩

theorem whole {mid : List Lexeme} (h : Dressing [.node kind below] mid [.node kind children])
    (bare : List Tree) (rest : List Lexeme) :
    HasDressed (.node kind below :: bare) (mid ++ rest) kind children :=
  ⟨below, [], mid, rest, ⟨_, List.mem_cons_self, .whole⟩, rfl, h⟩

end HasDressed

/-- A node in dressed trees is one of the bare trees, dressed with some of the lexemes. -/
theorem Dressing.hasDressed {kind : NodeKind} {children bare dressed : List Tree}
    {lexemes : List Lexeme} (h : Dressing bare lexemes dressed) {tree : Tree}
    (hmem : tree ∈ dressed) (hin : Occurs (.node kind children) tree) :
    HasDressed bare lexemes kind children := by
  induction h generalizing tree with
  | nil => cases hmem
  | @token t run lexemes bare dressed ht hrun hmore ih =>
      rcases List.mem_append.mp hmem with hmem | hmem
      · exact absurd hin (not_occurs_of_mem_lexemes hmem)
      · rcases List.mem_cons.mp hmem with rfl | hmem
        · exact absurd hin not_occurs_leaf
        · rw [List.append_cons]
          exact (ih hmem hin).cons (.token t) (run ++ [.token t])
  | @node outer front lexemes below bare inner dressed hkind hbelow hmore ihbelow ih =>
      rcases List.mem_cons.mp hmem with rfl | hmem
      · cases hin with
        | whole => exact .whole (by simpa using hbelow.node hkind .nil) bare lexemes
        | inside hchild hin => exact (ihbelow hchild hin).inside outer bare [] lexemes
      · exact (ih hmem hin).cons _ front
  | @expr t run front lexemes below bare inner dressed ht hrun hbelow hmore ihbelow ih =>
      rcases List.mem_cons.mp hmem with rfl | hmem
      · cases hin with
        | whole => exact .whole (by simpa using hbelow.expr ht hrun .nil) bare lexemes
        | inside hchild hin =>
            rcases List.mem_append.mp hchild with hchild | hchild
            · exact absurd hin (not_occurs_of_mem_lexemes hchild)
            · exact (ihbelow hchild hin).inside .expr bare run lexemes
      · exact (ih hmem hin).cons _ _

end Tree

end ScriptSyntax
