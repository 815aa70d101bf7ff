import ScriptSyntax.Proofs.Grammar
import ScriptSyntax.Tree

/-!
The shape of the trees that stand for the symbols of the grammar. A tree of the
schema holds tokens of the grammar and nothing else at its leaves, in the order
of the list it stands for. An operand has a node of its own, and an operation
has one below the node of its expression; so all operators group to the right.

Main statements: the tokens of a tree of the schema can be derived, and every
list that can be derived is the list of tokens of such a tree.
-/

namespace ScriptSyntax

namespace Tree

/-- The tokens of a tree that the grammar sees, in source order. -/
def tokens (tree : Tree) : List Token := tree.leaves.filterMap Leaf.significant?

def tokensOfAll (trees : List Tree) : List Token :=
  (leavesOfAll trees).filterMap Leaf.significant?

@[simp] theorem tokens_node (kind : NodeKind) (children : List Tree) :
    (node kind children).tokens = tokensOfAll children := rfl

theorem tokens_token {t : Token} (h : t.isSignificant) : (token t).tokens = [t] := by
  simp [tokens, leaves, Leaf.significant?, Leaf.lexeme?, Lexeme.significant?, h]

theorem withoutTriviaOfAll_token {t : Token} (h : t.isSignificant) :
    withoutTriviaOfAll [token t] = [token t] := by
  simp [withoutTriviaOfAll, withoutTrivia, isTrivia, Leaf.isTrivia, Lexeme.isTrivia,
    Lexeme.significant?, h]

@[simp] theorem tokensOfAll_nil : tokensOfAll [] = [] := rfl

@[simp] theorem tokensOfAll_cons (tree : Tree) (trees : List Tree) :
    tokensOfAll (tree :: trees) = tree.tokens ++ tokensOfAll trees := by
  simp [tokensOfAll, tokens, leavesOfAll]

@[simp] theorem tokensOfAll_append (trees more : List Tree) :
    tokensOfAll (trees ++ more) = tokensOfAll trees ++ tokensOfAll more := by
  simp [tokensOfAll]

theorem tokensOfAll_of_leaves {trees : List Tree} {lexemes : List Lexeme}
    (h : leavesOfAll trees = lexemes.map .lexeme) :
    tokensOfAll trees = significantTokens lexemes := by
  rw [tokensOfAll, h, List.filterMap_map]
  rfl

theorem tokensOfAll_eq_flatten (trees : List Tree) :
    tokensOfAll trees = (trees.map tokens).flatten := by
  induction trees with
  | nil => rfl
  | cons tree trees ih => simp [ih]

mutual
theorem tokens_withoutTrivia (tree : Tree) : tree.withoutTrivia.tokens = tree.tokens := by
  cases tree with
  | leaf l => rfl
  | node kind children => exact tokensOfAll_withoutTriviaOfAll children

/-- Taking the trivia out takes no significant token out. -/
theorem tokensOfAll_withoutTriviaOfAll (trees : List Tree) :
    tokensOfAll (withoutTriviaOfAll trees) = tokensOfAll trees := by
  cases trees with
  | nil => rfl
  | cons tree trees =>
      have htree := tokens_withoutTrivia tree
      have htrees := tokensOfAll_withoutTriviaOfAll trees
      by_cases htrivia : tree.isTrivia
      · have hnone : tree.tokens = [] := by
          cases tree with
          | node kind children => cases htrivia
          | leaf l =>
              cases l with
              | fault f => cases htrivia
              | lexeme l =>
                  have hl : l.significant? = none := by
                    simpa [isTrivia, Leaf.isTrivia, Lexeme.isTrivia] using htrivia
                  simp [tokens, leaves, Leaf.significant?, Leaf.lexeme?, hl]
        simp [withoutTriviaOfAll, htrivia, htrees, hnone]
      · simp [withoutTriviaOfAll, htrivia, htree, htrees]
end

end Tree

/-- One constructor for each kind of node; expressions and operands share a kind. -/
inductive Conforms : Symbol → Tree → Prop where
  | atom {t : Token} (ht : t.Atom) : Conforms .operand (.node .expr [.token t])
  | group {l r : Token} {e : Tree} (hl : l.Operator "(") (he : Conforms .expr e)
      (hr : r.Operator ")") : Conforms .operand (.node .expr [.token l, e, .token r])
  | single {o : Tree} (ho : Conforms .operand o) : Conforms .expr (.node .expr [o])
  | operation {b : Token} {o e : Tree} (ho : Conforms .operand o) (hb : b.Binary)
      (he : Conforms .expr e) :
      Conforms .expr (.node .expr [.node .expr [o, .token b, e]])
  | call {f l r : Token} {e : Tree} (hf : f.kind = .identifier) (hl : l.Operator "(")
      (he : Conforms .expr e) (hr : r.Operator ")") :
      Conforms .statement
        (.node .call [.node .lhs [.token f], .token l, e, .token r])
  | forLoop {w x q m n d z : Token} {first limit step body : Tree}
      (hw : w.Keyword "for") (hx : x.kind = .identifier) (hq : q.Operator "=")
      (hfirst : Conforms .expr first) (hm : m.Operator ",")
      (hlimit : Conforms .expr limit) (hn : n.Operator ",")
      (hstep : Conforms .expr step) (hd : d.Keyword "do")
      (hbody : Conforms .block body) (hz : z.Keyword "end") :
      Conforms .statement
        (.node .forLoop [.token w, .node .lhs [.token x], .token q, first, .token m, limit,
          .token n, step, .token d, body, .token z])
  | conditional {w t z : Token} {test body : Tree} {branches : List Tree} {last : Option Tree}
      (hw : w.Keyword "if") (htest : Conforms .expr test) (ht : t.Keyword "then")
      (hbody : Conforms .block body)
      (hbranches : ∀ branch ∈ branches, Conforms .elseIf branch)
      (hlast : ∀ branch ∈ last, Conforms .otherwise branch) (hz : z.Keyword "end") :
      Conforms .statement
        (.node .conditional
          ([.token w, test, .token t, body] ++ branches ++ last.toList ++ [.token z]))
  | elseIf {w t : Token} {test body : Tree} (hw : w.Keyword "elseif")
      (htest : Conforms .expr test) (ht : t.Keyword "then") (hbody : Conforms .block body) :
      Conforms .elseIf (.node .elseIf [.token w, test, .token t, body])
  | otherwise {w : Token} {body : Tree} (hw : w.Keyword "else")
      (hbody : Conforms .block body) :
      Conforms .otherwise (.node .otherwise [.token w, body])
  | block {statements : List Tree}
      (hstatements : ∀ statement ∈ statements, Conforms .statement statement) :
      Conforms .block (.node .body statements)

open ScriptSyntax.Tree Token

/-- The tokens of a tree of the schema are a list of the grammar. -/
theorem Conforms.derives {symbol : Symbol} {tree : Tree} (h : Conforms symbol tree) :
    Derives symbol tree.tokens := by
  induction h with
  | atom ht =>
      simpa [tokens_token ht.isSignificant] using Derives.atom ht
  | group hl _ hr ih =>
      simpa [tokens_token hl.isSignificant, tokens_token hr.isSignificant] using
        Derives.group hl ih hr
  | single _ ih =>
      simpa using Derives.single ih
  | operation _ hb _ iho ihe =>
      simpa [tokens_token hb.isSignificant] using Derives.operation iho hb ihe
  | call hf hl _ hr ih =>
      simpa [tokens_token (isSignificant_of_identifier hf), tokens_token hl.isSignificant,
        tokens_token hr.isSignificant] using Derives.call hf hl ih hr
  | forLoop hw hx hq _ hm _ hn _ hd _ hz ihfirst ihlimit ihstep ihbody =>
      have hderived := Derives.forLoop hw hx hq ihfirst hm ihlimit hn ihstep hd ihbody hz
      simpa [tokens_token hw.isSignificant, tokens_token (isSignificant_of_identifier hx),
        tokens_token hq.isSignificant, tokens_token hm.isSignificant,
        tokens_token hn.isSignificant, tokens_token hd.isSignificant,
        tokens_token hz.isSignificant] using hderived
  | @conditional _ _ _ _ _ branches last hw _ ht _ _ _ hz ihtest ihbody ihbranches ihlast =>
      have hbranches : ∀ branch ∈ branches.map tokens, Derives .elseIf branch := by
        intro branch hbranch
        obtain ⟨tree, htree, rfl⟩ := List.mem_map.mp hbranch
        exact ihbranches tree htree
      have hlast : ∀ branch ∈ last.map tokens, Derives .otherwise branch := by
        intro branch hbranch
        obtain ⟨tree, htree, rfl⟩ := Option.map_eq_some_iff.mp hbranch
        exact ihlast tree htree
      have htokens : tokensOfAll last.toList = (last.map tokens).getD [] := by
        cases last <;> simp
      have hderived := Derives.conditional hw ihtest ht ihbody hbranches hlast hz
      simpa [tokens_token hw.isSignificant, tokens_token ht.isSignificant,
        tokens_token hz.isSignificant, tokensOfAll_eq_flatten branches, htokens] using hderived
  | elseIf hw _ ht _ ihtest ihbody =>
      simpa [tokens_token hw.isSignificant, tokens_token ht.isSignificant] using
        Derives.elseIf hw ihtest ht ihbody
  | otherwise hw _ ih =>
      simpa [tokens_token hw.isSignificant] using Derives.otherwise hw ih
  | @block statements _ ih =>
      have hstatements : ∀ statement ∈ statements.map tokens, Derives .statement statement := by
        intro statement hstatement
        obtain ⟨tree, htree, rfl⟩ := List.mem_map.mp hstatement
        exact ih tree htree
      rw [tokens_node, tokensOfAll_eq_flatten]
      exact Derives.block hstatements

private theorem exists_trees {symbol : Symbol} {lists : List (List Token)}
    (h : ∀ list ∈ lists, ∃ tree, Conforms symbol tree ∧ tree.tokens = list) :
    ∃ trees : List Tree, (∀ tree ∈ trees, Conforms symbol tree) ∧ trees.map tokens = lists := by
  induction lists with
  | nil => exact ⟨[], by simp, rfl⟩
  | cons list lists ih =>
      obtain ⟨tree, htree, rfl⟩ := h list (by simp)
      obtain ⟨trees, htrees, rfl⟩ := ih fun list hlist => h list (by simp [hlist])
      refine ⟨tree :: trees, ?_, rfl⟩
      intro other hother
      rcases List.mem_cons.mp hother with rfl | hother
      · exact htree
      · exact htrees other hother

private theorem exists_tree? {symbol : Symbol} {list? : Option (List Token)}
    (h : ∀ list ∈ list?, ∃ tree, Conforms symbol tree ∧ tree.tokens = list) :
    ∃ tree? : Option Tree, (∀ tree ∈ tree?, Conforms symbol tree) ∧
      tokensOfAll tree?.toList = list?.getD [] := by
  cases list? with
  | none => exact ⟨none, by simp, rfl⟩
  | some list =>
      obtain ⟨tree, htree, rfl⟩ := h list rfl
      exact ⟨some tree, by simpa using htree, by simp⟩

/-- Every list of the grammar stands at the leaves of a tree of the schema. -/
theorem Derives.exists_conforms {symbol : Symbol} {list : List Token}
    (h : Derives symbol list) : ∃ tree, Conforms symbol tree ∧ tree.tokens = list := by
  induction h with
  | atom ht =>
      exact ⟨_, .atom ht, by simp [tokens_token ht.isSignificant]⟩
  | group hl _ hr ih =>
      obtain ⟨e, he, rfl⟩ := ih
      exact ⟨_, .group hl he hr,
        by simp [tokens_token hl.isSignificant, tokens_token hr.isSignificant]⟩
  | single _ ih =>
      obtain ⟨o, ho, rfl⟩ := ih
      exact ⟨_, .single ho, by simp⟩
  | operation _ hb _ iho ihe =>
      obtain ⟨o, ho, rfl⟩ := iho
      obtain ⟨e, he, rfl⟩ := ihe
      exact ⟨_, .operation ho hb he, by simp [tokens_token hb.isSignificant]⟩
  | call hf hl _ hr ih =>
      obtain ⟨e, he, rfl⟩ := ih
      exact ⟨_, .call hf hl he hr, by simp [tokens_token (isSignificant_of_identifier hf),
        tokens_token hl.isSignificant, tokens_token hr.isSignificant]⟩
  | forLoop hw hx hq _ hm _ hn _ hd _ hz ihfirst ihlimit ihstep ihbody =>
      obtain ⟨first, hfirst, rfl⟩ := ihfirst
      obtain ⟨limit, hlimit, rfl⟩ := ihlimit
      obtain ⟨step, hstep, rfl⟩ := ihstep
      obtain ⟨body, hbody, rfl⟩ := ihbody
      refine ⟨_, .forLoop hw hx hq hfirst hm hlimit hn hstep hd hbody hz, ?_⟩
      simp [tokens_token hw.isSignificant, tokens_token (isSignificant_of_identifier hx),
        tokens_token hq.isSignificant, tokens_token hm.isSignificant,
        tokens_token hn.isSignificant, tokens_token hd.isSignificant,
        tokens_token hz.isSignificant]
  | conditional hw _ ht _ _ _ hz ihtest ihbody ihbranches ihlast =>
      obtain ⟨test, htest, rfl⟩ := ihtest
      obtain ⟨body, hbody, rfl⟩ := ihbody
      obtain ⟨branches, hbranches, rfl⟩ := exists_trees ihbranches
      obtain ⟨last, hlast, hlastTokens⟩ := exists_tree? ihlast
      refine ⟨_, .conditional hw htest ht hbody hbranches hlast hz, ?_⟩
      simp [tokens_token hw.isSignificant, tokens_token ht.isSignificant,
        tokens_token hz.isSignificant, tokensOfAll_eq_flatten branches, hlastTokens]
  | elseIf hw _ ht _ ihtest ihbody =>
      obtain ⟨test, htest, rfl⟩ := ihtest
      obtain ⟨body, hbody, rfl⟩ := ihbody
      exact ⟨_, .elseIf hw htest ht hbody,
        by simp [tokens_token hw.isSignificant, tokens_token ht.isSignificant]⟩
  | otherwise hw _ ih =>
      obtain ⟨body, hbody, rfl⟩ := ih
      exact ⟨_, .otherwise hw hbody, by simp [tokens_token hw.isSignificant]⟩
  | block _ ih =>
      obtain ⟨statements, hstatements, rfl⟩ := exists_trees ih
      exact ⟨_, .block hstatements, by rw [tokens_node, tokensOfAll_eq_flatten]⟩

/-- The kinds of the nodes of statements. -/
def NodeKind.IsStatement (kind : NodeKind) : Prop := kind ∈ [.forLoop, .conditional, .call]

instance : DecidablePred NodeKind.IsStatement :=
  fun kind => inferInstanceAs (Decidable (kind ∈ [.forLoop, .conditional, .call]))

/-- Only blocks can be without tokens. -/
theorem Conforms.tokens_ne_nil {symbol : Symbol} {tree : Tree} (h : Conforms symbol tree)
    (hsymbol : symbol ≠ .block) : tree.tokens ≠ [] := by
  induction h with
  | atom ht => simp [tokens_token ht.isSignificant]
  | group hl => simp [tokens_token hl.isSignificant]
  | single _ ih => simpa using ih nofun
  | operation _ _ _ ih => simp [ih nofun]
  | call hf => simp [tokens_token (isSignificant_of_identifier hf)]
  | forLoop hw | conditional hw | elseIf hw | otherwise hw =>
      simp [tokens_token hw.isSignificant]
  | block => exact absurd rfl hsymbol

/-- The trees of the schema by the place of their operands: `operand` holds of the operands,
and `motive` of all other trees. An operand is always the first below the node of an
expression or of an operation. The nodes of statements are statements, and so are the trees
right below a body. -/
theorem Conforms.operand_induction {motive : Tree → Prop} (operand : Tree → Prop)
    (htoken : ∀ t : Token, t.isSignificant → motive (.token t))
    (hnode : ∀ kind children, kind ≠ .expr →
      (kind.IsStatement → Conforms .statement (.node kind children)) →
      (kind = .body → ∀ child ∈ children, Conforms .statement child) →
      (∀ child ∈ children, motive child) → motive (.node kind children))
    (hatom : ∀ t : Token, t.Atom → operand (.node .expr [.token t]))
    (hgroup : ∀ (l r : Token) e, l.Operator "(" → r.Operator ")" → Conforms .expr e → motive e →
      operand (.node .expr [.token l, e, .token r]))
    (hsingle : ∀ o, Conforms .operand o → operand o → motive (.node .expr [o]))
    (hoperation : ∀ o (b : Token) e, b.Binary → Conforms .operand o → operand o →
      Conforms .expr e → motive e → motive (.node .expr [.node .expr [o, .token b, e]]))
    {symbol : Symbol} {tree : Tree} (h : Conforms symbol tree) :
    match symbol with
    | .operand => operand tree
    | _ => motive tree := by
  have hstatement {kind : NodeKind} (hkind : kind ≠ .expr ∧ kind ≠ .body) {children : List Tree}
      (hconforms : Conforms .statement (.node kind children))
      (hchildren : ∀ child ∈ children, motive child) : motive (.node kind children) :=
    hnode kind children hkind.1 (fun _ => hconforms) (fun hbody => absurd hbody hkind.2) hchildren
  have hother {kind : NodeKind} (hkind : kind ≠ .expr ∧ ¬ kind.IsStatement ∧ kind ≠ .body)
      {children : List Tree} (hchildren : ∀ child ∈ children, motive child) :
      motive (.node kind children) :=
    hnode kind children hkind.1 (fun hstatement => absurd hstatement hkind.2.1)
      (fun hbody => absurd hbody hkind.2.2) hchildren
  have hname {t : Token} (ht : t.kind = .identifier) : motive (.node .lhs [.token t]) :=
    hother (by decide) (by simpa using htoken t (isSignificant_of_identifier ht))
  induction h with
  | atom ht => exact hatom _ ht
  | group hl he hr ih => exact hgroup _ _ _ hl hr he ih
  | single ho ih => exact hsingle _ ho ih
  | operation ho hb he iho ihe => exact hoperation _ _ _ hb ho iho he ihe
  | call hf hl he hr ih =>
      apply hstatement (by decide) (.call hf hl he hr)
      simp [hname hf, htoken _ hl.isSignificant, ih, htoken _ hr.isSignificant]
  | forLoop hw hx hq hfirst hm hlimit hn hstep hd hbody hz ihfirst ihlimit ihstep ihbody =>
      apply hstatement (by decide) (.forLoop hw hx hq hfirst hm hlimit hn hstep hd hbody hz)
      simp [htoken _ hw.isSignificant, hname hx, htoken _ hq.isSignificant, ihfirst,
        htoken _ hm.isSignificant, ihlimit, htoken _ hn.isSignificant, ihstep,
        htoken _ hd.isSignificant, ihbody, htoken _ hz.isSignificant]
  | conditional hw htest ht hbody hbranches hlast hz ihtest ihbody ihbranches ihlast =>
      apply hstatement (by decide) (.conditional hw htest ht hbody hbranches hlast hz)
      intro tree htree
      simp only [List.cons_append, List.nil_append, List.append_assoc, List.mem_cons,
        List.mem_append, List.not_mem_nil, or_false, Option.mem_toList] at htree
      rcases htree with rfl | rfl | rfl | rfl | htree | htree | rfl
      · exact htoken _ hw.isSignificant
      · exact ihtest
      · exact htoken _ ht.isSignificant
      · exact ihbody
      · exact ihbranches tree htree
      · exact ihlast tree htree
      · exact htoken _ hz.isSignificant
  | elseIf hw _ ht _ ihtest ihbody =>
      apply hother (by decide)
      simp [htoken _ hw.isSignificant, ihtest, htoken _ ht.isSignificant, ihbody]
  | otherwise hw _ ih =>
      apply hother (by decide)
      simp [htoken _ hw.isSignificant, ih]
  | block hstatements ih =>
      exact hnode .body _ nofun (fun hkind => absurd hkind (by decide)) (fun _ => hstatements) ih

/-- What holds of tokens, and of a node if it holds of the trees right below, holds of every
tree of the schema. No expression is without a token, and the nodes of statements are
statements. -/
theorem Conforms.tree_induction {motive : Tree → Prop}
    (htoken : ∀ t : Token, t.isSignificant → motive (.token t))
    (hnode : ∀ kind children, (kind = .expr → tokensOfAll children ≠ []) →
      (kind.IsStatement → Conforms .statement (.node kind children)) →
      (∀ child ∈ children, motive child) → motive (.node kind children))
    {symbol : Symbol} {tree : Tree} (h : Conforms symbol tree) : motive tree := by
  have hexpr {children : List Tree} (htokens : tokensOfAll children ≠ [])
      (hchildren : ∀ child ∈ children, motive child) : motive (.node .expr children) :=
    hnode .expr children (fun _ => htokens) (fun hkind => absurd hkind (by decide)) hchildren
  have hboth := h.operand_induction motive htoken
    (fun kind children hkind hstatement _ =>
      hnode kind children (fun heq => absurd heq hkind) hstatement)
    ?atom ?group ?single ?operation
  case atom =>
    intro t ht
    apply hexpr (by simp [tokens_token ht.isSignificant])
    simpa using htoken t ht.isSignificant
  case group =>
    intro l r e hl hr _ he
    apply hexpr (by simp [tokens_token hl.isSignificant])
    simp [htoken _ hl.isSignificant, he, htoken _ hr.isSignificant]
  case single =>
    intro o hconforms ho
    exact hexpr (by simpa using hconforms.tokens_ne_nil nofun) (by simpa using ho)
  case operation =>
    intro o b e hb _ ho _ he
    have hinner : motive (.node .expr [o, .token b, e]) := by
      apply hexpr (by simp [tokens_token hb.isSignificant])
      simp [ho, htoken _ hb.isSignificant, he]
    apply hexpr (by simp [tokens_token hb.isSignificant])
    simpa only [List.mem_singleton, forall_eq] using hinner
  cases symbol <;> exact hboth

/-- A tree of the schema has tokens of the grammar at all its leaves. -/
theorem Conforms.leaves_eq {symbol : Symbol} {tree : Tree} (h : Conforms symbol tree) :
    tree.leaves = tree.tokens.map Token.leaf := by
  apply h.tree_induction
  · intro t ht
    rw [tokens_token ht]
    rfl
  · rintro kind children - - hchildren
    simp only [leaves, tokens_node]
    induction children with
    | nil => rfl
    | cons child children ih =>
        have hchild := hchildren child (by simp)
        have hmore := ih fun other hother => hchildren other (by simp [hother])
        simp [leavesOfAll, hchild, hmore]

end ScriptSyntax
