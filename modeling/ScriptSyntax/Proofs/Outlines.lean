import ScriptSyntax.Outline
import ScriptSyntax.Proofs.Quotation

/-!
Outlines can be told apart. The first word of a line says what the line shows, and
the rest of it is a quoted text or a list of class names, so a line is known from
its text. Lines hold no line feed, so they are known from the outline; and the
depths of lines in preorder say which line stands below which. What an outline
leaves out are the spans, and of skipped characters all but their classes.
-/

namespace ScriptSyntax

open ScriptSyntax.Text

/-- What one line of an outline shows. -/
inductive Label where
  | token (kind : TokenKind) (value : String)
  | skipped (classes : List SkipClass)
  | fault (message : String)
  | node (kind : NodeKind)
  deriving DecidableEq, Repr

def Lexeme.label : Lexeme → Label
  | token t => .token t.kind t.value
  | skipped s => .skipped (s.text.toList.map SkipClass.of)

def Leaf.label : Leaf → Label
  | lexeme l => l.label
  | fault f => .fault f.display

/-- A tree as its outline shows it. -/
inductive Sketch where
  | mk (label : Label) (below : List Sketch)

mutual
def Tree.sketch : Tree → Sketch
  | leaf l => .mk l.label []
  | node kind children => .mk (.node kind) (sketchAll children)

def Tree.sketchAll : List Tree → List Sketch
  | [] => []
  | tree :: trees => tree.sketch :: sketchAll trees
end

def Node.sketch (node : Node) : Sketch := node.toTree.sketch

/-! Lines. -/

/-- The first word of a line. -/
inductive Headword where
  | token (kind : TokenKind)
  | skipped
  | fault
  | node (kind : NodeKind)
  deriving DecidableEq, Repr

namespace Headword

def text : Headword → List Char
  | token kind => kind.name.toList
  | skipped => "Skipped".toList
  | fault => "Error".toList
  | node kind => kind.name.toList

def all : List Headword :=
  [.token .string, .token .comment, .token .number, .token .operator, .token .keyword,
    .token .identifier, .skipped, .fault, .node .body, .node .call, .node .lhs, .node .expr,
    .node .forLoop, .node .conditional, .node .elseIf, .node .otherwise]

theorem mem_all (word : Headword) : word ∈ all := by
  cases word with
  | token kind => cases kind <;> decide
  | skipped => decide
  | fault => decide
  | node kind => cases kind <;> decide

theorem text_injective : Function.Injective text := by
  have hall : ∀ word ∈ all, ∀ other ∈ all, word.text = other.text → word = other := by
    decide +kernel
  intro word other h
  exact hall word (mem_all word) other (mem_all other) h

theorem blank_not_mem (word : Headword) : ∀ c ∈ word.text, c ≠ ' ' ∧ c ≠ '\n' := by
  have hall : ∀ word ∈ all, word.text.all fun c => c != ' ' && c != '\n' := by decide
  simpa using hall word (mem_all word)

theorem text_ne_nil (word : Headword) : word.text ≠ [] := by
  have hall : ∀ word ∈ all, word.text ≠ [] := by decide
  exact hall word (mem_all word)

end Headword

namespace SkipClass

theorem name_injective : Function.Injective name := by
  intro c d h
  cases c <;> cases d <;> first | rfl | exact absurd h (by decide)

theorem blank_not_mem_name (c : SkipClass) : ∀ x ∈ c.name.toList, x ≠ ' ' ∧ x ≠ '\n' := by
  have hall : c.name.toList.all fun x => x != ' ' && x != '\n' := by
    cases c <;> decide
  simpa using hall

/-- Names with a blank in front of each. -/
def names (classes : List SkipClass) : List Char := classes.flatMap fun c => ' ' :: c.name.toList

theorem head_names (classes : List SkipClass) : ∀ c ∈ (names classes).head?, c = ' ' := by
  cases classes with
  | nil => simp [names]
  | cons c classes => simp [names]

theorem names_injective : Function.Injective names := by
  intro classes others h
  induction classes generalizing others with
  | nil =>
      cases others with
      | nil => rfl
      | cons d others => simp [names] at h
  | cons c classes ih =>
      cases others with
      | nil => simp [names] at h
      | cons d others =>
          simp only [names, List.flatMap_cons, List.cons_append, List.cons.injEq, true_and] at h
          obtain ⟨hname, hmore⟩ := run_append_inj (p := (· ≠ ' '))
            (fun x hx => (blank_not_mem_name c x hx).1) (fun x hx => (blank_not_mem_name d x hx).1)
            (fun x hx => not_not.mpr (head_names classes x hx))
            (fun x hx => not_not.mpr (head_names others x hx)) h
          rw [name_injective (String.toList_inj.mp hname), ih hmore]

end SkipClass

namespace Label

-- `hidden` is the set that quoted texts write by code point
variable (hidden : Char → Bool)

def word : Label → Headword
  | token kind _ => .token kind
  | skipped _ => .skipped
  | fault _ => .fault
  | node kind => .node kind

/-- What stands behind the first word. -/
def detail : Label → List Char
  | token _ value => ' ' :: enquote hidden value.toList
  | skipped classes => SkipClass.names classes
  | fault message => ' ' :: message.toList
  | node _ => []

def text (label : Label) : List Char := label.word.text ++ label.detail hidden

theorem head_detail (label : Label) : ∀ c ∈ (label.detail hidden).head?, c = ' ' := by
  cases label with
  | skipped classes => exact SkipClass.head_names classes
  | token kind value => simp [detail]
  | fault message => simp [detail]
  | node kind => simp [detail]

/-- A line is known from its text. -/
theorem text_injective : Function.Injective (text hidden) := by
  intro label other h
  obtain ⟨hword, hdetail⟩ := run_append_inj (p := (· ≠ ' '))
    (fun c hc => (label.word.blank_not_mem c hc).1) (fun c hc => (other.word.blank_not_mem c hc).1)
    (fun c hc => not_not.mpr (label.head_detail hidden c hc))
    (fun c hc => not_not.mpr (other.head_detail hidden c hc)) h
  replace hword := Headword.text_injective hword
  cases label with
  | token kind value =>
      cases other <;> simp only [word, Headword.token.injEq, reduceCtorEq] at hword
      obtain rfl := hword
      have hvalue := enquote_injective hidden (List.cons.inj hdetail).2
      rw [String.toList_inj.mp hvalue]
  | skipped classes =>
      cases other <;> simp only [word, reduceCtorEq] at hword
      rw [SkipClass.names_injective hdetail]
  | fault message =>
      cases other <;> simp only [word, reduceCtorEq] at hword
      rw [String.toList_inj.mp (List.cons.inj hdetail).2]
  | node kind =>
      cases other <;> simp only [word, Headword.node.injEq, reduceCtorEq] at hword
      rw [hword]

/-- Messages may run over several lines, nothing else does. -/
theorem lineFeed_not_mem {label : Label} (h : ∀ message, label ≠ .fault message) :
    '\n' ∉ label.text hidden := by
  have hword : '\n' ∉ label.word.text := fun hmem => (label.word.blank_not_mem _ hmem).2 rfl
  have hdetail : '\n' ∉ label.detail hidden := by
    cases label with
    | token kind value => simpa [detail] using lineFeed_not_mem_enquote hidden value.toList
    | skipped classes =>
        simp only [detail, SkipClass.names, List.mem_flatMap, List.mem_cons, Char.reduceEq,
          false_or, not_exists, not_and]
        exact fun c _ hmem => (c.blank_not_mem_name _ hmem).2 rfl
    | fault message => exact absurd rfl (h message)
    | node kind => simp [detail]
  simpa [text] using ⟨hword, hdetail⟩

/-- The line of a label at a depth. -/
def line (entry : Nat × Label) : String := indent entry.1 ++ String.ofList (entry.2.text hidden)

theorem toList_line (entry : Nat × Label) :
    (line hidden entry).toList = List.replicate (2 * entry.1) ' ' ++ entry.2.text hidden := by
  rw [line, indent, String.toList_append, String.toList_ofList, String.toList_ofList]

/-- A line is known with its depth. -/
theorem line_injective : Function.Injective (line hidden) := by
  rintro ⟨depth, label⟩ ⟨depth', other⟩ h
  have hblank {n : Nat} : ∀ c ∈ List.replicate n ' ', c = ' ' :=
    fun c hc => List.eq_of_mem_replicate hc
  have hhead (label : Label) : ∀ c ∈ (label.text hidden).head?, ¬ c = ' ' := by
    obtain ⟨first, more, hword⟩ := List.exists_cons_of_ne_nil label.word.text_ne_nil
    have hfirst := (label.word.blank_not_mem first (hword ▸ List.mem_cons_self)).1
    simpa [text, hword] using hfirst
  rw [← String.toList_inj, toList_line, toList_line] at h
  obtain ⟨hdepth, htext⟩ := run_append_inj hblank hblank (hhead label) (hhead other) h
  have hlength := congrArg List.length hdepth
  simp only [List.length_replicate] at hlength
  rw [text_injective hidden htext, show depth = depth' by omega]

theorem lineFeed_not_mem_line {entry : Nat × Label} (h : ∀ message, entry.2 ≠ .fault message) :
    '\n' ∉ (line hidden entry).toList := by
  rw [toList_line, List.mem_append]
  rintro (hmem | hmem)
  · exact absurd (List.eq_of_mem_replicate hmem) (by decide)
  · exact lineFeed_not_mem hidden h hmem

end Label

/-! Outlines. -/

theorem Lexeme.toList_outline (lexeme : Lexeme) :
    lexeme.outline.toList = lexeme.label.text isHidden := by
  cases lexeme with
  | token t =>
      simp only [outline, Token.outline, quote, String.toList_append, String.toList_ofList,
        List.append_assoc]
      rfl
  | skipped s =>
      rw [outline, Skipped.outline, String.toList_join, List.flatMap_cons, List.flatMap_map]
      simp only [String.toList_append]
      rfl

theorem Leaf.toList_outline (leaf : Leaf) :
    leaf.outline.toList = leaf.label.text isHidden := by
  cases leaf with
  | lexeme l => exact l.toList_outline
  | fault f =>
      rw [outline, String.toList_append]
      rfl

/-- Lines without line feeds are known from their text. -/
theorem unlines_inj {lines others : List String} (hlines : ∀ line ∈ lines, '\n' ∉ line.toList)
    (hothers : ∀ line ∈ others, '\n' ∉ line.toList) (h : unlines lines = unlines others) :
    lines = others := by
  have hcons (line : String) (lines : List String) :
      (unlines (line :: lines)).toList = line.toList ++ '\n' :: (unlines lines).toList := by
    rw [unlines, List.map_cons, String.join_cons, String.toList_append, String.toList_append,
      List.append_assoc]
    rfl
  induction lines generalizing others with
  | nil =>
      cases others with
      | nil => rfl
      | cons other others =>
          rw [← String.toList_inj, hcons] at h
          simp [unlines] at h
  | cons line lines ih =>
      rw [← String.toList_inj, hcons] at h
      cases others with
      | nil => simp [unlines] at h
      | cons other others =>
          rw [hcons] at h
          obtain ⟨hline, hmore⟩ := run_append_inj (p := (· ≠ '\n'))
            (fun c hc heq => hlines line List.mem_cons_self (heq ▸ hc))
            (fun c hc heq => hothers other List.mem_cons_self (heq ▸ hc)) (by simp) (by simp) h
          rw [String.toList_inj.mp hline,
            ih (fun line hmem => hlines line (List.mem_cons_of_mem _ hmem))
              (fun line hmem => hothers line (List.mem_cons_of_mem _ hmem))
              (String.toList_inj.mp (List.cons.inj hmore).2)]

/-- Outlines of labels at depths, messages apart, are known from their text. -/
theorem unlines_map_line_inj (hidden : Char → Bool) {entries others : List (Nat × Label)}
    (hentries : ∀ entry ∈ entries, ∀ message, entry.2 ≠ .fault message)
    (hothers : ∀ entry ∈ others, ∀ message, entry.2 ≠ .fault message)
    (h : unlines (entries.map (Label.line hidden)) = unlines (others.map (Label.line hidden))) :
    entries = others := by
  apply (List.map_inj_right fun _ _ heq => Label.line_injective hidden heq).mp
  apply unlines_inj _ _ h
  · simp only [List.mem_map]
    rintro _ ⟨entry, hmem, rfl⟩
    exact Label.lineFeed_not_mem_line hidden (hentries entry hmem)
  · simp only [List.mem_map]
    rintro _ ⟨entry, hmem, rfl⟩
    exact Label.lineFeed_not_mem_line hidden (hothers entry hmem)

/-! Preorder. -/

namespace Sketch

mutual
/-- The labels of a sketch in the order of its lines, with their depths. -/
def entries (depth : Nat) : Sketch → List (Nat × Label)
  | mk label below => (depth, label) :: entriesOfAll (depth + 1) below

def entriesOfAll (depth : Nat) : List Sketch → List (Nat × Label)
  | [] => []
  | sketch :: sketches => sketch.entries depth ++ entriesOfAll depth sketches
end

theorem head_entriesOfAll {depth : Nat} {sketches : List Sketch} {rest : List (Nat × Label)}
    (hrest : ∀ entry ∈ rest.head?, entry.1 < depth) :
    ∀ entry ∈ (entriesOfAll depth sketches ++ rest).head?, entry.1 < depth + 1 := by
  cases sketches with
  | nil => exact fun entry hmem => Nat.lt_succ_of_lt (hrest entry hmem)
  | cons sketch sketches =>
      obtain ⟨label, below⟩ := sketch
      simp [entriesOfAll, entries]

-- What stands behind a sketch is at its depth or above, so the sketch ends there.
mutual
theorem entries_append_inj {depth : Nat} (sketch other : Sketch) {rest rest' : List (Nat × Label)}
    (hrest : ∀ entry ∈ rest.head?, entry.1 < depth + 1)
    (hrest' : ∀ entry ∈ rest'.head?, entry.1 < depth + 1)
    (h : sketch.entries depth ++ rest = other.entries depth ++ rest') :
    sketch = other ∧ rest = rest' := by
  cases sketch with
  | mk label below =>
      cases other with
      | mk label' below' =>
          simp only [entries, List.cons_append, List.cons.injEq, Prod.mk.injEq, true_and] at h
          obtain ⟨rfl, hmore⟩ := h
          obtain ⟨rfl, hsame⟩ := entriesOfAll_append_inj below below' hrest hrest' hmore
          exact ⟨rfl, hsame⟩

theorem entriesOfAll_append_inj {depth : Nat} (sketches others : List Sketch)
    {rest rest' : List (Nat × Label)} (hrest : ∀ entry ∈ rest.head?, entry.1 < depth)
    (hrest' : ∀ entry ∈ rest'.head?, entry.1 < depth)
    (h : entriesOfAll depth sketches ++ rest = entriesOfAll depth others ++ rest') :
    sketches = others ∧ rest = rest' := by
  cases sketches with
  | nil =>
      cases others with
      | nil => exact ⟨rfl, h⟩
      | cons other others =>
          obtain ⟨label, below⟩ := other
          rw [entriesOfAll, List.nil_append] at h
          simp [h, entriesOfAll, entries] at hrest
  | cons sketch sketches =>
      cases others with
      | nil =>
          obtain ⟨label, below⟩ := sketch
          rw [entriesOfAll, entriesOfAll, List.nil_append] at h
          simp [← h, entries] at hrest'
      | cons other others =>
          rw [entriesOfAll, entriesOfAll, List.append_assoc, List.append_assoc] at h
          obtain ⟨rfl, hmore⟩ := entries_append_inj sketch other (head_entriesOfAll hrest)
            (head_entriesOfAll hrest') h
          obtain ⟨rfl, hsame⟩ := entriesOfAll_append_inj sketches others hrest hrest' hmore
          exact ⟨rfl, hsame⟩
end

theorem entries_injective (depth : Nat) : Function.Injective (entries depth) := by
  intro sketch other h
  have hsame : entries depth sketch ++ [] = entries depth other ++ [] := by rw [h]
  exact (entries_append_inj sketch other (by simp) (by simp) hsame).1

end Sketch

namespace Tree

mutual
theorem outlineLines_eq (depth : Nat) (tree : Tree) :
    tree.outlineLines true depth = (tree.sketch.entries depth).map (Label.line isHidden) := by
  cases tree with
  | leaf l =>
      have hline : indent depth ++ l.outline = Label.line isHidden (depth, l.label) := by
        rw [Label.line, ← l.toList_outline, String.ofList_toList]
      rw [outlineLines, hline]
      rfl
  | node kind children =>
      have htext : (Label.node kind).text isHidden = kind.name.toList := List.append_nil _
      have hline : indent depth ++ kind.name = Label.line isHidden (depth, .node kind) := by
        rw [Label.line, htext, String.ofList_toList]
      rw [outlineLines, hline, outlineLinesOfAll_eq (depth + 1) children]
      rfl

theorem outlineLinesOfAll_eq (depth : Nat) (trees : List Tree) :
    outlineLinesOfAll true depth trees =
      (Sketch.entriesOfAll depth (sketchAll trees)).map (Label.line isHidden) := by
  cases trees with
  | nil => rfl
  | cons tree trees =>
      rw [outlineLinesOfAll, sketchAll, Sketch.entriesOfAll, List.map_append,
        outlineLines_eq depth tree, outlineLinesOfAll_eq depth trees]
      simp
end

-- A sketch shows a message only where the tree holds a fault.
mutual
theorem fault_mem_leaves {depth depth' : Nat} {message : String} (tree : Tree)
    (h : (depth', .fault message) ∈ tree.sketch.entries depth) :
    ∃ fault, .fault fault ∈ tree.leaves := by
  cases tree with
  | leaf l =>
      have hlabel : .fault message = l.label := (Prod.mk.inj (List.mem_singleton.mp h)).2
      cases l with
      | lexeme l => cases l <;> cases hlabel
      | fault f => exact ⟨f, List.mem_singleton.mpr rfl⟩
  | node kind children =>
      rw [sketch, Sketch.entries, List.mem_cons] at h
      obtain hhead | hbelow := h
      · cases hhead
      · exact fault_mem_leavesOfAll children hbelow

theorem fault_mem_leavesOfAll {depth depth' : Nat} {message : String} (trees : List Tree)
    (h : (depth', .fault message) ∈ Sketch.entriesOfAll depth (sketchAll trees)) :
    ∃ fault, .fault fault ∈ leavesOfAll trees := by
  cases trees with
  | nil => cases h
  | cons tree trees =>
      rw [sketchAll, Sketch.entriesOfAll, List.mem_append] at h
      obtain hfirst | hmore := h
      · obtain ⟨fault, hmem⟩ := fault_mem_leaves tree hfirst
        exact ⟨fault, List.mem_append_left _ hmem⟩
      · obtain ⟨fault, hmem⟩ := fault_mem_leavesOfAll trees hmore
        exact ⟨fault, List.mem_append_right _ hmem⟩
end

end Tree

theorem Node.not_fault_of_mem_entries {node : Node} (h : node.fault? = none) :
    ∀ entry ∈ node.sketch.entries 0, ∀ message, entry.2 ≠ .fault message := by
  rintro ⟨depth, label⟩ hmem message rfl
  obtain ⟨fault, hfault⟩ := Tree.fault_mem_leaves node.toTree hmem
  exact absurd (List.findSome?_eq_none_iff.mp h _ hfault) (by simp [Leaf.fault?])

theorem Lexeme.label_ne_fault (lexeme : Lexeme) (message : String) :
    lexeme.label ≠ .fault message := by
  cases lexeme <;> simp [label]

/-- The outline of lexemes where quoted texts write `hidden` by code point. -/
def lexemesOutlineBy (hidden : Char → Bool) (lexemes : List Lexeme) : String :=
  unlines (((lexemes.map Lexeme.label).map (Prod.mk 0)).map (Label.line hidden))

/-- The outline of a tree, trivia included, where quoted texts write `hidden` by code point. -/
def Node.outlineBy (hidden : Char → Bool) (node : Node) : String :=
  unlines ((node.sketch.entries 0).map (Label.line hidden))

theorem lexemesOutline_eq (lexemes : List Lexeme) :
    lexemesOutline lexemes = lexemesOutlineBy isHidden lexemes := by
  have hline (lexeme : Lexeme) : lexeme.outline = Label.line isHidden (0, lexeme.label) := by
    rw [← String.toList_inj, Label.toList_line, lexeme.toList_outline]
    rfl
  rw [lexemesOutline, lexemesOutlineBy, List.map_map, List.map_map]
  exact congrArg unlines (List.map_congr_left fun lexeme _ => hline lexeme)

theorem Node.outline_eq (node : Node) : node.outline true = node.outlineBy isHidden := by
  rw [outline, Tree.outlineLines_eq]
  rfl

theorem lexemesOutlineBy_eq_iff (hidden : Char → Bool) (lexemes others : List Lexeme) :
    lexemesOutlineBy hidden lexemes = lexemesOutlineBy hidden others ↔
      lexemes.map Lexeme.label = others.map Lexeme.label := by
  constructor
  · intro h
    have hentries := unlines_map_line_inj hidden (by simp [Lexeme.label_ne_fault])
      (by simp [Lexeme.label_ne_fault]) h
    exact (List.map_inj_right fun _ _ heq => (Prod.mk.inj heq).2).mp hentries
  · intro h
    rw [lexemesOutlineBy, lexemesOutlineBy, h]

theorem Node.outlineBy_eq_iff (hidden : Char → Bool) {node other : Node} (h : node.fault? = none)
    (h' : other.fault? = none) :
    node.outlineBy hidden = other.outlineBy hidden ↔ node.sketch = other.sketch := by
  constructor
  · intro hsame
    have hentries := unlines_map_line_inj hidden (not_fault_of_mem_entries h)
      (not_fault_of_mem_entries h') hsame
    exact Sketch.entries_injective 0 hentries
  · intro hsame
    rw [outlineBy, outlineBy, hsame]

/-- Outlines are unambiguous, whatever set of characters quoted texts write by code point.
Lexemes have the same outline just if they show one by one the same kind and text, or the
same classes; trees without faults, just if they are the same once spans are left out and
skipped characters are known by their classes. -/
theorem outline_unambiguous :
    (∀ lexemes, lexemesOutline lexemes = lexemesOutlineBy isHidden lexemes) ∧
    (∀ node : Node, node.outline true = node.outlineBy isHidden) ∧
    ∀ hidden,
      (∀ lexemes others, lexemesOutlineBy hidden lexemes = lexemesOutlineBy hidden others ↔
        lexemes.map Lexeme.label = others.map Lexeme.label) ∧
      ∀ node other : Node, node.fault? = none → other.fault? = none →
        (node.outlineBy hidden = other.outlineBy hidden ↔ node.sketch = other.sketch) := by
  refine ⟨lexemesOutline_eq, Node.outline_eq, ?_⟩
  intro hidden
  exact ⟨lexemesOutlineBy_eq_iff hidden, fun _ _ h h' => Node.outlineBy_eq_iff hidden h h'⟩

/-- A text that spells the line of another leaf, and the two leaves apart. -/
theorem outline_unambiguous_forged :
    Node.outline ⟨.expr, [.token ⟨.string, "\"\n  Skipped tab\"", .between "" 0 15⟩]⟩ true ≠
      Node.outline ⟨.expr, [.token ⟨.string, "\"\"", .between "" 0 2⟩,
        .lexeme (.skipped ⟨"\t", .between "" 2 3⟩)]⟩ true := by
  intro h
  rw [outline_unambiguous.2.1, outline_unambiguous.2.1] at h
  have hsketch := ((outline_unambiguous.2.2 isHidden).2 _ _ rfl rfl).mp h
  simp [Node.sketch, Node.toTree, Tree.sketch, Tree.sketchAll] at hsketch

end ScriptSyntax
