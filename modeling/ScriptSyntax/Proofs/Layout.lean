import ScriptSyntax.Proofs.Failure
import ScriptSyntax.Proofs.Lockstep
import ScriptSyntax.Scanner

/-!
Layout does not count. What a parse makes of a list of lexemes depends on the
words of its significant tokens, that is on their kinds and texts: not on the
trivia around them, and not on where they stand. Lists with the same words run
in lockstep, so their trees are the same once trivia and places are taken out,
and they fail, if they fail, with one cause at one index.
-/

namespace ScriptSyntax

open ScriptSyntax.Tree

/-- A token as it is written, wherever it stands. -/
structure Word where
  kind : TokenKind
  text : String
  deriving DecidableEq, Repr

def Token.word (token : Token) : Word := ⟨token.kind, token.value⟩

/-! Trees with all their positions moved. -/

section Relocation

variable (move : Position → Position)

def Span.relocate (span : Span) : Span := ⟨move span.start, move span.stop⟩

def Token.relocate (token : Token) : Token := { token with span := token.span.relocate move }

def Lexeme.relocate : Lexeme → Lexeme
  | token t => token (t.relocate move)
  | skipped s => skipped { s with span := s.span.relocate move }

def Fault.relocate (fault : Fault) : Fault :=
  ⟨fault.cause, fault.token.map (Token.relocate move), move fault.position⟩

def Leaf.relocate : Leaf → Leaf
  | lexeme l => lexeme (l.relocate move)
  | fault f => fault (f.relocate move)

mutual
def Tree.relocate : Tree → Tree
  | leaf l => leaf (l.relocate move)
  | node kind children => node kind (relocateAll children)

def Tree.relocateAll : List Tree → List Tree
  | [] => []
  | tree :: trees => tree.relocate :: relocateAll trees
end

theorem Tree.relocateAll_append (trees more : List Tree) :
    relocateAll move (trees ++ more) = relocateAll move trees ++ relocateAll move more := by
  induction trees with
  | nil => rfl
  | cons tree trees ih => simp only [List.cons_append, relocateAll, ih]

variable {move}

mutual
theorem Tree.relocate_eq_self {tree : Tree} (h : ∀ leaf ∈ tree.leaves, leaf.relocate move = leaf) :
    tree.relocate move = tree := by
  cases tree with
  | leaf l => rw [relocate, h l (by simp [leaves])]
  | node kind children => rw [relocate, relocateAll_eq_self h]

/-- Trees whose leaves stay where they are do so themselves. -/
theorem Tree.relocateAll_eq_self {trees : List Tree}
    (h : ∀ leaf ∈ leavesOfAll trees, leaf.relocate move = leaf) :
    relocateAll move trees = trees := by
  cases trees with
  | nil => rfl
  | cons tree trees =>
      obtain ⟨htree, htrees⟩ := List.forall_mem_append.mp h
      rw [relocateAll, relocate_eq_self htree, relocateAll_eq_self htrees]
end

theorem Token.relocate_id (token : Token) : token.relocate id = token := rfl

theorem Lexeme.relocate_id (lexeme : Lexeme) : lexeme.relocate id = lexeme := by
  cases lexeme <;> rfl

theorem Fault.relocate_id (fault : Fault) : fault.relocate id = fault := by
  obtain ⟨cause, token, position⟩ := fault
  cases token <;> rfl

theorem Leaf.relocate_id (leaf : Leaf) : leaf.relocate id = leaf := by
  cases leaf with
  | lexeme l => rw [relocate, Lexeme.relocate_id]
  | fault f => rw [relocate, Fault.relocate_id]

theorem Tree.relocateAll_id (trees : List Tree) : relocateAll id trees = trees :=
  relocateAll_eq_self fun leaf _ => leaf.relocate_id

end Relocation

/-- The node with all its places forgotten. -/
def Node.withoutPlaces (node : Node) : Node :=
  { node with children := relocateAll (fun _ => .null) node.children }

/-- Lexemes pass for each other by the words of their tokens. -/
def Likeness.byWord : Likeness where
  token t u := t.word = u.word
  trivia _ _ := True
  position _ _ := True
  kind_eq h := congrArg Word.kind h
  value_eq h := congrArg Word.text h
  start _ := trivial
  trivia_nil := trivial

namespace Likeness

/-- Lists with the same words are alike. -/
theorem lexemes_byWord {a b : List Lexeme}
    (h : (significantTokens a).map Token.word = (significantTokens b).map Token.word) :
    byWord.Lexemes a b := by
  apply Lexemes.of_tokens fun _ _ => trivial
  rwa [← List.forall₂_eq_eq_eq, List.forall₂_map_left_iff, List.forall₂_map_right_iff] at h

/-- What passes for the same is the same, once both sides are moved. -/
structure Meets (K : Likeness) (move move' : Position → Position) : Prop where
  token {t u : Token} (h : K.token t u) : t.relocate move = u.relocate move'
  position {p q : Position} (h : K.position p q) : move p = move' q

theorem meets_byWord : byWord.Meets (fun _ => .null) (fun _ => .null) where
  token h := by
    obtain ⟨hkind, hvalue⟩ := Word.mk.inj h
    simp only [Token.relocate, Span.relocate, hkind, hvalue]
  position _ := rfl

section Places

variable {K : Likeness} {move move' : Position → Position}

theorem Meets.fault (hK : K.Meets move move') {f g : Fault} (h : K.Faults f g) :
    f.relocate move = g.relocate move' := by
  obtain ⟨cause, token, position⟩ := f
  obtain ⟨cause', token', position'⟩ := g
  obtain ⟨hcause, htoken, hposition⟩ := h
  simp only at hcause htoken hposition
  have hsame : token.map (Token.relocate move) = token'.map (Token.relocate move') := by
    cases htoken with
    | none => rfl
    | some htu => exact congrArg some (hK.token htu)
  simp only [Fault.relocate, hcause, hsame, hK.position hposition]

/-- Like trees are the same without trivia, once both are moved. -/
theorem Trees.relocate_withoutTrivia_eq (hK : K.Meets move move') {trees trees' : List Tree}
    (h : K.Trees trees trees') :
    relocateAll move (withoutTriviaOfAll trees) =
      relocateAll move' (withoutTriviaOfAll trees') := by
  induction h with
  | nil => rfl
  | trivia hrun hrun' _ =>
      rw [withoutTriviaOfAll_lexemes hrun, withoutTriviaOfAll_lexemes hrun']
      rfl
  | @token t u ht htu =>
      have hu := isSignificant_eq htu ▸ ht
      rw [withoutTriviaOfAll_token ht, withoutTriviaOfAll_token hu]
      simp only [relocateAll, relocate, Leaf.relocate, Lexeme.relocate, hK.token htu]
  | fault hfg =>
      simp only [withoutTriviaOfAll, isTrivia, Leaf.isTrivia, Bool.false_eq_true, if_false,
        withoutTrivia, relocateAll, relocate, Leaf.relocate, hK.fault hfg]
  | node kind _ ih =>
      simp only [withoutTriviaOfAll, isTrivia, Bool.false_eq_true, if_false, withoutTrivia,
        relocateAll, relocate, ih]
  | append _ _ ih ihmore =>
      rw [withoutTriviaOfAll_append, withoutTriviaOfAll_append, relocateAll_append,
        relocateAll_append, ih, ihmore]

end Places

end Likeness

/-- The token at fault is the first one that is not in the tree; at the end there
is none. -/
theorem fault_token_eq {ls : List Lexeme} {root : Node} {fault : Fault}
    (h : parsePartial ls = (root, some fault)) :
    (significantTokens ls).take root.allTokens.length = root.allTokens ∧
      fault.token = (significantTokens ls)[root.allTokens.length]? := by
  obtain ⟨hfault, hroot⟩ := parsePartial_eq_some_iff.mp h
  obtain ⟨read, hls, hleaves, hstands⟩ := Production.program_fails hfault
  have htokens : root.allTokens = significantTokens read := by
    rw [hroot]
    exact allTokens_of_leaves hleaves
  generalize (Production.statements (.ofLexemes ls)).ahead = ahead at hls hstands
  change ls = read ++ ahead at hls
  rw [htokens, hls, significantTokens_append]
  refine ⟨List.take_left, ?_⟩
  rw [List.getElem?_append_right (Nat.le_refl _), Nat.sub_self, ← List.head?_eq_getElem?]
  exact hstands.token_eq

section Words

variable {a b : List Lexeme}

theorem parsePartial_alike_of_words
    (h : (significantTokens a).map Token.word = (significantTokens b).map Token.word) :
    Likeness.byWord.Trees (parsePartial a).1.children (parsePartial b).1.children ∧
      Option.Rel Likeness.byWord.Faults (parsePartial a).2 (parsePartial b).2 :=
  Likeness.parsePartial_alike ⟨Likeness.lexemes_byWord h, trivial⟩

theorem withoutPlaces_eq_of_words
    (h : (significantTokens a).map Token.word = (significantTokens b).map Token.word) :
    (parsePartial a).1.withoutTrivia.withoutPlaces =
      (parsePartial b).1.withoutTrivia.withoutPlaces := by
  have htrees := (parsePartial_alike_of_words h).1.relocate_withoutTrivia_eq Likeness.meets_byWord
  rw [parsePartial_fst, parsePartial_fst] at htrees ⊢
  exact congrArg (Node.mk .body) htrees

/-- With a list all lists of the same words parse, to the same tree but for trivia and
places. -/
theorem exists_parse_of_words {root : Node}
    (h : (significantTokens a).map Token.word = (significantTokens b).map Token.word)
    (ha : parse a = .ok root) :
    ∃ root', parse b = .ok root' ∧
      root'.withoutTrivia.withoutPlaces = root.withoutTrivia.withoutPlaces := by
  have htrees := withoutPlaces_eq_of_words h
  have hfaults := (parsePartial_alike_of_words h).2
  rw [parse_eq_ok_iff_parsePartial] at ha
  rw [ha] at htrees hfaults
  refine ⟨(parsePartial b).1, ?_, htrees.symm⟩
  rw [parse_eq_ok_iff_parsePartial]
  generalize parsePartial b = parsed at hfaults
  obtain ⟨root', fault?⟩ := parsed
  cases hfaults with
  | none => rfl

/-- Faults of lists with the same words stand at one index. It is told by the tokens
in front of it, which are those in the tree. -/
theorem fault_index_eq_of_words {root root' : Node} {fault fault' : Fault}
    (h : (significantTokens a).map Token.word = (significantTokens b).map Token.word)
    (ha : parsePartial a = (root, some fault)) (hb : parsePartial b = (root', some fault')) :
    ∃ i, (significantTokens a).take i = root.allTokens ∧
      (significantTokens b).take i = root'.allTokens ∧
      fault.token = (significantTokens a)[i]? ∧ fault'.token = (significantTokens b)[i]? := by
  have htrees := (parsePartial_alike_of_words h).1
  rw [ha, hb] at htrees
  have hcount : root.allTokens.length = root'.allTokens.length := htrees.tokens.length_eq
  obtain ⟨hread, htoken⟩ := fault_token_eq ha
  obtain ⟨hread', htoken'⟩ := fault_token_eq hb
  rw [← hcount] at hread' htoken'
  exact ⟨_, hread, hread', htoken, htoken'⟩

end Words

/-- Whitespace, comments, unmatched characters and offsets count for nothing: lists
with the same words both parse, or both fail with one message at one index; and
their trees are the same without trivia and places. -/
theorem parse_sees_words (a b : List Lexeme)
    (h : (significantTokens a).map Token.word = (significantTokens b).map Token.word) :
    ((∃ root root', parse a = .ok root ∧ parse b = .ok root') ∨
      ∃ fault fault', parse a = .error fault ∧ parse b = .error fault' ∧
        fault.name = fault'.name ∧ fault.message = fault'.message ∧
        (fault.token = none ∧ fault'.token = none ∨
          ∃ i token token', fault.token = some token ∧ fault'.token = some token' ∧
            (significantTokens a)[i]? = some token ∧ (significantTokens b)[i]? = some token' ∧
            (significantTokens a).take i = (parsePartial a).1.allTokens ∧
            (significantTokens b).take i = (parsePartial b).1.allTokens)) ∧
    (parsePartial a).1.withoutTrivia.withoutPlaces =
      (parsePartial b).1.withoutTrivia.withoutPlaces := by
  refine ⟨?_, withoutPlaces_eq_of_words h⟩
  have hfaults := (parsePartial_alike_of_words h).2
  generalize hparsed : parsePartial a = parsed at hfaults
  generalize hparsed' : parsePartial b = parsed' at hfaults
  obtain ⟨root, fault?⟩ := parsed
  obtain ⟨root', fault?'⟩ := parsed'
  simp only at hfaults
  cases hfaults with
  | none =>
      exact .inl ⟨root, root', by simp only [parse, hparsed], by simp only [parse, hparsed']⟩
  | @some fault fault' hlike =>
      refine .inr ⟨fault, fault', by simp only [parse, hparsed], by simp only [parse, hparsed'],
        congrArg Cause.name hlike.cause_eq, congrArg Cause.message hlike.cause_eq, ?_⟩
      obtain ⟨i, hread, hread', hplace, hplace'⟩ := fault_index_eq_of_words h hparsed hparsed'
      have htokens := hlike.token
      generalize fault.token = token? at htokens hplace
      generalize fault'.token = token?' at htokens hplace'
      cases htokens with
      | none => exact .inl ⟨rfl, rfl⟩
      | some _ => exact .inr ⟨i, _, _, rfl, rfl, hplace.symm, hplace'.symm, hread, hread'⟩

/-- A comment and a line break more, and still the second number is at fault. -/
theorem parse_sees_words_call :
    ∃ fault fault', parse (scan "f(1 2)" none) = .error fault ∧
      parse (scan "f(\n  1 -- one\n 2)" none) = .error fault' ∧
      fault.message = fault'.message ∧
      (parsePartial (scan "f(1 2)" none)).1.withoutTrivia.withoutPlaces =
        (parsePartial (scan "f(\n  1 -- one\n 2)" none)).1.withoutTrivia.withoutPlaces := by
  have hwords : (significantTokens (scan "f(1 2)" none)).map Token.word =
      (significantTokens (scan "f(\n  1 -- one\n 2)" none)).map Token.word := by decide +kernel
  obtain ⟨hparses, htrees⟩ := parse_sees_words _ _ hwords
  rcases hparses with ⟨root, _, hroot, _⟩ | ⟨fault, fault', hfault, hfault', _, hmessage, _⟩
  · have hnot : ¬ (parse (scan "f(1 2)" none)).isOk := by decide +kernel
    rw [hroot] at hnot
    exact absurd rfl hnot
  · exact ⟨fault, fault', hfault, hfault', hmessage, htrees⟩

end ScriptSyntax
