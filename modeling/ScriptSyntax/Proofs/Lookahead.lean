import ScriptSyntax.Proofs.Completeness
import ScriptSyntax.Proofs.Layout

/-!
A token that is looked at is the token that is read next. So a production that was chosen by its
first token finds that token: it never misses the keyword that it begins with, nor the name of a
call. What it can miss lies further on, and of names only the one behind `for`.

`Foreseen` says this of an outcome. It is carried through the steps of productions, with the
tokens read so far; productions that are chosen by a token have it at the cursors where that
token is ahead.
-/

namespace ScriptSyntax

open ScriptSyntax.Tree

/-- The words that are looked for before the part that they begin is read. -/
def openings : List String := ["for", "if", "elseif", "else"]

/-- One of these words was expected and not found. -/
def Cause.MissesOpening : Cause → Prop
  | .unexpectedToken expected _ => ∃ word ∈ openings, expected = Token.describe .keyword word
  | .unexpectedValue expected _ => expected ∈ openings
  | .unexpectedEof | .unknownToken _ => False

/-- A name was expected and not found. -/
def Cause.MissesName : Cause → Prop
  | .unexpectedToken expected _ => expected = "identifier"
  | .unexpectedValue _ _ | .unexpectedEof | .unknownToken _ => False

theorem Cause.not_missesOpening {expected : String}
    (h : ∀ word ∈ openings, expected ≠ Token.describe .keyword word) (found : String) :
    ¬ (unexpectedToken expected found).MissesOpening := by
  rintro ⟨word, hword, heq⟩
  exact h word hword heq

namespace Tree

/-- First of all the node of a name, with the trivia in front of it. -/
def NamedFirst (children : List Tree) : Prop :=
  ∃ run t more, children = .node .lhs (run.map Tree.lexeme ++ [.token t]) :: more ∧
    significantTokens run = [] ∧ t.kind = .identifier

/-- All calls in the tree have their names. -/
def CallsNamed (tree : Tree) : Prop :=
  ∀ children, Occurs (.node .call children) tree → NamedFirst children

theorem callsNamed_leaf (leaf : Leaf) : CallsNamed (.leaf leaf) :=
  fun _ hin => absurd hin not_occurs_leaf

theorem callsNamed_of_mem_lexemes {run : List Lexeme} {tree : Tree}
    (h : tree ∈ run.map Tree.lexeme) : CallsNamed tree :=
  fun _ hin => absurd hin (not_occurs_of_mem_lexemes h)

theorem callsNamed_of_mem_run {run : List Lexeme} {leaf : Leaf} :
    ∀ tree ∈ run.map Tree.lexeme ++ [.leaf leaf], CallsNamed tree := by
  rw [List.forall_mem_append]
  exact ⟨fun _ => callsNamed_of_mem_lexemes, by simpa using callsNamed_leaf leaf⟩

theorem callsNamed_node {kind : NodeKind} {children : List Tree}
    (hself : kind = .call → NamedFirst children) (h : ∀ child ∈ children, CallsNamed child) :
    CallsNamed (.node kind children) := by
  intro below hin
  cases hin with
  | whole => exact hself rfl
  | inside hmem hin => exact h _ hmem below hin

end Tree

/-- What comes of steps that look before they read, behind the tokens `before`: no opening is
missed, a name is missed only right behind `for`, and calls have their names. -/
structure Outcome.Foreseen {α : Type} (before : List Token) (o : Outcome α) : Prop where
  opening : ∀ fault, o.result = .error fault → ¬ fault.cause.MissesOpening
  name : ∀ fault, o.result = .error fault → fault.cause.MissesName →
    ∃ front w, before ++ tokensOfAll o.appended = front ++ [w] ∧ w.Keyword "for"
  calls : ∀ tree ∈ o.appended, tree.CallsNamed

namespace Outcome.Foreseen

variable {α : Type} {before : List Token} {o : Outcome α}

theorem of_ok {a : α} (hok : o.result = .ok a) (hcalls : ∀ tree ∈ o.appended, tree.CallsNamed) :
    o.Foreseen before := by
  refine ⟨?_, ?_, hcalls⟩ <;> intro fault hfault <;> cases hok.symm.trans hfault

/-- The tokens in front of a run do not count if `for` is in the run. -/
theorem behind (h : o.Foreseen []) (before : List Token) : o.Foreseen before := by
  refine ⟨h.opening, ?_, h.calls⟩
  intro fault hfault hmisses
  obtain ⟨front, w, htokens, hw⟩ := h.name fault hfault hmisses
  rw [List.nil_append] at htokens
  exact ⟨before ++ front, w, by rw [htokens, List.append_assoc], hw⟩

end Outcome.Foreseen

namespace Production

variable {α β : Type}

/-- Looking ahead shows a token exactly if this token is read next. -/
theorem peek_eq_some_iff {c : Cursor} {t : Token} :
    (peek c).result = .ok (some t) ↔ (nextToken c).result = .ok t := by
  obtain ⟨rest, eof⟩ := c
  rw [peek_result]
  cases htokens : significantTokens rest with
  | nil =>
      rw [nextToken_atEnd htokens]
      simp
  | cons u tokens =>
      obtain ⟨trivia, after, rfl, htrivia, hu, -⟩ := significantTokens_eq_cons_iff.mp htokens
      rw [nextToken_token htrivia hu]
      simp

/-- It shows none exactly if reading takes all that is left and comes to the end. -/
theorem peek_eq_none_iff {c : Cursor} :
    (peek c).result = .ok none ↔ nextToken c =
      ⟨c.rest.map Tree.lexeme ++ [.fault (.atEnd c.eof)], [], .error (.atEnd c.eof)⟩ := by
  constructor
  · intro h
    rw [peek_result] at h
    exact nextToken_atEnd (List.head?_eq_none_iff.mp (Except.ok.inj h))
  · intro h
    rw [peek_result]
    cases hhead : (significantTokens c.rest).head? with
    | none => rfl
    | some t =>
        -- A token that is ahead is read, so reading does not come to the end.
        have hread := peek_eq_some_iff.mp ((peek_result c).trans (congrArg Except.ok hhead))
        rw [h] at hread
        cases hread

/-! Steps. -/

/-- Foreseen wherever it is run. -/
def Foresees (p : Production α) : Prop := ∀ c, (p c).Foreseen []

section Steps

variable {before : List Token} {p : Production α} {f : α → Production β} {c : Cursor}

theorem foreseen_bind (hp : (p c).Foreseen before)
    (hf : ∀ a, (p c).result = .ok a →
      (f a ⟨(p c).rest, c.eof⟩).Foreseen (before ++ tokensOfAll (p c).appended)) :
    ((p >>= f) c).Foreseen before := by
  cases hresult : (p c).result with
  | error fault =>
      rw [bind_of_error hresult]
      refine ⟨?_, ?_, hp.calls⟩ <;> rintro _ ⟨⟩
      · exact hp.opening fault hresult
      · exact hp.name fault hresult
  | ok a =>
      have hfirst := hf a hresult
      rw [bind_of_ok hresult]
      refine ⟨hfirst.opening, ?_, List.forall_mem_append.mpr ⟨hp.calls, hfirst.calls⟩⟩
      intro fault hfault hmisses
      obtain ⟨front, w, htokens, hw⟩ := hfirst.name fault hfault hmisses
      refine ⟨front, w, ?_, hw⟩
      rw [tokensOfAll_append, ← List.append_assoc, htokens]

theorem Foresees.after (hf : ∀ a, Foresees (f a)) (hp : (p c).Foreseen before) :
    ((p >>= f) c).Foreseen before :=
  foreseen_bind hp fun a _ => (hf a _).behind _

theorem Foresees.bind (hp : Foresees p) (hf : ∀ a, Foresees (f a)) : Foresees (p >>= f) :=
  fun c => Foresees.after hf (hp c)

theorem foreseen_within {kind : NodeKind} (hp : (p c).Foreseen before)
    (hself : kind = .call → NamedFirst (p c).appended) : (within kind p c).Foreseen before := by
  refine ⟨hp.opening, ?_, ?_⟩
  · intro fault hfault hmisses
    obtain ⟨front, w, htokens, hw⟩ := hp.name fault hfault hmisses
    refine ⟨front, w, ?_, hw⟩
    simpa [within] using htokens
  · simpa [within] using callsNamed_node hself hp.calls

theorem Foresees.within (hp : Foresees p) {kind : NodeKind} (hkind : kind ≠ .call) :
    Foresees (within kind p) :=
  fun c => foreseen_within (hp c) fun heq => absurd heq hkind

theorem foresees_pure (a : α) : Foresees (pure a) := fun _ => .of_ok rfl (by simp [pure_run])

theorem foresees_attach (t : Token) : Foresees (attach (.token t)) :=
  fun _ => .of_ok rfl (by simpa [attach] using callsNamed_leaf _)

theorem foresees_failAt (t : Token) {cause : Cause} (hopening : ¬ cause.MissesOpening)
    (hname : ¬ cause.MissesName) : Foresees (failAt t cause : Production α) := by
  intro c
  refine ⟨?_, ?_, by simpa [failAt, fail] using callsNamed_leaf _⟩
  · rintro _ ⟨⟩
    exact hopening
  · rintro _ ⟨⟩ hmisses
    exact absurd hmisses hname

theorem foresees_nextToken : Foresees nextToken := by
  rintro ⟨rest, eof⟩
  cases htokens : significantTokens rest with
  | nil =>
      rw [nextToken_atEnd htokens]
      refine ⟨?_, ?_, ?_⟩
      · rintro _ ⟨⟩
        exact id
      · rintro _ ⟨⟩ ⟨⟩
      · exact callsNamed_of_mem_run
  | cons t tokens =>
      obtain ⟨trivia, after, rfl, htrivia, ht, -⟩ := significantTokens_eq_cons_iff.mp htokens
      rw [nextToken_token htrivia ht]
      exact .of_ok rfl fun _ => callsNamed_of_mem_lexemes

theorem Foresees.joined {p : Production Unit} {test : Token → Bool} {kind : NodeKind}
    {q : Token → Production Unit} (hp : Foresees p) (hkind : kind ≠ .call)
    (hq : ∀ t, Foresees (q t)) : Foresees (joined p test kind q) := by
  intro c
  cases hresult : (p c).result with
  | error fault =>
      rw [joined_of_error hresult]
      exact hp c
  | ok _ =>
      by_cases htest : (significantTokens (p c).rest).head?.any test
      · rw [joined_of_test hresult htest]
        exact (hp.bind fun _ => foresees_nextToken.bind hq).within hkind c
      · rw [joined_of_not_test hresult htest]
        exact hp c

/-- What is expected further on may be missing. -/
theorem foresees_expect {kind : TokenKind} {value : String}
    (hdescribe : ∀ word ∈ openings, Token.describe kind value ≠ Token.describe .keyword word)
    (hname : Token.describe kind value ≠ "identifier") (hvalue : value ∉ openings) :
    Foresees (discard (expect kind value)) := by
  rw [discard_expect]
  refine foresees_nextToken.bind fun token => ?_
  split
  · exact foresees_failAt token (Cause.not_missesOpening hdescribe _) hname
  · split
    · exact foresees_failAt token hvalue id
    · exact foresees_attach token

end Steps

/-! What begins with the token ahead. -/

section Ahead

variable {c : Cursor} {t : Token}

theorem exists_dressing_of_head (h : (significantTokens c.rest).head? = some t) :
    ∃ run after, c.rest = run ++ .token t :: after ∧ significantTokens run = [] ∧
      t.isSignificant := by
  obtain ⟨tokens, htokens⟩ := List.head?_eq_some_iff.mp h
  obtain ⟨run, after, hrest, hrun, ht, -⟩ := significantTokens_eq_cons_iff.mp htokens
  exact ⟨run, after, hrest, hrun, ht⟩

/-- A keyword that is ahead is read. -/
theorem keyword_of_head {word : String} (h : (significantTokens c.rest).head? = some t)
    (hword : t.Keyword word) :
    ∃ run after, keyword word c = ⟨run.map Tree.lexeme ++ [.token t], after, .ok ()⟩ ∧
      significantTokens run = [] := by
  obtain ⟨rest, eof⟩ := c
  obtain ⟨run, after, rfl, hrun, ht⟩ := exists_dressing_of_head h
  refine ⟨run, after, ?_, hrun⟩
  have hread := reads_keyword hword (significantTokens after) (run ++ [.token t]) _
    (.token ht hrun .nil) after eof rfl
  rwa [List.append_assoc] at hread

/-- A name that is ahead is read. -/
theorem lhsRule_of_head (h : (significantTokens c.rest).head? = some t)
    (hname : t.kind = .identifier) :
    ∃ run after, Phrase.lhsRule c =
        ⟨[.node .lhs (run.map Tree.lexeme ++ [.token t])], after, .ok ()⟩ ∧
      significantTokens run = [] := by
  obtain ⟨rest, eof⟩ := c
  obtain ⟨run, after, rfl, hrun, ht⟩ := exists_dressing_of_head h
  refine ⟨run, after, ?_, hrun⟩
  have hread := Phrase.reads_lhs hname (significantTokens after) (run ++ [.token t] ++ []) _
    (.node (by decide) (.token ht hrun .nil) .nil) after eof rfl
  rwa [List.append_nil, List.append_assoc] at hread

/-- Steps behind a keyword that is ahead. -/
theorem foreseen_keyword {word : String} (h : (significantTokens c.rest).head? = some t)
    (hword : t.Keyword word) {q : Production Unit} (hq : ∀ d, (q d).Foreseen [t]) :
    ((keyword word >>= fun _ => q) c).Foreseen [] := by
  obtain ⟨run, after, hread, hrun⟩ := keyword_of_head h hword
  have hok : (keyword word c).result = .ok () := by rw [hread]
  have htokens : tokensOfAll (keyword word c).appended = [t] := by
    rw [hread, tokensOfAll_append, tokensOfAll_of_leaves (leavesOfAll_lexemes run), hrun,
      tokensOfAll_cons, tokens_token hword.isSignificant, tokensOfAll_nil]
    rfl
  apply foreseen_bind
  · refine .of_ok hok ?_
    rw [hread]
    exact callsNamed_of_mem_run
  · intro _ _
    rw [htokens]
    exact hq _

/-- Behind `for` a name may be missing. -/
theorem foreseen_lhsRule {w : Token} (hw : w.Keyword "for") (c : Cursor) :
    (Phrase.lhsRule c).Foreseen [w] := by
  refine foreseen_within ?_ nofun
  apply foreseen_bind ((foresees_nextToken c).behind _)
  intro token htoken
  split
  · exact (foresees_attach token _).behind _
  · have htokens : tokensOfAll (nextToken c).appended = [] := by
      obtain ⟨rest, eof⟩ := c
      have hhead := peek_eq_some_iff.mpr htoken
      rw [peek_result] at hhead
      obtain ⟨run, after, rfl, hrun, ht⟩ := exists_dressing_of_head (Except.ok.inj hhead)
      rw [nextToken_token hrun ht, tokensOfAll_of_leaves (leavesOfAll_lexemes run), hrun]
    refine ⟨?_, ?_, by simpa [failAt, fail] using callsNamed_leaf _⟩
    · rintro _ ⟨⟩
      exact Cause.not_missesOpening (by decide) _
    · rintro _ ⟨⟩ -
      refine ⟨[], w, ?_, hw⟩
      rw [htokens]
      rfl

end Ahead

end Production

/-! The rules of the grammar. -/

namespace Phrase

open Production

variable {expr statements elseIfs : Production Unit} {c : Cursor} {t : Token}

theorem foresees_operator (sign : String) (h : sign ∈ ["(", ")", ",", "="]) :
    Foresees (operator sign) := by
  apply foresees_expect <;> revert sign <;> decide

theorem foresees_keyword (word : String) (h : word ∈ ["do", "then", "end"]) :
    Foresees (keyword word) := by
  apply foresees_expect <;> revert word <;> decide

theorem foresees_operandRule (hexpr : Foresees expr) (token : Token) :
    Foresees (operandRule expr token) := by
  unfold operandRule
  split
  · have hgroup := (foresees_attach token).bind fun _ => hexpr.bind fun _ =>
      foresees_operator ")" (by decide)
    exact hgroup.within nofun
  · split
    case h_4 =>
      exact foresees_failAt token (Cause.not_missesOpening (by decide) _)
        (by simp [Cause.MissesName])
    all_goals exact (foresees_attach token).within nofun

theorem foresees_exprRule (hexpr : Foresees expr) : Foresees (exprRule expr) := by
  have hfrom (token : Token) : Foresees (exprFrom expr token) :=
    (foresees_operandRule hexpr token).joined nofun fun operator =>
      (foresees_attach operator).bind fun _ => hexpr
  exact (foresees_nextToken.bind hfrom).within nofun

theorem foreseen_callRule (hexpr : Foresees expr)
    (h : (significantTokens c.rest).head? = some t) (ht : t.kind = .identifier) :
    (callRule expr c).Foreseen [] := by
  obtain ⟨run, after, hread, hrun⟩ := lhsRule_of_head h ht
  have hok : (lhsRule c).result = .ok () := by rw [hread]
  have hname : CallsNamed (.node .lhs (run.map Tree.lexeme ++ [.token t])) :=
    callsNamed_node nofun callsNamed_of_mem_run
  apply foreseen_within
  · apply Foresees.after
    · exact fun _ => (foresees_operator "(" (by decide)).bind fun _ => hexpr.bind fun _ =>
        foresees_operator ")" (by decide)
    · exact .of_ok hok (by simpa [hread] using hname)
  · intro _
    rw [bind_of_ok hok, hread]
    exact ⟨run, t, _, rfl, hrun, ht⟩

theorem foresees_block (hstatements : Foresees statements) : Foresees (within .body statements) :=
  hstatements.within nofun

theorem foreseen_forRule (hexpr : Foresees expr) (hstatements : Foresees statements)
    (h : (significantTokens c.rest).head? = some t) (ht : t.Keyword "for") :
    (forRule expr statements c).Foreseen [] := by
  have hequals := foresees_operator "=" (by decide)
  have hcomma := foresees_operator "," (by decide)
  have hbody := (foresees_keyword "do" (by decide)).bind fun _ =>
    (foresees_block hstatements).bind fun _ => foresees_keyword "end" (by decide)
  refine foreseen_within ?_ nofun
  apply foreseen_keyword h ht
  intro d
  refine Foresees.after (fun _ => ?_) (foreseen_lhsRule ht d)
  exact hequals.bind fun _ => hexpr.bind fun _ => hcomma.bind fun _ => hexpr.bind fun _ =>
    hcomma.bind fun _ => hexpr.bind fun _ => hbody

theorem foreseen_elseIfRule (hexpr : Foresees expr) (hstatements : Foresees statements)
    (h : (significantTokens c.rest).head? = some t) (ht : t.Keyword "elseif") :
    (elseIfRule expr statements c).Foreseen [] := by
  have hbody := hexpr.bind fun _ => (foresees_keyword "then" (by decide)).bind fun _ =>
    foresees_block hstatements
  refine foreseen_within ?_ nofun
  exact foreseen_keyword h ht fun d => (hbody d).behind _

theorem foreseen_elseRule (hstatements : Foresees statements)
    (h : (significantTokens c.rest).head? = some t) (ht : t.Keyword "else") :
    (elseRule statements c).Foreseen [] := by
  refine foreseen_within ?_ nofun
  exact foreseen_keyword h ht fun d => (foresees_block hstatements d).behind _

/-- What is read only in front of its keyword. -/
theorem foresees_optional {p : Production Unit} (word : String)
    (hp : ∀ c t, (significantTokens c.rest).head? = some t → t.Keyword word →
      (p c).Foreseen []) :
    Foresees (do if (← peek).any (·.isKeyword [word]) then p) := by
  intro c
  rw [peek_bind]
  split
  · next hany =>
      obtain ⟨t, hhead, ht⟩ := (Option.any_eq_true _ _).mp hany
      obtain ⟨_, hmem, hword⟩ := Token.isKeyword_iff.mp ht
      rw [List.mem_singleton.mp hmem] at hword
      exact hp c t hhead hword
  · exact foresees_pure () c

theorem foresees_elseIfsRule (hexpr : Foresees expr) (hstatements : Foresees statements)
    (helseIfs : Foresees elseIfs) : Foresees (elseIfsRule expr statements elseIfs) :=
  foresees_optional "elseif" fun _ _ hhead ht =>
    Foresees.after (fun _ => helseIfs) (foreseen_elseIfRule hexpr hstatements hhead ht)

theorem foresees_elseOptional (hstatements : Foresees statements) :
    Foresees (elseOptional statements) :=
  foresees_optional "else" fun _ _ hhead ht => foreseen_elseRule hstatements hhead ht

theorem foreseen_ifRule (hexpr : Foresees expr) (hstatements : Foresees statements)
    (helseIfs : Foresees elseIfs) (h : (significantTokens c.rest).head? = some t)
    (ht : t.Keyword "if") : (ifRule expr statements elseIfs c).Foreseen [] := by
  have hbranches := helseIfs.bind fun _ => (foresees_elseOptional hstatements).bind fun _ =>
    foresees_keyword "end" (by decide)
  have hbody := hexpr.bind fun _ => (foresees_keyword "then" (by decide)).bind fun _ =>
    (foresees_block hstatements).bind fun _ => hbranches
  refine foreseen_within ?_ nofun
  exact foreseen_keyword h ht fun d => (hbody d).behind _

theorem foreseen_statementRule (hexpr : Foresees expr) (hstatements : Foresees statements)
    (helseIfs : Foresees elseIfs) (h : (significantTokens c.rest).head? = some t) :
    (statementRule expr statements elseIfs t c).Foreseen [] := by
  have hkeyword {word : String} (hword : t.isKeyword [word]) : t.Keyword word := by
    obtain ⟨_, hmem, ht⟩ := Token.isKeyword_iff.mp hword
    rwa [List.mem_singleton.mp hmem] at ht
  unfold statementRule
  split
  · next hfor => exact foreseen_forRule hexpr hstatements h (hkeyword hfor)
  · split
    · next hif => exact foreseen_ifRule hexpr hstatements helseIfs h (hkeyword hif)
    · split
      · next hname => exact foreseen_callRule hexpr h hname
      · exact foresees_failAt t id id c

theorem foresees_statementsRule (hexpr : Foresees expr) (hstatements : Foresees statements)
    (helseIfs : Foresees elseIfs) : Foresees (statementsRule expr statements elseIfs) := by
  intro c
  rw [statementsRule, peek_bind]
  cases hhead : (significantTokens c.rest).head? with
  | none => exact foresees_pure () c
  | some t =>
      simp only
      split
      · exact foresees_pure () c
      · exact Foresees.after (fun _ => hstatements)
          (foreseen_statementRule hexpr hstatements helseIfs hhead)

theorem foresees_rule {f : Phrase → Production Unit} (hf : ∀ phrase, Foresees (f phrase)) :
    ∀ phrase, Foresees (rule f phrase)
  | .expr => foresees_exprRule (hf .expr)
  | .statements => foresees_statementsRule (hf .expr) (hf .statements) (hf .elseIfs)
  | .elseIfs => foresees_elseIfsRule (hf .expr) (hf .statements) (hf .elseIfs)

/-- Every phrase looks before it reads. -/
theorem foresees_parse (phrase : Phrase) : Foresees phrase.parse :=
  guarded_rule.recursive_induction (P := fun _ _ o => o.Foreseen []) (fun _ => pure ())
    (fun _ => foresees_pure ()) (fun _ hf => foresees_rule hf) phrase

end Phrase

namespace Production

theorem foresees_finish : Foresees finish := by
  intro c
  cases htokens : significantTokens c.rest with
  | nil =>
      rw [finish_of_nil htokens]
      exact .of_ok rfl fun _ => callsNamed_of_mem_lexemes
  | cons token tokens =>
      rw [finish_of_cons htokens]
      exact foresees_failAt token (Cause.not_missesOpening (by decide) _)
        (by simp [Cause.MissesName]) c

theorem foresees_program : Foresees program :=
  (Phrase.foresees_parse .statements).bind fun _ => foresees_finish

end Production

/-- A name that is missed is missed at the token behind the tokens read. -/
theorem exists_missed_name {ls : List Lexeme} {root : Node} {fault : Fault}
    (h : parsePartial ls = (root, some fault)) (hmisses : fault.cause.MissesName) :
    ∃ before w t after, significantTokens ls = before ++ w :: t :: after ∧
      w.Keyword "for" ∧ fault.token = some t ∧ root.allTokens = before ++ [w] := by
  obtain ⟨hfault, hroot⟩ := parsePartial_eq_some_iff.mp h
  obtain ⟨before, w, htokens, hw⟩ := (Production.foresees_program _).name fault hfault hmisses
  have hall : root.allTokens = before ++ [w] := by
    rw [hroot]
    exact htokens
  obtain ⟨hread, hnext⟩ := fault_token_eq h
  cases Production.program_faithful hfault with
  | atEnd => exact hmisses.elim
  | @token cause t _ =>
      obtain ⟨hlt, ht⟩ := List.getElem?_eq_some_iff.mp hnext.symm
      refine ⟨before, w, t, (significantTokens ls).drop (root.allTokens.length + 1), ?_, hw, rfl,
        hall⟩
      calc significantTokens ls
          = root.allTokens ++ (significantTokens ls).drop root.allTokens.length := by
            conv_lhs => rw [← List.take_append_drop root.allTokens.length (significantTokens ls),
              hread]
        _ = root.allTokens ++ t :: (significantTokens ls).drop (root.allTokens.length + 1) := by
            rw [List.drop_eq_getElem_cons hlt, ht]
        _ = before ++ w :: t :: (significantTokens ls).drop (root.allTokens.length + 1) := by
            rw [hall, List.append_assoc]
            rfl

/-- Looking ahead shows the token that is read next, and shows none exactly if reading takes all
that is left and comes to the end. So no parse misses a word that opens what it reads; where it
misses a name, the token that it reports stands right behind a `for`; and the calls in its tree,
which may be a part of one, begin with the node of their name. -/
theorem lookahead_is_read :
    (∀ c t, (Production.peek c).result = .ok (some t) ↔ (Production.nextToken c).result = .ok t) ∧
    (∀ c, (Production.peek c).result = .ok none ↔ Production.nextToken c =
      ⟨c.rest.map Tree.lexeme ++ [.fault (.atEnd c.eof)], [], .error (.atEnd c.eof)⟩) ∧
    ∀ ls,
      (∀ fault, (parsePartial ls).2 = some fault →
        ¬ fault.cause.MissesOpening ∧
        (fault.cause.MissesName →
          ∃ before w t after, significantTokens ls = before ++ w :: t :: after ∧
            w.Keyword "for" ∧ fault.token = some t ∧
            (parsePartial ls).1.allTokens = before ++ [w])) ∧
      ∀ children, Occurs (.node .call children) (parsePartial ls).1.toTree →
        ∃ run t more, children = .node .lhs (run.map Tree.lexeme ++ [.token t]) :: more ∧
          significantTokens run = [] ∧ t.kind = .identifier := by
  refine ⟨fun _ _ => Production.peek_eq_some_iff, fun _ => Production.peek_eq_none_iff, ?_⟩
  intro ls
  have hforesees := Production.foresees_program (.ofLexemes ls)
  refine ⟨?_, ?_⟩
  · intro fault hsome
    have h : parsePartial ls = ((parsePartial ls).1, some fault) := Prod.ext rfl hsome
    exact ⟨hforesees.opening fault (parsePartial_eq_some_iff.mp h).1, exists_missed_name h⟩
  · rw [parsePartial_fst]
    exact callsNamed_node nofun hforesees.calls

/-- Behind a call, a loop over a number: its fault is at the number, and the call is in the
tree. -/
theorem lookahead_is_read_for :
    let ls := scan "f(1) for 2" none
    (∃ fault, (parsePartial ls).2 = some fault ∧
      fault.cause = .unexpectedToken "identifier" "2" ∧ ¬ fault.cause.MissesOpening ∧
      ∃ before w t after, significantTokens ls = before ++ w :: t :: after ∧
        w.Keyword "for" ∧ fault.token = some t) ∧
    ∃ children, Occurs (.node .call children) (parsePartial ls).1.toTree ∧
      ∃ run t more, children = .node .lhs (run.map Tree.lexeme ++ [.token t]) :: more ∧
        significantTokens run = [] ∧ t.kind = .identifier := by
  intro ls
  have hcause : (parsePartial ls).2.map Fault.cause =
      some (.unexpectedToken "identifier" "2") := by decide +kernel
  obtain ⟨fault, hfault, hcause⟩ := Option.map_eq_some_iff.mp hcause
  have hsome : ((parsePartial ls).1.child? .call).isSome := by decide +kernel
  obtain ⟨⟨kind, children⟩, hchild⟩ := Option.isSome_iff_exists.mp hsome
  obtain ⟨hmem, rfl⟩ := Node.mem_of_child? hchild
  obtain ⟨-, -, hparse⟩ := lookahead_is_read
  obtain ⟨hmisses, hcalls⟩ := hparse ls
  have hin : Occurs (.node .call children) (parsePartial ls).1.toTree := .inside hmem .whole
  obtain ⟨hopening, hname⟩ := hmisses fault hfault
  obtain ⟨before, w, t, after, htokens, hw, ht, -⟩ := hname (by simp [hcause, Cause.MissesName])
  exact ⟨⟨fault, hfault, hcause, hopening, before, w, t, after, htokens, hw, ht⟩, children, hin,
    hcalls children hin⟩

end ScriptSyntax
