import ScriptSyntax.Proofs.Acceptance
import ScriptSyntax.Proofs.Layout

/-!
Programs one after the other. A program leaves no statement open, so what stands
behind it is parsed as if it stood alone: no statement in front takes anything of
it in, and it fails, if it fails, in the same way. Only trivia moves. What a
program has behind its last token goes into the first statement that follows.
-/

namespace ScriptSyntax

open ScriptSyntax.Tree

/-- The same with more trees in front. -/
def Outcome.behind {α : Type} (o : Outcome α) (front : List Tree) : Outcome α :=
  { o with appended := front ++ o.appended }

theorem Outcome.behind_behind {α : Type} (o : Outcome α) (front more : List Tree) :
    (o.behind more).behind front = o.behind (front ++ more) := by
  simp only [behind, List.append_assoc]

namespace Production

variable {α β : Type}

theorem bind_of_ok_behind {p : Production α} {f : α → Production β} {c : Cursor} {a : α}
    (h : (p c).result = .ok a) :
    (p >>= f) c = (f a ⟨(p c).rest, c.eof⟩).behind (p c).appended :=
  bind_of_ok h

/-- Trees that one step has in front of those of another run, all steps behind it have. -/
theorem bind_behind {p : Production α} {f : α → Production β} {c d : Cursor} {front : List Tree}
    (heof : c.eof = d.eof) (h : p c = (p d).behind front) :
    (p >>= f) c = ((p >>= f) d).behind front := by
  cases hresult : (p d).result with
  | ok a =>
      have hresult' : (p c).result = .ok a := by rw [h]; exact hresult
      rw [bind_of_ok_behind hresult, bind_of_ok_behind hresult', h, heof, Outcome.behind_behind]
      rfl
  | error fault =>
      have hresult' : (p c).result = .error fault := by rw [h]; exact hresult
      rw [bind_of_error hresult, bind_of_error hresult', h]
      rfl

end Production

namespace Phrase

open Production

/-- In front of a token that closes no block, the next statement is read. -/
theorem statements_of_opens {c : Cursor} {token : Token}
    (hhead : (significantTokens c.rest).head? = some token)
    (hopens : ¬ token.isKeyword ["end", "elseif", "else"]) :
    Production.statements c =
      (statementRule Production.expr Production.statements elseIfs.parse token >>=
        fun _ => Production.statements) c := by
  have hrule := congrFun statements_eq c
  rw [hrule, statementsRule, peek_bind, hhead]
  simp only [hopens]
  rfl

/-- Statements are read one by one: those of the schema in front are read off, and
what is behind them is read as if it stood alone. -/
theorem statements_behind {trees : List Tree} (h : ∀ tree ∈ trees, Conforms .statement tree)
    {after : List Token} {c : Cursor} (hc : significantTokens c.rest = tokensOfAll trees ++ after) :
    ∃ front rest, withoutTriviaOfAll front = trees ∧ significantTokens rest = after ∧
      Production.statements c = (Production.statements ⟨rest, c.eof⟩).behind front := by
  induction trees generalizing c with
  | nil => exact ⟨[], c.rest, rfl, hc, rfl⟩
  | cons tree trees ih =>
      have htree := h tree (by simp)
      obtain ⟨token, more, htokens, hopens, hstatement⟩ := readBack_of_conforms htree
      have hahead : significantTokens c.rest =
          tokensOfAll [tree] ++ (tokensOfAll trees ++ after) := by
        rw [hc, ← List.append_assoc, ← tokensOfAll_append]
        rfl
      have hhead : (significantTokens c.rest).head? = some token := by
        rw [hahead, tokensOfAll_cons, htokens]
        rfl
      obtain ⟨hresult, hbuilt, hrest⟩ :=
        (hstatement _).yields (dressable_of_conforms htree) c hahead
      have hstep := (statements_of_opens hhead hopens).trans (bind_of_ok_behind hresult)
      generalize statementRule Production.expr Production.statements elseIfs.parse token c = o
        at hbuilt hrest hstep
      obtain ⟨front, rest, hfront, hafter, hsame⟩ :=
        ih (fun other hother => h other (by simp [hother])) (c := ⟨o.rest, c.eof⟩) hrest
      refine ⟨o.appended ++ front, rest, ?_, hafter, ?_⟩
      · rw [withoutTriviaOfAll_append, hbuilt, hfront, List.singleton_append]
      · rw [hstep, hsame, Outcome.behind_behind]

end Phrase

/-- A program in front is read off, and what is behind it is parsed as if it stood alone. -/
theorem Production.program_behind {a : List Lexeme} {root : Node} (h : parse a = .ok root)
    (b : List Lexeme) (eof : Position) :
    ∃ front rest, withoutTriviaOfAll front = root.withoutTrivia.children ∧
      significantTokens rest = significantTokens b ∧
      program ⟨a ++ b, eof⟩ = (program ⟨rest, eof⟩).behind front := by
  have htokens := tokens_of_parse h
  obtain ⟨hresult, rfl⟩ := parse_eq_ok_iff.mp h
  have hboth : significantTokens (a ++ b) =
      tokensOfAll (withoutTriviaOfAll (program (.ofLexemes a)).appended) ++
        significantTokens b := by
    rw [significantTokens_append, ← htokens]
    rfl
  obtain ⟨front, rest, hfront, hrest, hsame⟩ :=
    Phrase.statements_behind (builds_program hresult) (c := ⟨a ++ b, eof⟩) hboth
  exact ⟨front, rest, hfront, hrest, bind_behind rfl hsame⟩

/-- Lexemes pass for each other by their tokens, places included, whatever the trivia. -/
def Likeness.byToken : Likeness where
  token t u := t = u
  trivia _ _ := True
  position p q := p = q
  kind_eq h := congrArg Token.kind h
  value_eq h := congrArg Token.value h
  start h := congrArg (·.span.start) h
  trivia_nil := trivial

namespace Likeness

theorem meets_byToken : byToken.Meets id id where
  token h := congrArg _ h
  position h := h

theorem eq_of_faults_byToken {f g : Fault} (h : byToken.Faults f g) : f = g := by
  have hmoved := meets_byToken.fault h
  rwa [Fault.relocate_id, Fault.relocate_id] at hmoved

theorem eq_of_results_byToken {r s : Except Fault Unit} (h : byToken.Results Eq r s) : r = s := by
  cases h with
  | ok h => rw [h]
  | error h => rw [eq_of_faults_byToken h]

/-- Runs in front of the same tokens add the same trees, trivia aside, and have the
same result. -/
theorem program_byToken {rest rest' : List Lexeme} (eof : Position)
    (h : significantTokens rest = significantTokens rest') :
    withoutTriviaOfAll (Production.program ⟨rest, eof⟩).appended =
        withoutTriviaOfAll (Production.program ⟨rest', eof⟩).appended ∧
      (Production.program ⟨rest, eof⟩).result = (Production.program ⟨rest', eof⟩).result := by
  have hlike : byToken.Lexemes rest rest' := by
    apply Lexemes.of_tokens fun _ _ => trivial
    change List.Forall₂ Eq _ _
    rwa [List.forall₂_eq_eq_eq]
  obtain ⟨htrees, _, hresult⟩ := inStep_program (K := byToken) ⟨rest, eof⟩ ⟨rest', eof⟩ ⟨hlike, rfl⟩
  have hmoved := htrees.relocate_withoutTrivia_eq meets_byToken
  rw [relocateAll_id, relocateAll_id] at hmoved
  exact ⟨hmoved, eq_of_results_byToken hresult⟩

end Likeness

theorem Cursor.ofLexemes_append {b : List Lexeme} (h : b ≠ []) (a : List Lexeme) :
    Cursor.ofLexemes (a ++ b) = ⟨a ++ b, (Cursor.ofLexemes b).eof⟩ := by
  simp only [Cursor.ofLexemes, List.getLast?_append_of_ne_nil a h]

theorem parsePartial_snd (ls : List Lexeme) :
    (parsePartial ls).2 = (Production.program (.ofLexemes ls)).faults.head? := by
  simp only [parsePartial, Outcome.faults]
  cases (Production.program (.ofLexemes ls)).result <;> rfl

/-- A list behind a program has the fault that it has alone, or none, and its trees stand
behind those of the program. -/
theorem parsePartial_append (a b : List Lexeme) (root : Node) (h : parse a = .ok root) :
    (parsePartial (a ++ b)).2 = (parsePartial b).2 ∧
      (parsePartial (a ++ b)).1.withoutTrivia.children =
        root.withoutTrivia.children ++ (parsePartial b).1.withoutTrivia.children := by
  by_cases hb : b = []
  · -- with nothing behind it the program ends where it did
    have hnone : parsePartial [] = (⟨.body, []⟩, none) := rfl
    rw [hb, List.append_nil, parse_eq_ok_iff_parsePartial.mp h, hnone]
    exact ⟨rfl, (List.append_nil _).symm⟩
  · obtain ⟨front, rest, hfront, hrest, hsame⟩ :=
      Production.program_behind h b (Cursor.ofLexemes b).eof
    obtain ⟨htrees, hresult⟩ := Likeness.program_byToken (Cursor.ofLexemes b).eof hrest
    rw [parsePartial_snd, parsePartial_snd, parsePartial_fst, parsePartial_fst,
      Cursor.ofLexemes_append hb, hsame]
    constructor
    · simp only [Outcome.faults, Outcome.behind, hresult]
      rfl
    · change withoutTriviaOfAll (front ++ _) = _
      rw [withoutTriviaOfAll_append, hfront, htrees]
      rfl

/-- Behind `f(1) -- one` the second number of `g(2 3)` is at fault as it is alone. -/
theorem parsePartial_append_call :
    ∃ root fault, parse (scan "f(1) -- one\n" none) = .ok root ∧
      (parsePartial (scan "g(2 3)" none)).2 = some fault ∧
      (parsePartial (scan "f(1) -- one\n" none ++ scan "g(2 3)" none)).2 = some fault ∧
      (parsePartial (scan "f(1) -- one\n" none ++ scan "g(2 3)" none)).1.withoutTrivia.children =
        root.withoutTrivia.children ++
          (parsePartial (scan "g(2 3)" none)).1.withoutTrivia.children := by
  obtain ⟨root, hparse⟩ := exists_of_parse_isOk (scan "f(1) -- one\n" none) (by decide +kernel)
  obtain ⟨fault, hfault⟩ := Option.isSome_iff_exists.mp
    (show (parsePartial (scan "g(2 3)" none)).2.isSome by decide +kernel)
  obtain ⟨hsame, hchildren⟩ := parsePartial_append _ (scan "g(2 3)" none) root hparse
  exact ⟨root, fault, hparse, hfault, hsame.trans hfault, hchildren⟩

end ScriptSyntax
