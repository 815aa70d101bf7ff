import Mathlib.Order.Bounds.Basic
import ScriptSyntax.Proofs.Acceptance
import ScriptSyntax.Proofs.Locality

/-!
Faults are found at the earliest token. A list of tokens is viable if some program
begins with it. A parse that comes to the end too early has read a viable list:
every step of the grammar can still be completed there. A parse that fails at a
token has read a viable list in front of it, and no program begins with that list
and the token: the parse would fail on the program in the same way, since it looks
no further than the token.
-/

namespace ScriptSyntax

open ScriptSyntax.Tree

namespace Production

/-- A run that comes to the end too early has read the front of a word. -/
theorem Run.completes {held : List Token} {L : Language Tree} {c : Cursor} {o : Outcome Unit}
    {fault : Fault} (h : Run held L c o) (hfault : o.result = .error fault)
    (hcause : fault.cause = .unexpectedEof) :
    ∃ word ∈ L, significantTokens (held.map .token ++ c.rest) <+: tokensOfAll word := by
  induction h with
  | nothing | attach => cases hfault
  | @reject _ _ cause _ _ htakes =>
      cases hfault
      change cause = .unexpectedEof at hcause
      rw [hcause] at htakes
      exact htakes.elim
  | refuse =>
      cases hfault
      cases hcause
  | exhaust c hc hL =>
      obtain ⟨word, hword⟩ := hL
      refine ⟨word, hword, ?_⟩
      rw [List.map_nil, List.nil_append, hc]
      exact List.nil_prefix
  | read _ htrivia _ ih =>
      obtain ⟨word, hword, hread⟩ := ih hfault
      refine ⟨word, hword, ?_⟩
      rw [List.map_nil, List.nil_append, significantTokens_append, htrivia, List.nil_append]
      exact hread
  | stop _ _ hM ih =>
      obtain ⟨word, hword, hread⟩ := ih hfault
      obtain ⟨more, hmore⟩ := hM
      refine ⟨_, Language.append_mem_mul hword hmore, ?_⟩
      rw [tokensOfAll_append]
      exact hread.trans (List.prefix_append ..)
  | @andThen held _ _ c o _ ho hok _ _ ih' =>
      -- The first steps have built a word, and the run broke off in the next one.
      obtain ⟨more, hmore, hrest⟩ := ih' hfault
      obtain ⟨read, hleaves, hread⟩ := ho.accounts
      rw [Outcome.faults_of_ok hok, List.map_nil, List.append_nil] at hleaves
      rw [Outcome.ahead_of_ok hok] at hread
      refine ⟨_, Language.append_mem_mul (ho.builds hok) hmore, ?_⟩
      rw [← hread, tokensOfAll_append, tokensOfAll_withoutTriviaOfAll,
        tokensOfAll_of_leaves hleaves, significantTokens_append]
      exact (List.prefix_append_right_inj _).mpr hrest
  | within kind _ ih =>
      obtain ⟨word, hword, hread⟩ := ih hfault
      refine ⟨_, ⟨word, hword, rfl⟩, ?_⟩
      rwa [tokensOfAll_cons, tokens_node, tokensOfAll_nil, List.append_nil]
  | mono _ hLM ih =>
      obtain ⟨word, hword, hread⟩ := ih hfault
      exact ⟨word, hLM word hword, hread⟩

/-- Whether a program is read depends on its significant tokens alone. -/
theorem program_ok_of_tokens_eq {c c' : Cursor} (h : (program c).result = .ok ())
    (htokens : significantTokens c'.rest = significantTokens c.rest) :
    (program c').result = .ok () := by
  have hbuilt : tokensOfAll (withoutTriviaOfAll (program c).appended) =
      significantTokens c.rest := by
    rw [tokensOfAll_withoutTriviaOfAll, tokensOfAll_of_leaves (program_leaves h)]
  exact (yields_program (builds_program h) c' (htokens.trans hbuilt.symm)).1

end Production

/-- Some program begins with these tokens. -/
def Viable (tokens : List Token) : Prop :=
  ∃ ls root, parse ls = .ok root ∧ tokens <+: significantTokens ls

theorem Viable.of_prefix {front tokens : List Token} (h : Viable tokens)
    (hfront : front <+: tokens) : Viable front := by
  obtain ⟨ls, root, hparse, htokens⟩ := h
  exact ⟨ls, root, hparse, hfront.trans htokens⟩

/-- Where a list stops being viable, it stops for the first time. -/
theorem isLeast_of_viable {front : List Token} {token : Token} (h : Viable front)
    (hnot : ¬ Viable (front ++ [token])) (behind : List Token) :
    IsLeast {j | ¬ Viable ((front ++ token :: behind).take (j + 1))} front.length := by
  constructor
  · change ¬ Viable _
    rwa [List.append_cons, List.take_left' (by simp)]
  · intro j hj
    by_contra hlt
    apply hj
    apply h.of_prefix
    rw [List.take_append_of_le_length (by omega)]
    exact List.take_prefix ..

namespace Production

variable {c : Cursor} {fault : Fault}

theorem viable_of_ok (h : (program c).result = .ok ()) : Viable (significantTokens c.rest) := by
  have hparse : (program (.ofLexemes c.rest)).result = .ok () := program_ok_of_tokens_eq h rfl
  exact ⟨c.rest, _, parse_eq_ok_iff.mpr ⟨hparse, rfl⟩, List.prefix_rfl⟩

/-- A program that ends too early can be completed. -/
theorem viable_of_eof (h : (program c).result = .error fault)
    (hcause : fault.cause = .unexpectedEof) : Viable (significantTokens c.rest) := by
  rcases program_eq_error h with ⟨hfault, _⟩ | ⟨token, tokens, _, _, rfl, _⟩
  · obtain ⟨statements, hstatements, hfront⟩ := (run_statements c).completes hfault hcause
    let whole : Cursor := ⟨(tokensOfAll statements).map .token, c.eof⟩
    have htokens : significantTokens whole.rest = tokensOfAll statements :=
      significantTokens_map_token fun _ => isSignificant_of_mem_tokensOfAll
    have hwhole := viable_of_ok (yields_program hstatements whole htokens).1
    rw [htokens] at hwhole
    exact hwhole.of_prefix hfront
  · cases hcause

/-- What a program has read when it fails is viable: on that alone, it does not
fail at a token. -/
theorem viable_of_read {read ahead : List Lexeme} (hc : c.rest = read ++ ahead)
    (hleaves : leavesOfAll (program c).appended = read.map .lexeme ++ [.fault fault]) :
    Viable (significantTokens read) := by
  cases hresult : (program ⟨read, c.eof⟩).result with
  | ok _ => exact viable_of_ok hresult
  | error other =>
      by_cases hcause : other.cause = .unexpectedEof
      · exact viable_of_eof hresult hcause
      · exfalso
        obtain ⟨front, trivia, token, after, hread, _, _, _, hfront, hearly⟩ :=
          program_fails_early hresult hcause
        change read = front ++ trivia ++ .token token :: after at hread
        have hsame := hearly c (after ++ ahead) (by rw [hc, hread]; simp)
        rw [hsame.2, hfront] at hleaves
        have hlength := congrArg List.length hleaves
        have hlonger := congrArg List.length hread
        simp only [List.length_append, List.length_map, List.length_cons] at hlength hlonger
        omega

/-- A program that fails at a token has read a viable list, and no program begins
with that list and the token. -/
theorem viable_up_to_fault (h : (program c).result = .error fault)
    (hcause : fault.cause ≠ .unexpectedEof) :
    ∃ front token behind, significantTokens c.rest = front ++ token :: behind ∧
      fault.token = some token ∧ Viable front ∧ ¬ Viable (front ++ [token]) := by
  obtain ⟨read, trivia, token, after, hc, htoken, hs, htrivia, hleaves, hearly⟩ :=
    program_fails_early h hcause
  have hsplit (behind : List Lexeme) :
      significantTokens (read ++ trivia ++ .token token :: behind) =
        significantTokens read ++ token :: significantTokens behind := by
    simp [htrivia, significantTokens_cons_token hs]
  refine ⟨significantTokens read, token, significantTokens after, ?_, htoken, ?_, ?_⟩
  · rw [hc, hsplit]
  · rw [List.append_assoc] at hc
    exact viable_of_read hc hleaves
  · rintro ⟨ls, root, hparse, more, hmore⟩
    -- The lexemes up to the token at fault, and then the tokens of the program behind it.
    let mended : Cursor := ⟨read ++ trivia ++ .token token :: more.map .token, c.eof⟩
    have hmended : significantTokens mended.rest = significantTokens ls := by
      have hkept : significantTokens (more.map .token) = more := by
        apply significantTokens_map_token
        intro t ht
        apply isSignificant_of_mem_significantTokens
        rw [← hmore]
        exact List.mem_append_right _ ht
      rw [hsplit, hkept, ← hmore, List.append_assoc, List.singleton_append]
    have hok := program_ok_of_tokens_eq (parse_eq_ok_iff.mp hparse).1 hmended
    have hfails := (hearly mended (more.map .token) rfl).1
    cases hok.symm.trans hfails

end Production

theorem parse_eq_error_iff {ls : List Lexeme} {fault : Fault} :
    parse ls = .error fault ↔ (Production.program (.ofLexemes ls)).result = .error fault := by
  simp only [parse, parsePartial]
  cases (Production.program (.ofLexemes ls)).result with
  | ok value => simp
  | error other => simp

/-- A parse ends too early exactly if its tokens are viable. -/
theorem cause_eq_eof_iff {ls : List Lexeme} {fault : Fault} (h : parse ls = .error fault) :
    fault.cause = .unexpectedEof ↔ Viable (significantTokens ls) := by
  have hprogram := parse_eq_error_iff.mp h
  constructor
  · exact Production.viable_of_eof hprogram
  · intro hviable
    by_contra hcause
    obtain ⟨front, token, behind, htokens, _, _, hnot⟩ :=
      Production.viable_up_to_fault hprogram hcause
    change significantTokens ls = _ at htokens
    apply hnot
    apply hviable.of_prefix
    rw [htokens]
    exact ⟨behind, by simp⟩

/-- A parse that fails reports the first token that no program can have there, or
the end if there is no such token. So a front part of a program is a program, or
ends too early. -/
theorem parse_fault_earliest :
    (∀ (ls : List Lexeme) (fault : Fault), parse ls = .error fault →
      (fault.cause = .unexpectedEof ↔ Viable (significantTokens ls)) ∧
      (fault.cause ≠ .unexpectedEof → ∃ i token, (significantTokens ls)[i]? = some token ∧
        fault.token = some token ∧
        IsLeast {j | ¬ Viable ((significantTokens ls).take (j + 1))} i ∧
        Viable ((significantTokens ls).take i))) ∧
    ∀ (ls front : List Lexeme) (root : Node), parse ls = .ok root → front <+: ls →
      (∃ root', parse front = .ok root') ∨
        ∃ fault, parse front = .error fault ∧ fault.cause = .unexpectedEof := by
  constructor
  · intro ls fault h
    refine ⟨cause_eq_eof_iff h, ?_⟩
    intro hcause
    obtain ⟨front, token, behind, htokens, htoken, hviable, hnot⟩ :=
      Production.viable_up_to_fault (parse_eq_error_iff.mp h) hcause
    change significantTokens ls = _ at htokens
    rw [htokens]
    refine ⟨front.length, token, ?_, htoken, isLeast_of_viable hviable hnot behind, ?_⟩
    · rw [List.getElem?_append_right (Nat.le_refl _), Nat.sub_self, List.getElem?_cons_zero]
    · rwa [List.take_left]
  · intro ls front root h hfront
    cases hparse : parse front with
    | ok root' => exact .inl ⟨root', rfl⟩
    | error fault =>
        refine .inr ⟨fault, rfl, ?_⟩
        rw [cause_eq_eof_iff hparse]
        exact ⟨ls, root, h, hfront.filterMap _⟩

theorem parse_fault_earliest_call :
    (∃ fault i token, parse (scan "f(1 2)" none) = .error fault ∧ fault.token = some token ∧
      (significantTokens (scan "f(1 2)" none))[i]? = some token ∧
      IsLeast {j | ¬ Viable ((significantTokens (scan "f(1 2)" none)).take (j + 1))} i) ∧
    ∃ fault, parse ((scan "f(1)" none).take 3) = .error fault ∧
      fault.cause = .unexpectedEof := by
  constructor
  · have hcause : (parsePartial (scan "f(1 2)" none)).2.map (·.cause.name) =
        some "UnexpectedToken" := by decide +kernel
    obtain ⟨fault, hfault, hname⟩ := Option.map_eq_some_iff.mp hcause
    have hpair : parsePartial (scan "f(1 2)" none) = (_, some fault) := Prod.ext rfl hfault
    have hparse := parse_eq_error_iff.mpr (parsePartial_eq_some_iff.mp hpair).1
    have hearly : fault.cause ≠ .unexpectedEof := by
      intro heof
      rw [heof] at hname
      exact absurd hname (by decide)
    obtain ⟨i, token, htoken, hfound, hleast, _⟩ := (parse_fault_earliest.1 _ fault hparse).2 hearly
    exact ⟨fault, i, token, hparse, hfound, htoken, hleast⟩
  · obtain ⟨root, hparse⟩ := exists_of_parse_isOk (scan "f(1)" none) (by decide +kernel)
    rcases parse_fault_earliest.2 _ _ root hparse (List.take_prefix 3 _) with ⟨root', hroot⟩ | hfault
    · have hnot : ¬ (parse ((scan "f(1)" none).take 3)).isOk := by decide +kernel
      rw [hroot] at hnot
      exact absurd rfl hnot
    · exact hfault

end ScriptSyntax
