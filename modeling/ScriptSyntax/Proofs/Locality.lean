import ScriptSyntax.Proofs.Failure

/-!
How far a parse looks. A run is settled once the first token that it leaves, or
the token that its fault took, has been seen: no production looks any further.
So a settled run does not depend on what stands behind that token, nor on where
the end of the file is. The proof compares two runs on lists with the same front.
-/

namespace ScriptSyntax

open ScriptSyntax.Tree

theorem Fault.length_taken_le (fault : Fault) : fault.taken.length ≤ 1 := by
  unfold taken
  split <;> cases fault.token <;> simp

theorem Outcome.length_taken_le {α : Type} (o : Outcome α) :
    (o.faults.flatMap Fault.taken).length ≤ 1 := by
  cases hresult : o.result with
  | ok a => simp [faults_of_ok hresult]
  | error fault =>
      rw [faults_of_error hresult, List.flatMap_singleton]
      exact fault.length_taken_le

/-- Whatever is in front of what is ahead begins with what the fault took. -/
theorem Outcome.exists_left {α : Type} {o : Outcome α} {front after : List Lexeme}
    (h : o.ahead = front ++ after) (hfront : front ≠ []) :
    ∃ left, front = o.faults.flatMap Fault.taken ++ left ∧ o.rest = left ++ after := by
  have hlength : 0 < front.length := List.length_pos_iff.mpr hfront
  have htaken := o.length_taken_le
  rcases List.append_eq_append_iff.mp h with ⟨left, hleft, hrest⟩ | ⟨more, hmore, hafter⟩
  · exact ⟨left, hleft, hrest⟩
  · obtain rfl : more = [] := by
      rw [hmore, List.length_append] at htaken
      exact List.length_eq_zero_iff.mp (by omega)
    exact ⟨[], by simpa using hmore.symm, by simpa using hafter.symm⟩

/-- The run did not come to the end, and there is a token in what its fault took
or in `left`, which it leaves. -/
def Outcome.Settled {α : Type} (o : Outcome α) (left : List Lexeme) : Prop :=
  (∀ fault, o.result = .error fault → fault.cause ≠ .unexpectedEof) ∧
    significantTokens (o.faults.flatMap Fault.taken ++ left) ≠ []

theorem Outcome.settled_of_ok {α : Type} {o : Outcome α} {a : α} {left : List Lexeme}
    (h : o.result = .ok a) : o.Settled left ↔ significantTokens left ≠ [] := by
  simp [Settled, faults_of_ok h, h]

/-- The first token does not depend on what stands behind it. -/
theorem head?_significantTokens_append {seen : List Lexeme} (h : significantTokens seen ≠ [])
    (rest other : List Lexeme) :
    (significantTokens (seen ++ rest)).head? = (significantTokens (seen ++ other)).head? := by
  simp only [significantTokens_append, List.head?_append_of_ne_nil _ h]

namespace Production

/-- Once the first run is settled in front of `unseen`, the second, with `other`
in its place, goes the same way. -/
def SameBut (c c' : Cursor) (o o' : Outcome Unit) : Prop :=
  ∀ seen left unseen other, c.rest = seen ++ unseen → c'.rest = seen ++ other →
    o.rest = left ++ unseen → o.Settled left → o' = { o with rest := left ++ other }

/-- Looks no further than it must. -/
def Local (p : Production Unit) : Prop := ∀ c c', SameBut c c' (p c) (p c')

theorem Run.forward {held : List Token} {L : Language Tree} {c : Cursor} {o : Outcome Unit}
    (h : Run held L c o) : o.rest <:+ c.rest := by
  induction h with
  | nothing | attach | reject | refuse => exact List.suffix_rfl
  | exhaust => exact List.nil_suffix
  | read _ _ _ ih => exact ih.trans ((List.suffix_cons ..).trans (List.suffix_append ..))
  | stop _ _ _ ih => exact ih
  | andThen _ _ _ ih ih' => exact ih'.trans ih
  | within _ _ ih => exact ih
  | mono _ _ ih => exact ih

/-- A settled run has a token in front of what it has not seen. -/
theorem Run.exists_seen {L : Language Tree} {c : Cursor} {o : Outcome Unit} (h : Run [] L c o)
    {left unseen : List Lexeme} (hrest : o.rest = left ++ unseen) (hsettled : o.Settled left) :
    ∃ seen, c.rest = seen ++ unseen ∧ significantTokens seen ≠ [] := by
  obtain ⟨read, _, hread⟩ := h.accounts
  refine ⟨read ++ (o.faults.flatMap Fault.taken ++ left), ?_, ?_⟩
  · rw [Outcome.ahead, hrest, List.map_nil, List.nil_append] at hread
    rw [← hread]
    simp only [List.append_assoc]
  · rw [significantTokens_append]
    exact List.append_ne_nil_of_right_ne_nil _ hsettled.2

section Steps

variable {p q : Production Unit} {c c' : Cursor}

/-- A production that leaves the cursor alone. -/
theorem local_of_still {appended : List Tree} {result : Except Fault Unit}
    (h : ∀ c, p c = ⟨appended, c.rest, result⟩) : Local p := by
  intro c c' seen left unseen other hc hc' hrest _
  rw [h] at hrest ⊢
  obtain rfl : seen = left := List.append_cancel_right (hc.symm.trans hrest)
  rw [h, hc']

theorem local_failAt (t : Token) (cause : Cause) : Local (failAt t cause) :=
  local_of_still fun _ => rfl

theorem Local.within (h : Local p) (kind : NodeKind) : Local (within kind p) := by
  intro c c' seen left unseen other hc hc' hrest hsettled
  unfold Production.within
  rw [h c c' seen left unseen other hc hc' hrest hsettled]

/-- Where a second run is settled, the first run was settled in front of it. -/
theorem SameBut.of_settled_next {M : Language Tree} {o : Outcome Unit}
    (hp : SameBut c c' (p c) (p c')) (hresult : (p c).result = .ok ())
    (hrun : Run [] M ⟨(p c).rest, c.eof⟩ o) {seen left unseen other : List Lexeme}
    (hc : c.rest = seen ++ unseen) (hc' : c'.rest = seen ++ other)
    (hrest : o.rest = left ++ unseen) (hsettled : o.Settled left) :
    ∃ mid, (p c).rest = mid ++ unseen ∧ significantTokens mid ≠ [] ∧
      p c' = { p c with rest := mid ++ other } := by
  obtain ⟨mid, hmid, htokens⟩ := hrun.exists_seen hrest hsettled
  have hfirst := (Outcome.settled_of_ok hresult).mpr htokens
  exact ⟨mid, hmid, htokens, hp seen mid unseen other hc hc' hmid hfirst⟩

theorem sameBut_andThen {M : Language Tree} (hp : SameBut c c' (p c) (p c'))
    (hrun : Run [] M ⟨(p c).rest, c.eof⟩ (q ⟨(p c).rest, c.eof⟩))
    (hq : ∀ d, SameBut ⟨(p c).rest, c.eof⟩ d (q ⟨(p c).rest, c.eof⟩) (q d)) :
    SameBut c c' ((p >>= fun _ => q) c) ((p >>= fun _ => q) c') := by
  intro seen left unseen other hc hc' hrest hsettled
  cases hresult : (p c).result with
  | error fault =>
      rw [bind_of_error hresult, ← hresult] at hrest hsettled ⊢
      have hsame := hp seen left unseen other hc hc' hrest hsettled
      have hresult' : (p c').result = .error fault := by rw [hsame, hresult]
      rw [bind_of_error hresult', hsame, hresult]
  | ok _ =>
      rw [bind_of_ok hresult] at hrest hsettled ⊢
      obtain ⟨mid, hmid, _, hsame⟩ := hp.of_settled_next hresult hrun hc hc' hrest hsettled
      have hresult' : (p c').result = .ok () := by rw [hsame, hresult]
      have hrest' : (p c').rest = mid ++ other := by rw [hsame]
      have hsame' := hq { c' with rest := (p c').rest } mid left unseen other hmid hrest' hrest
        hsettled
      rw [bind_of_ok hresult', hsame', hsame]

theorem sameBut_read {L : Language Tree} {q : Token → Production Unit}
    (hrun : ∀ t, t.isSignificant → (significantTokens c.rest).head? = some t →
      ∀ d, Run [t] L d (q t d))
    (hq : ∀ t, t.isSignificant → (significantTokens c.rest).head? = some t → Local (q t)) :
    SameBut c c' ((nextToken >>= q) c) ((nextToken >>= q) c') := by
  intro seen left unseen other hc hc' hrest hsettled
  obtain ⟨rest, eof⟩ := c
  obtain ⟨rest', eof'⟩ := c'
  simp only at hc hc'
  cases htokens : significantTokens rest with
  | nil =>
      rw [nextToken_bind_atEnd htokens] at hsettled
      exact absurd rfl (hsettled.1 (.atEnd eof) rfl)
  | cons t tokens =>
      have hhead : (significantTokens rest).head? = some t := by rw [htokens]; rfl
      obtain ⟨trivia, after, rfl, htrivia, ht, _⟩ := significantTokens_eq_cons_iff.mp htokens
      rw [nextToken_bind_token htrivia ht] at hrest hsettled ⊢
      obtain ⟨more, hmore⟩ := (hrun t ht hhead ⟨after, eof⟩).forward
      change (q t ⟨after, eof⟩).rest = left ++ unseen at hrest
      rw [hrest, ← List.append_assoc] at hmore
      change more ++ left ++ unseen = after at hmore
      subst hmore
      have hseen : seen = trivia ++ .token t :: (more ++ left) := by
        rw [← List.cons_append, ← List.append_assoc] at hc
        exact (List.append_cancel_right hc).symm
      have hrest' : rest' = trivia ++ .token t :: (more ++ left ++ other) := by
        rw [hc', hseen, List.append_assoc, List.cons_append]
      subst hrest'
      have hsame := hq t ht hhead ⟨more ++ left ++ unseen, eof⟩ ⟨more ++ left ++ other, eof'⟩
        (more ++ left) left unseen other rfl rfl hrest hsettled
      rw [nextToken_bind_token htrivia ht, hsame]

/-- Looking ahead shows the same token, if there is one in the common front. -/
theorem sameBut_look {L : Language Tree} {q : Option Token → Production Unit}
    (hrun : Run [] L c ((peek >>= q) c)) (hq : Local (q (significantTokens c.rest).head?)) :
    SameBut c c' ((peek >>= q) c) ((peek >>= q) c') := by
  intro seen left unseen other hc hc' hrest hsettled
  obtain ⟨front, hfront, htokens⟩ := hrun.exists_seen hrest hsettled
  obtain rfl : seen = front := List.append_cancel_right (hc.symm.trans hfront)
  have hhead : (significantTokens c'.rest).head? = (significantTokens c.rest).head? := by
    rw [hc, hc']
    exact head?_significantTokens_append htokens other unseen
  rw [peek_bind] at hrest hsettled ⊢
  rw [peek_bind, hhead]
  exact hq c c' seen left unseen other hc hc' hrest hsettled

theorem sameBut_joined {M : Language Tree} {test : Token → Bool} {q : Token → Production Unit}
    (kind : NodeKind) (hp : SameBut c c' (p c) (p c'))
    (hM : ∀ t, test t → ∃ word, word ∈ M) (hrun : ∀ t, test t → ∀ d, Run [t] M d (q t d))
    (hq : ∀ t, test t → Local (q t)) :
    SameBut c c' (joined p test kind q c) (joined p test kind q c') := by
  intro seen left unseen other hc hc' hrest hsettled
  cases hresult : (p c).result with
  | error fault =>
      rw [joined_of_error hresult] at hrest hsettled ⊢
      have hsame := hp seen left unseen other hc hc' hrest hsettled
      have hresult' : (p c').result = .error fault := by rw [hsame, hresult]
      rw [joined_of_error hresult', hsame]
  | ok _ =>
      by_cases htest : (significantTokens (p c).rest).head?.any test
      · obtain ⟨t, hhead, ht⟩ := (Option.any_eq_true _ _).mp htest
        rw [joined_of_test hresult htest] at hrest hsettled ⊢
        have honly {u : Token} (hu : (significantTokens (p c).rest).head? = some u) : test u := by
          obtain rfl : t = u := by simpa using hhead.symm.trans hu
          exact ht
        have hnext : Run [] M ⟨(p c).rest, c.eof⟩ ((nextToken >>= q) ⟨(p c).rest, c.eof⟩) :=
          run_read (hM t ht) fun u _ hu => hrun u (honly hu)
        have hread (d : Cursor) : SameBut ⟨(p c).rest, c.eof⟩ d
            ((nextToken >>= q) ⟨(p c).rest, c.eof⟩) ((nextToken >>= q) d) :=
          sameBut_read (fun u _ hu => hrun u (honly hu)) fun u _ hu => hq u (honly hu)
        have hboth := sameBut_andThen hp hnext hread seen left unseen other hc hc' hrest hsettled
        change ((p >>= fun _ => nextToken >>= q) c).rest = left ++ unseen at hrest
        change ((p >>= fun _ => nextToken >>= q) c).Settled left at hsettled
        rw [bind_of_ok hresult] at hrest hsettled
        obtain ⟨mid, hmid, htokens, hsame⟩ :=
          hp.of_settled_next hresult hnext hc hc' hrest hsettled
        have hresult' : (p c').result = .ok () := by rw [hsame, hresult]
        have htest' : (significantTokens (p c').rest).head?.any test := by
          rwa [hsame, head?_significantTokens_append htokens other unseen, ← hmid]
        rw [joined_of_test hresult' htest']
        unfold within
        rw [hboth]
      · rw [joined_of_not_test hresult htest] at hrest hsettled ⊢
        have htokens := (Outcome.settled_of_ok hresult).mp hsettled
        have hsame := hp seen left unseen other hc hc' hrest hsettled
        have hresult' : (p c').result = .ok () := by rw [hsame, hresult]
        have htest' : ¬ (significantTokens (p c').rest).head?.any test := by
          rwa [hsame, head?_significantTokens_append htokens other unseen, ← hrest]
        rw [joined_of_not_test hresult' htest', hsame]

end Steps

/-- Composed productions are local, if the phrases inside are. -/
theorem Composed.isLocal {f : Phrase → Production Unit} (hrun : ∀ i c, Run [] i.shape c (f i c))
    (hf : ∀ i, Local (f i)) {held : List Token} {L : Language Tree} {p : Production Unit}
    (h : Composed f held L p) : Local p := by
  induction h with
  | phrase i => exact hf i
  | nothing => exact local_of_still fun _ => rfl
  | andThen _ hq ihp ihq =>
      exact fun c c' => sameBut_andThen (ihp c c') (hq.run hrun _) (ihq _)
  | within kind _ ih => exact ih.within kind
  | attach => exact local_of_still fun _ => rfl
  | reject => exact local_failAt _ _
  | read hq ih =>
      exact fun c c' => sameBut_read (fun t hs _ => (hq t hs).run hrun) fun t hs _ => ih t hs
  | look refuses hnone hsome hrefuses ihnone ihsome =>
      intro c c'
      apply sameBut_look ((Composed.look refuses hnone hsome hrefuses).run hrun c)
      cases (significantTokens c.rest).head? with
      | none => exact ihnone
      | some t =>
          by_cases ht : refuses t
          · rw [hrefuses t ht]
            exact local_failAt _ _
          · exact ihsome t ht
  | joined kind _ hq ihp ihq =>
      exact fun c c' => sameBut_joined kind (ihp c c') (fun t ht => (hq t ht).exists_mem)
        (fun t ht => (hq t ht).run hrun) ihq
  | mono _ _ ih => exact ih

end Production

namespace Phrase

open Production

theorem local_rejecting (phrase : Phrase) : Local (rejecting phrase) :=
  fun _ _ => sameBut_read (fun _ hs _ c => .reject (L := phrase.shape) c hs rfl)
    fun _ _ _ => local_failAt _ _

/-- No phrase looks further than it must. -/
theorem local_parse (phrase : Phrase) : Local phrase.parse := by
  intro c c'
  have hboth := guarded_rule.recursive_induction₂
    (P := fun phrase c c' o o' => Run [] phrase.shape c o ∧ SameBut c c' o o')
    rejecting (fun phrase c c' => ⟨run_rejecting phrase c, local_rejecting phrase c c'⟩)
    (fun f hf phrase c c' => ⟨(composed_rule phrase).run (fun i c => (hf i c c).1) c,
      (composed_rule phrase).isLocal (fun i c => (hf i c c).1) (fun i c c' => (hf i c c').2) c c'⟩)
    phrase c c'
  exact hboth.2

end Phrase

namespace Production

theorem local_statements : Local statements := Phrase.local_parse .statements

section Program

variable {c c' : Cursor} {fault : Fault}

theorem program_of_settled (h : (program c).result = .error fault)
    {seen left unseen other : List Lexeme} (hc : c.rest = seen ++ unseen)
    (hc' : c'.rest = seen ++ other) (hrest : (statements c).rest = left ++ unseen)
    (hsettled : (statements c).Settled left) :
    (program c').result = .error fault ∧ (program c').appended = (program c).appended := by
  have hsame := local_statements c c' seen left unseen other hc hc' hrest hsettled
  rcases program_eq_error h with ⟨hfault, hprogram⟩ | ⟨token, tokens, hok, htokens, rfl, happended⟩
  · have hfault' : (statements c').result = .error fault := by rw [hsame, hfault]
    rw [program_of_error hfault', hprogram, hsame]
    exact ⟨hfault, rfl⟩
  · have hok' : (statements c').result = .ok () := by rw [hsame, hok]
    have hleft := (Outcome.settled_of_ok hok).mp hsettled
    have hhead : (significantTokens (statements c').rest).head? = some token := by
      rw [hsame, head?_significantTokens_append hleft other unseen, ← hrest, htokens,
        List.head?_cons]
    obtain ⟨tokens', htokens'⟩ := List.head?_eq_some_iff.mp hhead
    rw [program_of_cons hok' htokens', happended, hsame]
    exact ⟨rfl, rfl⟩

/-- A program that fails at a token fails there in the same way whatever comes
behind the token. -/
theorem program_fails_early (h : (program c).result = .error fault)
    (hcause : fault.cause ≠ .unexpectedEof) :
    ∃ read trivia token after, c.rest = read ++ trivia ++ .token token :: after ∧
      fault.token = some token ∧ token.isSignificant ∧ significantTokens trivia = [] ∧
      leavesOfAll (program c).appended = read.map .lexeme ++ [.fault fault] ∧
      ∀ c' other, c'.rest = read ++ trivia ++ .token token :: other →
        (program c').result = .error fault ∧ (program c').appended = (program c).appended := by
  obtain ⟨read, hread, hleaves, hstands⟩ := program_fails h
  generalize hahead : (statements c).ahead = ahead at hread hstands
  cases hstands with
  | atEnd hend => exact absurd hend hcause
  | @token token trivia after _ htoken hs htrivia _ =>
      refine ⟨read, trivia, token, after, by rw [hread, List.append_assoc], htoken, hs, htrivia,
        hleaves, ?_⟩
      intro c' other hc'
      have hfront : significantTokens (trivia ++ [.token token]) = [token] := by
        simp [htrivia, significantTokens_cons_token hs]
      have hsplit : (statements c).ahead = (trivia ++ [.token token]) ++ after := by
        simpa using hahead
      obtain ⟨left, hleft, hrest⟩ := Outcome.exists_left hsplit (by simp)
      have hsettled : (statements c).Settled left := by
        constructor
        · intro other hother
          rw [program_of_error hother, hother] at h
          cases h
          exact hcause
        · rw [← hleft, hfront]
          exact List.cons_ne_nil _ _
      have hseen : c.rest = read ++ trivia ++ [.token token] ++ after := by simp [hread]
      have hseen' : c'.rest = read ++ trivia ++ [.token token] ++ other := by simp [hc']
      exact program_of_settled h hseen hseen' hrest hsettled

end Program

end Production

/-! The place of the token at fault. Tokens of one list may be equal, so the place
is told by the tokens in front of it: those are the tokens in the tree. -/

/-- A significant token at an index, behind the tokens of the tree and no others. -/
def ComesNext (root : Node) (lexemes : List Lexeme) (token : Token) (k : Nat) : Prop :=
  lexemes[k]? = some (.token token) ∧ token.isSignificant ∧
    significantTokens (lexemes.take k) = root.allTokens

theorem length_significantTokens_take_lt {lexemes : List Lexeme} {token : Token} {i j : Nat}
    (hi : lexemes[i]? = some (.token token)) (hs : token.isSignificant) (hij : i < j) :
    (significantTokens (lexemes.take i)).length < (significantTokens (lexemes.take j)).length := by
  obtain ⟨more, hmore⟩ : lexemes.take (i + 1) <+: lexemes.take j :=
    List.take_prefix_take_left (by omega)
  rw [← hmore, List.take_add_one, hi]
  simp [significantTokens_cons_token hs]

theorem ComesNext.index_eq {root : Node} {lexemes : List Lexeme} {token other : Token}
    {i j : Nat} (hi : ComesNext root lexemes token i) (hj : ComesNext root lexemes other j) :
    i = j := by
  obtain ⟨hi, hs, htokens⟩ := hi
  obtain ⟨hj, hs', htokens'⟩ := hj
  rcases Nat.lt_trichotomy i j with hlt | heq | hgt
  · have hfewer := length_significantTokens_take_lt hi hs hlt
    rw [htokens, htokens'] at hfewer
    omega
  · exact heq
  · have hfewer := length_significantTokens_take_lt hj hs' hgt
    rw [htokens, htokens'] at hfewer
    omega

theorem eq_take_append_of_agree {a b : List Lexeme} {lexeme : Lexeme} {k : Nat}
    (hk : a[k]? = some lexeme) (h : ∀ i ≤ k, b[i]? = a[i]?) :
    ∃ after, b = a.take k ++ lexeme :: after := by
  have hfront : b.take k = a.take k := by
    apply List.ext_getElem?
    intro i
    by_cases hi : i < k
    · rw [List.getElem?_take_of_lt hi, List.getElem?_take_of_lt hi, h i (by omega)]
    · rw [List.getElem?_take_eq_none (by omega), List.getElem?_take_eq_none (by omega)]
  obtain ⟨hlt, hb⟩ := List.getElem?_eq_some_iff.mp ((h k (Nat.le_refl k)).trans hk)
  refine ⟨b.drop (k + 1), ?_⟩
  rw [← hfront, ← hb, ← List.drop_eq_getElem_cons hlt, List.take_append_drop]

/-- Nothing behind the token at fault counts: that token comes next behind those in
the tree, and a list that agrees up to its index has the same fault and the same tree. -/
theorem parsePartial_ignores_tail (a : List Lexeme) (root : Node) (fault : Fault) (token : Token)
    (h : parsePartial a = (root, some fault)) (htoken : fault.token = some token) :
    (∃ k, ComesNext root a token k) ∧
      ∀ k, ComesNext root a token k → ∀ b : List Lexeme, (∀ i ≤ k, b[i]? = a[i]?) →
        parsePartial b = (root, some fault) := by
  obtain ⟨hfault, hroot⟩ := parsePartial_eq_some_iff.mp h
  obtain ⟨_, _, _, hstands⟩ := Production.program_fails hfault
  obtain ⟨read, trivia, found, after, ha, hfound, hs, htrivia, hleaves, hearly⟩ :=
    Production.program_fails_early hfault (hstands.cause_ne_eof htoken)
  change a = read ++ trivia ++ .token found :: after at ha
  obtain rfl : found = token := Option.some.inj (hfound.symm.trans htoken)
  have hplace : ComesNext root a found (read ++ trivia).length := by
    refine ⟨?_, hs, ?_⟩
    · rw [ha, List.getElem?_append_right (Nat.le_refl _), Nat.sub_self, List.getElem?_cons_zero]
    · have htokens : root.allTokens = significantTokens read := by
        rw [hroot]
        exact allTokens_of_leaves hleaves
      rw [ha, List.take_left, significantTokens_append, htrivia, List.append_nil, htokens]
  refine ⟨⟨_, hplace⟩, ?_⟩
  intro k hk b hagree
  obtain rfl := hk.index_eq hplace
  obtain ⟨other, hb⟩ := eq_take_append_of_agree hk.1 hagree
  rw [ha, List.take_left] at hb
  obtain ⟨hfault', happended⟩ := hearly (.ofLexemes b) other hb
  rw [parsePartial_eq_some_iff, happended]
  exact ⟨hfault', hroot⟩

/-- In `f(1 2)` the second number is at fault, so what stands behind it may be anything. -/
theorem parsePartial_ignores_tail_call :
    ∃ root fault, parsePartial (scan "f(1 2)" none) = (root, some fault) ∧
      ComesNext root (scan "f(1 2)" none) ⟨.number, "2", .between "shell" 4 5⟩ 4 ∧
      parsePartial (scan "f(1 2 = 3" none) = (root, some fault) := by
  have hparsed : (parsePartial (scan "f(1 2)" none)).2.map (·.token) =
      some (some ⟨.number, "2", .between "shell" 4 5⟩) := by decide +kernel
  obtain ⟨fault, hfault, htoken⟩ := Option.map_eq_some_iff.mp hparsed
  have hpair : parsePartial (scan "f(1 2)" none) = (_, some fault) := Prod.ext rfl hfault
  have hplace : ComesNext (parsePartial (scan "f(1 2)" none)).1 (scan "f(1 2)" none)
      ⟨.number, "2", .between "shell" 4 5⟩ 4 :=
    ⟨by decide +kernel, rfl, by decide +kernel⟩
  have hagree : ∀ i ≤ 4, (scan "f(1 2 = 3" none)[i]? = (scan "f(1 2)" none)[i]? := by
    decide +kernel
  exact ⟨_, fault, hpair, hplace,
    (parsePartial_ignores_tail _ _ fault _ hpair htoken).2 4 hplace _ hagree⟩

end ScriptSyntax
