import ScriptSyntax.Proofs.Conservation
import ScriptSyntax.Session

/-!
Conservation over sessions. Productions are run one by one on a node, in any order
and on after faults, so they meet lexemes that no grammar would put before them.
Still no lexeme is lost or doubled: what the leaves of the node took off the
cursor, and the tokens that direct reads handed out, are the lexemes read so far.

`Leads` lists what a session can come to. A new node may be built by any actions,
and these too may go on after a fault; the actions of a session, which stop at the
first fault inside a node, are one way to go. What one call does to the leaves is
said once, for all productions of the grammar; the rest is an induction over `Leads`.
-/

namespace ScriptSyntax

open ScriptSyntax.Tree

/-- What a leaf took off the cursor. -/
def Leaf.taken : Leaf → List Lexeme
  | lexeme l => [l]
  | fault f => f.taken

theorem flatMap_taken_lexemes (read : List Lexeme) :
    (read.map Leaf.lexeme).flatMap Leaf.taken = read := by
  rw [List.flatMap_map]
  exact List.flatMap_singleton' read

/-- The lexemes, numbered from `k` on, but for those at the places. -/
def leaveOut (places : List Nat) : Nat → List Lexeme → List Lexeme
  | _, [] => []
  | k, lexeme :: lexemes =>
      if k ∈ places then leaveOut places (k + 1) lexemes
      else lexeme :: leaveOut places (k + 1) lexemes

section LeaveOut

variable {places more : List Nat} {k : Nat} {lexemes : List Lexeme}

theorem leaveOut_append (places : List Nat) (k : Nat) (lexemes after : List Lexeme) :
    leaveOut places k (lexemes ++ after) =
      leaveOut places k lexemes ++ leaveOut places (k + lexemes.length) after := by
  induction lexemes generalizing k with
  | nil => rfl
  | cons lexeme lexemes ih =>
      have hlength : k + (lexeme :: lexemes).length = k + 1 + lexemes.length := by
        rw [List.length_cons]
        omega
      rw [hlength, List.cons_append, leaveOut, leaveOut, ih]
      split <;> rfl

theorem leaveOut_nil (k : Nat) (lexemes : List Lexeme) : leaveOut [] k lexemes = lexemes := by
  induction lexemes generalizing k with
  | nil => rfl
  | cons lexeme lexemes ih => rw [leaveOut, if_neg List.not_mem_nil, ih]

/-- Only places among the lexemes count. -/
theorem leaveOut_congr
    (h : ∀ i, k ≤ i → i < k + lexemes.length → (i ∈ places ↔ i ∈ more)) :
    leaveOut places k lexemes = leaveOut more k lexemes := by
  induction lexemes generalizing k with
  | nil => rfl
  | cons lexeme lexemes ih =>
      rw [List.length_cons] at h
      have hhere : k ∈ places ↔ k ∈ more := h k (by omega) (by omega)
      have hthere : leaveOut places (k + 1) lexemes = leaveOut more (k + 1) lexemes :=
        ih fun i hlow hhigh => h i (by omega) (by omega)
      simp only [leaveOut, hhere, hthere]

end LeaveOut

namespace Production

/-- A run takes off the cursor what the leaves that it adds have taken. -/
theorem Run.taken_append {L : Language Tree} {c : Cursor} {o : Outcome Unit} (h : Run [] L c o) :
    (leavesOfAll o.appended).flatMap Leaf.taken ++ o.rest = c.rest := by
  obtain ⟨read, hleaves, hread⟩ := h.accounts
  have hfaults : (o.faults.map Leaf.fault).flatMap Leaf.taken = o.faults.flatMap Fault.taken := by
    rw [List.flatMap_map]
    rfl
  rw [Outcome.ahead, List.map_nil, List.nil_append, ← List.append_assoc] at hread
  rw [hleaves, List.flatMap_append, flatMap_taken_lexemes, hfaults, hread]

/-- Another value leaves the rest of the outcome as it is. -/
theorem map_outcome {α β : Type} (f : α → β) (p : Production α) (c : Cursor) :
    ((f <$> p) c).appended = (p c).appended ∧ ((f <$> p) c).rest = (p c).rest := by
  change ((p >>= fun a => pure (f a)) c).appended = _ ∧ ((p >>= fun a => pure (f a)) c).rest = _
  cases h : (p c).result with
  | ok a =>
      rw [bind_of_ok h]
      exact ⟨List.append_nil _, rfl⟩
  | error fault =>
      rw [bind_of_error h]
      exact ⟨rfl, rfl⟩

theorem map_taken_append {α β : Type} (f : α → β) (p : Production α) (c : Cursor) :
    (leavesOfAll ((f <$> p) c).appended).flatMap Leaf.taken ++ ((f <$> p) c).rest =
      (leavesOfAll (p c).appended).flatMap Leaf.taken ++ (p c).rest := by
  obtain ⟨happended, hrest⟩ := map_outcome f p c
  rw [happended, hrest]

end Production

namespace Action

open Production

/-- One call of a production that hands out no token. -/
def IsCall : Action → Prop
  | next | fail _ | within _ _ => False
  | peek | expect _ _ | expr | lhs | call | forLoop | conditional | block | statements => True

/-- What a call takes off the cursor is in the leaves that it adds. -/
theorem IsCall.taken_append {action : Action} (h : action.IsCall) (c : Cursor) :
    (leavesOfAll (action.production c).appended).flatMap Leaf.taken ++ (action.production c).rest =
      c.rest := by
  have hsilent {L : Language Tree} {p : Production Unit} (hp : Run [] L c (p c)) :
      (leavesOfAll (silent p c).appended).flatMap Leaf.taken ++ (silent p c).rest = c.rest :=
    (map_taken_append (fun _ => none) p c).trans hp.taken_append
  cases action with
  | next | fail | within => exact h.elim
  | peek => rfl
  | expect kind value =>
      have hdiscard := ((Phrase.composed_expect kind value).run Phrase.run_parse c).taken_append
      have hvalue := map_taken_append some (Production.expect kind value) c
      have hunit := map_taken_append (fun _ => ()) (Production.expect kind value) c
      exact hvalue.trans (hunit.symm.trans hdiscard)
  | expr => exact hsilent (Phrase.run_parse .expr c)
  | lhs => exact hsilent (Phrase.composed_lhsRule.run Phrase.run_parse c)
  | call => exact hsilent (Phrase.composed_callRule.run Phrase.run_parse c)
  | forLoop => exact hsilent (Phrase.composed_forRule.run Phrase.run_parse c)
  | conditional => exact hsilent (Phrase.composed_ifRule.run Phrase.run_parse c)
  | block => exact hsilent (Phrase.composed_block.run Phrase.run_parse c)
  | statements => exact hsilent (Phrase.run_parse .statements c)

end Action

/-- The token that a direct read handed out, and its place among all the lexemes: the
last of those read. -/
def Reply.handed (total : Nat) (reply : Reply) : List (Nat × Token) :=
  match reply.outcome.result with
  | .ok (some token) => [(total - reply.outcome.rest.length - 1, token)]
  | .ok none | .error _ => []

namespace Session

/-- What a session can come to, of `total` lexemes, and the tokens that direct reads
hand out on the way. -/
inductive Leads (total : Nat) : Session → List (Nat × Token) → Session → Prop where
  | stay (s : Session) : Leads total s [] s
  | call (s : Session) {action : Action} (h : action.IsCall) : Leads total s [] (s.act action)
  | next (s : Session) : Leads total s ((Action.next.reply s.cursor).handed total) (s.act .next)
  | within {s t : Session} {handed : List (Nat × Token)} (kind : NodeKind)
      (h : Leads total ⟨s.cursor, ⟨kind, []⟩⟩ handed t) :
      Leads total s handed ⟨t.cursor, s.node.push t.node.toTree⟩
  | andThen {s t u : Session} {handed more : List (Nat × Token)} (h : Leads total s handed t)
      (h' : Leads total t more u) : Leads total s (handed ++ more) u

/-- The lexemes `read` were taken off the cursor by the trees added to the node, but
for those handed out. -/
structure Passes (total : Nat) (s : Session) (handed : List (Nat × Token)) (t : Session)
    (trees : List Tree) (read : List Lexeme) : Prop where
  node_eq : t.node = s.node.append trees
  rest_eq : s.cursor.rest = read ++ t.cursor.rest
  handed_at : ∀ i token, (i, token) ∈ handed → ∃ j, i = total - s.cursor.rest.length + j ∧
    read[j]? = some (.token token)
  taken_eq : (leavesOfAll trees).flatMap Leaf.taken =
    leaveOut (handed.map Prod.fst) (total - s.cursor.rest.length) read

section Steps

variable {total : Nat} {s t u : Session} {handed more : List (Nat × Token)}

theorem passes_stay (s : Session) : Passes total s [] s [] [] where
  node_eq := by simp [Node.append]
  rest_eq := rfl
  handed_at _ _ h := by cases h
  taken_eq := rfl

theorem passes_call (s : Session) {action : Action} (h : action.IsCall) :
    Passes total s [] (s.act action) (action.production s.cursor).appended
      ((leavesOfAll (action.production s.cursor).appended).flatMap Leaf.taken) where
  node_eq := rfl
  rest_eq := (h.taken_append s.cursor).symm
  handed_at _ _ h := by cases h
  taken_eq := (leaveOut_nil _ _).symm

/-- A direct read keeps the trivia that it passes, and hands out the token. -/
theorem exists_passes_next (s : Session) (hs : s.cursor.rest.length ≤ total) :
    ∃ trees read,
      Passes total s ((Action.next.reply s.cursor).handed total) (s.act .next) trees read := by
  obtain ⟨⟨rest, eof⟩, node⟩ := s
  cases htokens : significantTokens rest with
  | nil =>
      have hnext : Action.next.production ⟨rest, eof⟩ =
          ⟨rest.map Tree.lexeme ++ [.fault (.atEnd eof)], [], .error (.atEnd eof)⟩ :=
        Production.nextToken_bind_atEnd htokens _
      refine ⟨_, rest, rfl, ?_, ?_, ?_⟩
      · simp only [act, hnext, List.append_nil]
      · intro i token h
        simp only [Action.reply, hnext, Reply.handed] at h
        cases h
      · simp only [Action.reply, hnext, Reply.handed, List.map_nil, leaveOut_nil]
        rw [leavesOfAll_append, leavesOfAll_lexemes, List.flatMap_append, flatMap_taken_lexemes]
        exact List.append_nil _
  | cons token tokens =>
      obtain ⟨trivia, after, rfl, htrivia, htoken, _⟩ := significantTokens_eq_cons_iff.mp htokens
      have hnext : Action.next.production ⟨trivia ++ .token token :: after, eof⟩ =
          ⟨trivia.map Tree.lexeme ++ [], after, .ok (some token)⟩ :=
        Production.nextToken_bind_token htrivia htoken after eof _
      -- the token stands behind the trivia, right in front of what is left
      have hplace : total - after.length - 1 =
          total - (trivia ++ .token token :: after).length + trivia.length := by
        simp only [List.length_append, List.length_cons] at hs ⊢
        omega
      have hhanded : (Action.next.reply ⟨trivia ++ .token token :: after, eof⟩).handed total =
          [(total - (trivia ++ .token token :: after).length + trivia.length, token)] := by
        simp only [Action.reply, hnext, Reply.handed, hplace]
      rw [hhanded]
      refine ⟨_, trivia ++ [.token token], rfl, ?_, ?_, ?_⟩
      · simp [act, hnext]
      · intro i other h
        obtain ⟨rfl, rfl⟩ := Prod.mk.inj (List.mem_singleton.mp h)
        exact ⟨trivia.length, rfl, by simp⟩
      · generalize total - (trivia ++ .token token :: after).length = k
        have hbefore : leaveOut [k + trivia.length] k trivia = leaveOut [] k trivia := by
          apply leaveOut_congr
          intro i _ hhigh
          simp only [List.mem_singleton, List.not_mem_nil, iff_false]
          omega
        rw [hnext, List.append_nil, leavesOfAll_lexemes, flatMap_taken_lexemes, leaveOut_append,
          List.map_singleton, hbefore, leaveOut_nil, leaveOut, if_pos (List.mem_singleton.mpr rfl),
          leaveOut, List.append_nil]

/-- What happens inside a new node happens to the node around it. -/
theorem Passes.within {trees : List Tree} {read : List Lexeme} (kind : NodeKind)
    (h : Passes total ⟨s.cursor, ⟨kind, []⟩⟩ handed t trees read) :
    Passes total s handed ⟨t.cursor, s.node.push t.node.toTree⟩ [.node kind trees] read where
  node_eq := by
    rw [h.node_eq]
    rfl
  rest_eq := h.rest_eq
  handed_at := h.handed_at
  taken_eq := by
    rw [← h.taken_eq]
    simp only [leavesOfAll, leaves, List.append_nil]

theorem Passes.place_lt {trees : List Tree} {read : List Lexeme}
    (h : Passes total s handed t trees read) {i : Nat} (hi : i ∈ handed.map Prod.fst) :
    total - s.cursor.rest.length ≤ i ∧ i < total - s.cursor.rest.length + read.length := by
  obtain ⟨⟨_, token⟩, hmem, rfl⟩ := List.mem_map.mp hi
  obtain ⟨j, hj, hread⟩ := h.handed_at _ token hmem
  obtain ⟨hlt, _⟩ := List.getElem?_eq_some_iff.mp hread
  constructor <;> omega

theorem Passes.andThen {trees trees' : List Tree} {read read' : List Lexeme}
    (hs : s.cursor.rest.length ≤ total) (h : Passes total s handed t trees read)
    (h' : Passes total t more u trees' read') :
    Passes total s (handed ++ more) u (trees ++ trees') (read ++ read') := by
  have hrest := h.rest_eq
  -- the second part is numbered from where the first one ends
  have hstart : total - t.cursor.rest.length = total - s.cursor.rest.length + read.length := by
    rw [hrest, List.length_append] at hs ⊢
    omega
  refine ⟨?_, ?_, ?_, ?_⟩
  · rw [h'.node_eq, h.node_eq]
    simp only [Node.append, List.append_assoc]
  · rw [hrest, h'.rest_eq, List.append_assoc]
  · intro i token hmem
    rcases List.mem_append.mp hmem with hmem | hmem
    · obtain ⟨j, hj, hread⟩ := h.handed_at i token hmem
      obtain ⟨hlt, _⟩ := List.getElem?_eq_some_iff.mp hread
      exact ⟨j, hj, by rwa [List.getElem?_append_left hlt]⟩
    · obtain ⟨j, hj, hread⟩ := h'.handed_at i token hmem
      refine ⟨read.length + j, by omega, ?_⟩
      rwa [List.getElem?_append_right (by omega), Nat.add_sub_cancel_left]
  · rw [leavesOfAll_append, List.flatMap_append, h.taken_eq, h'.taken_eq, leaveOut_append, hstart]
    congr 1
    · apply leaveOut_congr
      intro i hlow hhigh
      rw [List.map_append, List.mem_append]
      constructor
      · exact .inl
      · rintro (hi | hi)
        · exact hi
        · have hplace := h'.place_lt hi
          omega
    · apply leaveOut_congr
      intro i hlow hhigh
      rw [List.map_append, List.mem_append]
      constructor
      · exact .inr
      · rintro (hi | hi)
        · have hplace := h.place_lt hi
          omega
        · exact hi

end Steps

/-- Wherever a session leads, the lexemes it has read are accounted for. -/
theorem Leads.exists_passes {total : Nat} {s t : Session} {handed : List (Nat × Token)}
    (h : Leads total s handed t) (hs : s.cursor.rest.length ≤ total) :
    ∃ trees read, Passes total s handed t trees read := by
  induction h with
  | stay s => exact ⟨_, _, passes_stay s⟩
  | call s h => exact ⟨_, _, passes_call s h⟩
  | next s => exact exists_passes_next s hs
  | within kind _ ih =>
      obtain ⟨trees, read, hpasses⟩ := ih hs
      exact ⟨_, _, hpasses.within kind⟩
  | andThen _ _ ih ih' =>
      obtain ⟨trees, read, hpasses⟩ := ih hs
      have hrest := congrArg List.length hpasses.rest_eq
      rw [List.length_append] at hrest
      obtain ⟨trees', read', hpasses'⟩ := ih' (by omega)
      exact ⟨_, _, hpasses.andThen hs hpasses'⟩

theorem Leads.rest_length_le {total : Nat} {s t : Session} {handed : List (Nat × Token)}
    (h : Leads total s handed t) (hs : s.cursor.rest.length ≤ total) :
    t.cursor.rest.length ≤ s.cursor.rest.length := by
  obtain ⟨_, read, hpasses⟩ := h.exists_passes hs
  rw [hpasses.rest_eq, List.length_append]
  omega

end Session

/-! The actions of a session. -/

namespace Action

mutual
/-- Brings no fault from outside, at any depth. -/
def reads : Action → Bool
  | fail _ => false
  | within _ actions => readsAll actions
  | _ => true

def readsAll : List Action → Bool
  | [] => true
  | action :: actions => action.reads && readsAll actions
end

mutual
/-- The tokens that direct reads handed out, as the replies show them. -/
def handed (total : Nat) : Action → Reply → List (Nat × Token)
  | next, reply => reply.handed total
  | within _ actions, reply => handedOfAll total actions reply.inner
  | _, _ => []

def handedOfAll (total : Nat) : List Action → List Reply → List (Nat × Token)
  | action :: actions, reply :: replies =>
      action.handed total reply ++ handedOfAll total actions replies
  | _, _ => []
end

theorem handedOfAll_nil (total : Nat) (actions : List Action) :
    handedOfAll total actions [] = [] := by
  cases actions <;> rfl

end Action

namespace Session

/-- Where actions inside a node leave it, up to their first fault. -/
def actUntilFault (s : Session) (actions : List Action) : Session :=
  let outcome := Action.sequence actions s.cursor
  { cursor := { s.cursor with rest := outcome.rest }
    node := s.node.append outcome.appended }

section Inside

variable (s : Session) {action : Action} {actions : List Action}

theorem sequence_cons : Action.sequence (action :: actions) =
    action.production >>= fun _ => Action.sequence actions := by
  change action.production >>= (fun _ => pure ()) >>= (fun _ => Action.sequence actions) = _
  rw [Production.bind_bind]
  rfl

theorem actUntilFault_nil : s.actUntilFault [] = s := by
  simp [actUntilFault, Action.sequence, Production.pure_run, Node.append]

theorem actUntilFault_of_error {fault : Fault}
    (h : (action.production s.cursor).result = .error fault) :
    s.actUntilFault (action :: actions) = s.act action := by
  unfold actUntilFault
  rw [sequence_cons, Production.bind_of_error h]
  rfl

theorem actUntilFault_of_ok {value : Option Token}
    (h : (action.production s.cursor).result = .ok value) :
    s.actUntilFault (action :: actions) = (s.act action).actUntilFault actions := by
  unfold actUntilFault
  rw [sequence_cons, Production.bind_of_ok h]
  simp only [act, Node.append, List.append_assoc]

/-- A node that actions build joins the node around it. -/
theorem act_within (kind : NodeKind) (actions : List Action) :
    s.act (.within kind actions) =
      ⟨(actUntilFault ⟨s.cursor, ⟨kind, []⟩⟩ actions).cursor,
        s.node.push (actUntilFault ⟨s.cursor, ⟨kind, []⟩⟩ actions).node.toTree⟩ := by
  have hproduction : (Action.within kind actions).production =
      (fun _ => none) <$> Production.within kind (Action.sequence actions) := rfl
  obtain ⟨happended, hrest⟩ := Production.map_outcome (fun _ => (none : Option Token))
    (Production.within kind (Action.sequence actions)) s.cursor
  simp only [act, hproduction, happended, hrest]
  rfl

end Inside

mutual
/-- A session leads to where its actions leave it. -/
theorem leads_act (total : Nat) (s : Session) (action : Action) (h : action.reads) :
    Leads total s (action.handed total (action.reply s.cursor)) (s.act action) := by
  cases action with
  | next => exact .next s
  | fail => cases h
  | within kind actions =>
      rw [act_within]
      exact .within kind (leads_actUntilFault total ⟨s.cursor, ⟨kind, []⟩⟩ actions h)
  | peek | expect | expr | lhs | call | forLoop | conditional | block | statements =>
      exact .call s trivial

theorem leads_actUntilFault (total : Nat) (s : Session) (actions : List Action)
    (h : Action.readsAll actions) :
    Leads total s (Action.handedOfAll total actions (Action.repliesUntilFault s.cursor actions))
      (s.actUntilFault actions) := by
  cases actions with
  | nil =>
      rw [actUntilFault_nil]
      exact .stay s
  | cons action actions =>
      obtain ⟨haction, hactions⟩ := Bool.and_eq_true_iff.mp h
      have hfirst := leads_act total s action haction
      cases hresult : (action.production s.cursor).result with
      | error fault =>
          rw [actUntilFault_of_error s hresult]
          simp only [Action.repliesUntilFault, hresult, Action.handedOfAll,
            Action.handedOfAll_nil, List.append_nil]
          exact hfirst
      | ok value =>
          have hrest := leads_actUntilFault total (s.act action) actions hactions
          rw [actUntilFault_of_ok s hresult]
          simp only [Action.repliesUntilFault, hresult, Action.handedOfAll]
          exact hfirst.andThen hrest
end

/-- A session leads to where any run of actions leaves it. -/
theorem leads_run (total : Nat) (s : Session) (actions : List Action)
    (h : Action.readsAll actions) :
    Leads total s (Action.handedOfAll total actions (s.replies actions)) (s.run actions) := by
  induction actions generalizing s with
  | nil => exact .stay s
  | cons action actions ih =>
      obtain ⟨haction, hactions⟩ := Bool.and_eq_true_iff.mp h
      exact (leads_act total s action haction).andThen (ih (s.act action) hactions)

/-- How many of the lexemes have been read. -/
def cursorIndex (lexemes : List Lexeme) (s : Session) : Nat :=
  lexemes.length - s.cursor.rest.length

end Session

open Session

/-- A session loses no lexeme and doubles none, whatever its actions and their faults:
the cursor only moves forward and stays in bounds; and the leaves of the node,
where a fault stands for the token that it took, are the lexemes in front of the
cursor, but for the tokens that direct reads handed out. -/
theorem session_conserves_lexemes (kind : NodeKind) (ls : List Lexeme) :
    (∀ s handed, Leads ls.length (start kind ls) handed s →
      s.cursor.rest = ls.drop (s.cursorIndex ls) ∧ s.cursorIndex ls ≤ ls.length ∧
      (∀ t more, Leads ls.length s more t → s.cursorIndex ls ≤ t.cursorIndex ls) ∧
      (∀ i token, (i, token) ∈ handed → i < s.cursorIndex ls ∧ ls[i]? = some (.token token)) ∧
      s.node.leaves.flatMap Leaf.taken =
        leaveOut (handed.map Prod.fst) 0 (ls.take (s.cursorIndex ls))) ∧
    ∀ actions, Action.readsAll actions →
      Leads ls.length (start kind ls)
        (Action.handedOfAll ls.length actions ((start kind ls).replies actions))
        ((start kind ls).run actions) := by
  constructor
  · intro s handed h
    obtain ⟨trees, read, hpasses⟩ := h.exists_passes (Nat.le_refl _)
    have hls : ls = read ++ s.cursor.rest := hpasses.rest_eq
    have hindex : s.cursorIndex ls = read.length := by
      have hlength := congrArg List.length hls
      rw [List.length_append] at hlength
      unfold cursorIndex
      omega
    have hstart : ls.length - (start kind ls).cursor.rest.length = 0 := Nat.sub_self _
    have hhanded := hpasses.handed_at
    have htaken := hpasses.taken_eq
    rw [hstart] at hhanded htaken
    have hfront : ls.take (s.cursorIndex ls) = read := by rw [hindex, hls, List.take_left]
    refine ⟨?_, Nat.sub_le _ _, ?_, ?_, ?_⟩
    · rw [hindex]
      exact (List.drop_left' rfl ▸ congrArg (List.drop read.length) hls).symm
    · intro t more hfurther
      exact Nat.sub_le_sub_left (hfurther.rest_length_le (h.rest_length_le (Nat.le_refl _))) _
    · intro i token hmem
      obtain ⟨j, hj, hread⟩ := hhanded i token hmem
      obtain ⟨hlt, _⟩ := List.getElem?_eq_some_iff.mp hread
      obtain rfl : i = j := hj.trans (Nat.zero_add j)
      rw [hindex]
      refine ⟨hlt, ?_⟩
      rw [hls, List.getElem?_append_left hlt]
      exact hread
    · rw [hfront, ← htaken, hpasses.node_eq]
      rfl
  · exact fun actions => leads_run ls.length (start kind ls) actions

/-- Three faults, one of them inside a node, and two direct reads: the parenthesis and
the number are handed out, and the name and the keyword are in the faults. -/
theorem session_conserves_lexemes_faults :
    let ls := scan "f (1 for x" none
    let actions : List Action := [.expect .keyword "for", .next,
      .within .call [.peek, .next, .expect .operator ")", .next], .statements]
    let s := (start .body ls).run actions
    s.node.leaves.filterMap (fun leaf => leaf.fault?.map Fault.name) =
        ["UnexpectedToken", "UnexpectedToken", "UnexpectedEof"] ∧
      s.cursorIndex ls = 8 ∧
      s.node.leaves.flatMap Leaf.taken = leaveOut [2, 3] 0 (ls.take 8) := by
  intro ls actions s
  have hindex : s.cursorIndex ls = 8 := by decide +kernel
  have hplaces : (Action.handedOfAll ls.length actions ((start .body ls).replies actions)).map
      Prod.fst = [2, 3] := by
    decide +kernel
  obtain ⟨hconserves, hruns⟩ := session_conserves_lexemes .body ls
  obtain ⟨_, _, _, _, htaken⟩ := hconserves s _ (hruns actions rfl)
  rw [hplaces, hindex] at htaken
  exact ⟨by decide +kernel, hindex, htaken⟩

end ScriptSyntax
