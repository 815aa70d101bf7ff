import ScriptSyntax.Proofs.Concatenation

/-!
The two loops of the grammar: statements are read up to the end of their block, and branches as
long as `elseif` is ahead. Both look at the token ahead and read what it begins, and a turn that
does not return has read a token. `Turn` says what one turn can come to; what holds of a whole
loop is an induction over its turns.
-/

namespace ScriptSyntax.Production

/-- The statement that begins with this token. -/
def statement (token : Token) : Production Unit :=
  Phrase.statementRule expr statements Phrase.elseIfs.parse token

/-- A branch that begins with `elseif`. -/
def elseIf : Production Unit := Phrase.elseIfRule expr statements

/-- What the loop over statements reads in front of a token; nothing at the end of the block. -/
def nextStatement : Option Token → Option (Production Unit)
  | none => none
  | some token =>
      if token.isKeyword ["end", "elseif", "else"] then none else some (statement token)

/-- What the loop over branches reads in front of a token. -/
def nextElseIf (next : Option Token) : Option (Production Unit) :=
  if next.any (·.isKeyword ["elseif"]) then some elseIf else none

/-- One turn of a loop that reads what `next` has for the token ahead. The loop returns, since
there is nothing to read or since reading failed; or less is left, and the loop goes on. -/
inductive Turn (next : Option Token → Option (Production Unit)) (loop : Production Unit)
    (c : Cursor) : Prop where
  | ends (hnext : next (significantTokens c.rest).head? = none)
      (hloop : loop c = ⟨[], c.rest, .ok ()⟩) : Turn next loop c
  | fails {body : Production Unit} {fault : Fault}
      (hnext : next (significantTokens c.rest).head? = some body)
      (hfault : (body c).result = .error fault) (hloop : loop c = body c) : Turn next loop c
  | goesOn {body : Production Unit} (hnext : next (significantTokens c.rest).head? = some body)
      (hok : (body c).result = .ok ()) (hless : (body c).rest.length < c.rest.length)
      (hloop : loop c = (loop ⟨(body c).rest, c.eof⟩).behind (body c).appended) :
      Turn next loop c

section Turns

variable {next : Option Token → Option (Production Unit)} {loop : Production Unit}

/-- A turn that reads something goes on behind it, or not at all. -/
theorem turn_of_body {c : Cursor} {body : Production Unit}
    (hnext : next (significantTokens c.rest).head? = some body) (hbody : Advances body)
    (hloop : loop c = (body >>= fun _ => loop) c) : Turn next loop c := by
  cases hresult : (body c).result with
  | error fault =>
      rw [bind_of_error hresult, ← hresult] at hloop
      exact .fails hnext hresult hloop
  | ok _ =>
      rw [bind_of_ok_behind hresult] at hloop
      exact .goesOn hnext hresult (hbody c _ hresult) hloop

/-- What the turns of a loop carry from behind them to the front holds of the whole loop. -/
theorem loop_induction (hturn : ∀ c, Turn next loop c) {P : Cursor → Outcome Unit → Prop}
    (hends : ∀ c, next (significantTokens c.rest).head? = none → P c ⟨[], c.rest, .ok ()⟩)
    (hfails : ∀ c body fault, next (significantTokens c.rest).head? = some body →
      (body c).result = .error fault → P c (body c))
    (hgoesOn : ∀ c body o, next (significantTokens c.rest).head? = some body →
      (body c).result = .ok () → P ⟨(body c).rest, c.eof⟩ o → P c (o.behind (body c).appended))
    (c : Cursor) : P c (loop c) := by
  -- fewer lexemes are left behind each turn
  induction hlength : c.rest.length using Nat.strong_induction_on generalizing c with
  | _ length ih =>
      subst hlength
      cases hturn c with
      | ends hnext hloop =>
          rw [hloop]
          exact hends c hnext
      | fails hnext hfault hloop =>
          rw [hloop]
          exact hfails c _ _ hnext hfault
      | goesOn hnext hok hless hloop =>
          rw [hloop]
          exact hgoesOn c _ _ hnext hok (ih _ hless _ rfl)

end Turns

theorem advances_statement (token : Token) : Advances (statement token) :=
  Phrase.advances_statementRule (Phrase.forward_parse .expr) (Phrase.forward_parse .statements)
    (Phrase.forward_parse .elseIfs) token

theorem advances_elseIf : Advances elseIf :=
  Phrase.advances_elseIfRule (Phrase.forward_parse .expr) (Phrase.forward_parse .statements)

/-- The loop over statements. -/
theorem turn_statements (c : Cursor) : Turn nextStatement statements c := by
  have hrule := congrFun Phrase.statements_eq c
  rw [Phrase.statementsRule, peek_bind] at hrule
  cases hhead : (significantTokens c.rest).head? with
  | none =>
      rw [hhead] at hrule
      exact .ends (by rw [hhead]; rfl) hrule
  | some token =>
      by_cases hcloses : token.isKeyword ["end", "elseif", "else"]
      · simp only [hhead, hcloses, if_true] at hrule
        exact .ends (by simp only [hhead, nextStatement, hcloses, if_true]) hrule
      · have hnext : nextStatement (significantTokens c.rest).head? = some (statement token) := by
          simp only [hhead, nextStatement, hcloses]
          rfl
        exact turn_of_body hnext (advances_statement token)
          (Phrase.statements_of_opens hhead hcloses)

/-- The loop over the branches that begin with `elseif`. -/
theorem turn_elseIfs (c : Cursor) : Turn nextElseIf Phrase.elseIfs.parse c := by
  have hrule := congrFun Phrase.elseIfs_eq c
  rw [Phrase.elseIfsRule, peek_bind] at hrule
  by_cases hahead : (significantTokens c.rest).head?.any (·.isKeyword ["elseif"])
  · rw [if_pos hahead] at hrule
    exact turn_of_body (if_pos hahead) advances_elseIf hrule
  · rw [if_neg hahead] at hrule
    exact .ends (if_neg hahead) hrule

end ScriptSyntax.Production
