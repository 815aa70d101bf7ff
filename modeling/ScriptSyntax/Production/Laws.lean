import ScriptSyntax.Production

/-!
Laws of productions. Running one after the other obeys the monad laws. Every
production only moves the cursor forward, and whatever has read a token has
moved it by at least one lexeme; this is what recursion over phrases rests on.
A token that is looked at is the token that is read next.
-/

namespace ScriptSyntax.Production

variable {α β : Type}

theorem pure_run (a : α) (c : Cursor) : (pure a : Production α) c = ⟨[], c.rest, .ok a⟩ := rfl

theorem bind_of_ok {p : Production α} {f : α → Production β} {c : Cursor} {a : α}
    (h : (p c).result = .ok a) :
    (p >>= f) c =
      ⟨(p c).appended ++ (f a { c with rest := (p c).rest }).appended,
        (f a { c with rest := (p c).rest }).rest,
        (f a { c with rest := (p c).rest }).result⟩ := by
  change Production.bind p f c = _
  simp only [Production.bind, h]

theorem bind_of_error {p : Production α} {f : α → Production β} {c : Cursor} {fault : Fault}
    (h : (p c).result = .error fault) :
    (p >>= f) c = ⟨(p c).appended, (p c).rest, .error fault⟩ := by
  change Production.bind p f c = _
  simp only [Production.bind, h]

theorem bind_pure_id (p : Production α) : p >>= pure = p := by
  funext c
  cases h : (p c).result with
  | ok a =>
      rw [bind_of_ok h, pure_run, List.append_nil, ← h]
  | error fault =>
      rw [bind_of_error h, ← h]

theorem pure_bind_run (a : α) (f : α → Production β) : pure a >>= f = f a := by
  funext c
  exact bind_of_ok rfl

theorem bind_bind {γ : Type} (p : Production α) (f : α → Production β) (g : β → Production γ) :
    p >>= f >>= g = p >>= fun a => f a >>= g := by
  funext c
  cases hp : (p c).result with
  | ok a =>
      cases hf : (f a { c with rest := (p c).rest }).result with
      | ok b =>
          have hpf : ((p >>= f) c).result = .ok b := by rw [bind_of_ok hp, hf]
          rw [bind_of_ok hpf, bind_of_ok hp, bind_of_ok hp, bind_of_ok hf]
          simp
      | error fault =>
          have hpf : ((p >>= f) c).result = .error fault := by rw [bind_of_ok hp, hf]
          rw [bind_of_error hpf, bind_of_ok hp, bind_of_ok hp, bind_of_error hf]
  | error fault =>
      have hpf : ((p >>= f) c).result = .error fault := by rw [bind_of_error hp]
      rw [bind_of_error hpf, bind_of_error hp, bind_of_error hp]

instance : LawfulMonad Production :=
  LawfulMonad.mk' _ bind_pure_id pure_bind_run bind_bind

/-- What is left is a rear part of what there was. -/
def Forward (p : Production α) : Prop := ∀ c, (p c).rest <:+ c.rest

/-- A success has read at least one lexeme. -/
def Advances (p : Production α) : Prop :=
  ∀ c a, (p c).result = .ok a → (p c).rest.length < c.rest.length

theorem forward_pure (a : α) : Forward (pure a) := fun _ => List.suffix_rfl

theorem Forward.bind {p : Production α} {f : α → Production β} (hp : Forward p)
    (hf : ∀ a, Forward (f a)) : Forward (p >>= f) := by
  intro c
  cases h : (p c).result with
  | ok a =>
      rw [bind_of_ok h]
      exact (hf a _).trans (hp c)
  | error fault =>
      rw [bind_of_error h]
      exact hp c

/-- A success of two steps is a success of both. -/
theorem bind_eq_ok {p : Production α} {f : α → Production β} {c : Cursor} {b : β}
    (h : ((p >>= f) c).result = .ok b) :
    ∃ a, (p c).result = .ok a ∧ (f a { c with rest := (p c).rest }).result = .ok b := by
  cases hp : (p c).result with
  | ok a => exact ⟨a, rfl, by rwa [bind_of_ok hp] at h⟩
  | error fault =>
      rw [bind_of_error hp] at h
      cases h

theorem Advances.bind {p : Production α} {f : α → Production β} (hp : Advances p)
    (hf : ∀ a, Forward (f a)) : Advances (p >>= f) := by
  intro c b h
  obtain ⟨a, ha, _⟩ := bind_eq_ok h
  rw [bind_of_ok ha]
  exact Nat.lt_of_le_of_lt (hf a _).length_le (hp c a ha)

theorem Forward.discard {p : Production α} (hp : Forward p) : Forward (discard p) :=
  hp.bind fun _ => forward_pure _

theorem Advances.discard {p : Production α} (hp : Advances p) : Advances (discard p) :=
  hp.bind fun _ => forward_pure _

theorem forward_attach (tree : Tree) : Forward (attach tree) := fun _ => List.suffix_rfl

theorem forward_attachAll (trees : List Tree) : Forward (attachAll trees) :=
  fun _ => List.suffix_rfl

theorem forward_fail (fault : Fault) : Forward (fail fault : Production α) :=
  fun _ => List.suffix_rfl

theorem forward_failAt (token : Token) (cause : Cause) :
    Forward (failAt token cause : Production α) := forward_fail _

theorem forward_peek : Forward peek := fun _ => List.suffix_rfl

theorem forward_nextToken : Forward nextToken := by
  intro c
  change (nextToken.read c.eof c.rest).rest <:+ c.rest
  induction c.rest with
  | nil => exact List.suffix_rfl
  | cons lexeme rest ih =>
      unfold nextToken.read
      split
      · exact List.suffix_cons ..
      · exact ih.trans (List.suffix_cons ..)

theorem advances_nextToken : Advances nextToken := by
  intro c token
  change (nextToken.read c.eof c.rest).result = .ok token →
    (nextToken.read c.eof c.rest).rest.length < c.rest.length
  induction c.rest with
  | nil => simp [nextToken.read]
  | cons lexeme rest ih =>
      unfold nextToken.read
      split
      · simp
      · intro h
        exact Nat.lt_succ_of_lt (ih h)

/-- Looking ahead shows the first significant token that is left. -/
theorem peek_result (c : Cursor) :
    (peek c).result = .ok (significantTokens c.rest).head? := by
  rw [significantTokens, List.head?_filterMap]
  rfl

theorem peek_bind (f : Option Token → Production α) (c : Cursor) :
    (peek >>= f) c = f (significantTokens c.rest).head? c :=
  bind_of_ok (peek_result c)

theorem nextToken_trivia {trivia : List Lexeme} (h : significantTokens trivia = [])
    (rest : List Lexeme) (eof : Position) :
    nextToken ⟨trivia ++ rest, eof⟩ =
      { nextToken ⟨rest, eof⟩ with
        appended := trivia.map Tree.lexeme ++ (nextToken ⟨rest, eof⟩).appended } := by
  change nextToken.read eof (trivia ++ rest) = _
  induction trivia with
  | nil => rfl
  | cons lexeme trivia ih =>
      obtain ⟨hlexeme, htrivia⟩ : lexeme.significant? = none ∧ significantTokens trivia = [] := by
        simpa [significantTokens] using h
      simp only [List.cons_append, nextToken.read, hlexeme, ih htrivia, List.map_cons]

/-- The token that is read is the first significant one; the trivia in front of
it is attached. -/
theorem nextToken_token {trivia : List Lexeme} {token : Token}
    (h : significantTokens trivia = []) (htoken : token.isSignificant) (after : List Lexeme)
    (eof : Position) :
    nextToken ⟨trivia ++ .token token :: after, eof⟩ =
      ⟨trivia.map Tree.lexeme, after, .ok token⟩ := by
  have hread : nextToken ⟨.token token :: after, eof⟩ = ⟨[], after, .ok token⟩ := by
    simp [nextToken, nextToken.read, Lexeme.significant?, htoken]
  rw [nextToken_trivia h, hread, List.append_nil]

/-- With no token left, all that is left is attached, and the fault behind it. -/
theorem nextToken_atEnd {c : Cursor} (h : significantTokens c.rest = []) :
    nextToken c =
      ⟨c.rest.map Tree.lexeme ++ [.fault (.atEnd c.eof)], [], .error (.atEnd c.eof)⟩ := by
  obtain ⟨rest, eof⟩ := c
  have htrivia := nextToken_trivia h [] eof
  rwa [List.append_nil] at htrivia

theorem nextToken_bind_token {trivia : List Lexeme} {token : Token}
    (h : significantTokens trivia = []) (htoken : token.isSignificant) (after : List Lexeme)
    (eof : Position) (f : Token → Production α) :
    (nextToken >>= f) ⟨trivia ++ .token token :: after, eof⟩ =
      ⟨trivia.map Tree.lexeme ++ (f token ⟨after, eof⟩).appended, (f token ⟨after, eof⟩).rest,
        (f token ⟨after, eof⟩).result⟩ := by
  have hread := nextToken_token h htoken after eof
  have hok : (nextToken ⟨trivia ++ .token token :: after, eof⟩).result = .ok token := by rw [hread]
  rw [bind_of_ok hok, hread]

theorem nextToken_bind_atEnd {c : Cursor} (h : significantTokens c.rest = [])
    (f : Token → Production α) :
    (nextToken >>= f) c =
      ⟨c.rest.map Tree.lexeme ++ [.fault (.atEnd c.eof)], [], .error (.atEnd c.eof)⟩ := by
  have hend := nextToken_atEnd h
  have herror : (nextToken c).result = .error (.atEnd c.eof) := by rw [hend]
  rw [bind_of_error herror, hend]

theorem forward_checked (kind : TokenKind) (value : String) (token : Token) :
    Forward (if token.kind != kind then
        failAt token (.unexpectedToken (Token.describe kind value) token.value)
      else if token.value != value then failAt token (.unexpectedValue value token.value)
      else do
        attach (.token token)
        return token : Production Token) := by
  split
  · exact forward_failAt _ _
  · split
    · exact forward_failAt _ _
    · exact (forward_attach _).bind fun _ => forward_pure _

theorem forward_expect (kind : TokenKind) (value : String) : Forward (expect kind value) :=
  forward_nextToken.bind fun token => forward_checked kind value token

theorem advances_expect (kind : TokenKind) (value : String) : Advances (expect kind value) :=
  advances_nextToken.bind fun token => forward_checked kind value token

theorem forward_keyword (word : String) : Forward (keyword word) := (forward_expect _ _).discard

theorem advances_keyword (word : String) : Advances (keyword word) :=
  (advances_expect _ _).discard

theorem forward_operator (sign : String) : Forward (operator sign) := (forward_expect _ _).discard

theorem Forward.within {build : Production α} (kind : NodeKind) (h : Forward build) :
    Forward (within kind build) := fun c => h c

theorem Advances.within {build : Production α} (kind : NodeKind) (h : Advances build) :
    Advances (within kind build) := fun c a => h c a

theorem Forward.hold {build : Production Unit} (h : Forward build) : Forward (hold build) := by
  intro c
  unfold Production.hold
  simp only
  split <;> exact h c

/-- With no token left, the trivia that is left is attached. -/
theorem finish_of_nil {c : Cursor} (h : significantTokens c.rest = []) :
    finish c = ⟨c.rest.map Tree.lexeme, [], .ok ()⟩ := by
  unfold finish
  rw [peek_bind, h]
  rfl

/-- A token that is left is looked at and not read. -/
theorem finish_of_cons {c : Cursor} {token : Token} {tokens : List Token}
    (h : significantTokens c.rest = token :: tokens) :
    finish c = failAt token (.unexpectedToken "end of file" token.value) c := by
  unfold finish
  rw [peek_bind, h]
  rfl

end ScriptSyntax.Production
