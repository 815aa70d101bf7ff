import ScriptSyntax.Production.Laws

/-!
Recursion over phrases. A rule may refer to itself freely behind a token it has
read, since fewer lexemes are left there; such a rule is `Guarded`. Main
statement: for a guarded rule, `recursive rule` is a family of productions that
satisfies the rule, so no depth shows in what it does. Hence induction: whatever
the rule carries over from the phrases inside to the phrase holds of every phrase.
-/

namespace ScriptSyntax.Production

variable {α β : Type} {ι : Type}

/-- Equal on every cursor with fewer than `n` lexemes left. -/
def AgreeBelow (n : Nat) (p q : Production α) : Prop := ∀ c, c.rest.length < n → p c = q c

theorem AgreeBelow.rfl {n : Nat} {p : Production α} : AgreeBelow n p p := fun _ _ => Eq.refl _

theorem AgreeBelow.mono {m n : Nat} {p q : Production α} (h : AgreeBelow n p q) (hmn : m ≤ n) :
    AgreeBelow m p q := fun c hc => h c (Nat.lt_of_lt_of_le hc hmn)

theorem AgreeBelow.bind {n : Nat} {p q : Production α} {f g : α → Production β}
    (hp : AgreeBelow n p q) (hq : Forward q) (hf : ∀ a, AgreeBelow n (f a) (g a)) :
    AgreeBelow n (p >>= f) (q >>= g) := by
  intro c hc
  cases h : (q c).result with
  | ok a =>
      have hfg := hf a { c with rest := (q c).rest } (Nat.lt_of_le_of_lt (hq c).length_le hc)
      rw [bind_of_ok h, bind_of_ok (hp c hc ▸ h), hp c hc, hfg]
  | error fault =>
      rw [bind_of_error h, bind_of_error (hp c hc ▸ h), hp c hc]

theorem AgreeBelow.after {n : Nat} {p : Production α} {f g : α → Production β}
    (hp : Forward p) (hf : ∀ a, AgreeBelow n (f a) (g a)) : AgreeBelow n (p >>= f) (p >>= g) :=
  AgreeBelow.rfl.bind hp hf

/-- Behind a token, agreement on fewer lexemes is enough. -/
theorem AgreeBelow.then_behind {n : Nat} {p q : Production α} {f g : α → Production β}
    (hp : AgreeBelow (n + 1) p q) (hq : Advances q) (hf : ∀ a, AgreeBelow n (f a) (g a)) :
    AgreeBelow (n + 1) (p >>= f) (q >>= g) := by
  intro c hc
  cases h : (q c).result with
  | ok a =>
      have hfg := hf a { c with rest := (q c).rest } (by have := hq c a h; simp only; omega)
      rw [bind_of_ok h, bind_of_ok (hp c hc ▸ h), hp c hc, hfg]
  | error fault =>
      rw [bind_of_error h, bind_of_error (hp c hc ▸ h), hp c hc]

theorem AgreeBelow.bind_behind {n : Nat} {p : Production α} {f g : α → Production β}
    (hp : Advances p) (hf : ∀ a, AgreeBelow n (f a) (g a)) :
    AgreeBelow (n + 1) (p >>= f) (p >>= g) :=
  AgreeBelow.rfl.then_behind hp hf

theorem AgreeBelow.within {n : Nat} {p q : Production α} (kind : NodeKind)
    (h : AgreeBelow n p q) : AgreeBelow n (within kind p) (within kind q) := by
  intro c hc
  unfold Production.within
  rw [h c hc]

theorem AgreeBelow.hold {n : Nat} {p q : Production Unit} (h : AgreeBelow n p q) :
    AgreeBelow n (hold p) (hold q) := by
  intro c hc
  unfold Production.hold
  rw [h c hc]

/-- Refers to itself only behind a token it has read. -/
structure Guarded (rule : (ι → Production Unit) → ι → Production Unit) : Prop where
  forward {f : ι → Production Unit} (hf : ∀ i, Forward (f i)) (i : ι) : Forward (rule f i)
  agree {f g : ι → Production Unit} {n : Nat} (hg : ∀ i, Forward (g i))
    (hfg : ∀ i, AgreeBelow n (f i) (g i)) (i : ι) : AgreeBelow (n + 1) (rule f i) (rule g i)

variable {rule : (ι → Production Unit) → ι → Production Unit}

theorem Guarded.forward_unfold (h : Guarded rule) (depth : Nat) (i : ι) :
    Forward (unfold rule depth i) := by
  induction depth generalizing i with
  | zero => exact forward_pure ()
  | succ depth ih => exact h.forward ih i

/-- Depths beyond the number of lexemes left make no difference. -/
theorem Guarded.unfold_agree (h : Guarded rule) {m n : Nat} (hmn : m ≤ n) (i : ι) :
    AgreeBelow m (unfold rule m i) (unfold rule n i) := by
  induction m generalizing n i with
  | zero => exact fun c hc => absurd hc (Nat.not_lt_zero _)
  | succ m ih =>
      cases n with
      | zero => omega
      | succ n => exact h.agree (h.forward_unfold n) (fun i => ih (by omega) i) i

theorem Guarded.unfold_agree_recursive (h : Guarded rule) (n : Nat) (i : ι) :
    AgreeBelow n (unfold rule n i) (recursive rule i) :=
  fun c hc => (h.unfold_agree (show c.rest.length + 1 ≤ n from hc) i c (Nat.lt_succ_self _)).symm

theorem Guarded.forward_recursive (h : Guarded rule) (i : ι) : Forward (recursive rule i) :=
  fun c => h.forward_unfold (c.rest.length + 1) i c

theorem Guarded.recursive_eq (h : Guarded rule) (i : ι) :
    recursive rule i = rule (recursive rule) i := by
  funext c
  exact h.agree h.forward_recursive (h.unfold_agree_recursive c.rest.length) i c
    (Nat.lt_succ_self _)

/-- A rule applied again and again, from any productions to begin with. -/
def iterate (rule : (ι → Production Unit) → ι → Production Unit) (base : ι → Production Unit) :
    Nat → ι → Production Unit
  | 0 => base
  | depth + 1 => rule (iterate rule base depth)

/-- What the rule began with shows only where more lexemes are left than steps were taken. -/
theorem Guarded.iterate_agree (h : Guarded rule) (base : ι → Production Unit) (n : Nat) (i : ι) :
    AgreeBelow n (iterate rule base n i) (recursive rule i) := by
  induction n generalizing i with
  | zero => exact fun c hc => absurd hc (Nat.not_lt_zero _)
  | succ n ih =>
      rw [h.recursive_eq i]
      exact h.agree h.forward_recursive ih i

/-- What holds of any two runs of some productions to begin with, and is carried
over by the rule, holds of any two runs of the recursive productions. -/
theorem Guarded.recursive_induction₂ (h : Guarded rule)
    {P : ι → Cursor → Cursor → Outcome Unit → Outcome Unit → Prop} (base : ι → Production Unit)
    (hbase : ∀ i c c', P i c c' (base i c) (base i c'))
    (hrule : ∀ f : ι → Production Unit, (∀ i c c', P i c c' (f i c) (f i c')) →
      ∀ i c c', P i c c' (rule f i c) (rule f i c'))
    (i : ι) (c c' : Cursor) : P i c c' (recursive rule i c) (recursive rule i c') := by
  have hiterate (n : Nat) : ∀ i c c', P i c c' (iterate rule base n i c)
      (iterate rule base n i c') := by
    induction n with
    | zero => exact hbase
    | succ n ih => exact hrule _ ih
  have hagree := h.iterate_agree base (c.rest.length + c'.rest.length + 1) i
  rw [← hagree c (by omega), ← hagree c' (by omega)]
  exact hiterate _ i c c'

/-- The same of single runs. -/
theorem Guarded.recursive_induction (h : Guarded rule) {P : ι → Cursor → Outcome Unit → Prop}
    (base : ι → Production Unit) (hbase : ∀ i c, P i c (base i c))
    (hrule : ∀ f : ι → Production Unit, (∀ i c, P i c (f i c)) → ∀ i c, P i c (rule f i c))
    (i : ι) (c : Cursor) : P i c (recursive rule i c) :=
  h.recursive_induction₂ (P := fun i c _ o _ => P i c o) base (fun i c _ => hbase i c)
    (fun f hf i c _ => hrule f (fun i c => hf i c c) i c) i c c

end ScriptSyntax.Production
