/-!
Byte offsets into text. Offsets count bytes of the UTF-8 form while the text
itself is a list of characters, so an offset may fall inside a character or
past the end; cutting there has no answer.
-/

namespace ScriptSyntax.Text

/-- Length in bytes of the UTF-8 form. -/
def byteLength : List Char → Nat
  | [] => 0
  | c :: cs => c.utf8Size + byteLength cs

@[simp] theorem byteLength_nil : byteLength [] = 0 := rfl

@[simp] theorem byteLength_cons (c : Char) (cs : List Char) :
    byteLength (c :: cs) = c.utf8Size + byteLength cs := rfl

@[simp] theorem byteLength_append (a b : List Char) :
    byteLength (a ++ b) = byteLength a + byteLength b := by
  induction a with
  | nil => simp
  | cons c a ih => simp [ih, Nat.add_assoc]

theorem byteLength_pos {cs : List Char} (h : cs ≠ []) : 0 < byteLength cs := by
  obtain ⟨c, cs, rfl⟩ := List.exists_cons_of_ne_nil h
  have hc := c.utf8Size_pos
  rw [byteLength_cons]
  omega

theorem byteLength_ofList (cs : List Char) : (String.ofList cs).utf8ByteSize = byteLength cs := by
  induction cs with
  | nil => rfl
  | cons c cs ih =>
      rw [String.ofList_cons, String.utf8ByteSize_append, ih]
      simp

theorem byteLength_toList (s : String) : byteLength s.toList = s.utf8ByteSize := by
  rw [← byteLength_ofList, String.ofList_toList]

/-- The two pieces of a text around a byte offset, if it lies between characters. -/
def splitBytes? : Nat → List Char → Option (List Char × List Char)
  | 0, cs => some ([], cs)
  | _ + 1, [] => none
  | n + 1, c :: cs =>
      if c.utf8Size ≤ n + 1 then
        (splitBytes? (n + 1 - c.utf8Size) cs).map fun (before, after) => (c :: before, after)
      else none

/-- An offset has pieces exactly when some front piece has that many bytes. -/
theorem splitBytes?_eq_some_iff {n : Nat} {cs before after : List Char} :
    splitBytes? n cs = some (before, after) ↔
      cs = before ++ after ∧ byteLength before = n := by
  fun_induction splitBytes? n cs generalizing before with
  | case1 cs =>
      cases before with
      | nil => simp [eq_comm]
      | cons c before =>
          have := c.utf8Size_pos
          simp
          omega
  | case2 n =>
      cases before with
      | nil => simp
      | cons c before => simp
  | case3 n c cs fits ih =>
      cases before with
      | nil => simp
      | cons d before =>
          simp only [Option.map_eq_some_iff, Prod.mk.injEq, List.cons.injEq, List.cons_append,
            byteLength_cons, Prod.exists]
          constructor
          · rintro ⟨b, a, h, ⟨rfl, rfl⟩, rfl⟩
            obtain ⟨rfl, hb⟩ := ih.mp h
            refine ⟨⟨rfl, rfl⟩, ?_⟩
            omega
          · rintro ⟨⟨rfl, rfl⟩, h⟩
            exact ⟨before, after, ih.mpr ⟨rfl, by omega⟩, ⟨rfl, rfl⟩, rfl⟩
  | case4 n c cs fits =>
      cases before with
      | nil => simp
      | cons d before =>
          simp only [reduceCtorEq, false_iff, List.cons_append, List.cons.injEq, byteLength_cons]
          rintro ⟨⟨rfl, _⟩, _⟩
          omega

end ScriptSyntax.Text
