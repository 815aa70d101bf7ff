import Mathlib.Data.Nat.Digits.Defs
import ScriptSyntax.Text.Quoted

/-!
Quoted texts can be told apart. What a character is written as ends where it shows
that it does: an escape of two characters after the second, a code point behind its
brace, and all else after one character that is no backslash and no quote. So a text
in quotes is known from any text that begins with it, whatever the set of characters
written by code point. No line feed is ever written.
-/

namespace ScriptSyntax.Text

/-- Two texts that begin with a run of characters of one kind, and behind it with none of
that kind, begin with the same run. -/
theorem run_append_inj {p : Char → Prop} {run run' rest rest' : List Char}
    (hrun : ∀ c ∈ run, p c) (hrun' : ∀ c ∈ run', p c) (hrest : ∀ c ∈ rest.head?, ¬ p c)
    (hrest' : ∀ c ∈ rest'.head?, ¬ p c) (h : run ++ rest = run' ++ rest') :
    run = run' ∧ rest = rest' := by
  induction run generalizing run' with
  | nil =>
      cases run' with
      | nil => exact ⟨rfl, h⟩
      | cons d run' =>
          have hhead : d ∈ rest.head? := by rw [← List.nil_append rest, h]; rfl
          exact absurd (hrun' d List.mem_cons_self) (hrest d hhead)
  | cons c run ih =>
      cases run' with
      | nil =>
          have hhead : c ∈ rest'.head? := by rw [← List.nil_append rest', ← h]; rfl
          exact absurd (hrun c List.mem_cons_self) (hrest' c hhead)
      | cons d run' =>
          obtain ⟨rfl, hmore⟩ := List.cons.inj h
          obtain ⟨rfl, hsame⟩ := ih (fun c hc => hrun c (List.mem_cons_of_mem _ hc))
            (fun c hc => hrun' c (List.mem_cons_of_mem _ hc)) hmore
          exact ⟨rfl, hsame⟩

/-! Code points. -/

theorem hexDigits_eq (n : Nat) :
    hexDigits n =
      if n < 16 then [n.digitChar] else hexDigits (n / 16) ++ [(n % 16).digitChar] :=
  Nat.toDigits_eq_if (by decide)

theorem digitChar_inj {m n : Nat} (hm : m < 16) (hn : n < 16)
    (h : m.digitChar = n.digitChar) : m = n := by
  have hall : ∀ m < 16, ∀ n < 16, m.digitChar = n.digitChar → m = n := by decide
  exact hall m hm n hn h

theorem hexDigits_injective {m n : Nat} (h : hexDigits m = hexDigits n) : m = n := by
  have hlonger {k : Nat} {c d : Char} : [c] ≠ hexDigits k ++ [d] := by
    intro heq
    have hlength := congrArg List.length heq
    have hpos : 0 < (hexDigits k).length := Nat.length_toDigits_pos
    simp only [List.length_append, List.length_singleton] at hlength
    omega
  induction m using Nat.strongRecOn generalizing n with
  | ind m ih =>
      rw [hexDigits_eq m, hexDigits_eq n] at h
      split at h
      · next hm =>
          split at h
          · next hn => exact digitChar_inj hm hn (List.singleton_inj.mp h)
          · exact absurd h hlonger
      · next hm =>
          split at h
          · exact absurd h.symm hlonger
          · next hn =>
              obtain ⟨hmost, hlast⟩ := List.append_inj' h rfl
              have hquotient := ih (m / 16) (by omega) hmost
              have hremainder := digitChar_inj (Nat.mod_lt m (by decide))
                (Nat.mod_lt n (by decide)) (List.singleton_inj.mp hlast)
              omega

theorem exists_digitChar_of_mem_hexDigits {n : Nat} {c : Char} (h : c ∈ hexDigits n) :
    ∃ d < 16, c = d.digitChar := by
  induction n using Nat.strongRecOn with
  | ind n ih =>
      rw [hexDigits_eq] at h
      split at h
      · next hn => exact ⟨n, hn, List.mem_singleton.mp h⟩
      · obtain hmost | hlast := List.mem_append.mp h
        · exact ih (n / 16) (by omega) hmost
        · exact ⟨n % 16, Nat.mod_lt n (by decide), List.mem_singleton.mp hlast⟩

theorem ne_of_mem_hexDigits {n : Nat} {c : Char} (h : c ∈ hexDigits n) : c ≠ '}' ∧ c ≠ '\n' := by
  obtain ⟨d, hd, rfl⟩ := exists_digitChar_of_mem_hexDigits h
  have hall : ∀ d < 16, d.digitChar ≠ '}' ∧ d.digitChar ≠ '\n' := by decide
  exact hall d hd

/-! Characters. -/

/-- The characters with an escape of their own form, and the letter of each. -/
def ownEscapes : List (Char × Char) :=
  [('\x00', '0'), ('\t', 't'), ('\r', 'r'), ('\n', 'n'), ('"', '"'), ('\\', '\\')]

theorem eq_of_mem_ownEscapes {c d letter : Char} (hc : (c, letter) ∈ ownEscapes)
    (hd : (d, letter) ∈ ownEscapes) : c = d := by
  have hall : ∀ entry ∈ ownEscapes, ∀ other ∈ ownEscapes,
      entry.2 = other.2 → entry.1 = other.1 := by decide
  exact hall _ hc _ hd rfl

theorem ne_of_mem_ownEscapes {c letter : Char} (h : (c, letter) ∈ ownEscapes) :
    letter ≠ 'u' ∧ letter ≠ '\n' := by
  have hall : ∀ entry ∈ ownEscapes, entry.2 ≠ 'u' ∧ entry.2 ≠ '\n' := by decide
  exact hall _ h

/-- What a character can be written as. -/
inductive WrittenAs : Char → List Char → Prop where
  | letter {c letter : Char} : (c, letter) ∈ ownEscapes → WrittenAs c ['\\', letter]
  | code (c : Char) : WrittenAs c ('\\' :: 'u' :: '{' :: (hexDigits c.toNat ++ ['}']))
  | plain {c : Char} : c ≠ '\\' → c ≠ '"' → c ≠ '\n' → WrittenAs c [c]

theorem writtenAs_escape (hidden : Char → Bool) (c : Char) : WrittenAs c (escape hidden c) := by
  unfold escape
  split
  case h_7 hnull htab hreturn hfeed hquote hslash =>
      split
      · exact .code c
      · exact .plain hslash hquote hfeed
  all_goals exact .letter (by decide)

namespace WrittenAs

/-- Two writings with something behind each are the same if the whole is. -/
theorem append_inj {c d : Char} {text text' rest rest' : List Char} (hc : WrittenAs c text)
    (hd : WrittenAs d text') (h : text ++ rest = text' ++ rest') : c = d ∧ rest = rest' := by
  cases hc with
  | letter hletter =>
      cases hd with
      | letter hletter' =>
          simp only [List.cons_append, List.nil_append, List.cons.injEq, true_and] at h
          obtain ⟨rfl, hrest⟩ := h
          exact ⟨eq_of_mem_ownEscapes hletter hletter', hrest⟩
      | code =>
          simp only [List.cons_append, List.nil_append, List.cons.injEq, true_and] at h
          exact absurd h.1 (ne_of_mem_ownEscapes hletter).1
      | plain hslash => exact absurd (List.cons.inj h).1.symm hslash
  | code =>
      cases hd with
      | letter hletter' =>
          simp only [List.cons_append, List.nil_append, List.cons.injEq, true_and] at h
          exact absurd h.1.symm (ne_of_mem_ownEscapes hletter').1
      | code =>
          simp only [List.cons_append, List.append_assoc, List.cons.injEq, true_and] at h
          obtain ⟨hdigits, hrest⟩ := run_append_inj (p := (· ≠ '}'))
            (fun _ hmem => (ne_of_mem_hexDigits hmem).1)
            (fun _ hmem => (ne_of_mem_hexDigits hmem).1) (by simp) (by simp) h
          have hcode : c = d := Char.toNat_inj.mp (hexDigits_injective hdigits)
          exact ⟨hcode, by simpa using hrest⟩
      | plain hslash => exact absurd (List.cons.inj h).1.symm hslash
  | plain hslash =>
      cases hd with
      | letter => exact absurd (List.cons.inj h).1 hslash
      | code => exact absurd (List.cons.inj h).1 hslash
      | plain => simpa using h

/-- A writing begins with no quote, which only stands behind a backslash. -/
theorem head_ne_quote {c : Char} {text : List Char} (h : WrittenAs c text) (rest more : List Char) :
    text ++ rest ≠ '"' :: more := by
  cases h with
  | letter => simp
  | code => simp
  | plain _ hquote => simpa using fun heq => absurd heq hquote

theorem lineFeed_not_mem {c : Char} {text : List Char} (h : WrittenAs c text) : '\n' ∉ text := by
  cases h with
  | letter hletter => simpa using (ne_of_mem_ownEscapes hletter).2.symm
  | code => simpa using fun hmem => (ne_of_mem_hexDigits hmem).2 rfl
  | plain _ _ hfeed => simpa using hfeed.symm

end WrittenAs

/-! Whole texts. -/

/-- A quoted text is known from what begins with it. -/
theorem enquote_append_inj (hidden : Char → Bool) {cs ds rest rest' : List Char}
    (h : enquote hidden cs ++ rest = enquote hidden ds ++ rest') : cs = ds ∧ rest = rest' := by
  simp only [enquote, List.cons_append, List.append_assoc, List.nil_append, List.cons.injEq,
    true_and] at h
  induction cs generalizing ds with
  | nil =>
      cases ds with
      | nil => simpa using h
      | cons d ds =>
          rw [List.flatMap_cons, List.append_assoc] at h
          exact absurd h.symm ((writtenAs_escape hidden d).head_ne_quote _ _)
  | cons c cs ih =>
      rw [List.flatMap_cons, List.append_assoc] at h
      cases ds with
      | nil => exact absurd h ((writtenAs_escape hidden c).head_ne_quote _ _)
      | cons d ds =>
          rw [List.flatMap_cons, List.append_assoc] at h
          obtain ⟨rfl, hmore⟩ :=
            (writtenAs_escape hidden c).append_inj (writtenAs_escape hidden d) h
          obtain ⟨rfl, hrest⟩ := ih hmore
          exact ⟨rfl, hrest⟩

theorem enquote_injective (hidden : Char → Bool) : Function.Injective (enquote hidden) := by
  intro cs ds h
  have hsame : enquote hidden cs ++ [] = enquote hidden ds ++ [] := by rw [h]
  exact (enquote_append_inj hidden hsame).1

theorem lineFeed_not_mem_enquote (hidden : Char → Bool) (cs : List Char) :
    '\n' ∉ enquote hidden cs := by
  simp only [enquote, List.cons_append, List.mem_cons, List.mem_append, List.mem_flatMap,
    List.not_mem_nil, or_false, not_or, Char.reduceEq, not_false_eq_true, true_and]
  rintro ⟨c, -, hmem⟩
  exact (writtenAs_escape hidden c).lineFeed_not_mem hmem

end ScriptSyntax.Text
