import Mathlib.Data.List.TakeWhile
import ScriptSyntax.Lexicon

/-!
The lexicon as a table of spellings. `Spells kind text following` says that a
text spells a token of a kind where `following` comes behind it; what follows
counts for a comment, which ends only with its line, and for a word, which ends
only where no letter, digit or underscore goes on.

Main statements: a rule of the lexicon reads exactly its longest spelling, and
the token at the front of a text is that of the first kind with a spelling there.
-/

namespace ScriptSyntax

/-! The characters of words are those of ASCII. -/

def IsDigit (c : Char) : Prop := '0' ≤ c ∧ c ≤ '9'

def IsLower (c : Char) : Prop := 'a' ≤ c ∧ c ≤ 'z'

def IsUpper (c : Char) : Prop := 'A' ≤ c ∧ c ≤ 'Z'

instance : DecidablePred IsDigit := fun c => inferInstanceAs (Decidable ('0' ≤ c ∧ c ≤ '9'))

instance : DecidablePred IsLower := fun c => inferInstanceAs (Decidable ('a' ≤ c ∧ c ≤ 'z'))

instance : DecidablePred IsUpper := fun c => inferInstanceAs (Decidable ('A' ≤ c ∧ c ≤ 'Z'))

/-- No ASCII letter, digit or underscore comes first. -/
def WordEnds (following : List Char) : Prop :=
  ∀ c ∈ following.head?, ¬ (IsUpper c ∨ IsLower c ∨ IsDigit c ∨ c = '_')

inductive Spells : TokenKind → List Char → List Char → Prop where
  | string {body following : List Char} (hbody : '"' ∉ body) :
      Spells .string ('"' :: body ++ ['"']) following
  | comment {body following : List Char} (hbody : ∀ c ∈ body, c ≠ '\r' ∧ c ≠ '\n')
      (hline : ∀ c ∈ following.head?, c = '\r' ∨ c = '\n') :
      Spells .comment ('-' :: '-' :: body) following
  | number {sign digits following : List Char} (hsign : sign = [] ∨ sign = ['-'])
      (hdigits : ∀ c ∈ digits, IsDigit c) (hsome : digits ≠ []) :
      Spells .number (sign ++ digits) following
  | operator {text following : List Char}
      (htext : String.ofList text ∈ ["==", "<=", ">=", "!=", "=", "(", ")", ",", "and", "or"]) :
      Spells .operator text following
  | keyword {text following : List Char}
      (htext : String.ofList text ∈ ["for", "if", "elseif", "else", "end", "do", "then"])
      (hend : WordEnds following) : Spells .keyword text following
  | identifier {first : Char} {more following : List Char} (hfirst : IsLower first)
      (hmore : ∀ c ∈ more, IsLower c ∨ IsDigit c ∨ c = '_') (hend : WordEnds following) :
      Spells .identifier (first :: more) following

/-- Some front part of the text spells a token of the kind. -/
def Matches (kind : TokenKind) (cs : List Char) : Prop :=
  ∃ text following, text ++ following = cs ∧ Spells kind text following

/-- The text spells a token of the kind, and no longer one would in its place. -/
def Longest (kind : TokenKind) (text following : List Char) : Prop :=
  Spells kind text following ∧ ∀ other rest, other ++ rest = text ++ following →
    Spells kind other rest → other.length ≤ text.length

/-- The place of a kind in the order in which kinds are tried. -/
def TokenKind.rank : TokenKind → Nat
  | string => 0
  | comment => 1
  | number => 2
  | operator => 3
  | keyword => 4
  | identifier => 5

/-- The text is the token at the front of itself and what follows. -/
def IsTokenAt (kind : TokenKind) (text following : List Char) : Prop :=
  Longest kind text following ∧
    ∀ earlier : TokenKind, earlier.rank < kind.rank → ¬ Matches earlier (text ++ following)

section Characters

theorem isDigit_iff {c : Char} : c.isDigit ↔ IsDigit c :=
  (Bool.and_eq_true_iff).trans (and_congr decide_eq_true_iff decide_eq_true_iff)

theorem isLower_iff {c : Char} : c.isLower ↔ IsLower c :=
  (Bool.and_eq_true_iff).trans (and_congr decide_eq_true_iff decide_eq_true_iff)

theorem isUpper_iff {c : Char} : c.isUpper ↔ IsUpper c := decide_eq_true_iff

theorem isAlphanum_iff {c : Char} : c.isAlphanum ↔ IsUpper c ∨ IsLower c ∨ IsDigit c := by
  have halpha : c.isAlpha ↔ c.isUpper ∨ c.isLower := Bool.or_eq_true_iff
  have halphanum : c.isAlphanum ↔ c.isAlpha ∨ c.isDigit := Bool.or_eq_true_iff
  rw [halphanum, halpha, isUpper_iff, isLower_iff, isDigit_iff, or_assoc]

theorem isNameChar_iff {c : Char} : isNameChar c ↔ IsLower c ∨ IsDigit c ∨ c = '_' := by
  simp only [isNameChar, Bool.or_eq_true, beq_iff_eq, isLower_iff, isDigit_iff, or_assoc]

theorem isWordChar_iff {c : Char} :
    isWordChar c ↔ IsUpper c ∨ IsLower c ∨ IsDigit c ∨ c = '_' := by
  simp only [isWordChar, Bool.or_eq_true, beq_iff_eq, isAlphanum_iff, or_assoc]

theorem endsWord_iff {following : List Char} : endsWord following ↔ WordEnds following := by
  cases following with
  | nil => simp [endsWord, WordEnds]
  | cons c cs =>
      simp only [endsWord, WordEnds, List.head?_cons, Option.mem_def, Option.some.injEq,
        forall_eq', ← isWordChar_iff, Bool.not_eq_true', Bool.not_eq_true]

end Characters

/-! Each rule reads a spelling of its kind, and one at least as long as any
other at the same place. -/

section Rules

variable {cs text following : List Char} {r : Reading}

theorem readString?_spells (h : readString? cs = some r) : Spells .string r.text r.rest := by
  unfold readString? at h
  split at h
  · next cs =>
      have hbody : '"' ∉ cs.takeWhile (· != '"') := by
        intro hquote
        simpa using List.mem_takeWhile_imp hquote
      split at h
      · cases h
      · next quote rest hrest =>
          cases h
          have hquote : quote = '"' := by
            have hhead := List.head?_dropWhile_not (· != '"') cs
            rw [hrest] at hhead
            simpa using hhead
          rw [hquote]
          exact .string hbody
  · cases h

theorem readString?_longest (h : Spells .string text following) :
    ∃ r, readString? (text ++ following) = some r ∧ text.length ≤ r.text.length := by
  cases h with
  | @string body _ hbody =>
      have hall : ∀ c ∈ body, c != '"' := by
        intro c hc
        rw [bne_iff_ne]
        rintro rfl
        exact hbody hc
      refine ⟨⟨'"' :: body ++ ['"'], following⟩, ?_, Nat.le_refl _⟩
      simp [readString?, List.dropWhile_append_of_pos hall, List.takeWhile_append_of_pos hall]

theorem readComment?_spells (h : readComment? cs = some r) : Spells .comment r.text r.rest := by
  unfold readComment? at h
  split at h
  · next cs =>
      cases h
      refine .comment ?_ ?_
      · intro c hc
        simpa using List.mem_takeWhile_imp hc
      · intro c hc
        have hhead := List.head?_dropWhile_not (fun c => c != '\r' && c != '\n') cs
        rw [hc] at hhead
        simpa [or_iff_not_imp_left] using hhead
  · cases h

/-- A comment is read over the whole line, whether it ends there or not. -/
theorem readComment?_line {body : List Char} (hbody : ∀ c ∈ body, c ≠ '\r' ∧ c ≠ '\n')
    (following : List Char) :
    ∃ r, readComment? ('-' :: '-' :: body ++ following) = some r ∧
      ('-' :: '-' :: body).length ≤ r.text.length := by
  have hall : ∀ c ∈ body, (c != '\r' && c != '\n') = true := by
    intro c hc
    simpa using hbody c hc
  refine ⟨_, rfl, ?_⟩
  simp [List.takeWhile_append_of_pos hall]

theorem readComment?_longest (h : Spells .comment text following) :
    ∃ r, readComment? (text ++ following) = some r ∧ text.length ≤ r.text.length := by
  cases h with
  | comment hbody _ => exact readComment?_line hbody following

theorem readDigits?_spells (h : readDigits? cs = some r) :
    (∀ c ∈ r.text, IsDigit c) ∧ r.text ≠ [] := by
  unfold readDigits? at h
  split at h
  · cases h
  · next hne =>
      cases h
      refine ⟨?_, by simpa using hne⟩
      intro c hc
      exact isDigit_iff.mp (List.mem_takeWhile_imp hc)

theorem readDigits?_longest (hdigits : ∀ c ∈ text, IsDigit c) (hsome : text ≠ [])
    (following : List Char) :
    ∃ r, readDigits? (text ++ following) = some r ∧ text.length ≤ r.text.length := by
  have hall : ∀ c ∈ text, c.isDigit := fun c hc => isDigit_iff.mpr (hdigits c hc)
  unfold readDigits?
  rw [List.takeWhile_append_of_pos hall, if_neg (by simp [hsome])]
  exact ⟨_, rfl, by simp⟩

theorem readNumber?_spells (h : readNumber? cs = some r) : Spells .number r.text r.rest := by
  unfold readNumber? at h
  split at h
  · obtain ⟨r, hr, rfl⟩ := Option.map_eq_some_iff.mp h
    obtain ⟨hdigits, hsome⟩ := readDigits?_spells hr
    exact .number (.inr rfl) hdigits hsome
  · obtain ⟨hdigits, hsome⟩ := readDigits?_spells h
    have hnumber : Spells .number ([] ++ r.text) r.rest := .number (.inl rfl) hdigits hsome
    exact hnumber

theorem readNumber?_longest (h : Spells .number text following) :
    ∃ r, readNumber? (text ++ following) = some r ∧ text.length ≤ r.text.length := by
  cases h with
  | @number sign digits _ hsign hdigits hsome =>
      obtain ⟨r, hr, hlength⟩ := readDigits?_longest hdigits hsome following
      rcases hsign with rfl | rfl
      · refine ⟨r, ?_, hlength⟩
        rw [List.nil_append]
        unfold readNumber?
        split
        · next hdash =>
            -- a number without sign begins with a digit
            cases digits with
            | nil => exact absurd rfl hsome
            | cons c digits =>
                obtain ⟨rfl, _⟩ := List.cons.inj hdash
                exact absurd (hdigits '-' (by simp)) (by simp [IsDigit])
        · exact hr
      · refine ⟨⟨'-' :: r.text, r.rest⟩, ?_, by simpa using hlength⟩
        simp [readNumber?, hr]

/-- Of the words that stand at the front of a text and are accepted there, the
first one in the list is read. It is the longest, if no word begins with an
earlier one. -/
theorem findSome?_readWord?_longest {words : List String} {accept : Reading → Bool}
    (hwords : words.Pairwise fun earlier later => ¬ earlier.toList <+: later.toList)
    {word : String} (hword : word ∈ words) (htext : word.toList ++ following = cs)
    (haccept : accept ⟨word.toList, following⟩) :
    ∃ r, (words.findSome? fun word => (readWord? word cs).filter accept) = some r ∧
      word.toList.length ≤ r.text.length := by
  have hfront : word.toList <+: cs := ⟨following, htext⟩
  have hread : (readWord? word cs).filter accept = some ⟨word.toList, following⟩ := by
    have hdrop : cs.drop word.toList.length = following := by rw [← htext, List.drop_left]
    rw [readWord?, if_pos (List.isPrefixOf_iff_prefix.mpr hfront), hdrop, Option.filter_some,
      if_pos haccept]
  induction words with
  | nil => cases hword
  | cons first words ih =>
      obtain ⟨hfirst, hrest⟩ := List.pairwise_cons.mp hwords
      cases hfound : (readWord? first cs).filter accept with
      | none =>
          have hmem : word ∈ words := by
            rcases List.mem_cons.mp hword with rfl | hmem
            · rw [hread] at hfound
              cases hfound
            · exact hmem
          obtain ⟨r, hr, hlength⟩ := ih hrest hmem
          exact ⟨r, by rw [List.findSome?_cons, hfound]; exact hr, hlength⟩
      | some r =>
          refine ⟨r, by rw [List.findSome?_cons, hfound], ?_⟩
          obtain ⟨hrText, hrSplit⟩ := readWord?_splits (Option.eq_some_of_filter_eq_some hfound)
          rw [hrText]
          rcases List.mem_cons.mp hword with rfl | hmem
          · exact Nat.le_refl _
          · -- a shorter first word would begin the longer one
            by_contra hlonger
            have hfirstFront : first.toList <+: cs := ⟨r.rest, by rw [← hrText, hrSplit]⟩
            exact hfirst word hmem (List.prefix_of_prefix_length_le hfirstFront hfront (by omega))

theorem readOperator?_spells (h : readOperator? cs = some r) : Spells .operator r.text r.rest := by
  obtain ⟨word, hword, h⟩ := List.exists_of_findSome?_eq_some h
  obtain ⟨htext, _⟩ := readWord?_splits h
  apply Spells.operator
  rw [htext, String.ofList_toList]
  exact hword

theorem readOperator?_longest (h : Spells .operator text following) :
    ∃ r, readOperator? (text ++ following) = some r ∧ text.length ≤ r.text.length := by
  cases h with
  | operator htext =>
      have hsplit : (String.ofList text).toList ++ following = text ++ following := by
        rw [String.toList_ofList]
      have hread : ∃ r, (operators.findSome? fun word =>
          (readWord? word (text ++ following)).filter fun _ => true) = some r ∧
          (String.ofList text).toList.length ≤ r.text.length :=
        findSome?_readWord?_longest (by decide) htext hsplit rfl
      have hall (o : Option Reading) : (o.filter fun _ => true) = o := by cases o <;> rfl
      simpa only [hall, String.toList_ofList, readOperator?] using hread

theorem readKeyword?_spells (h : readKeyword? cs = some r) : Spells .keyword r.text r.rest := by
  obtain ⟨word, hword, h⟩ := List.exists_of_findSome?_eq_some h
  obtain ⟨hread, hend⟩ := Option.filter_eq_some_iff.mp h
  obtain ⟨htext, _⟩ := readWord?_splits hread
  refine .keyword ?_ (endsWord_iff.mp hend)
  rw [htext, String.ofList_toList]
  exact hword

theorem readKeyword?_longest (h : Spells .keyword text following) :
    ∃ r, readKeyword? (text ++ following) = some r ∧ text.length ≤ r.text.length := by
  cases h with
  | keyword htext hend =>
      have hsplit : (String.ofList text).toList ++ following = text ++ following := by
        rw [String.toList_ofList]
      have hread : ∃ r, (keywords.findSome? fun word =>
          (readWord? word (text ++ following)).filter fun r => endsWord r.rest) = some r ∧
          (String.ofList text).toList.length ≤ r.text.length :=
        findSome?_readWord?_longest (by decide) htext hsplit (endsWord_iff.mpr hend)
      simpa only [String.toList_ofList, readKeyword?] using hread

theorem readIdentifier?_spells (h : readIdentifier? cs = some r) :
    Spells .identifier r.text r.rest := by
  unfold readIdentifier? at h
  split at h
  · split at h
    · next hname =>
        cases h
        rw [Bool.and_eq_true] at hname
        refine .identifier (isLower_iff.mp hname.1) ?_ (endsWord_iff.mp hname.2)
        intro c hc
        exact isNameChar_iff.mp (List.mem_takeWhile_imp hc)
    · cases h
  · cases h

theorem readIdentifier?_longest (h : Spells .identifier text following) :
    ∃ r, readIdentifier? (text ++ following) = some r ∧ text.length ≤ r.text.length := by
  cases h with
  | @identifier first more _ hfirst hmore hend =>
      have hall : ∀ c ∈ more, isNameChar c := fun c hc => isNameChar_iff.mpr (hmore c hc)
      have hstop : following.dropWhile isNameChar = following := by
        cases following with
        | nil => rfl
        | cons c cs =>
            have hc : ¬ isNameChar c := by
              rw [isNameChar_iff]
              intro hname
              exact hend c rfl (.inr hname)
            exact List.dropWhile_cons_of_neg hc
      have hname : first.isLower && endsWord ((more ++ following).dropWhile isNameChar) := by
        rw [List.dropWhile_append_of_pos hall, hstop, isLower_iff.mpr hfirst,
          endsWord_iff.mpr hend]
        rfl
      refine ⟨_, by rw [List.cons_append, readIdentifier?, if_pos hname], ?_⟩
      simp [List.takeWhile_append_of_pos hall]

end Rules

namespace TokenKind

variable {kind : TokenKind} {cs : List Char} {r : Reading}

theorem read?_spells (h : kind.read? cs = some r) : Spells kind r.text r.rest := by
  cases kind with
  | string => exact readString?_spells h
  | comment => exact readComment?_spells h
  | number => exact readNumber?_spells h
  | operator => exact readOperator?_spells h
  | keyword => exact readKeyword?_spells h
  | identifier => exact readIdentifier?_spells h

theorem read?_longest {text following : List Char} (h : Spells kind text following) :
    ∃ r, kind.read? (text ++ following) = some r ∧ text.length ≤ r.text.length := by
  cases kind with
  | string => exact readString?_longest h
  | comment => exact readComment?_longest h
  | number => exact readNumber?_longest h
  | operator => exact readOperator?_longest h
  | keyword => exact readKeyword?_longest h
  | identifier => exact readIdentifier?_longest h

/-- A rule reads its longest spelling. -/
theorem read?_eq_some_iff :
    kind.read? cs = some r ↔ r.text ++ r.rest = cs ∧ Longest kind r.text r.rest := by
  constructor
  · intro h
    have hsplit := (read?_splits h).1
    refine ⟨hsplit, read?_spells h, ?_⟩
    intro other rest hother hspells
    obtain ⟨r', hr', hlength⟩ := read?_longest hspells
    rw [hother, hsplit, h] at hr'
    cases hr'
    exact hlength
  · rintro ⟨hsplit, hspells, hlongest⟩
    obtain ⟨r', hr', hlength⟩ := read?_longest hspells
    have hsplit' := (read?_splits hr').1
    have hlength' := hlongest r'.text r'.rest hsplit' (read?_spells hr')
    obtain ⟨htext, hrest⟩ := List.append_inj hsplit' (Nat.le_antisymm hlength' hlength)
    have heq : r' = r := by
      cases r'
      cases r
      simp_all
    rw [← heq, ← hr', hsplit]

/-- A rule reads something wherever its kind has a spelling. -/
theorem read?_eq_none_iff : kind.read? cs = none ↔ ¬ Matches kind cs := by
  constructor
  · rintro h ⟨text, following, rfl, hspells⟩
    obtain ⟨r, hr, _⟩ := read?_longest hspells
    rw [hr] at h
    cases h
  · intro h
    cases hread : kind.read? cs with
    | none => rfl
    | some r => exact absurd ⟨r.text, r.rest, (read?_splits hread).1, read?_spells hread⟩ h

end TokenKind

/-- Nothing is read exactly where no kind has a spelling. -/
theorem firstReading?_eq_none_iff {cs : List Char} :
    firstReading? cs = none ↔ ∀ kind, ¬ Matches kind cs := by
  simp only [firstReading?, List.findSome?_eq_none_iff, Option.map_eq_none_iff,
    TokenKind.read?_eq_none_iff]
  constructor
  · intro h kind
    exact h kind (by cases kind <;> decide)
  · exact fun h kind _ => h kind

/-- The rules are tried in the order of their ranks. -/
theorem firstReading?_eq_some_iff_read? {cs : List Char} {kind : TokenKind} {r : Reading} :
    firstReading? cs = some (kind, r) ↔ kind.read? cs = some r ∧
      ∀ earlier : TokenKind, earlier.rank < kind.rank → earlier.read? cs = none := by
  have hsorted : TokenKind.byPriority.Pairwise fun a b => a.rank < b.rank := by decide
  have hmem (kind : TokenKind) : kind ∈ TokenKind.byPriority := by cases kind <;> decide
  simp only [firstReading?, List.findSome?_eq_some_iff]
  constructor
  · rintro ⟨before, found, after, hkinds, hfound, hnone⟩
    obtain ⟨r', hr', heq⟩ := Option.map_eq_some_iff.mp hfound
    cases heq
    refine ⟨hr', ?_⟩
    intro earlier hrank
    have hearlier := hmem earlier
    rw [hkinds] at hsorted hearlier
    obtain ⟨_, hafter, _⟩ := List.pairwise_append.mp hsorted
    rcases List.mem_append.mp hearlier with hbefore | hbehind
    · simpa using hnone earlier hbefore
    · rcases List.mem_cons.mp hbehind with rfl | hbehind
      · exact absurd hrank (Nat.lt_irrefl _)
      · have hlater := (List.pairwise_cons.mp hafter).1 earlier hbehind
        omega
  · rintro ⟨hread, hnone⟩
    obtain ⟨before, after, hkinds⟩ := List.append_of_mem (hmem kind)
    refine ⟨before, kind, after, hkinds, by rw [hread]; rfl, ?_⟩
    intro earlier hbefore
    rw [hkinds] at hsorted
    have hrank := (List.pairwise_append.mp hsorted).2.2 earlier hbefore kind (by simp)
    rw [hnone earlier hrank]
    rfl

/-- The token that is read is the longest of the first kind with a spelling. -/
theorem firstReading?_eq_some_iff {cs : List Char} {kind : TokenKind} {r : Reading} :
    firstReading? cs = some (kind, r) ↔
      r.text ++ r.rest = cs ∧ IsTokenAt kind r.text r.rest := by
  simp only [firstReading?_eq_some_iff_read?, TokenKind.read?_eq_some_iff,
    TokenKind.read?_eq_none_iff]
  constructor
  · rintro ⟨⟨hsplit, hlongest⟩, hnone⟩
    exact ⟨hsplit, hlongest, hsplit ▸ hnone⟩
  · rintro ⟨hsplit, hlongest, hnone⟩
    exact ⟨⟨hsplit, hlongest⟩, hsplit ▸ hnone⟩

end ScriptSyntax
