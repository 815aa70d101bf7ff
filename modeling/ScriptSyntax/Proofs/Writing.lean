import ScriptSyntax.Proofs.Relocation

/-!
Words written down, one after the other, with blanks between them. Main statement:
the scanner gives back the words and the blanks, piece by piece, if every word is
well spelled.

Behind a word comes a blank or the end, so a spelling in its place stays inside
it, quoted texts apart. What is left is that no kind that is tried earlier has a
spelling at the front of the word: only comments and numbers, or names and the
words that are reserved, begin with the same characters.
-/

namespace ScriptSyntax

open Segment

def IsBlank (c : Char) : Prop := c = ' ' ∨ c = '\t' ∨ c = '\r' ∨ c = '\n'

instance : DecidablePred IsBlank :=
  fun c => inferInstanceAs (Decidable (c = ' ' ∨ c = '\t' ∨ c = '\r' ∨ c = '\n'))

/-- A word as it can be written: a spelling of its kind, where a name is no keyword
and has none of the operators that are letters at its front. -/
structure WellSpelled (kind : TokenKind) (text : List Char) : Prop where
  spells : Spells kind text []
  name_free : kind = .identifier →
    ¬ Spells .keyword text [] ∧ ¬ "and".toList <+: text ∧ ¬ "or".toList <+: text

/-- What a word of this kind may stand in front of: the end or a blank, and behind a
comment the end of its line. -/
def Closes (kind : TokenKind) (following : List Char) : Prop :=
  ∀ c ∈ following.head?, IsBlank c ∧ (kind = .comment → c = '\r' ∨ c = '\n')

section Spellings

variable {kind earlier : TokenKind} {text following other rest : List Char} {c : Char}

/-- The characters that spellings of a kind begin with. -/
def Begins : TokenKind → Char → Prop
  | .string, c => c = '"'
  | .comment, c => c = '-'
  | .number, c => c = '-' ∨ IsDigit c
  | .operator, c => ∃ word ∈ operators, c ∈ word.toList.head?
  | .keyword, c => ∃ word ∈ keywords, c ∈ word.toList.head?
  | .identifier, c => IsLower c

instance : (kind : TokenKind) → DecidablePred (Begins kind)
  | .string => fun c => inferInstanceAs (Decidable (c = '"'))
  | .comment => fun c => inferInstanceAs (Decidable (c = '-'))
  | .number => fun c => inferInstanceAs (Decidable (c = '-' ∨ IsDigit c))
  | .operator => fun c => inferInstanceAs (Decidable (∃ word ∈ operators, c ∈ word.toList.head?))
  | .keyword => fun c => inferInstanceAs (Decidable (∃ word ∈ keywords, c ∈ word.toList.head?))
  | .identifier => fun c => inferInstanceAs (Decidable (IsLower c))

theorem Spells.begins (h : Spells kind text following) : ∃ c ∈ text.head?, Begins kind c := by
  have hword {words : List String} (hwords : ∀ word ∈ words, word.toList ≠ [])
      (htext : String.ofList text ∈ words) :
      ∃ c ∈ text.head?, ∃ word ∈ words, c ∈ word.toList.head? := by
    have hne := hwords _ htext
    rw [String.toList_ofList] at hne
    obtain ⟨c, more, rfl⟩ := List.exists_cons_of_ne_nil hne
    exact ⟨c, rfl, _, htext, by rw [String.toList_ofList]; rfl⟩
  cases h with
  | string => exact ⟨'"', rfl, rfl⟩
  | comment => exact ⟨'-', rfl, rfl⟩
  | @number sign digits _ hsign hdigits hsome =>
      rcases hsign with rfl | rfl
      · obtain ⟨c, digits, rfl⟩ := List.exists_cons_of_ne_nil hsome
        exact ⟨c, rfl, .inr (hdigits c (by simp))⟩
      · exact ⟨'-', rfl, .inl rfl⟩
  | operator htext => exact hword (by decide) htext
  | keyword htext => exact hword (by decide) htext
  | @identifier first more _ hfirst => exact ⟨first, rfl, hfirst⟩

theorem Matches.begins {cs : List Char} (h : Matches kind (c :: cs)) : Begins kind c := by
  obtain ⟨text, following, hsplit, hspells⟩ := h
  obtain ⟨d, hd, hbegins⟩ := hspells.begins
  have hheads := congrArg List.head? hsplit
  rw [List.head?_append, hd] at hheads
  obtain rfl : d = c := by simpa using hheads
  exact hbegins

theorem Spells.ne_nil (h : Spells kind text following) : text ≠ [] := by
  rintro rfl
  obtain ⟨c, hc, _⟩ := h.begins
  cases hc

/-- What holds of the first characters of all the words holds of one of them. -/
theorem of_mem_head? {words : List String} {p : Char → Prop} [DecidablePred p]
    (h : ∀ word ∈ words, word.toList.head?.all (p ·)) {word : String} (hword : word ∈ words)
    (hc : c ∈ word.toList.head?) : p c := by
  have hfirst := h word hword
  rw [hc] at hfirst
  exact of_decide_eq_true hfirst

/-- Kinds with a first character in common. -/
theorem clash_of_begins (hrank : earlier.rank < kind.rank) (hearlier : Begins earlier c)
    (h : Begins kind c) :
    earlier = .comment ∧ kind = .number ∨
      (earlier = .operator ∨ earlier = .keyword) ∧ kind = .identifier := by
  cases earlier with
  | string =>
      obtain rfl := hearlier
      cases kind <;> revert hrank h <;> decide
  | comment =>
      obtain rfl := hearlier
      cases kind <;> revert hrank h <;> decide
  | number =>
      have hwords : ∀ word ∈ operators ++ keywords,
          word.toList.head?.all fun c => ¬ Begins .number c := by decide
      cases kind with
      | string | comment | number => exact absurd hrank (by decide)
      | operator =>
          obtain ⟨word, hmem, hc⟩ := h
          exact absurd hearlier (of_mem_head? hwords (List.mem_append_left _ hmem) hc)
      | keyword =>
          obtain ⟨word, hmem, hc⟩ := h
          exact absurd hearlier (of_mem_head? hwords (List.mem_append_right _ hmem) hc)
      | identifier =>
          rcases hearlier with rfl | hdigit
          · exact absurd h (by decide)
          · exact absurd (Char.le_trans h.1 hdigit.2) (by decide)
  | operator =>
      have hwords : ∀ word ∈ operators, word.toList.head?.all fun c => ¬ Begins .keyword c := by
        decide
      obtain ⟨word, hmem, hc⟩ := hearlier
      cases kind with
      | string | comment | number | operator => exact absurd hrank (by decide)
      | keyword => exact absurd h (of_mem_head? hwords hmem hc)
      | identifier => exact .inr ⟨.inl rfl, rfl⟩
  | keyword =>
      cases kind with
      | string | comment | number | operator | keyword => exact absurd hrank (by decide)
      | identifier => exact .inr ⟨.inr rfl, rfl⟩
  | identifier => cases kind <;> exact absurd hrank (by decide)

theorem IsBlank.not_begins (h : IsBlank c) (kind : TokenKind) : ¬ Begins kind c := by
  rcases h with rfl | rfl | rfl | rfl <;> cases kind <;> decide

theorem IsBlank.not_wordChar (h : IsBlank c) :
    ¬ (IsUpper c ∨ IsLower c ∨ IsDigit c ∨ c = '_') := by
  rcases h with rfl | rfl | rfl | rfl <;> decide

theorem wordEnds_nil : WordEnds [] := by simp [WordEnds]

theorem Closes.wordEnds (h : Closes kind following) : WordEnds following :=
  fun c hc => (h c hc).1.not_wordChar

theorem Spells.wordChar (h : Spells .identifier text following) :
    ∀ c ∈ text, IsUpper c ∨ IsLower c ∨ IsDigit c ∨ c = '_' := by
  intro c hc
  cases h with
  | identifier hfirst hmore =>
      rcases List.mem_cons.mp hc with rfl | hc
      · exact .inr (.inl hfirst)
      · exact .inr (hmore c hc)

/-- Outside quoted texts and comments no spelling has a blank. -/
theorem Spells.not_blank (h : Spells kind text following) (hstring : kind ≠ .string)
    (hcomment : kind ≠ .comment) : ∀ c ∈ text, ¬ IsBlank c := by
  have hwords : ∀ word ∈ operators ++ keywords, word.toList.all fun c => ¬ IsBlank c := by decide
  intro c hc hblank
  have hword (hmem : String.ofList text ∈ operators ++ keywords) : ¬ IsBlank c :=
    of_decide_eq_true (List.all_eq_true.mp (hwords _ hmem) c (by rwa [String.toList_ofList]))
  cases h with
  | string => exact hstring rfl
  | comment => exact hcomment rfl
  | number hsign hdigits =>
      rcases List.mem_append.mp hc with hc | hc
      · rcases hsign with rfl | rfl
        · cases hc
        · obtain rfl : c = '-' := List.mem_singleton.mp hc
          exact absurd hblank (by decide)
      · exact hblank.not_wordChar (.inr (.inr (.inl (hdigits c hc))))
  | operator htext => exact hword (List.mem_append_left _ htext) hblank
  | keyword htext => exact hword (List.mem_append_right _ htext) hblank
  | identifier hfirst hmore hend =>
      exact hblank.not_wordChar ((Spells.identifier hfirst hmore hend).wordChar c hc)

/-- A text that has no character from the head of what follows stays in front of it. -/
theorem prefix_of_head_not_mem (hsplit : other ++ rest = text ++ following)
    (hhead : ∀ c ∈ following.head?, c ∉ other) : other <+: text := by
  rcases List.append_eq_append_iff.mp hsplit with ⟨more, htext, _⟩ | ⟨more, hother, hfollowing⟩
  · exact ⟨more, htext.symm⟩
  · cases more with
    | nil => exact ⟨[], by simpa using hother⟩
    | cons c more =>
        have hmem : c ∈ other := by simp [hother]
        exact absurd hmem (hhead c (by simp [hfollowing]))

/-- A spelling that begins where a word does ends inside it. -/
theorem Spells.prefix_of_closes (h : Spells earlier other rest) (hstring : earlier ≠ .string)
    (hcomment : earlier = .comment → kind = .comment) (hcloses : Closes kind following)
    (hsplit : other ++ rest = text ++ following) : other <+: text := by
  apply prefix_of_head_not_mem hsplit
  intro c hc hmem
  obtain ⟨hblank, hline⟩ := hcloses c hc
  by_cases hkind : earlier = .comment
  · cases h with
    | comment hbody =>
        have hc' := hline (hcomment rfl)
        simp only [List.mem_cons] at hmem
        rcases hmem with rfl | rfl | hmem
        · exact absurd hblank (by decide)
        · exact absurd hblank (by decide)
        · exact hc'.elim (hbody c hmem).1 (hbody c hmem).2
    | _ => cases hkind
  · exact h.not_blank hstring hkind c hmem hblank

theorem WellSpelled.spells_before (h : WellSpelled kind text) (hcloses : Closes kind following) :
    Spells kind text following := by
  cases h.spells with
  | string hbody => exact .string hbody
  | comment hbody => exact .comment hbody fun c hc => (hcloses c hc).2 rfl
  | number hsign hdigits hsome => exact .number hsign hdigits hsome
  | operator htext => exact .operator htext
  | keyword htext => exact .keyword htext hcloses.wordEnds
  | identifier hfirst hmore => exact .identifier hfirst hmore hcloses.wordEnds

theorem WellSpelled.longest (h : WellSpelled kind text) (hcloses : Closes kind following) :
    Longest kind text following := by
  refine ⟨h.spells_before hcloses, ?_⟩
  intro other rest hsplit hother
  by_cases hkind : kind = .string
  · cases h.spells with
    | @string body _ hbody =>
        cases hother with
        | @string inner _ hinner =>
            have hbodies : inner ++ '"' :: rest = body ++ '"' :: following := by simpa using hsplit
            have hfront : inner <+: body := by
              apply prefix_of_head_not_mem hbodies
              intro c hc
              obtain rfl : '"' = c := by simpa using hc
              exact hinner
            simpa using hfront.length_le
    | _ => cases hkind
  · exact (hother.prefix_of_closes hkind id hcloses hsplit).length_le

/-- A number has no second dash, so it begins no comment. -/
theorem Spells.not_comment (h : Spells .number text []) (following : List Char) :
    ¬ Matches .comment (text ++ following) := by
  rintro ⟨other, rest, hsplit, hother⟩
  cases hother with
  | comment =>
      cases h with
      | @number sign digits _ hsign hdigits hsome =>
          obtain ⟨c, digits, rfl⟩ := List.exists_cons_of_ne_nil hsome
          have hc : IsDigit c := hdigits c (by simp)
          rcases hsign with rfl | rfl
          · obtain ⟨rfl, _⟩ := List.cons.inj hsplit
            exact absurd hc (by decide)
          · obtain ⟨_, hmore⟩ := List.cons.inj hsplit
            obtain ⟨rfl, _⟩ := List.cons.inj hmore
            exact absurd hc (by decide)

/-- A name has no operator at its front: the two that are letters are ruled out. -/
theorem WellSpelled.not_operator (h : WellSpelled .identifier text)
    (hcloses : Closes .identifier following) : ¬ Matches .operator (text ++ following) := by
  rintro ⟨other, rest, hsplit, hother⟩
  obtain ⟨more, rfl⟩ : other <+: text :=
    hother.prefix_of_closes (by decide) (by simp) hcloses hsplit
  obtain ⟨_, hand, hor⟩ := h.name_free rfl
  obtain ⟨c, hc, hlower⟩ := h.spells.begins
  cases hother with
  | operator htext =>
      have hletters : ∀ word ∈ operators, word.toList.head?.all (fun c => IsLower c) →
          word = "and" ∨ word = "or" := by decide
      have hhead : (String.ofList other).toList.head?.all (fun c => IsLower c) := by
        rw [String.toList_ofList]
        cases hd : other.head? with
        | none => rfl
        | some d =>
            rw [List.head?_append, hd] at hc
            obtain rfl : d = c := by simpa using hc
            exact decide_eq_true hlower
      rcases hletters _ htext hhead with hword | hword
      · exact hand ⟨more, by rw [← hword, String.toList_ofList]⟩
      · exact hor ⟨more, by rw [← hword, String.toList_ofList]⟩

/-- A name has no keyword at its front: it is none itself, and it would go on behind a
shorter one. -/
theorem WellSpelled.not_keyword (h : WellSpelled .identifier text)
    (hcloses : Closes .identifier following) : ¬ Matches .keyword (text ++ following) := by
  rintro ⟨other, rest, hsplit, hother⟩
  obtain ⟨more, rfl⟩ : other <+: text :=
    hother.prefix_of_closes (by decide) (by simp) hcloses hsplit
  obtain ⟨hkeyword, _, _⟩ := h.name_free rfl
  cases hother with
  | keyword htext hend =>
      cases more with
      | nil =>
          rw [List.append_nil] at hkeyword
          exact hkeyword (.keyword htext wordEnds_nil)
      | cons c more =>
          rw [List.append_assoc, List.append_cancel_left_eq] at hsplit
          rw [hsplit] at hend
          exact hend c rfl (h.spells.wordChar c (by simp))

/-- A word that is well spelled is the token in its place. -/
theorem WellSpelled.isTokenAt (h : WellSpelled kind text) (hcloses : Closes kind following) :
    IsTokenAt kind text following := by
  refine ⟨h.longest hcloses, ?_⟩
  intro earlier hrank hmatches
  obtain ⟨c, hc, hbegins⟩ := h.spells.begins
  have hbegins' : Begins earlier c := by
    obtain ⟨more, rfl⟩ := List.head?_eq_some_iff.mp hc
    exact hmatches.begins
  -- no other kinds that are tried earlier can begin with `c`
  rcases clash_of_begins hrank hbegins' hbegins with ⟨rfl, rfl⟩ | ⟨rfl | rfl, rfl⟩
  · exact h.spells.not_comment following hmatches
  · exact h.not_operator hcloses hmatches
  · exact h.not_keyword hcloses hmatches

theorem closes_nil : Closes kind [] := by simp [Closes]

/-- The words that are well spelled are those that are one token when alone. -/
theorem wellSpelled_iff : WellSpelled kind text ↔ IsTokenAt kind text [] := by
  constructor
  · exact fun h => h.isTokenAt closes_nil
  · intro h
    refine ⟨h.1.1, ?_⟩
    rintro rfl
    have hoperator := h.2 .operator (by decide)
    have hkeyword := h.2 .keyword (by decide)
    rw [List.append_nil] at hoperator hkeyword
    refine ⟨?_, ?_, ?_⟩
    · exact fun hspells => hkeyword ⟨text, [], List.append_nil text, hspells⟩
    · rintro ⟨more, hmore⟩
      exact hoperator ⟨_, more, hmore, .operator (by decide)⟩
    · rintro ⟨more, hmore⟩
      exact hoperator ⟨_, more, hmore, .operator (by decide)⟩

instance (kind : TokenKind) (text : List Char) : Decidable (WellSpelled kind text) :=
  decidable_of_iff (firstReading? text = some (kind, ⟨text, []⟩)) <| by
    simp only [firstReading?_eq_some_iff, wellSpelled_iff, List.append_nil, true_and]

/-- No token begins in a run of blanks. -/
theorem unmatched_of_blank (h : ∀ c ∈ text, IsBlank c) (following : List Char) :
    Unmatched text following := by
  rintro front c back rfl kind hmatches
  exact (h c (by simp)).not_begins kind hmatches.begins

end Spellings

/-- A run of blanks that may stand behind a word of this kind. -/
structure IsGap (kind : TokenKind) (gap : List Char) : Prop where
  ne_nil : gap ≠ []
  blank : ∀ c ∈ gap, IsBlank c
  line : kind = .comment → ∀ c ∈ gap.head?, c = '\r' ∨ c = '\n'

theorem IsGap.closes {kind : TokenKind} {gap : List Char} (h : IsGap kind gap)
    (following : List Char) : Closes kind (gap ++ following) := by
  intro c hc
  obtain ⟨d, more, rfl⟩ := List.exists_cons_of_ne_nil h.ne_nil
  obtain rfl : d = c := by simpa using hc
  exact ⟨h.blank d (by simp), fun hkind => h.line hkind d rfl⟩

def Word.WellSpelled (word : Word) : Prop := ScriptSyntax.WellSpelled word.kind word.text.toList

def Word.segment (word : Word) : Segment := .token word.kind word.text.toList

/-- The words in order, and a gap between any two of them. -/
inductive LaidOut : List Word → List Segment → Prop where
  | nothing : LaidOut [] []
  | last (word : Word) : LaidOut [word] [word.segment]
  | more {word next : Word} {words : List Word} {gap : List Char} {segments : List Segment}
      (hgap : IsGap word.kind gap) (h : LaidOut (next :: words) segments) :
      LaidOut (word :: next :: words) (word.segment :: .skipped gap :: segments)

/-- A source that has the words and gaps between them, and nothing else. -/
def Written (words : List Word) (source : String) : Prop :=
  ∃ segments, LaidOut words segments ∧ textOfAll segments = source.toList

namespace LaidOut

variable {words : List Word} {segments : List Segment}

theorem head?_ne_skipped (h : LaidOut words segments) (text : List Char) :
    segments.head? ≠ some (.skipped text) := by
  cases h <;> simp [Word.segment]

/-- Words that are well spelled fall into the pieces they were made of. -/
theorem segmentation (h : LaidOut words segments) (hwords : ∀ word ∈ words, word.WellSpelled) :
    Segmentation (textOfAll segments) segments := by
  induction h with
  | nothing => exact segmentation_nil
  | last word =>
      have hword := hwords word (by simp)
      exact segmentation_cons_iff.mpr
        ⟨⟨hword.spells.ne_nil, hword.isTokenAt closes_nil⟩, [], rfl, segmentation_nil⟩
  | @more word next words gap segments hgap h ih =>
      have hword := hwords word (by simp)
      have hrest := ih fun other hother => hwords other (by simp [hother])
      have hskipped : Segmentation (textOfAll (.skipped gap :: segments))
          (.skipped gap :: segments) :=
        segmentation_cons_iff.mpr
          ⟨⟨hgap.ne_nil, h.head?_ne_skipped, unmatched_of_blank hgap.blank _⟩, _, rfl, hrest⟩
      exact segmentation_cons_iff.mpr
        ⟨⟨hword.spells.ne_nil, hword.isTokenAt (hgap.closes _)⟩, _, rfl, hskipped⟩

/-- The scanner gives back the words and the gaps. -/
theorem scan_eq (h : LaidOut words segments) (hwords : ∀ word ∈ words, word.WellSpelled)
    {source : String} (hsource : textOfAll segments = source.toList) (file : Option String) :
    (scan source file).map Lexeme.segment = segments := by
  have hpieces := h.segmentation hwords
  rw [hsource] at hpieces
  rw [scan_segments, hpieces.eq_cut]

end LaidOut

/-- The word of a token that the grammar sees. -/
def Segment.word? : Segment → Option Word
  | .token kind text => if kind = .comment then none else some ⟨kind, String.ofList text⟩
  | .skipped _ => none

theorem map_word_significantTokens (lexemes : List Lexeme) :
    (significantTokens lexemes).map Token.word =
      (lexemes.map Lexeme.segment).filterMap Segment.word? := by
  rw [significantTokens, List.map_filterMap, List.filterMap_map]
  congr 1
  funext lexeme
  cases lexeme with
  | skipped s => rfl
  | token t =>
      by_cases hkind : t.kind = .comment
      · simp [Lexeme.significant?, Token.isSignificant, Lexeme.segment, Segment.word?, hkind]
      · simp [Lexeme.significant?, Token.isSignificant, Lexeme.segment, Segment.word?, hkind,
          Token.word]

theorem LaidOut.filterMap_word? {words : List Word} {segments : List Segment}
    (h : LaidOut words segments) (hwords : ∀ word ∈ words, word.kind ≠ .comment) :
    segments.filterMap Segment.word? = words := by
  have hword {word : Word} (h : word.kind ≠ .comment) : word.segment.word? = some word := by
    rw [Word.segment, Segment.word?, if_neg h, String.ofList_toList]
  induction h with
  | nothing => rfl
  | last word => rw [List.filterMap_cons, hword (hwords word (by simp))]; rfl
  | @more word next words gap segments _ _ ih =>
      have hrest := ih fun other hother => hwords other (by simp [hother])
      rw [List.filterMap_cons, hword (hwords word (by simp)), List.filterMap_cons, hrest]
      rfl

/-- What the grammar sees of a written source are its words. -/
theorem Written.words_scan {words : List Word} {source : String} (h : Written words source)
    (hspelled : ∀ word ∈ words, word.WellSpelled) (hseen : ∀ word ∈ words, word.kind ≠ .comment)
    (file : Option String) : (significantTokens (scan source file)).map Token.word = words := by
  obtain ⟨segments, hlaid, hsource⟩ := h
  rw [map_word_significantTokens, hlaid.scan_eq hspelled hsource, hlaid.filterMap_word? hseen]

/-- Words of any kinds, in any order, survive being written and scanned: the lexemes are the
words and the gaps between them, each in its place. -/
theorem scan_laidOut (words : List Word) (segments : List Segment) (file : Option String)
    (hwords : ∀ word ∈ words, word.WellSpelled) (h : LaidOut words segments) :
    scan (String.ofList (textOfAll segments)) file =
      placed (file.getD defaultFile) 0 segments := by
  apply scan_eq_placed
  rw [String.toList_ofList]
  exact h.segmentation hwords

/-- A keyword in a comment and in a name, an operator in quotes and by itself, a number with
its sign behind a name. -/
theorem scan_laidOut_keywords :
    let words : List Word := [⟨.comment, "--end"⟩, ⟨.identifier, "ends"⟩, ⟨.number, "-1"⟩,
      ⟨.string, "\"or\n\""⟩, ⟨.operator, "or"⟩, ⟨.keyword, "elseif"⟩]
    let segments : List Segment := [.token .comment "--end".toList, .skipped ['\r', '\n'],
      .token .identifier "ends".toList, .skipped [' '], .token .number "-1".toList,
      .skipped ['\t', ' '], .token .string "\"or\n\"".toList, .skipped ['\n'],
      .token .operator "or".toList, .skipped [' '], .token .keyword "elseif".toList]
    (∀ word ∈ words, word.WellSpelled) ∧ LaidOut words segments ∧
      scan "--end\r\nends -1\t \"or\n\"\nor elseif" none = placed "shell" 0 segments := by
  intro words segments
  have hwords : ∀ word ∈ words, word.WellSpelled := by
    have hall : ∀ word ∈ words, ScriptSyntax.WellSpelled word.kind word.text.toList := by
      decide +kernel
    exact hall
  have hgap {kind : TokenKind} {gap : List Char} (hkind : kind ≠ .comment) (hne : gap ≠ [])
      (hblank : ∀ c ∈ gap, IsBlank c) : IsGap kind gap :=
    ⟨hne, hblank, fun hcomment => absurd hcomment hkind⟩
  have hline : IsGap .comment ['\r', '\n'] := ⟨by simp, by simp [IsBlank], by simp⟩
  have hlaid : LaidOut words segments :=
    .more hline <| .more (hgap (by simp) (by simp) (by simp [IsBlank])) <|
      .more (hgap (by simp) (by simp) (by simp [IsBlank])) <|
      .more (hgap (by simp) (by simp) (by simp [IsBlank])) <|
      .more (hgap (by simp) (by simp) (by simp [IsBlank])) (.last ⟨.keyword, "elseif"⟩)
  have hsource : String.ofList (textOfAll segments) =
      "--end\r\nends -1\t \"or\n\"\nor elseif" := by decide +kernel
  rw [← hsource]
  exact ⟨hwords, hlaid, scan_laidOut words segments none hwords hlaid⟩

end ScriptSyntax
