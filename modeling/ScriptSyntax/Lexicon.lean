import ScriptSyntax.Token

/-!
The lexicon: how each kind of token is spelled. A rule looks only at what is
left of the source and takes its longest spelling there. Where several kinds
could be read, the one that stands first in `TokenKind.byPriority` is taken.
Letters and digits are those of ASCII.
-/

namespace ScriptSyntax

/-- What a rule takes from the front of the source, and what it leaves. -/
structure Reading where
  text : List Char
  rest : List Char
  deriving DecidableEq, Repr

/-- Two-character spellings come before their first characters. `and` and `or`
need no end of word after them, so `order` begins with an operator. -/
def operators : List String :=
  ["==", "<=", ">=", "!=", "=", "(", ")", ",", "and", "or"]

def keywords : List String :=
  ["for", "if", "elseif", "else", "end", "do", "then"]

def isWordChar (c : Char) : Bool := c.isAlphanum || c == '_'

/-- Characters of a name after its first. -/
def isNameChar (c : Char) : Bool := c.isLower || c.isDigit || c == '_'

/-- Whether a word may end in front of this text. -/
def endsWord : List Char → Bool
  | [] => true
  | c :: _ => !isWordChar c

def readWord? (word : String) (cs : List Char) : Option Reading :=
  if word.toList.isPrefixOf cs then some ⟨word.toList, cs.drop word.toList.length⟩ else none

def readDigits? (cs : List Char) : Option Reading :=
  if (cs.takeWhile Char.isDigit).isEmpty then none
  else some ⟨cs.takeWhile Char.isDigit, cs.dropWhile Char.isDigit⟩

/-- A text between double quotes; it may run over several lines. -/
def readString? : List Char → Option Reading
  | '"' :: cs =>
      match cs.dropWhile (· != '"') with
      | [] => none
      | quote :: rest => some ⟨'"' :: cs.takeWhile (· != '"') ++ [quote], rest⟩
  | _ => none

/-- Two dashes and the rest of the line. -/
def readComment? : List Char → Option Reading
  | '-' :: '-' :: cs =>
      some ⟨'-' :: '-' :: cs.takeWhile fun c => c != '\r' && c != '\n',
        cs.dropWhile fun c => c != '\r' && c != '\n'⟩
  | _ => none

def readNumber? : List Char → Option Reading
  | '-' :: cs => (readDigits? cs).map fun r => ⟨'-' :: r.text, r.rest⟩
  | cs => readDigits? cs

def readOperator? (cs : List Char) : Option Reading :=
  operators.findSome? fun word => readWord? word cs

def readKeyword? (cs : List Char) : Option Reading :=
  keywords.findSome? fun word => (readWord? word cs).filter fun r => endsWord r.rest

/-- A name runs to the end of its word: in front of a capital there is none. -/
def readIdentifier? : List Char → Option Reading
  | c :: cs =>
      if c.isLower && endsWord (cs.dropWhile isNameChar) then
        some ⟨c :: cs.takeWhile isNameChar, cs.dropWhile isNameChar⟩
      else none
  | [] => none

namespace TokenKind

def read? : TokenKind → List Char → Option Reading
  | string => readString?
  | comment => readComment?
  | number => readNumber?
  | operator => readOperator?
  | keyword => readKeyword?
  | identifier => readIdentifier?

def byPriority : List TokenKind := [string, comment, number, operator, keyword, identifier]

end TokenKind

/-- The token at the front of a text, by the first rule that reads one. -/
def firstReading? (cs : List Char) : Option (TokenKind × Reading) :=
  TokenKind.byPriority.findSome? fun kind => (kind.read? cs).map fun r => (kind, r)

/-- A reading splits the text, and takes at least one character of it. -/
def Reading.Splits (r : Reading) (cs : List Char) : Prop :=
  r.text ++ r.rest = cs ∧ r.text ≠ []

theorem readWord?_splits {word : String} {cs : List Char} {r : Reading}
    (h : readWord? word cs = some r) : r.text = word.toList ∧ r.text ++ r.rest = cs := by
  unfold readWord? at h
  split at h
  · next hfront =>
      cases h
      exact ⟨rfl, List.prefix_iff_eq_append.mp (List.isPrefixOf_iff_prefix.mp hfront)⟩
  · cases h

theorem readDigits?_splits {cs : List Char} {r : Reading} (h : readDigits? cs = some r) :
    r.Splits cs := by
  unfold readDigits? at h
  split at h
  · cases h
  · next hne =>
      cases h
      exact ⟨List.takeWhile_append_dropWhile, by simpa using hne⟩

theorem TokenKind.read?_splits {kind : TokenKind} {cs : List Char} {r : Reading}
    (h : kind.read? cs = some r) : r.Splits cs := by
  cases kind with
  | string =>
      simp only [TokenKind.read?] at h
      unfold readString? at h
      split at h
      · next cs =>
          split at h
          · cases h
          · next quote rest hrest =>
              cases h
              refine ⟨?_, by simp⟩
              simp [← hrest, List.takeWhile_append_dropWhile]
      · cases h
  | comment =>
      simp only [TokenKind.read?] at h
      unfold readComment? at h
      split at h
      · cases h
        exact ⟨by simp [List.takeWhile_append_dropWhile], by simp⟩
      · cases h
  | number =>
      simp only [TokenKind.read?] at h
      unfold readNumber? at h
      split at h
      · obtain ⟨r, hr, rfl⟩ := Option.map_eq_some_iff.mp h
        exact ⟨by simp [(readDigits?_splits hr).1], by simp⟩
      · exact readDigits?_splits h
  | operator =>
      obtain ⟨word, hword, h⟩ := List.exists_of_findSome?_eq_some h
      obtain ⟨htext, hsplit⟩ := readWord?_splits h
      have hne : ∀ word ∈ operators, word.toList ≠ [] := by decide
      exact ⟨hsplit, htext ▸ hne word hword⟩
  | keyword =>
      obtain ⟨word, hword, h⟩ := List.exists_of_findSome?_eq_some h
      obtain ⟨htext, hsplit⟩ := readWord?_splits (Option.eq_some_of_filter_eq_some h)
      have hne : ∀ word ∈ keywords, word.toList ≠ [] := by decide
      exact ⟨hsplit, htext ▸ hne word hword⟩
  | identifier =>
      simp only [TokenKind.read?] at h
      unfold readIdentifier? at h
      split at h
      · split at h
        · cases h
          exact ⟨by simp [List.takeWhile_append_dropWhile], by simp⟩
        · cases h
      · cases h

theorem firstReading?_splits {cs : List Char} {kind : TokenKind} {r : Reading}
    (h : firstReading? cs = some (kind, r)) : r.Splits cs := by
  obtain ⟨kind, _, h⟩ := List.exists_of_findSome?_eq_some h
  obtain ⟨r, hr, heq⟩ := Option.map_eq_some_iff.mp h
  cases heq
  exact TokenKind.read?_splits hr

theorem Reading.Splits.length_lt {r : Reading} {cs : List Char} (h : r.Splits cs) :
    r.rest.length < cs.length := by
  have := List.length_pos_iff.mpr h.2
  rw [← h.1, List.length_append]
  omega

end ScriptSyntax
