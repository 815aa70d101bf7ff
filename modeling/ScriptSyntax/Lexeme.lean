import ScriptSyntax.Token

/-!
Lexemes: the pieces a source falls into. A lexeme is a token or a run of
characters that belong to none, so that no character of the source is lost.
The grammar reads the significant tokens; all else is trivia.
-/

namespace ScriptSyntax

/-- How a character outside every token is shown. -/
inductive SkipClass where
  | carriageReturn
  | lineFeed
  | tab
  | space
  | other
  deriving DecidableEq, Repr

namespace SkipClass

def of (c : Char) : SkipClass :=
  if c = '\r' then .carriageReturn
  else if c = '\n' then .lineFeed
  else if c = '\t' then .tab
  else if c = ' ' then .space
  else .other

def name : SkipClass → String
  | carriageReturn => "carriage-return"
  | lineFeed => "line-feed"
  | tab => "tab"
  | space => "space"
  | other => "other"

end SkipClass

/-- A run of characters between two tokens. -/
structure Skipped where
  text : String
  span : Span
  deriving DecidableEq, Repr

namespace Skipped

def classes (skipped : Skipped) : List SkipClass := skipped.text.toList.map SkipClass.of

def isWhitespace (skipped : Skipped) : Bool := skipped.classes.all (· != .other)

end Skipped

inductive Lexeme where
  | token (token : Token)
  | skipped (skipped : Skipped)
  deriving DecidableEq, Repr

namespace Lexeme

def text : Lexeme → String
  | token t => t.value
  | skipped s => s.text

def span : Lexeme → Span
  | token t => t.span
  | skipped s => s.span

/-- The token, comments included. -/
def token? : Lexeme → Option Token
  | token t => some t
  | skipped _ => none

/-- The token, if the grammar sees it. -/
def significant? : Lexeme → Option Token
  | token t => if t.isSignificant then some t else none
  | skipped _ => none

def isTrivia (lexeme : Lexeme) : Bool := lexeme.significant?.isNone

theorem significant?_eq_some_iff {lexeme : Lexeme} {t : Token} :
    lexeme.significant? = some t ↔ lexeme = token t ∧ t.isSignificant := by
  cases lexeme with
  | token u =>
      by_cases h : u.isSignificant
      · simp only [significant?, h, if_true, Option.some.injEq, token.injEq]
        constructor
        · rintro rfl
          exact ⟨rfl, h⟩
        · exact fun ht => ht.1
      · simp only [significant?, h, if_false, token.injEq, reduceCtorEq, false_iff]
        rintro ⟨rfl, ht⟩
        exact h ht
  | skipped s => simp [significant?]

end Lexeme

/-- What the grammar sees of a list of lexemes. -/
def significantTokens (lexemes : List Lexeme) : List Token :=
  lexemes.filterMap Lexeme.significant?

@[simp] theorem significantTokens_nil : significantTokens [] = [] := rfl

@[simp] theorem significantTokens_append (lexemes more : List Lexeme) :
    significantTokens (lexemes ++ more) = significantTokens lexemes ++ significantTokens more :=
  List.filterMap_append

theorem significantTokens_cons_token {t : Token} (h : t.isSignificant) (rest : List Lexeme) :
    significantTokens (.token t :: rest) = t :: significantTokens rest := by
  simp [significantTokens, Lexeme.significant?, h]

theorem isSignificant_of_mem_significantTokens {lexemes : List Lexeme} {t : Token}
    (h : t ∈ significantTokens lexemes) : t.isSignificant := by
  obtain ⟨lexeme, _, hlexeme⟩ := List.mem_filterMap.mp h
  exact (Lexeme.significant?_eq_some_iff.mp hlexeme).2

/-- The first significant token has nothing but trivia in front of it. -/
theorem significantTokens_eq_cons_iff {lexemes : List Lexeme} {t : Token} {tokens : List Token} :
    significantTokens lexemes = t :: tokens ↔
      ∃ trivia after, lexemes = trivia ++ .token t :: after ∧ significantTokens trivia = [] ∧
        t.isSignificant ∧ significantTokens after = tokens := by
  simp only [significantTokens, List.filterMap_eq_cons_iff, List.filterMap_eq_nil_iff,
    Lexeme.significant?_eq_some_iff]
  constructor
  · rintro ⟨trivia, _, after, rfl, htrivia, ⟨rfl, ht⟩, hafter⟩
    exact ⟨trivia, after, rfl, htrivia, ht, hafter⟩
  · rintro ⟨trivia, after, rfl, htrivia, ht, hafter⟩
    exact ⟨trivia, _, after, rfl, htrivia, ⟨rfl, ht⟩, hafter⟩

end ScriptSyntax
