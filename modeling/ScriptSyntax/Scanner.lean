import ScriptSyntax.Lexeme
import ScriptSyntax.Lexicon
import ScriptSyntax.Text.Bytes

/-!
The scanner cuts a source into lexemes, front to back. Where a rule of the
lexicon reads a token, the token is emitted; where none does, one character
joins the pending run, which becomes a skipped lexeme as soon as a token or
the end closes it. Scanning never fails, and it never looks behind the offset.
-/

namespace ScriptSyntax

/-- A scan in progress. -/
structure Scanner where
  source : String
  file : String
  /-- Bytes of the source passed so far. -/
  offset : Nat := 0
  emitted : Array Lexeme := #[]
  /-- Characters passed since the last token that belong to none. -/
  pending : String := ""
  /-- Offset at which the pending run began, while there is one. -/
  pendingStart : Nat := 0

namespace Scanner

def ofSource (source : String) (file : Option String) : Scanner :=
  { source, file := file.getD defaultFile }

/-- Moves by a number of bytes, without a look at the source. -/
def advance (s : Scanner) (bytes : Nat) : Scanner := { s with offset := s.offset + bytes }

def atEnd (s : Scanner) : Bool := s.source.utf8ByteSize ≤ s.offset

/-- What is left of the source. There is no answer past its end or inside a character. -/
def remainder? (s : Scanner) : Option String :=
  (Text.splitBytes? s.offset s.source.toList).map fun (_, after) => String.ofList after

/-- Emits the pending run, if there is one. -/
def flush (s : Scanner) : Scanner :=
  if s.pending = "" then s
  else
    { s with
      emitted := s.emitted.push
        (.skipped ⟨s.pending, .between s.file s.pendingStart s.offset⟩)
      pending := "" }

/-- Emits a token, after the run in front of it. -/
def push (s : Scanner) (token : Token) : Scanner :=
  { s.flush with emitted := s.flush.emitted.push (.token token) }

/-- Passes over one character that belongs to no token. -/
def skip (s : Scanner) (c : Char) : Scanner :=
  { s with
    offset := s.offset + c.utf8Size
    pending := s.pending.push c
    pendingStart := if s.pending = "" then s.offset else s.pendingStart }

/-- Emits a token of this spelling at the offset, and passes over it. -/
def accept (s : Scanner) (kind : TokenKind) (text : List Char) : Scanner :=
  let bytes := Text.byteLength text
  (s.push ⟨kind, String.ofList text, .between s.file s.offset (s.offset + bytes)⟩).advance bytes

/-- One token or one skipped character, from the front of what is left. -/
def step (s : Scanner) (c : Char) (cs : List Char) : Scanner × List Char :=
  match firstReading? (c :: cs) with
  | some (kind, reading) => (s.accept kind reading.text, reading.rest)
  | none => (s.skip c, cs)

theorem step_length_lt (s : Scanner) (c : Char) (cs : List Char) :
    (s.step c cs).2.length < (c :: cs).length := by
  unfold step
  split
  · next h => exact (firstReading?_splits h).length_lt
  · simp

/-- Scans `rest`, which is what the offset leaves of the source. -/
def run (s : Scanner) (rest : List Char) : Scanner :=
  match rest with
  | [] => s
  | c :: cs =>
      let next := s.step c cs
      next.1.run next.2
  termination_by rest.length
  decreasing_by exact step_length_lt s c cs

end Scanner

/-- The lexemes of a source. -/
def scan (source : String) (file : Option String) : List Lexeme :=
  ((Scanner.ofSource source file).run source.toList).flush.emitted.toList

end ScriptSyntax
