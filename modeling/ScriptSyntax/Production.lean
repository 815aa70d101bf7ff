import ScriptSyntax.Tree

/-!
Productions: steps of a parse. A production stands in a node under
construction; it reads lexemes from a cursor and adds trees behind the node's
children, and it cannot touch the children that are there. A production that
fails leaves its fault in the tree and keeps what it has read, so a failed
parse still shows how far it came.
-/

namespace ScriptSyntax

/-- The lexemes not yet read, and the position that a fault at the end reports. -/
structure Cursor where
  rest : List Lexeme
  eof : Position
  deriving Repr

/-- What running a production does: the trees added to the node, the lexemes
left, and a value or the fault. -/
structure Outcome (α : Type) where
  appended : List Tree
  rest : List Lexeme
  result : Except Fault α

def Production (α : Type) : Type := Cursor → Outcome α

namespace Production

variable {α β : Type}

protected def pure (a : α) : Production α := fun c => ⟨[], c.rest, .ok a⟩

/-- One production and then another, unless the first fails. -/
protected def bind (p : Production α) (f : α → Production β) : Production β := fun c =>
  let first := p c
  match first.result with
  | .error fault => ⟨first.appended, first.rest, .error fault⟩
  | .ok a =>
      let second := f a { c with rest := first.rest }
      ⟨first.appended ++ second.appended, second.rest, second.result⟩

instance : Monad Production where
  pure := Production.pure
  bind := Production.bind

/-- Adds a tree to the node. -/
def attach (tree : Tree) : Production Unit := fun c => ⟨[tree], c.rest, .ok ()⟩

def attachAll (trees : List Tree) : Production Unit := fun c => ⟨trees, c.rest, .ok ()⟩

/-- Leaves the fault in the tree where it arose. -/
def fail (fault : Fault) : Production α := fun c => ⟨[.fault fault], c.rest, .error fault⟩

/-- Fails at a token. -/
def failAt (token : Token) (cause : Cause) : Production α := fail (.raise cause (some token))

/-- The next significant token, without reading it. -/
def peek : Production (Option Token) := fun c =>
  ⟨[], c.rest, .ok (c.rest.findSome? Lexeme.significant?)⟩

/-- Reads up to and including the next significant token. The trivia in front
of it goes into the node, the token itself does not. -/
def nextToken : Production Token := fun c => read c.eof c.rest
where
  read (eof : Position) : List Lexeme → Outcome Token
    | [] => ⟨[.fault (.atEnd eof)], [], .error (.atEnd eof)⟩
    | lexeme :: rest =>
        match lexeme.significant? with
        | some token => ⟨[], rest, .ok token⟩
        | none =>
            let next := read eof rest
            { next with appended := .lexeme lexeme :: next.appended }

/-- Reads the next token, which must be of this kind and text, into the node. -/
def expect (kind : TokenKind) (value : String) : Production Token := do
  let token ← nextToken
  if token.kind != kind then
    failAt token (.unexpectedToken (Token.describe kind value) token.value)
  else if token.value != value then
    failAt token (.unexpectedValue value token.value)
  else
    attach (.token token)
    return token

def keyword (word : String) : Production Unit := discard (expect .keyword word)

def operator (sign : String) : Production Unit := discard (expect .operator sign)

/-- Builds a new node, which joins its parent even if the building fails. -/
def within (kind : NodeKind) (build : Production α) : Production α := fun c =>
  let inner := build c
  { inner with appended := [.node kind inner.appended] }

/-- Runs a production and hands over what it added instead of adding it. What a
failed one has added stays where it is. -/
def hold (build : Production Unit) : Production (List Tree) := fun c =>
  let inner := build c
  match inner.result with
  | .error fault => ⟨inner.appended, inner.rest, .error fault⟩
  | .ok () => ⟨[], inner.rest, .ok inner.appended⟩

/-- The trivia up to the end, unless a token is left. -/
def finish : Production Unit := do
  match ← peek with
  | some token => failAt token (.unexpectedToken "end of file" token.value)
  | none => fun c => ⟨c.rest.map Tree.lexeme, [], .ok ()⟩

/-- The productions of a rule that refers to itself, with its references
followed to a depth. -/
def unfold {ι : Type} (rule : (ι → Production Unit) → ι → Production Unit) :
    Nat → ι → Production Unit
  | 0, _ => pure ()
  | depth + 1, i => rule (unfold rule depth) i

/-- The productions of a rule that refers to itself only behind a token it has
read. There are no more such references, one inside the other, than lexemes. -/
def recursive {ι : Type} (rule : (ι → Production Unit) → ι → Production Unit) (i : ι) :
    Production Unit := fun c => unfold rule (c.rest.length + 1) i c

end Production

end ScriptSyntax
