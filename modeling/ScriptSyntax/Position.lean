/-!
Places in a named source. Offsets count bytes and are 32-bit words: a source
longer than that wraps around instead of failing.
-/

namespace ScriptSyntax

structure Position where
  offset : UInt32
  file : String
  deriving DecidableEq, Repr

/-- The name of a source that was given none. -/
def defaultFile : String := "shell"

/-- The place of a fault that belongs to no source. -/
def Position.null : Position := ⟨0, "<null>"⟩

/-- From `start` up to but not including `stop`. -/
structure Span where
  start : Position
  stop : Position
  deriving DecidableEq, Repr

/-- The span between two byte counts of one source. -/
def Span.between (file : String) (start stop : Nat) : Span :=
  ⟨⟨UInt32.ofNat start, file⟩, ⟨UInt32.ofNat stop, file⟩⟩

end ScriptSyntax
