/-!
# Positions and spans

A position is a byte offset into a source together with the label of that source. Offsets are words
of 32 bits: a source of 4 GiB or more has positions that wrap around, and every statement about
offsets as numbers therefore carries a bound on the length of the source.

A span runs from the position of its first byte to the position just behind its last one.
-/

namespace Scriptlet

/-- The label of a source that was given none. -/
def defaultLabel : String := "shell"

/-- A byte offset into the source with a given label. -/
structure Position where
  /-- The byte offset, modulo `2 ^ 32`. -/
  offset : UInt32
  /-- The label of the source. -/
  file : String
  deriving DecidableEq, Inhabited

/-- The position at a byte offset. -/
def Position.of (file : String) (offset : Nat) : Position := ⟨UInt32.ofNat offset, file⟩

/-- The part of a source from `start` up to, but not including, `stop`. -/
structure Span where
  /-- The position of the first byte. -/
  start : Position
  /-- The position behind the last byte. -/
  stop : Position
  deriving DecidableEq, Inhabited

/-- The span of `length` bytes from a byte offset on. -/
def Span.of (file : String) (offset length : Nat) : Span :=
  ⟨.of file offset, .of file (offset + length)⟩

end Scriptlet
