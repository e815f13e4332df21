import Scriptlet.Token.Scanner

/-!
# A scanner moved by hand

A cursor is a scanner that also moves at its holder's wish: it can jump ahead by any number of
bytes, and tokens can be put into it that it hands out before it reads on. A jump may go past the
end of the source, and it may end inside a character. Its offset is a word of 64 bits, and a jump
or a span that would need a larger one is refused (`none`).

Inside a character there is no text to read. What asks for one there is refused as well, and so is
a look at the text past the end of the source; asking for the next token past the end is not,
because no text is needed to say that the source is over.

## Main definitions

* `Cursor`, `Cursor.ofSource`, `Cursor.advance?`, `Cursor.push`;
* `Cursor.remainder?`, `Cursor.peek?`, `Cursor.next?`.
-/

namespace Scriptlet

open Text (byteLength dropBytes?)

/-- A place in a source, with tokens waiting to be handed out. -/
structure Cursor where
  /-- The label of the source. -/
  file : String
  /-- The whole source. -/
  source : List Char
  /-- The byte offset of the place. -/
  offset : UInt64
  /-- Tokens put in by hand, to be handed out first. -/
  pending : List Token
  /-- The kind of the last token handed out or put in. -/
  lastKind : Option Kind
  /-- Whether the end of the source has been dealt with. -/
  finished : Bool
  deriving DecidableEq, Inhabited

namespace Cursor

/-- A cursor in front of a whole source. -/
def ofSource (file source : String) : Cursor := ⟨file, source.toList, 0, [], none, false⟩

/-- Whether the offset that lies a number of bytes ahead still fits into a word. -/
def reaches (c : Cursor) (n : Nat) : Bool := c.offset.toNat + n < UInt64.size

/-- Jumps ahead by a number of bytes. -/
def advance? (c : Cursor) (n : Nat) : Option Cursor :=
  if c.reaches n then some { c with offset := c.offset + UInt64.ofNat n } else none

/-- Puts a token behind those that wait already. -/
def push (c : Cursor) (t : Token) : Cursor :=
  { c with pending := c.pending ++ [t], lastKind := some t.kind }

/-- Whether no text is left at the place. -/
def atEnd (c : Cursor) : Bool := byteLength c.source ≤ c.offset.toNat

/-- The position of the place. -/
def position (c : Cursor) : Position := .of c.file c.offset.toNat

/-- The span of a number of bytes from the place on. -/
def spanFor? (c : Cursor) (n : Nat) : Option Span :=
  if c.reaches n then some (.of c.file c.offset.toNat n) else none

/-- The text at the place. -/
def remainder? (c : Cursor) : Option (List Char) := dropBytes? c.offset.toNat c.source

/-- The character at the place, a zero at the end of the source. -/
def peek? (c : Cursor) : Option Char := c.remainder?.map (·.headD '\x00')

/-- The scanner that reads on from the place. -/
def scanner? (c : Cursor) : Option Scanner :=
  (if c.atEnd then some [] else c.remainder?).map fun rest =>
    ⟨c.file, c.offset.toNat, rest, c.lastKind, c.finished⟩

/-- The cursor where a scanner of its source stands. -/
def goto (c : Cursor) (s : Scanner) : Cursor :=
  { c with offset := UInt64.ofNat s.offset, lastKind := s.lastKind, finished := s.finished }

/-- The next token: one that waits, or else the next one of the source. -/
def next? (c : Cursor) : Option (EStateM.Result Error Cursor (Option Token)) :=
  match c.pending with
  | t :: ts => some (.ok (some t) { c with pending := ts })
  | [] =>
    c.scanner?.map fun s =>
      match s.next with
      | .ok t s' => .ok t (c.goto s')
      | .error e s' => .error e (c.goto s')

end Cursor

end Scriptlet
