import Scriptlet.Token.Scanner

/-!
# Parsing sessions

A session reads programs from one source after the other. It holds the scanner of the present source
and exactly one token of lookahead: between any two steps the lookahead is the first token that has
not been consumed, and `none` means that the input is used up.

Nesting is counted. Statements and expressions take a level of the session's depth while they are
read, and a session refuses to go deeper than its limit. What is left of the limit is the session's
`budget`.

## Main definitions

* `ParseOptions`, `Session`, `Session.new`;
* `Session.isAt`, `Session.position`, `Session.spanFrom`: what can be asked of a session;
* `Session.remaining`: the input that is left, as a number.
-/

namespace Scriptlet

/-- The nesting limit of a session that was given none. -/
def defaultMaxDepth : Nat := 256

/-- What a session is created with. -/
structure ParseOptions where
  /-- The label of the sources. -/
  file : Option String := none
  /-- How many levels statements and expressions may be nested. -/
  maxDepth : Nat := defaultMaxDepth
  deriving DecidableEq

/-- The state of a parser. -/
structure Session where
  /-- The source, from behind the lookahead on. -/
  scanner : Scanner
  /-- The first token not consumed, `none` when the input is used up. -/
  lookahead : Option Token
  /-- The label of the sources. -/
  file : String
  /-- The end of the last token consumed. -/
  lastEnd : Position
  /-- The number of levels taken. -/
  depth : Nat
  /-- The number of levels there are. -/
  maxDepth : Nat
  deriving DecidableEq, Inhabited

namespace Session

/-- A session that has not been given a source. -/
def new (options : ParseOptions) : Session :=
  let file := options.file.getD defaultLabel
  { scanner := .ofSource file ""
    lookahead := none
    file := file
    lastEnd := .of file 0
    depth := 0
    maxDepth := options.maxDepth }

/-- The kind of the lookahead. -/
def kind? (s : Session) : Option Kind := s.lookahead.map (·.kind)

/-- Whether the lookahead is of the given kind. -/
def isAt (s : Session) (kind : Kind) : Bool := s.kind? = some kind

/-- Whether there is a lookahead. -/
def hasTokens (s : Session) : Bool := s.lookahead.isSome

/-- The start of the lookahead, or the end of the last token when there is none. -/
def position (s : Session) : Position :=
  match s.lookahead with
  | some t => t.span.start
  | none => s.lastEnd

/-- The span from a position to the end of the last token consumed. -/
def spanFrom (s : Session) (start : Position) : Span := ⟨start, s.lastEnd⟩

/-- The session with another number of levels taken. -/
def withDepth (s : Session) (depth : Nat) : Session := { s with depth := depth }

/-- The number of levels that are left. -/
def budget (s : Session) : Nat := s.maxDepth - s.depth

/-- What is still to come, as a number: the lookahead and all that the scanner has left. -/
def remaining (s : Session) : Nat := s.scanner.remaining + s.lookahead.isSome.toNat

end Session

end Scriptlet
