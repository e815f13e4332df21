import Scriptlet.Parser.Session

/-!
# Parsers and their combinators

A parser reads from a session and either returns a value or fails with an error. Both ways it leaves
a session behind: there is no going back, and a session goes on from wherever a failure left it.

Tokens are consumed by `eat` and nowhere else. Loops are all instances of `repeatWhile`, which
repeats a parser as long as a test on the session holds. A step that consumes nothing ends the
loop; that is what makes `repeatWhile` total, and no loop of the grammar ever meets it, since each
of their steps consumes a token when it succeeds.

## Main definitions

* `Parser`;
* `Parser.eat`, `Parser.accept`: consuming a token;
* `Parser.deepen`, `Parser.nested`, `Parser.leaving`: counting levels;
* `Parser.repeatWhile`: loops.
-/

namespace Scriptlet

/-- A parser of values of type `α`. -/
abbrev Parser := EStateM Error Session

namespace Parser

/-! ### Consuming tokens -/

/-- Fails at the lookahead, or at the end of the last token when the input is used up. -/
def fail {α : Type} (cause : Cause) : Parser α := fun s => .error ⟨cause, s.position⟩ s

/-- Consumes the lookahead if it is of the given kind, and scans the next one. On a token of another
kind and at the end of the input nothing is consumed. If the next token cannot be scanned, the token
is consumed and no lookahead is left. -/
def eat (kind : Kind) : Parser Token := fun s =>
  match s.lookahead with
  | none => fail (.endOfInput kind.describe) s
  | some t =>
    if t.kind = kind then
      match s.scanner.next with
      | .ok next scanner =>
        .ok t { s with scanner := scanner, lookahead := next, lastEnd := t.span.stop }
      | .error e scanner =>
        .error e { s with scanner := scanner, lookahead := none, lastEnd := t.span.stop }
    else fail (.unexpected t.display kind.describe) s

/-- Consumes the lookahead if it is of the given kind, and says whether it was. -/
def accept (kind : Kind) : Parser Bool := do
  if (← get).isAt kind then
    let _ ← eat kind
    return true
  else return false

/-! ### Counting levels -/

/-- Refuses to go deeper. -/
def overLimit {α : Type} : Parser α := fun s => fail (.tooDeep s.maxDepth) s

/-- Takes a level, if one is left. -/
def deepen : Parser Unit := fun s =>
  if s.maxDepth ≤ s.depth then overLimit s else .ok () (s.withDepth (s.depth + 1))

/-- Runs a parser and changes the session that it leaves, on success and on failure alike. -/
def leaving {α : Type} (change : Session → Session) (p : Parser α) : Parser α := fun s =>
  match p s with
  | .ok a s' => .ok a (change s')
  | .error e s' => .error e (change s')

/-- Runs a parser one level deeper, and gives the level back. -/
def nested {α : Type} (p : Parser α) : Parser α := do
  deepen
  leaving (fun s => s.withDepth (s.depth - 1)) p

/-- Runs a parser that may keep levels, and gives back those it kept. -/
def levelled {α : Type} (p : Parser α) : Parser α := fun s =>
  leaving (·.withDepth s.depth) p s

/-! ### Loops -/

/-- Repeats a parser as long as the session passes a test, and collects what it returns. A step that
consumes nothing is the last one. -/
def repeatWhile {α : Type} (test : Session → Bool) (step : Parser α) : Parser (List α) := fun s =>
  if test s then
    match step s with
    | .error e s' => .error e s'
    | .ok a s' =>
      if s'.remaining < s.remaining then
        match repeatWhile test step s' with
        | .error e s'' => .error e s''
        | .ok as s'' => .ok (a :: as) s''
      else .ok [a] s'
  else .ok [] s
termination_by s => s.remaining

end Parser

end Scriptlet
