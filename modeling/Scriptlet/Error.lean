import Scriptlet.Position
import Scriptlet.Text.Quoted

/-!
# Errors

An error is a cause at a position. The cause is data: what was found and what was wanted there. The
wording is one function of the cause (`Cause.detail`), and so is the hint for the reader
(`Cause.tip?`), which is why two errors with the same cause always read the same.

Causes fall into three kinds. A text that starts no token is a lexical error, a violation of the
grammar or of the nesting limit is a grammatical one, and an internal error is a fault of the
library itself.

## Main definitions

* `Cause`, with `Cause.name`, `Cause.detail`, `Cause.kind` and `Cause.tip?`;
* `Error`, with `Error.message`.
-/

namespace Scriptlet

/-- What went wrong. -/
inductive Cause where
  /-- No token starts with this character. -/
  | unrecognised (token : String)
  /-- A token stands where one of another kind is wanted. -/
  | unexpected (token expected : String)
  /-- The input is over where more is wanted. -/
  | endOfInput (expected : String)
  /-- A token stands where it cannot stand, for the reason given. -/
  | misplaced (token message : String)
  /-- The text of a number that denotes none. -/
  | malformedNumber (token : String)
  /-- Statements and expressions are nested deeper than the limit. -/
  | tooDeep (limit : Nat)
  /-- The library broke a promise of its own. -/
  | internal (message : String)
  deriving DecidableEq, Inhabited

/-- The coarse classification of causes. -/
inductive ErrorKind where
  | grammatical
  | lexical
  | internal
  deriving DecidableEq, Inhabited

/-- The name of a kind of error. -/
def ErrorKind.name : ErrorKind → String
  | .grammatical => "Syntax"
  | .lexical => "Lexical"
  | .internal => "Internal"

namespace Cause

/-- The name under which a cause is reported. -/
def name : Cause → String
  | unrecognised _ => "UnrecognisedToken"
  | unexpected _ _ => "UnexpectedToken"
  | endOfInput _ => "UnexpectedEndOfInput"
  | misplaced _ _ => "UnexpectedTokenDetailed"
  | malformedNumber _ => "NumberParseError"
  | tooDeep _ => "RecursionLimit"
  | internal _ => "InternalError"

/-- The cause in words. -/
def detail : Cause → String
  | unrecognised token => "unrecognised token: " ++ Text.quote token
  | unexpected token expected => "unexpected token " ++ token ++ ", expected " ++ expected
  | endOfInput expected => "unexpected end of input, expected " ++ expected
  | misplaced token message => "unexpected token " ++ token ++ ", " ++ message
  | malformedNumber token => "error parsing number: " ++ Text.quote token
  | tooDeep limit => "maximum nesting depth of " ++ toString limit ++ " exceeded"
  | internal message => "internal error: " ++ message

/-- The kind of error that a cause makes. -/
def kind : Cause → ErrorKind
  | unrecognised _ => .lexical
  | internal _ => .internal
  | unexpected _ _ | endOfInput _ | misplaced _ _ | malformedNumber _ | tooDeep _ => .grammatical

/-- A hint for the reader, for the causes that have one. Where the end of a statement was wanted, a
semicolon is probably missing. -/
def tip? : Cause → Option String
  | unrecognised _ | internal _ => none
  | unexpected token expected =>
    let hint :=
      if expected = ";" ∨ expected = "line break" then ", did you miss a semicolon?" else ""
    some ("unexpected token `" ++ token ++ "`, expected `" ++ expected ++ "`" ++ hint)
  | endOfInput expected => some ("input ended while `" ++ expected ++ "` was still expected")
  | misplaced token message => some ("unexpected token `" ++ token ++ "`, " ++ message)
  | malformedNumber token =>
    some ("invalid number `" ++ token ++ "`, only decimal literals are supported")
  | tooDeep limit =>
    some ("expressions and blocks may be nested at most " ++ toString limit ++ " levels deep")

end Cause

/-- A cause at a position. -/
structure Error where
  /-- What went wrong. -/
  cause : Cause
  /-- Where it went wrong. -/
  position : Position
  deriving DecidableEq, Inhabited

/-- The error in one line: the cause in words, then the position. -/
def Error.message (e : Error) : String :=
  e.cause.detail ++ " at " ++ e.position.file ++ ":" ++ toString e.position.offset.toNat

/-- Whether the error is a violation of the grammar or of the nesting limit. -/
def Error.isGrammatical (e : Error) : Bool := e.cause.kind = .grammatical

end Scriptlet
