import Scriptlet.Position

/-!
# Tokens

A token is a kind, the text it was read from, and the span of that text. The kinds are a closed set;
`Kind.describe` is how a message speaks of a kind, `Kind.name` is its name in a dump.

A line break is a token like any other, because it ends a statement. Its value is always a single
newline, whatever run of blank lines it was read from.

## Main definitions

* `Kind`, `Kind.reserved?`, `Kind.isAssignment`;
* `Token`, `Token.display`, `Token.summary`.
-/

namespace Scriptlet

/-- The kinds of tokens. -/
inductive Kind where
  | number
  | string
  | identifier
  | openBracket
  | closeBracket
  | openCurly
  | closeCurly
  | openParen
  | closeParen
  /-- The assignment `=`. -/
  | simpleAssignment
  /-- The assignments `+=`, `-=`, `*=` and `/=`. -/
  | complexAssignment
  /-- The operators `+` and `-`. -/
  | additiveOperator
  /-- Three dots. -/
  | spread
  | semicolon
  | colon
  | comma
  /-- The end of a line, or the end of the input. -/
  | lineBreak
  | letWord
  | varWord
  | constWord
  | returnWord
  | functionWord
  deriving DecidableEq, Inhabited

namespace Kind

/-- Every kind, in the order of their declaration. -/
def all : List Kind :=
  [number, string, identifier, openBracket, closeBracket, openCurly, closeCurly, openParen,
   closeParen, simpleAssignment, complexAssignment, additiveOperator, spread, semicolon, colon,
   comma, lineBreak, letWord, varWord, constWord, returnWord, functionWord]

/-- The name of a kind in a dump. -/
def name : Kind → String
  | number => "Number"
  | string => "String"
  | identifier => "Identifier"
  | openBracket => "OpenBracket"
  | closeBracket => "CloseBracket"
  | openCurly => "OpenCurly"
  | closeCurly => "CloseCurly"
  | openParen => "OpenParen"
  | closeParen => "CloseParen"
  | simpleAssignment => "SimpleAssignment"
  | complexAssignment => "ComplexAssignment"
  | additiveOperator => "AdditiveOperator"
  | spread => "Spread"
  | semicolon => "Semicolon"
  | colon => "Colon"
  | comma => "Comma"
  | lineBreak => "LineBreak"
  | letWord => "Let"
  | varWord => "Var"
  | constWord => "Const"
  | returnWord => "Return"
  | functionWord => "Function"

/-- How a message speaks of a kind. -/
def describe : Kind → String
  | number => "number"
  | string => "string"
  | identifier => "identifier"
  | openBracket => "["
  | closeBracket => "]"
  | openCurly => "\x7b"
  | closeCurly => "\x7d"
  | openParen => "("
  | closeParen => ")"
  | simpleAssignment => "="
  | complexAssignment => "compound assignment"
  | additiveOperator => "additive operator"
  | spread => "..."
  | semicolon => ";"
  | colon => ":"
  | comma => ","
  | lineBreak => "line break"
  | letWord => "let"
  | varWord => "var"
  | constWord => "const"
  | returnWord => "return"
  | functionWord => "function"

/-- The kind with a given name. -/
def ofName? (s : String) : Option Kind := all.find? (·.name = s)

/-- The kind of a reserved word; `none` for every other text. -/
def reserved? : String → Option Kind
  | "let" => some letWord
  | "var" => some varWord
  | "const" => some constWord
  | "return" => some returnWord
  | "function" => some functionWord
  | _ => none

/-- Whether a token of this kind assigns. -/
def isAssignment : Kind → Bool
  | simpleAssignment | complexAssignment => true
  | _ => false

/-- Whether tokens of this kind differ in their text by more than layout, so that a summary has to
show it. -/
def isVaried : Kind → Bool
  | string | identifier | number | additiveOperator | complexAssignment => true
  | _ => false

end Kind

/-- A token: its kind, its text and where it stands. -/
structure Token where
  /-- What sort of token it is. -/
  kind : Kind
  /-- Its text; a string keeps its quotes, and a line break is always one newline. -/
  value : String
  /-- Where it stands. -/
  span : Span
  deriving DecidableEq, Inhabited

/-- How a message shows the token. -/
def Token.display (t : Token) : String :=
  if t.kind = .lineBreak then "line break" else t.value

/-- One line about the token: its kind, and its text where the kind leaves it open. -/
def Token.summary (t : Token) : String :=
  t.kind.name ++ " (" ++ (if t.kind.isVaried then t.value else "") ++ ")"

end Scriptlet
