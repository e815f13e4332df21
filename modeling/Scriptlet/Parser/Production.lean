import Scriptlet.Parser.Grammar

/-!
# Parsing programs

The productions of the grammar as parsers that can be run on any session, and the parser for whole
sources. Each production is given all levels that the session has left.

`parse` starts over with a new source. It keeps the session's label and limit, and it reads the
first token before anything else; if that fails, the lookahead of the source before it stays in
place, while the depth and the end of the last token are reset already.

## Main definitions

* `Parser.parse`: a whole source;
* `Parser.program`, `Parser.statement`, `Parser.expression` and the other productions;
* `parseSource`: a source in a session of its own.
-/

namespace Scriptlet

namespace Parser

/-- Gives a production all levels that are left. -/
def budgeted {α : Type} (p : Nat → Parser α) : Parser α := fun s => p s.budget s

/-! ### Expressions -/

/-- An assignment, or an expression that assigns nothing. -/
def assignment : Parser Expr := budgeted Grammar.assignment

/-- Any expression. -/
def expression : Parser Expr := assignment

/-- An expression without operators. -/
def primary : Parser Expr := budgeted Grammar.primary

/-- Operands with additive operators between them. -/
def additive : Parser Expr := budgeted fun b => Grammar.additive (Grammar.primary b)

/-- An expression in parentheses. -/
def parenthesized : Parser Expr := budgeted fun b => Grammar.parenthesized (Grammar.assignment b)

/-- A name or a call. -/
def callable : Parser Expr :=
  budgeted fun b => Grammar.callable (Grammar.additive (Grammar.primary b))

/-- Three dots and what is spread. -/
def spread : Parser Expr := budgeted fun b => Grammar.spread (Grammar.additive (Grammar.primary b))

/-- A number or a string. -/
def literal : Parser Expr := Grammar.literal

/-- A name. -/
def identifier : Parser Identifier := Grammar.identifier

/-- An argument of a call. -/
def callArgument : Parser Expr := additive

/-- The arguments of a call, up to the closing parenthesis. -/
def arguments : Parser (List Expr) :=
  budgeted fun b => Grammar.listOf (Grammar.additive (Grammar.primary b))

/-- An object. -/
def object : Parser Expr :=
  budgeted fun b => Grammar.object (Grammar.primary b) (Grammar.additive (Grammar.primary b))

/-- A property of an object. -/
def property : Parser Property :=
  budgeted fun b => Grammar.property (Grammar.primary b) (Grammar.additive (Grammar.primary b))

/-! ### Parameters -/

/-- A parameter. -/
def parameter : Parser Param := Grammar.parameter

/-- The parameters of a function, up to the closing parenthesis. -/
def parameters : Parser (List Param) := Grammar.listOf Grammar.parameter

/-- A parameter that is taken apart. -/
def objectPattern : Parser ObjectPattern := Grammar.objectPattern

/-- A property of such a parameter. -/
def patternProperty : Parser PatternProperty := Grammar.patternProperty

/-! ### Statements -/

/-- Any number of line breaks. -/
def skipLineBreaks : Parser Unit := Grammar.skipLineBreaks

/-- The end of a statement. -/
def endOfStatement : Parser Unit := Grammar.endOfStatement

/-- Any statement. -/
def statement : Parser Stmt := budgeted Grammar.statement

/-- Statements up to a kind of token, or to the end of the input. -/
def statementList (stop : Option Kind) : Parser (List Stmt) :=
  budgeted fun b => Grammar.statementList (Grammar.statement b) stop

/-- A semicolon alone. -/
def emptyStatement : Parser Stmt := Grammar.emptyStatement

/-- Statements between braces. -/
def block : Parser Block := budgeted fun b => Grammar.block (Grammar.statement b)

/-- A declaration of variables. -/
def declaration : Parser Stmt := budgeted fun b => Grammar.declaration (Grammar.assignment b)

/-- The result of a function. -/
def resultStatement : Parser Stmt :=
  budgeted fun b => Grammar.resultStatement (Grammar.additive (Grammar.primary b))

/-- A function. -/
def function : Parser Stmt := budgeted fun b => Grammar.function (Grammar.statement b)

/-- An expression as a statement. -/
def expressionStatement : Parser Stmt :=
  budgeted fun b => Grammar.expressionStatement (Grammar.assignment b)

/-! ### Programs -/

/-- All statements up to the end of the input. -/
def program : Parser Program := do
  let start := Position.of (← get).file 0
  let body ← if (← get).hasTokens then statementList none else pure []
  return ⟨body, (← get).spanFrom start⟩

/-- A session in front of a new source, before its first token is read. -/
def restart (source : String) (s : Session) : Session :=
  { s with scanner := .ofSource s.file source, lastEnd := .of s.file 0, depth := 0 }

/-- Reads the first token of the present source. Every source has one. -/
def prime : Parser Unit := fun s =>
  match s.scanner.next with
  | .error e scanner => .error e { s with scanner := scanner }
  | .ok none scanner =>
    fail (.internal "the tokenizer produced no token to prime the parser")
      { s with scanner := scanner, lookahead := none }
  | .ok (some t) scanner => .ok () { s with scanner := scanner, lookahead := some t }

/-- Reads a whole source. -/
def parse (source : String) : Parser Program := do
  modify (restart source)
  prime
  program

end Parser

/-- The program that a source holds, or the first error in it. -/
def parseSource (source : String) (options : ParseOptions) : Except Error Program :=
  match Parser.parse source (Session.new options) with
  | .ok p _ => .ok p
  | .error e _ => .error e

end Scriptlet
