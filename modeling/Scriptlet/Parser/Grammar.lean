import Scriptlet.Parser.Basic
import Scriptlet.Text.Escape
import Scriptlet.Tree

/-!
# The grammar

One parser for each production of the grammar. A production that contains another one takes it as an
argument, so each can be read, and reasoned about, without the rest; the circle is closed at the end
of each of the two parts.

Expressions and statements are recursive, and every way around the circle goes through a production
that takes a level of the nesting limit. The recursion is therefore on the number of levels that
are left, the `budget`: with none left the production refuses, as it has to. A budget that is
larger than what the session has left makes no difference, because then the session refuses first.

## Main definitions

* `Grammar.assignment`, `Grammar.primary`: expressions, by recursion on the budget;
* `Grammar.statement`: statements, by recursion on the budget;
* the productions they are made of.
-/

namespace Scriptlet.Grammar

open Scriptlet.Parser

/-! ### Tokens and separators -/

/-- Any number of line breaks. -/
def skipLineBreaks : Parser Unit := discard (repeatWhile (·.isAt .lineBreak) (eat .lineBreak))

/-- A comma, if there is one. -/
def optionalComma : Parser Unit := discard (accept .comma)

/-- A name. -/
def identifier : Parser Identifier := do
  let t ← eat .identifier
  return ⟨t.value, t.span⟩

/-- The end of a statement: a semicolon or a line break, both consumed, or the closing brace of the
block around it, which is left for that block. -/
def endOfStatement : Parser Unit := do
  match (← get).kind? with
  | some .semicolon => discard (eat .semicolon)
  | some .closeCurly => pure ()
  | _ => discard (eat .lineBreak)

/-! ### Lists -/

/-- Elements up to a closing parenthesis, which is left. A comma behind an element is consumed, but
none is needed. -/
def listOf {α : Type} (element : Parser α) : Parser (List α) :=
  repeatWhile (fun s => s.hasTokens && !s.isAt .closeParen) do
    let a ← element
    optionalComma
    return a

/-- Properties between braces, with line breaks anywhere between them. -/
def bodyOf {α : Type} (property : Parser α) : Parser (List α × Span) := do
  let opening ← eat .openCurly
  skipLineBreaks
  let properties ← repeatWhile (fun s => !s.isAt .closeCurly) do
    let a ← property
    skipLineBreaks
    return a
  let _ ← eat .closeCurly
  return (properties, (← get).spanFrom opening.span.start)

/-! ### Parameters -/

/-- A name, or a name, a colon and the name it is bound to, with an optional comma. -/
def patternProperty : Parser PatternProperty := do
  let name ← identifier
  let rename ← if ← accept .colon then some <$> identifier else pure none
  let span := (← get).spanFrom name.span.start
  optionalComma
  return ⟨name, rename, span⟩

/-- Names of properties between braces. -/
def objectPattern : Parser ObjectPattern := do
  let (properties, span) ← bodyOf patternProperty
  return ⟨properties, span⟩

/-- A name, or a pattern where no name stands. -/
def parameter : Parser Param := do
  if (← get).isAt .identifier then return .identifier (← identifier)
  else return .pattern (← objectPattern)

/-! ### Expressions -/

/-- A number or a string. -/
def literal : Parser Expr := do
  match (← get).lookahead with
  | none => fail (.endOfInput "an expression")
  | some t =>
    if t.kind = .number then
      let t ← eat .number
      match Binary64.ofLiteral? t.value with
      | some value => return .number value t.span
      | none => throw ⟨.malformedNumber t.value, t.span.start⟩
    else if t.kind = .string then
      let t ← eat .string
      let body := (t.value.toList.drop 1).dropLast
      return .string (String.ofList (Text.unescape body)) t.span
    else fail (.misplaced t.display "expected an expression")

/-- An expression in parentheses. -/
def parenthesized (expression : Parser Expr) : Parser Expr := do
  let _ ← eat .openParen
  let e ← expression
  let _ ← eat .closeParen
  return e

/-- A name, or a call if a parenthesis follows the name. -/
def callable (argument : Parser Expr) : Parser Expr := do
  let callee ← identifier
  if ← accept .openParen then
    let arguments ← listOf argument
    let _ ← eat .closeParen
    return .call callee arguments ((← get).spanFrom callee.span.start)
  else return .identifier callee

/-- Three dots and what is spread. -/
def spread (operand : Parser Expr) : Parser Expr := do
  let operator ← eat .spread
  let e ← operand
  return .spread operator e ⟨operator.span.start, e.span.stop⟩

/-- The key of a property: a name, or a name in brackets. -/
def propertyKey : Parser Identifier := do
  if ← accept .openBracket then
    let key ← identifier
    let _ ← eat .closeBracket
    return key
  else identifier

/-- A property of an object, with an optional comma: a spread, a key with its value, or a key
alone. -/
def property (spreadProperty value : Parser Expr) : Parser Property := do
  let start := (← get).position
  let p ←
    if (← get).isAt .spread then do
      let e ← spreadProperty
      pure (Property.spread e ((← get).spanFrom start))
    else do
      let key ← propertyKey
      if ← accept .colon then
        let e ← value
        pure (Property.keyValue key e ((← get).spanFrom start))
      else pure (Property.shorthand key ((← get).spanFrom start))
  optionalComma
  return p

/-- Properties between braces. -/
def object (spreadProperty value : Parser Expr) : Parser Expr := do
  let (properties, span) ← bodyOf (property spreadProperty value)
  return .object properties span

/-- An operand joined to the sum on its left. -/
def joinLeft (left : Expr) (part : Token × Expr) : Expr :=
  .binary left part.1 part.2 ⟨left.span.start, part.2.span.stop⟩

/-- Operands with additive operators between them. The tree leans to the left and grows by a level
with each operator, so each takes a level; all are given back at the end. -/
def additive (operand : Parser Expr) : Parser Expr :=
  levelled do
    let first ← operand
    let more ← repeatWhile (·.isAt .additiveOperator) do
      deepen
      let operator ← eat .additiveOperator
      let right ← operand
      return (operator, right)
    return more.foldl joinLeft first

/-- An operand, or an operand, an assignment operator and the value assigned. -/
def assignmentOf (operand value : Parser Expr) : Parser Expr := do
  let left ← operand
  match (← get).kind? with
  | some kind =>
    if kind.isAssignment then
      let operator ← eat kind
      let right ← value
      return .assignment left operator right ⟨left.span.start, right.span.stop⟩
    else return left
  | none => return left

/-- An expression without operators, chosen by its first token. -/
def primaryOf (expression sum operand : Parser Expr) : Parser Expr := do
  match (← get).kind? with
  | some .openParen => parenthesized expression
  | some .openCurly => object operand sum
  | some .identifier => callable sum
  | some .spread => spread sum
  | _ => literal

mutual

/-- An assignment, or an expression that assigns nothing. -/
def assignment (budget : Nat) : Parser Expr := fun s =>
  match budget with
  | 0 => overLimit s
  | b + 1 => nested (assignmentOf (additive (primary b)) (assignment b)) s

/-- An expression without operators. -/
def primary (budget : Nat) : Parser Expr := fun s =>
  match budget with
  | 0 => overLimit s
  | b + 1 => nested (primaryOf (assignment b) (additive (primary b)) (primary b)) s

end

/-! ### Statements -/

/-- Whether a list of statements ends here: at the given kind of token, or with the input. -/
def atStop (stop : Option Kind) (s : Session) : Bool := s.kind? = none || s.kind? = stop

/-- Statements with line breaks between them, up to the given kind of token, which is left. -/
def statementList (statement : Parser Stmt) (stop : Option Kind) : Parser (List Stmt) := do
  skipLineBreaks
  repeatWhile (fun s => !atStop stop s) do
    let a ← statement
    unless atStop stop (← get) do skipLineBreaks
    return a

/-- A semicolon alone. -/
def emptyStatement : Parser Stmt := do
  let t ← eat .semicolon
  return .empty t.span

/-- Statements between braces. -/
def block (statement : Parser Stmt) : Parser Block := do
  let opening ← eat .openCurly
  let body ←
    if (← get).isAt .closeCurly then pure [] else statementList statement (some .closeCurly)
  let _ ← eat .closeCurly
  return ⟨body, (← get).spanFrom opening.span.start⟩

/-- A name, and its first value behind an equals sign. -/
def declarator (value : Parser Expr) : Parser Declarator := do
  let name ← identifier
  let init ← if ← accept .simpleAssignment then some <$> value else pure none
  return ⟨name, init, (← get).spanFrom name.span.start⟩

/-- The declaration that a kind of token starts, and the word it starts with. Where no such word
stands, `let` is the one that is wanted. -/
def declarationWord : Option Kind → DeclarationKind × Kind
  | some .varWord => (.varVariable, .varWord)
  | some .constWord => (.constVariable, .constWord)
  | _ => (.letVariable, .letWord)

/-- Declarators with commas between them; a line may end behind a comma. -/
def declaration (value : Parser Expr) : Parser Stmt := do
  let (kind, word) := declarationWord (← get).kind?
  let opening ← eat word
  let first ← declarator value
  let more ← repeatWhile (·.isAt .comma) do
    let _ ← eat .comma
    skipLineBreaks
    declarator value
  let span := (← get).spanFrom opening.span.start
  endOfStatement
  return .declaration kind (first :: more) span

/-- The result of a function: a sum, never an assignment. -/
def resultStatement (value : Parser Expr) : Parser Stmt := do
  let opening ← eat .returnWord
  let e ← value
  let span := (← get).spanFrom opening.span.start
  endOfStatement
  return .result e span

/-- Fails unless a block follows. -/
def expectBody : Parser Unit := do
  match (← get).lookahead with
  | none => fail (.endOfInput Kind.openCurly.describe)
  | some t =>
    if t.kind = .openCurly then pure ()
    else
      fail (.misplaced t.display
        ("expected " ++ Kind.openCurly.describe ++ " to open the function body"))

/-- A function with its name, its parameters and its body. -/
def function (statement : Parser Stmt) : Parser Stmt := do
  let opening ← eat .functionWord
  let name ← identifier
  let _ ← eat .openParen
  let params ← listOf parameter
  let _ ← eat .closeParen
  expectBody
  let body ← block statement
  return .function name params body.body ((← get).spanFrom opening.span.start)

/-- An expression as a statement. -/
def expressionStatement (expression : Parser Expr) : Parser Stmt := do
  let e ← expression
  endOfStatement
  return .expression e e.span

/-- A statement, chosen by its first token. -/
def statementOf (statement : Parser Stmt) (expression sum : Parser Expr) : Parser Stmt := do
  match (← get).kind? with
  | some .semicolon => emptyStatement
  | some .openCurly =>
    let b ← block statement
    return .block b.body b.span
  | some .letWord | some .varWord | some .constWord => declaration expression
  | some .returnWord => resultStatement sum
  | some .functionWord => function statement
  | _ => expressionStatement expression

/-- A statement. -/
def statement (budget : Nat) : Parser Stmt := fun s =>
  match budget with
  | 0 => overLimit s
  | b + 1 => nested (statementOf (statement b) (assignment b) (additive (primary b))) s

end Scriptlet.Grammar
