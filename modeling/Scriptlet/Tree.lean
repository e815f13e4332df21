import Scriptlet.Decimal.Binary64
import Scriptlet.Token

/-!
# The tree of a program

A program is a list of statements, and statements hold expressions. Every node knows the span it was
read from. Operators are kept as the tokens they were, so the tree says which of the assignments or
additions was written; other punctuation is left out.

Parentheses make no node of their own: an expression in parentheses is the expression inside, with
its own span.

## Main definitions

* `Identifier`, `Expr`, `Property`;
* `PatternProperty`, `ObjectPattern`, `Param`;
* `Declarator`, `Stmt`, `Block`, `Program`;
* `Expr.span`, `Stmt.span` and the other accessors.
-/

namespace Scriptlet

/-- A name: of a variable, a function, a parameter or a property. -/
structure Identifier where
  /-- The name itself. -/
  name : String
  /-- Where it stands. -/
  span : Span
  deriving DecidableEq, Inhabited

mutual

/-- Expressions. -/
inductive Expr where
  /-- A variable. -/
  | identifier (id : Identifier)
  /-- A number. -/
  | number (value : Binary64) (span : Span)
  /-- A string, without its quotes and with its escapes decoded. -/
  | string (value : String) (span : Span)
  /-- An object with its properties in the order of the source. -/
  | object (properties : List Property) (span : Span)
  /-- A sum or a difference. -/
  | binary (left : Expr) (operator : Token) (right : Expr) (span : Span)
  /-- An assignment, simple or compound. -/
  | assignment (assignee : Expr) (operator : Token) (value : Expr) (span : Span)
  /-- Three dots and the expression to be spread. -/
  | spread (operator : Token) (operand : Expr) (span : Span)
  /-- A call of a named function. -/
  | call (callee : Identifier) (arguments : List Expr) (span : Span)

/-- Properties of an object. -/
inductive Property where
  /-- A key with its value. -/
  | keyValue (key : Identifier) (value : Expr) (span : Span)
  /-- A key that stands for the variable of the same name. -/
  | shorthand (key : Identifier) (span : Span)
  /-- The properties of another object; the expression is a `spread`. -/
  | spread (init : Expr) (span : Span)

end

/-- The span of an expression. -/
def Expr.span : Expr → Span
  | identifier id => id.span
  | number _ span | string _ span | object _ span | binary _ _ _ span | assignment _ _ _ span
  | spread _ _ span | call _ _ span => span

namespace Property

/-- The span of a property. -/
def span : Property → Span
  | keyValue _ _ span | shorthand _ span | spread _ span => span

/-- The key of a property, where it has one. -/
def name? : Property → Option Identifier
  | keyValue key _ _ | shorthand key _ => some key
  | spread _ _ => none

/-- The expression of a property, where it has one. -/
def init? : Property → Option Expr
  | keyValue _ value _ => some value
  | spread init _ => some init
  | shorthand _ _ => none

end Property

/-- A property taken out of a parameter: its name, and the name it is bound to where that is another
one. -/
structure PatternProperty where
  /-- The name of the property. -/
  name : Identifier
  /-- The name it is bound to, where one is given. -/
  rename : Option Identifier
  /-- Where it stands. -/
  span : Span
  deriving DecidableEq, Inhabited

/-- The name to which a property is bound. -/
def PatternProperty.binding (p : PatternProperty) : Identifier := p.rename.getD p.name

/-- A parameter that is taken apart into properties. -/
structure ObjectPattern where
  /-- The properties in the order of the source. -/
  properties : List PatternProperty
  /-- Where it stands. -/
  span : Span
  deriving DecidableEq, Inhabited

/-- Parameters of a function. -/
inductive Param where
  /-- A name. -/
  | identifier (id : Identifier)
  /-- A pattern. -/
  | pattern (p : ObjectPattern)
  deriving DecidableEq

/-- The span of a parameter. -/
def Param.span : Param → Span
  | identifier id => id.span
  | pattern p => p.span

/-- The words that declare a variable. -/
inductive DeclarationKind where
  | letVariable
  | varVariable
  | constVariable
  deriving DecidableEq, Inhabited

/-- The name of a declaration in a dump. -/
def DeclarationKind.name : DeclarationKind → String
  | letVariable => "Let"
  | varVariable => "Var"
  | constVariable => "Const"

/-- A declared variable, with its first value if one is given. -/
structure Declarator where
  /-- The name of the variable. -/
  name : Identifier
  /-- Its first value. -/
  init : Option Expr
  /-- Where it stands. -/
  span : Span

/-- Statements. -/
inductive Stmt where
  /-- A semicolon alone. -/
  | empty (span : Span)
  /-- Statements between braces. -/
  | block (body : List Stmt) (span : Span)
  /-- A declaration of one variable or more. -/
  | declaration (kind : DeclarationKind) (declarators : List Declarator) (span : Span)
  /-- The result of a function. -/
  | result (value : Expr) (span : Span)
  /-- A function. -/
  | function (name : Identifier) (params : List Param) (body : List Stmt) (span : Span)
  /-- An expression as a statement. -/
  | expression (value : Expr) (span : Span)

/-- The span of a statement. -/
def Stmt.span : Stmt → Span
  | empty span | block _ span | declaration _ _ span | result _ span | function _ _ _ span
  | expression _ span => span

/-- Statements between braces. -/
structure Block where
  /-- The statements in order. -/
  body : List Stmt
  /-- Where the block stands, braces included. -/
  span : Span

/-- A whole program. -/
structure Program where
  /-- The statements in order. -/
  body : List Stmt
  /-- From the start of the source to the end of its last token. -/
  span : Span

end Scriptlet
