import Scriptlet.Outline
import Scriptlet.Tree

/-!
# Outlines of trees

The outline of a node is a record of its parts and its span. Where nodes of several shapes can stand
in one place, the record is tagged with the shape's name; properties alone carry that name as the
name of the record.

## Main definitions

* `Program.outline` and the same for all nodes.
-/

namespace Scriptlet

/-- The outline of a position. -/
def Position.outline (p : Position) : Outline :=
  .tagged "Position" [.natural p.offset.toNat, .text p.file]

/-- The outline of a span. -/
def Span.outline (s : Span) : Outline :=
  .record "Span" [("start", s.start.outline), ("end", s.stop.outline)]

/-- The outline of a token. -/
def Token.outline (t : Token) : Outline :=
  .record "Token" [("kind", .atom t.kind.name), ("value", .text t.value), ("span", t.span.outline)]

/-- The outline of a name. -/
def Identifier.outline (id : Identifier) : Outline :=
  .record "Identifier" [("name", .text id.name), ("span", id.span.outline)]

/-- A record inside the name of its shape. -/
def Outline.shape (shape name : String) (fields : List (String × Outline)) : Outline :=
  .tagged shape [.record name fields]

mutual

/-- The outline of an expression. -/
def Expr.outline : Expr → Outline
  | .identifier id => .tagged "Identifier" [id.outline]
  | .number value span =>
    .shape "Number" "NumericLiteral" [("value", .number value), ("span", span.outline)]
  | .string value span =>
    .shape "String" "StringLiteral" [("value", .text value), ("span", span.outline)]
  | .object properties span =>
    .shape "Object" "ObjectDecl"
      [("properties", .list (Property.outlines properties)), ("span", span.outline)]
  | .binary left operator right span =>
    .shape "Binary" "BinaryExpr"
      [("left", left.outline), ("operator", operator.outline), ("right", right.outline),
        ("span", span.outline)]
  | .assignment assignee operator value span =>
    .shape "Assignment" "AssignmentExpr"
      [("assignee", assignee.outline), ("operator", operator.outline), ("value", value.outline),
        ("span", span.outline)]
  | .spread operator operand span =>
    .shape "Spread" "SpreadExpr"
      [("operator", operator.outline), ("operand", operand.outline), ("span", span.outline)]
  | .call callee arguments span =>
    .shape "Call" "CallExpr"
      [("callee", callee.outline), ("arguments", .list (Expr.outlines arguments)),
        ("span", span.outline)]

/-- The outline of a property. -/
def Property.outline : Property → Outline
  | .keyValue key value span =>
    .record "KeyValue" [("key", key.outline), ("value", value.outline), ("span", span.outline)]
  | .shorthand key span => .record "Shorthand" [("key", key.outline), ("span", span.outline)]
  | .spread init span => .record "Spread" [("init", init.outline), ("span", span.outline)]

/-- The outlines of expressions, one by one. -/
def Expr.outlines : List Expr → List Outline
  | [] => []
  | e :: es => e.outline :: Expr.outlines es

/-- The outlines of properties, one by one. -/
def Property.outlines : List Property → List Outline
  | [] => []
  | p :: ps => p.outline :: Property.outlines ps

end

/-- The outline of a property of a pattern. -/
def PatternProperty.outline (p : PatternProperty) : Outline :=
  .record "DestructuringProperty"
    [("name", p.name.outline), ("alias", .optional (p.rename.map (·.outline))),
      ("span", p.span.outline)]

/-- The outline of a parameter. -/
def Param.outline : Param → Outline
  | .identifier id => .tagged "Identifier" [id.outline]
  | .pattern p =>
    .shape "Pattern" "ObjectPattern"
      [("properties", .list (p.properties.map (·.outline))), ("span", p.span.outline)]

/-- The outline of a declarator. -/
def Declarator.outline (d : Declarator) : Outline :=
  .record "VariableDeclarator"
    [("name", d.name.outline), ("init", .optional (d.init.map (·.outline))),
      ("span", d.span.outline)]

mutual

/-- The outline of a statement. -/
def Stmt.outline : Stmt → Outline
  | .empty span => .shape "Empty" "EmptyStmt" [("span", span.outline)]
  | .block body span =>
    .shape "Block" "BlockStmt" [("body", .list (Stmt.outlines body)), ("span", span.outline)]
  | .declaration kind declarators span =>
    .shape "Variable" "VariableStmt"
      [("kind", .atom kind.name), ("declarations", .list (declarators.map (·.outline))),
        ("span", span.outline)]
  | .result value span =>
    .shape "Return" "ReturnStmt" [("value", value.outline), ("span", span.outline)]
  | .function name params body span =>
    .shape "Function" "FunctionDecl"
      [("name", name.outline), ("params", .list (params.map (·.outline))),
        ("body", .list (Stmt.outlines body)), ("span", span.outline)]
  | .expression value span =>
    .shape "Expression" "ExpressionStmt"
      [("expression", value.outline), ("span", span.outline)]

/-- The outlines of statements, one by one. -/
def Stmt.outlines : List Stmt → List Outline
  | [] => []
  | s :: ss => s.outline :: Stmt.outlines ss

end

/-- The outline of a program. -/
def Program.outline (p : Program) : Outline :=
  .record "Program" [("body", .list (Stmt.outlines p.body)), ("span", p.span.outline)]

end Scriptlet
