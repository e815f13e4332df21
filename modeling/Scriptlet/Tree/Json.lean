import Scriptlet.Json
import Scriptlet.Tree

/-!
# Trees as JSON

A node is an object with the node's parts and its span as members. Where nodes of several shapes can
stand in one place, the first member names the shape: `type` for statements, expressions and
parameters, `kind` for properties. A part that may be missing is always a member, and `null` when it
is. A position is an array of the offset and the label.

No object has two members of one name.

## Main definitions

* `Program.toJson` and the same for all nodes.
-/

namespace Scriptlet

/-- A position as JSON. -/
def Position.toJson (p : Position) : Json := .array [.natural p.offset.toNat, .text p.file]

/-- A span as JSON. -/
def Span.toJson (s : Span) : Json :=
  .object [("start", s.start.toJson), ("end", s.stop.toJson)]

/-- A token as JSON. -/
def Token.toJson (t : Token) : Json :=
  .object [("kind", .text t.kind.name), ("value", .text t.value), ("span", t.span.toJson)]

/-- The members of a name. -/
def Identifier.members (id : Identifier) : List (String × Json) :=
  [("name", .text id.name), ("span", id.span.toJson)]

/-- A name as JSON. -/
def Identifier.toJson (id : Identifier) : Json := .object id.members

mutual

/-- An expression as JSON. -/
def Expr.toJson : Expr → Json
  | .identifier id => .object (("type", .text "Identifier") :: id.members)
  | .number value span =>
    .object [("type", .text "Number"), ("value", .number value), ("span", span.toJson)]
  | .string value span =>
    .object [("type", .text "String"), ("value", .text value), ("span", span.toJson)]
  | .object properties span =>
    .object [("type", .text "Object"), ("properties", .array (Property.listToJson properties)),
      ("span", span.toJson)]
  | .binary left operator right span =>
    .object [("type", .text "Binary"), ("left", left.toJson), ("operator", operator.toJson),
      ("right", right.toJson), ("span", span.toJson)]
  | .assignment assignee operator value span =>
    .object [("type", .text "Assignment"), ("assignee", assignee.toJson),
      ("operator", operator.toJson), ("value", value.toJson), ("span", span.toJson)]
  | .spread operator operand span =>
    .object [("type", .text "Spread"), ("operator", operator.toJson),
      ("operand", operand.toJson), ("span", span.toJson)]
  | .call callee arguments span =>
    .object [("type", .text "Call"), ("callee", callee.toJson),
      ("arguments", .array (Expr.listToJson arguments)), ("span", span.toJson)]

/-- A property as JSON. -/
def Property.toJson : Property → Json
  | .keyValue key value span =>
    .object [("kind", .text "KeyValue"), ("key", key.toJson), ("value", value.toJson),
      ("span", span.toJson)]
  | .shorthand key span =>
    .object [("kind", .text "Shorthand"), ("key", key.toJson), ("span", span.toJson)]
  | .spread init span =>
    .object [("kind", .text "Spread"), ("init", init.toJson), ("span", span.toJson)]

/-- Expressions as JSON, one by one. -/
def Expr.listToJson : List Expr → List Json
  | [] => []
  | e :: es => e.toJson :: Expr.listToJson es

/-- Properties as JSON, one by one. -/
def Property.listToJson : List Property → List Json
  | [] => []
  | p :: ps => p.toJson :: Property.listToJson ps

end

/-- A part that may be missing, as JSON. -/
def Json.optional {α : Type} (toJson : α → Json) : Option α → Json
  | none => .null
  | some a => toJson a

/-- A property of a pattern as JSON. -/
def PatternProperty.toJson (p : PatternProperty) : Json :=
  .object [("name", p.name.toJson), ("alias", .optional Identifier.toJson p.rename),
    ("span", p.span.toJson)]

/-- A parameter as JSON. -/
def Param.toJson : Param → Json
  | .identifier id => .object (("type", .text "Identifier") :: id.members)
  | .pattern p =>
    .object [("type", .text "Pattern"), ("properties", .array (p.properties.map (·.toJson))),
      ("span", p.span.toJson)]

/-- A declarator as JSON. -/
def Declarator.toJson (d : Declarator) : Json :=
  .object [("name", d.name.toJson), ("init", .optional Expr.toJson d.init),
    ("span", d.span.toJson)]

mutual

/-- A statement as JSON. -/
def Stmt.toJson : Stmt → Json
  | .empty span => .object [("type", .text "Empty"), ("span", span.toJson)]
  | .block body span =>
    .object [("type", .text "Block"), ("body", .array (Stmt.listToJson body)),
      ("span", span.toJson)]
  | .declaration kind declarators span =>
    .object [("type", .text "Variable"), ("kind", .text kind.name),
      ("declarations", .array (declarators.map (·.toJson))), ("span", span.toJson)]
  | .result value span =>
    .object [("type", .text "Return"), ("value", value.toJson), ("span", span.toJson)]
  | .function name params body span =>
    .object [("type", .text "Function"), ("name", name.toJson),
      ("params", .array (params.map (·.toJson))), ("body", .array (Stmt.listToJson body)),
      ("span", span.toJson)]
  | .expression value span =>
    .object [("type", .text "Expression"), ("expression", value.toJson), ("span", span.toJson)]

/-- Statements as JSON, one by one. -/
def Stmt.listToJson : List Stmt → List Json
  | [] => []
  | s :: ss => s.toJson :: Stmt.listToJson ss

end

/-- A program as JSON. -/
def Program.toJson (p : Program) : Json :=
  .object [("body", .array (Stmt.listToJson p.body)), ("span", p.span.toJson)]

end Scriptlet
