import Scriptlet.Tree

/-!
# Types of nodes

A closed classification of the nodes of a tree, coarser than their shapes: a sum and an assignment
are nodes of one type, and so are an object and an object pattern.

## Main definitions

* `NodeType`, `NodeType.name`;
* `Expr.nodeType`, `Stmt.nodeType` and those of the other nodes.
-/

namespace Scriptlet

/-- The types of nodes. -/
inductive NodeType where
  | program
  | blockStatement
  | emptyExpression
  | variableStatement
  | returnStatement
  | expressionStatement
  | identifier
  | numericLiteral
  | stringLiteral
  | objectDeclaration
  | objectPropertyDeclaration
  | objectDestructuringPropertyDeclaration
  | expressionNode
  | unaryExpressionNode
  | functionDeclarationNode
  | functionCallExpressionNode
  | variableNode
  deriving DecidableEq, Inhabited

/-- The name of a type of nodes. -/
def NodeType.name : NodeType → String
  | program => "Program"
  | blockStatement => "BlockStatement"
  | emptyExpression => "EmptyExpression"
  | variableStatement => "VariableStatement"
  | returnStatement => "ReturnStatement"
  | expressionStatement => "ExpressionStatement"
  | identifier => "Identifier"
  | numericLiteral => "NumericLiteral"
  | stringLiteral => "StringLiteral"
  | objectDeclaration => "ObjectDeclaration"
  | objectPropertyDeclaration => "ObjectPropertyDeclaration"
  | objectDestructuringPropertyDeclaration => "ObjectDestructuringPropertyDeclaration"
  | expressionNode => "ExpressionNode"
  | unaryExpressionNode => "UnaryExpressionNode"
  | functionDeclarationNode => "FunctionDeclarationNode"
  | functionCallExpressionNode => "FunctionCallExpressionNode"
  | variableNode => "VariableNode"

/-- The type of an expression. -/
def Expr.nodeType : Expr → NodeType
  | identifier _ => .identifier
  | number _ _ => .numericLiteral
  | string _ _ => .stringLiteral
  | object _ _ => .objectDeclaration
  | binary _ _ _ _ | assignment _ _ _ _ => .expressionNode
  | spread _ _ _ => .unaryExpressionNode
  | call _ _ _ => .functionCallExpressionNode

/-- The type of a statement. -/
def Stmt.nodeType : Stmt → NodeType
  | empty _ => .emptyExpression
  | block _ _ => .blockStatement
  | declaration _ _ _ => .variableStatement
  | result _ _ => .returnStatement
  | function _ _ _ _ => .functionDeclarationNode
  | expression _ _ => .expressionStatement

/-- The type of a property. -/
def Property.nodeType (_ : Property) : NodeType := .objectPropertyDeclaration

/-- The type of a property of a pattern. -/
def PatternProperty.nodeType (_ : PatternProperty) : NodeType :=
  .objectDestructuringPropertyDeclaration

/-- The type of a pattern. -/
def ObjectPattern.nodeType (_ : ObjectPattern) : NodeType := .objectDeclaration

/-- The type of a declarator. -/
def Declarator.nodeType (_ : Declarator) : NodeType := .variableNode

/-- The type of a program. -/
def Program.nodeType (_ : Program) : NodeType := .program

end Scriptlet
