import Scriptlet.Proofs.Steps

/-!
# The productions as code

The productions call each other, and what is said about their calls has to be said about their text.
So the text of each production is written down here: a piece of *code* does what it does by steps
that call nothing, by loops, and by calls of productions by their names. The code of a production
does not mention how many levels are left, and its loops and its calls are bounded by nothing.

With so many levels to go, a name stands for a parser, and so does a piece of code. That the code of
a production is that production is shown here: on a session that has no more levels left it does
what the production does.

## Main definitions

* `Name`, `Element`: the names of the productions, and of those that take a token;
* `Primitive`, `Code`: steps that call nothing, and code;
* `Name.code`: the text of a production;
* `Name.parser`, `Name.within`, `Code.within`: names and code as parsers.

## Main results

* `Name.parser_apply`: a production has all levels to go that its session has left;
* `Name.code_within`: the code of a production is that production.
-/

namespace Scriptlet

open Scriptlet.Parser

variable {α β : Type}

/-! ### Names -/

/-- The productions that take a token whenever they succeed, so that there are lists of them. -/
inductive Element : Type → Type
  | statement : Element Stmt
  | emptyStatement : Element Stmt
  | block : Element Block
  | declaration : Element Stmt
  | resultStatement : Element Stmt
  | function : Element Stmt
  | expressionStatement : Element Stmt
  | expression : Element Expr
  | assignment : Element Expr
  | additive : Element Expr
  | primary : Element Expr
  | parenthesized : Element Expr
  | callable : Element Expr
  | spread : Element Expr
  | literal : Element Expr
  | identifier : Element Identifier
  | callArgument : Element Expr
  | object : Element Expr
  | property : Element Property
  | parameter : Element Param
  | objectPattern : Element ObjectPattern
  | patternProperty : Element PatternProperty

/-- All productions. Of the lists there are those of elements that take a token whenever they
succeed. -/
inductive Name : Type → Type 1
  | element {α : Type} (e : Element α) : Name α
  /-- A list of elements each of which takes a token. -/
  | listOf {α : Type} (e : Element α) : Name (List α)
  | arguments : Name (List Expr)
  | parameters : Name (List Param)
  | statementList (stop : Option Kind) : Name (List Stmt)
  | program : Name Program
  | skipLineBreaks : Name Unit
  | endOfStatement : Name Unit

/-- The production of a name. -/
def Element.parser : Element α → Parser α
  | .statement => Parser.statement
  | .emptyStatement => Parser.emptyStatement
  | .block => Parser.block
  | .declaration => Parser.declaration
  | .resultStatement => Parser.resultStatement
  | .function => Parser.function
  | .expressionStatement => Parser.expressionStatement
  | .expression => Parser.expression
  | .assignment => Parser.assignment
  | .additive => Parser.additive
  | .primary => Parser.primary
  | .parenthesized => Parser.parenthesized
  | .callable => Parser.callable
  | .spread => Parser.spread
  | .literal => Parser.literal
  | .identifier => Parser.identifier
  | .callArgument => Parser.callArgument
  | .object => Parser.object
  | .property => Parser.property
  | .parameter => Parser.parameter
  | .objectPattern => Parser.objectPattern
  | .patternProperty => Parser.patternProperty

/-- The production of a name. -/
def Name.parser : Name α → Parser α
  | .element e => e.parser
  | .listOf e => Grammar.listOf e.parser
  | .arguments => Parser.arguments
  | .parameters => Parser.parameters
  | .statementList stop => Parser.statementList stop
  | .program => Parser.program
  | .skipLineBreaks => Parser.skipLineBreaks
  | .endOfStatement => Parser.endOfStatement

/-- The production of a name, with so many levels to go. -/
def Element.within (b : Nat) : Element α → Parser α
  | .statement => Grammar.statement b
  | .emptyStatement => Grammar.emptyStatement
  | .block => Grammar.block (Grammar.statement b)
  | .declaration => Grammar.declaration (Grammar.assignment b)
  | .resultStatement => Grammar.resultStatement (Grammar.additive (Grammar.primary b))
  | .function => Grammar.function (Grammar.statement b)
  | .expressionStatement => Grammar.expressionStatement (Grammar.assignment b)
  | .expression => Grammar.assignment b
  | .assignment => Grammar.assignment b
  | .additive => Grammar.additive (Grammar.primary b)
  | .primary => Grammar.primary b
  | .parenthesized => Grammar.parenthesized (Grammar.assignment b)
  | .callable => Grammar.callable (Grammar.additive (Grammar.primary b))
  | .spread => Grammar.spread (Grammar.additive (Grammar.primary b))
  | .literal => Grammar.literal
  | .identifier => Grammar.identifier
  | .callArgument => Grammar.additive (Grammar.primary b)
  | .object => Grammar.object (Grammar.primary b) (Grammar.additive (Grammar.primary b))
  | .property => Grammar.property (Grammar.primary b) (Grammar.additive (Grammar.primary b))
  | .parameter => Grammar.parameter
  | .objectPattern => Grammar.objectPattern
  | .patternProperty => Grammar.patternProperty

/-- The production of a name, with so many levels to go. -/
def Name.within (b : Nat) : Name α → Parser α
  | .element e => e.within b
  | .listOf e => Grammar.listOf (e.within b)
  | .arguments => Grammar.listOf (Grammar.additive (Grammar.primary b))
  | .parameters => Grammar.listOf Grammar.parameter
  | .statementList stop => Grammar.statementList (Grammar.statement b) stop
  | .program => do
    let s ← get
    let body ← if s.hasTokens then Grammar.statementList (Grammar.statement b) none else pure []
    let s' ← get
    return ⟨body, s'.spanFrom (.of s.file 0)⟩
  | .skipLineBreaks => Grammar.skipLineBreaks
  | .endOfStatement => Grammar.endOfStatement

/-! ### Code -/

/-- Steps that call nothing. -/
inductive Primitive : Type → Type 1
  | pure {α : Type} (a : α) : Primitive α
  | get : Primitive Session
  | eat (kind : Kind) : Primitive Token
  | refuse {α : Type} (message wanted : String) : Primitive α
  | number : Primitive Expr
  | deepen : Primitive Unit

/-- The parser that does a step. -/
def Primitive.run : Primitive α → Parser α
  | .pure a => Pure.pure a
  | .get => MonadState.get
  | .eat kind => Parser.eat kind
  | .refuse message wanted => Parser.refuse message wanted
  | .number => Grammar.numberLiteral
  | .deepen => Parser.deepen

/-- The text of a parser. -/
inductive Code : Type → Type 1
  | primitive {α : Type} (p : Primitive α) : Code α
  | bind {α β : Type} (c : Code α) (f : α → Code β) : Code β
  | nested {α : Type} (c : Code α) : Code α
  | levelled {α : Type} (c : Code α) : Code α
  | loop {α : Type} (test : Session → Bool) (step : Code α) : Code (List α)
  | call {α : Type} (n : Name α) : Code α

namespace Code

instance : Monad Code where
  pure a := .primitive (.pure a)
  bind := .bind

/-- Looks at the session. -/
def get : Code Session := .primitive .get

/-- Consumes a token. -/
def eat (kind : Kind) : Code Token := .primitive (.eat kind)

/-- Calls a production that takes a token. -/
def run (e : Element α) : Code α := .call (.element e)

/-- The parser that code stands for, with so many levels to go. -/
def within : {α : Type} → Code α → Nat → Parser α
  | _, .primitive p, _ => p.run
  | _, .bind c f, b => c.within b >>= fun a => (f a).within b
  | _, .nested c, b => Parser.nested (c.within (b - 1))
  | _, .levelled c, b => Parser.levelled (c.within b)
  | _, .loop test step, b => repeatWhile test (step.within b)
  | _, .call n, b => n.within b

/-! ### The text of the productions -/

/-- What a kind of token announces, if it stands there. -/
def optionally (kind : Kind) (c : Code α) : Code (Option α) := do
  let s ← get
  if s.isAt kind then
    let _ ← eat kind
    let a ← c
    return some a
  else return none

/-- A comma, if there is one. -/
def optionalComma : Code Unit := do
  let s ← get
  if s.isAt .comma then
    let _ ← eat .comma
    return ()
  else return ()

/-- Properties between braces. -/
def bodyOf (e : Element α) : Code (List α × Span) := do
  let opening ← eat .openCurly
  call .skipLineBreaks
  let properties ← loop (fun s => !s.isAt .closeCurly) do
    let a ← run e
    call .skipLineBreaks
    return a
  let _ ← eat .closeCurly
  let s ← get
  return (properties, s.spanFrom opening.span.start)

/-- The key of a property. -/
def propertyKey : Code Identifier := do
  let s ← get
  if s.isAt .openBracket then
    let _ ← eat .openBracket
    let key ← run .identifier
    let _ ← eat .closeBracket
    return key
  else run .identifier

/-- A property of an object without its comma. -/
def member : Code Property := do
  let s ← get
  if s.isAt .spread then
    let e ← run .primary
    let s' ← get
    return .spread e (s'.spanFrom s.position)
  else
    let key ← propertyKey
    let e? ← optionally .colon (run .additive)
    let s' ← get
    return match e? with
      | some e => .keyValue key e (s'.spanFrom s.position)
      | none => .shorthand key (s'.spanFrom s.position)

/-- The expression without operators that a first token selects. -/
def primaryAt : Option Kind → Code Expr
  | some .openParen => run .parenthesized
  | some .openCurly => run .object
  | some .identifier => run .callable
  | some .spread => run .spread
  | _ => run .literal

/-- What may stand behind the left side of an assignment. -/
def assigned (left : Expr) : Code Expr := do
  let s ← get
  match s.kind? with
  | some kind =>
    if kind.isAssignment then
      let operator ← eat kind
      let right ← run .assignment
      return .assignment left operator right ⟨left.span.start, right.span.stop⟩
    else return left
  | none => return left

/-- The statement that a first token selects. -/
def statementAt : Option Kind → Code Stmt
  | some .semicolon => run .emptyStatement
  | some .openCurly => do
    let b ← run .block
    return .block b.body b.span
  | some .letWord | some .varWord | some .constWord => run .declaration
  | some .returnWord => run .resultStatement
  | some .functionWord => run .function
  | _ => run .expressionStatement

/-- The end of a statement, where there is a token of some kind or none. -/
def endAt : Option Kind → Code Unit
  | some .semicolon => do
    let _ ← eat .semicolon
    return ()
  | some .closeCurly => return ()
  | _ => do
    let _ ← eat .lineBreak
    return ()

/-- A name, and its first value behind an equals sign. -/
def declarator : Code Declarator := do
  let name ← run .identifier
  let init ← optionally .simpleAssignment (run .expression)
  let s ← get
  return ⟨name, init, s.spanFrom name.span.start⟩

/-- Fails unless a block follows. -/
def expectBody : Code Unit := do
  let s ← get
  if s.isAt .openCurly then return ()
  else
    primitive (.refuse ("expected " ++ Kind.openCurly.describe ++ " to open the function body")
      Kind.openCurly.describe)

end Code

open Code in
/-- The text of a production that takes a token. -/
def Element.code : Element α → Code α
  | .statement => nested do
    let s ← get
    statementAt s.kind?
  | .emptyStatement => do
    let t ← eat .semicolon
    return .empty t.span
  | .block => do
    let opening ← eat .openCurly
    let s ← get
    let body ← if s.isAt .closeCurly then pure [] else call (.statementList (some .closeCurly))
    let _ ← eat .closeCurly
    let s' ← get
    return ⟨body, s'.spanFrom opening.span.start⟩
  | .declaration => do
    let s ← get
    let opening ← eat (Grammar.declarationWord s.kind?).2
    let first ← declarator
    let more ← loop (·.isAt .comma) do
      let _ ← eat .comma
      call .skipLineBreaks
      declarator
    let s' ← get
    call .endOfStatement
    return .declaration (Grammar.declarationWord s.kind?).1 (first :: more)
      (s'.spanFrom opening.span.start)
  | .resultStatement => do
    let opening ← eat .returnWord
    let e ← run .additive
    let s ← get
    call .endOfStatement
    return .result e (s.spanFrom opening.span.start)
  | .function => do
    let opening ← eat .functionWord
    let name ← run .identifier
    let _ ← eat .openParen
    let params ← call (.listOf .parameter)
    let _ ← eat .closeParen
    expectBody
    let body ← run .block
    let s ← get
    return .function name params body.body (s.spanFrom opening.span.start)
  | .expressionStatement => do
    let e ← run .expression
    call .endOfStatement
    return .expression e e.span
  | .expression => run .assignment
  | .assignment => nested (run .additive >>= assigned)
  | .additive => levelled do
    let first ← run .primary
    let more ← loop (·.isAt .additiveOperator) do
      primitive .deepen
      let operator ← eat .additiveOperator
      let right ← run .primary
      return (operator, right)
    return more.foldl Grammar.joinLeft first
  | .primary => nested do
    let s ← get
    primaryAt s.kind?
  | .parenthesized => do
    let _ ← eat .openParen
    let e ← run .expression
    let _ ← eat .closeParen
    return e
  | .callable => do
    let callee ← run .identifier
    let s ← get
    if s.isAt .openParen then
      let _ ← eat .openParen
      let arguments ← call (.listOf .callArgument)
      let _ ← eat .closeParen
      let s' ← get
      return .call callee arguments (s'.spanFrom callee.span.start)
    else return .identifier callee
  | .spread => do
    let operator ← eat .spread
    let e ← run .additive
    return .spread operator e ⟨operator.span.start, e.span.stop⟩
  | .literal => do
    let s ← get
    if s.isAt .number then primitive .number
    else if s.isAt .string then
      let t ← eat .string
      return .string (String.ofList (Text.unescape (t.value.toList.drop 1).dropLast)) t.span
    else primitive (.refuse "expected an expression" "an expression")
  | .identifier => do
    let t ← eat .identifier
    return ⟨t.value, t.span⟩
  | .callArgument => run .additive
  | .object => do
    let body ← bodyOf .property
    return .object body.1 body.2
  | .property => do
    let p ← member
    optionalComma
    return p
  | .parameter => do
    let s ← get
    if s.isAt .identifier then
      let name ← run .identifier
      return .identifier name
    else
      let pattern ← run .objectPattern
      return .pattern pattern
  | .objectPattern => do
    let body ← bodyOf .patternProperty
    return ⟨body.1, body.2⟩
  | .patternProperty => do
    let name ← run .identifier
    let rename ← optionally .colon (run .identifier)
    let s ← get
    optionalComma
    return ⟨name, rename, s.spanFrom name.span.start⟩

open Code in
/-- The text of a production. -/
def Name.code : Name α → Code α
  | .element e => e.code
  | .listOf e => loop (fun s => s.hasTokens && !s.isAt .closeParen) do
    let a ← run e
    optionalComma
    return a
  | .arguments => call (.listOf .callArgument)
  | .parameters => call (.listOf .parameter)
  | .statementList stop => do
    call .skipLineBreaks
    loop (fun s => !Grammar.atStop stop s) do
      let a ← run .statement
      let s ← get
      if Grammar.atStop stop s then return a
      else
        call .skipLineBreaks
        return a
  | .program => do
    let s ← get
    let body ← if s.hasTokens then call (.statementList none) else pure []
    let s' ← get
    return ⟨body, s'.spanFrom (.of s.file 0)⟩
  | .skipLineBreaks => do
    let _ ← loop (·.isAt .lineBreak) (eat .lineBreak)
    return ()
  | .endOfStatement => do
    let s ← get
    endAt s.kind?

/-! ### Code and productions -/

namespace Code

@[simp] theorem within_pure (a : α) (b : Nat) : (pure a : Code α).within b = pure a := rfl

@[simp] theorem within_bind (c : Code α) (f : α → Code β) (b : Nat) :
    (c >>= f).within b = c.within b >>= fun a => (f a).within b := rfl

@[simp] theorem within_get (b : Nat) : get.within b = MonadState.get := rfl

@[simp] theorem within_eat (kind : Kind) (b : Nat) : (eat kind).within b = Parser.eat kind := rfl

@[simp] theorem within_run (e : Element α) (b : Nat) : (run e).within b = e.within b := rfl

@[simp] theorem within_call (n : Name α) (b : Nat) : (call n).within b = n.within b := rfl

@[simp] theorem within_loop (test : Session → Bool) (step : Code α) (b : Nat) :
    (loop test step).within b = repeatWhile test (step.within b) := rfl

@[simp] theorem within_ite (p : Prop) [Decidable p] (c d : Code α) (b : Nat) :
    (if p then c else d).within b = if p then c.within b else d.within b := by
  split <;> rfl

/-- The code of an optional part is that part. -/
@[simp] theorem within_optionally (kind : Kind) (c : Code α) (b : Nat) :
    (optionally kind c).within b = Parser.optionally kind (c.within b) := by
  rw [optionally, Parser.optionally, accept]
  simp only [within_bind, within_get, within_ite, within_eat, within_pure, bind_assoc, ite_bind,
    pure_bind, if_true, Bool.false_eq_true, if_false, map_eq_pure_bind]

@[simp] theorem within_optionalComma (b : Nat) :
    optionalComma.within b = Grammar.optionalComma := by
  rw [optionalComma, Grammar.optionalComma, discard_eq, accept]
  simp only [within_bind, within_get, within_ite, within_eat, within_pure, bind_assoc, ite_bind,
    pure_bind]

@[simp] theorem within_propertyKey (b : Nat) : propertyKey.within b = Grammar.propertyKey := by
  rw [propertyKey, Grammar.propertyKey, accept]
  simp only [within_bind, within_get, within_ite, within_eat, within_run, within_pure, bind_assoc,
    ite_bind, pure_bind, if_true, Bool.false_eq_true, if_false]
  rfl

/-- The code of an entry is the entry. -/
@[simp] theorem within_member (b : Nat) : member.within b =
    Grammar.member (Grammar.primary b) (Grammar.additive (Grammar.primary b)) := by
  rw [member, Grammar.member]
  simp only [within_bind, within_get, within_ite, within_run, within_propertyKey,
    within_optionally, within_pure]
  rfl

/-- The code of what stands behind the left side of an assignment. -/
@[simp] theorem within_assigned (left : Expr) (b : Nat) :
    (assigned left).within b = Grammar.assigned (Grammar.assignment b) left := by
  rw [assigned, Grammar.assigned, within_bind]
  congr 1
  funext s
  cases s.kind? with
  | none => rfl
  | some kind => exact within_ite _ _ _ b

/-- The code that a first token selects is the expression without operators that it selects. -/
theorem within_primaryAt (kind? : Option Kind) (b : Nat) (s : Session) :
    (primaryAt kind?).within b s = (match kind? with
      | some .openParen => Grammar.parenthesized (Grammar.assignment b)
      | some .openCurly => Grammar.object (Grammar.primary b) (Grammar.additive (Grammar.primary b))
      | some .identifier => Grammar.callable (Grammar.additive (Grammar.primary b))
      | some .spread => Grammar.spread (Grammar.additive (Grammar.primary b))
      | _ => Grammar.literal : Parser Expr) s := by
  cases kind? with
  | none => rfl
  | some kind => cases kind <;> rfl

/-- The code that a first token selects is the statement that it selects. -/
theorem within_statementAt (kind? : Option Kind) (b : Nat) (s : Session) :
    (statementAt kind?).within b s = (match kind? with
      | some .semicolon => Grammar.emptyStatement
      | some .openCurly => Grammar.blockStatement (Grammar.statement b)
      | some .letWord | some .varWord | some .constWord =>
        Grammar.declaration (Grammar.assignment b)
      | some .returnWord => Grammar.resultStatement (Grammar.additive (Grammar.primary b))
      | some .functionWord => Grammar.function (Grammar.statement b)
      | _ => Grammar.expressionStatement (Grammar.assignment b) : Parser Stmt) s := by
  cases kind? with
  | none => rfl
  | some kind => cases kind <;> rfl

/-- The code of the end of a statement is that end. -/
theorem within_endAt (s : Session) (b : Nat) :
    (endAt s.kind?).within b s = Grammar.endOfStatement s := by
  rw [Grammar.endOfStatement, get_bind]
  cases s.kind? with
  | none => rw [discard_eq]; rfl
  | some kind => cases kind <;> simp only [discard_eq] <;> rfl

/-- The code of a declarator is the declarator. -/
@[simp] theorem within_declarator (b : Nat) :
    declarator.within b = Grammar.declarator (Grammar.assignment b) := by
  rw [declarator, Grammar.declarator_eq]
  simp only [within_bind, within_get, within_run, within_optionally, within_pure]
  rfl

@[simp] theorem within_expectBody (b : Nat) : expectBody.within b = Grammar.expectBody := by
  rw [expectBody, Grammar.expectBody_eq]
  simp only [within_bind, within_get, within_ite, within_pure]
  rfl

/-- A production that takes a level, and the code of what it does a level deeper. -/
theorem within_nested {p q : Nat → Parser α} {c : Code α} (hzero : p 0 = overLimit)
    (hsucc : ∀ b, p (b + 1) = Parser.nested (q b)) (hc : ∀ b, c.within b = q b) {b : Nat}
    {s : Session} (h : s.budget ≤ b) : (nested c).within b s = p b s := by
  cases b with
  | zero =>
    rw [hzero]
    exact nested_of_budget_eq_zero (Nat.le_zero.1 h)
  | succ b => rw [hsucc, ← hc, within, Nat.add_sub_cancel]

end Code

open Code in
/-- The code of a production that takes a token is that production. -/
theorem Element.code_within (e : Element α) {b : Nat} {s : Session} (h : s.budget ≤ b) :
    e.code.within b s = e.within b s := by
  cases e with
  -- Statements, assignments and primaries take a level, so they count one level down; the others
  -- call them with as many levels to go.
  | statement =>
    refine within_nested Grammar.statement_zero Grammar.statement_succ (fun b => ?_) h
    funext s
    rw [Grammar.statementOf_of_kind? _ _ _ rfl]
    exact within_statementAt s.kind? b s
  | emptyStatement | resultStatement | expressionStatement | expression | additive
  | parenthesized | spread | identifier | callArgument | object | objectPattern => rfl
  | block =>
    rw [code, Element.within, Grammar.block]
    simp only [within_bind, within_get, within_ite, within_eat, within_pure, within_call]
    rfl
  | declaration =>
    rw [code, Element.within, Grammar.declaration]
    simp only [within_bind, within_get, within_loop, within_eat, within_pure, within_call,
      within_declarator]
    rfl
  | function =>
    rw [code, Element.within, Grammar.function]
    simp only [within_bind, within_get, within_run, within_eat, within_call, within_pure,
      within_expectBody]
    rfl
  | assignment =>
    refine within_nested Grammar.assignment_zero Grammar.assignment_succ (fun b => ?_) h
    exact congrArg (_ >>= ·) (funext fun left => within_assigned left b)
  | primary =>
    refine within_nested Grammar.primary_zero Grammar.primary_succ (fun b => ?_) h
    funext s
    rw [Grammar.primaryOf_of_kind? _ _ _ rfl]
    exact within_primaryAt s.kind? b s
  -- To accept a parenthesis is to look at it and to take it.
  | callable =>
    rw [code, Element.within, Grammar.callable, accept]
    simp only [within_bind, within_get, within_run, within_ite, within_eat, within_call,
      within_pure, bind_assoc, ite_bind, pure_bind, if_true, Bool.false_eq_true, if_false]
    rfl
  | literal =>
    rw [code, Element.within, Grammar.literal_eq]
    simp only [within_bind, within_get, within_ite]
    rfl
  | property =>
    rw [code, Element.within, Grammar.property_eq]
    simp only [within_bind, within_member, within_optionalComma, within_pure]
  | parameter =>
    rw [code, Element.within, Grammar.parameter]
    simp only [within_bind, within_get, within_ite, within_run, within_pure]
    rfl
  | patternProperty =>
    rw [code, Element.within, Grammar.patternProperty_eq]
    simp only [within_bind, within_get, within_run, within_optionally, within_optionalComma,
      within_pure]
    rfl

open Code in
/-- The code of a production is that production. -/
theorem Name.code_within (n : Name α) {b : Nat} {s : Session} (h : s.budget ≤ b) :
    n.code.within b s = n.within b s := by
  cases n with
  | element e => exact e.code_within h
  | listOf e =>
    rw [code, Name.within, Grammar.listOf]
    simp only [within_bind, within_loop, within_run, within_optionalComma, within_pure]
  -- These two are lists under a name of their own.
  | arguments | parameters => rfl
  | statementList stop =>
    rw [code, Name.within, Grammar.statementList]
    simp only [within_bind, within_loop, within_get, within_run, within_ite, within_pure,
      within_call]
    rfl
  | program =>
    rw [code, Name.within]
    simp only [within_bind, within_get, within_ite, within_call, within_pure]
    rfl
  | skipLineBreaks =>
    rw [code, Name.within, Grammar.skipLineBreaks, discard_eq]
    rfl
  | endOfStatement => exact within_endAt s b

/-! ### Names and productions -/

instance (e : Element α) (b : Nat) : Orderly (e.within b) := by
  cases e <;> simp only [Element.within] <;> infer_instance

instance (e : Element α) (b : Nat) : Progressing (e.within b) := by
  cases e <;> simp only [Element.within, Grammar.objectPattern, Grammar.bodyOf] <;> infer_instance

instance (e : Element α) (b : Nat) : Built (e.within b) := by
  cases e <;> simp only [Element.within] <;> infer_instance

instance (n : Name α) (b : Nat) : Built (n.within b) := by
  cases n <;> simp only [Name.within] <;> infer_instance

/-- Loops whose steps do the same on all sessions with as many levels left do the same. -/
theorem Parser.repeatWhile_congr {test : Session → Bool} {step step' : Parser α} [Orderly step']
    {s : Session} (h : ∀ s', s'.budget = s.budget → step s' = step' s') :
    repeatWhile test step s = repeatWhile test step' s := by
  -- The induction follows the loop on the right, and no step changes how many levels are left.
  fun_induction repeatWhile test step' s with
  | case1 s htest e s' hstep => rw [repeatWhile, if_pos htest, h s rfl, hstep]
  | case2 s htest a s' hstep hlt _ _ hloop ih | case3 s htest a s' hstep hlt _ _ hloop ih =>
    obtain ⟨c, hc, -⟩ := Orderly.ok hstep
    rw [repeatWhile, if_pos htest, h s rfl, hstep]
    simp only [hlt, if_true, ih fun s₁ hs₁ => h s₁ (hs₁.trans hc.budget), hloop]
  | case4 s htest a s' hstep hlt =>
    rw [repeatWhile, if_pos htest, h s rfl, hstep]
    simp only [hlt, if_false]
  | case5 s htest => exact repeatWhile_of_not (by simpa using htest)

/-- A production has all levels to go that its session has left. -/
theorem Element.parser_apply (e : Element α) (s : Session) :
    e.parser s = e.within s.budget s := by
  cases e <;> rfl

/-- A production has all levels to go that its session has left. -/
theorem Name.parser_apply (n : Name α) (s : Session) : n.parser s = n.within s.budget s := by
  cases n with
  | element e => exact e.parser_apply s
  | listOf e =>
    rw [parser, within, Grammar.listOf, Grammar.listOf]
    -- The elements of a list are run on sessions with as many levels left as the first one.
    refine repeatWhile_congr fun s' hs' => ?_
    rw [bind_apply, bind_apply, e.parser_apply, hs']
  | program =>
    rw [parser, within, Parser.program, get_bind, get_bind, get_bind]
    split <;> rfl
  | arguments | parameters | statementList _ | skipLineBreaks | endOfStatement => rfl

end Scriptlet
