import Scriptlet.Error
import Scriptlet.Tree

/-!
# Carrying positions over

Tokens, trees and errors hold positions. Carrying them over along a map of positions changes nothing
else, and two things that differ in their positions only are told apart by no map that sends these
positions to the same ones. So "the same, further behind" is to be carried over along a shift, and
"the same but for positions" is to be carried over along a constant map to the same thing.

## Main definitions

* `Relocatable`, `relocate`: what holds positions, and how it is carried over;
* `shiftBy`: positions further behind.

## Main results

* `relocate_id`: the identity changes nothing;
* `Expr.span_relocate`: spans are carried over with the expressions.
-/

namespace Scriptlet

/-- What holds positions can be carried over along a map of positions. -/
class Relocatable (α : Type) where
  /-- Carries all positions over. -/
  relocate : (Position → Position) → α → α

export Relocatable (relocate)

/-- A position a number of bytes further behind, modulo `2 ^ 32`. -/
def shiftBy (bytes : Nat) (p : Position) : Position := ⟨p.offset + UInt32.ofNat bytes, p.file⟩

/-- A position at an offset, moved on, is the position at the larger offset. -/
theorem shiftBy_of (bytes offset : Nat) (file : String) :
    shiftBy bytes (.of file offset) = .of file (offset + bytes) := by
  simp only [shiftBy, Position.of, UInt32.ofNat_add]

/-- As long as offsets stay below the limit of positions, moving on adds to them. -/
theorem toNat_offset_shiftBy {bytes : Nat} {p : Position}
    (h : p.offset.toNat + bytes < UInt32.size) :
    (shiftBy bytes p).offset.toNat = p.offset.toNat + bytes := by
  have hbytes : (UInt32.ofNat bytes).toNat = bytes := UInt32.toNat_ofNat_of_lt (by omega)
  rw [shiftBy, UInt32.toNat_add, hbytes]
  -- The sum is taken modulo the limit, which it does not reach.
  exact Nat.mod_eq_of_lt h

/-! ### What holds positions -/

instance : Relocatable Unit := ⟨fun _ => id⟩

instance : Relocatable Bool := ⟨fun _ => id⟩

instance : Relocatable Span := ⟨fun φ span => ⟨φ span.start, φ span.stop⟩⟩

instance : Relocatable Token := ⟨fun φ t => ⟨t.kind, t.value, relocate φ t.span⟩⟩

instance : Relocatable Error := ⟨fun φ e => ⟨e.cause, φ e.position⟩⟩

instance : Relocatable Identifier := ⟨fun φ id => ⟨id.name, relocate φ id.span⟩⟩

instance {α : Type} [Relocatable α] : Relocatable (Option α) := ⟨fun φ => Option.map (relocate φ)⟩

instance {α : Type} [Relocatable α] : Relocatable (List α) := ⟨fun φ => List.map (relocate φ)⟩

instance {α β : Type} [Relocatable α] [Relocatable β] : Relocatable (α × β) :=
  ⟨fun φ => Prod.map (relocate φ) (relocate φ)⟩

mutual

/-- An expression carried over. -/
def Expr.relocated (φ : Position → Position) : Expr → Expr
  | .identifier id => .identifier (relocate φ id)
  | .number value span => .number value (relocate φ span)
  | .string value span => .string value (relocate φ span)
  | .object properties span => .object (Property.allRelocated φ properties) (relocate φ span)
  | .binary left operator right span =>
    .binary (left.relocated φ) (relocate φ operator) (right.relocated φ) (relocate φ span)
  | .assignment assignee operator value span =>
    .assignment (assignee.relocated φ) (relocate φ operator) (value.relocated φ) (relocate φ span)
  | .spread operator operand span =>
    .spread (relocate φ operator) (operand.relocated φ) (relocate φ span)
  | .call callee arguments span =>
    .call (relocate φ callee) (Expr.allRelocated φ arguments) (relocate φ span)

/-- A property carried over. -/
def Property.relocated (φ : Position → Position) : Property → Property
  | .keyValue key value span => .keyValue (relocate φ key) (value.relocated φ) (relocate φ span)
  | .shorthand key span => .shorthand (relocate φ key) (relocate φ span)
  | .spread init span => .spread (init.relocated φ) (relocate φ span)

/-- Expressions carried over. -/
def Expr.allRelocated (φ : Position → Position) : List Expr → List Expr
  | [] => []
  | e :: es => e.relocated φ :: Expr.allRelocated φ es

/-- Properties carried over. -/
def Property.allRelocated (φ : Position → Position) : List Property → List Property
  | [] => []
  | p :: ps => p.relocated φ :: Property.allRelocated φ ps

end

instance : Relocatable Expr := ⟨Expr.relocated⟩

instance : Relocatable Property := ⟨Property.relocated⟩

instance : Relocatable PatternProperty :=
  ⟨fun φ p => ⟨relocate φ p.name, relocate φ p.rename, relocate φ p.span⟩⟩

instance : Relocatable ObjectPattern :=
  ⟨fun φ p => ⟨relocate φ p.properties, relocate φ p.span⟩⟩

/-- A parameter carried over. -/
def Param.relocated (φ : Position → Position) : Param → Param
  | .identifier id => .identifier (relocate φ id)
  | .pattern p => .pattern (relocate φ p)

instance : Relocatable Param := ⟨Param.relocated⟩

instance : Relocatable Declarator :=
  ⟨fun φ d => ⟨relocate φ d.name, relocate φ d.init, relocate φ d.span⟩⟩

mutual

/-- A statement carried over. -/
def Stmt.relocated (φ : Position → Position) : Stmt → Stmt
  | .empty span => .empty (relocate φ span)
  | .block body span => .block (Stmt.allRelocated φ body) (relocate φ span)
  | .declaration kind declarators span =>
    .declaration kind (relocate φ declarators) (relocate φ span)
  | .result value span => .result (relocate φ value) (relocate φ span)
  | .function name params body span =>
    .function (relocate φ name) (relocate φ params) (Stmt.allRelocated φ body) (relocate φ span)
  | .expression value span => .expression (relocate φ value) (relocate φ span)

/-- Statements carried over. -/
def Stmt.allRelocated (φ : Position → Position) : List Stmt → List Stmt
  | [] => []
  | a :: as => a.relocated φ :: Stmt.allRelocated φ as

end

instance : Relocatable Stmt := ⟨Stmt.relocated⟩

instance : Relocatable Block := ⟨fun φ b => ⟨relocate φ b.body, relocate φ b.span⟩⟩

instance : Relocatable Program := ⟨fun φ p => ⟨relocate φ p.body, relocate φ p.span⟩⟩

/-! ### Carrying over part by part -/

section Parts

variable {α β : Type} [Relocatable α] [Relocatable β] (φ : Position → Position)

/-- Carrying over a list of expressions inside an expression is carrying over the list. -/
theorem Expr.allRelocated_eq (es : List Expr) : Expr.allRelocated φ es = relocate φ es := by
  induction es with
  | nil => rfl
  | cons e es ih => exact congrArg (e.relocated φ :: ·) ih

/-- Carrying over a list of properties inside an expression is carrying over the list. -/
theorem Property.allRelocated_eq (ps : List Property) :
    Property.allRelocated φ ps = relocate φ ps := by
  induction ps with
  | nil => rfl
  | cons p ps ih => exact congrArg (p.relocated φ :: ·) ih

/-- Carrying over a list of statements inside a statement is carrying over the list. -/
theorem Stmt.allRelocated_eq (as : List Stmt) : Stmt.allRelocated φ as = relocate φ as := by
  induction as with
  | nil => rfl
  | cons a as ih => exact congrArg (a.relocated φ :: ·) ih

@[simp] theorem relocate_nil : relocate φ ([] : List α) = [] := rfl

@[simp] theorem relocate_cons (a : α) (as : List α) :
    relocate φ (a :: as) = relocate φ a :: relocate φ as := rfl

/-- Two lists are carried over one after the other. -/
@[simp] theorem relocate_append (as bs : List α) :
    relocate φ (as ++ bs) = relocate φ as ++ relocate φ bs := List.map_append

/-- Nothing is lost or added. -/
@[simp] theorem length_relocate (as : List α) : (relocate φ as).length = as.length :=
  List.length_map _

@[simp] theorem relocate_none : relocate φ (none : Option α) = none := rfl

@[simp] theorem relocate_some (a : α) : relocate φ (some a) = some (relocate φ a) := rfl

/-- Both components are carried over. -/
@[simp] theorem relocate_prod (a : α) (b : β) :
    relocate φ (a, b) = (relocate φ a, relocate φ b) := rfl

/-- A span is carried over with its two ends. -/
@[simp] theorem relocate_span (start stop : Position) :
    relocate φ (⟨start, stop⟩ : Span) = ⟨φ start, φ stop⟩ := rfl

/-- The kind and the text of a token stay. -/
@[simp] theorem relocate_token (kind : Kind) (value : String) (span : Span) :
    relocate φ (⟨kind, value, span⟩ : Token) = ⟨kind, value, relocate φ span⟩ := rfl

/-- The cause of an error stays. -/
@[simp] theorem relocate_error (cause : Cause) (position : Position) :
    relocate φ (⟨cause, position⟩ : Error) = ⟨cause, φ position⟩ := rfl

/-- A name stays. -/
@[simp] theorem relocate_identifier (name : String) (span : Span) :
    relocate φ (⟨name, span⟩ : Identifier) = ⟨name, relocate φ span⟩ := rfl

@[simp] theorem relocate_patternProperty (name : Identifier) (rename : Option Identifier)
    (span : Span) : relocate φ (⟨name, rename, span⟩ : PatternProperty) =
      ⟨relocate φ name, relocate φ rename, relocate φ span⟩ := rfl

@[simp] theorem relocate_objectPattern (properties : List PatternProperty) (span : Span) :
    relocate φ (⟨properties, span⟩ : ObjectPattern) =
      ⟨relocate φ properties, relocate φ span⟩ := rfl

/-- A declarator is carried over with its name and its first value. -/
@[simp] theorem relocate_declarator (name : Identifier) (init : Option Expr) (span : Span) :
    relocate φ (⟨name, init, span⟩ : Declarator) =
      ⟨relocate φ name, relocate φ init, relocate φ span⟩ := rfl

/-- A block is carried over with its statements. -/
@[simp] theorem relocate_block (body : List Stmt) (span : Span) :
    relocate φ (⟨body, span⟩ : Block) = ⟨relocate φ body, relocate φ span⟩ := rfl

/-- A program is carried over with its statements. -/
@[simp] theorem relocate_program (body : List Stmt) (span : Span) :
    relocate φ (⟨body, span⟩ : Program) = ⟨relocate φ body, relocate φ span⟩ := rfl

namespace Expr

@[simp] theorem relocate_identifier (id : Identifier) :
    relocate φ (Expr.identifier id) = .identifier (relocate φ id) := rfl

/-- The value of a number stays. -/
@[simp] theorem relocate_number (value : Binary64) (span : Span) :
    relocate φ (Expr.number value span) = .number value (relocate φ span) := rfl

/-- The text of a string stays. -/
@[simp] theorem relocate_string (value : String) (span : Span) :
    relocate φ (Expr.string value span) = .string value (relocate φ span) := rfl

/-- An object is carried over with its properties. -/
@[simp] theorem relocate_object (properties : List Property) (span : Span) :
    relocate φ (Expr.object properties span) =
      .object (relocate φ properties) (relocate φ span) := by
  -- Expressions are carried over by a recursion of their own through their lists.
  rw [← Property.allRelocated_eq]
  rfl

/-- A sum is carried over with its operands and its operator. -/
@[simp] theorem relocate_binary (left : Expr) (operator : Token) (right : Expr) (span : Span) :
    relocate φ (Expr.binary left operator right span) =
      .binary (relocate φ left) (relocate φ operator) (relocate φ right) (relocate φ span) := rfl

@[simp] theorem relocate_assignment (assignee : Expr) (operator : Token) (value : Expr)
    (span : Span) : relocate φ (Expr.assignment assignee operator value span) =
      .assignment (relocate φ assignee) (relocate φ operator) (relocate φ value)
        (relocate φ span) := rfl

@[simp] theorem relocate_spread (operator : Token) (operand : Expr) (span : Span) :
    relocate φ (Expr.spread operator operand span) =
      .spread (relocate φ operator) (relocate φ operand) (relocate φ span) := rfl

/-- A call is carried over with its arguments. -/
@[simp] theorem relocate_call (callee : Identifier) (arguments : List Expr) (span : Span) :
    relocate φ (Expr.call callee arguments span) =
      .call (relocate φ callee) (relocate φ arguments) (relocate φ span) := by
  rw [← Expr.allRelocated_eq]
  rfl

end Expr

namespace Property

@[simp] theorem relocate_keyValue (key : Identifier) (value : Expr) (span : Span) :
    relocate φ (Property.keyValue key value span) =
      .keyValue (relocate φ key) (relocate φ value) (relocate φ span) := rfl

@[simp] theorem relocate_shorthand (key : Identifier) (span : Span) :
    relocate φ (Property.shorthand key span) = .shorthand (relocate φ key) (relocate φ span) := rfl

@[simp] theorem relocate_spread (init : Expr) (span : Span) :
    relocate φ (Property.spread init span) = .spread (relocate φ init) (relocate φ span) := rfl

end Property

@[simp] theorem Param.relocate_identifier (id : Identifier) :
    relocate φ (Param.identifier id) = .identifier (relocate φ id) := rfl

@[simp] theorem Param.relocate_pattern (p : ObjectPattern) :
    relocate φ (Param.pattern p) = .pattern (relocate φ p) := rfl

namespace Stmt

@[simp] theorem relocate_empty (span : Span) :
    relocate φ (Stmt.empty span) = .empty (relocate φ span) := rfl

@[simp] theorem relocate_block (body : List Stmt) (span : Span) :
    relocate φ (Stmt.block body span) = .block (relocate φ body) (relocate φ span) := by
  rw [← Stmt.allRelocated_eq]
  rfl

/-- The word of a declaration stays. -/
@[simp] theorem relocate_declaration (kind : DeclarationKind) (declarators : List Declarator)
    (span : Span) : relocate φ (Stmt.declaration kind declarators span) =
      .declaration kind (relocate φ declarators) (relocate φ span) := rfl

@[simp] theorem relocate_result (value : Expr) (span : Span) :
    relocate φ (Stmt.result value span) = .result (relocate φ value) (relocate φ span) := rfl

/-- A function is carried over with its parameters and its body. -/
@[simp] theorem relocate_function (name : Identifier) (params : List Param) (body : List Stmt)
    (span : Span) : relocate φ (Stmt.function name params body span) =
      .function (relocate φ name) (relocate φ params) (relocate φ body) (relocate φ span) := by
  rw [← Stmt.allRelocated_eq]
  rfl

@[simp] theorem relocate_expression (value : Expr) (span : Span) :
    relocate φ (Stmt.expression value span) =
      .expression (relocate φ value) (relocate φ span) := rfl

end Stmt

/-- The span of an expression carried over is its span carried over. -/
@[simp] theorem Expr.span_relocate (e : Expr) : (relocate φ e).span = relocate φ e.span := by
  cases e <;> rfl

end Parts

/-! ### Staying in place -/

/-- Carrying over along the identity changes nothing. -/
class Relocatable.Lawful (α : Type) [Relocatable α] : Prop where
  /-- Each position is carried over to itself. -/
  relocate_id : ∀ a : α, relocate id a = a

export Relocatable.Lawful (relocate_id)

attribute [simp] relocate_id

section Lawful

variable {α : Type} [Relocatable α] [Relocatable.Lawful α]

instance : Relocatable.Lawful Span := ⟨fun _ => rfl⟩

instance : Relocatable.Lawful Token := ⟨fun _ => rfl⟩

instance : Relocatable.Lawful Error := ⟨fun _ => rfl⟩

instance : Relocatable.Lawful Identifier := ⟨fun _ => rfl⟩

instance : Relocatable.Lawful (Option α) := ⟨fun a => by cases a <;> simp⟩

instance : Relocatable.Lawful (List α) := ⟨fun as => by induction as <;> simp [*]⟩

mutual

/-- Along the identity an expression is carried over to itself. -/
theorem Expr.relocated_id : ∀ e : Expr, e.relocated id = e
  | .identifier _ | .number _ _ | .string _ _ => by simp [Expr.relocated]
  | .object properties _ => by simp [Expr.relocated, Property.allRelocated_id properties]
  | .binary left _ right _ => by simp [Expr.relocated, left.relocated_id, right.relocated_id]
  | .assignment assignee _ value _ => by
    simp [Expr.relocated, assignee.relocated_id, value.relocated_id]
  | .spread _ operand _ => by simp [Expr.relocated, operand.relocated_id]
  | .call _ arguments _ => by simp [Expr.relocated, Expr.allRelocated_id arguments]

theorem Property.relocated_id : ∀ p : Property, p.relocated id = p
  | .keyValue _ value _ => by simp [Property.relocated, value.relocated_id]
  | .shorthand _ _ => by simp [Property.relocated]
  | .spread init _ => by simp [Property.relocated, init.relocated_id]

theorem Expr.allRelocated_id : ∀ es : List Expr, Expr.allRelocated id es = es
  | [] => by simp [Expr.allRelocated]
  | e :: es => by simp [Expr.allRelocated, e.relocated_id, Expr.allRelocated_id es]

theorem Property.allRelocated_id : ∀ ps : List Property, Property.allRelocated id ps = ps
  | [] => by simp [Property.allRelocated]
  | p :: ps => by simp [Property.allRelocated, p.relocated_id, Property.allRelocated_id ps]

end

instance : Relocatable.Lawful Expr := ⟨Expr.relocated_id⟩

instance : Relocatable.Lawful PatternProperty := ⟨fun ⟨_, _, _⟩ => by simp⟩

instance : Relocatable.Lawful ObjectPattern := ⟨fun ⟨_, _⟩ => by simp⟩

instance : Relocatable.Lawful Param := ⟨fun p => by cases p <;> simp⟩

instance : Relocatable.Lawful Declarator := ⟨fun ⟨_, _, _⟩ => by simp⟩

mutual

/-- Along the identity a statement is carried over to itself. -/
theorem Stmt.relocated_id : ∀ a : Stmt, a.relocated id = a
  | .empty _ | .declaration _ _ _ | .result _ _ | .expression _ _ => by simp [Stmt.relocated]
  | .block body _ => by simp [Stmt.relocated, Stmt.allRelocated_id body]
  | .function _ _ body _ => by simp [Stmt.relocated, Stmt.allRelocated_id body]

theorem Stmt.allRelocated_id : ∀ as : List Stmt, Stmt.allRelocated id as = as
  | [] => by simp [Stmt.allRelocated]
  | a :: as => by simp [Stmt.allRelocated, a.relocated_id, Stmt.allRelocated_id as]

end

instance : Relocatable.Lawful Stmt := ⟨Stmt.relocated_id⟩

end Lawful

end Scriptlet
