import Mathlib.Control.Monad.Basic
import Scriptlet.Tree

/-!
# Equality of trees

Whether two trees are the same can be found out by comparing them part by part, so what a parse
gives can be compared with a tree that is written down. Expressions and statements contain lists of
themselves, for which no comparison is derived, so theirs is written out here.

## Main definitions

* `Expr.same`, `Stmt.same`: whether two trees are the same;
* the instances of `DecidableEq` for expressions, statements and programs.
-/

namespace Scriptlet

/-! ### Expressions -/

mutual

/-- Whether two expressions are the same. -/
def Expr.same : Expr → Expr → Bool
  | .identifier id, .identifier id' => id = id'
  | .number value span, .number value' span' => value = value' && span = span'
  | .string value span, .string value' span' => value = value' && span = span'
  | .object properties span, .object properties' span' =>
    Property.allSame properties properties' && span = span'
  | .binary left operator right span, .binary left' operator' right' span' =>
    left.same left' && operator = operator' && right.same right' && span = span'
  | .assignment assignee operator value span, .assignment assignee' operator' value' span' =>
    assignee.same assignee' && operator = operator' && value.same value' && span = span'
  | .spread operator operand span, .spread operator' operand' span' =>
    operator = operator' && operand.same operand' && span = span'
  | .call callee arguments span, .call callee' arguments' span' =>
    callee = callee' && Expr.allSame arguments arguments' && span = span'
  | _, _ => false

/-- Whether two properties are the same. -/
def Property.same : Property → Property → Bool
  | .keyValue key value span, .keyValue key' value' span' =>
    key = key' && value.same value' && span = span'
  | .shorthand key span, .shorthand key' span' => key = key' && span = span'
  | .spread init span, .spread init' span' => init.same init' && span = span'
  | _, _ => false

/-- Whether expressions are the same, one by one. -/
def Expr.allSame : List Expr → List Expr → Bool
  | [], [] => true
  | e :: es, e' :: es' => e.same e' && Expr.allSame es es'
  | _, _ => false

/-- Whether properties are the same, one by one. -/
def Property.allSame : List Property → List Property → Bool
  | [], [] => true
  | p :: ps, p' :: ps' => p.same p' && Property.allSame ps ps'
  | _, _ => false

end

mutual

/-- Comparing two expressions tells whether they are equal. -/
theorem Expr.same_iff (e e' : Expr) : e.same e' = true ↔ e = e' := by
  cases e with
  | identifier id => cases e' <;> simp [Expr.same]
  | number value span => cases e' <;> simp [Expr.same]
  | string value span => cases e' <;> simp [Expr.same]
  | object properties span => cases e' <;> simp [Expr.same, Property.allSame_iff properties]
  | binary left operator right span =>
    cases e' <;> simp [Expr.same, left.same_iff, right.same_iff, and_assoc]
  | assignment assignee operator value span =>
    cases e' <;> simp [Expr.same, assignee.same_iff, value.same_iff, and_assoc]
  | spread operator operand span => cases e' <;> simp [Expr.same, operand.same_iff, and_assoc]
  | call callee arguments span =>
    cases e' <;> simp [Expr.same, Expr.allSame_iff arguments, and_assoc]

theorem Property.same_iff (p p' : Property) : p.same p' = true ↔ p = p' := by
  cases p with
  | keyValue key value span => cases p' <;> simp [Property.same, value.same_iff, and_assoc]
  | shorthand key span => cases p' <;> simp [Property.same]
  | spread init span => cases p' <;> simp [Property.same, init.same_iff]

theorem Expr.allSame_iff (es es' : List Expr) : Expr.allSame es es' = true ↔ es = es' := by
  cases es with
  | nil => cases es' <;> simp [Expr.allSame]
  | cons e es => cases es' <;> simp [Expr.allSame, e.same_iff, Expr.allSame_iff es]

theorem Property.allSame_iff (ps ps' : List Property) :
    Property.allSame ps ps' = true ↔ ps = ps' := by
  cases ps with
  | nil => cases ps' <;> simp [Property.allSame]
  | cons p ps => cases ps' <;> simp [Property.allSame, p.same_iff, Property.allSame_iff ps]

end

instance : DecidableEq Expr := fun e e' => decidable_of_iff _ (e.same_iff e')

deriving instance DecidableEq for Declarator

/-! ### Statements -/

mutual

/-- Whether two statements are the same. -/
def Stmt.same : Stmt → Stmt → Bool
  | .empty span, .empty span' => span = span'
  | .block body span, .block body' span' => Stmt.allSame body body' && span = span'
  | .declaration kind declarators span, .declaration kind' declarators' span' =>
    kind = kind' && declarators = declarators' && span = span'
  | .result value span, .result value' span' => value = value' && span = span'
  | .function name params body span, .function name' params' body' span' =>
    name = name' && params = params' && Stmt.allSame body body' && span = span'
  | .expression value span, .expression value' span' => value = value' && span = span'
  | _, _ => false

/-- Whether statements are the same, one by one. -/
def Stmt.allSame : List Stmt → List Stmt → Bool
  | [], [] => true
  | s :: ss, s' :: ss' => s.same s' && Stmt.allSame ss ss'
  | _, _ => false

end

mutual

/-- Comparing two statements tells whether they are equal. -/
theorem Stmt.same_iff (s s' : Stmt) : s.same s' = true ↔ s = s' := by
  cases s with
  | block body span => cases s' <;> simp [Stmt.same, Stmt.allSame_iff body]
  | function name params body span =>
    cases s' <;> simp [Stmt.same, Stmt.allSame_iff body, and_assoc]
  | _ => cases s' <;> simp [Stmt.same, and_assoc]

theorem Stmt.allSame_iff (ss ss' : List Stmt) : Stmt.allSame ss ss' = true ↔ ss = ss' := by
  cases ss with
  | nil => cases ss' <;> simp [Stmt.allSame]
  | cons s ss => cases ss' <;> simp [Stmt.allSame, s.same_iff, Stmt.allSame_iff ss]

end

instance : DecidableEq Stmt := fun s s' => decidable_of_iff _ (s.same_iff s')

deriving instance DecidableEq for Program

end Scriptlet
