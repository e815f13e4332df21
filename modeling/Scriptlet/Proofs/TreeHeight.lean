import Mathlib.Data.List.Chain
import Mathlib.Order.Monotone.Basic
import Mathlib.Tactic.Ring
import Scriptlet.Proofs.Levels

/-!
# How high trees are

The height of a tree is the largest number of statements and expressions on a way from the root to a
leaf. The number of levels a program takes is meant to bound it, since each statement and each
expression takes a level while it is read, and so does each operator of a sum. But the levels of a
sum are counted from the wrong end: the operand behind the `i`-th operator is read `i` levels
deeper, while in the tree, which leans to the left, it is the first operand that stands deepest. It
was read before any operator was counted.

So a program that takes `n` levels may be higher than `n`, by an amount that grows with every sum
inside the first operand of another. It is never higher than `maxHeight n`, which is about half the
square of `n`. Where no operand in front of an operator contains anything, a program that takes `n`
levels is no higher than `n` after all; that is so if no additive operator stands right behind a
closing parenthesis or brace.

Both bounds are found by the same induction on levels. `Phrase.Bounds S f g` says what it needs: on
tokens that satisfy `S`, a sum that takes `n` levels is no higher than `g n` if its operands are no
higher than `f` of the levels they take.

## Main definitions

* `Expr.height`, `Stmt.height`, `Program.height`;
* `maxHeight`: the height of the highest program that takes a number of levels;
* `PlainSums`: tokens whose sums have nothing nested in front of an operator.

## Main results

* `Phrase.Bounds.height_le`: the height of a program in terms of its levels;
* `Derivable.height_le_maxHeight`, `Derivable.height_le_of_plainSums`: the two bounds.
-/

namespace Scriptlet

/-! ### Heights -/

/-- The largest of the heights of some nodes. -/
def tallest {α : Type} (height : α → Nat) : List α → Nat
  | [] => 0
  | a :: as => max (height a) (tallest height as)

mutual

/-- The largest number of expressions on a way down from an expression. -/
def Expr.height : Expr → Nat
  | .identifier _ | .number _ _ | .string _ _ => 1
  | .object properties _ => Property.heights properties + 1
  | .binary left _ right _ => max left.height right.height + 1
  | .assignment assignee _ value _ => max assignee.height value.height + 1
  | .spread _ operand _ => operand.height + 1
  | .call _ arguments _ => Expr.heights arguments + 1

/-- The largest number of expressions on a way down from a property. -/
def Property.height : Property → Nat
  | .keyValue _ value _ => value.height
  | .shorthand _ _ => 0
  | .spread init _ => init.height

/-- The largest of the heights of some expressions. -/
def Expr.heights : List Expr → Nat
  | [] => 0
  | e :: es => max e.height (Expr.heights es)

/-- The largest of the heights of some properties. -/
def Property.heights : List Property → Nat
  | [] => 0
  | p :: ps => max p.height (Property.heights ps)

end

/-- The height of the first value of a variable, if it has one. -/
def Declarator.height (d : Declarator) : Nat := (d.init.map Expr.height).getD 0

mutual

/-- The largest number of statements and expressions on a way down from a statement. -/
def Stmt.height : Stmt → Nat
  | .empty _ => 1
  | .block body _ => Stmt.heights body + 1
  | .declaration _ declarators _ => tallest Declarator.height declarators + 1
  | .result value _ => value.height + 1
  | .function _ _ body _ => Stmt.heights body + 1
  | .expression value _ => value.height + 1

/-- The largest of the heights of some statements. -/
def Stmt.heights : List Stmt → Nat
  | [] => 0
  | a :: as => max a.height (Stmt.heights as)

end

/-- The largest number of statements and expressions on a way down from the root of a program. -/
def Program.height (p : Program) : Nat := tallest Stmt.height p.body

/-- The heights of expressions come to that of the tallest one. -/
theorem Expr.heights_eq (es : List Expr) : Expr.heights es = tallest Expr.height es := by
  induction es with
  | nil => simp [Expr.heights, tallest]
  | cons e es ih => simp [Expr.heights, tallest, ih]

theorem Property.heights_eq (ps : List Property) :
    Property.heights ps = tallest Property.height ps := by
  induction ps with
  | nil => simp [Property.heights, tallest]
  | cons p ps ih => simp [Property.heights, tallest, ih]

theorem Stmt.heights_eq (as : List Stmt) : Stmt.heights as = tallest Stmt.height as := by
  induction as with
  | nil => simp [Stmt.heights, tallest]
  | cons a as ih => simp [Stmt.heights, tallest, ih]

namespace Phrase

variable {α : Type} {P : Phrase α} {R : List Token → List Token → Prop} {height : α → Nat}
  {S : List Token → Prop} {f g k : Nat → Nat} {b n : Nat} {ts rest : List Token}

/-! ### Bounds by levels -/

/-- The phrases that are no higher than `f` of the levels they take, if the tokens satisfy `S`. -/
def Within (S : List Token → Prop) (f : Nat → Nat) (height : α → Nat) : Phrase α :=
  fun ts _ a n => S ts → height a ≤ f n

/-- What it takes to bound heights by levels: operands are no higher than `f`, and sums no higher
than `g`, of the levels they take. -/
structure Bounds (S : List Token → Prop) (f g : Nat → Nat) : Prop where
  /-- What is known of the tokens is known of those behind a phrase. -/
  suffix : ∀ {ts rest}, rest <:+ ts → S ts → S rest
  /-- An operand with a level more may be higher. -/
  operand : StrictMono f
  /-- A sum with a level more may be higher. -/
  sum : StrictMono g
  /-- An operand may be higher than a sum inside it. -/
  step : ∀ n, g n < f (n + 1)
  /-- Sums are bounded if their operands are. -/
  additive : ∀ b, Below b Primary (Within S f Expr.height) →
    Below b Additive (Within S g Expr.height)

namespace Bounds

variable (h : Bounds S f g)

include h

/-- The tallest of some phrases is within what bounds each of them. -/
theorem many (hk : Monotone k) (hbehind : Behind P) (hP : Below b P (Within S k height)) :
    Below b (Many P) (Within S k (tallest height)) := by
  intro ts rest as n hn hM hts
  induction hM with
  | nil ts => exact Nat.zero_le _
  | cons ha _ ih =>
    have hhead := hP (by omega) ha hts
    have htail := ih (by omega) (h.suffix (hbehind ha) hts)
    exact max_le (hhead.trans (hk (le_max_left _ _))) (htail.trans (hk (le_max_right _ _)))

omit h in
/-- A separator does not make a phrase any taller. -/
theorem andThen (hP : Below b P (Within S k height)) :
    Below b (Then P R) (Within S k height) := by
  rintro ts rest a n hn ⟨ha, -⟩ hts
  exact hP hn ha hts

theorem body (hk : Monotone k) (hbehind : Behind P) (hP : Below b P (Within S k height)) :
    Below b (Body P) (Within S k fun body => tallest height body.1) := by
  rintro _ rest _ n hn ⟨-, hM, -, -⟩ hts
  have hafter : Below b (After Breaks P) (Within S k height) := by
    rintro ts rest a n hn ⟨hbreaks, ha⟩ hts
    exact hP hn ha (h.suffix hbreaks.suffix hts)
  exact h.many hk (hbehind.after Breaks.suffix) hafter hn hM (h.suffix (List.suffix_cons _ _) hts)

/-! ### Expressions -/

/-- An entry is at most as tall as what bounds sums. -/
theorem entry (hsum : Below b Additive (Within S g Expr.height)) :
    Below b Entry (Within S g Property.height) := by
  intro ts rest p n hn hp hts
  cases hp with
  | @spread _ _ _ _ n _ he =>
    have he := hsum (by omega) he (h.suffix (List.suffix_cons _ _) hts)
    have hlt := h.sum (Nat.lt_add_one n)
    simp only [Property.height, Expr.height]
    omega
  | keyValue hkey _ he =>
    exact hsum hn he (h.suffix ((List.suffix_cons _ _).trans (behind_key hkey)) hts)
  | shorthand _ => exact Nat.zero_le _

/-- An assignment puts a node on top of its two sides, and takes a level more. -/
theorem assignment (hsum : Below b Additive (Within S g Expr.height))
    (hvalue : Below b Assignment (Within S f Expr.height)) :
    Below (b + 1) Assignment (Within S f Expr.height) := by
  intro ts rest e n hn he hts
  cases he with
  | @sum _ _ _ n he =>
    have he := hsum (by omega) he hts
    have hstep := h.step n
    omega
  | @assign _ _ _ _ _ _ n m hleft _ hright =>
    have hright := hvalue (by omega) hright
      (h.suffix ((List.suffix_cons _ _).trans (behind_additive hleft)) hts)
    have hleft := hsum (by omega) hleft hts
    have hn := h.sum.monotone (le_max_left n m)
    have hm := h.operand.monotone (le_max_right n m)
    have hstep := h.step (max n m)
    have hlt := h.operand (Nat.lt_add_one (max n m))
    simp only [Expr.height]
    omega

/-- What an expression without operators puts on top takes a level. -/
theorem primary (hsum : Below b Additive (Within S g Expr.height))
    (hexpression : Below b Assignment (Within S f Expr.height)) :
    Below (b + 1) Primary (Within S f Expr.height) := by
  intro ts rest e n hn he hts
  have hleaf : 1 ≤ f 1 := Nat.lt_of_le_of_lt (Nat.zero_le _) (h.step 0)
  cases he with
  | @parenthesized _ _ _ _ _ n _ he _ =>
    have he := hexpression (by omega) he (h.suffix (List.suffix_cons _ _) hts)
    have hlt := h.operand (Nat.lt_add_one n)
    omega
  | @object _ _ properties _ n hbody =>
    have hbody : tallest Property.height properties ≤ g n :=
      h.body h.sum.monotone (behind_entry.andThen OptionalComma.suffix) (andThen (h.entry hsum))
        (by omega) hbody hts
    have hstep := h.step n
    rw [Expr.height, Property.heights_eq]
    omega
  | name _ _ =>
    rw [Expr.height]
    exact hleaf
  | @call _ _ _ _ _ _ arguments n hname _ hM _ =>
    have hM := h.many h.sum.monotone (behind_additive.andThen OptionalComma.suffix) (andThen hsum)
      (by omega) hM (h.suffix ((List.suffix_cons _ _).trans (behind_name hname)) hts)
    have hstep := h.step n
    rw [Expr.height, Expr.heights_eq]
    omega
  | @spread _ _ _ _ n _ he =>
    have he := hsum (by omega) he (h.suffix (List.suffix_cons _ _) hts)
    have hstep := h.step n
    rw [Expr.height]
    omega
  | number _ =>
    rw [Expr.height]
    exact hleaf
  | string _ =>
    rw [Expr.height]
    exact hleaf

/-- Expressions are at most as tall as their levels allow. -/
theorem expressions (b : Nat) :
    Below b Assignment (Within S f Expr.height) ∧ Below b Additive (Within S g Expr.height) ∧
      Below b Primary (Within S f Expr.height) :=
  below_expressions h.additive (fun _ => h.assignment) (fun _ => h.primary) b

/-! ### Statements -/

/-- A declarator is as tall as its value. -/
theorem declared : Below b Declared (Within S f Declarator.height) := by
  intro ts rest d n hn hd hts
  cases hd with
  | plain _ => exact Nat.zero_le _
  | valued hname _ he =>
    exact (h.expressions b).1 hn he
      (h.suffix ((List.suffix_cons _ _).trans (behind_name hname)) hts)

theorem nextDeclared : Below b NextDeclared (Within S f Declarator.height) := by
  rintro _ rest d n hn ⟨-, hbreaks, hd⟩ hts
  exact h.declared hn hd (h.suffix (hbreaks.suffix.trans (List.suffix_cons _ _)) hts)

/-- A block is as tall as its tallest statement. -/
theorem braced (hP : Below b Statement (Within S f Stmt.height)) :
    Below b (Braced Statement) (Within S f fun block => tallest Stmt.height block.body) := by
  rintro _ rest _ n hn ⟨-, hbreaks, hM, -⟩ hts
  exact h.many h.operand.monotone (behind_statement.andThen Breaks.suffix) (andThen hP) hn hM
    (h.suffix (hbreaks.suffix.trans (List.suffix_cons _ _)) hts)

/-- A statement puts a node on top of its parts, and takes a level more. -/
theorem statement_succ (hP : Below b Statement (Within S f Stmt.height)) :
    Below (b + 1) Statement (Within S f Stmt.height) := by
  intro ts rest a n hn ha hts
  cases ha with
  | empty _ =>
    rw [Stmt.height]
    exact Nat.lt_of_le_of_lt (Nat.zero_le _) (h.step 0)
  | @block _ _ block n hblock =>
    have hblock : tallest Stmt.height block.body ≤ f n := h.braced hP (by omega) hblock hts
    have hlt := h.operand (Nat.lt_add_one n)
    rw [Stmt.height, Stmt.heights_eq]
    omega
  | @declaration _ _ _ _ _ _ first more n m _ hfirst hM _ =>
    have htail := h.suffix (List.suffix_cons _ _) hts
    have hM : tallest Declarator.height more ≤ f m :=
      h.many h.operand.monotone behind_nextDeclared h.nextDeclared (Nat.le_refl m) hM
        (h.suffix (behind_declared hfirst) htail)
    have hfirst : first.height ≤ f n := h.declared (Nat.le_refl n) hfirst htail
    have hn := h.operand.monotone (le_max_left n m)
    have hm := h.operand.monotone (le_max_right n m)
    have hlt := h.operand (Nat.lt_add_one (max n m))
    rw [Stmt.height, tallest]
    omega
  | @result _ _ _ _ e n _ he _ =>
    have he : e.height ≤ g n :=
      (h.expressions n).2.1 (Nat.le_refl n) he (h.suffix (List.suffix_cons _ _) hts)
    have hstep := h.step n
    rw [Stmt.height]
    omega
  | @function _ _ _ _ _ _ _ _ _ body n _ hname _ hM _ hbody =>
    have hparams := (behind_parameter.andThen OptionalComma.suffix).many hM
    have htail := h.suffix ((List.suffix_cons _ _).trans (behind_name hname))
      (h.suffix (List.suffix_cons _ _) hts)
    have hbody : tallest Stmt.height body.body ≤ f n :=
      h.braced hP (by omega) hbody (h.suffix ((List.suffix_cons _ _).trans hparams) htail)
    have hlt := h.operand (Nat.lt_add_one n)
    rw [Stmt.height, Stmt.heights_eq]
    omega
  | @expression _ _ _ e n _ he _ =>
    have he : e.height ≤ f n := (h.expressions n).1 (Nat.le_refl n) he hts
    have hlt := h.operand (Nat.lt_add_one n)
    rw [Stmt.height]
    omega

/-- A program is no higher than `f` of the levels it takes. -/
theorem height_le {file : String} {p : Program} (hp : Derivable file ts p n) (hts : S ts) :
    p.height ≤ f n := by
  obtain ⟨hbreaks, hM⟩ := hp
  have hstatement := below_statement (fun _ => h.statement_succ) n
  exact h.many h.operand.monotone (behind_statement.andThen Breaks.suffix) (andThen hstatement)
    (Nat.le_refl n) hM (h.suffix hbreaks.suffix hts)

end Bounds

/-- An expression without operators takes a level. -/
theorem Primary.need_pos {e : Expr} (h : Primary ts rest e n) : 0 < n := by
  cases h <;> omega

end Phrase

/-! ### All programs -/

/-- The sum of the numbers up to `n`. -/
def triangle (n : Nat) : Nat := n * (n + 1) / 2

theorem triangle_succ (n : Nat) : triangle (n + 1) = triangle n + (n + 1) := by
  have hsplit : (n + 1) * (n + 1 + 1) = n * (n + 1) + (n + 1) * 2 := by ring
  rw [triangle, triangle, hsplit, Nat.add_mul_div_right _ _ (by decide)]

/-- Triangular numbers grow. -/
theorem strictMono_triangle : StrictMono triangle := by
  refine strictMono_nat_of_lt_succ fun n => ?_
  rw [triangle_succ]
  omega

/-- The height of the highest program that takes `n` levels. -/
def maxHeight : Nat → Nat
  | 0 => 0
  | n + 1 => triangle n + 1

/-- More levels allow for higher trees. -/
theorem strictMono_maxHeight : StrictMono maxHeight := by
  refine strictMono_nat_of_lt_succ fun n => ?_
  cases n with
  | zero => decide
  | succ n =>
    have hlt := strictMono_triangle (Nat.lt_add_one n)
    simp only [maxHeight]
    omega

namespace Phrase

variable {b n : Nat} {ts rest : List Token}

/-- Terms that take `n` levels are fewer than `n`, and each puts a node on top of what is left of
it. -/
theorem height_sumOf_le {more : List (Token × Expr)}
    (hoperand : Below b Primary (Within (fun _ => True) maxHeight Expr.height)) (hn : n ≤ b)
    (h : Terms ts rest more n) (left : Expr) :
    (sumOf left more).height ≤ max left.height (triangle (n - 1)) + (n - 1) := by
  -- The tree of what has been read grows with each term, so it varies.
  induction more generalizing ts n left with
  | nil =>
    cases h
    exact le_max_left _ _
  | cons part more ih =>
    cases h with
    | @cons operator _ _ _ e _ k m _ he hmore =>
      have hsum := ih (by omega) hmore (.binary left operator e ⟨left.span.start, e.span.stop⟩)
      have hheight : e.height ≤ maxHeight k := hoperand (by omega) he trivial
      obtain ⟨k, rfl⟩ : ∃ i, k = i + 1 := ⟨k - 1, by have := he.need_pos; omega⟩
      -- An operand is lower than the triangular number of its levels and one more.
      have hk := strictMono_triangle.monotone (le_max_left (k + 1) m)
      have hm : triangle (m - 1) ≤ triangle (max (k + 1) m) :=
        strictMono_triangle.monotone (by omega)
      rw [triangle_succ] at hk
      rw [maxHeight] at hheight
      rw [Expr.height] at hsum
      rw [sumOf, Nat.add_sub_cancel]
      omega

/-- What bounds the height of all programs. -/
theorem bounds_maxHeight : Bounds (fun _ => True) maxHeight triangle where
  suffix _ _ := trivial
  operand := strictMono_maxHeight
  sum := strictMono_triangle
  step n := Nat.lt_add_one (triangle n)
  additive b hoperand := by
    intro ts rest e n hn he _
    cases he with
    | @intro _ _ _ first more k m hfirst hmore _ =>
      have hfold := height_sumOf_le hoperand (by omega) hmore first
      have hheight : first.height ≤ maxHeight k := hoperand (by omega) hfirst trivial
      -- A sum takes a level, so the bound of sums is that of one level less and something more.
      obtain ⟨i, hi⟩ : ∃ i, max k m = i + 1 := ⟨max k m - 1, by have := hfirst.need_pos; omega⟩
      have hk := strictMono_maxHeight.monotone (show k ≤ i + 1 by omega)
      have hm := strictMono_triangle.monotone (show m - 1 ≤ i by omega)
      rw [maxHeight] at hk
      rw [hi, triangle_succ]
      omega

end Phrase

/-- A program is no higher than the levels it takes allow. -/
theorem Derivable.height_le_maxHeight {file : String} {ts : List Token} {p : Program} {n : Nat}
    (h : Derivable file ts p n) : p.height ≤ maxHeight n :=
  Phrase.bounds_maxHeight.height_le h trivial

/-! ### Programs with plain sums -/

/-- No additive operator stands right behind a closing parenthesis or brace. -/
def PlainSums (ts : List Token) : Prop :=
  ts.IsChain fun t u => u.kind = .additiveOperator → t.kind ≠ .closeParen ∧ t.kind ≠ .closeCurly

namespace PlainSums

variable {ts rest : List Token}

theorem suffix (hs : rest <:+ ts) (h : PlainSums ts) : PlainSums rest := List.IsChain.suffix h hs

/-- What is right in front of an additive operator. -/
theorem kind_ne {closing operator : Token} (h : PlainSums ts) (rest : List Token)
    (hs : closing :: operator :: rest <:+ ts) (ho : operator.kind = .additiveOperator) :
    closing.kind ≠ .closeParen ∧ closing.kind ≠ .closeCurly :=
  (List.isChain_cons_cons.1 (h.suffix hs)).1 ho

end PlainSums

namespace Phrase

variable {b n : Nat} {ts rest : List Token}

/-- In plain sums only the last operand contains anything. -/
theorem Primary.height_of_operator {operator : Token} {e : Expr}
    (h : Primary ts (operator :: rest) e n) (ho : operator.kind = .additiveOperator)
    (hts : PlainSums ts) : e.height = 1 := by
  cases h with
  | parenthesized _ he hc =>
    refine absurd hc (hts.kind_ne rest ?_ ho).1
    exact (behind_assignment he).trans (List.suffix_cons _ _)
  | object hbody =>
    obtain ⟨-, hM, hbreaks, hc⟩ := hbody
    have hM := ((behind_entry.andThen OptionalComma.suffix).after Breaks.suffix).many hM
    refine absurd hc (hts.kind_ne rest ?_ ho).2
    exact (hbreaks.suffix.trans hM).trans (List.suffix_cons _ _)
  | call hname _ hM hc =>
    have hM := (behind_additive.andThen OptionalComma.suffix).many hM
    refine absurd hc (hts.kind_ne rest ?_ ho).1
    exact hM.trans ((List.suffix_cons _ _).trans (behind_name hname))
  | spread _ he =>
    -- The operand of a spread is a sum, and takes all operators there are.
    obtain ⟨-, -, hne⟩ := he
    exact absurd (by rw [firstKind_cons, ho]) hne
  | name _ _ => rw [Expr.height]
  | number _ => rw [Expr.height]
  | string _ => rw [Expr.height]

/-- A term puts a node on top of what is left of it, and only the last one may be higher itself. -/
theorem height_sumOf_le_of_plainSums {more : List (Token × Expr)}
    (hoperand : Below b Primary (Within PlainSums id Expr.height)) (hn : n ≤ b)
    (h : Terms ts rest more n) (hts : PlainSums ts) (left : Expr) :
    (sumOf left more).height ≤ max left.height 1 + (n - 1) := by
  induction more generalizing ts n left with
  | nil =>
    cases h
    exact le_max_left _ _
  | cons part more ih =>
    cases h with
    | @cons operator _ _ _ e _ k m _ he hmore =>
      have htail : PlainSums _ := hts.suffix (List.suffix_cons _ _)
      have hsum := ih (by omega) hmore (htail.suffix (behind_primary he))
        (.binary left operator e ⟨left.span.start, e.span.stop⟩)
      have hpos := he.need_pos
      rw [Expr.height] at hsum
      rw [sumOf, Nat.add_sub_cancel]
      -- An operand in front of another operator is a leaf; the last one may be anything.
      cases hmore with
      | nil =>
        have hheight : e.height ≤ k := hoperand (by omega) he htail
        omega
      | cons ho _ _ =>
        have hheight := he.height_of_operator ho htail
        omega

/-- What bounds the height of programs with plain sums. -/
theorem bounds_of_plainSums : Bounds PlainSums id id where
  suffix := PlainSums.suffix
  operand := strictMono_id
  sum := strictMono_id
  step := Nat.lt_add_one
  additive b hoperand := by
    intro ts rest e n hn he hts
    cases he with
    | @intro _ _ _ first more k m hfirst hmore _ =>
      have hfold := height_sumOf_le_of_plainSums hoperand (by omega) hmore
        (hts.suffix (behind_primary hfirst)) first
      have hheight : first.height ≤ k := hoperand (by omega) hfirst hts
      show _ ≤ max k m
      -- The first operand is the tallest part if it is the only one, and a leaf if not.
      cases hmore with
      | nil => exact hheight.trans (le_max_left k 0)
      | cons ho _ _ =>
        have hleaf := hfirst.height_of_operator ho hts
        omega

end Phrase

/-- With plain sums a program is no higher than the number of levels it takes. -/
theorem Derivable.height_le_of_plainSums {file : String} {ts : List Token} {p : Program} {n : Nat}
    (h : Derivable file ts p n) (hts : PlainSums ts) : p.height ≤ n :=
  Phrase.bounds_of_plainSums.height_le h hts

end Scriptlet
