import Scriptlet.Proofs.Phrase

/-!
# Induction on levels

Expressions contain each other in many ways, some of them inside lists and bodies. What all these
ways have in common is that a statement, an assignment and a primary contain nothing that takes as
many levels as they do themselves. So whatever is to be known of all phrases of a kind is proved for
those that take at most `b` levels, by induction on `b`.

`Phrase.Below b P Q` says that the phrases of `P` that take at most `b` levels are phrases of `Q`.
It goes through lists, separators and bodies, which leaves to a proof by this induction the
nonterminals themselves.

The first thing proved in this way is that a phrase stands in front of what is behind it: the tokens
behind a phrase are the last of those it was read from.

## Main definitions

* `Phrase.Below`: what holds up to a number of levels;
* `Phrase.Behind`: phrases that stand in front of what is behind them.

## Main results

* `Phrase.below_expressions`, `Phrase.below_statement`: induction on levels;
* `Phrase.behind_assignment`, `Phrase.behind_statement` and others: what stands behind a phrase.
-/

namespace Scriptlet.Phrase

variable {α : Type} {P Q : Phrase α} {R : List Token → List Token → Prop} {b n : Nat}
  {ts rest : List Token}

/-- The phrases of `P` that take at most `b` levels are phrases of `Q`. -/
def Below (b : Nat) (P Q : Phrase α) : Prop :=
  ∀ ⦃ts rest a n⦄, n ≤ b → P ts rest a n → Q ts rest a n

/-! ### Induction on levels -/

namespace Below

/-- Below a level, what holds of phrases holds of any number of them. -/
theorem many (h : Below b P Q) : Below b (Many P) (Many Q) := by
  intro ts rest as n hn hM
  induction hM with
  | nil ts => exact .nil ts
  | cons hP _ ih => exact .cons (h (by omega) hP) (ih (by omega))

theorem andThen (h : Below b P Q) : Below b (Then P R) (Then Q R) := by
  rintro ts rest a n hn ⟨hP, hR⟩
  exact ⟨h hn hP, hR⟩

theorem after (h : Below b P Q) : Below b (After R P) (After R Q) := by
  rintro ts rest a n hn ⟨hR, hP⟩
  exact ⟨hR, h hn hP⟩

/-- Below a level, what holds of phrases holds of those between braces. -/
theorem body (h : Below b P Q) : Below b (Body P) (Body Q) := by
  rintro ts rest a n hn ⟨ho, hM, hbreaks, hc⟩
  exact ⟨ho, h.after.many hn hM, hbreaks, hc⟩

theorem braced {P Q : Phrase Stmt} (h : Below b P Q) : Below b (Braced P) (Braced Q) := by
  rintro ts rest a n hn ⟨ho, hbreaks, hM, hc⟩
  exact ⟨ho, hbreaks, h.andThen.many hn hM, hc⟩

end Below

/-- What holds of all expressions: it is passed on from operands to sums, and from what takes at
most `b` levels to what takes one more. -/
theorem below_expressions {A S O : Phrase Expr}
    (hsum : ∀ b, Below b Primary O → Below b Additive S)
    (hassignment : ∀ b, Below b Additive S → Below b Assignment A → Below (b + 1) Assignment A)
    (hprimary : ∀ b, Below b Additive S → Below b Assignment A → Below (b + 1) Primary O)
    (b : Nat) :
    Below b Assignment A ∧ Below b Additive S ∧ Below b Primary O := by
  induction b with
  | zero =>
    have hoperand : Below 0 Primary O := by
      intro ts rest e n hn h
      cases h <;> omega
    refine ⟨fun ts rest e n hn h => ?_, hsum 0 hoperand, hoperand⟩
    cases h <;> omega
  | succ b ih =>
    -- An operand may be a level higher than the sums and assignments inside of it.
    obtain ⟨ihassignment, ihsum, -⟩ := ih
    have hoperand := hprimary b ihsum ihassignment
    exact ⟨hassignment b ihsum ihassignment, hsum (b + 1) hoperand, hoperand⟩

/-- What holds of all statements is passed on from those that take at most `b` levels to those that
take one more. -/
theorem below_statement {T : Phrase Stmt}
    (h : ∀ b, Below b Statement T → Below (b + 1) Statement T) (b : Nat) : Below b Statement T := by
  induction b with
  | zero =>
    intro ts rest a n hn hs
    cases hs <;> omega
  | succ b ih => exact h b ih

/-! ### What stands behind a phrase -/

/-- Behind line breaks there is the end of the tokens that start with them. -/
theorem Breaks.suffix (h : Breaks ts rest) : rest <:+ ts := by
  induction h with
  | nil ts => exact List.suffix_refl ts
  | cons _ _ ih => exact ih.trans (List.suffix_cons _ _)

theorem OptionalComma.suffix (h : OptionalComma ts rest) : rest <:+ ts := by
  cases h with
  | absent => exact List.suffix_refl ts
  | present => exact List.suffix_cons _ _

theorem End.suffix (h : End ts rest) : rest <:+ ts := by
  cases h with
  | semicolon => exact List.suffix_cons _ _
  | lineBreak => exact List.suffix_cons _ _
  | brace => exact List.suffix_refl ts

/-- Of the tokens that a phrase is read from, those behind it are the last. -/
def Behind (P : Phrase α) : Prop := ∀ ⦃ts rest a n⦄, P ts rest a n → rest <:+ ts

namespace Behind

/-- What stands behind the last of some phrases stands behind them all. -/
theorem many (hP : Behind P) : Behind (Many P) := by
  intro ts rest as n h
  induction h with
  | nil ts => exact List.suffix_refl ts
  | cons h _ ih => exact ih.trans (hP h)

theorem andThen (hP : Behind P) (hR : ∀ {us vs}, R us vs → vs <:+ us) : Behind (Then P R) := by
  rintro ts rest a n ⟨h, hsep⟩
  exact (hR hsep).trans (hP h)

theorem after (hP : Behind P) (hR : ∀ {us vs}, R us vs → vs <:+ us) : Behind (After R P) := by
  rintro ts rest a n ⟨hsep, h⟩
  exact (hP h).trans (hR hsep)

/-- What stands behind a closing brace stands behind the phrases in front of it. -/
theorem body (hP : Behind P) : Behind (Body P) := by
  rintro _ rest _ n ⟨-, hM, hbreaks, -⟩
  have hM := (hP.after Breaks.suffix).many hM
  exact ((List.suffix_cons _ _).trans (hbreaks.suffix.trans hM)).trans (List.suffix_cons _ _)

theorem braced {P : Phrase Stmt} (hP : Behind P) : Behind (Braced P) := by
  rintro _ rest _ n ⟨-, hbreaks, hM, -⟩
  have hM := (hP.andThen Breaks.suffix).many hM
  exact ((List.suffix_cons _ _).trans (hM.trans hbreaks.suffix)).trans (List.suffix_cons _ _)

end Behind

/-- Behind a name there is the end of the tokens that start with it. -/
theorem behind_name : Behind Name := by
  rintro _ rest _ _ ⟨-⟩
  exact List.suffix_cons _ _

/-- Behind a key there is the end of the tokens that start with it. -/
theorem behind_key : Behind Key := by
  intro ts rest key n h
  cases h with
  | plain h => exact behind_name h
  | bracketed _ h =>
    exact ((List.suffix_cons _ _).trans (behind_name h)).trans (List.suffix_cons _ _)

theorem behind_binding : Behind Binding := by
  intro ts rest p n h
  cases h with
  | plain h => exact behind_name h
  | renamed h _ h' => exact (behind_name h').trans ((List.suffix_cons _ _).trans (behind_name h))

theorem behind_parameter : Behind Parameter := by
  intro ts rest p n h
  cases h with
  | name h => exact behind_name h
  | pattern h => exact (behind_binding.andThen OptionalComma.suffix).body h

/-- The phrases that stand in front of what is behind them. -/
def InFront : Phrase α := fun ts rest _ _ => rest <:+ ts

theorem behind_inFront : Behind (InFront : Phrase α) := fun _ _ _ _ h => h

/-- What stands behind terms stands behind their operands. -/
theorem inFront_terms {more : List (Token × Expr)} (hoperand : Below b Primary InFront) (hn : n ≤ b)
    (h : Terms ts rest more n) : rest <:+ ts := by
  induction more generalizing ts n with
  | nil =>
    cases h
    exact List.suffix_refl _
  | cons part more ih =>
    cases h with
    | cons _ he hmore =>
      have hmore := ih (by omega) hmore
      have he : _ <:+ _ := hoperand (by omega) he
      exact (hmore.trans he).trans (List.suffix_cons _ _)

theorem inFront_additive (hoperand : Below b Primary InFront) : Below b Additive InFront := by
  rintro ts rest _ n hn ⟨hfirst, hmore, -⟩
  have hfirst : _ <:+ _ := hoperand (by omega) hfirst
  exact (inFront_terms hoperand (by omega) hmore).trans hfirst

/-- What stands behind an entry stands behind its key, or behind what it spreads. -/
theorem inFront_entry (hsum : Below b Additive InFront) : Below b Entry InFront := by
  intro ts rest p n hn h
  cases h with
  | spread _ he =>
    have he : _ <:+ _ := hsum (by omega) he
    exact he.trans (List.suffix_cons _ _)
  | keyValue hkey _ he =>
    have he : _ <:+ _ := hsum hn he
    exact he.trans ((List.suffix_cons _ _).trans (behind_key hkey))
  | shorthand hkey => exact behind_key hkey

/-- What stands behind an assignment stands behind its value. -/
theorem inFront_assignment (hsum : Below b Additive InFront) (hvalue : Below b Assignment InFront) :
    Below (b + 1) Assignment InFront := by
  intro ts rest e n hn h
  cases h with
  | sum he =>
    have he : _ <:+ _ := hsum (by omega) he
    exact he
  | assign hleft _ hright =>
    have hleft : _ <:+ _ := hsum (by omega) hleft
    have hright : _ <:+ _ := hvalue (by omega) hright
    exact hright.trans ((List.suffix_cons _ _).trans hleft)

/-- What stands behind an expression without operators is the end of what it starts. -/
theorem inFront_primary (hsum : Below b Additive InFront)
    (hexpression : Below b Assignment InFront) :
    Below (b + 1) Primary InFront := by
  intro ts rest e n hn h
  cases h with
  | parenthesized _ he _ =>
    -- What is between parentheses takes a level less.
    have he : _ <:+ _ := hexpression (by omega) he
    exact ((List.suffix_cons _ _).trans he).trans (List.suffix_cons _ _)
  | object hbody =>
    exact (behind_inFront.andThen OptionalComma.suffix).body
      ((inFront_entry hsum).andThen.body (by omega) hbody)
  | name hname _ => exact behind_name hname
  | call hname _ hM _ =>
    have hM := (behind_inFront.andThen OptionalComma.suffix).many (hsum.andThen.many (by omega) hM)
    exact (List.suffix_cons _ _).trans (hM.trans ((List.suffix_cons _ _).trans (behind_name hname)))
  | spread _ he =>
    have he : _ <:+ _ := hsum (by omega) he
    exact he.trans (List.suffix_cons _ _)
  | number _ => exact List.suffix_cons _ _
  | string _ => exact List.suffix_cons _ _

/-- The end of an expression stands behind its start, whatever its levels. -/
theorem inFront_expressions (b : Nat) :
    Below b Assignment InFront ∧ Below b Additive InFront ∧ Below b Primary InFront :=
  below_expressions (fun _ => inFront_additive) (fun _ => inFront_assignment)
    (fun _ => inFront_primary) b

theorem behind_assignment : Behind Assignment := fun _ _ _ n h =>
  (inFront_expressions n).1 (Nat.le_refl n) h

theorem behind_additive : Behind Additive := fun _ _ _ n h =>
  (inFront_expressions n).2.1 (Nat.le_refl n) h

theorem behind_primary : Behind Primary := fun _ _ _ n h =>
  (inFront_expressions n).2.2 (Nat.le_refl n) h

theorem behind_entry : Behind Entry := fun _ _ _ n h =>
  inFront_entry (inFront_expressions n).2.1 (Nat.le_refl n) h

theorem behind_declared : Behind Declared := by
  intro ts rest d n h
  cases h with
  | plain hname => exact behind_name hname
  | valued hname _ he =>
    exact (behind_assignment he).trans ((List.suffix_cons _ _).trans (behind_name hname))

theorem behind_nextDeclared : Behind NextDeclared := by
  rintro _ rest d n ⟨-, hbreaks, hd⟩
  exact ((behind_declared hd).trans hbreaks.suffix).trans (List.suffix_cons _ _)

/-- What stands behind a statement is the end of what it starts. -/
theorem inFront_statement (h : Below b Statement InFront) : Below (b + 1) Statement InFront := by
  intro ts rest a n hn hs
  cases hs with
  | empty _ => exact List.suffix_cons _ _
  | block hblock => exact behind_inFront.braced (h.braced (by omega) hblock)
  | declaration _ hfirst hM hend =>
    have hM := behind_nextDeclared.many hM
    exact (hend.suffix.trans (hM.trans (behind_declared hfirst))).trans (List.suffix_cons _ _)
  | result _ he hend =>
    exact (hend.suffix.trans (behind_additive he)).trans (List.suffix_cons _ _)
  | function _ hname _ hM _ hbody =>
    have hM := (behind_parameter.andThen OptionalComma.suffix).many hM
    have hbody := behind_inFront.braced (h.braced (by omega) hbody)
    refine List.IsSuffix.trans ?_ (List.suffix_cons _ _)
    refine List.IsSuffix.trans ?_ (behind_name hname)
    exact (hbody.trans ((List.suffix_cons _ _).trans hM)).trans (List.suffix_cons _ _)
  | expression _ he hend => exact hend.suffix.trans (behind_assignment he)

/-- The end of the tokens that start with a statement stands behind it. -/
theorem behind_statement : Behind Statement := fun _ _ _ n h =>
  below_statement (fun _ => inFront_statement) n (Nat.le_refl n) h

end Scriptlet.Phrase
