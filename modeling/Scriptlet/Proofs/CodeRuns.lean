import Scriptlet.Proofs.LevelCount
import Scriptlet.Proofs.ProductionCode

/-!
# Runs of code

The code of a production is run as it stands: a loop goes on as long as its test holds, and a call
runs the code of another production, however many levels there are. Nothing bounds these runs from
outside.

That such a run does what the production does can be seen from the code. Code is *taking* if it
takes a token whenever it succeeds, and it is *below* a rank if up to its first token it calls only
productions of lower ranks, and loops only over steps that take a token. All productions are below
their ranks, and on such code a loop is never cut short.

What a run comes to on its way are pieces of code and the sessions they are run from. Each of these
sessions is reached step by step from the one at the start.

## Main definitions

* `Code.Taking`, `Code.Below`, `Name.rank`: what can be seen from code;
* `Evaluates`: runs of code;
* `Reaches`: what is run on the way.

## Main results

* `Name.code_below`: what a production calls up to its first token is of lower rank;
* `Evaluates.eq_within`: a run does what the production does;
* `Reaches.below_or_lt`: between two tokens calls go down in rank;
* `Reaches.exists_run`: what is run on the way is run from a session that is reached step by step.
-/

namespace Scriptlet

open Scriptlet.Parser

variable {α β : Type}

/-! ### Taking tokens -/

/-- The step takes a token whenever it succeeds. -/
def Primitive.Taking : Primitive α → Prop
  | .eat _ | .refuse _ _ | .number => True
  | .pure _ | .get | .deepen => False

/-- The production takes a token whenever it succeeds. -/
def Name.Taking : Name α → Prop
  | .element _ => True
  | .listOf _ | .arguments | .parameters | .statementList _ | .program | .skipLineBreaks
  | .endOfStatement => False

/-- As its text shows, the code takes a token whenever it succeeds. -/
def Code.Taking : {α : Type} → Code α → Prop
  | _, .primitive p => p.Taking
  | _, .bind c f => c.Taking ∨ ∀ a, (f a).Taking
  | _, .nested c => c.Taking
  | _, .levelled c => c.Taking
  | _, .loop _ _ => False
  | _, .call n => n.Taking

/-! ### The order of calls -/

/-- Productions are called up to the first token in the order of their ranks. -/
def Element.rank : Element α → Nat
  | .emptyStatement | .block | .declaration | .resultStatement | .function | .parenthesized
  | .spread | .literal | .identifier | .object | .objectPattern => 0
  | .callable | .parameter | .patternProperty => 1
  | .primary => 2
  | .additive | .property => 3
  | .assignment | .callArgument => 4
  | .expression => 5
  | .expressionStatement => 6
  | .statement => 7

theorem Element.rank_lt (e : Element α) : e.rank < 8 := by
  cases e <;> decide

/-- Productions are called up to the first token in the order of their ranks. -/
def Name.rank : Name α → Nat
  | .element e => e.rank
  | .listOf _ | .statementList _ => 8
  | .arguments | .parameters | .program => 9
  | .skipLineBreaks | .endOfStatement => 0

/-- A bound of all ranks. -/
def Name.top : Nat := 10

/-- Up to its first token the code calls only productions below the rank; and loops only have steps
that take a token. -/
def Code.Below : {α : Type} → Code α → Nat → Prop
  | _, .primitive _, _ => True
  | _, .bind c f, k =>
    c.Below k ∧ ((∀ a, (f a).Below k) ∨ c.Taking ∧ ∀ a, (f a).Below Name.top)
  | _, .nested c, k => c.Below k
  | _, .levelled c, k => c.Below k
  | _, .loop _ step, k => step.Taking ∧ step.Below k
  | _, .call n, k => n.rank < k

namespace Code

variable {k : Nat}

@[simp] theorem taking_bind (c : Code α) (f : α → Code β) :
    (c >>= f).Taking ↔ c.Taking ∨ ∀ a, (f a).Taking := Iff.rfl

@[simp] theorem below_bind (c : Code α) (f : α → Code β) :
    (c >>= f).Below k ↔
      c.Below k ∧ ((∀ a, (f a).Below k) ∨ c.Taking ∧ ∀ a, (f a).Below Name.top) := Iff.rfl

@[simp] theorem below_pure (a : α) : (pure a : Code α).Below k := trivial

@[simp] theorem below_get : get.Below k := trivial

@[simp] theorem taking_eat (kind : Kind) : (eat kind).Taking := trivial

@[simp] theorem below_eat (kind : Kind) : (eat kind).Below k := trivial

@[simp] theorem taking_run (e : Element α) : (run e).Taking := trivial

@[simp] theorem below_run (e : Element α) : (run e).Below k ↔ e.rank < k := Iff.rfl

@[simp] theorem below_ite (p : Prop) [Decidable p] (c d : Code α) :
    (if p then c else d).Below k ↔ if p then c.Below k else d.Below k := by
  split <;> rfl

@[simp] theorem below_call (n : Name α) : (call n).Below k ↔ n.rank < k := Iff.rfl

@[simp] theorem below_loop (test : Session → Bool) (step : Code α) :
    (loop test step).Below k ↔ step.Taking ∧ step.Below k := Iff.rfl

/-- What an expression without operators calls first is of a lower rank. -/
theorem below_primaryAt (kind? : Option Kind) : (primaryAt kind?).Below 2 := by
  cases kind? with
  | none => simp [primaryAt, Element.rank]
  | some kind => cases kind <;> simp [primaryAt, Element.rank]

/-- What a statement calls first is of a lower rank. -/
theorem below_statementAt (kind? : Option Kind) : (statementAt kind?).Below 7 := by
  cases kind? with
  | none => simp [statementAt, Element.rank]
  | some kind => cases kind <;> simp [statementAt, Element.rank]

theorem below_endAt (kind? : Option Kind) : (endAt kind?).Below k := by
  cases kind? with
  | none => simp [endAt]
  | some kind => cases kind <;> simp [endAt]

/-- Behind the left side of an assignment an operator comes first, so anything may be called. -/
theorem below_assigned (left : Expr) : (assigned left).Below k := by
  refine ⟨trivial, .inl fun s => ?_⟩
  dsimp only
  split
  · simp [Element.rank, Name.top]
  · simp

@[simp] theorem below_expectBody : expectBody.Below k := by
  simp [expectBody, Below]

end Code

open Code in
/-- Up to its first token a production calls only productions of lower ranks. -/
theorem Element.code_below (e : Element α) : e.code.Below e.rank := by
  cases e with
  -- These three branch on the lookahead, so their branches are looked at one by one.
  | statement => exact ⟨trivial, .inl fun s => below_statementAt s.kind?⟩
  | primary => exact ⟨trivial, .inl fun s => below_primaryAt s.kind?⟩
  | assignment => exact ⟨by simp [rank], .inl below_assigned⟩
  | _ =>
    simp [code, rank, Code.Below, Name.rank, Name.top, Taking, Primitive.Taking, bodyOf, member,
      propertyKey, declarator, Code.optionally, optionalComma]

open Code in
/-- Up to its first token a production calls only productions of lower ranks. -/
theorem Name.code_below (n : Name α) : n.code.Below n.rank := by
  cases n with
  | element e => exact e.code_below
  | listOf e => exact ⟨by simp, by simp [rank, e.rank_lt, optionalComma]⟩
  | endOfStatement => exact ⟨trivial, .inl fun s => below_endAt s.kind?⟩
  | _ => simp [code, rank, Element.rank, top]

/-- What is below a rank is below all higher ones. -/
theorem Code.Below.mono {c : Code α} {k k' : Nat} (h : c.Below k) (hk : k ≤ k') : c.Below k' := by
  induction c with
  | primitive p => trivial
  | bind c f ihc ihf =>
    refine ⟨ihc h.1, ?_⟩
    -- Behind a token the rank does not matter.
    rcases h.2 with hf | hf
    · exact .inl fun a => ihf a (hf a)
    · exact .inr hf
  | nested c ih => exact ih h
  | levelled c ih => exact ih h
  | loop test step ih => exact ⟨h.1, ih h.2⟩
  | call n => exact Nat.lt_of_lt_of_le h hk

/-! ### Code as parsers -/

instance (p : Primitive α) : Built p.run := by
  cases p <;> rw [Primitive.run] <;> infer_instance

/-- A step that takes a token, by its text, makes progress. -/
theorem Primitive.progressing {p : Primitive α} (h : p.Taking) : Progressing p.run := by
  cases p with
  | eat kind => exact inferInstanceAs (Progressing (Parser.eat kind))
  | refuse message wanted =>
    refine ⟨fun hrun => ?_⟩
    rw [run, Parser.refuse] at hrun
    split at hrun <;> cases hrun
  | number => exact inferInstanceAs (Progressing Grammar.numberLiteral)
  | pure _ | get | deepen => exact h.elim

/-- No parser puts tokens back. -/
theorem Parser.Built.remaining_le {p : Parser α} (h : Built p) {s s' : Session} {a : α}
    (hp : p s = .ok a s') : s'.remaining ≤ s.remaining := by
  obtain ⟨c, hc, -⟩ := h.stepwise.ok hp
  exact hc.remaining_le

/-- No parser leaves more levels than it has found. -/
theorem Parser.Built.budget_le {p : Parser α} (h : Built p) {s s' : Session} {a : α}
    (hp : p s = .ok a s') : s'.budget ≤ s.budget := by
  obtain ⟨l, hl⟩ := h.exists_trail s
  have hcounted := hl.counted
  rw [final_of_ok hp] at hcounted
  have := hcounted.le
  rw [Session.budget, hcounted.maxDepth, Session.budget]
  omega

/-- Giving back levels takes no token and puts none back. -/
theorem Parser.Progressing.leaving {p : Parser α} (hp : Progressing p) (depth : Session → Nat) :
    Progressing (leaving (fun s => s.withDepth (depth s)) p) where
  lt h := by
    rw [Parser.leaving] at h
    split at h <;> cases h
    rename_i hrun
    have hlt := hp.lt hrun
    exact hlt

namespace Code

/-- Code is put together from the combinators of the library. -/
theorem built (c : Code α) (b : Nat) : Built (c.within b) := by
  induction c generalizing b with
  | primitive p => exact inferInstanceAs (Built p.run)
  | bind c f ihc ihf => exact .bind (ihc b) fun a => ihf a b
  | nested c ih => exact .nested (ih (b - 1))
  | levelled c ih => exact .levelled (ih b)
  | loop test step ih => exact .repeatWhile test (ih b)
  | call n => exact inferInstanceAs (Built (n.within b))

/-- Code that takes a token, by its text, makes progress. -/
theorem Taking.progressing {c : Code α} (h : c.Taking) (b : Nat) : Progressing (c.within b) := by
  induction c generalizing b with
  | primitive p => exact Primitive.progressing h
  | bind c f ihc ihf =>
    refine ⟨fun hrun => ?_⟩
    obtain ⟨a, s₁, hc, hf⟩ := bind_eq_ok hrun
    -- Either part may take the token, and the other one puts none back.
    rcases h with h | h
    · exact Nat.lt_of_le_of_lt ((f a).built b |>.remaining_le hf) ((ihc h b).lt hc)
    · exact Nat.lt_of_lt_of_le ((ihf a (h a) b).lt hf) ((c.built b).remaining_le hc)
  | nested c ih =>
    have := (ih h (b - 1)).leaving fun s => s.depth - 1
    exact inferInstanceAs (Progressing (deepen >>= fun _ => Parser.leaving _ (c.within (b - 1))))
  | levelled c ih => exact ⟨fun {s _ _} hrun => ((ih h b).leaving fun _ => s.depth).lt hrun⟩
  | loop test step => exact h.elim
  | call n =>
    cases n with
    | element e => exact inferInstanceAs (Progressing (e.within b))
    | _ => exact h.elim

end Code

/-! ### Runs of code -/

/-- What a run comes to when the session that it leaves is changed. -/
def leave (change : Session → Session) :
    EStateM.Result Error Session α → EStateM.Result Error Session α
  | .ok a s => .ok a (change s)
  | .error e s => .error e (change s)

theorem Parser.leaving_apply (change : Session → Session) (p : Parser α) (s : Session) :
    leaving change p s = leave change (p s) := by
  rw [leaving]
  cases p s <;> rfl

/-- A run of code from a session on comes to an end. A loop is a step and the loop again, as long as
its test holds, and a call is the code that is called. -/
inductive Evaluates : {α : Type} → Code α → Session → EStateM.Result Error Session α → Prop
  | primitive {α : Type} (p : Primitive α) (s : Session) : Evaluates (.primitive p) s (p.run s)
  | bindOk {α β : Type} {c : Code α} {f : α → Code β} {s s₁ : Session} {a : α}
      {r : EStateM.Result Error Session β} :
      Evaluates c s (.ok a s₁) → Evaluates (f a) s₁ r → Evaluates (.bind c f) s r
  | bindError {α β : Type} {c : Code α} {f : α → Code β} {s s₁ : Session} {e : Error} :
      Evaluates c s (.error e s₁) → Evaluates (.bind c f) s (.error e s₁)
  /-- No level is left. -/
  | full {α : Type} {c : Code α} {s : Session} :
      s.budget = 0 → Evaluates (.nested c) s (overLimit s)
  /-- A level is taken first and given back last. -/
  | nested {α : Type} {c : Code α} {s : Session} {r : EStateM.Result Error Session α} :
      0 < s.budget → Evaluates c (s.withDepth (s.depth + 1)) r →
      Evaluates (.nested c) s (leave (fun s' => s'.withDepth (s'.depth - 1)) r)
  /-- At the end there are as many levels as at the start. -/
  | levelled {α : Type} {c : Code α} {s : Session} {r : EStateM.Result Error Session α} :
      Evaluates c s r → Evaluates (.levelled c) s (leave (·.withDepth s.depth) r)
  /-- The test fails. -/
  | stop {α : Type} {test : Session → Bool} {step : Code α} {s : Session} :
      test s = false → Evaluates (.loop test step) s (.ok [] s)
  /-- The test holds: a step, and the loop again. Nothing asks whether the step took a token. -/
  | again {α : Type} {test : Session → Bool} {step : Code α} {s : Session}
      {r : EStateM.Result Error Session (List α)} :
      test s = true →
      Evaluates (do let a ← step; let as ← Code.loop test step; return a :: as) s r →
      Evaluates (.loop test step) s r
  /-- What is called is run as it stands. -/
  | call {α : Type} {n : Name α} {s : Session} {r : EStateM.Result Error Session α} :
      Evaluates n.code s r → Evaluates (.call n) s r

/-- A loop below a rank is so when its first step is written out. -/
theorem Code.Below.unfold {test : Session → Bool} {step : Code α} {k : Nat}
    (h : (Code.loop test step).Below k) :
    (do let a ← step; let as ← Code.loop test step; return a :: as).Below k :=
  ⟨h.2, .inl fun _ => ⟨h, .inl fun _ => trivial⟩⟩

/-- What comes behind code below a rank is below that rank, or a token has been taken. -/
theorem Code.Below.second {c : Code α} {f : α → Code β} {k : Nat} (h : (c.bind f).Below k) (a : α) :
    (f a).Below k ∨ c.Taking ∧ (f a).Below Name.top :=
  h.2.imp (· a) fun ⟨htaking, hf⟩ => ⟨htaking, hf a⟩

/-- Runs do what the code stands for, whatever number of levels there are to go beyond those that
are left. -/
theorem Evaluates.eq_within {c : Code α} {s : Session} {r : EStateM.Result Error Session α}
    (h : Evaluates c s r) {k : Nat} (hc : c.Below k) {b : Nat} (hb : s.budget ≤ b) :
    r = c.within b s := by
  -- The induction is on the run. There is a level less to go inside of `nested`, so `b` varies.
  induction h generalizing k b with
  | primitive p s => rfl
  | @bindOk _ _ c f s s₁ a r _ _ ihc ihf =>
    have hcs := (ihc hc.1 hb).symm
    -- The first part leaves no more levels than it has found.
    have hb₁ := Nat.le_trans ((c.built b).budget_le hcs) hb
    rw [Code.within, bind_of_ok hcs]
    rcases hc.second a with hf | ⟨-, hf⟩ <;> exact ihf hf hb₁
  | bindError _ ih =>
    rw [Code.within, bind_of_error (ih hc.1 hb).symm]
  | full h0 =>
    rw [Code.within, nested_of_budget_eq_zero h0]
  | nested hpos _ ih =>
    rw [Code.within, nested_of_budget_pos hpos, leaving_apply,
      ← ih hc (budget_nested (by omega))]
  | levelled _ ih =>
    rw [Code.within, Parser.levelled, leaving_apply, ← ih hc hb]
  | stop htest => exact (repeatWhile_of_not htest).symm
  | again htest _ ih =>
    -- The step takes a token, so the parser goes on with the loop as the run does.
    have := hc.1.progressing b
    rw [Code.within, repeatWhile_of_test htest]
    exact ih hc.unfold hb
  | call _ ih => exact (ih (Name.code_below _) hb).trans (Name.code_within _ hb)

namespace Evaluates

variable {c : Code α} {s s' : Session} {r : EStateM.Result Error Session α} {a : α} {k : Nat}

/-- A run of code puts no token back. -/
theorem remaining_le (h : Evaluates c s (.ok a s')) (hc : c.Below k) :
    s'.remaining ≤ s.remaining :=
  (c.built s.budget).remaining_le (h.eq_within hc (Nat.le_refl _)).symm

/-- A run of code that takes a token lessens what remains. -/
theorem remaining_lt (h : Evaluates c s (.ok a s')) (hc : c.Below k) (htaking : c.Taking) :
    s'.remaining < s.remaining :=
  (htaking.progressing s.budget).lt (h.eq_within hc (Nat.le_refl _)).symm

/-- A run of the code of a production does what the production does. -/
theorem eq_production {n : Name α} (h : Evaluates n.code s r) : r = n.parser s := by
  rw [n.parser_apply, h.eq_within n.code_below (Nat.le_refl _), n.code_within (Nat.le_refl _)]

end Evaluates

/-! ### What is run on the way -/

/-- When the second code is run from the second session on, the first code comes to be run from the
first session on. -/
inductive Reaches (d : Code β) (t : Session) : {α : Type} → Code α → Session → Prop
  | here : Reaches d t d t
  | first {α γ : Type} {c : Code α} {f : α → Code γ} {s : Session} :
      Reaches d t c s → Reaches d t (.bind c f) s
  | second {α γ : Type} {c : Code α} {f : α → Code γ} {s s₁ : Session} {a : α} :
      Evaluates c s (.ok a s₁) → Reaches d t (f a) s₁ → Reaches d t (.bind c f) s
  | nested {α : Type} {c : Code α} {s : Session} :
      0 < s.budget → Reaches d t c (s.withDepth (s.depth + 1)) → Reaches d t (.nested c) s
  | levelled {α : Type} {c : Code α} {s : Session} :
      Reaches d t c s → Reaches d t (.levelled c) s
  | again {α : Type} {test : Session → Bool} {step : Code α} {s : Session} :
      test s = true →
      Reaches d t (do let a ← step; let as ← Code.loop test step; return a :: as) s →
      Reaches d t (.loop test step) s
  | call {α : Type} {n : Name α} {s : Session} : Reaches d t n.code s → Reaches d t (.call n) s

/-- What is run on the way of code below a rank is below that rank, or a token has been taken. -/
theorem Reaches.below_or_lt {d : Code β} {t : Session} {c : Code α} {s : Session}
    (h : Reaches d t c s) {k : Nat} (hc : c.Below k) :
    (t.remaining ≤ s.remaining ∧ d.Below k) ∨ (t.remaining < s.remaining ∧ ∃ k', d.Below k') := by
  induction h generalizing k with
  | here => exact .inl ⟨Nat.le_refl _, hc⟩
  | first _ ih => exact ih hc.1
  | @second _ _ c f s s₁ a hr _ ih =>
    have hle := hr.remaining_le hc.1
    -- Behind a token any code may be run, but then less remains.
    rcases hc.second a with hf | ⟨htaking, hf⟩
    · exact (ih hf).imp (fun h => ⟨by omega, h.2⟩) fun h => ⟨by omega, h.2⟩
    · have hlt := hr.remaining_lt hc.1 htaking
      exact .inr ((ih hf).elim (fun h => ⟨by omega, _, h.2⟩) fun h => ⟨by omega, h.2⟩)
  | nested _ _ ih => exact ih hc
  | levelled _ ih => exact ih hc
  | again _ _ ih => exact ih hc.unfold
  | @call _ n s _ ih => exact (ih n.code_below).imp_left fun h => ⟨h.1, h.2.mono (Nat.le_of_lt hc)⟩

/-- What is run on the way is run from a session that is reached step by step. -/
theorem Reaches.exists_run {d : Code β} {t : Session} {c : Code α} {s : Session}
    (h : Reaches d t c s) {k : Nat} (hc : c.Below k) : ∃ ts, Session.Run s ts t := by
  induction h generalizing k with
  | here => exact ⟨[], .refl t⟩
  | first _ ih => exact ih hc.1
  | @second _ _ c f s s₁ a hr _ ih =>
    -- What stands in front has come to its end, and what it did is a run by itself.
    have hfirst := (hr.eq_within hc.1 (Nat.le_refl _)).symm
    obtain ⟨us, hus, -⟩ := (c.built s.budget).stepwise.ok hfirst
    obtain ⟨vs, hvs⟩ : ∃ vs, Session.Run s₁ vs t :=
      (hc.second a).elim (fun hf => ih hf) fun hf => ih hf.2
    exact ⟨us ++ vs, hus.trans hvs⟩
  | nested _ _ ih =>
    obtain ⟨ts, hts⟩ := ih hc
    exact ⟨ts, .level _ hts⟩
  | levelled _ ih => exact ih hc
  | again _ _ ih => exact ih hc.unfold
  | @call _ n _ _ ih => exact ih n.code_below

end Scriptlet
