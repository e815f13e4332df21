import Scriptlet.Proofs.CodeRuns

/-!
# Every production halts

Runs of the code of productions come to an end because each of them lessens what remains of the
input. No loop has a step that succeeds without taking a token, and between two tokens productions
call each other in one order only, so none of them is called again before another token has been
taken. By induction on what remains, and on the rank where nothing has been taken, every run of code
below a rank comes to an end.

Lists are covered for elements that take a token whenever they succeed. A list of anything else is
not a production here: a step that takes nothing may be repeated without end.

## Main definitions

* `Session.Halts`: what holds of the runs from a session on.

## Main results

* `Code.Below.exists_evaluates`: every run of code below a rank comes to an end;
* `Session.halts`: from every session on all productions halt.
-/

namespace Scriptlet

open Scriptlet.Parser

variable {α : Type}

/-! ### Runs come to an end -/

/-- Code below a rank can be run on all sessions with no more than so much remaining. -/
def Runs (m k : Nat) : Prop :=
  ∀ {α : Type} (c : Code α) (s : Session), s.remaining ≤ m → c.Below k → ∃ r, Evaluates c s r

/-- Code can be run if all code can be run once a token has been taken, and the code of productions
of lower ranks before. -/
theorem Runs.step {m k : Nat} (hlater : ∀ m' < m, ∀ k', Runs m' k')
    (hlower : ∀ k' < k, Runs m k') : Runs m k := by
  have hless {γ : Type} {c : Code γ} {s : Session} {k' : Nat} (hlt : s.remaining < m)
      (hc : c.Below k') : ∃ r, Evaluates c s r :=
    hlater s.remaining hlt k' c s (Nat.le_refl _) hc
  intro α c s hs hc
  induction c generalizing s with
  | primitive p => exact ⟨_, .primitive p s⟩
  | bind c f ihc ihf =>
    obtain ⟨r, hr⟩ := ihc s hs hc.1
    cases r with
    | error e s₁ => exact ⟨_, .bindError hr⟩
    | ok a s₁ =>
      have hle := hr.remaining_le hc.1
      have hsecond : ∃ r, Evaluates (f a) s₁ r := by
        rcases hc.second a with hf | ⟨htaking, hf⟩
        · exact ihf a s₁ (by omega) hf
        · -- Behind a token productions of all ranks may be called.
          have hlt := hr.remaining_lt hc.1 htaking
          exact hless (by omega) hf
      obtain ⟨r', hr'⟩ := hsecond
      exact ⟨r', .bindOk hr hr'⟩
  -- At the limit the run ends at once. A level that is taken makes no difference to what remains.
  | nested c ih =>
    rcases Nat.eq_zero_or_pos s.budget with h0 | hpos
    · exact ⟨_, .full h0⟩
    · obtain ⟨r, hr⟩ := ih (s.withDepth (s.depth + 1)) hs hc
      exact ⟨_, .nested hpos hr⟩
  | levelled c ih =>
    obtain ⟨r, hr⟩ := ih s hs hc
    exact ⟨_, .levelled hr⟩
  -- A pass takes a token, so the rest of the loop is a run with less left, of the same code.
  | loop test step ih =>
    cases htest : test s with
    | false => exact ⟨_, .stop htest⟩
    | true =>
      obtain ⟨r, hr⟩ := ih s hs hc.2
      cases r with
      | error e s₁ => exact ⟨_, .again htest (.bindError hr)⟩
      | ok a s₁ =>
        have hlt := hr.remaining_lt hc.2 hc.1
        obtain ⟨r', hr'⟩ := hless (Nat.lt_of_lt_of_le hlt hs) hc
        cases r' with
        | error e s₂ => exact ⟨_, .again htest (.bindOk hr (.bindError hr'))⟩
        | ok as s₂ =>
          exact ⟨_, .again htest (.bindOk hr (.bindOk hr' (.primitive (.pure (a :: as)) s₂)))⟩
  -- The production that is called has a lower rank.
  | call n =>
    obtain ⟨r, hr⟩ := hlower n.rank hc n.code s hs n.code_below
    exact ⟨r, .call hr⟩

theorem runs (m k : Nat) : Runs m k := by
  induction m using Nat.strongRecOn generalizing k with
  | ind m ihm =>
    induction k using Nat.strongRecOn with
    | ind k ihk => exact Runs.step ihm ihk

/-- Every run of code below a rank comes to an end. -/
theorem Code.Below.exists_evaluates {c : Code α} {k : Nat} (h : c.Below k) (s : Session) :
    ∃ r, Evaluates c s r :=
  runs s.remaining k c s (Nat.le_refl _) h

/-- The code of a production has one run from each session on, which is what the production does. -/
theorem Name.evaluates_iff (n : Name α) (s : Session) (r : EStateM.Result Error Session α) :
    Evaluates n.code s r ↔ r = n.parser s := by
  refine ⟨Evaluates.eq_production, fun h => ?_⟩
  obtain ⟨r', hr'⟩ := n.code_below.exists_evaluates s
  rwa [h, ← hr'.eq_production]

/-! ### Productions halt -/

/-- What holds of the runs from a session on. -/
structure Session.Halts (s : Session) : Prop where
  /-- The code of every production has one run, which is what the production does. -/
  production : ∀ {α : Type} (n : Name α) (r : EStateM.Result Error Session α),
    Evaluates n.code s r ↔ r = n.parser s
  /-- A source is refused at its first token, or what becomes of it is the one run of the code for
  programs behind its first token. -/
  parse : ∀ source : String,
    (∃ e s', prime (restart source s) = .error e s' ∧ Parser.parse source s = .error e s') ∨
    ∃ s', prime (restart source s) = .ok () s' ∧
      ∀ r, Evaluates Name.program.code s' r ↔ r = Parser.parse source s
  /-- Every iteration of a loop that is come to on the way lessens what remains. -/
  iteration : ∀ {α β : Type} (n : Name α) {test : Session → Bool} {step : Code β}
    {s₁ s₂ : Session} {b : β}, Reaches (.loop test step) s₁ n.code s →
    Evaluates step s₁ (.ok b s₂) → s₂.remaining < s₁.remaining
  /-- A production that comes to be called again finds less remaining. -/
  cycle : ∀ {α : Type} (n : Name α) {s' : Session}, Reaches (.call n) s' n.code s →
    s'.remaining < s.remaining
  /-- Productions that lists can be made of take a token whenever they succeed. -/
  element : ∀ {α : Type} (e : Element α) {a : α} {s' : Session}, e.parser s = .ok a s' →
    s'.remaining < s.remaining ∧ ∃ t ts, Consumes s (t :: ts) s'

theorem Element.exists_consumes {e : Element α} {s s' : Session} {a : α}
    (h : e.parser s = .ok a s') :
    s'.remaining < s.remaining ∧ ∃ t ts, Consumes s (t :: ts) s' := by
  rw [e.parser_apply] at h
  have hlt := Progressing.lt h
  obtain ⟨c, hc, -⟩ := Orderly.ok h
  obtain ⟨t, ts, rfl⟩ := List.exists_cons_of_ne_nil (hc.ne_nil hlt)
  exact ⟨hlt, t, ts, hc⟩

/-- From every session on, whatever the levels taken and the limit, every production and every
source comes to an end: no loop goes on and no production is called again before another token has
been taken. Lists are covered for elements that take a token whenever they succeed. -/
theorem Session.halts (s : Session) : s.Halts where
  production n r := n.evaluates_iff s r
  parse source := by
    rcases prime_cases source s with ⟨e, s', hprime, -⟩ | ⟨s', hprime, -⟩
    · exact .inl ⟨e, s', hprime, by rw [parse_apply, bind_of_error hprime]⟩
    · refine .inr ⟨s', hprime, fun r => ?_⟩
      rw [parse_apply, bind_of_ok hprime]
      exact Name.program.evaluates_iff s' r
  iteration n test step s₁ s₂ b hreaches hstep := by
    -- Before a token is taken and behind it, loops are of some rank, and their steps take a token.
    have hloop : ∃ k, (Code.loop test step).Below k :=
      (hreaches.below_or_lt n.code_below).elim (fun h => ⟨_, h.2⟩) fun h => h.2
    obtain ⟨k, htaking, hbelow⟩ := hloop
    exact hstep.remaining_lt hbelow htaking
  cycle n s' hreaches := by
    rcases hreaches.below_or_lt n.code_below with ⟨-, hlt⟩ | ⟨hlt, -⟩
    · -- Without a token in between, the rank would have got lower.
      exact absurd hlt (Nat.lt_irrefl n.rank)
    · exact hlt
  element _ _ _ h := Element.exists_consumes h

end Scriptlet
