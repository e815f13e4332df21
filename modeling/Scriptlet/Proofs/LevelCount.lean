import Scriptlet.Proofs.History

/-!
# The count of levels

The number of levels taken is counted up where a parser goes deeper and counted down where it comes
back, and a sum sets it to what it was at its start. Here each of these changes is written down. A
*trail* of a run lists the changes in the order in which they are made, with the numbers before and
after each, as the run itself has them; a *ledger* is such a list in which every number is right. A
level is only taken below the limit, and only given back where one has been taken, so the count
leaves the range of machine words at neither end.

Trails are read off how a parser is built, and what they have in common is proved by induction on
them. No trail ever leads below the number it starts from; this is what is needed where a level is
given back.

## Main definitions

* `Entry`, `Ledger`: changes of the number of levels taken;
* `Trail`: the changes that a run makes;
* `Session.KeepsCount`: what holds of the count in a session.

## Main results

* `Parser.Built.exists_trail`, `Trail.counted`: every run has a trail, and every trail is a ledger;
* `Session.keepsCount_after`: the count is kept through all histories.
-/

namespace Scriptlet

open Scriptlet.Parser

/-! ### Ledgers -/

/-- A way to change the number of levels taken. -/
inductive Change where
  /-- It is counted up by one. -/
  | take
  /-- It is counted down by one. -/
  | give
  /-- It is set to an earlier number. -/
  | restore

/-- A change of the number of levels taken, with the numbers before and after it. -/
structure Entry where
  /-- How the number is changed. -/
  change : Change
  /-- The number before the change. -/
  before : Nat
  /-- The number after the change. -/
  after : Nat

/-- The changes lead from one number to another. A level is taken below the limit only, one is given
back only where there is one, and no number is set that is higher than the present one. -/
inductive Ledger (limit : Nat) : Nat → List Entry → Nat → Prop
  | nil (d : Nat) : Ledger limit d [] d
  | take {d d' : Nat} {l : List Entry} : d < limit → Ledger limit (d + 1) l d' →
      Ledger limit d (⟨.take, d, d + 1⟩ :: l) d'
  | give {d d' : Nat} {l : List Entry} : Ledger limit d l d' →
      Ledger limit (d + 1) (⟨.give, d + 1, d⟩ :: l) d'
  | restore {d d₁ d' : Nat} {l : List Entry} : d₁ ≤ d → Ledger limit d₁ l d' →
      Ledger limit d (⟨.restore, d, d₁⟩ :: l) d'

namespace Ledger

variable {limit top d d₁ d₂ : Nat} {l l' : List Entry}

/-- Changes that end where others start are put together. -/
theorem append (h : Ledger limit d l d₁) (h' : Ledger limit d₁ l' d₂) :
    Ledger limit d (l ++ l') d₂ := by
  induction h with
  | nil => exact h'
  | take hlt _ ih => exact .take hlt (ih h')
  | give _ ih => exact .give (ih h')
  | restore hle _ ih => exact .restore hle (ih h')

/-- No number is higher than the limit and the number at the start. -/
theorem le (h : Ledger limit d l d₁) (hlimit : limit ≤ top) (hd : d ≤ top) :
    ∀ e ∈ l, e.before ≤ top ∧ e.after ≤ top := by
  induction h with
  | nil => nofun
  -- Only a level that is taken raises the number, and then it was below the limit.
  | take hlt _ ih =>
    have hd' := Nat.le_trans hlt hlimit
    exact List.forall_mem_cons.2 ⟨⟨hd, hd'⟩, ih hd'⟩
  | give _ ih =>
    have hd' := Nat.le_of_succ_le hd
    exact List.forall_mem_cons.2 ⟨⟨hd, hd'⟩, ih hd'⟩
  | restore hle _ ih =>
    have hd' := Nat.le_trans hle hd
    exact List.forall_mem_cons.2 ⟨⟨hd, hd'⟩, ih hd'⟩

end Ledger

/-! ### Trails -/

/-- The changes that a parser makes when it is run on a session. The parsers that are not put
together from others make none, but for the one that takes a level. -/
inductive Trail : {α : Type} → Parser α → Session → List Entry → Prop
  | pure {α : Type} (a : α) (s : Session) : Trail (Pure.pure a : Parser α) s []
  | get (s : Session) : Trail MonadState.get s []
  | eat (kind : Kind) (s : Session) : Trail (Parser.eat kind) s []
  | refuse {α : Type} (message wanted : String) (s : Session) :
      Trail (Parser.refuse message wanted : Parser α) s []
  | overLimit {α : Type} (s : Session) : Trail (Parser.overLimit : Parser α) s []
  | number (s : Session) : Trail Grammar.numberLiteral s []
  | bindError {α β : Type} {p : Parser α} {f : α → Parser β} {s s' : Session} {e : Error}
      {l : List Entry} : p s = .error e s' → Trail p s l → Trail (p >>= f) s l
  | bindOk {α β : Type} {p : Parser α} {f : α → Parser β} {s s' : Session} {a : α}
      {l l' : List Entry} : p s = .ok a s' → Trail p s l → Trail (f a) s' l' →
      Trail (p >>= f) s (l ++ l')
  | deepenError {s s' : Session} {e : Error} : deepen s = .error e s' → Trail deepen s []
  | deepenOk {s s' : Session} : deepen s = .ok () s' → Trail deepen s [⟨.take, s.depth, s'.depth⟩]
  | nestedError {α : Type} {p : Parser α} {s s' : Session} {e : Error} :
      deepen s = .error e s' → Trail (nested p) s []
  /-- A level is taken first and given back last, on success and on failure. -/
  | nestedOk {α : Type} {p : Parser α} {s s' : Session} {l : List Entry} :
      deepen s = .ok () s' → Trail p s' l →
      Trail (nested p) s (⟨.take, s.depth, s'.depth⟩ ::
        (l ++ [⟨.give, (p.final s').depth, ((nested p).final s).depth⟩]))
  /-- At the end the number is set to what it was, on success and on failure. -/
  | levelled {α : Type} {p : Parser α} {s : Session} {l : List Entry} : Trail p s l →
      Trail (levelled p) s (l ++ [⟨.restore, (p.final s).depth, ((levelled p).final s).depth⟩])
  | loopStop {α : Type} {test : Session → Bool} {step : Parser α} {s : Session} :
      test s = false → Trail (repeatWhile test step) s []
  | loopError {α : Type} {test : Session → Bool} {step : Parser α} {s s' : Session} {e : Error}
      {l : List Entry} : test s = true → step s = .error e s' → Trail step s l →
      Trail (repeatWhile test step) s l
  | loopLast {α : Type} {test : Session → Bool} {step : Parser α} {s s' : Session} {a : α}
      {l : List Entry} : test s = true → step s = .ok a s' → ¬ s'.remaining < s.remaining →
      Trail step s l → Trail (repeatWhile test step) s l
  | loopStep {α : Type} {test : Session → Bool} {step : Parser α} {s s' : Session} {a : α}
      {l l' : List Entry} : test s = true → step s = .ok a s' → s'.remaining < s.remaining →
      Trail step s l → Trail (repeatWhile test step) s' l' →
      Trail (repeatWhile test step) s (l ++ l')

namespace Parser

variable {α : Type}

/-- Every run of a parser built from combinators has a trail. -/
theorem Built.exists_trail {p : Parser α} (h : Built p) (s : Session) : ∃ l, Trail p s l := by
  induction h generalizing s with
  | pure a => exact ⟨_, .pure a s⟩
  | get => exact ⟨_, .get s⟩
  | eat kind => exact ⟨_, .eat kind s⟩
  | refuse message wanted => exact ⟨_, .refuse message wanted s⟩
  | overLimit => exact ⟨_, .overLimit s⟩
  | number => exact ⟨_, .number s⟩
  | @bind _ _ p f _ _ ihp ihf =>
    obtain ⟨l, hl⟩ := ihp s
    cases hp : p s with
    | ok a s' =>
      obtain ⟨l', hl'⟩ := ihf a s'
      exact ⟨_, .bindOk hp hl hl'⟩
    | error e s' => exact ⟨_, .bindError hp hl⟩
  | deepen =>
    cases hd : Parser.deepen s with
    | ok a s' => exact ⟨_, .deepenOk hd⟩
    | error e s' => exact ⟨_, .deepenError hd⟩
  | nested _ ih =>
    cases hd : Parser.deepen s with
    | ok a s' =>
      obtain ⟨l, hl⟩ := ih s'
      exact ⟨_, .nestedOk hd hl⟩
    | error e s' => exact ⟨_, .nestedError hd⟩
  | levelled _ ih =>
    obtain ⟨l, hl⟩ := ih s
    exact ⟨_, .levelled hl⟩
  | @repeatWhile _ test step _ ih =>
    -- A loop goes on while the remaining input gets less, so the trail of the rest of it comes from
    -- the induction that the loop itself is defined by.
    fun_induction Parser.repeatWhile test step s with
    | case1 s htest e s' hstep =>
      obtain ⟨l, hl⟩ := ih s
      exact ⟨_, .loopError htest hstep hl⟩
    | case2 s htest a s' hstep hlt _ _ _ ihloop | case3 s htest a s' hstep hlt _ _ _ ihloop =>
      obtain ⟨l, hl⟩ := ih s
      obtain ⟨l', hl'⟩ := ihloop
      exact ⟨_, .loopStep htest hstep hlt hl hl'⟩
    | case4 s htest a s' hstep hlt =>
      obtain ⟨l, hl⟩ := ih s
      exact ⟨_, .loopLast htest hstep hlt hl⟩
    | case5 s htest => exact ⟨_, .loopStop (by simpa using htest)⟩

/-- Two parsers in a row leave a session as the second one does, if the first one succeeds. -/
theorem final_bind_of_ok {β : Type} {p : Parser α} {f : α → Parser β} {s s' : Session} {a : α}
    (h : p s = .ok a s') : (p >>= f).final s = (f a).final s' := by
  rw [final, final, bind_of_ok h]

/-- If the first one fails, nothing happens behind it. -/
theorem final_bind_of_error {β : Type} {p : Parser α} {f : α → Parser β} {s s' : Session}
    {e : Error} (h : p s = .error e s') : (p >>= f).final s = p.final s := by
  rw [final_of_error h, final_of_error (bind_of_error h)]

theorem final_leaving (change : Session → Session) (p : Parser α) (s : Session) :
    (leaving change p).final s = change (p.final s) := by
  cases h : p s <;> simp only [final, leaving, h]

/-- The number of levels is set back at the end, whatever the parser does. -/
theorem final_levelled (p : Parser α) (s : Session) :
    (levelled p).final s = (p.final s).withDepth s.depth :=
  final_leaving _ p s

/-- Refusing a token changes nothing. -/
theorem final_refuse (message wanted : String) (s : Session) :
    (refuse message wanted : Parser α).final s = s := by
  rw [final, refuse]
  cases s.lookahead <;> rfl

section

variable {test : Session → Bool} {step : Parser α} {s s' : Session}

theorem final_repeatWhile_of_error {e : Error} (htest : test s = true)
    (hstep : step s = .error e s') : (repeatWhile test step).final s = step.final s := by
  rw [final_of_error hstep, final, repeatWhile]
  simp [htest, hstep]

theorem final_repeatWhile_of_not_lt {a : α} (htest : test s = true) (hstep : step s = .ok a s')
    (hlt : ¬ s'.remaining < s.remaining) : (repeatWhile test step).final s = step.final s := by
  rw [final_of_ok hstep, final, repeatWhile]
  simp [htest, hstep, hlt]

/-- A loop that goes on ends where the rest of it ends. -/
theorem final_repeatWhile_of_lt {a : α} (htest : test s = true) (hstep : step s = .ok a s')
    (hlt : s'.remaining < s.remaining) :
    (repeatWhile test step).final s = (repeatWhile test step).final s' := by
  rw [final, repeatWhile]
  cases h : repeatWhile test step s' <;> simp [htest, hstep, hlt, h, final]

end

end Parser

/-! ### Every trail is a ledger -/

/-- What a run does to the session with the changes it makes. -/
structure Counted (s : Session) (l : List Entry) (s' : Session) : Prop where
  /-- The changes are a ledger. -/
  ledger : Ledger s.maxDepth s.depth l s'.depth
  /-- No level is given back that was taken before. -/
  le : s.depth ≤ s'.depth
  /-- The limit stays. -/
  maxDepth : s'.maxDepth = s.maxDepth
  /-- The label stays. -/
  file : s'.file = s.file

namespace Counted

variable {s s' s'' : Session} {c : List Token} {l l' : List Entry}

/-- What only consumes tokens makes no change. -/
theorem of_consumes (h : Consumes s c s') : Counted s [] s' where
  ledger := by
    rw [h.depth]
    exact .nil _
  le := Nat.le_of_eq h.depth.symm
  maxDepth := h.maxDepth
  file := h.file

/-- An orderly parser on its own changes nothing. -/
theorem of_orderly {α : Type} (p : Parser α) [Orderly p] (s : Session) :
    Counted s [] (p.final s) := by
  obtain ⟨c, hc⟩ := Orderly.final p s
  exact of_consumes hc

/-- Runs one after another make the changes of both. -/
theorem trans (h : Counted s l s') (h' : Counted s' l' s'') : Counted s (l ++ l') s'' where
  ledger := h.ledger.append (h.maxDepth ▸ h'.ledger)
  le := Nat.le_trans h.le h'.le
  maxDepth := h'.maxDepth.trans h.maxDepth
  file := h'.file.trans h.file

/-- Taking a level is one change, made below the limit. -/
theorem of_deepen_ok (h : deepen s = .ok () s') :
    s' = s.withDepth (s.depth + 1) ∧ Counted s [⟨.take, s.depth, s'.depth⟩] s' := by
  rw [deepen] at h
  split at h
  · cases h
  · rename_i hlt
    cases h
    exact ⟨rfl, .take (Nat.lt_of_not_le hlt) (.nil _), Nat.le_succ _, rfl, rfl⟩

theorem of_deepen_error {e : Error} (h : deepen s = .error e s') : Counted s [] s' := by
  rw [deepen] at h
  split at h
  · cases h
    exact of_consumes (.refl _)
  · cases h

end Counted

/-- The changes that a run makes are a ledger, and lead to no lower number. -/
theorem Trail.counted {α : Type} {p : Parser α} {s : Session} {l : List Entry} (h : Trail p s l) :
    Counted s l (p.final s) := by
  induction h with
  | pure a s => exact .of_orderly _ s
  | get s => exact .of_orderly _ s
  | eat kind s => exact .of_orderly _ s
  | refuse message wanted s =>
    rw [final_refuse]
    exact .of_consumes (.refl s)
  | overLimit s => exact .of_orderly _ s
  | number s => exact .of_orderly _ s
  | bindError hp _ ih => rwa [final_bind_of_error hp]
  | bindOk hp _ _ ih ih' =>
    rw [final_bind_of_ok hp]
    rw [final_of_ok hp] at ih
    exact ih.trans ih'
  | deepenError hd =>
    rw [final_of_error hd]
    exact .of_deepen_error hd
  | deepenOk hd =>
    rw [final_of_ok hd]
    exact (Counted.of_deepen_ok hd).2
  | nestedError hd =>
    rw [nested, final_bind_of_error hd, final_of_error hd]
    exact .of_deepen_error hd
  | @nestedOk _ p s s' l hd _ ih =>
    obtain ⟨rfl, hd'⟩ := Counted.of_deepen_ok hd
    rw [nested, final_bind_of_ok hd, final_leaving]
    have hcounted := hd'.trans ih
    -- The parser inside ends no lower than it starts, so the level it was given is still there.
    have hle : s.depth + 1 ≤ (p.final (s.withDepth (s.depth + 1))).depth := ih.le
    obtain ⟨k, hk⟩ := Nat.exists_eq_add_of_le hle
    have hdepth : (p.final (s.withDepth (s.depth + 1))).depth = s.depth + k + 1 := by
      rw [hk, Nat.add_right_comm]
    refine ⟨hcounted.ledger.append ?_, ?_, hcounted.maxDepth, hcounted.file⟩
    · rw [hdepth]
      exact .give (.nil _)
    · rw [Session.withDepth, hdepth]
      exact Nat.le_add_right _ _
  -- The number at the start is no higher than the one at the end, so it may be set back.
  | levelled _ ih =>
    rw [final_levelled]
    exact ⟨ih.ledger.append (.restore ih.le (.nil _)), Nat.le_refl _, ih.maxDepth, ih.file⟩
  | @loopStop _ test step s htest =>
    rw [final_of_ok (repeatWhile_of_not htest)]
    exact .of_consumes (.refl s)
  | loopError htest hstep _ ih => rwa [final_repeatWhile_of_error htest hstep]
  | loopLast htest hstep hlt _ ih => rwa [final_repeatWhile_of_not_lt htest hstep hlt]
  | loopStep htest hstep hlt _ _ ih ih' =>
    rw [final_repeatWhile_of_lt htest hstep hlt]
    rw [final_of_ok hstep] at ih
    exact ih.trans ih'

/-- A parser whose runs count right: the numbers fit, and none is higher than the given one. -/
structure Counts {α : Type} (p : Parser α) (s : Session) (top : Nat) : Prop where
  /-- The changes can be followed. -/
  exists_trail : ∃ l, Trail p s l
  /-- They lead to the number of levels that the session is left with. -/
  ledger : ∀ l, Trail p s l → Ledger s.maxDepth s.depth l (p.final s).depth
  /-- On the way no number is too high. -/
  le : ∀ l, Trail p s l → ∀ e ∈ l, e.before ≤ top ∧ e.after ≤ top

/-- Whatever is built from combinators counts right. -/
theorem Parser.Built.counts {α : Type} {p : Parser α} (h : Built p) {s : Session} {top : Nat}
    (hlimit : s.maxDepth ≤ top) (hdepth : s.depth ≤ top) : Counts p s top where
  exists_trail := h.exists_trail s
  ledger _ hl := hl.counted.ledger
  le _ hl := hl.counted.ledger.le hlimit hdepth

/-! ### Histories -/

/-- The number of levels that was last given to a session, if a request gives one. -/
def Request.given (before : Nat) : Request → Nat
  | restoreDepth depth => depth.toNat
  | _ => before

/-- The number of levels that was last given to a session in a history; zero if there is none. -/
def lastGiven (history : List Request) : Nat := history.foldl Request.given 0

/-- What holds of the count in a session that has the given label and limit: it is not higher than
a given number, and whatever is run on the session counts right. -/
structure Session.KeepsCount (s : Session) (label : String) (limit top : Nat) : Prop where
  /-- The label is the one given. -/
  file : s.file = label
  /-- The limit is the one given. -/
  maxDepth : s.maxDepth = limit
  /-- No more levels have been taken. -/
  depth_le : s.depth ≤ top
  /-- A production gives back what it takes, on success and on failure. -/
  production : ∀ {α : Type} (p : Parser α), Production p →
    (p.final s).depth = s.depth ∧ Counts p s top
  /-- Consuming a token takes no level. -/
  eat : ∀ kind, ((Parser.eat kind).final s).depth = s.depth ∧ Counts (Parser.eat kind) s top
  /-- A level is taken if one is left. -/
  deepen : Counts Parser.deepen s top
  /-- A source starts without a level, and leaves none. -/
  parse : ∀ source, ((Parser.parse source).final s).depth = 0 ∧
    ∀ s₀, prime (restart source s) = .ok () s₀ →
      s₀.depth = 0 ∧ s₀.maxDepth = limit ∧ Counts program s₀ top

namespace Session

variable {s : Session} {label : String} {limit top : Nat}

/-- A source leaves the label and the limit, and no level is taken after it. -/
theorem depth_final_parse (source : String) (s : Session) :
    ((Parser.parse source).final s).file = s.file ∧
    ((Parser.parse source).final s).maxDepth = s.maxDepth ∧
    ((Parser.parse source).final s).depth = 0 := by
  rcases final_parse_cases source s with ⟨scanner, hs'⟩ | ⟨s₀, c, hopens, hc⟩
  · rw [hs']
    exact ⟨rfl, rfl, rfl⟩
  · exact ⟨hc.file.trans hopens.file, hc.maxDepth.trans hopens.maxDepth,
      hc.depth.trans hopens.depth⟩

/-- With no more levels taken than a number that the limit does not exceed, the count is kept. -/
theorem keepsCount (hfile : s.file = label) (hlimit : s.maxDepth = limit) (hle : limit ≤ top)
    (hdepth : s.depth ≤ top) : s.KeepsCount label limit top where
  file := hfile
  maxDepth := hlimit
  depth_le := hdepth
  production p hp := by
    obtain ⟨c, hc⟩ := hp.consumes s
    exact ⟨hc.depth, hp.built.counts (hlimit ▸ hle) hdepth⟩
  eat kind := by
    obtain ⟨c, hc⟩ := Orderly.final (Parser.eat kind) s
    exact ⟨hc.depth, (Built.eat kind).counts (hlimit ▸ hle) hdepth⟩
  deepen := Built.deepen.counts (hlimit ▸ hle) hdepth
  parse source := by
    constructor
    · exact (depth_final_parse source s).2.2
    · intro s₀ h
      rcases prime_cases source s with ⟨_, _, h', -⟩ | ⟨_, h', hopens⟩ <;> rw [h] at h' <;>
        cases h'
      have hlimit₀ := hopens.maxDepth.trans hlimit
      exact ⟨hopens.depth, hlimit₀, Production.program.built.counts (hlimit₀ ▸ hle)
        (hopens.depth ▸ Nat.zero_le top)⟩

/-- No request changes the label or the limit, and none takes more levels than there are or than
were given. -/
theorem run_of_depth_le (given : Nat) (request : Request)
    (hdepth : s.depth ≤ max s.maxDepth given) :
    (request.run s).file = s.file ∧ (request.run s).maxDepth = s.maxDepth ∧
    (request.run s).depth ≤ max s.maxDepth (request.given given) := by
  cases request with
  | parse source =>
    obtain ⟨hfile, hlimit, hzero⟩ := depth_final_parse source s
    exact ⟨hfile, hlimit, hzero ▸ Nat.zero_le _⟩
  | eat kind =>
    obtain ⟨c, hc⟩ := Orderly.final (Parser.eat kind) s
    exact ⟨hc.file, hc.maxDepth, hc.depth ▸ hdepth⟩
  | deepen =>
    rcases final_deepen s with hs | ⟨hlt, hs⟩ <;> rw [Request.run, hs]
    · exact ⟨rfl, rfl, hdepth⟩
    · exact ⟨rfl, rfl, Nat.le_trans hlt (Nat.le_max_left _ _)⟩
  | restoreDepth depth => exact ⟨rfl, rfl, Nat.le_max_right _ _⟩
  | call p hp =>
    obtain ⟨c, hc⟩ := hp.consumes s
    exact ⟨hc.file, hc.maxDepth, hc.depth ▸ hdepth⟩

/-- By induction on the history, the number last given being carried along. -/
theorem after_of_depth_le (given : Nat) (history : List Request)
    (hdepth : s.depth ≤ max s.maxDepth given) :
    (s.after history).file = s.file ∧ (s.after history).maxDepth = s.maxDepth ∧
    (s.after history).depth ≤ max s.maxDepth (history.foldl Request.given given) := by
  induction history generalizing s given with
  | nil => exact ⟨rfl, rfl, hdepth⟩
  | cons request history ih =>
    obtain ⟨hfile, hlimit, hle⟩ := run_of_depth_le given request hdepth
    have h := ih (request.given given) (s := request.run s) (hlimit.symm ▸ hle)
    rw [hfile, hlimit] at h
    exact h

end Session

/-- Numbers that are given come as machine words. -/
theorem lastGiven_lt (history : List Request) : lastGiven history < UInt64.size := by
  -- For any number at the start, so that the induction goes through.
  have (given : Nat) (hgiven : given < UInt64.size) :
      history.foldl Request.given given < UInt64.size := by
    induction history generalizing given with
    | nil => exact hgiven
    | cons request history ih =>
      refine ih _ ?_
      cases request with
      | restoreDepth depth => exact depth.toNat_lt
      | _ => exact hgiven
  exact this 0 (by decide)

/-- After any history of a session the label and the limit are what they were at its start, no more
levels are taken than the limit or the number last given allows, every production gives back all
levels that it takes, and whatever is run counts up below the limit and counts down above zero, with
numbers that fit in a machine word. Lists are covered for elements that take a token whenever they
succeed. -/
theorem Session.keepsCount_after (file : Option String) (limit : UInt64) (history : List Request) :
    ((Session.new ⟨file, limit.toNat⟩).after history).KeepsCount (file.getD defaultLabel)
      limit.toNat (max limit.toNat (lastGiven history)) ∧
    max limit.toNat (lastGiven history) < UInt64.size := by
  obtain ⟨hfile, hlimit, hdepth⟩ :=
    after_of_depth_le (s := Session.new ⟨file, limit.toNat⟩) 0 history (Nat.zero_le _)
  constructor
  · exact keepsCount hfile hlimit (Nat.le_max_left _ _) hdepth
  · exact Nat.max_lt.2 ⟨limit.toNat_lt, lastGiven_lt history⟩

end Scriptlet
