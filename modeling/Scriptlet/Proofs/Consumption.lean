import Scriptlet.Parser.Basic
import Scriptlet.Proofs.Feed

/-!
# What a parser does to its session

Whatever a parser does, it does by consuming tokens from the front of the feed, one after the other,
and when it fails it says so of the place where it stopped. A parser that keeps to this is
*orderly*. Being orderly is kept by every way of putting parsers together, so it is a class: whether
a parser is orderly is read off its text.

The levels a parser takes it gives back, on success and on failure alike, so an orderly parser
leaves the depth as it was. The parts of the two combinators that count levels are not orderly on
their own, only the combinators are.

## Main definitions

* `Parser.final`: the session that a parser leaves;
* `Consumes`: a session after some tokens of another have been consumed;
* `Sees`: what might come, as far as a run has looked;
* `Blames`: an error that fits the session it was raised in;
* `Parser.Orderly`, `Parser.Progressing`: the two classes.

## Main results

* `Parser.eat_cases`: the four things that can happen when a token is wanted;
* `Parser.repeatWhile_of_test`: a loop whose steps consume tokens does a step and goes on.
-/

namespace Scriptlet

/-! ### Tokens consumed -/

/-- The end of the last of some tokens, or a position given where there are none. -/
def stopOf (before : Position) (c : List Token) : Position :=
  (c.getLast?.map (·.span.stop)).getD before

@[simp] theorem stopOf_nil (before : Position) : stopOf before [] = before := rfl

@[simp] theorem stopOf_singleton (before : Position) (t : Token) :
    stopOf before [t] = t.span.stop := rfl

/-- The end of the tokens read last counts. -/
theorem stopOf_append (before : Position) (c d : List Token) :
    stopOf before (c ++ d) = stopOf (stopOf before c) d := by
  rcases d.eq_nil_or_concat with rfl | ⟨d, t, rfl⟩
  · simp
  · simp [stopOf, ← List.append_assoc]

/-- Where tokens have been consumed it does not matter what was in front of them. -/
theorem stopOf_eq_of_ne_nil {c : List Token} (h : c ≠ []) (before before' : Position) :
    stopOf before c = stopOf before' c := by
  simp [stopOf, List.getLast?_eq_some_getLast h]

/-- The session `s'` is `s` after the tokens `c` have been consumed. -/
structure Consumes (s : Session) (c : List Token) (s' : Session) : Prop where
  /-- The tokens are taken from the front of the feed. -/
  upcoming : s.upcoming = c ++ s'.upcoming
  /-- What stands behind all tokens stays. -/
  fault : s'.fault = s.fault
  /-- The end of the last token is kept. -/
  lastEnd : s'.lastEnd = stopOf s.lastEnd c
  /-- The label stays. -/
  file : s'.file = s.file
  /-- All levels taken are given back. -/
  depth : s'.depth = s.depth
  /-- The limit stays. -/
  maxDepth : s'.maxDepth = s.maxDepth
  /-- Each token lessens what remains. -/
  remaining : s'.remaining + c.length ≤ s.remaining
  /-- Where no token is consumed nothing changes. -/
  idle : c = [] → s' = s

namespace Consumes

variable {s s' s'' : Session} {c d : List Token}

theorem refl (s : Session) : Consumes s [] s :=
  ⟨rfl, rfl, rfl, rfl, rfl, rfl, Nat.le_refl _, fun _ => rfl⟩

/-- What is consumed in two parts is consumed as a whole. -/
theorem trans (h : Consumes s c s') (h' : Consumes s' d s'') : Consumes s (c ++ d) s'' where
  upcoming := by rw [h.upcoming, h'.upcoming, List.append_assoc]
  fault := h'.fault.trans h.fault
  lastEnd := by rw [h'.lastEnd, h.lastEnd, stopOf_append]
  file := h'.file.trans h.file
  depth := h'.depth.trans h.depth
  maxDepth := h'.maxDepth.trans h.maxDepth
  remaining := by
    have := h.remaining
    have := h'.remaining
    rw [List.length_append]
    omega
  -- Where nothing has been consumed, both parts have left the session as it was.
  idle := by
    intro hcd
    obtain ⟨hc, hd⟩ := List.append_eq_nil_iff.1 hcd
    rw [h'.idle hd, h.idle hc]

/-- The number of levels taken plays no part in what is consumed. -/
theorem withDepth (h : Consumes s c s') (n : Nat) :
    Consumes (s.withDepth n) c (s'.withDepth n) where
  upcoming := h.upcoming
  fault := h.fault
  lastEnd := h.lastEnd
  file := h.file
  depth := rfl
  maxDepth := h.maxDepth
  remaining := h.remaining
  idle := fun hc => by rw [h.idle hc]

/-- What is consumed with other levels taken is consumed. -/
theorem ofDepth {n : Nat} (h : Consumes (s.withDepth n) c s') :
    Consumes s c (s'.withDepth s.depth) :=
  h.withDepth s.depth

theorem budget (h : Consumes s c s') : s'.budget = s.budget := by
  rw [Session.budget, h.maxDepth, h.depth, Session.budget]

/-- As many tokens are consumed as there are fewer to come. -/
theorem length_eq (h : Consumes s c s') :
    c.length = s.upcoming.length - s'.upcoming.length := by
  rw [h.upcoming, List.length_append]
  omega

/-- Behind the first token there are the others. -/
theorem upcoming_eq {t u : Token} {ts : List Token} (h : Consumes s [t] s')
    (hu : s.upcoming = u :: ts) : s'.upcoming = ts := by
  have happend := h.upcoming
  rw [hu, List.singleton_append, List.cons.injEq] at happend
  exact happend.2.symm

/-- Two parsers that leave the same session have consumed the same tokens. -/
theorem unique (h : Consumes s c s') (h' : Consumes s d s') : c = d :=
  List.append_cancel_right (h.upcoming.symm.trans h'.upcoming)

/-- Where less remains a token has been consumed. -/
theorem ne_nil (h : Consumes s c s') (hlt : s'.remaining < s.remaining) : c ≠ [] := by
  intro hc
  rw [h.idle hc] at hlt
  exact Nat.lt_irrefl _ hlt

end Consumes

/-! ### What a run has looked at -/

/-- As far as a run from `s` to `s'` has looked, what comes might be the tokens `ts` and behind them
the fault `f`. -/
def Sees (s s' : Session) (ts : List Token) (f : Option Error) : Prop :=
  Agree (s.upcoming.length - s'.upcoming.length) s.upcoming s.fault ts f

namespace Sees

variable {s s₁ s₂ : Session} {c d ts : List Token} {f : Option Error}

/-- A run that sees some tokens has the first of them in front of it. -/
theorem lookahead (h : Sees s s₁ ts f) : s.lookahead = ts.head? := by
  rw [← s.head?_upcoming]
  exact h.head?

/-- A run that went on has looked at least as far. -/
theorem of_consumes (hc : Consumes s c s₁) (hd : Consumes s₁ d s₂) (h : Sees s s₂ ts f) :
    Sees s s₁ ts f := by
  refine Agree.mono ?_ h
  rw [hc.upcoming, hd.upcoming]
  simp only [List.length_append]
  omega

/-- Behind the tokens consumed, a run sees what comes behind the same tokens. -/
theorem exists_append (hc : Consumes s c s₁) (hd : Consumes s₁ d s₂) (h : Sees s s₂ ts f) :
    ∃ us, ts = c ++ us ∧ Sees s₁ s₂ us f := by
  have hlength : s.upcoming.length - s₂.upcoming.length =
      c.length + (s₁.upcoming.length - s₂.upcoming.length) := by
    rw [hc.upcoming, hd.upcoming]
    simp only [List.length_append]
    omega
  rw [Sees, hlength, hc.upcoming, ← hc.fault] at h
  exact Agree.append h

/-- Behind the tokens of its first part a run sees those of its second part. -/
theorem append (hc : Consumes s c s₁) (hd : Consumes s₁ d s₂) (h : Sees s s₂ (c ++ ts) f) :
    Sees s₁ s₂ ts f := by
  obtain ⟨us, hts, h⟩ := exists_append hc hd h
  rwa [List.append_cancel_left hts]

/-- A run that stops in front of a token sees nothing behind it. -/
theorem of_lookahead {t : Token} (hc : Consumes s c s₁) (ht : s₁.lookahead = some t)
    (us : List Token) (f : Option Error) : Sees s s₁ (c ++ t :: us) f := by
  obtain ⟨rest, hrest⟩ : ∃ rest, s₁.upcoming = t :: rest := by
    rw [← s₁.head?_upcoming] at ht
    exact List.head?_eq_some_iff.1 ht
  rw [Sees, ← hc.length_eq, hc.upcoming, ← Nat.add_zero c.length, Agree.append_iff, hrest]
  rfl

end Sees

/-! ### Errors that fit their place -/

/-- There is no fault behind an empty feed: the parser would have met it already. -/
def Session.Settled (s : Session) : Prop := s.upcoming = [] → s.fault = none

/-- The error says where and in front of what the session stands. -/
def Blames (e : Error) (s : Session) : Prop :=
  match e.cause with
  | .unexpected token _ | .misplaced token _ =>
    ∃ t, s.lookahead = some t ∧ token = t.display ∧ e.position = t.span.start
  | .endOfInput _ => s.upcoming = [] ∧ s.fault = none ∧ e.position = s.lastEnd
  | .tooDeep limit => limit = s.maxDepth ∧ e.position = s.position
  | .unrecognised _ => s.upcoming = [] ∧ s.fault = some e
  | .malformedNumber _ => True
  | .internal _ => False

namespace Parser

variable {α β : Type}

/-! ### Runs of a sequence -/

/-- A sequence runs its second part from where the first one has succeeded. -/
theorem bind_apply (p : Parser α) (f : α → Parser β) (s : Session) :
    (p >>= f) s = match p s with
      | .ok a s' => f a s'
      | .error e s' => .error e s' := by
  change EStateM.bind p f s = _
  rw [EStateM.bind]
  cases p s <;> rfl

theorem bind_of_ok {p : Parser α} {f : α → Parser β} {s s' : Session} {a : α}
    (h : p s = .ok a s') : (p >>= f) s = f a s' := by
  rw [bind_apply, h]

theorem bind_of_error {p : Parser α} {f : α → Parser β} {s s' : Session} {e : Error}
    (h : p s = .error e s') : (p >>= f) s = .error e s' := by
  rw [bind_apply, h]

/-- Looking at the session changes nothing. -/
theorem get_bind (f : Session → Parser β) (s : Session) : (get >>= f) s = f s s := by
  rw [bind_apply]
  rfl

/-- A sequence succeeds if its parts do. -/
theorem bind_eq_ok {p : Parser α} {f : α → Parser β} {s s'' : Session} {b : β}
    (h : (p >>= f) s = .ok b s'') : ∃ a s', p s = .ok a s' ∧ f a s' = .ok b s'' := by
  cases hp : p s with
  | ok a s' => exact ⟨a, s', rfl, by rwa [bind_of_ok hp] at h⟩
  | error e s' => rw [bind_of_error hp] at h; cases h

/-- A sequence fails where one of its parts does. -/
theorem bind_eq_error {p : Parser α} {f : α → Parser β} {s s'' : Session} {e : Error}
    (h : (p >>= f) s = .error e s'') :
    p s = .error e s'' ∨ ∃ a s', p s = .ok a s' ∧ f a s' = .error e s'' := by
  cases hp : p s with
  | ok a s' => exact .inr ⟨a, s', rfl, by rwa [bind_of_ok hp] at h⟩
  | error e' s' =>
    rw [bind_of_error hp] at h
    cases h
    exact .inl rfl

/-- The session that a parser leaves, on success and on failure. -/
def final (p : Parser α) (s : Session) : Session :=
  match p s with
  | .ok _ s' => s'
  | .error _ s' => s'

theorem final_of_ok {p : Parser α} {s s' : Session} {a : α} (h : p s = .ok a s') :
    p.final s = s' := by
  rw [final, h]

theorem final_of_error {p : Parser α} {s s' : Session} {e : Error} (h : p s = .error e s') :
    p.final s = s' := by
  rw [final, h]

/-! ### Consuming a token -/

/-- What there is when a token is wanted: nothing, a token of another kind, or a token of this kind,
which is consumed, and behind which there may be a fault. -/
theorem eat_cases (kind : Kind) (s : Session) :
    (s.upcoming = [] ∧ eat kind s = .error ⟨.endOfInput kind.describe, s.lastEnd⟩ s) ∨
    (∃ t, s.lookahead = some t ∧ t.kind ≠ kind ∧
      eat kind s = .error ⟨.unexpected t.display kind.describe, t.span.start⟩ s) ∨
    (∃ t s', t.kind = kind ∧ eat kind s = .ok t s' ∧ Consumes s [t] s' ∧ s'.Settled) ∨
    (∃ t e s', t.kind = kind ∧ eat kind s = .error e s' ∧ Consumes s [t] s' ∧
      s'.upcoming = [] ∧ s.fault = some e ∧ ∃ text, e.cause = .unrecognised text) := by
  obtain ⟨scanner, lookahead, file, lastEnd, depth, maxDepth⟩ := s
  cases lookahead with
  | none => exact .inl ⟨rfl, rfl⟩
  | some t =>
    by_cases hk : t.kind = kind
    · refine .inr (.inr ?_)
      -- The token is consumed either way, and the scanner decides what stands behind it.
      cases hn : scanner.next with
      | error e sc =>
        refine .inr ⟨t, e, ⟨sc, none, file, t.span.stop, depth, maxDepth⟩, hk, ?_, ?_, rfl, ?_, ?_⟩
        · simp [eat, hk, hn]
        · refine ⟨?_, ?_, rfl, rfl, rfl, rfl, ?_, by simp⟩
          · simp [Session.upcoming, Scanner.feed_of_next_eq_error hn]
          · simp [Session.fault, Scanner.feed_of_next_eq_error hn,
              Scanner.feed_of_next_eq_error (Scanner.next_of_next_eq_error hn)]
          · have := Scanner.remaining_le_of_next_eq_error hn
            simp [Session.remaining]
            omega
        · simp [Session.fault, Scanner.feed_of_next_eq_error hn]
        · exact Scanner.cause_of_next_eq_error hn
      | ok next sc =>
        refine .inl ⟨t, ⟨sc, next, file, t.span.stop, depth, maxDepth⟩, hk, ?_, ?_, ?_⟩
        · simp [eat, hk, hn]
        · cases next with
          | none =>
            have := (Scanner.remaining_next_le hn).1
            refine ⟨?_, ?_, rfl, rfl, rfl, rfl, ?_, by simp⟩
            · simp [Session.upcoming, Scanner.feed_of_next_eq_none hn]
            · simp [Session.fault, Scanner.feed_of_next_eq_none hn,
                Scanner.feed_of_next_eq_none (Scanner.next_of_next_eq_none hn)]
            · simp [Session.remaining]
              omega
          | some u =>
            have := Scanner.remaining_lt_of_next hn
            refine ⟨?_, ?_, rfl, rfl, rfl, rfl, ?_, by simp⟩
            · simp [Session.upcoming, Scanner.feed_of_next_eq_some hn]
            · simp [Session.fault, Scanner.feed_of_next_eq_some hn]
            · simp [Session.remaining]
              omega
        · cases next with
          | none =>
            intro _
            simp [Session.fault, Scanner.feed_of_next_eq_none (Scanner.next_of_next_eq_none hn)]
          | some u => intro h; cases h
    · exact .inr (.inl ⟨t, rfl, hk, by simp [eat, hk, fail, Session.position]⟩)

/-- A token of the kind wanted is consumed, unless there is a fault behind it. -/
theorem eat_eq_ok {kind : Kind} {s s' : Session} {t : Token} (h : eat kind s = .ok t s') :
    t.kind = kind ∧ Consumes s [t] s' ∧ s'.Settled := by
  rcases eat_cases kind s with ⟨-, h'⟩ | ⟨_, -, -, h'⟩ | ⟨_, _, hk, h', hc, hs⟩ |
    ⟨_, _, _, -, h', -⟩ <;>
    rw [h'] at h <;> cases h
  exact ⟨hk, hc, hs⟩

theorem eat_of_lookahead_eq_none {kind : Kind} {s : Session} (h : s.lookahead = none) :
    eat kind s = .error ⟨.endOfInput kind.describe, s.lastEnd⟩ s := by
  simp only [eat, h, fail, Session.position]

/-- A token of another kind is refused and stays in front. -/
theorem eat_of_kind_ne {kind : Kind} {s : Session} {t : Token} (h : s.lookahead = some t)
    (hk : t.kind ≠ kind) :
    eat kind s = .error ⟨.unexpected t.display kind.describe, t.span.start⟩ s := by
  simp only [eat, h, hk, if_false, fail, Session.position]

/-- Whether a token can be consumed is decided by what stands behind it. -/
theorem eat_of_upcoming {kind : Kind} {s : Session} {t : Token} {ts : List Token}
    (h : s.upcoming = t :: ts) (hk : t.kind = kind) :
    ((ts = [] → s.fault = none) ∧ ∃ s', eat kind s = .ok t s' ∧ Consumes s [t] s') ∨
    (ts = [] ∧ ∃ e s', s.fault = some e ∧ eat kind s = .error e s' ∧ Consumes s [t] s') := by
  have hl := Session.lookahead_of_upcoming h
  have hup : ∀ {t' : Token} {s' : Session}, Consumes s [t'] s' → t' = t ∧ s'.upcoming = ts := by
    intro t' s' hc
    have happend := hc.upcoming
    rw [h, List.singleton_append, List.cons.injEq] at happend
    exact ⟨happend.1.symm, happend.2.symm⟩
  rcases eat_cases kind s with ⟨hu, -⟩ | ⟨t', ht', hne, -⟩ | ⟨t', s', -, he, hc, hs⟩ |
    ⟨t', e, s', -, he, hc, hu, hf, -⟩
  · rw [h] at hu
    cases hu
  · rw [ht'] at hl
    cases hl
    exact absurd hk hne
  · obtain ⟨rfl, hts⟩ := hup hc
    refine .inl ⟨fun hnil => ?_, s', he, hc⟩
    rw [← hc.fault]
    exact hs (hts.trans hnil)
  · obtain ⟨rfl, hts⟩ := hup hc
    exact .inr ⟨hts.symm.trans hu, e, s', hf, he, hc⟩

/-! ### Orderly parsers -/

/-- A parser that consumes tokens in order, gives back its levels, and blames the place where it
stopped. -/
class Orderly (p : Parser α) : Prop where
  /-- What happens on success. -/
  ok : ∀ {s a s'}, p s = .ok a s' → ∃ c, Consumes s c s' ∧ (s.Settled → s'.Settled)
  /-- What happens on failure. -/
  error : ∀ {s e s'}, p s = .error e s' → ∃ c, Consumes s c s' ∧ (s.Settled → Blames e s')

/-- A parser that consumes a token whenever it succeeds. -/
class Progressing (p : Parser α) : Prop where
  /-- Less remains behind the parser than in front of it. -/
  lt : ∀ {s a s'}, p s = .ok a s' → s'.remaining < s.remaining

/-- What an orderly parser does to a session is to consume tokens. -/
theorem Orderly.final (p : Parser α) [Orderly p] (s : Session) : ∃ c, Consumes s c (p.final s) := by
  cases h : p s with
  | ok a s' =>
    obtain ⟨c, hc, -⟩ := Orderly.ok h
    exact ⟨c, by rwa [final_of_ok h]⟩
  | error e s' =>
    obtain ⟨c, hc, -⟩ := Orderly.error h
    exact ⟨c, by rwa [final_of_error h]⟩

/-- A parser that makes progress consumes a token. -/
theorem Progressing.ne_nil {p : Parser α} [Progressing p] {s s' : Session} {a : α} {c : List Token}
    (h : p s = .ok a s') (hc : Consumes s c s') : c ≠ [] :=
  hc.ne_nil (Progressing.lt h)

instance (a : α) : Orderly (pure a : Parser α) where
  ok h := by cases h; exact ⟨[], .refl _, id⟩
  error h := by cases h

instance : Orderly (get : Parser Session) where
  ok h := by cases h; exact ⟨[], .refl _, id⟩
  error h := by cases h

instance (p : Parser α) (f : α → Parser β) [Orderly p] [∀ a, Orderly (f a)] :
    Orderly (p >>= f) where
  ok h := by
    obtain ⟨a, s', hp, hf⟩ := bind_eq_ok h
    obtain ⟨c, hc, hs⟩ := Orderly.ok hp
    obtain ⟨d, hd, hs'⟩ := Orderly.ok hf
    exact ⟨c ++ d, hc.trans hd, hs' ∘ hs⟩
  error h := by
    rcases bind_eq_error h with hp | ⟨a, s', hp, hf⟩
    · exact Orderly.error hp
    · obtain ⟨c, hc, hs⟩ := Orderly.ok hp
      obtain ⟨d, hd, hs'⟩ := Orderly.error hf
      exact ⟨c ++ d, hc.trans hd, hs' ∘ hs⟩

instance (p : Parser α) (f : α → Parser β) [Progressing p] [∀ a, Orderly (f a)] :
    Progressing (p >>= f) where
  lt h := by
    obtain ⟨a, s', hp, hf⟩ := bind_eq_ok h
    have hlt := Progressing.lt hp
    obtain ⟨d, hd, -⟩ := Orderly.ok hf
    have := hd.remaining
    omega

instance (p : Parser α) (f : α → Parser β) [Orderly p] [∀ a, Progressing (f a)] :
    Progressing (p >>= f) where
  lt h := by
    obtain ⟨a, s', hp, hf⟩ := bind_eq_ok h
    have hlt := Progressing.lt hf
    obtain ⟨c, hc, -⟩ := Orderly.ok hp
    have := hc.remaining
    omega

instance (g : α → β) (p : Parser α) [Orderly p] : Orderly (g <$> p) := by
  rw [map_eq_pure_bind]
  infer_instance

/-- To discard what a parser returns is to return nothing behind it. -/
theorem discard_eq (p : Parser α) : discard p = p >>= fun _ => pure () := by
  funext s
  change EStateM.map _ p s = _
  rw [EStateM.map, bind_apply]
  cases p s <;> rfl

instance (p : Parser α) [Orderly p] : Orderly (discard p) := by
  rw [discard_eq]
  infer_instance

instance (c : Prop) [Decidable c] (p q : Parser α) [Orderly p] [Orderly q] :
    Orderly (if c then p else q) := by
  split <;> infer_instance

instance (c : Prop) [Decidable c] (p q : Parser α) [Progressing p] [Progressing q] :
    Progressing (if c then p else q) := by
  split <;> infer_instance

instance (kind : Kind) : Orderly (eat kind) where
  ok h := by
    obtain ⟨-, hc, hs⟩ := eat_eq_ok h
    exact ⟨_, hc, fun _ => hs⟩
  error {s} _ _ h := by
    rcases eat_cases kind s with ⟨hu, h'⟩ | ⟨t, ht, -, h'⟩ | ⟨_, _, _, h', -⟩ |
      ⟨t, e, s', -, h', hc, hu, hf, text, htext⟩ <;> rw [h'] at h <;> cases h
    · exact ⟨[], .refl _, fun hs => ⟨hu, hs hu, rfl⟩⟩
    · exact ⟨[], .refl _, fun _ => ⟨t, ht, rfl, rfl⟩⟩
    · refine ⟨[t], hc, fun _ => ?_⟩
      rw [Blames, htext]
      exact ⟨hu, hc.fault.trans hf⟩

instance (kind : Kind) : Progressing (eat kind) where
  lt h := by
    have := (eat_eq_ok h).2.1.remaining
    simp only [List.length_cons, List.length_nil] at this
    omega

instance (kind : Kind) : Orderly (accept kind) := by
  rw [accept]
  infer_instance

/-! ### Levels -/

theorem overLimit_apply (s : Session) :
    (overLimit s : EStateM.Result Error Session α) =
      .error ⟨.tooDeep s.maxDepth, s.position⟩ s := rfl

instance : Orderly (overLimit : Parser α) where
  ok h := by cases h
  error h := by cases h; exact ⟨[], .refl _, fun _ => ⟨rfl, rfl⟩⟩

instance : Progressing (overLimit : Parser α) where
  lt h := by cases h

/-- A level deeper there is one level less. -/
theorem budget_nested {s : Session} {b : Nat} (h : s.budget ≤ b + 1) :
    (s.withDepth (s.depth + 1)).budget ≤ b := by
  simp only [Session.budget, Session.withDepth] at h ⊢
  omega

/-- A level less is left. -/
theorem budget_le_nested {s : Session} {b : Nat} (h : s.budget ≤ b) :
    (s.withDepth (s.depth + 1)).budget ≤ b :=
  budget_nested (Nat.le_succ_of_le h)

/-- Without a level left, nothing is run. -/
theorem nested_of_budget_eq_zero {p : Parser α} {s : Session} (h : s.budget = 0) :
    nested p s = overLimit s := by
  have hle : s.maxDepth ≤ s.depth := by rw [Session.budget] at h; omega
  rw [nested, bind_of_error]
  · rfl
  · rw [deepen, if_pos hle, overLimit_apply]

/-- With a level left, the parser runs a level deeper, and the level is given back. -/
theorem nested_of_budget_pos {p : Parser α} {s : Session} (h : 0 < s.budget) :
    nested p s =
      leaving (fun s => s.withDepth (s.depth - 1)) p (s.withDepth (s.depth + 1)) := by
  have hlt : ¬ s.maxDepth ≤ s.depth := by rw [Session.budget] at h; omega
  rw [nested, bind_of_ok]
  rw [deepen, if_neg hlt]

/-- An orderly parser one level deeper: the session it leaves is that of the parser itself, without
the level. -/
theorem nested_of_ok {p : Parser α} [Orderly p] {s s' : Session} {a : α} (h : 0 < s.budget)
    (hp : p (s.withDepth (s.depth + 1)) = .ok a s') :
    nested p s = .ok a (s'.withDepth s.depth) := by
  obtain ⟨c, hc, -⟩ := Orderly.ok hp
  have hd : s'.depth = s.depth + 1 := hc.depth
  rw [nested_of_budget_pos h, leaving, hp]
  simp [hd]

/-- A failure one level deeper gives the level back. -/
theorem nested_of_error {p : Parser α} [Orderly p] {s s' : Session} {e : Error} (h : 0 < s.budget)
    (hp : p (s.withDepth (s.depth + 1)) = .error e s') :
    nested p s = .error e (s'.withDepth s.depth) := by
  obtain ⟨c, hc, -⟩ := Orderly.error hp
  have hd : s'.depth = s.depth + 1 := hc.depth
  rw [nested_of_budget_pos h, leaving, hp]
  simp [hd]

theorem final_nested {p : Parser α} [Orderly p] {s : Session} (h : 0 < s.budget) :
    (nested p).final s = (p.final (s.withDepth (s.depth + 1))).withDepth s.depth := by
  cases hp : p (s.withDepth (s.depth + 1)) with
  | ok a s' => rw [final_of_ok hp, final_of_ok (nested_of_ok h hp)]
  | error e s' => rw [final_of_error hp, final_of_error (nested_of_error h hp)]

/-- A level more succeeds if a level is left and the parser succeeds one level deeper. -/
theorem nested_eq_ok {p : Parser α} [Orderly p] {s s' : Session} {a : α}
    (h : nested p s = .ok a s') :
    0 < s.budget ∧ ∃ s₁, p (s.withDepth (s.depth + 1)) = .ok a s₁ ∧ s' = s₁.withDepth s.depth := by
  rcases Nat.eq_zero_or_pos s.budget with h0 | hpos
  · rw [nested_of_budget_eq_zero h0] at h
    cases h
  · refine ⟨hpos, ?_⟩
    cases hp : p (s.withDepth (s.depth + 1)) with
    | ok b s₁ =>
      rw [nested_of_ok hpos hp] at h
      cases h
      exact ⟨s₁, rfl, rfl⟩
    | error e s₁ =>
      rw [nested_of_error hpos hp] at h
      cases h

/-- A level more fails for want of levels, or because the parser fails one level deeper. -/
theorem nested_eq_error {p : Parser α} [Orderly p] {s s' : Session} {e : Error}
    (h : nested p s = .error e s') :
    (s.budget = 0 ∧ e = ⟨.tooDeep s.maxDepth, s.position⟩ ∧ s' = s) ∨
    (0 < s.budget ∧
      ∃ s₁, p (s.withDepth (s.depth + 1)) = .error e s₁ ∧ s' = s₁.withDepth s.depth) := by
  rcases Nat.eq_zero_or_pos s.budget with h0 | hpos
  · rw [nested_of_budget_eq_zero h0, overLimit_apply] at h
    cases h
    exact .inl ⟨h0, rfl, rfl⟩
  · refine .inr ⟨hpos, ?_⟩
    cases hp : p (s.withDepth (s.depth + 1)) with
    | ok b s₁ =>
      rw [nested_of_ok hpos hp] at h
      cases h
    | error e' s₁ =>
      rw [nested_of_error hpos hp] at h
      cases h
      exact ⟨s₁, rfl, rfl⟩

instance (p : Parser α) [Orderly p] : Orderly (nested p) where
  ok h := by
    obtain ⟨-, s₁, hp, rfl⟩ := nested_eq_ok h
    obtain ⟨c, hc, hs⟩ := Orderly.ok hp
    exact ⟨c, hc.ofDepth, hs⟩
  error h := by
    rcases nested_eq_error h with ⟨-, rfl, rfl⟩ | ⟨-, s₁, hp, rfl⟩
    · exact ⟨[], .refl _, fun _ => ⟨rfl, rfl⟩⟩
    · obtain ⟨c, hc, hs⟩ := Orderly.error hp
      exact ⟨c, hc.ofDepth, hs⟩

instance (p : Parser α) [Orderly p] [Progressing p] : Progressing (nested p) where
  lt h := by
    obtain ⟨-, s₁, hp, rfl⟩ := nested_eq_ok h
    have hlt := Progressing.lt hp
    exact hlt

/-! ### Loops -/

instance (test : Session → Bool) (step : Parser α) [Orderly step] :
    Orderly (repeatWhile test step : Parser (List α)) where
  ok {s as s'} h := by
    fun_induction repeatWhile test step s generalizing as s' with
    | case1 => cases h
    | case2 => cases h
    | case3 s _ a s₁ hstep _ as' s₂ hloop ih =>
      cases h
      obtain ⟨c, hc, hs⟩ := Orderly.ok hstep
      obtain ⟨d, hd, hs'⟩ := ih hloop
      exact ⟨c ++ d, hc.trans hd, hs' ∘ hs⟩
    | case4 s _ a s₁ hstep _ => cases h; exact Orderly.ok hstep
    | case5 => cases h; exact ⟨[], .refl _, id⟩
  error {s e s'} h := by
    fun_induction repeatWhile test step s generalizing s' with
    | case1 s _ e s₁ hstep => cases h; exact Orderly.error hstep
    | case2 s _ a s₁ hstep _ e s₂ hloop ih =>
      cases h
      obtain ⟨c, hc, hs⟩ := Orderly.ok hstep
      obtain ⟨d, hd, hs'⟩ := ih hloop
      exact ⟨c ++ d, hc.trans hd, hs' ∘ hs⟩
    | case3 => cases h
    | case4 => cases h
    | case5 => cases h

/-- A loop whose steps consume tokens stops in front of a session that fails its test. -/
theorem repeatWhile_of_not {test : Session → Bool} {step : Parser α} {s : Session}
    (h : test s = false) : repeatWhile test step s = .ok [] s := by
  rw [repeatWhile]
  simp [h]

/-- Otherwise it does a step and goes on. -/
theorem repeatWhile_of_test {test : Session → Bool} {step : Parser α} [Progressing step]
    {s : Session} (h : test s = true) :
    repeatWhile test step s =
      (do
        let a ← step
        let as ← (repeatWhile test step : Parser (List α))
        return a :: as : Parser (List α)) s := by
  rw [repeatWhile, if_pos h, bind_apply]
  cases hstep : step s with
  | error e s' => rfl
  | ok a s' =>
    have hlt := Progressing.lt hstep
    -- The step has taken a token, so the loop is not cut short.
    simp only [hlt, if_true]
    cases hloop : repeatWhile test step s' with
    | ok as s'' => rw [bind_of_ok hloop]; rfl
    | error e s'' => rw [bind_of_error hloop]

/-- A loop that succeeds has come to a session that fails its test. -/
theorem test_of_repeatWhile_eq_ok {test : Session → Bool} {step : Parser α} [Progressing step]
    {s s' : Session} {as : List α} (h : repeatWhile test step s = .ok as s') : test s' = false := by
  fun_induction repeatWhile test step s generalizing as s' with
  | case1 => cases h
  | case2 => cases h
  | case3 s _ a s₁ _ _ as' s₂ hloop ih =>
    cases h
    exact ih hloop
  | case4 s _ a s₁ hstep hlt => exact absurd (Progressing.lt hstep) hlt
  | case5 s ht =>
    cases h
    simpa using ht

end Parser

end Scriptlet
