import Scriptlet.Proofs.Shape

/-!
# Two sessions side by side

What a parser does depends on what it sees and on whether a level is refused, and on nothing else.
Take two sessions that stand at the same place, the second with at least as many levels as the
first, and let what comes in the second agree with what comes in the first as far as the first run
looks. Then the two runs go in step: they end in the same way, with the same tokens consumed, unless
the first one is refused a level; and then the second one has come at least as far.

The sources of the two sessions need not be the same, so this says both that the limit cuts a run
off without changing it and that an error depends on no token behind the one it is about.

A level is refused for good reason. A run that is refused one with `n` levels left at its start has
consumed tokens enough to account for them: twice the number of tokens, and a few that depend on the
production, are more than `n`.

## Main definitions

* `Beside`: two sessions at the same place;
* `Parser.Lockstep`: two parsers go in step on two sessions;
* `Parser.Steady`: they do so on all sessions side by side, and levels are accounted for.

## Main results

* `Parser.Steady.bind`, `Parser.Steady.nested`, `Parser.Steady.repeatWhile`: parsers put together;
* `Grammar.steady_expressions`, `Grammar.steady_statement`, `Parser.lockstep_program`,
  `Parser.budget_lt_of_program_eq_error`.
-/

namespace Scriptlet

/-- Two sessions that stand at the same place, the second with at least as many levels. -/
structure Beside (s s' : Session) : Prop where
  /-- They come from the same place. -/
  lastEnd : s'.lastEnd = s.lastEnd
  /-- They have the same label. -/
  file : s'.file = s.file
  /-- They have taken the same number of levels. -/
  depth : s'.depth = s.depth
  /-- The second one has at least as many levels. -/
  maxDepth : s.maxDepth ≤ s'.maxDepth

/-- Two sessions that look the same to a parser that does not take levels. -/
structure Alike (s s' : Session) : Prop where
  /-- They have the same token in front. -/
  lookahead : s'.lookahead = s.lookahead
  /-- They come from the same place. -/
  lastEnd : s'.lastEnd = s.lastEnd

namespace Beside

variable {s s' s₁ s₁' : Session} {c : List Token}

/-- The second session has at least as many levels left. -/
theorem budget (h : Beside s s') : s.budget ≤ s'.budget := by
  have := h.maxDepth
  rw [Session.budget, Session.budget, h.depth]
  omega

theorem withDepth (h : Beside s s') :
    Beside (s.withDepth (s.depth + 1)) (s'.withDepth (s'.depth + 1)) :=
  ⟨h.lastEnd, h.file, congrArg (· + 1) h.depth, h.maxDepth⟩

/-- Sessions stay side by side when they consume the same tokens. -/
theorem consumes (h : Beside s s') (hc : Consumes s c s₁) (hc' : Consumes s' c s₁') :
    Beside s₁ s₁' where
  lastEnd := by rw [hc.lastEnd, hc'.lastEnd, h.lastEnd]
  file := by rw [hc.file, hc'.file, h.file]
  depth := by rw [hc.depth, hc'.depth, h.depth]
  maxDepth := by
    rw [hc.maxDepth, hc'.maxDepth]
    exact h.maxDepth

/-- As far as the first run looks, both sessions look the same to a parser. -/
theorem alike (h : Beside s s') (hs : Sees s s₁ s'.upcoming s'.fault) : Alike s s' := by
  refine ⟨?_, h.lastEnd⟩
  rw [hs.lookahead, Session.head?_upcoming]

end Beside

namespace Alike

variable {s s' : Session}

/-- The same kind of token stands in front of both. -/
theorem kind? (h : Alike s s') : s'.kind? = s.kind? := by
  rw [Session.kind?, h.lookahead, Session.kind?]

theorem isAt (h : Alike s s') (kind : Kind) : s'.isAt kind = s.isAt kind := by
  rw [Session.isAt, h.kind?, Session.isAt]

/-- Both are at the same position. -/
theorem position (h : Alike s s') : s'.position = s.position := by
  rw [Session.position, h.lookahead, h.lastEnd, Session.position]

theorem spanFrom (h : Alike s s') (start : Position) : s'.spanFrom start = s.spanFrom start := by
  rw [Session.spanFrom, h.lastEnd, Session.spanFrom]

end Alike

namespace Parser

variable {α β : Type} {p p' : Parser α} {s s' : Session} {b b' k : Nat}

/-- Two runs end in the same way, or the first one is refused a level and the second one has come at
least as far. -/
def Lockstep (p p' : Parser α) (s s' : Session) : Prop :=
  (∃ c a s₁ s₁', p s = .ok a s₁ ∧ p' s' = .ok a s₁' ∧ Consumes s c s₁ ∧ Consumes s' c s₁') ∨
  (∃ c e s₁ s₁', p s = .error e s₁ ∧ p' s' = .error e s₁' ∧ Consumes s c s₁ ∧ Consumes s' c s₁') ∨
  (∃ c d e s₁, p s = .error e s₁ ∧ e.cause = .tooDeep s.maxDepth ∧ Consumes s c s₁ ∧
    Consumes s' (c ++ d) (p'.final s'))

/-- A run is refused a level only after tokens that account for all levels but `k`. -/
def Accounts (k : Nat) (p : Parser α) (s : Session) : Prop :=
  ∀ ⦃s' c e limit⦄, p s = .error e s' → e.cause = .tooDeep limit → Consumes s c s' →
    s.budget < 2 * c.length + k

/-- Sessions side by side with up to `b` and `b'` levels left go in step, and the first one is
refused a level only after tokens that account for all levels but `k`. -/
structure Steady (b b' k : Nat) (p p' : Parser α) : Prop where
  /-- The two runs go in step. -/
  lockstep : ∀ {s s'}, s.budget ≤ b → s'.budget ≤ b' → Beside s s' →
    Sees s (p.final s) s'.upcoming s'.fault → Lockstep p p' s s'
  /-- Levels are accounted for. -/
  cost : ∀ {s}, s.budget ≤ b → Accounts k p s

/-- More levels may be left unaccounted for. -/
theorem Accounts.mono {j : Nat} (h : Accounts k p s) (hkj : k ≤ j) : Accounts j p s := by
  intro s' c e limit hp he hc
  have := h hp he hc
  omega

theorem Accounts.of_ok {a : α} (h : p s = .ok a s') : Accounts k p s := by
  intro _ _ _ _ hp
  rw [h] at hp
  cases hp

theorem Accounts.congr {q : Parser α} (h : p s = q s) (hq : Accounts k q s) : Accounts k p s := by
  intro s' c e limit hp
  rw [h] at hp
  exact hq hp

/-- A run that gets to its second part has the tokens of the first one to account for levels. -/
theorem Accounts.bind {f : α → Parser β} [Orderly p] [∀ a, Orderly (f a)] (hp : Accounts k p s)
    (hf : ∀ {a s₁ c}, p s = .ok a s₁ → Consumes s c s₁ → Accounts (2 * c.length + k) (f a) s₁) :
    Accounts k (p >>= f) s := by
  intro s' c e limit h he hc
  rcases bind_eq_error h with hp₁ | ⟨a, s₁, hp₁, hf₁⟩
  · exact hp hp₁ he hc
  · obtain ⟨c₁, hc₁, -⟩ := Orderly.ok hp₁
    obtain ⟨c₂, hc₂, -⟩ := Orderly.error hf₁
    have hcost := hf hp₁ hc₁ hf₁ he hc₂
    rw [hc₁.budget] at hcost
    rw [hc.unique (hc₁.trans hc₂), List.length_append]
    omega

/-- A level more leaves one level more unaccounted for. -/
theorem Accounts.nested [Orderly p] (h : Accounts k p (s.withDepth (s.depth + 1))) :
    Accounts (k + 1) (nested p) s := by
  intro s' c e limit hp he hc
  rcases nested_eq_error hp with ⟨h0, -, -⟩ | ⟨hpos, s₁, hp₁, rfl⟩
  · omega
  · obtain ⟨d, hd, -⟩ := Orderly.error hp₁
    have hcost := h hp₁ he hd
    rw [hc.unique hd.ofDepth]
    simp only [Session.budget, Session.withDepth] at hcost hpos ⊢
    omega

namespace Lockstep

theorem congr {q q' : Parser α} (h : p s = q s) (h' : p' s' = q' s') (hq : Lockstep q q' s s') :
    Lockstep p p' s s' := by
  rw [Lockstep]
  rw [final, h, h']
  exact hq

theorem of_ok {a : α} (h : p s = .ok a s) (h' : p' s' = .ok a s') : Lockstep p p' s s' :=
  .inl ⟨[], a, s, s', h, h', .refl s, .refl s'⟩

theorem of_error {e : Error} (h : p s = .error e s) (h' : p' s' = .error e s') :
    Lockstep p p' s s' :=
  .inr (.inl ⟨[], e, s, s', h, h', .refl s, .refl s'⟩)

/-- A session that is refused a level at once is no further than any other. -/
theorem of_tooDeep [Orderly p'] {e : Error} (h : p s = .error e s)
    (he : e.cause = .tooDeep s.maxDepth) : Lockstep p p' s s' := by
  obtain ⟨d, hd⟩ := Orderly.final p' s'
  exact .inr (.inr ⟨[], d, e, s, h, he, .refl s, hd⟩)

/-- A sequence comes at least as far as its first part. -/
theorem exists_consumes_bind {f : α → Parser β} [∀ a, Orderly (f a)] {c : List Token}
    (hc : Consumes s c (p.final s)) : ∃ d, Consumes s (c ++ d) ((p >>= f).final s) := by
  cases hp : p s with
  | error e s₁ =>
    rw [final_of_error hp] at hc
    rw [final_of_error (bind_of_error hp)]
    exact ⟨[], by rwa [List.append_nil]⟩
  | ok a s₁ =>
    rw [final_of_ok hp] at hc
    obtain ⟨d, hd⟩ := Orderly.final (f a) s₁
    rw [final, bind_of_ok hp]
    exact ⟨d, hc.trans hd⟩

/-- The second parts of two sequences whose first parts went in step. -/
theorem lockstep_of_ok {f f' : α → Parser β} {a : α} {s₁ s₁' : Session} {c : List Token}
    (hp : p s = .ok a s₁) (hp' : p' s' = .ok a s₁') (hc : Consumes s c s₁) (hc' : Consumes s' c s₁')
    (hf : Lockstep (f a) (f' a) s₁ s₁') : Lockstep (p >>= f) (p' >>= f') s s' := by
  rcases hf with ⟨d, b, s₂, s₂', h, h', hd, hd'⟩ | ⟨d, e, s₂, s₂', h, h', hd, hd'⟩ |
    ⟨d, d', e, s₂, h, he, hd, hd'⟩
  · refine .inl ⟨c ++ d, b, s₂, s₂', ?_, ?_, hc.trans hd, hc'.trans hd'⟩
    · rw [bind_of_ok hp, h]
    · rw [bind_of_ok hp', h']
  · refine .inr (.inl ⟨c ++ d, e, s₂, s₂', ?_, ?_, hc.trans hd, hc'.trans hd'⟩)
    · rw [bind_of_ok hp, h]
    · rw [bind_of_ok hp', h']
  · refine .inr (.inr ⟨c ++ d, d', e, s₂, ?_, hc.maxDepth ▸ he, hc.trans hd, ?_⟩)
    · rw [bind_of_ok hp, h]
    · rw [final, bind_of_ok hp', List.append_assoc]
      exact hc'.trans hd'

/-- Sequences go in step if their first parts do, and then their second parts. -/
theorem bind {f f' : α → Parser β} [Orderly p] [∀ a, Orderly (f a)] [∀ a, Orderly (f' a)]
    (hsee : Sees s ((p >>= f).final s) s'.upcoming s'.fault)
    (hp : Sees s (p.final s) s'.upcoming s'.fault → Lockstep p p' s s')
    (hf : ∀ {a s₁ s₁' c}, p s = .ok a s₁ → Consumes s c s₁ → Consumes s' c s₁' →
      Sees s₁ ((f a).final s₁) s₁'.upcoming s₁'.fault → Lockstep (f a) (f' a) s₁ s₁') :
    Lockstep (p >>= f) (p' >>= f') s s' := by
  cases hp₁ : p s with
  | error e s₁ =>
    rw [final_of_error (bind_of_error hp₁), ← final_of_error hp₁] at hsee
    rcases hp hsee with ⟨_, _, _, _, h, -⟩ | ⟨c, e', s₂, s₂', h, h', hc, hc'⟩ |
      ⟨c, d, e', s₂, h, he, hc, hd⟩
    · rw [hp₁] at h
      cases h
    · exact .inr (.inl ⟨c, e', s₂, s₂', bind_of_error h, bind_of_error h', hc, hc'⟩)
    · -- The second run has gone on behind the first part, which only takes it further.
      obtain ⟨d', hd'⟩ := exists_consumes_bind (f := f') hd
      rw [List.append_assoc] at hd'
      exact .inr (.inr ⟨c, d ++ d', e', s₂, bind_of_error h, he, hc, hd'⟩)
  | ok a s₁ =>
    obtain ⟨c, hc, -⟩ := Orderly.ok hp₁
    obtain ⟨d, hd⟩ := Orderly.final (f a) s₁
    rw [final, bind_of_ok hp₁] at hsee
    have hfirst := Sees.of_consumes hc hd hsee
    rw [← final_of_ok hp₁] at hfirst
    rcases hp hfirst with ⟨c', a', s₂, s₂', h, h', hc₂, hc'⟩ | ⟨_, _, _, _, h, -⟩ |
      ⟨_, _, _, _, h, -⟩ <;> rw [hp₁] at h <;> cases h
    obtain ⟨us, hus, hsee'⟩ := Sees.exists_append hc₂ hd hsee
    have hup : us = s₂'.upcoming := List.append_cancel_left (hus.symm.trans hc'.upcoming)
    rw [hup, ← hc'.fault] at hsee'
    exact lockstep_of_ok hp₁ h' hc₂ hc' (hf hp₁ hc₂ hc' hsee')

/-- A level deeper two runs go in step if they would without the limit. -/
theorem nested [Orderly p] [Orderly p'] (hs : Beside s s')
    (hsee : Sees s ((nested p).final s) s'.upcoming s'.fault)
    (hp : Sees (s.withDepth (s.depth + 1)) (p.final (s.withDepth (s.depth + 1)))
        s'.upcoming s'.fault →
      Lockstep p p' (s.withDepth (s.depth + 1)) (s'.withDepth (s'.depth + 1))) :
    Lockstep (nested p) (nested p') s s' := by
  have hbudget := hs.budget
  rcases Nat.eq_zero_or_pos s.budget with h0 | hpos
  · exact of_tooDeep (nested_of_budget_eq_zero h0) rfl
  · have hpos' : 0 < s'.budget := by omega
    rw [final_nested hpos] at hsee
    rcases hp hsee with ⟨c, a, s₁, s₁', h, h', hc, hc'⟩ | ⟨c, e, s₁, s₁', h, h', hc, hc'⟩ |
      ⟨c, d, e, s₁, h, he, hc, hd⟩
    · exact .inl ⟨c, a, _, _, nested_of_ok hpos h, nested_of_ok hpos' h', hc.ofDepth, hc'.ofDepth⟩
    · exact .inr (.inl ⟨c, e, _, _, nested_of_error hpos h, nested_of_error hpos' h', hc.ofDepth,
        hc'.ofDepth⟩)
    · refine .inr (.inr ⟨c, d, e, _, nested_of_error hpos h, he, hc.ofDepth, ?_⟩)
      rw [final_nested hpos']
      exact hd.ofDepth

end Lockstep

namespace Steady

theorem mono {j : Nat} (h : Steady b b' k p p') (hkj : k ≤ j) : Steady b b' j p p' where
  lockstep := h.lockstep
  cost hb := (h.cost hb).mono hkj

/-- Parsers that consume nothing and take no level. -/
theorem still (h : ∀ {s s'}, Alike s s' →
      (∃ a, p s = .ok a s ∧ p' s' = .ok a s') ∨
      (∃ e, p s = .error e s ∧ p' s' = .error e s' ∧ ∀ limit, e.cause ≠ .tooDeep limit)) :
    Steady b b' k p p' where
  lockstep _ _ hs hsee := by
    rcases h (hs.alike hsee) with ⟨a, hp, hp'⟩ | ⟨e, hp, hp', -⟩
    · exact .of_ok hp hp'
    · exact .of_error hp hp'
  cost {s} _ := by
    intro _ _ _ _ hp he _
    rcases h (s := s) ⟨rfl, rfl⟩ with ⟨a, hp₁, -⟩ | ⟨e, hp₁, -, hne⟩ <;> rw [hp₁] at hp <;> cases hp
    exact absurd he (hne _)

theorem pure (a : α) : Steady b b' k (pure a) (pure a) :=
  still fun _ => .inl ⟨a, rfl, rfl⟩

theorem fail {cause : Cause} (h : ∀ limit, cause ≠ .tooDeep limit) :
    Steady b b' k (fail cause : Parser α) (fail cause) := by
  refine still fun hs => .inr ⟨_, rfl, ?_, h⟩
  rw [Parser.fail, hs.position]

theorem throw {e : Error} (h : ∀ limit, e.cause ≠ .tooDeep limit) :
    Steady b b' k (throw e : Parser α) (throw e) :=
  still fun _ => .inr ⟨e, rfl, rfl, h⟩

/-- What is looked at is the same. -/
theorem look {f f' : Session → Parser β} (h : ∀ {s s'}, Alike s s' → Steady b b' k (f s) (f' s')) :
    Steady b b' k (get >>= f) (get >>= f') where
  lockstep {s s'} hb hb' hs hsee := by
    have hfinal : (get >>= f).final s = (f s).final s := by rw [final, get_bind, final]
    refine .congr (get_bind f s) (get_bind f' s') ?_
    exact (h (hs.alike hsee)).lockstep hb hb' hs (hfinal ▸ hsee)
  cost {s} hb := .congr (get_bind f s) ((h (s := s) ⟨rfl, rfl⟩).cost hb)

/-- A token that is consumed in one session is consumed in the other, and a fault behind it is met
in both or in none. -/
theorem lockstep_eat {kind : Kind} {t : Token} {ts : List Token} (hu : s.upcoming = t :: ts)
    (hk : t.kind = kind) (hsee : Sees s ((Parser.eat kind).final s) s'.upcoming s'.fault) :
    Lockstep (Parser.eat kind) (Parser.eat kind) s s' := by
  have hup : ∀ {s₁ : Session}, Consumes s [t] s₁ → s₁.upcoming = ts := by
    intro s₁ hc
    have happend := hc.upcoming
    rw [hu] at happend
    exact (List.cons.inj happend).2.symm
  rcases eat_of_upcoming hu hk with ⟨hsettled, s₁, hp, hc⟩ | ⟨hnil, e, s₁, hf, hp, hc⟩
  · rw [final_of_ok hp] at hsee
    obtain ⟨us, hus, hsee⟩ := Sees.exists_append hc (.refl s₁) hsee
    rcases eat_of_upcoming hus hk with ⟨-, s₁', hp', hc'⟩ | ⟨rfl, e, s₁', hf', -, -⟩
    · exact .inl ⟨[t], t, s₁, s₁', hp, hp', hc, hc'⟩
    · -- The second run would meet a fault that the first one has seen is not there.
      exfalso
      rw [Sees, Agree.nil_right, hup hc, hc.fault, hf'] at hsee
      rw [hsettled hsee.1] at hsee
      cases hsee.2
  · rw [final_of_error hp] at hsee
    obtain ⟨us, hus, hsee⟩ := Sees.exists_append hc (.refl s₁) hsee
    rw [Sees, hup hc, hnil, Agree.nil_left, hc.fault, hf] at hsee
    rcases eat_of_upcoming hus hk with ⟨hsettled, -⟩ | ⟨-, e', s₁', hf', hp', hc'⟩
    · rw [hsettled hsee.1] at hsee
      cases hsee.2
    · rw [hf'] at hsee
      cases hsee.2
      exact .inr (.inl ⟨[t], e, s₁, s₁', hp, hp', hc, hc'⟩)

/-- A token is taken or refused on both sides, and never for want of levels. -/
theorem eat (kind : Kind) : Steady b b' k (eat kind) (eat kind) where
  lockstep {s s'} _ _ hs hsee := by
    have hl := (hs.alike hsee).lookahead
    cases hu : s.upcoming with
    | nil =>
      have hnone := Session.lookahead_eq_none_iff.2 hu
      refine .of_error (eat_of_lookahead_eq_none hnone) ?_
      rw [eat_of_lookahead_eq_none (hl.trans hnone), hs.lastEnd]
    | cons t ts =>
      by_cases hk : t.kind = kind
      · exact lockstep_eat hu hk hsee
      · have hsome := Session.lookahead_of_upcoming hu
        exact .of_error (eat_of_kind_ne hsome hk) (eat_of_kind_ne (hl.trans hsome) hk)
  cost {s} _ := by
    intro _ _ _ _ hp he _
    -- Taking a token fails for other reasons than levels.
    rcases eat_cases kind s with ⟨-, h⟩ | ⟨_, -, -, h⟩ | ⟨_, _, -, h, -⟩ |
      ⟨_, _, _, -, h, -, -, -, text, htext⟩ <;> rw [h] at hp <;> cases hp
    · cases he
    · cases he
    · rw [htext] at he
      cases he

/-- A sequence. The levels that its second part takes may exceed those it is allowed by as many as
the tokens of the first part account for. -/
theorem bind_of_le {j : Nat} {f f' : α → Parser β} [Orderly p] [∀ a, Orderly (f a)]
    [∀ a, Orderly (f' a)] (hp : Steady b b' k p p') (hf : ∀ a, Steady b b' j (f a) (f' a))
    (hj : ∀ {s a s₁ c}, p s = .ok a s₁ → Consumes s c s₁ → j ≤ 2 * c.length + k) :
    Steady b b' k (p >>= f) (p' >>= f') where
  lockstep hb hb' hs hsee := by
    refine .bind hsee (hp.lockstep hb hb' hs) fun _ hc hc' => ?_
    have hbudget := hc.budget
    have hbudget' := hc'.budget
    exact (hf _).lockstep (by omega) (by omega) (hs.consumes hc hc')
  cost hb := by
    refine (hp.cost hb).bind fun hp₁ hc => ?_
    have hbudget := hc.budget
    exact ((hf _).mono (hj hp₁ hc)).cost (by omega)

theorem bind {f f' : α → Parser β} [Orderly p] [∀ a, Orderly (f a)] [∀ a, Orderly (f' a)]
    (hp : Steady b b' k p p') (hf : ∀ a, Steady b b' k (f a) (f' a)) :
    Steady b b' k (p >>= f) (p' >>= f') :=
  hp.bind_of_le hf fun _ _ => Nat.le_add_left _ _

/-- Behind a token two more levels are accounted for. -/
theorem bind_of_progressing {f f' : α → Parser β} [Orderly p] [Progressing p]
    [∀ a, Orderly (f a)] [∀ a, Orderly (f' a)] (hp : Steady b b' k p p')
    (hf : ∀ a, Steady b b' (k + 2) (f a) (f' a)) : Steady b b' k (p >>= f) (p' >>= f') := by
  refine hp.bind_of_le hf fun h hc => ?_
  have hpos := List.length_pos_iff.2 (Progressing.ne_nil h hc)
  omega

theorem map (g : α → β) [Orderly p] (hp : Steady b b' k p p') :
    Steady b b' k (g <$> p) (g <$> p') := by
  rw [map_eq_pure_bind, map_eq_pure_bind]
  exact hp.bind fun a => pure (g a)

theorem discard [Orderly p] (hp : Steady b b' k p p') :
    Steady b b' k (discard p) (discard p') := by
  rw [discard_eq, discard_eq]
  exact hp.bind fun _ => pure ()

/-- Without a level the first run is refused at once. -/
theorem overLimit [Orderly p'] (hk : 0 < k) : Steady 0 b' k (overLimit : Parser α) p' where
  lockstep _ _ _ _ := .of_tooDeep rfl rfl
  cost hb := by
    intro _ _ _ _ _ _ _
    omega

theorem nested [Orderly p] [Orderly p'] (hp : Steady b b' k p p') :
    Steady (b + 1) (b' + 1) (k + 1) (nested p) (nested p') where
  lockstep hb hb' hs hsee :=
    .nested hs hsee (hp.lockstep (budget_nested hb) (budget_nested hb') hs.withDepth)
  cost hb := (hp.cost (budget_nested hb)).nested

/-- A loop goes in step if its steps do. The induction is on what remains in the first session. -/
theorem repeatWhile {test : Session → Bool} {step step' : Parser α} [Orderly step] [Orderly step']
    [Progressing step] [Progressing step']
    (htest : ∀ {s s'}, Alike s s' → test s' = test s) (h : Steady b b' k step step') :
    Steady b b' k (repeatWhile test step) (repeatWhile test step') where
  lockstep {s s'} hb hb' hs hsee := by
    -- Every step takes a token, so the induction is on what remains.
    induction hr : s.remaining using Nat.strongRecOn generalizing s s' with
    | ind r ih =>
      have hsame := htest (hs.alike hsee)
      cases ht : test s with
      | false => exact .of_ok (repeatWhile_of_not ht) (repeatWhile_of_not (hsame.trans ht))
      | true =>
        rw [final, repeatWhile_of_test ht, ← final] at hsee
        refine .congr (repeatWhile_of_test ht) (repeatWhile_of_test (hsame.trans ht))
          (.bind hsee (h.lockstep hb hb' hs) fun hstep hc hc' hsee => ?_)
        have hbudget := hc.budget
        have hbudget' := hc'.budget
        refine .bind hsee (fun hsee => ?_) fun _ _ _ _ => .of_ok rfl rfl
        exact ih _ (hr ▸ Progressing.lt hstep) (by omega) (by omega) (hs.consumes hc hc') hsee rfl
  cost {s} hb := by
    induction hr : s.remaining using Nat.strongRecOn generalizing s with
    | ind r ih =>
      cases ht : test s with
      | false => exact .of_ok (repeatWhile_of_not ht)
      | true =>
        refine .congr (repeatWhile_of_test ht) ((h.cost hb).bind fun hstep hc => ?_)
        have hbudget := hc.budget
        have hloop := ih _ (hr ▸ Progressing.lt hstep) (by omega) rfl
        -- The tokens of the first step account for levels as well, but none are needed.
        exact (hloop.mono (Nat.le_add_left _ _)).bind fun _ _ => .of_ok rfl

end Steady

end Parser

namespace Grammar

open Scriptlet.Parser

variable {α : Type} {b b' k : Nat}

/-! ### Tokens, separators and lists -/

/-- Accepting a token takes no level. -/
theorem steady_accept (kind : Kind) : Steady b b' k (accept kind) (accept kind) := by
  refine .look fun h => ?_
  rw [h.isAt]
  split
  · exact (Steady.eat kind).bind fun _ => .pure true
  · exact .pure false

/-- What a token announces may leave as many levels unaccounted for as its production. -/
theorem steady_optionally {kind : Kind} {p p' : Parser α} [Orderly p] [Orderly p']
    (hp : Steady b b' k p p') : Steady b b' k (optionally kind p) (optionally kind p') := by
  refine (steady_accept kind).bind fun found => ?_
  cases found
  · exact .pure none
  · exact hp.map some

theorem steady_skipLineBreaks : Steady b b' k skipLineBreaks skipLineBreaks :=
  ((Steady.eat _).repeatWhile fun h => h.isAt _).discard

theorem steady_optionalComma : Steady b b' k optionalComma optionalComma :=
  (steady_accept _).discard

theorem steady_identifier : Steady b b' k identifier identifier :=
  (Steady.eat _).bind fun _ => .pure _

theorem steady_endOfStatement : Steady b b' k endOfStatement endOfStatement := by
  refine .look fun h => ?_
  rw [h.kind?]
  split
  · exact (Steady.eat _).discard
  · exact .pure ()
  · exact (Steady.eat _).discard

/-- A list leaves no more levels unaccounted for than its elements. -/
theorem steady_listOf {element element' : Parser α} [Orderly element] [Orderly element']
    [Progressing element] [Progressing element'] (h : Steady b b' k element element') :
    Steady b b' k (listOf element) (listOf element') := by
  refine Steady.repeatWhile (fun hs => ?_) (h.bind fun _ => steady_optionalComma.bind fun _ =>
    .pure _)
  rw [Session.hasTokens, hs.lookahead, hs.isAt, Session.hasTokens]

/-- The opening brace accounts for two levels. -/
theorem steady_bodyOf {property property' : Parser α} [Orderly property] [Orderly property']
    [Progressing property] [Progressing property'] (h : Steady b b' (k + 2) property property') :
    Steady b b' k (bodyOf property) (bodyOf property') := by
  refine (Steady.eat _).bind_of_progressing fun opening => steady_skipLineBreaks.bind fun _ => ?_
  refine (Steady.repeatWhile (fun hs => by rw [hs.isAt]) (h.bind fun _ =>
    steady_skipLineBreaks.bind fun _ => .pure _)).bind fun properties => ?_
  refine (Steady.eat _).bind fun _ => .look fun hs => ?_
  rw [hs.spanFrom]
  exact .pure _

/-! ### Parameters -/

theorem steady_patternProperty : Steady b b' k patternProperty patternProperty := by
  rw [patternProperty_eq]
  refine steady_identifier.bind fun _ => (steady_optionally steady_identifier).bind fun _ =>
    .look fun hs => ?_
  rw [hs.spanFrom]
  exact steady_optionalComma.bind fun _ => .pure _

theorem steady_parameter : Steady b b' k parameter parameter := by
  refine .look fun hs => ?_
  rw [hs.isAt]
  split
  · exact steady_identifier.bind fun _ => .pure _
  · exact ((steady_bodyOf steady_patternProperty).bind fun _ => .pure _).bind fun _ => .pure _

/-! ### Expressions -/

section Expressions

variable {expression expression' sum sum' operand operand' value value' : Parser Expr}
  [Orderly expression] [Orderly expression'] [Orderly sum] [Orderly sum'] [Orderly operand]
  [Orderly operand'] [Orderly value] [Orderly value']

/-- Literals take no levels. -/
theorem steady_literal : Steady b b' k literal literal := by
  have hnumber : Steady b b' k numberLiteral numberLiteral := by
    refine (Steady.eat _).bind fun t => ?_
    rw [numberValue]
    split
    · exact .pure _
    · exact .throw (by simp)
  refine .look fun hs => ?_
  rw [hs.lookahead]
  split
  · exact .fail (by simp)
  split
  · exact hnumber
  split
  · exact (Steady.eat _).bind fun _ => .pure _
  · exact .fail (by simp)

/-- The opening parenthesis accounts for two levels. -/
theorem steady_parenthesized (h : Steady b b' (k + 2) expression expression') :
    Steady b b' k (parenthesized expression) (parenthesized expression') :=
  (Steady.eat _).bind_of_progressing fun _ => h.bind fun _ => (Steady.eat _).bind fun _ => .pure _

/-- The name of a call accounts for two levels. -/
theorem steady_callable [Progressing sum] [Progressing sum'] (h : Steady b b' (k + 2) sum sum') :
    Steady b b' k (callable sum) (callable sum') := by
  refine steady_identifier.bind_of_progressing fun callee => (steady_accept _).bind fun found => ?_
  cases found
  · exact .pure _
  · refine (steady_listOf h).bind fun _ => (Steady.eat _).bind fun _ => .look fun hs => ?_
    rw [hs.spanFrom]
    exact .pure _

/-- The three dots account for two levels. -/
theorem steady_spread (h : Steady b b' (k + 2) sum sum') :
    Steady b b' k (spread sum) (spread sum') :=
  (Steady.eat _).bind_of_progressing fun _ => h.bind fun _ => .pure _

theorem steady_propertyKey : Steady b b' k propertyKey propertyKey := by
  refine (steady_accept _).bind fun found => ?_
  cases found
  · exact steady_identifier
  · exact steady_identifier.bind fun _ => (Steady.eat _).bind fun _ => .pure _

omit [Orderly operand'] in
/-- A property takes no levels besides those of its value. -/
theorem steady_property (hoperand : Steady b b' k operand operand')
    (hvalue : Steady b b' k value value') :
    Steady b b' k (property operand value) (property operand' value') := by
  have hmember : Steady b b' k (member operand value) (member operand' value') := by
    refine .look fun hs => ?_
    rw [hs.isAt, hs.position]
    split
    · refine hoperand.bind fun _ => .look fun hs => ?_
      rw [hs.spanFrom]
      exact .pure _
    · refine steady_propertyKey.bind fun _ => (steady_optionally hvalue).bind fun _ =>
        .look fun hs => ?_
      rw [hs.spanFrom]
      exact .pure _
  rw [property_eq, property_eq]
  exact hmember.bind fun _ => steady_optionalComma.bind fun _ => .pure _

theorem steady_term (h : Steady b b' 1 operand operand') :
    Steady b b' 0 (term operand) (term operand') :=
  (Steady.eat _).bind_of_progressing fun _ => (h.mono (by omega)).bind fun _ => .pure _

/-- Each term takes a level and consumes a token at least. -/
theorem steady_terms (h : Steady b b' 1 operand operand') :
    Steady b b' 1 (terms operand) (terms operand') where
  lockstep {s s'} hb hb' hs hsee := by
    induction hr : s.remaining using Nat.strongRecOn generalizing s s' with
    | ind r ih =>
      have hsame := (hs.alike hsee).isAt .additiveOperator
      cases ht : s.isAt .additiveOperator with
      | false =>
        exact .of_ok (terms_of_not_isAt operand ht) (terms_of_not_isAt operand' (hsame.trans ht))
      | true =>
        rw [final, terms_of_isAt operand ht, ← final] at hsee
        refine .congr (terms_of_isAt operand ht) (terms_of_isAt operand' (hsame.trans ht))
          (.nested hs hsee fun hsee => .bind hsee ?_ fun hterm hc hc' hsee => ?_)
        · exact (steady_term h).lockstep (budget_le_nested hb) (budget_le_nested hb') hs.withDepth
        · have hbudget := hc.budget
          have hbudget' := hc'.budget
          have hb₁ := budget_le_nested hb
          have hb₁' := budget_le_nested hb'
          have hlt := Progressing.lt hterm
          refine .bind hsee (fun hsee => ?_) fun _ _ _ _ => .of_ok rfl rfl
          exact ih _ (hr ▸ hlt) (by omega) (by omega) (hs.withDepth.consumes hc hc') hsee rfl
  cost {s} hb := by
    induction hr : s.remaining using Nat.strongRecOn generalizing s with
    | ind r ih =>
      cases ht : s.isAt .additiveOperator with
      | false => exact .of_ok (terms_of_not_isAt operand ht)
      | true =>
        have hb₁ := budget_le_nested hb
        refine .congr (terms_of_isAt operand ht) (.nested (((steady_term h).cost hb₁).bind
          fun hterm hc => ?_))
        have hbudget := hc.budget
        -- The operator accounts for the level that the term keeps.
        have hpos := List.length_pos_iff.2 (Progressing.ne_nil hterm hc)
        have hlt := Progressing.lt hterm
        exact ((ih _ (hr ▸ hlt) (by omega) rfl).mono (by omega)).bind fun _ _ => .of_ok rfl

/-- A sum leaves one level unaccounted for, as its operands do. -/
theorem steady_additive (h : Steady b b' 1 operand operand') :
    Steady b b' 1 (additive operand) (additive operand') := by
  rw [additive_eq, additive_eq]
  exact h.bind fun _ => (steady_terms h).bind fun _ => .pure _

omit [Orderly operand'] in
/-- Behind its first token an assignment may leave two levels more. -/
theorem steady_assignmentOf [Progressing operand] (hoperand : Steady b b' 1 operand operand')
    (hvalue : Steady b b' 2 value value') :
    Steady b b' 1 (assignmentOf operand value) (assignmentOf operand' value') := by
  rw [assignmentOf_eq, assignmentOf_eq]
  refine hoperand.bind_of_progressing fun left => .look fun hs => ?_
  rw [hs.kind?]
  split
  · split
    · exact (Steady.eat _).bind fun _ => (hvalue.mono (by omega)).bind fun _ => .pure _
    · exact .pure left
  · exact .pure left

/-- Every expression without operators starts with a token that accounts for what it contains. -/
theorem steady_primaryOf [Progressing sum] [Progressing sum'] [Progressing operand]
    [Progressing operand'] (hexpression : Steady b b' 2 expression expression')
    (hsum : Steady b b' 1 sum sum') (hoperand : Steady b b' 1 operand operand') :
    Steady b b' 0 (primaryOf expression sum operand) (primaryOf expression' sum' operand') := by
  have hsum₂ : Steady b b' 2 sum sum' := hsum.mono (by omega)
  have hoperand₂ : Steady b b' 2 operand operand' := hoperand.mono (by omega)
  refine .look fun hs => ?_
  rw [hs.kind?]
  split
  · exact steady_parenthesized hexpression
  · exact (steady_bodyOf (steady_property hoperand₂ hsum₂)).bind fun _ => .pure _
  · exact steady_callable hsum₂
  · exact steady_spread hsum₂
  · exact steady_literal

end Expressions

/-- A primary leaves one level unaccounted for, and an assignment one more. -/
theorem steady_expressions (b b' : Nat) (hb : b ≤ b') :
    Steady b b' 2 (assignment b) (assignment b') ∧ Steady b b' 1 (primary b) (primary b') := by
  induction b generalizing b' with
  | zero =>
    rw [assignment_zero, primary_zero]
    exact ⟨.overLimit (by omega), .overLimit (by omega)⟩
  | succ b ih =>
    obtain ⟨b', rfl⟩ : ∃ c, b' = c + 1 := ⟨b' - 1, by omega⟩
    obtain ⟨hassignment, hprimary⟩ := ih b' (by omega)
    have hsum := steady_additive hprimary
    rw [assignment_succ, assignment_succ, primary_succ, primary_succ]
    exact ⟨(steady_assignmentOf hsum hassignment).nested,
      (steady_primaryOf hassignment hsum hprimary).nested⟩

/-! ### Statements -/

section Statements

variable {statement statement' : Parser Stmt} {value value' : Parser Expr} [Orderly statement]
  [Orderly statement'] [Progressing statement] [Progressing statement'] [Orderly value]
  [Orderly value']

/-- A list leaves no more levels unaccounted for than its statements. -/
theorem steady_statementList {stop : Option Kind} (hstop : stop ≠ some .lineBreak)
    (h : Steady b b' k statement statement') :
    Steady b b' k (statementList statement stop) (statementList statement' stop) := by
  rw [statementList_eq _ hstop, statementList_eq _ hstop]
  refine steady_skipLineBreaks.bind fun _ => .repeatWhile (fun hs => ?_) (h.bind fun _ =>
    steady_skipLineBreaks.bind fun _ => .pure _)
  rw [atStop, hs.kind?, atStop]

/-- The opening brace accounts for two levels. -/
theorem steady_block (h : Steady b b' (k + 2) statement statement') :
    Steady b b' k (block statement) (block statement') := by
  rw [block_eq, block_eq]
  refine (Steady.eat _).bind_of_progressing fun opening =>
    (steady_statementList (by simp) h).bind fun _ => (Steady.eat _).bind fun _ => .look fun hs => ?_
  rw [hs.spanFrom]
  exact .pure _

theorem steady_declarator (h : Steady b b' k value value') :
    Steady b b' k (declarator value) (declarator value') := by
  rw [declarator_eq, declarator_eq]
  refine steady_identifier.bind fun _ => (steady_optionally h).bind fun _ => .look fun hs => ?_
  rw [hs.spanFrom]
  exact .pure _

/-- A declaration takes no levels besides those of its values. -/
theorem steady_declaration (h : Steady b b' k value value') :
    Steady b b' k (declaration value) (declaration value') := by
  have hnext : Steady b b' k (nextDeclarator value) (nextDeclarator value') :=
    (Steady.eat _).bind fun _ => steady_skipLineBreaks.bind fun _ => steady_declarator h
  have hof : ∀ kind word, Steady b b' k (declarationOf value kind word)
      (declarationOf value' kind word) := by
    intro kind word
    refine (Steady.eat _).bind fun _ => (steady_declarator h).bind fun _ =>
      (Steady.repeatWhile (fun hs => hs.isAt _) hnext).bind fun _ => .look fun hs => ?_
    rw [hs.spanFrom]
    exact steady_endOfStatement.bind fun _ => .pure _
  rw [declaration_eq, declaration_eq]
  refine .look fun hs => ?_
  rw [hs.kind?]
  exact hof _ _

theorem steady_resultStatement (h : Steady b b' k value value') :
    Steady b b' k (resultStatement value) (resultStatement value') := by
  refine (Steady.eat _).bind fun _ => h.bind fun _ => .look fun hs => ?_
  rw [hs.spanFrom]
  exact steady_endOfStatement.bind fun _ => .pure _

theorem steady_expectBody : Steady b b' k expectBody expectBody := by
  refine .look fun hs => ?_
  rw [hs.lookahead]
  split
  · exact .fail (by simp)
  · split
    · exact .pure ()
    · exact .fail (by simp)

/-- The word of a function accounts for two levels. -/
theorem steady_function (h : Steady b b' (k + 2) statement statement') :
    Steady b b' k (function statement) (function statement') := by
  refine (Steady.eat _).bind fun _ => steady_identifier.bind fun _ => (Steady.eat _).bind fun _ =>
    (steady_listOf steady_parameter).bind fun _ => (Steady.eat _).bind fun _ =>
    steady_expectBody.bind fun _ => (steady_block h).bind fun _ => .look fun hs => ?_
  rw [hs.spanFrom]
  exact .pure _

/-- A statement leaves no more levels than an assignment, since blocks start with a token. -/
theorem steady_statementOf {expression expression' sum sum' : Parser Expr} [Orderly expression]
    [Orderly expression'] [Orderly sum] [Orderly sum']
    (hstatement : Steady b b' 3 statement statement')
    (hexpression : Steady b b' 2 expression expression') (hsum : Steady b b' 1 sum sum') :
    Steady b b' 2 (statementOf statement expression sum)
      (statementOf statement' expression' sum') := by
  -- Bodies stand behind a brace, so they may leave a level more.
  have hstatement₄ : Steady b b' 4 statement statement' := hstatement.mono (by omega)
  have hsum₂ : Steady b b' 2 sum sum' := hsum.mono (by omega)
  refine .look fun hs => ?_
  rw [hs.kind?]
  split
  · exact (Steady.eat _).bind fun _ => .pure _
  · exact (steady_block hstatement₄).bind fun _ => .pure _
  · exact steady_declaration hexpression
  · exact steady_declaration hexpression
  · exact steady_declaration hexpression
  · exact steady_resultStatement hsum₂
  · exact steady_function hstatement₄
  · exact hexpression.bind fun _ => steady_endOfStatement.bind fun _ => .pure _

end Statements

/-- A statement leaves three levels unaccounted for: its own, and those of an assignment. -/
theorem steady_statement (b b' : Nat) (hb : b ≤ b') :
    Steady b b' 3 (statement b) (statement b') := by
  induction b generalizing b' with
  | zero =>
    rw [statement_zero]
    exact .overLimit (by omega)
  | succ b ih =>
    obtain ⟨b', rfl⟩ : ∃ c, b' = c + 1 := ⟨b' - 1, by omega⟩
    obtain ⟨hassignment, hprimary⟩ := steady_expressions b b' (by omega)
    rw [statement_succ, statement_succ]
    exact (steady_statementOf (ih b' (by omega)) hassignment (steady_additive hprimary)).nested

end Grammar

namespace Parser

/-- A whole program behind a number of levels given. -/
theorem steady_programOf (b b' : Nat) (hb : b ≤ b') (file : String) :
    Steady b b' 3
      (do
        let body ← Grammar.statementList (Grammar.statement b) none
        return (⟨body, (← get).spanFrom (.of file 0)⟩ : Program))
      (do
        let body ← Grammar.statementList (Grammar.statement b') none
        return (⟨body, (← get).spanFrom (.of file 0)⟩ : Program)) := by
  refine (Grammar.steady_statementList (by simp) (Grammar.steady_statement b b' hb)).bind fun _ =>
    .look fun hs => ?_
  rw [hs.spanFrom]
  exact .pure _

/-- Two sessions side by side read programs in step. -/
theorem lockstep_program {s s' : Session} (hs : Beside s s')
    (hsee : Sees s (program.final s) s'.upcoming s'.fault) : Lockstep program program s s' := by
  rw [final, program_apply, ← final] at hsee
  refine .congr (program_apply s) (program_apply s') ?_
  rw [hs.file]
  exact (steady_programOf _ _ hs.budget _).lockstep (Nat.le_refl _) (Nat.le_refl _) hs hsee

/-- A session that is refused a level has consumed tokens that account for all levels but three. -/
theorem budget_lt_of_program_eq_error {s s' : Session} {e : Error} {limit : Nat} {c : List Token}
    (h : program s = .error e s') (he : e.cause = .tooDeep limit) (hc : Consumes s c s') :
    s.budget < 2 * c.length + 3 := by
  rw [program_apply] at h
  exact (steady_programOf _ _ (Nat.le_refl _) _).cost (Nat.le_refl _) h he hc

end Parser

end Scriptlet
