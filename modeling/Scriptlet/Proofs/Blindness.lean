import Scriptlet.Proofs.Relocation
import Scriptlet.Proofs.Shape

/-!
# Parsers are blind to positions

A parser carries positions from tokens into trees and errors, and never decides anything by them.
Take two sessions in front of tokens of the same kinds and texts, and two maps under which their
positions become the same. Then what the two runs give becomes the same under these maps: trees and
errors, and the tokens consumed.

As in all statements about runs, nothing is asked of tokens that a run does not get to see. Of the
token in front of which a run stops it sees the kind, the text and the start; where that token ends
is known only once it is consumed. The end of the last token consumed shows only in spans of what
has been consumed and in errors at the end of the input. So two sessions need not agree on it as
long as there is a token in front of them, and `strict` says whether they do.

## Main definitions

* `Faces`, `Alongside`: tokens, and feeds, that look the same under two maps;
* `Shadows`: sessions that stand at corresponding places;
* `Parser.Tracks`: two runs end in corresponding ways;
* `Parser.Blind`: they do so from all corresponding sessions.

## Main results

* `Parser.Blind.bind`, `Parser.Blind.nested`, `Parser.Blind.repeatWhile`: parsers put together;
* `Grammar.blind_expressions`, `Grammar.blind_statement`: the productions.
-/

namespace Scriptlet

variable {φ ψ : Position → Position}

/-! ### Tokens and feeds -/

/-- Tokens correspond if their kinds, texts and spans do. -/
theorem Token.relocate_eq_iff {t u : Token} : relocate φ t = relocate ψ u ↔
    t.kind = u.kind ∧ t.value = u.value ∧ relocate φ t.span = relocate ψ u.span :=
  .of_eq (Token.mk.injEq ..)

theorem Span.relocate_eq_iff {a b : Span} :
    relocate φ a = relocate ψ b ↔ φ a.start = ψ b.start ∧ φ a.stop = ψ b.stop :=
  .of_eq (Span.mk.injEq ..)

theorem Identifier.relocate_eq_iff {a b : Identifier} : relocate φ a = relocate ψ b ↔
    a.name = b.name ∧ relocate φ a.span = relocate ψ b.span :=
  .of_eq (Identifier.mk.injEq ..)

/-- Corresponding expressions have corresponding spans. -/
theorem Expr.relocate_span {e e' : Expr} (h : relocate φ e = relocate ψ e') :
    relocate φ e.span = relocate ψ e'.span := by
  rw [← Expr.span_relocate, h, Expr.span_relocate]

/-- Two tokens look the same to a parser in front of them. -/
structure Faces (φ ψ : Position → Position) (t u : Token) : Prop where
  /-- They are of the same kind. -/
  kind : u.kind = t.kind
  /-- They have the same text. -/
  value : u.value = t.value
  /-- They start at corresponding positions. -/
  start : φ t.span.start = ψ u.span.start

namespace Faces

variable {t u : Token}

/-- Corresponding tokens look the same. -/
theorem of_relocate (h : relocate φ t = relocate ψ u) : Faces φ ψ t u := by
  obtain ⟨hk, hv, hs⟩ := Token.relocate_eq_iff.1 h
  exact ⟨hk.symm, hv.symm, (Span.relocate_eq_iff.1 hs).1⟩

/-- A message shows them in the same way. -/
theorem display (h : Faces φ ψ t u) : u.display = t.display := by
  rw [Token.display, h.kind, h.value, Token.display]

end Faces

/-- Two feeds look the same under two maps, from behind their first `k` tokens. -/
def Alongside (φ ψ : Position → Position) :
    Nat → List Token → Option Error → List Token → Option Error → Prop
  | _, [], f, [], g => relocate φ f = relocate ψ g
  | 0, t :: _, _, u :: _, _ => Faces φ ψ t u
  | k + 1, t :: ts, f, u :: us, g => relocate φ t = relocate ψ u ∧ Alongside φ ψ k ts f us g
  | _, _, _, _, _ => False

namespace Alongside

variable {k j : Nat} {c d ts us : List Token} {f g : Option Error}

@[simp] theorem nil_left :
    Alongside φ ψ k [] f us g ↔ us = [] ∧ relocate φ f = relocate ψ g := by
  cases us <;> simp [Alongside]

@[simp] theorem nil_right :
    Alongside φ ψ k ts f [] g ↔ ts = [] ∧ relocate φ f = relocate ψ g := by
  cases ts <;> simp [Alongside]

/-- In front of a token there is one that looks the same. -/
theorem faces {t : Token} (h : Alongside φ ψ k (t :: ts) f us g) :
    ∃ u vs, us = u :: vs ∧ Faces φ ψ t u := by
  cases us with
  | nil => simp at h
  | cons u us => cases k with
    | zero => exact ⟨u, us, rfl, h⟩
    | succ k => exact ⟨u, us, rfl, .of_relocate h.1⟩

/-- What looks the same from further on looks the same from here. -/
theorem mono (hjk : j ≤ k) (h : Alongside φ ψ k ts f us g) : Alongside φ ψ j ts f us g := by
  induction j generalizing k ts us with
  | zero => cases ts with
    | nil => simpa using h
    | cons t ts =>
      obtain ⟨u, vs, rfl, hface⟩ := h.faces
      exact hface
  | succ j ih =>
    -- A token further on is compared as a whole, one more than here.
    obtain ⟨k, rfl⟩ : ∃ i, k = i + 1 := ⟨k - 1, by omega⟩
    cases ts with
    | nil => simpa using h
    | cons t ts => cases us with
      | nil => simp at h
      | cons u us => exact ⟨h.1, ih (by omega) h.2⟩

/-- Behind tokens consumed on one side the other side has consumed corresponding ones. -/
theorem append (h : Alongside φ ψ (c.length + k) (c ++ ts) f us g) :
    ∃ d vs, us = d ++ vs ∧ relocate φ c = relocate ψ d ∧ Alongside φ ψ k ts f vs g := by
  induction c generalizing us with
  | nil => exact ⟨[], us, rfl, rfl, by simpa using h⟩
  | cons t c ih => cases us with
    | nil => simp at h
    | cons u us =>
      rw [List.length_cons, Nat.add_right_comm] at h
      obtain ⟨htu, h⟩ := h
      obtain ⟨d, vs, rfl, hcd, hvs⟩ := ih h
      exact ⟨u :: d, vs, rfl, by simp [htu, hcd], hvs⟩

/-- Feeds that look the same look the same behind corresponding tokens in front of them. -/
theorem of_append (hcd : relocate φ c = relocate ψ d) (h : Alongside φ ψ k ts f us g) :
    Alongside φ ψ (c.length + k) (c ++ ts) f (d ++ us) g := by
  induction c generalizing d with
  | nil =>
    obtain rfl : d = [] := by simpa using congrArg List.length hcd.symm
    simpa using h
  | cons t c ih => cases d with
    | nil => simp at hcd
    | cons u d =>
      simp only [relocate_cons, List.cons.injEq] at hcd
      rw [List.length_cons, Nat.add_right_comm]
      exact ⟨hcd.1, ih hcd.2⟩

/-- Feeds that are the same under the two maps look the same from everywhere. -/
theorem of_relocate (k : Nat) (hts : relocate φ ts = relocate ψ us)
    (hf : relocate φ f = relocate ψ g) : Alongside φ ψ k ts f us g := by
  have h : Alongside φ ψ k [] f [] g := nil_left.2 ⟨rfl, hf⟩
  have happend := of_append hts h
  rw [List.append_nil, List.append_nil] at happend
  exact mono (Nat.le_add_left k _) happend

end Alongside

/-! ### Sessions -/

/-- As far as a run from `s` to `s₁` has looked, `s'` looks the same as `s`. -/
def Watches (φ ψ : Position → Position) (s s₁ s' : Session) : Prop :=
  Alongside φ ψ (s.upcoming.length - s₁.upcoming.length) s.upcoming s.fault s'.upcoming s'.fault

/-- Two sessions that stand at corresponding places with the same levels. Where `strict` is false,
they may have come from different places if there is a token in front of them. -/
structure Shadows (φ ψ : Position → Position) (strict : Bool) (s s' : Session) : Prop where
  /-- They have taken the same number of levels. -/
  depth : s'.depth = s.depth
  /-- They have the same number of levels. -/
  maxDepth : s'.maxDepth = s.maxDepth
  /-- They come from corresponding places. -/
  lastEnd : φ s.lastEnd = ψ s'.lastEnd ∨ strict = false ∧ s.upcoming ≠ []

/-- What a parser sees of two sessions. -/
structure Seen (φ ψ : Position → Position) (strict : Bool) (s s' : Session) : Prop where
  /-- There are tokens in front of both or of neither, and they look the same. -/
  lookahead : s.lookahead = none ∧ s'.lookahead = none ∨
    ∃ t u, s.lookahead = some t ∧ s'.lookahead = some u ∧ Faces φ ψ t u
  /-- They stand at corresponding positions. -/
  position : φ s.position = ψ s'.position
  /-- They come from corresponding places. -/
  lastEnd : strict = true → φ s.lastEnd = ψ s'.lastEnd
  /-- They have the same number of levels. -/
  maxDepth : s'.maxDepth = s.maxDepth

namespace Seen

variable {strict : Bool} {s s' : Session}

/-- Both have tokens of the same kind in front of them, or none. -/
theorem kind? (h : Seen φ ψ strict s s') : s'.kind? = s.kind? := by
  rcases h.lookahead with ⟨hs, hs'⟩ | ⟨t, u, hs, hs', hface⟩
  · rw [Session.kind?, Session.kind?, hs, hs']
  · rw [Session.kind?, Session.kind?, hs, hs', Option.map_some, Option.map_some, hface.kind]

theorem isAt (h : Seen φ ψ strict s s') (kind : Kind) : s'.isAt kind = s.isAt kind := by
  rw [Session.isAt, h.kind?, Session.isAt]

/-- Both have tokens left, or neither has. -/
theorem hasTokens (h : Seen φ ψ strict s s') : s'.hasTokens = s.hasTokens := by
  rcases h.lookahead with ⟨hs, hs'⟩ | ⟨t, u, hs, hs', -⟩ <;>
    simp [Session.hasTokens, hs, hs']

/-- Spans that end with the last tokens consumed correspond if they start at corresponding places.
-/
theorem spanFrom (h : Seen φ ψ true s s') {start start' : Position} (hstart : φ start = ψ start') :
    relocate φ (s.spanFrom start) = relocate ψ (s'.spanFrom start') :=
  Span.relocate_eq_iff.2 ⟨hstart, h.lastEnd rfl⟩

end Seen

/-- The end of the last of corresponding tokens. -/
theorem stopOf_relocate {c d : List Token} (h : relocate φ c = relocate ψ d) (hc : c ≠ [])
    (p q : Position) : φ (stopOf p c) = ψ (stopOf q d) := by
  have hlast := congrArg List.getLast? h
  change (c.map (relocate φ)).getLast? = (d.map (relocate ψ)).getLast? at hlast
  rw [List.getLast?_map, List.getLast?_map, List.getLast?_eq_some_getLast hc] at hlast
  obtain ⟨u, hu, htu⟩ := Option.map_eq_some_iff.1 hlast.symm
  obtain ⟨-, -, hspan⟩ := Token.relocate_eq_iff.1 htu.symm
  rw [stopOf, stopOf, List.getLast?_eq_some_getLast hc, hu]
  exact (Span.relocate_eq_iff.1 hspan).2

namespace Shadows

variable {strict : Bool} {s s' s₁ s₁' s₂ : Session} {c c' d : List Token}

/-- Both have as many levels left. -/
theorem budget (h : Shadows φ ψ strict s s') : s'.budget = s.budget := by
  rw [Session.budget, h.depth, h.maxDepth, Session.budget]

theorem weaken (h : Shadows φ ψ strict s s') : Shadows φ ψ false s s' :=
  ⟨h.depth, h.maxDepth, h.lastEnd.imp_right fun h => ⟨rfl, h.2⟩⟩

/-- Both may take a level more. -/
theorem withDepth (h : Shadows φ ψ strict s s') :
    Shadows φ ψ strict (s.withDepth (s.depth + 1)) (s'.withDepth (s'.depth + 1)) :=
  ⟨congrArg (· + 1) h.depth, h.maxDepth, h.lastEnd⟩

/-- Behind a token they have come from corresponding places. -/
theorem strict_of_ne_nil (h : Shadows φ ψ strict s s') (hc : Consumes s c s₁)
    (hc' : Consumes s' c' s₁') (hcc : relocate φ c = relocate ψ c') (hne : c ≠ []) :
    Shadows φ ψ true s₁ s₁' := by
  refine ⟨?_, ?_, .inl ?_⟩
  · rw [hc.depth, hc'.depth, h.depth]
  · rw [hc.maxDepth, hc'.maxDepth, h.maxDepth]
  · rw [hc.lastEnd, hc'.lastEnd]
    exact stopOf_relocate hcc hne _ _

/-- Sessions stay at corresponding places when they consume corresponding tokens. -/
theorem consumes (h : Shadows φ ψ strict s s') (hc : Consumes s c s₁) (hc' : Consumes s' c' s₁')
    (hcc : relocate φ c = relocate ψ c') : Shadows φ ψ strict s₁ s₁' := by
  by_cases hnil : c = []
  · have hnil' : c' = [] := by simpa [hnil] using congrArg List.length hcc.symm
    rwa [hc.idle hnil, hc'.idle hnil']
  · obtain ⟨hdepth, hmaxDepth, hlastEnd⟩ := h.strict_of_ne_nil hc hc' hcc hnil
    exact ⟨hdepth, hmaxDepth, .inl (hlastEnd.resolve_right (by simp))⟩

/-- As far as a run has looked, a parser sees the same in front of both. -/
theorem seen (h : Shadows φ ψ strict s s') (hw : Watches φ ψ s s₁ s') : Seen φ ψ strict s s' := by
  have hstrict : strict = true → φ s.lastEnd = ψ s'.lastEnd := by
    rintro rfl
    exact h.lastEnd.resolve_right fun h => Bool.noConfusion h.1
  cases hu : s.upcoming with
  | nil =>
    rw [Watches, hu, Alongside.nil_left] at hw
    have hs := Session.lookahead_eq_none_iff.2 hu
    have hs' := Session.lookahead_eq_none_iff.2 hw.1
    refine ⟨.inl ⟨hs, hs'⟩, ?_, hstrict, h.maxDepth⟩
    rw [Session.position, Session.position, hs, hs']
    -- At the end of the input both positions are the ends of the last tokens, so there they have to
    -- correspond.
    exact h.lastEnd.resolve_right fun h => h.2 hu
  | cons t ts =>
    rw [Watches, hu] at hw
    obtain ⟨u, us, hu', hface⟩ := hw.faces
    have hs := Session.lookahead_of_upcoming hu
    have hs' := Session.lookahead_of_upcoming hu'
    refine ⟨.inr ⟨t, u, hs, hs', hface⟩, ?_, hstrict, h.maxDepth⟩
    rw [Session.position, Session.position, hs, hs']
    exact hface.start

end Shadows

namespace Watches

variable {s s₁ s₂ s' s₁' : Session} {c c' d : List Token}

/-- A run that went on has looked at least as far. -/
theorem of_consumes (hc : Consumes s c s₁) (hd : Consumes s₁ d s₂) (h : Watches φ ψ s s₂ s') :
    Watches φ ψ s s₁ s' := by
  refine Alongside.mono ?_ h
  rw [hc.upcoming, hd.upcoming]
  simp only [List.length_append]
  omega

/-- Behind corresponding tokens a run sees what looks the same. -/
theorem append (hc : Consumes s c s₁) (hd : Consumes s₁ d s₂) (hc' : Consumes s' c' s₁')
    (hcc : relocate φ c = relocate ψ c') (h : Watches φ ψ s s₂ s') : Watches φ ψ s₁ s₂ s₁' := by
  have hlength : s.upcoming.length - s₂.upcoming.length =
      c.length + (s₁.upcoming.length - s₂.upcoming.length) := by
    rw [hc.upcoming, hd.upcoming]
    simp only [List.length_append]
    omega
  rw [Watches, hlength, hc.upcoming, ← hc.fault, ← hc'.fault] at h
  obtain ⟨d', vs, happend, hcd, h⟩ := h.append
  have hlen : c'.length = d'.length := by
    have := congrArg List.length hcc
    have := congrArg List.length hcd
    simp only [length_relocate] at *
    omega
  rw [hc'.upcoming] at happend
  rw [Watches, (List.append_inj happend hlen).2]
  exact h

end Watches

namespace Parser

variable {α β : Type} [Relocatable α] [Relocatable β] {p p' : Parser α} {s s' : Session}
  {strict : Bool}

/-! ### Runs -/

/-- Two runs consume corresponding tokens and end in corresponding ways. -/
def Tracks (φ ψ : Position → Position) (p p' : Parser α) (s s' : Session) : Prop :=
  (∃ c c' a a' s₁ s₁', p s = .ok a s₁ ∧ p' s' = .ok a' s₁' ∧ relocate φ a = relocate ψ a' ∧
    Consumes s c s₁ ∧ Consumes s' c' s₁' ∧ relocate φ c = relocate ψ c') ∨
  (∃ c c' e e' s₁ s₁', p s = .error e s₁ ∧ p' s' = .error e' s₁' ∧ relocate φ e = relocate ψ e' ∧
    Consumes s c s₁ ∧ Consumes s' c' s₁' ∧ relocate φ c = relocate ψ c')

/-- From sessions at corresponding places that look the same, the runs end in corresponding ways. -/
def Blind (φ ψ : Position → Position) (strict : Bool) (p p' : Parser α) : Prop :=
  ∀ ⦃s s'⦄, Shadows φ ψ strict s s' → Watches φ ψ s (p.final s) s' → Tracks φ ψ p p' s s'

namespace Tracks

theorem congr {q q' : Parser α} (h : p s = q s) (h' : p' s' = q' s') (hq : Tracks φ ψ q q' s s') :
    Tracks φ ψ p p' s s' := by
  rw [Tracks, h, h']
  exact hq

theorem of_ok {a a' : α} (h : p s = .ok a s) (h' : p' s' = .ok a' s')
    (ha : relocate φ a = relocate ψ a') : Tracks φ ψ p p' s s' :=
  .inl ⟨[], [], a, a', s, s', h, h', ha, .refl s, .refl s', rfl⟩

theorem of_error {e e' : Error} (h : p s = .error e s) (h' : p' s' = .error e' s')
    (he : relocate φ e = relocate ψ e') : Tracks φ ψ p p' s s' :=
  .inr ⟨[], [], e, e', s, s', h, h', he, .refl s, .refl s', rfl⟩

/-- Sequences end in corresponding ways if their first parts do, and then their second parts. -/
theorem bind {f f' : α → Parser β} [Orderly p] [∀ a, Orderly (f a)]
    (hw : Watches φ ψ s ((p >>= f).final s) s')
    (hp : Watches φ ψ s (p.final s) s' → Tracks φ ψ p p' s s')
    (hf : ∀ {a a' s₁ s₁' c c'}, p s = .ok a s₁ → relocate φ a = relocate ψ a' → Consumes s c s₁ →
      Consumes s' c' s₁' → relocate φ c = relocate ψ c' → Watches φ ψ s₁ ((f a).final s₁) s₁' →
      Tracks φ ψ (f a) (f' a') s₁ s₁') :
    Tracks φ ψ (p >>= f) (p' >>= f') s s' := by
  cases hp₁ : p s with
  | error e s₁ =>
    rw [final_of_error (bind_of_error hp₁), ← final_of_error hp₁] at hw
    rcases hp hw with ⟨_, _, _, _, _, _, h, -⟩ | ⟨c, c', e₁, e₁', s₂, s₂', h, h', he, hc⟩
    · rw [hp₁] at h
      cases h
    · exact .inr ⟨c, c', e₁, e₁', s₂, s₂', bind_of_error h, bind_of_error h', he, hc⟩
  | ok a s₁ =>
    obtain ⟨c, hc, -⟩ := Orderly.ok hp₁
    obtain ⟨d, hd⟩ := Orderly.final (f a) s₁
    rw [final, bind_of_ok hp₁] at hw
    -- The second part has looked further than the first one.
    have hfirst := Watches.of_consumes hc hd hw
    rw [← final_of_ok hp₁] at hfirst
    rcases hp hfirst with ⟨c₁, c', a₁, a', s₂, s₁', h, h', ha, hc₁, hc', hcc⟩ |
      ⟨_, _, _, _, _, _, h, -⟩ <;> rw [hp₁] at h <;> cases h
    have hw' := Watches.append hc₁ hd hc' hcc hw
    rcases hf hp₁ ha hc₁ hc' hcc hw' with ⟨d₁, d', b, b', s₂, s₂', h₂, h₂', hb, hd₁, hd', hdd⟩ |
      ⟨d₁, d', e, e', s₂, s₂', h₂, h₂', he, hd₁, hd', hdd⟩
    · refine .inl ⟨c₁ ++ d₁, c' ++ d', b, b', s₂, s₂', ?_, ?_, hb, hc₁.trans hd₁, hc'.trans hd', ?_⟩
      · rw [bind_of_ok hp₁, h₂]
      · rw [bind_of_ok h', h₂']
      · rw [relocate_append, relocate_append, hcc, hdd]
    · refine .inr ⟨c₁ ++ d₁, c' ++ d', e, e', s₂, s₂', ?_, ?_, he, hc₁.trans hd₁, hc'.trans hd', ?_⟩
      · rw [bind_of_ok hp₁, h₂]
      · rw [bind_of_ok h', h₂']
      · rw [relocate_append, relocate_append, hcc, hdd]

theorem of_overLimit (hs : Seen φ ψ strict s s') :
    Tracks φ ψ (overLimit : Parser α) overLimit s s' :=
  .of_error rfl rfl (by rw [relocate_error, relocate_error, hs.position, hs.maxDepth])

/-- A level is refused in both runs or in none. -/
theorem nested [Orderly p] [Orderly p'] (hs : Shadows φ ψ strict s s')
    (hw : Watches φ ψ s ((nested p).final s) s')
    (hp : Watches φ ψ (s.withDepth (s.depth + 1)) (p.final (s.withDepth (s.depth + 1)))
        (s'.withDepth (s'.depth + 1)) →
      Tracks φ ψ p p' (s.withDepth (s.depth + 1)) (s'.withDepth (s'.depth + 1))) :
    Tracks φ ψ (nested p) (nested p') s s' := by
  have hbudget := hs.budget
  rcases Nat.eq_zero_or_pos s.budget with h0 | hpos
  · exact .congr (nested_of_budget_eq_zero h0) (nested_of_budget_eq_zero (hbudget.trans h0))
      (.of_overLimit (hs.seen hw))
  · rw [final_nested hpos] at hw
    have hpos' : 0 < s'.budget := hbudget ▸ hpos
    rcases hp hw with ⟨c, c', a, a', s₁, s₁', h, h', ha, hc, hc', hcc⟩ |
      ⟨c, c', e, e', s₁, s₁', h, h', he, hc, hc', hcc⟩
    · exact .inl ⟨c, c', a, a', _, _, nested_of_ok hpos h, nested_of_ok hpos' h', ha,
        hc.ofDepth, hc'.ofDepth, hcc⟩
    · exact .inr ⟨c, c', e, e', _, _, nested_of_error hpos h, nested_of_error hpos' h', he,
        hc.ofDepth, hc'.ofDepth, hcc⟩

end Tracks

namespace Blind

/-- What asks less of two sessions holds of more of them. -/
theorem weaken (h : Blind φ ψ false p p') : Blind φ ψ strict p p' := fun _ _ hs => h hs.weaken

/-- Parsers that consume nothing. -/
theorem still (h : ∀ {s s'}, Seen φ ψ strict s s' → Tracks φ ψ p p' s s') :
    Blind φ ψ strict p p' :=
  fun _ _ hs hw => h (hs.seen hw)

theorem pure {a a' : α} (h : relocate φ a = relocate ψ a') :
    Blind φ ψ strict (Pure.pure a) (Pure.pure a') :=
  still fun _ => .of_ok rfl rfl h

theorem fail (cause : Cause) : Blind φ ψ strict (fail cause : Parser α) (fail cause) :=
  still fun hs => .of_error rfl rfl (by rw [relocate_error, relocate_error, hs.position])

theorem throw {e e' : Error} (h : relocate φ e = relocate ψ e') :
    Blind φ ψ strict (throw e : Parser α) (throw e') :=
  still fun _ => .of_error rfl rfl h

/-- What is looked at looks the same. -/
theorem look {f f' : Session → Parser β}
    (h : ∀ {s s'}, Seen φ ψ strict s s' → Blind φ ψ strict (f s) (f' s')) :
    Blind φ ψ strict (get >>= f) (get >>= f') := by
  intro s s' hs hw
  have hfinal : (get >>= f).final s = (f s).final s := by rw [final, get_bind, final]
  exact .congr (get_bind f s) (get_bind f' s') (h (hs.seen hw) hs (hfinal ▸ hw))

/-- A token that is consumed in one session has a token in the other that corresponds to it, and so
has a fault behind it. -/
theorem tracks_eat {kind : Kind} {t : Token} {ts : List Token} (hu : s.upcoming = t :: ts)
    (hk : t.kind = kind) (hw : Watches φ ψ s ((Parser.eat kind).final s) s') :
    Tracks φ ψ (Parser.eat kind) (Parser.eat kind) s s' := by
  -- Either way the token is consumed, so the run has looked behind it.
  have hbehind : ∀ {s₁ : Session}, Consumes s [t] s₁ → (Parser.eat kind).final s = s₁ →
      ∃ u us, s'.upcoming = u :: us ∧ relocate φ t = relocate ψ u ∧
        Alongside φ ψ 0 ts s.fault us s'.fault := by
    intro s₁ hc hfinal
    have hup := hc.upcoming
    rw [hu, List.singleton_append, List.cons.injEq] at hup
    rw [Watches, hfinal, hu, ← hup.2, List.length_cons, Nat.add_sub_cancel_left] at hw
    obtain ⟨u, us, hus, -⟩ := hw.faces
    rw [hus] at hw
    exact ⟨u, us, hus, hw⟩
  rcases eat_of_upcoming hu hk with ⟨hsettled, s₁, h, hc⟩ | ⟨rfl, e, s₁, hf, h, hc⟩
  · obtain ⟨u, us, hus, htu, hrest⟩ := hbehind hc (final_of_ok h)
    have hku : u.kind = kind := (Faces.of_relocate htu).kind.trans hk
    -- The other side meets no fault, because it would show behind the token.
    rcases eat_of_upcoming hus hku with ⟨-, s₁', h', hc'⟩ | ⟨rfl, e', s₁', hf', -, -⟩
    · exact .inl ⟨[t], [u], t, u, s₁, s₁', h, h', htu, hc, hc', by simp [htu]⟩
    · exfalso
      rw [Alongside.nil_right] at hrest
      rw [hsettled hrest.1, hf'] at hrest
      cases hrest.2
  · obtain ⟨u, us, hus, htu, hrest⟩ := hbehind hc (final_of_error h)
    have hku : u.kind = kind := (Faces.of_relocate htu).kind.trans hk
    rw [Alongside.nil_left, hf] at hrest
    obtain ⟨rfl, hfault⟩ := hrest
    rcases eat_of_upcoming hus hku with ⟨hsettled, -⟩ | ⟨-, e', s₁', hf', h', hc'⟩
    · rw [hsettled rfl] at hfault
      cases hfault
    · rw [hf', relocate_some, relocate_some, Option.some.injEq] at hfault
      exact .inr ⟨[t], [u], e, e', s₁, s₁', h, h', hfault, hc, hc', by simp [htu]⟩

/-- Both take the token, or both refuse it. -/
theorem eat (kind : Kind) : Blind φ ψ strict (eat kind) (eat kind) := by
  intro s s' hs hw
  have hseen := hs.seen hw
  rcases hseen.lookahead with ⟨hnone, hnone'⟩ | ⟨t, u, ht, hu, hface⟩
  · refine .of_error (eat_of_lookahead_eq_none hnone) (eat_of_lookahead_eq_none hnone') ?_
    have hposition := hseen.position
    rw [Session.position, Session.position, hnone, hnone'] at hposition
    rw [relocate_error, relocate_error, hposition]
  · by_cases hk : t.kind = kind
    · obtain ⟨ts, hts⟩ : ∃ ts, s.upcoming = t :: ts := by
        rw [← s.head?_upcoming] at ht
        exact List.head?_eq_some_iff.1 ht
      exact tracks_eat hts hk hw
    · have hk' : u.kind ≠ kind := hface.kind ▸ hk
      refine .of_error (eat_of_kind_ne ht hk) (eat_of_kind_ne hu hk') ?_
      rw [relocate_error, relocate_error, hface.display, hface.start]

/-- A sequence is blind if its parts are, the second one for corresponding results. -/
theorem bind {f f' : α → Parser β} [Orderly p] [∀ a, Orderly (f a)]
    (hp : Blind φ ψ strict p p')
    (hf : ∀ {a a'}, relocate φ a = relocate ψ a' → Blind φ ψ strict (f a) (f' a')) :
    Blind φ ψ strict (p >>= f) (p' >>= f') := by
  intro s s' hs hw
  exact .bind hw (hp hs) fun _ ha hc hc' hcc => hf ha (hs.consumes hc hc' hcc)

/-- Behind a token the two sessions have come from corresponding places. -/
theorem bind_of_progressing {f f' : α → Parser β} [Orderly p] [Progressing p]
    [∀ a, Orderly (f a)] (hp : Blind φ ψ strict p p')
    (hf : ∀ {a a'}, relocate φ a = relocate ψ a' → Blind φ ψ true (f a) (f' a')) :
    Blind φ ψ strict (p >>= f) (p' >>= f') := by
  intro s s' hs hw
  refine .bind hw (hp hs) fun h ha hc hc' hcc => hf ha ?_
  exact hs.strict_of_ne_nil hc hc' hcc (Progressing.ne_nil h hc)

theorem map {g g' : α → β} [Orderly p] (hp : Blind φ ψ strict p p')
    (hg : ∀ {a a'}, relocate φ a = relocate ψ a' → relocate φ (g a) = relocate ψ (g' a')) :
    Blind φ ψ strict (g <$> p) (g' <$> p') := by
  rw [map_eq_pure_bind, map_eq_pure_bind]
  exact hp.bind fun ha => pure (hg ha)

theorem discard [Orderly p] (hp : Blind φ ψ strict p p') :
    Blind φ ψ strict (discard p) (discard p') := by
  rw [discard_eq, discard_eq]
  exact hp.bind fun _ => pure rfl

theorem overLimit : Blind φ ψ strict (overLimit : Parser α) overLimit :=
  still fun hs => .of_overLimit hs

theorem nested [Orderly p] [Orderly p'] (hp : Blind φ ψ strict p p') :
    Blind φ ψ strict (nested p) (nested p') :=
  fun _ _ hs hw => .nested hs hw (hp hs.withDepth)

/-- A loop ends in corresponding ways if its steps do. The induction is on what remains in the first
session. -/
theorem repeatWhile {test : Session → Bool} {step step' : Parser α} [Orderly step]
    [Progressing step] [Progressing step']
    (htest : ∀ {s s'}, Seen φ ψ strict s s' → test s' = test s)
    (h : Blind φ ψ strict step step') :
    Blind φ ψ strict (repeatWhile test step) (repeatWhile test step') := by
  intro s s' hs hw
  -- Every step takes a token, so the induction is on what remains.
  induction hr : s.remaining using Nat.strongRecOn generalizing s s' with
  | ind r ih =>
    have hsame := htest (hs.seen hw)
    cases ht : test s with
    | false => exact .of_ok (repeatWhile_of_not ht) (repeatWhile_of_not (hsame.trans ht)) rfl
    | true =>
      rw [final, repeatWhile_of_test ht, ← final] at hw
      refine .congr (repeatWhile_of_test ht) (repeatWhile_of_test (hsame.trans ht))
        (.bind hw (h hs) fun hstep ha hc hc' hcc hw => ?_)
      refine .bind hw (fun hw => ?_) fun _ has _ _ _ _ => .of_ok rfl rfl (by simp [ha, has])
      exact ih _ (hr ▸ Progressing.lt hstep) (hs.consumes hc hc' hcc) hw rfl

end Blind

end Parser

namespace Grammar

open Scriptlet.Parser

variable {α : Type} [Relocatable α] {strict : Bool}

/-! ### Tokens, separators and lists -/

/-- Whether a token is accepted does not depend on positions. -/
theorem blind_accept (kind : Kind) : Blind φ ψ strict (accept kind) (accept kind) := by
  refine .look fun hs => ?_
  rw [hs.isAt]
  split
  · exact (Blind.eat kind).bind fun _ => .pure rfl
  · exact .pure rfl

/-- What a token announces is blind if its production is. -/
theorem blind_optionally {kind : Kind} {p : Parser α} [Orderly p] (hp : Blind φ ψ strict p p) :
    Blind φ ψ strict (optionally kind p) (optionally kind p) := by
  refine (blind_accept kind).bind fun {found _} hfound => ?_
  obtain rfl : found = _ := hfound
  cases found
  · exact .pure rfl
  · exact hp.map fun ha => by simp [ha]

theorem blind_skipLineBreaks : Blind φ ψ strict skipLineBreaks skipLineBreaks :=
  (Blind.repeatWhile (fun hs => hs.isAt _) (.eat _)).discard

theorem blind_optionalComma : Blind φ ψ strict optionalComma optionalComma :=
  (blind_accept _).discard

theorem blind_identifier : Blind φ ψ strict identifier identifier := by
  refine (Blind.eat _).bind fun ht => .pure ?_
  obtain ⟨-, hvalue, hspan⟩ := Token.relocate_eq_iff.1 ht
  exact Identifier.relocate_eq_iff.2 ⟨hvalue, hspan⟩

theorem blind_endOfStatement : Blind φ ψ strict endOfStatement endOfStatement := by
  refine .look fun hs => ?_
  rw [hs.kind?]
  split
  · exact (Blind.eat _).discard
  · exact .pure rfl
  · exact (Blind.eat _).discard

/-- A list is blind if its elements are. -/
theorem blind_listOf {element : Parser α} [Orderly element] [Progressing element]
    (h : Blind φ ψ strict element element) :
    Blind φ ψ strict (listOf element) (listOf element) := by
  refine .repeatWhile (fun hs => ?_) (h.bind fun ha => blind_optionalComma.bind fun _ => .pure ha)
  rw [hs.hasTokens, hs.isAt]

/-- Properties between braces are blind if each property is, since braces bring both sides to
corresponding places. -/
theorem blind_bodyOf {property : Parser α} [Orderly property] [Progressing property]
    (h : Blind φ ψ false property property) :
    Blind φ ψ strict (bodyOf property) (bodyOf property) := by
  refine (Blind.eat _).bind_of_progressing fun hopening => blind_skipLineBreaks.bind fun _ => ?_
  refine (Blind.repeatWhile (fun hs => by rw [hs.isAt]) (h.weaken.bind fun ha =>
    blind_skipLineBreaks.bind fun _ => .pure ha)).bind fun hproperties => ?_
  refine (Blind.eat _).bind fun _ => .look fun hs => .pure ?_
  rw [relocate_prod, relocate_prod, hproperties, hs.spanFrom (Faces.of_relocate hopening).start]

/-! ### Parameters -/

theorem blind_patternProperty : Blind φ ψ strict patternProperty patternProperty := by
  rw [patternProperty_eq]
  refine blind_identifier.bind_of_progressing fun hname => (blind_optionally blind_identifier).bind
    fun hrename => .look fun hs => blind_optionalComma.bind fun _ => .pure ?_
  have hspan := (Identifier.relocate_eq_iff.1 hname).2
  rw [relocate_patternProperty, relocate_patternProperty, hname, hrename,
    hs.spanFrom (Span.relocate_eq_iff.1 hspan).1]

theorem blind_parameter : Blind φ ψ strict parameter parameter := by
  refine .look fun hs => ?_
  rw [hs.isAt]
  split
  · exact blind_identifier.bind fun hid => .pure (by simp [hid])
  · refine Blind.bind ((blind_bodyOf blind_patternProperty).bind fun hbody => .pure ?_)
      fun hpattern => .pure (by simp [hpattern])
    rw [relocate_objectPattern, relocate_objectPattern, (Prod.mk.inj hbody).1,
      (Prod.mk.inj hbody).2]

/-! ### Expressions -/

section Expressions

variable {expression sum operand value : Parser Expr} [Orderly expression] [Orderly sum]
  [Orderly operand] [Orderly value]

/-- The value of a literal depends on its text alone. -/
theorem blind_literal : Blind φ ψ strict literal literal := by
  have hnumber : Blind φ ψ strict numberLiteral numberLiteral := by
    refine (Blind.eat _).bind fun {t u} ht => ?_
    obtain ⟨-, hvalue, hspan⟩ := Token.relocate_eq_iff.1 ht
    rw [numberValue, numberValue, hvalue]
    split
    · exact .pure (by simp [hspan])
    · exact .throw (by simp [(Faces.of_relocate ht).start])
  refine .look fun hs => ?_
  rcases hs.lookahead with ⟨hnone, hnone'⟩ | ⟨t, u, ht, hu, hface⟩
  · rw [hnone, hnone']
    exact .fail _
  · rw [ht, hu]
    dsimp only
    rw [hface.kind, hface.display]
    split
    · exact hnumber
    split
    · refine (Blind.eat _).bind fun ht => .pure ?_
      obtain ⟨-, hvalue, hspan⟩ := Token.relocate_eq_iff.1 ht
      simp [hvalue, hspan]
    · exact .fail _

theorem blind_parenthesized (h : Blind φ ψ false expression expression) :
    Blind φ ψ strict (parenthesized expression) (parenthesized expression) :=
  (Blind.eat _).bind fun _ => h.weaken.bind fun he => (Blind.eat _).bind fun _ => .pure he

/-- A call and a name are blind if arguments are. -/
theorem blind_callable [Progressing sum] (h : Blind φ ψ false sum sum) :
    Blind φ ψ strict (callable sum) (callable sum) := by
  refine blind_identifier.bind_of_progressing fun hcallee =>
    (blind_accept _).bind fun {found _} hfound => ?_
  obtain rfl : found = _ := hfound
  cases found
  · exact .pure (by simp [hcallee])
  · refine (blind_listOf h.weaken).bind fun harguments => (Blind.eat _).bind fun _ =>
      .look fun hs => .pure ?_
    have hspan := (Identifier.relocate_eq_iff.1 hcallee).2
    rw [Expr.relocate_call, Expr.relocate_call, hcallee, harguments,
      hs.spanFrom (Span.relocate_eq_iff.1 hspan).1]

theorem blind_spread (h : Blind φ ψ false sum sum) :
    Blind φ ψ strict (spread sum) (spread sum) := by
  refine (Blind.eat _).bind fun hoperator => h.weaken.bind fun he => .pure ?_
  have hstop := (Span.relocate_eq_iff.1 (Expr.relocate_span he)).2
  simp [hoperator, he, (Faces.of_relocate hoperator).start, hstop]

theorem blind_propertyKey : Blind φ ψ strict propertyKey propertyKey := by
  refine (blind_accept _).bind fun {found _} hfound => ?_
  obtain rfl : found = _ := hfound
  cases found
  · exact blind_identifier
  · exact blind_identifier.bind fun hkey => (Blind.eat _).bind fun _ => .pure hkey

/-- A property takes its span from the position in front of it and the end of its last token. -/
theorem blind_property [Progressing operand] (hoperand : Blind φ ψ false operand operand)
    (hvalue : Blind φ ψ false value value) :
    Blind φ ψ strict (property operand value) (property operand value) := by
  have hmember : Blind φ ψ strict (member operand value) (member operand value) := by
    refine .look fun hs => ?_
    rw [hs.isAt]
    split
    · -- A spread takes a token, so behind it both sides come from corresponding places.
      refine hoperand.weaken.bind_of_progressing fun he => .look fun hs' => .pure ?_
      rw [Property.relocate_spread, Property.relocate_spread, he, hs'.spanFrom hs.position]
    · refine blind_propertyKey.bind_of_progressing fun hkey =>
        (blind_optionally hvalue.weaken).bind fun {e? e?'} he => .look fun hs' => .pure ?_
      have hspan := hs'.spanFrom hs.position
      cases e? with
      | none => cases e?' with
        | none => simp [hkey, hspan]
        | some e' => simp at he
      | some e => cases e?' with
        | none => simp at he
        | some e' => simpa [hkey, hspan] using he
  rw [property_eq]
  exact hmember.bind fun hp => blind_optionalComma.bind fun _ => .pure hp

theorem blind_term (h : Blind φ ψ false operand operand) :
    Blind φ ψ strict (term operand) (term operand) :=
  (Blind.eat _).bind fun hoperator => h.weaken.bind fun hright =>
    .pure (by rw [relocate_prod, relocate_prod, hoperator, hright])

/-- Each term takes a level in both runs. -/
theorem blind_terms (h : Blind φ ψ false operand operand) :
    Blind φ ψ strict (terms operand) (terms operand) := by
  intro s s' hs hw
  induction hr : s.remaining using Nat.strongRecOn generalizing s s' with
  | ind r ih =>
    have hsame := (hs.seen hw).isAt .additiveOperator
    cases ht : s.isAt .additiveOperator with
    | false =>
      exact .of_ok (terms_of_not_isAt operand ht) (terms_of_not_isAt operand (hsame.trans ht)) rfl
    | true =>
      rw [final, terms_of_isAt operand ht, ← final] at hw
      refine .congr (terms_of_isAt operand ht) (terms_of_isAt operand (hsame.trans ht))
        (.nested hs hw fun hw => .bind hw (blind_term h hs.withDepth) ?_)
      intro part part' s₁ s₁' c c' hterm hpart hc hc' hcc hw
      have hlt := Progressing.lt hterm
      refine .bind hw (fun hw => ?_) fun _ hmore _ _ _ _ => .of_ok rfl rfl (by simp [hpart, hmore])
      exact ih _ (hr ▸ hlt) (hs.withDepth.consumes hc hc' hcc) hw rfl

/-- Operands joined to a sum one after the other. -/
theorem relocate_foldl_joinLeft {more more' : List (Token × Expr)} {first first' : Expr}
    (hfirst : relocate φ first = relocate ψ first') (hmore : relocate φ more = relocate ψ more') :
    relocate φ (more.foldl joinLeft first) = relocate ψ (more'.foldl joinLeft first') := by
  induction more generalizing first first' more' with
  | nil =>
    obtain rfl : more' = [] := by simpa using congrArg List.length hmore.symm
    exact hfirst
  | cons part more ih => cases more' with
    | nil => simp at hmore
    | cons part' more' =>
      rw [relocate_cons, relocate_cons, List.cons.injEq] at hmore
      obtain ⟨hoperator, hright⟩ := Prod.mk.inj hmore.1
      rw [List.foldl_cons, List.foldl_cons]
      refine ih ?_ hmore.2
      have hstart := (Span.relocate_eq_iff.1 (Expr.relocate_span hfirst)).1
      have hstop := (Span.relocate_eq_iff.1 (Expr.relocate_span hright)).2
      rw [joinLeft, joinLeft, Expr.relocate_binary, Expr.relocate_binary, hfirst, hoperator, hright,
        relocate_span, relocate_span, hstart, hstop]

theorem blind_additive (h : Blind φ ψ false operand operand) :
    Blind φ ψ strict (additive operand) (additive operand) := by
  rw [additive_eq]
  exact h.weaken.bind fun hfirst => (blind_terms h).bind fun hmore =>
    .pure (relocate_foldl_joinLeft hfirst hmore)

/-- Whether something is assigned depends on the kind of a token alone. -/
theorem blind_assignmentOf (hoperand : Blind φ ψ false operand operand)
    (hvalue : Blind φ ψ false value value) :
    Blind φ ψ strict (assignmentOf operand value) (assignmentOf operand value) := by
  rw [assignmentOf_eq]
  refine hoperand.weaken.bind fun hleft => .look fun hs => ?_
  rw [hs.kind?]
  split
  · split
    · refine (Blind.eat _).bind fun hoperator => hvalue.weaken.bind fun hright => .pure ?_
      have hstart := (Span.relocate_eq_iff.1 (Expr.relocate_span hleft)).1
      have hstop := (Span.relocate_eq_iff.1 (Expr.relocate_span hright)).2
      simp [hleft, hoperator, hright, hstart, hstop]
    · exact .pure hleft
  · exact .pure hleft

/-- The first token selects the expression by its kind. -/
theorem blind_primaryOf [Progressing sum] [Progressing operand]
    (hexpression : Blind φ ψ false expression expression) (hsum : Blind φ ψ false sum sum)
    (hoperand : Blind φ ψ false operand operand) :
    Blind φ ψ strict (primaryOf expression sum operand) (primaryOf expression sum operand) := by
  refine .look fun hs => ?_
  rw [hs.kind?]
  split
  · exact blind_parenthesized hexpression
  · refine (blind_bodyOf (blind_property hoperand hsum)).bind fun hbody => .pure ?_
    rw [Expr.relocate_object, Expr.relocate_object, (Prod.mk.inj hbody).1, (Prod.mk.inj hbody).2]
  · exact blind_callable hsum
  · exact blind_spread hsum
  · exact blind_literal

end Expressions

/-- Expressions are blind, with any number of levels to go. -/
theorem blind_expressions (b : Nat) : Blind φ ψ false (assignment b) (assignment b) ∧
    Blind φ ψ false (primary b) (primary b) := by
  induction b with
  | zero =>
    rw [assignment_zero, primary_zero]
    exact ⟨.overLimit, .overLimit⟩
  | succ b ih =>
    obtain ⟨hassignment, hprimary⟩ := ih
    rw [assignment_succ, primary_succ]
    exact ⟨(blind_assignmentOf (blind_additive hprimary) hassignment).nested,
      (blind_primaryOf hassignment (blind_additive hprimary) hprimary).nested⟩

/-! ### Statements -/

section Statements

variable {statement : Parser Stmt} {expression sum value : Parser Expr} [Orderly statement]
  [Progressing statement] [Orderly expression] [Orderly sum] [Orderly value]

/-- Lists of statements are blind if statements are. -/
theorem blind_statementList {stop : Option Kind} (hstop : stop ≠ some .lineBreak)
    (h : Blind φ ψ strict statement statement) :
    Blind φ ψ strict (statementList statement stop) (statementList statement stop) := by
  rw [statementList_eq _ hstop]
  refine blind_skipLineBreaks.bind fun _ => .repeatWhile (fun hs => ?_) (h.bind fun ha =>
    blind_skipLineBreaks.bind fun _ => .pure ha)
  rw [atStop, hs.kind?, atStop]

theorem blind_block (h : Blind φ ψ false statement statement) :
    Blind φ ψ strict (block statement) (block statement) := by
  rw [block_eq]
  refine (Blind.eat _).bind_of_progressing fun hopening =>
    (blind_statementList (by simp) h.weaken).bind fun hbody => (Blind.eat _).bind fun _ =>
      .look fun hs => .pure ?_
  rw [relocate_block, relocate_block, hbody, hs.spanFrom (Faces.of_relocate hopening).start]

theorem blind_declarator (h : Blind φ ψ false value value) :
    Blind φ ψ strict (declarator value) (declarator value) := by
  rw [declarator_eq]
  refine blind_identifier.bind_of_progressing fun hname => (blind_optionally h.weaken).bind
    fun hinit => .look fun hs => .pure ?_
  have hspan := (Identifier.relocate_eq_iff.1 hname).2
  rw [relocate_declarator, relocate_declarator, hname, hinit,
    hs.spanFrom (Span.relocate_eq_iff.1 hspan).1]

theorem blind_nextDeclarator (h : Blind φ ψ false value value) :
    Blind φ ψ strict (nextDeclarator value) (nextDeclarator value) :=
  (Blind.eat _).bind fun _ => blind_skipLineBreaks.bind fun _ => blind_declarator h

theorem blind_ended {p : Parser Stmt} [Orderly p] (h : Blind φ ψ strict p p) :
    Blind φ ψ strict (ended p) (ended p) :=
  h.bind fun ha => blind_endOfStatement.bind fun _ => .pure ha

theorem blind_openDeclaration (h : Blind φ ψ false value value) (kind : DeclarationKind)
    (word : Kind) :
    Blind φ ψ strict (openDeclaration value kind word) (openDeclaration value kind word) := by
  refine (Blind.eat _).bind_of_progressing fun hopening => (blind_declarator h).bind fun hfirst =>
    (Blind.repeatWhile (fun hs => hs.isAt _) (blind_nextDeclarator h)).bind fun hmore =>
      .look fun hs => .pure ?_
  rw [Stmt.relocate_declaration, Stmt.relocate_declaration, relocate_cons, relocate_cons, hfirst,
    hmore, hs.spanFrom (Faces.of_relocate hopening).start]

theorem blind_declaration (h : Blind φ ψ false value value) :
    Blind φ ψ strict (declaration value) (declaration value) := by
  rw [declaration_eq]
  refine .look fun hs => ?_
  rw [hs.kind?, declarationOf_eq]
  exact blind_ended (blind_openDeclaration h _ _)

theorem blind_openResult (h : Blind φ ψ false value value) :
    Blind φ ψ strict (openResult value) (openResult value) := by
  refine (Blind.eat _).bind_of_progressing fun hopening => h.weaken.bind fun he =>
    .look fun hs => .pure ?_
  rw [Stmt.relocate_result, Stmt.relocate_result, he,
    hs.spanFrom (Faces.of_relocate hopening).start]

theorem blind_expectBody : Blind φ ψ strict expectBody expectBody := by
  refine .look fun hs => ?_
  rcases hs.lookahead with ⟨hnone, hnone'⟩ | ⟨t, u, ht, hu, hface⟩
  · rw [hnone, hnone']
    exact .fail _
  · rw [ht, hu]
    dsimp only
    rw [hface.kind, hface.display]
    split
    · exact .pure rfl
    · exact .fail _

/-- A function is blind if the statements of its body are. -/
theorem blind_function (h : Blind φ ψ false statement statement) :
    Blind φ ψ strict (function statement) (function statement) := by
  refine (Blind.eat _).bind_of_progressing fun hopening => blind_identifier.bind fun hname =>
    (Blind.eat _).bind fun _ => (blind_listOf blind_parameter).bind fun hparams =>
    (Blind.eat _).bind fun _ => blind_expectBody.bind fun _ => (blind_block h).bind fun hbody =>
    .look fun hs => .pure ?_
  rw [Stmt.relocate_function, Stmt.relocate_function, hname, hparams, (Block.mk.inj hbody).1,
    hs.spanFrom (Faces.of_relocate hopening).start]

theorem blind_openExpression (h : Blind φ ψ strict expression expression) :
    Blind φ ψ strict (openExpression expression) (openExpression expression) :=
  h.bind fun he => .pure (by
    rw [Stmt.relocate_expression, Stmt.relocate_expression, he, Expr.relocate_span he])

/-- The first token selects the statement by its kind. -/
theorem blind_statementOf (hstatement : Blind φ ψ false statement statement)
    (hexpression : Blind φ ψ false expression expression) (hsum : Blind φ ψ false sum sum) :
    Blind φ ψ strict (statementOf statement expression sum)
      (statementOf statement expression sum) := by
  refine .look fun hs => ?_
  rw [hs.kind?]
  split
  · refine (Blind.eat _).bind fun ht => .pure ?_
    rw [Stmt.relocate_empty, Stmt.relocate_empty, (Token.relocate_eq_iff.1 ht).2.2]
  · refine (blind_block hstatement).bind fun hb => .pure ?_
    rw [Stmt.relocate_block, Stmt.relocate_block, (Block.mk.inj hb).1, (Block.mk.inj hb).2]
  · exact blind_declaration hexpression
  · exact blind_declaration hexpression
  · exact blind_declaration hexpression
  · rw [resultStatement_eq]
    exact blind_ended (blind_openResult hsum)
  · exact blind_function hstatement
  · rw [expressionStatement_eq]
    exact blind_ended (blind_openExpression hexpression.weaken)

end Statements

/-- Statements are blind, with any number of levels to go. -/
theorem blind_statement (b : Nat) : Blind φ ψ false (statement b) (statement b) := by
  induction b with
  | zero =>
    rw [statement_zero]
    exact .overLimit
  | succ b ih =>
    have hexpressions : Blind φ ψ false (assignment b) (assignment b) ∧
        Blind φ ψ false (primary b) (primary b) := blind_expressions b
    obtain ⟨hassignment, hprimary⟩ := hexpressions
    rw [statement_succ]
    exact (blind_statementOf ih hassignment (blind_additive hprimary)).nested

end Grammar

end Scriptlet
