import Scriptlet.Proofs.Prefix

/-!
# Following a derivation

A parser in front of the tokens of a derivation has no choice: it goes through the derivation from
its first token to its last, returns the tree, and needs as many levels as the derivation counts.
The only way for it to fail is to refuse a level, and that it does exactly if the session has fewer
levels left than the derivation needs.

Nothing is asked of the tokens that the parser does not get to see. The session and the derivation
may part anywhere behind the last token consumed and the one in front of which the parser stops; so
a parser that stops early because of what stands there shows that no derivation goes on in this way.

## Main definitions

* `Parser.Follows`: a parser goes through a phrase or refuses a level;
* `Parser.Reads`: a parser follows all phrases of a nonterminal.

## Main results

* `Parser.Follows.bind`, `Parser.Follows.nested`, `Parser.Follows.many`: sequences, levels, loops;
* `Grammar.reads_assignment`, `Grammar.reads_statement`, `Parser.follows_program`.
-/

namespace Scriptlet

/-- The numbers that come all have a value. -/
def Session.Readable (s : Session) : Prop :=
  ∀ t ∈ s.upcoming, t.kind = .number → (Binary64.ofLiteral? t.value).isSome

/-- The numbers that come are among those that came before. -/
theorem Consumes.readable {s s' : Session} {c : List Token} (h : Consumes s c s')
    (hs : s.Readable) : s'.Readable := by
  intro t ht
  refine hs t ?_
  rw [h.upcoming]
  exact List.mem_append_right c ht

namespace Parser

variable {α β : Type} {s : Session} {ts us rest : List Token} {a : α} {b : β} {n m k : Nat}

/-- In front of a phrase with the tree `a` that takes `n` levels the parser consumes the tokens of
the phrase and returns its tree, or else refuses because there are fewer levels left. -/
def Follows (p : Parser α) (s : Session) (ts rest : List Token) (a : α) (n : Nat) : Prop :=
  s.Readable → Sees s (p.final s) ts none →
    (∃ c s', p s = .ok a s' ∧ ts = c ++ rest ∧ Consumes s c s' ∧ n ≤ s.budget) ∨
    (∃ e s', p s = .error e s' ∧ e.cause = .tooDeep s.maxDepth ∧ s.budget < n)

namespace Follows

theorem congr {p q : Parser α} (h : p s = q s) (hq : Follows q s ts rest a n) :
    Follows p s ts rest a n := by
  rw [Follows]
  rw [final, h]
  exact hq

/-- The parser stands where the phrase starts. -/
theorem peek {p : Parser α} (h : s.lookahead = ts.head? → Follows p s ts rest a n) :
    Follows p s ts rest a n := by
  intro hr hsee
  exact h hsee.lookahead hr hsee

/-- The parser sees the first token of the phrase. -/
theorem look {p : Parser α} (h : s.kind? = firstKind ts → Follows p s ts rest a n) :
    Follows p s ts rest a n := by
  refine peek fun hs => h ?_
  rw [Session.kind?, hs, firstKind]

theorem get {f : Session → Parser β} (h : Follows (f s) s ts rest b n) :
    Follows (get >>= f) s ts rest b n :=
  congr (get_bind f s) h

theorem of_ok {p : Parser α} (h : p s = .ok a s) : Follows p s ts ts a 0 := by
  intro _ _
  exact .inl ⟨[], s, h, rfl, .refl s, Nat.zero_le _⟩

theorem pure (a : α) : Follows (pure a) s ts ts a 0 := of_ok rfl

theorem of_tooDeep {p : Parser α} {e : Error} {s' : Session} (h : p s = .error e s')
    (he : e.cause = .tooDeep s.maxDepth) (hn : s.budget < n) : Follows p s ts rest a n := by
  intro _ _
  exact .inr ⟨e, s', h, he, hn⟩

/-- A token of the kind asked for is taken in any number of levels. -/
theorem eat {kind : Kind} {t : Token} (hk : t.kind = kind) :
    Follows (eat kind) s (t :: rest) rest t 0 := by
  intro _ hsee
  have hl : s.upcoming.head? = some t := by rw [s.head?_upcoming, hsee.lookahead]; rfl
  obtain ⟨ts, hts⟩ := List.head?_eq_some_iff.1 hl
  rcases eat_of_upcoming hts hk with ⟨-, s', h, hc⟩ | ⟨hnil, e, s', hf, h, hc⟩
  · exact .inl ⟨[t], s', h, rfl, hc, Nat.zero_le _⟩
  · -- A fault behind the token cannot be mistaken for more tokens or for the end.
    have hu : s'.upcoming = [] := by
      have happend := hc.upcoming
      rw [hts, hnil] at happend
      exact (List.cons.inj happend).2.symm
    rw [final_of_error h] at hsee
    have hfault := Sees.append hc (.refl s') hsee
    rw [Sees, hu, hc.fault, hf] at hfault
    simp at hfault

/-- A sequence goes through its parts, and takes as many levels as the one that takes more. -/
theorem bind {p : Parser α} {f : α → Parser β} [Orderly p] [∀ a, Orderly (f a)]
    (hp : Follows p s ts us a n)
    (hf : ∀ {c s'}, p s = .ok a s' → ts = c ++ us → Consumes s c s' →
      Follows (f a) s' us rest b m)
    (hk : k = max n m) : Follows (p >>= f) s ts rest b k := by
  intro hr hsee
  -- What the second part has seen, the first one has seen, so the first one is bound to its part of
  -- the phrase.
  have hfirst : Sees s (p.final s) ts none := by
    cases hp₁ : p s with
    | error e s₁ =>
      rw [final_of_error (bind_of_error hp₁)] at hsee
      rwa [final_of_error hp₁]
    | ok a' s₁ =>
      obtain ⟨c, hc, -⟩ := Orderly.ok hp₁
      obtain ⟨d, hd⟩ := Orderly.final (f a') s₁
      rw [final, bind_of_ok hp₁] at hsee
      rw [final_of_ok hp₁]
      exact Sees.of_consumes hc hd hsee
  -- Either the first part is read, and the second one starts where the phrase goes on, or a level
  -- is refused and nothing follows.
  rcases hp hr hfirst with ⟨c, s₁, hp₁, rfl, hc, hn⟩ | ⟨e, s₁, hp₁, he, hn⟩
  · obtain ⟨d, hd⟩ := Orderly.final (f a) s₁
    rw [final, bind_of_ok hp₁] at hsee
    rcases hf hp₁ rfl hc (hc.readable hr) (Sees.append hc hd hsee) with
      ⟨c', s₂, hf₁, rfl, hc', hm⟩ | ⟨e, s₂, hf₁, he, hm⟩
    · rw [hc.budget] at hm
      refine .inl ⟨c ++ c', s₂, ?_, by rw [List.append_assoc], hc.trans hc', by omega⟩
      rw [bind_of_ok hp₁, hf₁]
    · rw [hc.budget] at hm
      rw [hc.maxDepth] at he
      refine .inr ⟨e, s₂, ?_, he, by omega⟩
      rw [bind_of_ok hp₁, hf₁]
  · exact .inr ⟨e, s₁, bind_of_error hp₁, he, by omega⟩

/-- What is done behind the last token of a phrase. -/
theorem silent {p : Parser α} {f : α → Parser β} [Orderly p] [∀ a, Orderly (f a)]
    (hp : Follows p s ts rest a n)
    (hf : ∀ {c s'}, p s = .ok a s' → ts = c ++ rest → Consumes s c s' → f a s' = .ok b s') :
    Follows (p >>= f) s ts rest b n :=
  hp.bind (fun hok hts hc => of_ok (hf hok hts hc)) (by omega)

/-- A level more follows a phrase that needs a level more. -/
theorem nested {p : Parser α} [Orderly p]
    (h : Follows p (s.withDepth (s.depth + 1)) ts rest a n) :
    Follows (nested p) s ts rest a (n + 1) := by
  rcases Nat.eq_zero_or_pos s.budget with h0 | hpos
  · refine of_tooDeep (nested_of_budget_eq_zero h0) rfl ?_
    omega
  · have hbudget : (s.withDepth (s.depth + 1)).budget = s.budget - 1 := by
      simp only [Session.budget, Session.withDepth]
      omega
    intro hr hsee
    rw [final_nested hpos] at hsee
    rcases h hr hsee with ⟨c, s₁, hp, hts, hc, hn⟩ | ⟨e, s₁, hp, he, hn⟩
    · exact .inl ⟨c, _, nested_of_ok hpos hp, hts, hc.ofDepth, by omega⟩
    · exact .inr ⟨e, _, nested_of_error hpos hp, he, by omega⟩

end Follows

/-- With up to `b` levels left, the parser follows every phrase of the nonterminal that stands in
front of a token of a kind that satisfies `F`, or in front of the end. -/
def Reads (b : Nat) (F : Option Kind → Prop) (P : Phrase α) (p : Parser α) : Prop :=
  ∀ ⦃s ts rest a n⦄, s.budget ≤ b → F (firstKind rest) → P ts rest a n → Follows p s ts rest a n

/-- What stands in front of a list of phrases that is not at its end. -/
theorem firstKind_of_many {F : Option Kind → Prop} {P : Phrase α} {as : List α}
    (hfirst : ∀ {ts us a n}, P ts us a n → F (firstKind ts)) (hrest : F (firstKind rest))
    (h : Phrase.Many P ts rest as n) : F (firstKind ts) := by
  cases h with
  | nil => exact hrest
  | cons h _ => exact hfirst h

/-- A loop goes through a list of phrases, if its test says where the list ends. -/
theorem Follows.many {F : Option Kind → Prop} {P : Phrase α} {test : Session → Bool}
    {step : Parser α} [Orderly step] [Progressing step] {b : Nat} {as : List α}
    (g : Option Kind → Bool) (htest : ∀ s, test s = g s.kind?) (hstep : Reads b F P step)
    (hfirst : ∀ {ts us a n}, P ts us a n → F (firstKind ts) ∧ g (firstKind ts) = true)
    (hrest : F (firstKind rest)) (hend : g (firstKind rest) = false) (hb : s.budget ≤ b)
    (h : Phrase.Many P ts rest as n) : Follows (repeatWhile test step) s ts rest as n := by
  -- The induction is on the phrases, and each of them starts from another session.
  induction h generalizing s with
  | nil ts =>
    refine .look fun hk => .of_ok (repeatWhile_of_not ?_)
    rw [htest, hk, hend]
  | @cons ts us rest a as n m hP hM ih =>
    refine .look fun hk => ?_
    have ht : test s = true := by rw [htest, hk, (hfirst hP).2]
    have hus : F (firstKind us) := firstKind_of_many (fun h => (hfirst h).1) hrest hM
    refine .congr (repeatWhile_of_test ht) ((hstep hb hus hP).bind (fun _ _ hc => ?_) rfl)
    have hb' := hc.budget
    exact (ih hrest hend (by omega)).silent fun _ _ _ => rfl

end Parser

/-- The end of a token that was consumed alone. -/
theorem Consumes.lastEnd_of_token {s s' : Session} {c rest : List Token} {t : Token}
    (h : Consumes s c s') (hts : t :: rest = c ++ rest) : s'.lastEnd = t.span.stop := by
  have hc : [t] = c := List.append_cancel_right (show [t] ++ rest = c ++ rest from hts)
  rw [h.lastEnd, ← hc, stopOf_singleton]

/-- The span of the tokens consumed by a first part and what came behind it. -/
theorem Consumes.spanFrom {s s₁ s₂ : Session} {c d ts us rest : List Token} {start : Position}
    (h : Consumes s c s₁) (hc : c ≠ []) (hts : ts = c ++ us) (h' : Consumes s₁ d s₂)
    (hus : us = d ++ rest) (hstart : ts.head?.map (·.span.start) = some start) :
    s₂.spanFrom start = spanOf ts rest := by
  have hlast : s₂.lastEnd = stopOf default (c ++ d) := by
    rw [(h.trans h').lastEnd]
    exact stopOf_eq_of_ne_nil (List.append_ne_nil_of_left_ne_nil hc d) _ _
  have htake : ts.take (ts.length - rest.length) = c ++ d := by
    rw [hts, hus, ← List.append_assoc, List.length_append, Nat.add_sub_cancel, List.take_left]
  rw [Session.spanFrom, spanOf, hstart, hlast, stopOf, htake]
  rfl

namespace Grammar

open Scriptlet.Parser Scriptlet.Phrase

variable {α : Type} {s : Session} {ts us rest : List Token} {b n : Nat} {F : Option Kind → Prop}

/-! ### Tokens and separators -/

/-- Skipping line breaks goes through all of them. -/
theorem follows_skipLineBreaks (h : Breaks ts rest) (hrest : firstKind rest ≠ some .lineBreak) :
    Follows skipLineBreaks s ts rest () 0 := by
  induction h generalizing s with
  | nil ts =>
    refine .look fun hk => .of_ok (skipLineBreaks_of_not_isAt ?_)
    rw [Session.isAt, hk, decide_eq_false_iff_not]
    exact hrest
  | cons hk _ ih =>
    refine .look fun hs => .congr (skipLineBreaks_of_isAt ?_)
      ((Follows.eat hk).bind (fun _ _ _ => ih hrest) rfl)
    rw [Session.isAt, hs, firstKind_cons, hk, decide_eq_true_eq]

theorem follows_optionalComma (h : OptionalComma ts rest) (hrest : firstKind rest ≠ some .comma) :
    Follows optionalComma s ts rest () 0 := by
  rw [optionalComma, discard_eq]
  cases h with
  | absent =>
    refine .look fun hk => .congr (accept_bind_of_not_isAt ?_) (.pure ())
    rw [Session.isAt, hk, decide_eq_false_iff_not]
    exact hrest
  | present hk =>
    refine .look fun hs => .congr (accept_bind_of_isAt ?_)
      ((Follows.eat hk).silent fun _ _ _ => rfl)
    rw [Session.isAt, hs, firstKind_cons, hk, decide_eq_true_eq]

theorem reads_identifier : Reads b (fun _ => True) Name identifier := by
  rintro s ts rest id n - - ⟨hk⟩
  exact (Follows.eat hk).silent fun _ _ _ => rfl

/-- The mark of the end of a statement is gone through, or left if it is a brace. -/
theorem follows_endOfStatement (h : End ts rest) : Follows endOfStatement s ts rest () 0 := by
  have hdiscard : ∀ {kind : Kind} {t : Token} {rest : List Token}, t.kind = kind →
      Follows (discard (eat kind)) s (t :: rest) rest () 0 := by
    intro kind t rest hk
    rw [discard_eq]
    exact (Follows.eat hk).silent fun _ _ _ => rfl
  refine .look fun hs => ?_
  rcases endOfStatement_cases s with ⟨hk, h'⟩ | ⟨hk, h'⟩ | ⟨hk, hk', h'⟩ <;> rw [hs] at hk
  · cases h with
    | semicolon ht => exact .congr h' (hdiscard ht)
    | lineBreak ht => simp [ht] at hk
    | brace hb => simp [hb] at hk
  · cases h with
    | semicolon ht => simp [ht] at hk
    | lineBreak ht => simp [ht] at hk
    | brace _ => exact .of_ok h'
  · rw [hs] at hk'
    cases h with
    | semicolon ht => simp [ht] at hk
    | lineBreak ht => exact .congr h' (hdiscard ht)
    | brace hb => exact absurd hb hk'

/-! ### Lists -/

/-- An element and the comma behind it read a phrase with an optional comma. -/
theorem reads_then_optionalComma {P : Phrase α} {p : Parser α} [Orderly p] (h : Reads b F P p)
    (hcomma : F (some .comma)) :
    Reads b (fun kind => F kind ∧ kind ≠ some .comma) (Then P OptionalComma)
      (do let a ← p; optionalComma; return a) := by
  rintro s ts rest a n hb ⟨hF, hrest⟩ ⟨hP, hQ⟩
  refine (h hb ?_ hP).bind (fun _ _ _ => (follows_optionalComma hQ hrest).silent fun _ _ _ => rfl)
    (by omega)
  cases hQ with
  | absent => exact hF
  | present hk => rwa [firstKind_cons, hk]

/-- A phrase with line breaks behind it is read together with all of them. -/
theorem reads_then_breaks {P : Phrase α} {p : Parser α} [Orderly p] (h : Reads b F P p)
    (hbreak : F (some .lineBreak)) :
    Reads b (fun kind => F kind ∧ kind ≠ some .lineBreak) (Then P Breaks)
      (do let a ← p; skipLineBreaks; return a) := by
  rintro s ts rest a n hb ⟨hF, hrest⟩ ⟨hP, hQ⟩
  refine (h hb ?_ hP).bind (fun _ _ _ => (follows_skipLineBreaks hQ hrest).silent fun _ _ _ => rfl)
    (by omega)
  cases hQ with
  | nil => exact hF
  | cons hk => rwa [firstKind_cons, hk]

/-- A list reads elements up to a closing parenthesis, which no element starts with. -/
theorem reads_listOf {P : Phrase α} {element : Parser α} [Orderly element] [Progressing element]
    (h : Reads b F P element) (hcomma : F (some .comma)) (hclose : F (some .closeParen))
    (hfirst : ∀ {ts us a n}, P ts us a n → ∃ kind, firstKind ts = some kind ∧ F (some kind) ∧
      kind ≠ .comma ∧ kind ≠ .closeParen) :
    Reads b (fun kind => kind = some .closeParen) (Many (Then P OptionalComma))
      (listOf element) := by
  intro s ts rest as n hb hrest hM
  refine Follows.many (F := fun kind => F kind ∧ kind ≠ some .comma)
    (fun kind => kind.isSome && !decide (kind = some .closeParen)) ?_
    (reads_then_optionalComma h hcomma) ?_ (by simp [hrest, hclose]) (by simp [hrest]) hb hM
  · intro s
    simp [Session.hasTokens, Session.isAt, Session.kind?]
  · rintro ts us a n ⟨hP, -⟩
    obtain ⟨kind, hk, hF, hne, hne'⟩ := hfirst hP
    simp [hk, hF, hne, hne']

/-- Properties between braces are read up to the closing brace, which no property starts with. -/
theorem reads_bodyOf {P : Phrase α} {property : Parser α} [Orderly property]
    [Progressing property] (h : Reads b F P property) (hbreak : F (some .lineBreak))
    (hclose : F (some .closeCurly))
    (hfirst : ∀ {ts us a n}, P ts us a n → ∃ kind, firstKind ts = some kind ∧ F (some kind) ∧
      kind ≠ .lineBreak ∧ kind ≠ .closeCurly) :
    Reads b (fun _ => True) (Body P) (bodyOf property) := by
  rintro s ts rest ⟨as, span⟩ n hb - h
  obtain ⟨ho, hM, hus, hc⟩ := h
  rename_i opening closing ts us
  -- The parser skips line breaks in front of the first property and behind each.
  obtain ⟨vs, hvs, hM⟩ := many_then_of_after hM hus
  have hfirst' : ∀ {ts us a n}, Then P Breaks ts us a n →
      (F (firstKind ts) ∧ firstKind ts ≠ some .lineBreak) ∧
        (!decide (firstKind ts = some .closeCurly)) = true := by
    rintro ts us a n ⟨hP, -⟩
    obtain ⟨kind, hk, hF, hne, hne'⟩ := hfirst hP
    simp [hk, hF, hne, hne']
  have hlast : F (firstKind (closing :: rest)) ∧
      firstKind (closing :: rest) ≠ some .lineBreak := by simp [hc, hclose]
  have hnext : F (firstKind vs) ∧ firstKind vs ≠ some .lineBreak :=
    firstKind_of_many (F := fun kind => F kind ∧ kind ≠ some .lineBreak)
      (fun h => (hfirst' h).1) hlast hM
  refine (Follows.eat ho).bind (fun _ _ hopening => ?_) (Nat.zero_max n).symm
  refine (follows_skipLineBreaks hvs hnext.2).bind (fun _ _ hbreaks => ?_) (Nat.zero_max n).symm
  have hb' := (hopening.trans hbreaks).budget
  refine (Follows.many (F := fun kind => F kind ∧ kind ≠ some .lineBreak)
    (fun kind => !decide (kind = some .closeCurly)) (fun _ => rfl)
    (reads_then_breaks h hbreak) hfirst' hlast (by simp [hc]) (by omega) hM).bind
    (fun _ _ _ => ?_) (Nat.max_zero n).symm
  refine (Follows.eat hc).silent fun _ hts hclosing => ?_
  rw [get_bind, Session.spanFrom, hclosing.lastEnd_of_token hts]
  rfl

/-! ### Parameters -/

theorem follows_optionally_none {kind : Kind} {p : Parser α} (h : firstKind ts ≠ some kind) :
    Follows (optionally kind p) s ts ts none 0 := by
  refine .look fun hs => .congr (accept_bind_of_not_isAt ?_) (.pure none)
  rw [Session.isAt, hs, decide_eq_false_iff_not]
  exact h

theorem follows_optionally_some {kind : Kind} {p : Parser α} [Orderly p] {t : Token} {a : α}
    (hk : t.kind = kind) (hp : ∀ {s'}, s'.budget = s.budget → Follows p s' us rest a n) :
    Follows (optionally kind p) s (t :: us) rest (some a) n := by
  refine .look fun hs => .congr (accept_bind_of_isAt ?_) ((Follows.eat hk).bind (fun _ _ hc => ?_)
    (Nat.zero_max n).symm)
  · rw [Session.isAt, hs, firstKind_cons, hk, decide_eq_true_eq]
  · rw [if_pos rfl, map_eq_pure_bind]
    exact (hp hc.budget).silent fun _ _ _ => rfl

/-- A property of a pattern is read with its comma, which is not part of its span. -/
theorem reads_patternProperty :
    Reads b (fun kind => kind ≠ some .colon ∧ kind ≠ some .comma) (Then Binding OptionalComma)
      patternProperty := by
  rintro s ts rest property n hb ⟨hcolon, hcomma⟩ ⟨hP, hQ⟩
  rename_i us
  -- The span is taken in front of the comma.
  have htail : ∀ {s s₁ s₂ : Session} {c d vs : List Token} {name : Identifier}
      {rename : Option Identifier}, Consumes s c s₁ → c ≠ [] → ts = c ++ vs → Consumes s₁ d s₂ →
      vs = d ++ us → ts.head?.map (·.span.start) = some name.span.start →
      Follows (do
        let s ← get
        optionalComma
        return (⟨name, rename, s.spanFrom name.span.start⟩ : PatternProperty)) s₂ us rest
        ⟨name, rename, spanOf ts us⟩ 0 := by
    intro s s₁ s₂ c d vs name rename hc hne hts hd hvs hstart
    refine .get ((follows_optionalComma hQ hcomma).silent fun _ _ _ => ?_)
    rw [hc.spanFrom hne hts hd hvs hstart]
    rfl
  -- The comma is no colon, so a name without another one ends here.
  have hus : firstKind us ≠ some .colon := by
    cases hQ with
    | absent => exact hcolon
    | present hk => simp [hk]
  rw [patternProperty_eq]
  cases hP with
  | plain hname =>
    refine (reads_identifier hb trivial hname).bind (fun hok hts hc => ?_) rfl
    refine (follows_optionally_none hus).bind (fun _ hts' hc' => ?_) rfl
    exact htail hc (Progressing.ne_nil hok hc) hts hc' hts' hname.start
  | renamed hname hk hrename =>
    refine (reads_identifier hb trivial hname).bind (fun hok hts hc => ?_) rfl
    have hb' := hc.budget
    refine (follows_optionally_some hk fun hs => reads_identifier (b := b) (by omega) trivial
      hrename).bind (fun _ hts' hc' => ?_) rfl
    exact htail hc (Progressing.ne_nil hok hc) hts hc' hts' hname.start

/-- A parameter is a name, or a body of bindings. -/
theorem reads_parameter : Reads b (fun _ => True) Parameter parameter := by
  intro s ts rest p n hb _ h
  refine .look fun hs => .get ?_
  -- The two kinds of parameter start with different tokens.
  cases h with
  | name hname =>
    rw [if_pos (by rw [Session.isAt, hs, hname.first, decide_eq_true_eq])]
    exact (reads_identifier hb trivial hname).silent fun _ _ _ => rfl
  | pattern hbody =>
    rw [if_neg (by rw [Session.isAt, hs, hbody.first]; simp)]
    have hpattern : Reads b (fun _ => True) (Body (Then Binding OptionalComma))
        (bodyOf patternProperty) := by
      refine reads_bodyOf reads_patternProperty (by simp) (by simp) ?_
      rintro ts us a n ⟨hP, -⟩
      cases hP with
      | plain hname => exact ⟨_, hname.first, by simp⟩
      | renamed hname => exact ⟨_, hname.first, by simp⟩
    have hobject : Follows objectPattern s ts rest _ 0 :=
      (hpattern hb trivial hbody).silent fun _ _ _ => rfl
    exact hobject.silent fun _ _ _ => rfl

/-! ### Expressions -/

/-- A number is read if it has a value. -/
theorem follows_numberLiteral {t : Token} (hk : t.kind = .number) :
    Follows numberLiteral s (t :: rest) rest (.number (numberOf t) t.span) 0 := by
  intro hr hsee
  have ht : t ∈ s.upcoming := by
    refine List.mem_of_mem_head? ?_
    rw [s.head?_upcoming, hsee.lookahead]
    rfl
  obtain ⟨value, hvalue⟩ := Option.isSome_iff_exists.1 (hr t ht hk)
  have h : Follows numberLiteral s (t :: rest) rest (.number (numberOf t) t.span) 0 := by
    refine (Follows.eat hk).silent fun _ _ _ => ?_
    rw [numberValue, numberOf, hvalue]
    rfl
  exact h hr hsee

theorem follows_stringLiteral {t : Token} (hk : t.kind = .string) :
    Follows stringLiteral s (t :: rest) rest (.string (textOf t) t.span) 0 :=
  (Follows.eat hk).silent fun _ _ _ => rfl

section Expressions

variable {expression sum operand value : Parser Expr} [Orderly expression] [Orderly sum]
  [Orderly operand] [Orderly value]

/-- The kinds of token in front of which an assignment may end. -/
def EndsAssignment (kind? : Option Kind) : Prop :=
  ∀ kind, kind? = some kind → kind.isAssignment = false

/-- An assignment ends in front of a closing parenthesis. -/
theorem follows_parenthesized {opening closing : Token} {e : Expr}
    (h : Reads b EndsAssignment Assignment expression) (hb : s.budget ≤ b)
    (ho : opening.kind = .openParen) (he : Assignment ts (closing :: rest) e n)
    (hc : closing.kind = .closeParen) :
    Follows (parenthesized expression) s (opening :: ts) rest e n := by
  refine (Follows.eat ho).bind (fun _ _ hopening => ?_) (Nat.zero_max n).symm
  have hb' := hopening.budget
  refine (h (by omega) ?_ he).bind (fun _ _ _ => (Follows.eat hc).silent fun _ _ _ => rfl)
    (Nat.max_zero n).symm
  intro kind hk
  rw [firstKind_cons, hc] at hk
  cases hk
  rfl

/-- A name by itself is no call, since no parenthesis opens behind it. -/
theorem follows_callable_name {id : Identifier} (hname : Name ts rest id 0)
    (hrest : firstKind rest ≠ some .openParen) :
    Follows (callable sum) s ts rest (.identifier id) 0 := by
  refine (reads_identifier (Nat.le_refl _) trivial hname).bind (fun _ _ _ => ?_) rfl
  refine .look fun hs => .congr (accept_bind_of_not_isAt ?_) (.pure _)
  rw [Session.isAt, hs, decide_eq_false_iff_not]
  exact hrest

/-- Arguments are sums with commas between them that may be missing. -/
theorem follows_callable_call [Progressing sum] {opening closing : Token} {callee : Identifier}
    {arguments : List Expr} (h : Reads b (fun _ => True) Additive sum) (hb : s.budget ≤ b)
    (hname : Name ts (opening :: us) callee 0) (ho : opening.kind = .openParen)
    (hM : Many (Then Additive OptionalComma) us (closing :: rest) arguments n)
    (hc : closing.kind = .closeParen) :
    Follows (callable sum) s ts rest
      (.call callee arguments ⟨callee.span.start, closing.span.stop⟩) n := by
  -- No argument starts with a comma or a closing parenthesis.
  have harguments : Reads b (fun kind => kind = some .closeParen)
      (Many (Then Additive OptionalComma)) (listOf sum) := by
    refine reads_listOf h trivial trivial fun he => ?_
    obtain ⟨kind, hk, hstart⟩ := he.first
    refine ⟨kind, hk, trivial, ?_, ?_⟩ <;> rintro rfl <;> cases hstart
  refine (reads_identifier hb trivial hname).bind (fun _ _ hcallee => ?_) (Nat.zero_max n).symm
  refine .look fun hs => .congr (accept_bind_of_isAt ?_) ?_
  · rw [Session.isAt, hs, firstKind_cons, ho, decide_eq_true_eq]
  refine (Follows.eat ho).bind (fun _ _ hopening => ?_) (Nat.zero_max n).symm
  have hb' := (hcallee.trans hopening).budget
  refine (harguments (by omega) (by simp [hc]) hM).bind (fun _ _ _ => ?_) (Nat.max_zero n).symm
  refine (Follows.eat hc).silent fun _ hts hclosing => ?_
  rw [get_bind, Session.spanFrom, hclosing.lastEnd_of_token hts]
  rfl

/-- Three dots and a sum. -/
theorem follows_spread {dots : Token} {e : Expr} (h : Reads b (fun _ => True) Additive sum)
    (hb : s.budget ≤ b) (hd : dots.kind = .spread) (he : Additive ts rest e n) :
    Follows (spread sum) s (dots :: ts) rest (.spread dots e ⟨dots.span.start, e.span.stop⟩) n := by
  refine (Follows.eat hd).bind (fun _ _ hdots => ?_) (Nat.zero_max n).symm
  have hb' := hdots.budget
  exact (h (by omega) trivial he).silent fun _ _ _ => rfl

theorem reads_propertyKey : Reads b (fun _ => True) Key propertyKey := by
  intro s ts rest key n hb _ h
  cases h with
  | plain hname =>
    refine .look fun hs => .congr (accept_bind_of_not_isAt ?_) (reads_identifier hb trivial hname)
    rw [Session.isAt, hs, hname.first]
    rfl
  | bracketed ho hname hc =>
    refine .look fun hs => .congr (accept_bind_of_isAt ?_) ?_
    · rw [Session.isAt, hs, firstKind_cons, ho, decide_eq_true_eq]
    refine (Follows.eat ho).bind (fun _ _ hopening => ?_) rfl
    have hb' := hopening.budget
    exact (reads_identifier (b := b) (by omega) trivial hname).bind
      (fun _ _ _ => (Follows.eat hc).silent fun _ _ _ => rfl) rfl

theorem reads_member [Progressing operand] (hoperand : Reads b (fun _ => True) Primary operand)
    (hvalue : Reads b (fun _ => True) Additive value) :
    Reads b (fun kind => kind ≠ some .colon) Entry (member operand value) := by
  intro s ts rest property n hb hcolon h
  refine .look fun hs => .peek fun hl => .get ?_
  have hstart : ∀ {t}, ts.head? = some t → ts.head?.map (·.span.start) = some s.position := by
    intro t ht
    rw [Session.position, hl, ht]
    rfl
  cases h with
  | spread hd he =>
    rw [if_pos (by rw [Session.isAt, hs, firstKind_cons, hd, decide_eq_true_eq])]
    refine (hoperand hb trivial (.spread hd he)).silent fun hok hts hc => ?_
    have hspan := hc.spanFrom (Progressing.ne_nil hok hc) hts (.refl _) rfl (hstart rfl)
    rw [get_bind, hspan]
    rfl
  | keyValue hkey hk he =>
    obtain ⟨t, ht, hkind⟩ := hkey.first
    rw [if_neg (by rw [Session.isAt, hs, firstKind, ht]; rcases hkind with h | h <;> simp [h])]
    refine (reads_propertyKey hb trivial hkey).bind (fun hok hts hc => ?_) (Nat.zero_max n).symm
    have hb' := hc.budget
    refine (follows_optionally_some hk fun hs => hvalue (by omega) trivial he).silent
      fun _ hts' hc' => ?_
    rw [get_bind, hc.spanFrom (Progressing.ne_nil hok hc) hts hc' hts' (hstart ht)]
    rfl
  | shorthand hkey =>
    obtain ⟨t, ht, hkind⟩ := hkey.first
    rw [if_neg (by rw [Session.isAt, hs, firstKind, ht]; rcases hkind with h | h <;> simp [h])]
    refine (reads_propertyKey hb trivial hkey).bind (fun hok hts hc => ?_) rfl
    refine (follows_optionally_none hcolon).silent fun _ hts' hc' => ?_
    rw [get_bind, hc.spanFrom (Progressing.ne_nil hok hc) hts hc' hts' (hstart ht)]
    rfl

theorem reads_object [Progressing operand] (hoperand : Reads b (fun _ => True) Primary operand)
    (hvalue : Reads b (fun _ => True) Additive value) :
    Reads b (fun _ => True) (Body (Then Entry OptionalComma))
      (bodyOf (property operand value)) := by
  rw [property_eq]
  refine reads_bodyOf (reads_then_optionalComma (reads_member hoperand hvalue) (by simp)) (by simp)
    (by simp) ?_
  rintro ts us p n ⟨hP, -⟩
  cases hP with
  | spread hd _ => exact ⟨_, firstKind_cons .., by simp [hd]⟩
  | keyValue hkey =>
    obtain ⟨t, ht, hkind⟩ := hkey.first
    exact ⟨t.kind, by rw [firstKind, ht]; rfl, by rcases hkind with h | h <;> simp [h]⟩
  | shorthand hkey =>
    obtain ⟨t, ht, hkind⟩ := hkey.first
    exact ⟨t.kind, by rw [firstKind, ht]; rfl, by rcases hkind with h | h <;> simp [h]⟩

/-- The induction is on the terms: the first one and those behind it run one level deeper. -/
theorem reads_terms (hoperand : Reads b (fun _ => True) Primary operand) :
    Reads b (fun kind => kind ≠ some .additiveOperator) Terms (terms operand) := by
  intro s ts rest more n hb hrest h
  induction more generalizing s ts n with
  | nil =>
    cases h
    refine .look fun hs => .of_ok (terms_of_not_isAt operand ?_)
    rw [Session.isAt, hs, decide_eq_false_iff_not]
    exact hrest
  | cons part more ih =>
    cases h with
    | @cons operator us vs _ e _ n m ho he hmore =>
      have hb' := budget_le_nested hb
      have hterm : ∀ {s : Session}, s.budget ≤ b →
          Follows (term operand) s (operator :: us) vs (operator, e) n := by
        intro s hb
        refine (Follows.eat ho).bind (fun _ _ hc => ?_) (Nat.zero_max n).symm
        have hb' := hc.budget
        exact (hoperand (by omega) trivial he).silent fun _ _ _ => rfl
      refine .look fun hs => .congr (terms_of_isAt operand ?_) (.nested ?_)
      · rw [Session.isAt, hs, firstKind_cons, ho, decide_eq_true_eq]
      · refine (hterm hb').bind (fun _ _ hc => ?_) rfl
        have hb'' := hc.budget
        exact (ih (by omega) hmore).silent fun _ _ _ => rfl

/-- A sum is read up to a token that is no additive operator. -/
theorem reads_additive (hoperand : Reads b (fun _ => True) Primary operand) :
    Reads b (fun _ => True) Additive (additive operand) := by
  rintro s ts rest e n hb - ⟨hfirst, hmore, hrest⟩
  rw [additive_eq]
  refine (hoperand hb trivial hfirst).bind (fun _ _ hc => ?_) rfl
  have hb' := hc.budget
  refine (reads_terms hoperand (by omega) hrest hmore).silent fun more _ _ => ?_
  rw [sumOf_eq_foldl]
  rfl

/-- An assignment goes on behind its left side exactly if an operator that assigns stands there. -/
theorem follows_assignmentOf {e : Expr} (hoperand : Reads b (fun _ => True) Additive operand)
    (hvalue : Reads b EndsAssignment Assignment value) (hb : s.budget ≤ b)
    (hrest : EndsAssignment (firstKind rest)) (h : Assignment ts rest e (n + 1)) :
    Follows (assignmentOf operand value) s ts rest e n := by
  rw [assignmentOf_eq]
  cases h with
  | sum he =>
    refine (hoperand hb trivial he).bind (fun _ _ _ => .look fun hs => .of_ok ?_)
      (Nat.max_zero n).symm
    rcases assigned_cases value e _ with ⟨kind, hk, hassign, -⟩ | ⟨-, h⟩
    · rw [hs] at hk
      rw [hrest kind hk] at hassign
      cases hassign
    · exact h
  | assign hleft ho hright =>
    refine (hoperand hb trivial hleft).bind (fun _ _ hc => .look fun hs => ?_) rfl
    have hb' := hc.budget
    rcases assigned_cases value _ _ with ⟨kind, hk, -, h⟩ | ⟨hk, -⟩
    · rw [hs, firstKind_cons] at hk
      refine .congr h ((Follows.eat (Option.some.inj hk)).bind (fun _ _ hc' => ?_)
        (Nat.zero_max _).symm)
      have hb'' := hc'.budget
      exact (hvalue (by omega) hrest hright).silent fun _ _ _ => rfl
    · have hassigns := assigns_iff.1 ho
      rw [hk _ (by rw [hs, firstKind_cons])] at hassigns
      cases hassigns

/-- The first token selects the expression that the phrase is. -/
theorem follows_primaryOf {e : Expr} [Progressing sum] [Progressing operand]
    (hexpression : Reads b EndsAssignment Assignment expression)
    (hsum : Reads b (fun _ => True) Additive sum)
    (hoperand : Reads b (fun _ => True) Primary operand) (hb : s.budget ≤ b)
    (h : Primary ts rest e (n + 1)) :
    Follows (primaryOf expression sum operand) s ts rest e n := by
  refine .look fun hs => ?_
  have hselect := primaryOf_of_kind? expression sum operand hs
  -- The rules start with different tokens, but for names and calls.
  cases h with
  | parenthesized ho he hc =>
    rw [firstKind_cons, ho] at hselect
    exact .congr hselect (follows_parenthesized hexpression hb ho he hc)
  | object hbody =>
    rw [hbody.first] at hselect
    exact .congr hselect ((reads_object hoperand hsum hb trivial hbody).silent fun _ _ _ => rfl)
  | name hname hrest =>
    rw [hname.first] at hselect
    exact .congr hselect (follows_callable_name hname hrest)
  | call hname ho hM hc =>
    rw [hname.first] at hselect
    exact .congr hselect (follows_callable_call hsum hb hname ho hM hc)
  | spread hd he =>
    rw [firstKind_cons, hd] at hselect
    exact .congr hselect (follows_spread hsum hb hd he)
  | number hk =>
    rw [firstKind_cons, hk] at hselect
    refine .peek fun hl => .congr (hselect.trans (literal_of_number hl hk)) ?_
    exact follows_numberLiteral hk
  | string hk =>
    rw [firstKind_cons, hk] at hselect
    refine .peek fun hl => .congr (hselect.trans (literal_of_string hl hk)) ?_
    exact follows_stringLiteral hk

end Expressions

/-- Expressions are read with at least as many levels to go as the session has left. -/
theorem reads_expressions (b : Nat) :
    Reads b EndsAssignment Assignment (assignment b) ∧
      Reads b (fun _ => True) Primary (primary b) := by
  induction b with
  | zero =>
    rw [assignment_zero, primary_zero]
    refine ⟨fun s ts rest e n hb _ h => .of_tooDeep rfl rfl ?_,
      fun s ts rest e n hb _ h => .of_tooDeep rfl rfl ?_⟩
    · cases h <;> omega
    · cases h <;> omega
  | succ b ih =>
    obtain ⟨hassignment, hprimary⟩ := ih
    have hsum : Reads b (fun _ => True) Additive (additive (primary b)) := reads_additive hprimary
    rw [assignment_succ, primary_succ]
    refine ⟨fun s ts rest e n hb hrest h => ?_, fun s ts rest e n hb _ h => ?_⟩
    · obtain ⟨m, rfl⟩ : ∃ m, n = m + 1 := by cases h <;> exact ⟨_, rfl⟩
      exact .nested (follows_assignmentOf hsum hassignment (budget_nested hb) hrest h)
    · obtain ⟨m, rfl⟩ : ∃ m, n = m + 1 := by cases h <;> exact ⟨_, rfl⟩
      exact .nested (follows_primaryOf hassignment hsum hprimary (budget_nested hb) h)

theorem reads_assignment (b : Nat) : Reads b EndsAssignment Assignment (assignment b) :=
  (reads_expressions b).1

theorem reads_sum (b : Nat) : Reads b (fun _ => True) Additive (additive (primary b)) :=
  reads_additive (reads_expressions b).2

/-! ### Statements -/

section Statements

variable {statement : Parser Stmt} {value : Parser Expr} [Orderly statement]
  [Progressing statement] [Orderly value]

/-- Statements are read up to the end of the tokens, or up to a closing brace. -/
theorem follows_statementList {stop : Option Kind} {body : List Stmt}
    (hstop : stop = none ∨ stop = some .closeCurly)
    (h : Reads b (fun _ => True) Statement statement)
    (hb : s.budget ≤ b) (hbreaks : Breaks ts us) (hM : Many (Then Statement Breaks) us rest body n)
    (hrest : firstKind rest = stop) : Follows (statementList statement stop) s ts rest body n := by
  -- No statement starts with a line break, or with what ends the list.
  have hfirst : ∀ {ts us a n}, Then Statement Breaks ts us a n →
      (True ∧ firstKind ts ≠ some .lineBreak) ∧
        (!(decide (firstKind ts = none) || decide (firstKind ts = stop))) = true := by
    rintro ts us a n ⟨ha, -⟩
    obtain ⟨kind, hk, hne, hne'⟩ := ha.first
    rcases hstop with rfl | rfl <;> simp [hk, hne, hne']
  have hlast : True ∧ firstKind rest ≠ some .lineBreak := by
    rcases hstop with rfl | rfl <;> simp [hrest]
  have hnext : True ∧ firstKind us ≠ some .lineBreak :=
    firstKind_of_many (F := fun kind => True ∧ kind ≠ some .lineBreak)
      (fun h => (hfirst h).1) hlast hM
  rw [statementList_eq statement (by rcases hstop with rfl | rfl <;> simp)]
  refine (follows_skipLineBreaks hbreaks hnext.2).bind (fun _ _ hc => ?_) (Nat.zero_max n).symm
  have hb' := hc.budget
  exact Follows.many (F := fun kind => True ∧ kind ≠ some .lineBreak)
    (fun kind => !(decide (kind = none) || decide (kind = stop))) (fun _ => rfl)
    (reads_then_breaks h trivial) hfirst hlast (by simp [hrest]) (by omega) hM

/-- A block reads the statements between its braces. -/
theorem reads_block (h : Reads b (fun _ => True) Statement statement) :
    Reads b (fun _ => True) (Braced Statement) (block statement) := by
  rintro s ts rest block n hb - ⟨ho, hbreaks, hM, hc⟩
  rw [block_eq]
  refine (Follows.eat ho).bind (fun _ _ hopening => ?_) (Nat.zero_max n).symm
  have hb' := hopening.budget
  refine (follows_statementList (.inr rfl) h (by omega) hbreaks hM (by simp [hc])).bind
    (fun _ _ _ => ?_) (Nat.max_zero n).symm
  refine (Follows.eat hc).silent fun _ hts hclosing => ?_
  rw [get_bind, Session.spanFrom, hclosing.lastEnd_of_token hts]
  rfl

/-- A declarator has a first value exactly if an equals sign follows its name. -/
theorem reads_declarator (h : Reads b EndsAssignment Assignment value) :
    Reads b EndsAssignment Declared (declarator value) := by
  intro s ts rest d n hb hrest hd
  rw [declarator_eq]
  cases hd with
  | plain hname =>
    -- An equals sign assigns, so none follows a name without a value.
    have hequals : firstKind rest ≠ some .simpleAssignment := by
      intro hk
      cases hrest _ hk
    refine (reads_identifier hb trivial hname).bind (fun hok hts hc => ?_) rfl
    refine (follows_optionally_none hequals).silent fun _ hts' hc' => ?_
    rw [get_bind, hc.spanFrom (Progressing.ne_nil hok hc) hts hc' hts' hname.start]
    rfl
  | valued hname hk he =>
    refine (reads_identifier hb trivial hname).bind (fun hok hts hc => ?_) (Nat.zero_max n).symm
    have hb' := hc.budget
    refine (follows_optionally_some hk fun hs => h (by omega) hrest he).silent
      fun _ hts' hc' => ?_
    rw [get_bind, hc.spanFrom (Progressing.ne_nil hok hc) hts hc' hts' hname.start]
    rfl

theorem reads_nextDeclarator (h : Reads b EndsAssignment Assignment value) :
    Reads b EndsAssignment NextDeclared (nextDeclarator value) := by
  rintro s ts rest d n hb hrest ⟨hcomma, hbreaks, hd⟩
  refine (Follows.eat hcomma).bind (fun _ _ hc => ?_) (Nat.zero_max n).symm
  refine (follows_skipLineBreaks hbreaks (by simp [hd.first])).bind (fun _ _ hc' => ?_)
    (Nat.zero_max n).symm
  have hb' := (hc.trans hc').budget
  exact reads_declarator h (by omega) hrest hd

/-- A declaration ends at a token that is neither a comma nor an operator that assigns. -/
theorem follows_declarationOf {word : Token} {kind : DeclarationKind} {vs : List Token}
    {first : Declarator} {more : List Declarator} {m : Nat}
    (h : Reads b EndsAssignment Assignment value) (hb : s.budget ≤ b)
    (hfirst : Declared ts us first n) (hM : Many NextDeclared us vs more m) (hend : End vs rest) :
    Follows (declarationOf value kind word.kind) s (word :: ts) rest
      (.declaration kind (first :: more) (spanOf (word :: ts) vs)) (max n m) := by
  -- A statement ends in front of no comma and no operator that assigns.
  have hlast : EndsAssignment (firstKind vs) ∧ decide (firstKind vs = some .comma) = false := by
    rcases hend.first with hk | hk | hk <;> rw [hk] <;>
      exact ⟨fun kind h => by cases h; rfl, rfl⟩
  have hcomma : ∀ {ts us d n}, NextDeclared ts us d n →
      EndsAssignment (firstKind ts) ∧ decide (firstKind ts = some .comma) = true := by
    rintro ts us d n ⟨hcomma, -, -⟩
    rw [firstKind_cons, hcomma]
    exact ⟨fun kind h => by cases h; rfl, rfl⟩
  have hus : EndsAssignment (firstKind us) :=
    firstKind_of_many (fun h => (hcomma h).1) hlast.1 hM
  refine (Follows.eat rfl).bind (fun hok hts hc => ?_) (Nat.zero_max _).symm
  have hb' := hc.budget
  refine (reads_declarator h (by omega) hus hfirst).bind (fun _ hts' hc' => ?_) rfl
  have hb'' := hc'.budget
  refine (Follows.many (fun kind => decide (kind = some .comma)) (fun _ => rfl)
    (reads_nextDeclarator h) hcomma hlast.1 hlast.2 (by omega) hM).bind (fun _ hts'' hc'' => ?_)
    (Nat.max_zero m).symm
  refine .get ((follows_endOfStatement hend).silent fun _ _ _ => ?_)
  rw [hts'', ← List.append_assoc] at hts'
  rw [hc.spanFrom (Progressing.ne_nil hok hc) hts (hc'.trans hc'') hts' rfl]
  rfl

theorem follows_resultStatement {word : Token} {e : Expr}
    (h : Reads b (fun _ => True) Additive value) (hb : s.budget ≤ b)
    (hword : word.kind = .returnWord) (he : Additive ts us e n) (hend : End us rest) :
    Follows (resultStatement value) s (word :: ts) rest (.result e (spanOf (word :: ts) us)) n := by
  refine (Follows.eat hword).bind (fun hok hts hc => ?_) (Nat.zero_max n).symm
  have hb' := hc.budget
  refine (h (by omega) trivial he).bind (fun _ hts' hc' => ?_) (Nat.max_zero n).symm
  refine .get ((follows_endOfStatement hend).silent fun _ _ _ => ?_)
  rw [hc.spanFrom (Progressing.ne_nil hok hc) hts hc' hts' rfl]
  rfl

omit [Orderly statement] [Progressing statement] in
/-- A block ends with the last token consumed. -/
theorem stop_of_block_eq_ok {s' : Session} {body : Block} (h : block statement s = .ok body s') :
    body.span.stop = s'.lastEnd := by
  rw [block_eq] at h
  obtain ⟨_, _, -, h⟩ := bind_eq_ok h
  obtain ⟨_, _, -, h⟩ := bind_eq_ok h
  obtain ⟨_, _, -, h⟩ := bind_eq_ok h
  cases h
  rfl

/-- A function is read with its parameters, which take no levels, and its body. -/
theorem follows_function {word opening closing : Token} {vs : List Token} {name : Identifier}
    {params : List Param} {body : Block} (h : Reads b (fun _ => True) Statement statement)
    (hb : s.budget ≤ b) (hword : word.kind = .functionWord) (hname : Name ts (opening :: us) name 0)
    (ho : opening.kind = .openParen)
    (hM : Many (Then Parameter OptionalComma) us (closing :: vs) params 0)
    (hc : closing.kind = .closeParen) (hbody : Braced Statement vs rest body n) :
    Follows (function statement) s (word :: ts) rest
      (.function name params body.body ⟨word.span.start, body.span.stop⟩) n := by
  have hparams : Reads b (fun kind => kind = some .closeParen)
      (Many (Then Parameter OptionalComma)) (listOf parameter) := by
    refine reads_listOf reads_parameter trivial trivial fun hp => ?_
    cases hp with
    | name hname => exact ⟨_, hname.first, trivial, by simp⟩
    | pattern hbody => exact ⟨_, hbody.first, trivial, by simp⟩
  refine (Follows.eat hword).bind (fun _ _ hc₁ => ?_) (Nat.zero_max n).symm
  have hb₁ := hc₁.budget
  refine (reads_identifier (b := b) (by omega) trivial hname).bind (fun _ _ hc₂ => ?_)
    (Nat.zero_max n).symm
  refine (Follows.eat ho).bind (fun _ _ hc₃ => ?_) (Nat.zero_max n).symm
  have hb₃ := (hc₂.trans hc₃).budget
  refine (hparams (by omega) (by simp [hc]) hM).bind (fun _ _ hc₄ => ?_) (Nat.zero_max n).symm
  refine (Follows.eat hc).bind (fun _ _ hc₅ => .look fun hs => ?_) (Nat.zero_max n).symm
  have hb₅ := (hc₄.trans hc₅).budget
  obtain ⟨hbrace⟩ := id hbody
  rw [firstKind_cons, hbrace] at hs
  rcases expectBody_cases _ with ⟨hnone, -⟩ | ⟨t, ht, hne, -⟩ | ⟨-, hok⟩
  · rw [Session.kind?, hnone] at hs
    cases hs
  · rw [Session.kind?, ht] at hs
    exact absurd (Option.some.inj hs) hne
  · refine .congr (bind_of_ok hok) ((reads_block h (by omega) trivial hbody).silent
      fun hok _ _ => ?_)
    rw [get_bind, Session.spanFrom, ← stop_of_block_eq_ok hok]
    rfl

theorem follows_expressionStatement {e : Expr} (h : Reads b EndsAssignment Assignment value)
    (hb : s.budget ≤ b) (he : Assignment ts us e n) (hend : End us rest) :
    Follows (expressionStatement value) s ts rest (.expression e e.span) n := by
  have hus : EndsAssignment (firstKind us) := by
    rcases hend.first with hk | hk | hk <;> rw [hk] <;> rintro kind ⟨⟩ <;> rfl
  refine (h hb hus he).bind (fun _ _ _ => ?_) (Nat.max_zero n).symm
  exact (follows_endOfStatement hend).silent fun _ _ _ => rfl

/-- The first token selects the statement that the phrase is. -/
theorem follows_statementOf {expression sum : Parser Expr} [Orderly expression] [Orderly sum]
    {a : Stmt} (hstatement : Reads b (fun _ => True) Statement statement)
    (hexpression : Reads b EndsAssignment Assignment expression)
    (hsum : Reads b (fun _ => True) Additive sum) (hb : s.budget ≤ b)
    (h : Statement ts rest a (n + 1)) :
    Follows (statementOf statement expression sum) s ts rest a n := by
  refine .look fun hs => ?_
  have hselect := statementOf_of_kind? statement expression sum hs
  cases h with
  | empty hk =>
    rw [firstKind_cons, hk] at hselect
    exact .congr hselect ((Follows.eat hk).silent fun _ _ _ => rfl)
  | block hblock =>
    obtain ⟨ho⟩ := id hblock
    rw [firstKind_cons, ho] at hselect
    exact .congr hselect ((reads_block hstatement hb trivial hblock).silent fun _ _ _ => rfl)
  | @declaration word kind _ _ _ _ _ _ _ _ hword hfirst hM hend =>
    have hdeclaration : statementOf statement expression sum s =
        declarationOf expression kind word.kind s := by
      rw [firstKind_cons] at hs hselect
      generalize word.kind = w at hword hs hselect ⊢
      cases hword <;> exact hselect.trans (declaration_of_kind? expression hs)
    exact .congr hdeclaration (follows_declarationOf hexpression hb hfirst hM hend)
  | result hword he hend =>
    rw [firstKind_cons, hword] at hselect
    exact .congr hselect (follows_resultStatement hsum hb hword he hend)
  | function hword hname ho hM hc hbody =>
    rw [firstKind_cons, hword] at hselect
    exact .congr hselect (follows_function hstatement hb hword hname ho hM hc hbody)
  | expression hne he hend =>
    have hexpr : statementOf statement expression sum s = expressionStatement expression s := by
      obtain ⟨kind, hk, hstart⟩ := he.first
      rw [hk] at hselect hne
      -- Every other first token of an expression selects an expression.
      cases kind <;> first | exact hselect | exact absurd rfl hne | cases hstart
    exact .congr hexpr (follows_expressionStatement hexpression hb he hend)

end Statements

/-- Statements are read with at least as many levels to go as the session has left. -/
theorem reads_statement (b : Nat) : Reads b (fun _ => True) Statement (statement b) := by
  induction b with
  | zero =>
    intro s ts rest a n hb _ h
    rw [statement_zero]
    refine .of_tooDeep rfl rfl ?_
    cases h <;> omega
  | succ b ih =>
    intro s ts rest a n hb _ h
    obtain ⟨m, rfl⟩ : ∃ m, n = m + 1 := by cases h <;> exact ⟨_, rfl⟩
    rw [statement_succ]
    exact .nested (follows_statementOf ih (reads_assignment b) (reads_sum b) (budget_nested hb) h)

end Grammar

/-- A session in front of a program reads it to the end, or else has too few levels for it. -/
theorem Parser.follows_program {s : Session} {ts : List Token} {p : Program} {n : Nat}
    (h : Derivable s.file ts p n) (hend : s.lastEnd = .of s.file 0) :
    Follows program s ts [] p n := by
  obtain ⟨hbreaks, hM⟩ := h
  refine .congr (program_apply s) ((Grammar.follows_statementList (.inl rfl)
    (Grammar.reads_statement s.budget) (Nat.le_refl _) hbreaks hM rfl).silent fun _ hts hc => ?_)
  rw [List.append_nil] at hts
  rw [get_bind, Session.spanFrom, hc.lastEnd, hend, ← hts]
  rfl

end Scriptlet
