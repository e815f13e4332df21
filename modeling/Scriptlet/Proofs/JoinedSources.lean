import Scriptlet.Proofs.JoinedFeeds
import Scriptlet.Proofs.Recognition
import Scriptlet.Proofs.TreeEquality

/-!
# Parsing is compositional over lines

Put two sources after one another, with a newline between them. If the first one is accepted, then
what becomes of the two together is what becomes of the second one: they are accepted if it is, and
their statements are those of the first one and behind them those of the second one, with all
positions further behind by the length of the first source and the newline; and if the second source
fails they fail in the same way, at the position further behind.

The run on the joined sources is compared with the run on the first source up to the line break that
they meet in. Only the last statement can consume it, and then only as the mark of its end, so all
of the tree has been made before (`passes_statement`). From behind the line break on the run is
compared with that on the second source.

## Main definitions

* `Parser.EndsIn`: parsers whose last token is known;
* `Abuts`: two sessions at the same place, in front of the end of one source and of the joint;
* `Parser.Passes`: what a run on the joined sources does at the joint.

## Main results

* `Grammar.passes_statementList`: the statements of the first source, and what is behind them;
* `Grammar.tracks_statementList`: the statements of the second source;
* `parseSource_append_newline`: joined sources.
-/

namespace Scriptlet

open Text (byteLength)

/-! ### Where statements end -/

namespace Parser

variable {α β : Type}

/-- When the parser succeeds, the last token that it has consumed is of the given kind. -/
def EndsIn (kind : Kind) (p : Parser α) : Prop :=
  ∀ ⦃s a s'⦄, p s = .ok a s' → ∃ c t, Consumes s (c ++ [t]) s' ∧ t.kind = kind

namespace EndsIn

variable {kind : Kind}

theorem eat (kind : Kind) : EndsIn kind (eat kind) := by
  intro s t s' h
  obtain ⟨hk, hc, -⟩ := eat_eq_ok h
  exact ⟨[], t, hc, hk⟩

theorem before {p : Parser α} {f : α → Parser β} [Orderly p] (hf : ∀ a, EndsIn kind (f a)) :
    EndsIn kind (p >>= f) := by
  intro s b s' h
  obtain ⟨a, s₁, hp, hfa⟩ := bind_eq_ok h
  obtain ⟨c, hc, -⟩ := Orderly.ok hp
  obtain ⟨d, t, hd, hk⟩ := hf a hfa
  refine ⟨c ++ d, t, ?_, hk⟩
  rw [List.append_assoc]
  exact hc.trans hd

/-- What consumes nothing is no matter. -/
theorem silent {p : Parser α} {f : α → Parser β} (hp : EndsIn kind p)
    (hf : ∀ {a s b s'}, f a s = .ok b s' → s' = s) : EndsIn kind (p >>= f) := by
  intro s b s' h
  obtain ⟨a, s₁, hpa, hfa⟩ := bind_eq_ok h
  rw [hf hfa]
  exact hp hpa

end EndsIn

end Parser

namespace Grammar

open Scriptlet.Parser

variable (statement : Parser Stmt) (expression sum : Parser Expr)

theorem endsIn_emptyStatement : EndsIn .semicolon emptyStatement :=
  (EndsIn.eat .semicolon).silent fun h => by cases h; rfl

theorem endsIn_block [Orderly statement] : EndsIn .closeCurly (block statement) := by
  rw [block_eq]
  exact .before fun _ => .before fun _ => (EndsIn.eat .closeCurly).silent fun h => by cases h; rfl

theorem endsIn_blockStatement [Orderly statement] :
    EndsIn .closeCurly (blockStatement statement) :=
  (endsIn_block statement).silent fun h => by cases h; rfl

theorem endsIn_function [Orderly statement] : EndsIn .closeCurly (function statement) :=
  .before fun _ => .before fun _ => .before fun _ => .before fun _ => .before fun _ =>
    .before fun _ => (endsIn_block statement).silent fun h => by cases h; rfl

/-- The end of a statement is not the end of the input. -/
theorem upcoming_ne_nil_of_endOfStatement {s s' : Session} (h : endOfStatement s = .ok () s') :
    s.upcoming ≠ [] := by
  intro hnil
  have hnone := Session.lookahead_eq_none_iff.2 hnil
  have hkind : s.kind? = none := by rw [Session.kind?, hnone, Option.map_none]
  rcases endOfStatement_cases s with ⟨hk, -⟩ | ⟨hk, -⟩ | ⟨-, -, hcase⟩
  · rw [hkind] at hk
    cases hk
  · rw [hkind] at hk
    cases hk
  · rw [hcase, discard_eq, bind_of_error (eat_of_lookahead_eq_none hnone)] at h
    cases h

/-- A statement ends in a token of its own, or with the mark of its end. -/
theorem endsIn_or_ended [Orderly statement] [Orderly expression] [Orderly sum]
    (hexpression : ∀ φ ψ, Blind φ ψ false expression expression)
    (hsum : ∀ φ ψ, Blind φ ψ false sum sum) (s : Session) :
    (∃ kind p, kind ≠ .lineBreak ∧ EndsIn kind p ∧
      statementOf statement expression sum s = p s) ∨
    (∃ p, Orderly p ∧ (∀ φ ψ, Blind φ ψ true p p) ∧ ∀ s' : Session, s'.kind? = s.kind? →
      statementOf statement expression sum s' = ended p s') := by
  have hs := fun {s' : Session} {kind? : Option Kind} (h : s'.kind? = kind?) =>
    statementOf_of_kind? statement expression sum h
  -- The three words of a declaration lead to one production, and so do all kinds that start no
  -- other statement.
  have hdeclaration : ∀ {word : Kind}, s.kind? = some word →
      (∀ s' : Session, s'.kind? = some word →
        statementOf statement expression sum s' = declaration expression s') →
      ∃ p, Orderly p ∧ (∀ φ ψ, Blind φ ψ true p p) ∧ ∀ s' : Session, s'.kind? = some word →
        statementOf statement expression sum s' = ended p s' := by
    intro word h hword
    refine ⟨openDeclaration expression (declarationWord (some word)).1
      (declarationWord (some word)).2, inferInstance,
      fun φ ψ => blind_openDeclaration (hexpression φ ψ) _ _, fun s' h' => ?_⟩
    rw [hword s' h', declaration_of_kind? expression h', declarationOf_eq]
  have hexpr : (∀ s' : Session, s'.kind? = s.kind? →
        statementOf statement expression sum s' = expressionStatement expression s') →
      ∃ p, Orderly p ∧ (∀ φ ψ, Blind φ ψ true p p) ∧ ∀ s' : Session, s'.kind? = s.kind? →
        statementOf statement expression sum s' = ended p s' := by
    intro h
    refine ⟨openExpression expression, inferInstance,
      fun φ ψ => blind_openExpression (hexpression φ ψ).weaken, fun s' h' => ?_⟩
    rw [h s' h', expressionStatement_eq]
  cases h : s.kind? with
  | none => exact .inr (h ▸ hexpr fun s' h' => hs (h'.trans h))
  | some kind =>
    cases kind with
    | semicolon => exact .inl ⟨_, _, by simp, endsIn_emptyStatement, hs h⟩
    | openCurly => exact .inl ⟨_, _, by simp, endsIn_blockStatement statement, hs h⟩
    | functionWord => exact .inl ⟨_, _, by simp, endsIn_function statement, hs h⟩
    | letWord | varWord | constWord => exact .inr (hdeclaration h fun s' h' => hs h')
    | returnWord =>
      refine .inr ⟨openResult sum, inferInstance, fun φ ψ => blind_openResult (hsum φ ψ),
        fun s' h' => ?_⟩
      rw [hs h', resultStatement_eq]
    | _ => exact .inr (h ▸ hexpr fun s' h' => hs (h'.trans h))

end Grammar

/-! ### Up to the joint -/

/-- Two sessions at the same place, with the tokens `c` in front of them. Behind these there is the
line break `b` at the end of the source, and on the other side the line break `b'`, and then what
comes from the feed `back`. -/
structure Abuts (b b' : Token) (back : Feed) (c : List Token) (s s' : Session) : Prop where
  /-- The first source ends in its line break. -/
  upcoming : s.upcoming = c ++ [b]
  /-- It has no fault. -/
  fault : s.fault = none
  /-- The joined sources go on. -/
  upcoming' : s'.upcoming = c ++ b' :: back.tokens
  /-- They end as the second one does. -/
  fault' : s'.fault = back.fault
  /-- The sessions come from the same place, with the same levels. -/
  shadows : Shadows id id true s s'

/-- From `s'` on the first parser comes to the joint, and from behind it goes on as the second
parser; or a fault stands there, and it fails. -/
def Parser.Passes {α : Type} (back : Feed) (p q : Parser α) (s' : Session) : Prop :=
  (∃ d s₁', Consumes s' d s₁' ∧ s₁'.upcoming = back.tokens ∧ s₁'.Settled ∧ p s' = q s₁') ∨
  (∃ e s₁', back = ⟨[], some e⟩ ∧ p s' = .error e s₁')

namespace Parser

variable {α β : Type} {back : Feed}

namespace Passes

variable {p p' q : Parser α} {s' : Session}

theorem congr (h : p s' = p' s') (hp : Passes back p' q s') : Passes back p q s' := by
  rw [Passes, h]
  exact hp

theorem bind (f : α → Parser β) (hp : Passes back p q s') :
    Passes back (p >>= f) (q >>= f) s' := by
  rcases hp with ⟨d, s₁', hd, hup, hsettled, h⟩ | ⟨e, s₁', hback, h⟩
  · exact .inl ⟨d, s₁', hd, hup, hsettled, by rw [bind_apply, h, bind_apply]⟩
  · exact .inr ⟨e, s₁', hback, bind_of_error h⟩

/-- What has been done in front of the joint stays. -/
theorem of_ok {f : α → Parser β} {q : Parser β} {a : α} {s₁' : Session} {c : List Token}
    (h : p s' = .ok a s₁') (hc : Consumes s' c s₁') (hf : Passes back (f a) q s₁') :
    Passes back (p >>= f) q s' := by
  rw [Passes, bind_of_ok h]
  rcases hf with ⟨d, s₂', hd, hup, hsettled, h'⟩ | ⟨e, s₂', hback, h'⟩
  · exact .inl ⟨c ++ d, s₂', hc.trans hd, hup, hsettled, h'⟩
  · exact .inr ⟨e, s₂', hback, h'⟩

theorem nested {a : α} [Orderly p] (hpos : 0 < s'.budget)
    (hp : Passes back p (pure a) (s'.withDepth (s'.depth + 1))) :
    Passes back (nested p) (pure a) s' := by
  rcases hp with ⟨d, s₁', hd, hup, hsettled, h⟩ | ⟨e, s₁', hback, h⟩
  · exact .inl ⟨d, _, hd.ofDepth, hup, hsettled, nested_of_ok hpos h⟩
  · exact .inr ⟨e, _, hback, nested_of_error hpos h⟩

end Passes

end Parser

namespace Abuts

open Scriptlet.Parser

variable {b b' : Token} {back : Feed} {c : List Token} {s s' s₁ : Session}

theorem withDepth (h : Abuts b b' back c s s') :
    Abuts b b' back c (s.withDepth (s.depth + 1)) (s'.withDepth (s'.depth + 1)) :=
  ⟨h.upcoming, h.fault, h.upcoming', h.fault', h.shadows.withDepth⟩

/-- A run that leaves the line break has seen the same on both sides. -/
theorem watches (h : Abuts b b' back c s s') (hface : Faces id id b b') (hne : s₁.upcoming ≠ []) :
    Watches id id s s₁ s' := by
  have hb : Alongside id id 0 [b] s.fault (b' :: back.tokens) s'.fault := hface
  have halong := hb.of_append (c := c) (d := c) rfl
  rw [← h.upcoming, ← h.upcoming'] at halong
  refine halong.mono ?_
  have hpos := List.length_pos_iff.2 hne
  rw [h.upcoming, List.length_append, List.length_singleton]
  omega

theorem kind? (h : Abuts b b' back c s s') (hface : Faces id id b b') : s'.kind? = s.kind? := by
  have hne : s.upcoming ≠ [] := by simp [h.upcoming]
  exact (h.shadows.seen (h.watches hface hne)).kind?

/-- What is left of the tokens in front of the joint. -/
theorem exists_append {d : List Token} (h : Abuts b b' back c s s') (hc : Consumes s d s₁)
    (hne : s₁.upcoming ≠ []) : ∃ c₁, c = d ++ c₁ ∧ s₁.upcoming = c₁ ++ [b] := by
  obtain ⟨c₁, t, hup⟩ := s₁.upcoming.eq_nil_or_concat.resolve_left hne
  rw [List.concat_eq_append] at hup
  have happend := hc.upcoming
  rw [h.upcoming, hup, ← List.append_assoc] at happend
  obtain ⟨hc₁, hlast⟩ := List.append_inj' happend rfl
  exact ⟨c₁, hc₁, by rw [hup, hlast]⟩

/-- A parser that leaves the line break does the same on both sides. -/
theorem step {α : Type} [Relocatable α] [Relocatable.Lawful α] {p : Parser α} {a : α}
    [Orderly p] (h : Abuts b b' back c s s') (hface : Faces id id b b') (hp : Blind id id true p p)
    (hok : p s = .ok a s₁) (hne : s₁.upcoming ≠ []) :
    ∃ d c₁ s₁', p s' = .ok a s₁' ∧ Consumes s d s₁ ∧ Consumes s' d s₁' ∧ c = d ++ c₁ ∧
      Abuts b b' back c₁ s₁ s₁' := by
  -- Something is left of the first source, so its end has not been seen, and blindness applies.
  have hw := h.watches hface hne
  rw [← final_of_ok hok] at hw
  rcases hp h.shadows hw with ⟨d, d', _, a', s₂, s₁', hok', h', ha, hd, hd', hdd⟩ |
    ⟨_, _, _, _, _, _, herror, -⟩
  · rw [hok] at hok'
    cases hok'
    rw [relocate_id, relocate_id] at ha
    rw [relocate_id, relocate_id] at hdd
    subst ha hdd
    obtain ⟨c₁, hc, hup⟩ := h.exists_append hd hne
    refine ⟨d, c₁, s₁', h', hd, hd', hc, hup, hd.fault.trans h.fault, ?_,
      hd'.fault.trans h.fault', h.shadows.consumes hd hd' rfl⟩
    have hup' := hd'.upcoming
    rw [h.upcoming', hc, List.append_assoc] at hup'
    exact (List.append_cancel_left hup').symm
  · rw [hok] at herror
    cases herror

/-- In front of the joint the line break is consumed, and there the sources meet. -/
theorem passes_eat (h : Abuts b b' back [] s s') (hb : b.kind = .lineBreak)
    (hface : Faces id id b b') : Passes back (eat .lineBreak) (pure b') s' := by
  have hkind : b'.kind = .lineBreak := hface.kind.trans hb
  have hup' : s'.upcoming = b' :: back.tokens := h.upcoming'
  rcases eat_of_upcoming hup' hkind with ⟨hsettled, s₁', heat, hc⟩ | ⟨hnil, e, s₁', hf, heat, hc⟩
  · -- The line break is consumed, and the scanner goes on, or fails right behind it.
    have hup := hc.upcoming_eq hup'
    refine .inl ⟨[b'], s₁', hc, hup, fun hnil => ?_, heat⟩
    rw [hc.fault]
    exact hsettled (hup ▸ hnil)
  · refine .inr ⟨e, s₁', ?_, heat⟩
    rw [h.fault'] at hf
    obtain ⟨tokens, fault⟩ := back
    cases hnil; cases hf
    rfl

theorem passes_endOfStatement (h : Abuts b b' back [] s s') (hb : b.kind = .lineBreak)
    (hface : Faces id id b b') : Passes back Grammar.endOfStatement (pure ()) s' := by
  have hkind : s'.kind? = some .lineBreak := by
    rw [Session.kind?, Session.lookahead_of_upcoming h.upcoming', Option.map_some, hface.kind, hb]
  rcases Grammar.endOfStatement_cases s' with ⟨hk, -⟩ | ⟨hk, -⟩ | ⟨-, -, hend⟩
  · rw [hkind] at hk
    cases hk
  · rw [hkind] at hk
    cases hk
  · rw [discard_eq] at hend
    exact .congr hend ((h.passes_eat hb hface).bind fun _ => pure ())

/-- A token that ends the source is its line break. -/
theorem eq_nil_of_consumes {t : Token} (h : Abuts b b' back c s s') (hc : Consumes s [t] s₁)
    (hnil : s₁.upcoming = []) : c = [] := by
  have hlength := congrArg List.length hc.upcoming
  rw [h.upcoming, hnil, List.append_nil, List.length_append] at hlength
  exact List.length_eq_zero_iff.1 (by simpa using hlength)

theorem eq_nil_of_endOfStatement (h : Abuts b b' back c s s')
    (hend : Grammar.endOfStatement s = .ok () s₁) (hnil : s₁.upcoming = []) : c = [] := by
  have htoken : ∀ {kind : Kind}, discard (eat kind) s = .ok () s₁ → c = [] := by
    intro kind hdiscard
    rw [discard_eq] at hdiscard
    obtain ⟨t, s₂, heat, hpure⟩ := bind_eq_ok hdiscard
    cases hpure
    exact h.eq_nil_of_consumes (eat_eq_ok heat).2.1 hnil
  -- A brace would be left, so a token has been consumed.
  rcases Grammar.endOfStatement_cases s with ⟨-, hcase⟩ | ⟨-, hcase⟩ | ⟨-, -, hcase⟩
  · exact htoken (hcase ▸ hend)
  · rw [hcase] at hend
    cases hend
    rw [h.upcoming] at hnil
    simp at hnil
  · exact htoken (hcase ▸ hend)

/-- A statement that consumes the line break as the mark of its end. -/
theorem passes_ended {p : Parser Stmt} {a : Stmt} [Orderly p] (h : Abuts b b' back c s s')
    (hb : b.kind = .lineBreak) (hface : Faces id id b b') (hp : Blind id id true p p)
    (hok : Grammar.ended p s = .ok a s₁) (hnil : s₁.upcoming = []) :
    Passes back (Grammar.ended p) (pure a) s' := by
  rw [Grammar.ended] at hok ⊢
  obtain ⟨a', s₂, hpa, hrest⟩ := bind_eq_ok hok
  obtain ⟨⟨⟩, s₃, hend, hpure⟩ := bind_eq_ok hrest
  cases hpure
  have hne := Grammar.upcoming_ne_nil_of_endOfStatement hend
  obtain ⟨d, c₁, s₂', hpa', -, hd', -, h₂⟩ := h.step hface hp hpa hne
  obtain rfl := h₂.eq_nil_of_endOfStatement hend hnil
  exact .of_ok hpa' hd' ((h₂.passes_endOfStatement hb hface).bind _)

end Abuts

namespace Grammar

open Scriptlet.Parser

variable {b b' : Token} {back : Feed} {c : List Token} {s s' s₁ : Session}

/-- The last statement of the first source. -/
theorem passes_statement {m : Nat} {a : Stmt} (h : Abuts b b' back c s s')
    (hb : b.kind = .lineBreak) (hface : Faces id id b b') (hok : statement m s = .ok a s₁)
    (hnil : s₁.upcoming = []) : Passes back (statement m) (pure a) s' := by
  cases m with
  | zero =>
    rw [statement_zero] at hok
    cases hok
  | succ m =>
    rw [statement_succ] at hok ⊢
    obtain ⟨hpos, s₂, hof, rfl⟩ := nested_eq_ok hok
    rw [← h.shadows.budget] at hpos
    refine .nested hpos ?_
    rcases endsIn_or_ended (statement m) (assignment m) (additive (primary m))
      (fun φ ψ => (blind_expressions m).1) (fun φ ψ => blind_additive (blind_expressions m).2)
      (s.withDepth (s.depth + 1)) with ⟨kind, p, hk, hends, hcase⟩ | ⟨p, _, hblind, hcase⟩
    · -- The line break would have to be of another kind.
      exfalso
      rw [hcase] at hof
      obtain ⟨d, t, hc, ht⟩ := hends hof
      have happend := hc.upcoming
      rw [show s₂.upcoming = [] from hnil, List.append_nil, h.withDepth.upcoming] at happend
      obtain ⟨-, htb⟩ := List.append_inj' happend rfl
      rw [List.cons.inj htb |>.1, ht] at hb
      exact hk hb
    · rw [hcase _ rfl] at hof
      exact .congr (hcase _ (h.withDepth.kind? hface))
        (h.withDepth.passes_ended hb hface (hblind id id) hof hnil)

/-! ### Statements one behind the other -/

theorem statementList_of_lineBreak {p : Parser Stmt} {s : Session} (h : s.isAt .lineBreak = true) :
    statementList p none s = (eat .lineBreak >>= fun _ => statementList p none) s := by
  rw [statementList_eq p (by simp), bind_apply, skipLineBreaks_of_isAt h, ← bind_apply, bind_assoc]

theorem statementList_of_nil {p : Parser Stmt} {s : Session} (h : s.upcoming = []) :
    statementList p none s = .ok [] s := by
  refine statementList_of_atStop p (by simp) ?_
  rw [atStop, Session.kind?, Session.lookahead_eq_none_iff.2 h]
  rfl

theorem statementList_of_statement {p : Parser Stmt} [Progressing p] [Orderly p] {s : Session}
    (h : s.isAt .lineBreak = false) (hne : s.upcoming ≠ []) :
    statementList p none s = (do
      let a ← p
      let as ← statementList p none
      return a :: as : Parser (List Stmt)) s := by
  have hstop : atStop none s = false := by
    simp [atStop, Session.kind?, Session.lookahead_eq_none_iff, hne]
  rw [statementList_eq p (by simp), bind_of_ok (skipLineBreaks_of_not_isAt h),
    repeatWhile_of_test (by simp [hstop])]
  simp only [bind_assoc, pure_bind]

/-- The statements of the first source, and on the other side what is behind them. The induction is
on the tokens in front of the joint. -/
theorem passes_statementList {m : Nat} {body : List Stmt} (h : Abuts b b' back c s s')
    (hb : b.kind = .lineBreak) (hface : Faces id id b b')
    (hok : statementList (statement m) none s = .ok body s₁) :
    Passes back (statementList (statement m) none) (do
      let more ← statementList (statement m) none
      return body ++ more : Parser (List Stmt)) s' := by
  -- By the number of tokens in front of the joint, as line breaks and statements both take some.
  induction hn : c.length using Nat.strongRecOn generalizing c s s' body with
  | ind n ih =>
    have hisAt : s'.isAt .lineBreak = s.isAt .lineBreak := by
      rw [Session.isAt, h.kind? hface, Session.isAt]
    cases hbreak : s.isAt .lineBreak with
    | true =>
      -- A line break is passed over, and it may be the one that the sources meet in.
      rw [statementList_of_lineBreak hbreak] at hok
      obtain ⟨t, s₂, heat, hlist⟩ := bind_eq_ok hok
      refine .congr (statementList_of_lineBreak (hisAt.trans hbreak)) ?_
      by_cases hnil : s₂.upcoming = []
      · obtain rfl := h.eq_nil_of_consumes (eat_eq_ok heat).2.1 hnil
        rw [statementList_of_nil hnil] at hlist
        cases hlist
        have hpasses := (h.passes_eat hb hface).bind fun _ => statementList (statement m) none
        simpa using hpasses
      · obtain ⟨d, c₁, s₂', heat', hd, hd', hc, h₂⟩ := h.step hface (.eat _) heat hnil
        have hpos := List.length_pos_iff.2 (Progressing.ne_nil heat hd)
        have hlength := congrArg List.length hc
        rw [List.length_append] at hlength
        exact .of_ok heat' hd' (ih _ (by omega) h₂ hlist rfl)
    | false =>
      have hne : s.upcoming ≠ [] := by simp [h.upcoming]
      have hne' : s'.upcoming ≠ [] := by simp [h.upcoming']
      rw [statementList_of_statement hbreak hne] at hok
      obtain ⟨a, s₂, hstatement, hrest⟩ := bind_eq_ok hok
      obtain ⟨as, s₃, hlist, hpure⟩ := bind_eq_ok hrest
      cases hpure
      refine .congr (statementList_of_statement (hisAt.trans hbreak) hne') ?_
      by_cases hnil : s₂.upcoming = []
      · rw [statementList_of_nil hnil] at hlist
        cases hlist
        have hpasses := (passes_statement h hb hface hstatement hnil).bind fun a =>
          (do let as ← statementList (statement m) none; return a :: as : Parser (List Stmt))
        exact hpasses
      · obtain ⟨d, c₁, s₂', hstatement', hd, hd', hc, h₂⟩ :=
          h.step hface (blind_statement m).weaken hstatement hnil
        have hpos := List.length_pos_iff.2 (Progressing.ne_nil hstatement hd)
        have hlength := congrArg List.length hc
        rw [List.length_append] at hlength
        have hpasses := (ih _ (by omega) h₂ hlist rfl).bind fun as =>
          (return a :: as : Parser (List Stmt))
        rw [bind_assoc] at hpasses
        exact .of_ok hstatement' hd' hpasses

/-- The statements of the second source, by itself and behind the joint. -/
theorem tracks_statementList {φ : Position → Position} (m : Nat) {s s' : Session}
    (hup : s'.upcoming = relocate φ s.upcoming) (hfault : s'.fault = relocate φ s.fault)
    (hdepth : s'.depth = s.depth) (hmaxDepth : s'.maxDepth = s.maxDepth) :
    Tracks φ id (statementList (statement m) none) (statementList (statement m) none) s s' := by
  by_cases hnil : s.upcoming = []
  · have hnil' : s'.upcoming = [] := by rw [hup, hnil, relocate_nil]
    exact .of_ok (statementList_of_nil hnil) (statementList_of_nil hnil') rfl
  · -- The two sessions come from different places, but there is a token in front of them.
    have hs : Shadows φ id false s s' := ⟨hdepth, hmaxDepth, .inr ⟨rfl, hnil⟩⟩
    refine blind_statementList (by simp) (blind_statement m) hs ?_
    exact .of_relocate _ (by rw [hup, relocate_id]) (by rw [hfault, relocate_id])

end Grammar

/-! ### Joined sources -/

/-- What becomes of the source is what becomes of the statements that the session reads. -/
structure ReadBy (source : String) (options : ParseOptions) (s : Session) : Prop where
  /-- There is no fault behind an empty feed. -/
  settled : s.Settled
  /-- No level has been taken. -/
  depth : s.depth = 0
  /-- The limit is the one given. -/
  maxDepth : s.maxDepth = options.maxDepth
  /-- The statements are those of the program. -/
  ok : ∀ {body s'},
    Grammar.statementList (Grammar.statement options.maxDepth) none s = .ok body s' →
    ∃ p, parseSource source options = .ok p ∧ p.body = body
  /-- The error is that of the source. -/
  error : ∀ {e s'},
    Grammar.statementList (Grammar.statement options.maxDepth) none s = .error e s' →
    parseSource source options = .error e

theorem readBy_cases (source : String) (options : ParseOptions) :
    (∃ e, parseSource source options = .error e ∧ streamOf source options.file = ⟨[], some e⟩) ∨
    ∃ s, Opens (streamOf source options.file) (options.file.getD defaultLabel)
      options.maxDepth s ∧ ReadBy source options s := by
  rcases parseSource_cases source options with ⟨e, herror, hstream, -⟩ | ⟨s, hs, hok, herror⟩
  · exact .inl ⟨e, herror, hstream⟩
  · have hprogram := Parser.program_apply s
    rw [hs.budget] at hprogram
    refine .inr ⟨s, hs, hs.settled, hs.depth, hs.maxDepth, fun h => ?_, fun h => ?_⟩
    · rw [Parser.bind_of_ok h] at hprogram
      exact ⟨_, hok _ _ hprogram, rfl⟩
    · rw [Parser.bind_of_error h] at hprogram
      exact herror _ _ hprogram

variable {source u v : String} {options : ParseOptions} {p : Program} {s s' : Session}

/-- A source with a token is opened. -/
theorem exists_readBy (h : (streamOf source options.file).tokens ≠ []) :
    ∃ s, Opens (streamOf source options.file) (options.file.getD defaultLabel)
      options.maxDepth s ∧ ReadBy source options s := by
  rcases readBy_cases source options with ⟨e, -, hstream⟩ | hopened
  · rw [hstream] at h
    exact absurd rfl h
  · exact hopened

/-- The statements of a program have been read. -/
theorem ReadBy.exists_of_ok (h : ReadBy source options s)
    (hp : parseSource source options = .ok p) :
    ∃ s₁, Grammar.statementList (Grammar.statement options.maxDepth) none s = .ok p.body s₁ := by
  cases hrun : Grammar.statementList (Grammar.statement options.maxDepth) none s with
  | error e s₁ =>
    rw [h.error hrun] at hp
    cases hp
  | ok body s₁ =>
    obtain ⟨p', hp', rfl⟩ := h.ok hrun
    rw [hp] at hp'
    cases hp'
    exact ⟨s₁, rfl⟩

/-- Two sources that are opened, and meet in a line break. -/
theorem Opens.abuts {label : String} {limit : Nat} {b b' : Token} {back : Feed} {c : List Token}
    (hs : Opens ⟨c ++ [b], none⟩ label limit s)
    (hs' : Opens ⟨c ++ b' :: back.tokens, back.fault⟩ label limit s') :
    Abuts b b' back c s s' := by
  refine ⟨hs.upcoming, hs.fault, hs'.upcoming, hs'.fault, ?_, ?_, .inl ?_⟩
  · rw [hs.depth, hs'.depth]
  · rw [hs.maxDepth, hs'.maxDepth]
  · rw [hs.lastEnd, hs'.lastEnd]

/-- A line break in front of a source makes no difference: the source is read from behind it, or it
fails there. -/
theorem readBy_behind_lineBreak {d : List Token} {back : Feed}
    (hd : d = [] ∨ ∃ t, t.kind = .lineBreak ∧ d = [t])
    (hstream : streamOf v options.file = ⟨d ++ back.tokens, back.fault⟩) :
    (∃ e, parseSource v options = .error e ∧ back = ⟨[], some e⟩) ∨
    ∃ s, s.upcoming = back.tokens ∧ s.fault = back.fault ∧ ReadBy v options s := by
  obtain ⟨tokens, fault⟩ := back
  rcases readBy_cases v options with ⟨e, herror, hfault⟩ | ⟨s, hs, hread⟩
  · rw [hstream, Feed.mk.injEq, List.append_eq_nil_iff] at hfault
    obtain ⟨⟨-, rfl⟩, rfl⟩ := hfault
    exact .inl ⟨e, herror, rfl⟩
  have hfault : s.fault = fault := by rw [hs.fault, hstream]
  rcases hd with rfl | ⟨t, hk, rfl⟩
  · exact .inr ⟨s, by rw [hs.upcoming, hstream]; rfl, hfault, hread⟩
  · have hup : s.upcoming = t :: tokens := by rw [hs.upcoming, hstream]; rfl
    have hbreak : s.isAt .lineBreak = true := by
      simp [Session.isAt, Session.kind?, Session.lookahead_of_upcoming hup, hk]
    have hlist := Grammar.statementList_of_lineBreak
      (p := Grammar.statement options.maxDepth) hbreak
    rcases Parser.eat_of_upcoming hup hk with ⟨hsettled, s₁, heat, hc⟩ | ⟨rfl, e, s₁, hf, heat, -⟩
    · rw [Parser.bind_of_ok heat] at hlist
      have hup₁ := hc.upcoming_eq hup
      refine .inr ⟨s₁, hup₁, hc.fault.trans hfault, fun hnil => ?_, hc.depth.trans hread.depth,
        hc.maxDepth.trans hread.maxDepth, fun h => hread.ok (hlist.trans h),
        fun h => hread.error (hlist.trans h)⟩
      rw [hc.fault]
      exact hsettled (hup₁.symm.trans hnil)
    · rw [Parser.bind_of_error heat] at hlist
      obtain rfl : fault = some e := hfault.symm.trans hf
      exact .inl ⟨e, hread.error hlist, rfl⟩

/-- Sessions behind the joint and in front of the second source read the same statements, at
positions further behind. -/
theorem ReadBy.cases_of_relocate {φ : Position → Position} {joined : String} {body : List Stmt}
    {s₁ s₂ : Session} (hread : ReadBy joined options s) (hread₁ : ReadBy v options s₁)
    (hup : s₂.upcoming = relocate φ s₁.upcoming) (hfault : s₂.fault = relocate φ s₁.fault)
    (hdepth : s₂.depth = 0) (hmaxDepth : s₂.maxDepth = options.maxDepth)
    (h : Grammar.statementList (Grammar.statement options.maxDepth) none s = (do
      let more ← Grammar.statementList (Grammar.statement options.maxDepth) none
      return body ++ more : Parser (List Stmt)) s₂) :
    (∃ q r, parseSource v options = .ok q ∧ parseSource joined options = .ok r ∧
      r.body = body ++ relocate φ q.body) ∨
    (∃ e, parseSource v options = .error e ∧
      parseSource joined options = .error (relocate φ e)) := by
  -- The rest of the joined sources is read as the second one is, at other positions.
  rcases Grammar.tracks_statementList options.maxDepth hup hfault
    (hdepth.trans hread₁.depth.symm) (hmaxDepth.trans hread₁.maxDepth.symm) with
    ⟨_, _, more, more', _, _, hok, hok', hmore, -⟩ | ⟨_, _, e, e', _, _, herror, herror', he, -⟩
  · rw [Parser.bind_of_ok hok'] at h
    obtain ⟨q, hq, rfl⟩ := hread₁.ok hok
    obtain ⟨r, hr, hbody⟩ := hread.ok h
    rw [relocate_id] at hmore
    exact .inl ⟨q, r, hq, hr, by rw [hbody, hmore]⟩
  · rw [Parser.bind_of_error herror'] at h
    rw [relocate_id] at he
    exact .inr ⟨e, hread₁.error herror, by rw [hread.error h, he]⟩

/-- The first source is accepted, and the two together become what the second one becomes. -/
theorem parseSource_append_newline_cases (hu : parseSource u options = .ok p) :
    (∃ q r, parseSource v options = .ok q ∧ parseSource (u ++ "\n" ++ v) options = .ok r ∧
      r.body = p.body ++ relocate (shiftBy (byteLength u.toList + 1)) q.body) ∨
    (∃ e, parseSource v options = .error e ∧ parseSource (u ++ "\n" ++ v) options =
      .error (relocate (shiftBy (byteLength u.toList + 1)) e)) := by
  obtain ⟨ts, -, htokens, -, -⟩ := exists_derivable_of_parseSource hu
  rw [tokenize_eq_ok_iff_streamOf] at htokens
  obtain ⟨d, back, hd, hback, c, b, b', rfl, hb, hface, hjoint⟩ :=
    streamOf_append_newline (v := v) htokens
  obtain ⟨s, hs, hread⟩ : ∃ s, Opens ⟨c ++ [b], none⟩ (options.file.getD defaultLabel)
      options.maxDepth s ∧ ReadBy u options s := by
    rw [← htokens]
    exact exists_readBy (by simp [htokens])
  obtain ⟨s', hs', hread'⟩ : ∃ s', Opens (streamOf (u ++ "\n" ++ v) options.file)
      (options.file.getD defaultLabel) options.maxDepth s' ∧
      ReadBy (u ++ "\n" ++ v) options s' := exists_readBy (by simp [hjoint])
  rw [hjoint] at hs'
  have habuts := hs.abuts hs'
  obtain ⟨s₁, hrun⟩ := hread.exists_of_ok hu
  -- The statements of the first source are read up to the joint, unless there is a fault right
  -- behind it.
  rcases Grammar.passes_statementList habuts hb hface hrun with
    ⟨c', s₂, hc', hup, hsettled, hlist⟩ | ⟨e', s₂, hend, herror⟩
  · have hfault : s₂.fault = relocate (shiftBy (byteLength u.toList + 1)) back.fault :=
      hc'.fault.trans habuts.fault'
    have hup' : s₂.upcoming = relocate (shiftBy (byteLength u.toList + 1)) back.tokens := hup
    rcases readBy_behind_lineBreak hd hback with ⟨e, -, rfl⟩ | ⟨s₁, hup₁, hfault₁, hread₁⟩
    · -- The run would have failed at the joint.
      rw [hsettled hup'] at hfault
      cases hfault
    · rw [← hup₁] at hup'
      rw [← hfault₁] at hfault
      exact hread'.cases_of_relocate hread₁ hup' hfault (hc'.depth.trans hread'.depth)
        (hc'.maxDepth.trans hread'.maxDepth) hlist
  · rw [relocate_feed, Feed.mk.injEq] at hend
    rcases readBy_behind_lineBreak hd hback with ⟨e, herror', rfl⟩ | ⟨s₁, hup₁, hfault₁, hread₁⟩
    · obtain rfl := Option.some.inj hend.2
      exact .inr ⟨e, herror', hread'.error herror⟩
    · -- The second source would have failed at the joint.
      have htokens : back.tokens = [] := List.map_eq_nil_iff.1 hend.1
      rw [← hfault₁, hread₁.settled (hup₁.trans htokens)] at hend
      cases hend.2

/-- A source that is accepted, a newline, and a second source become what the second one becomes:
they are accepted together if it is, with its statements behind those of the first one, and fail
together if it does, with its error. All positions in what comes from the second source are further
behind by the length of the first one and the newline. -/
theorem parseSource_append_newline {u : String} {options : ParseOptions} {p : Program}
    (hu : parseSource u options = .ok p) (v : String) :
    ((∃ r, parseSource (u ++ "\n" ++ v) options = .ok r) ↔ ∃ q, parseSource v options = .ok q) ∧
    (∀ q, parseSource v options = .ok q → ∃ r, parseSource (u ++ "\n" ++ v) options = .ok r ∧
      r.body = p.body ++ relocate (shiftBy (byteLength u.toList + 1)) q.body) ∧
    (∀ e, parseSource v options = .error e → parseSource (u ++ "\n" ++ v) options =
      .error (relocate (shiftBy (byteLength u.toList + 1)) e)) := by
  rcases parseSource_append_newline_cases (v := v) hu with ⟨q, r, hq, hr, hbody⟩ | ⟨e, he, hr⟩
  · refine ⟨⟨fun _ => ⟨q, hq⟩, fun _ => ⟨r, hr⟩⟩, fun q' hq' => ?_, fun e he => ?_⟩
    · rw [hq] at hq'
      cases hq'
      exact ⟨r, hr, hbody⟩
    · rw [hq] at he
      cases he
  · refine ⟨⟨fun ⟨r, hr'⟩ => ?_, fun ⟨q, hq⟩ => ?_⟩, fun q hq => ?_, fun e' he' => ?_⟩
    · rw [hr] at hr'
      cases hr'
    · rw [he] at hq
      cases hq
    · rw [he] at hq
      cases hq
    · rw [he] at he'
      cases he'
      exact hr

/-- A comment that the newline ends, in front of a blank line and a call. -/
theorem parseSource_append_newline_comment :
    let declared : Stmt := .declaration .letVariable
      [⟨⟨"a", .of "shell" 4 1⟩, some (.identifier ⟨"b", .of "shell" 8 1⟩), .of "shell" 4 5⟩]
      (.of "shell" 0 9)
    let called (k : Nat) : Stmt := .expression
      (.call ⟨"f", .of "shell" (k + 2) 1⟩
        [.binary (.identifier ⟨"a", .of "shell" (k + 4) 1⟩)
          ⟨.additiveOperator, "+", .of "shell" (k + 6) 1⟩
          (.identifier ⟨"c", .of "shell" (k + 8) 1⟩) (.of "shell" (k + 4) 5)]
        (.of "shell" (k + 2) 8))
      (.of "shell" (k + 2) 8)
    parseSource "let a = b // one" {} = .ok ⟨[declared], .of "shell" 0 16⟩ ∧
      parseSource "\n f(a + c)" {} = .ok ⟨[called 0], .of "shell" 0 10⟩ ∧
      ∃ r, parseSource ("let a = b // one" ++ "\n" ++ "\n f(a + c)") {} = .ok r ∧
        r.body = [declared] ++ relocate (shiftBy 17) [called 0] ∧
        r.body = [declared, called 17] := by
  intro declared called
  have hu : parseSource "let a = b // one" {} = .ok ⟨[declared], .of "shell" 0 16⟩ := by
    decide +kernel
  have hv : parseSource "\n f(a + c)" {} = .ok ⟨[called 0], .of "shell" 0 10⟩ := by
    decide +kernel
  obtain ⟨r, hr, hbody⟩ := (parseSource_append_newline hu "\n f(a + c)").2.1 _ hv
  have hlength : byteLength "let a = b // one".toList + 1 = 17 := by decide +kernel
  rw [hlength] at hbody
  refine ⟨hu, hv, r, hr, hbody, ?_⟩
  rw [hbody]
  decide +kernel

end Scriptlet
