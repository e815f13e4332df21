import Scriptlet.Proofs.Phrase
import Scriptlet.Proofs.Shape

/-!
# What has been consumed is the beginning of a phrase

A parser never consumes a token that it can only refuse later. Wherever it stops, by success, by an
error or by a refusal to nest any deeper, the tokens it has consumed can be completed to a phrase of
its nonterminal; and where it succeeds they are such a phrase already, in front of the tokens that
stand there.

Trees and levels play no part in this, so the nonterminals are taken without them, as *languages*.
What a parser leaves is then put together along the text of the parser. A sequence that stops in its
first part is completed by a completion of that part and a phrase of the second part chosen freely;
the choice has to be a good one, since a sum goes on in front of an additive operator and a name in
front of an opening parenthesis. That there is a good choice is `Fill`.

## Main definitions

* `Language`, `Spells`, `Language.seq`, `Language.Star`;
* `Ends`: tokens in front of which every expression may end;
* `Fill`: a language has a phrase in front of any tokens that are suitable;
* `Parser.Leaves`: what a parser consumes is the beginning of a phrase.

## Main results

* `Parser.Leaves.bind`, `Parser.Leaves.star`: sequences and loops;
* `Grammar.leaves_assignment`, `Grammar.leaves_statement`, `Parser.leaves_program`;
* `Parser.exists_derivable_append`, `Parser.exists_derivable_of_program_eq_ok`: the same of
  programs.
-/

namespace Scriptlet

/-! ### Languages -/

/-- A nonterminal without its trees: the tokens of the first list in front of the second one are a
phrase. -/
abbrev Language := List Token → List Token → Prop

/-- The phrases of a nonterminal, whatever their trees. -/
def Spells {α : Type} (P : Phrase α) : Language := fun ts rest => ∃ a n, P ts rest a n

namespace Language

/-- No token at all. -/
def empty : Language := fun ts rest => ts = rest

/-- One token of a kind. -/
def token (kind : Kind) : Language := fun ts rest => ∃ t, t.kind = kind ∧ ts = t :: rest

/-- A phrase of one language behind a phrase of another. -/
def seq (L M : Language) : Language := fun ts rest => ∃ us, L ts us ∧ M us rest

/-- Any number of phrases. -/
inductive Star (L : Language) : Language
  | nil (ts : List Token) : Star L ts ts
  | cons {ts us rest : List Token} : L ts us → Star L us rest → Star L ts rest

/-- A phrase, or nothing. -/
def opt (L : Language) : Language := fun ts rest => ts = rest ∨ L ts rest

variable {α : Type} {L M : Language} {ts rest : List Token}

/-- Phrases with some trees, one behind the other, are many phrases with a list of trees. -/
theorem Star.many {P : Phrase α} (h : Star (Spells P) ts rest) :
    ∃ as n, Phrase.Many P ts rest as n := by
  induction h with
  | nil ts => exact ⟨[], 0, .nil ts⟩
  | cons hP _ ih =>
    obtain ⟨a, n, hP⟩ := hP
    obtain ⟨as, m, hM⟩ := ih
    exact ⟨a :: as, max n m, .cons hP hM⟩

end Language

open Scriptlet.Language

/-! ### Choosing tokens -/

/-- Tokens in front of which every expression may end. -/
def Ends (ts : List Token) : Prop :=
  firstKind ts ≠ some .openParen ∧ firstKind ts ≠ some .additiveOperator

/-- Any tokens whatever. -/
def Any (_ : List Token) : Prop := True

/-- Every expression may end in front of a token that is neither of the two that go on. -/
theorem Ends.cons {t : Token} (ts : List Token) (h : t.kind ≠ .openParen)
    (h' : t.kind ≠ .additiveOperator) : Ends (t :: ts) := by
  constructor <;> simpa [firstKind]

/-- Some token of a kind. -/
def sample (kind : Kind) : Token := ⟨kind, "", default⟩

/-- In front of tokens that satisfy `E` the language has a phrase whose tokens satisfy `F`. -/
def Fill (E F : List Token → Prop) (L : Language) : Prop :=
  ∃ w, ∀ rest, E rest → F (w ++ rest) ∧ L (w ++ rest) rest

namespace Fill

variable {E F G : List Token → Prop} {L M : Language}

theorem mono (h : Fill E F L) (hLM : ∀ {ts rest}, L ts rest → M ts rest) : Fill E F M := by
  obtain ⟨w, hw⟩ := h
  exact ⟨w, fun rest hr => ⟨(hw rest hr).1, hLM (hw rest hr).2⟩⟩

/-- What begins well begins somehow. -/
theorem any (h : Fill E F L) : Fill E Any L := by
  obtain ⟨w, hw⟩ := h
  exact ⟨w, fun rest hr => ⟨trivial, (hw rest hr).2⟩⟩

theorem empty : Fill E Any empty := ⟨[], fun _ _ => ⟨trivial, rfl⟩⟩

theorem token {kind : Kind} (h : ∀ rest, F (sample kind :: rest)) : Fill E F (token kind) :=
  ⟨[sample kind], fun rest _ => ⟨h rest, sample kind, rfl, rfl⟩⟩

/-- A phrase of the first language is chosen in front of one that is chosen of the second. -/
theorem seq (hL : Fill F G L) (hM : Fill E F M) : Fill E G (seq L M) := by
  obtain ⟨v, hv⟩ := hL
  obtain ⟨w, hw⟩ := hM
  refine ⟨v ++ w, fun rest hr => ?_⟩
  obtain ⟨hF, hM⟩ := hw rest hr
  obtain ⟨hG, hL⟩ := hv _ hF
  rw [List.append_assoc]
  exact ⟨hG, _, hL, hM⟩

theorem star : Fill E E (Star L) := ⟨[], fun rest hr => ⟨hr, .nil rest⟩⟩

/-- Nothing is a phrase of an optional one, and it is suitable in front of what is suitable. -/
theorem opt : Fill E E (opt L) := ⟨[], fun _ hr => ⟨hr, .inl rfl⟩⟩

end Fill

/-- What the tokens behind some others are matters for the first kind only if there are no others.
-/
theorem firstKind_append_congr {ts us : List Token} (c : List Token)
    (h : firstKind ts = firstKind us) : firstKind (c ++ ts) = firstKind (c ++ us) := by
  cases c with
  | nil => exact h
  | cons t c => rfl

theorem firstKind_append_of_ne_nil {c : List Token} (hc : c ≠ []) (ts us : List Token) :
    firstKind (c ++ ts) = firstKind (c ++ us) := by
  cases c with
  | nil => exact absurd rfl hc
  | cons t c => rfl

/-- The kind of the lookahead is that of the first token to come. -/
theorem Session.kind?_eq (s : Session) : s.kind? = firstKind s.upcoming := by
  rw [kind?, firstKind, head?_upcoming]

theorem Session.isAt_iff {s : Session} {kind : Kind} :
    s.isAt kind = true ↔ firstKind s.upcoming = some kind := by
  rw [isAt, kind?_eq, decide_eq_true_eq]

theorem Session.isAt_eq_false_iff {s : Session} {kind : Kind} :
    s.isAt kind = false ↔ firstKind s.upcoming ≠ some kind := by
  rw [isAt, kind?_eq, decide_eq_false_iff_not]

namespace Parser

variable {α β : Type} {E F : List Token → Prop} {L M : Language} {s : Session}

/-! ### What a parser leaves -/

/-- The tokens that a parser consumes are a phrase where it succeeds, and the beginning of one in
any case, which is completed in front of any tokens that satisfy `E`. -/
structure Leaves (E : List Token → Prop) (L : Language) (p : Parser α) (s : Session) : Prop where
  /-- Where the parser succeeds, the tokens are a phrase in front of what comes. -/
  ok : ∀ {a s'}, p s = .ok a s' →
    ∃ c, Consumes s c s' ∧ ∀ rest, firstKind rest = firstKind s'.upcoming → L (c ++ rest) rest
  /-- Wherever the parser stops, the tokens can be completed. -/
  viable : ∃ c v, Consumes s c (p.final s) ∧ ∀ rest, E rest → L (c ++ (v ++ rest)) rest

namespace Leaves

/-- What a parser leaves depends on what it does from the session on, and on nothing else. -/
theorem congr {p q : Parser α} (h : p s = q s) (hq : Leaves E L q s) : Leaves E L p s where
  ok hp := hq.ok (h ▸ hp)
  viable := by
    rw [final, h]
    exact hq.viable

/-- Some phrases of a language are phrases of another because of what stands in front. -/
theorem mono_at {p : Parser α} (h : Leaves E L p s) (hfill : Fill E Any M)
    (hLM : ∀ {ts rest}, firstKind ts = firstKind s.upcoming → L ts rest → M ts rest) :
    Leaves E M p s where
  ok hp := by
    obtain ⟨c, hc, hL⟩ := h.ok hp
    refine ⟨c, hc, fun rest hr => hLM ?_ (hL rest hr)⟩
    rw [hc.upcoming]
    exact firstKind_append_congr c hr
  viable := by
    obtain ⟨c, v, hc, hL⟩ := h.viable
    -- If nothing has been consumed, nothing is known of how the completion starts, and another one
    -- has to be chosen.
    by_cases hnil : c = []
    · obtain ⟨w, hw⟩ := hfill
      refine ⟨c, w, hc, fun rest hr => ?_⟩
      rw [hnil]
      exact (hw rest hr).2
    · refine ⟨c, v, hc, fun rest hr => hLM ?_ (hL rest hr)⟩
      rw [hc.upcoming]
      exact firstKind_append_of_ne_nil hnil _ _

theorem mono {p : Parser α} (h : Leaves E L p s) (hLM : ∀ {ts rest}, L ts rest → M ts rest) :
    Leaves E M p s where
  ok hp := by
    obtain ⟨c, hc, hL⟩ := h.ok hp
    exact ⟨c, hc, fun rest hr => hLM (hL rest hr)⟩
  viable := by
    obtain ⟨c, v, hc, hL⟩ := h.viable
    exact ⟨c, v, hc, fun rest hr => hLM (hL rest hr)⟩

/-- A parser that fails where it stands leaves everything to be filled in. -/
theorem of_error {p : Parser α} {e : Error} (h : p s = .error e s) (hfill : Fill E Any L) :
    Leaves E L p s where
  ok hp := by rw [h] at hp; cases hp
  viable := by
    obtain ⟨w, hw⟩ := hfill
    refine ⟨[], w, ?_, fun rest hr => (hw rest hr).2⟩
    rw [final_of_error h]
    exact .refl s

/-- A parser that succeeds where it stands has found an empty phrase. -/
theorem of_ok {p : Parser α} {a : α} (h : p s = .ok a s)
    (hL : ∀ rest, firstKind rest = firstKind s.upcoming → L rest rest) (hfill : Fill E Any L) :
    Leaves E L p s where
  ok hp := by
    rw [h] at hp
    cases hp
    exact ⟨[], .refl s, hL⟩
  viable := by
    obtain ⟨w, hw⟩ := hfill
    refine ⟨[], w, ?_, fun rest hr => (hw rest hr).2⟩
    rw [final_of_ok h]
    exact .refl s

theorem pure (a : α) : Leaves E empty (pure a) s := of_ok rfl (fun _ _ => rfl) .empty

/-- Taking a token leaves a token of the kind asked for, or nothing where it is refused. -/
theorem eat (kind : Kind) : Leaves E (token kind) (eat kind) s := by
  rcases eat_cases kind s with ⟨-, h⟩ | ⟨_, -, -, h⟩ | ⟨t, s', hk, h, hc, -⟩ |
    ⟨t, e, s', hk, h, hc, -⟩
  · exact of_error h (.token fun _ => trivial)
  · exact of_error h (.token fun _ => trivial)
  · constructor
    · intro a s'' h'
      rw [h] at h'
      cases h'
      exact ⟨[t], hc, fun rest _ => ⟨t, hk, rfl⟩⟩
    · exact ⟨[t], [], by rwa [final_of_ok h], fun rest _ => ⟨t, hk, rfl⟩⟩
  · constructor
    · intro a s'' h'
      rw [h] at h'
      cases h'
    · exact ⟨[t], [], by rwa [final_of_error h], fun rest _ => ⟨t, hk, rfl⟩⟩

/-- A sequence. If it stops before its second part has consumed anything, the first part is
completed and any phrase will do for the second one. -/
theorem bind {p : Parser α} {f : α → Parser β} (hp : Leaves F L p s)
    (hf : ∀ {a s'}, p s = .ok a s' → Leaves E M (f a) s') (hfill : Fill E F M) :
    Leaves E (seq L M) (p >>= f) s where
  ok h := by
    obtain ⟨a, s₁, hp₁, hf₁⟩ := bind_eq_ok h
    obtain ⟨c, hc, hL⟩ := hp.ok hp₁
    obtain ⟨d, hd, hM⟩ := (hf hp₁).ok hf₁
    refine ⟨c ++ d, hc.trans hd, fun rest hr => ?_⟩
    rw [List.append_assoc]
    refine ⟨d ++ rest, hL _ ?_, hM rest hr⟩
    rw [hd.upcoming]
    exact firstKind_append_congr d hr
  viable := by
    obtain ⟨c, v, hc, hL⟩ := hp.viable
    obtain ⟨w, hw⟩ := hfill
    -- The first part is completed by itself, and a phrase of the second one is chosen behind it.
    have hbegin : ∀ rest, E rest → seq L M (c ++ ((v ++ w) ++ rest)) rest := by
      intro rest hr
      rw [List.append_assoc v]
      exact ⟨w ++ rest, hL _ (hw rest hr).1, (hw rest hr).2⟩
    cases hp₁ : p s with
    | error e s₁ =>
      rw [final_of_error hp₁] at hc
      exact ⟨c, v ++ w, by rwa [final_of_error (bind_of_error hp₁)], hbegin⟩
    | ok a s₁ =>
      rw [final_of_ok hp₁] at hc
      obtain ⟨d, u, hd, hM⟩ := (hf hp₁).viable
      have hcd : Consumes s (c ++ d) ((p >>= f).final s) := by
        rw [final, bind_of_ok hp₁]
        exact hc.trans hd
      -- A second part that has consumed nothing may be completed to something that the first part
      -- cannot stand in front of, so a suitable phrase is chosen for it.
      by_cases hnil : d = []
      · rw [hnil, List.append_nil] at hcd
        exact ⟨c, v ++ w, hcd, hbegin⟩
      · obtain ⟨c', hc', hL'⟩ := hp.ok hp₁
        refine ⟨c ++ d, u, hcd, fun rest hr => ?_⟩
        rw [List.append_assoc, hc.unique hc']
        refine ⟨d ++ (u ++ rest), hL' _ ?_, hM rest hr⟩
        rw [hd.upcoming]
        exact firstKind_append_of_ne_nil hnil _ _

/-- What a parser does behind its last token leaves nothing more. -/
theorem silent {p : Parser α} {f : α → Parser β} (hp : Leaves E L p s)
    (hf : ∀ a s', (f a).final s' = s') : Leaves E L (p >>= f) s where
  ok h := by
    obtain ⟨a, s₁, hp₁, hf₁⟩ := bind_eq_ok h
    have hs := hf a s₁
    rw [final_of_ok hf₁] at hs
    rw [hs]
    exact hp.ok hp₁
  viable := by
    have hfinal : (p >>= f).final s = p.final s := by
      cases hp₁ : p s with
      | error e s₁ => rw [final_of_error hp₁, final_of_error (bind_of_error hp₁)]
      | ok a s₁ =>
        rw [final_of_ok hp₁, final, bind_of_ok hp₁]
        exact hf a s₁
    rw [hfinal]
    exact hp.viable

theorem silent_pure {p : Parser α} (g : α → β) (hp : Leaves E L p s) :
    Leaves E L (do let a ← p; return g a) s :=
  hp.silent fun _ _ => rfl

theorem look {f : Session → Parser β} (h : Leaves E L (f s) s) : Leaves E L (get >>= f) s :=
  congr (get_bind f s) h

/-- A level more leaves what the parser leaves, or nothing if no level is left. -/
theorem nested {p : Parser α} [Orderly p] (hfill : Fill E Any L)
    (hp : Leaves E L p (s.withDepth (s.depth + 1))) : Leaves E L (nested p) s := by
  rcases Nat.eq_zero_or_pos s.budget with h0 | hpos
  · exact of_error (nested_of_budget_eq_zero h0) hfill
  · constructor
    · intro a s' h
      obtain ⟨-, s₁, hp₁, rfl⟩ := nested_eq_ok h
      obtain ⟨c, hc, hL⟩ := hp.ok hp₁
      exact ⟨c, hc.ofDepth, hL⟩
    · obtain ⟨c, v, hc, hL⟩ := hp.viable
      refine ⟨c, v, ?_, hL⟩
      rw [final_nested hpos]
      exact hc.ofDepth

/-- A loop leaves any number of what its steps leave. -/
theorem star {test : Session → Bool} {step : Parser α} [Progressing step] (s : Session)
    (hstep : ∀ s, test s = true → Leaves E L step s) :
    Leaves E (Star L) (repeatWhile test step) s := by
  induction hr : s.remaining using Nat.strongRecOn generalizing s with
  | ind r ih =>
    cases ht : test s with
    | false => exact of_ok (repeatWhile_of_not ht) (fun rest _ => .nil rest) Fill.star.any
    | true =>
      refine congr (repeatWhile_of_test ht) ?_
      refine ((hstep s ht).bind (fun hs => ?_) .star).mono fun ⟨us, hL, hM⟩ => .cons hL hM
      exact (ih _ (hr ▸ Progressing.lt hs) _ rfl).silent_pure _

/-- A choice by whether a kind of token stands there. -/
theorem accept {kind : Kind} {f : Bool → Parser β}
    (ht : ∀ s', Leaves E L (f true) s') (hfill : Fill E Any L)
    (hf : s.isAt kind = false → Leaves E M (f false) s) :
    Leaves E (fun ts rest => seq (token kind) L ts rest ∨ M ts rest) (accept kind >>= f) s := by
  cases h : s.isAt kind with
  | false => exact congr (accept_bind_of_not_isAt h) ((hf h).mono .inr)
  | true =>
    exact congr (accept_bind_of_isAt h) (((Leaves.eat kind).bind (fun _ => ht _) hfill).mono .inl)

/-- An optional part leaves what its kind of token announces. -/
theorem optionally {kind : Kind} {p : Parser α} (hp : ∀ s', Leaves E L p s')
    (hfill : Fill E Any L) : Leaves E (opt (seq (token kind) L)) (optionally kind p) s := by
  have hp' : ∀ s', Leaves E L (some <$> p) s' := by
    intro s'
    rw [map_eq_pure_bind]
    exact (hp s').silent_pure _
  refine (accept (M := Language.empty) hp' hfill fun _ => Leaves.pure none).mono fun h => ?_
  rcases h with h | h
  · exact .inr h
  · exact .inl h

end Leaves

end Parser

namespace Grammar

open Scriptlet.Parser Scriptlet.Phrase

variable {α : Type} {E : List Token → Prop} {s : Session}

/-! ### Phrases to fill in -/

/-- A token in front of which expressions may end can be put in front of anything. -/
theorem fill_token (kind : Kind) (h : kind ≠ .openParen) (h' : kind ≠ .additiveOperator) :
    Fill E Ends (token kind) :=
  .token fun rest => .cons rest h h'

theorem fill_name : Fill E Ends (Spells Name) :=
  (fill_token .identifier (by decide) (by decide)).mono fun ⟨_, hk, h⟩ => h ▸ ⟨_, _, .intro hk⟩

theorem fill_primary : Fill E Ends (Spells Primary) :=
  (fill_token .number (by decide) (by decide)).mono fun ⟨_, hk, h⟩ => h ▸ ⟨_, _, .number hk⟩

/-- A name is a sum in front of everything that does not go on with it. -/
theorem fill_additive : Fill Ends Ends (Spells Additive) := by
  obtain ⟨w, hw⟩ := fill_primary (E := Ends)
  refine ⟨w, fun rest hr => ⟨(hw rest hr).1, ?_⟩⟩
  obtain ⟨e, n, he⟩ := (hw rest hr).2
  exact ⟨_, _, .intro he (.nil rest) hr.2⟩

theorem fill_assignment : Fill Ends Ends (Spells Assignment) :=
  fill_additive.mono fun ⟨_, _, h⟩ => ⟨_, _, .sum h⟩

theorem fill_end : Fill E Ends End :=
  (fill_token .semicolon (by decide) (by decide)).mono fun ⟨_, hk, h⟩ => h ▸ .semicolon hk

theorem fill_statement : Fill E Ends (Spells Statement) :=
  (fill_token .semicolon (by decide) (by decide)).mono fun ⟨_, hk, h⟩ => h ▸ ⟨_, _, .empty hk⟩

/-! ### Tokens and separators -/

theorem leaves_discard_eat (kind : Kind) : Leaves E (token kind) (discard (eat kind)) s := by
  rw [discard_eq]
  exact (Leaves.eat kind).silent_pure _

/-- Skipping line breaks leaves line breaks. -/
theorem leaves_skipLineBreaks : Leaves E Breaks skipLineBreaks s := by
  have hbreaks : ∀ {ts rest}, Star (token .lineBreak) ts rest → Breaks ts rest := by
    intro ts rest h
    induction h with
    | nil ts => exact .nil ts
    | cons ht _ ih =>
      obtain ⟨t, hk, rfl⟩ := ht
      exact .cons hk ih
  rw [skipLineBreaks, discard_eq]
  exact ((Leaves.star s fun _ _ => .eat _).silent_pure _).mono hbreaks

theorem leaves_optionalComma : Leaves E OptionalComma optionalComma s := by
  rw [optionalComma, discard_eq]
  refine (Leaves.accept (fun _ => .pure ()) .empty fun _ => .pure ()).mono fun h => ?_
  rcases h with ⟨us, ⟨t, hk, rfl⟩, rfl⟩ | rfl
  · exact .present hk
  · exact .absent _

theorem leaves_identifier : Leaves E (Spells Name) identifier s :=
  ((Leaves.eat _).silent_pure _).mono fun ⟨_, hk, h⟩ => h ▸ ⟨_, _, .intro hk⟩

/-- A semicolon ends any statement, also one that was ended by a closing brace. -/
theorem leaves_endOfStatement : Leaves E End endOfStatement s := by
  rcases endOfStatement_cases s with ⟨-, h⟩ | ⟨hs, h⟩ | ⟨-, -, h⟩
  · exact .congr h ((leaves_discard_eat _).mono fun ⟨_, hk, h⟩ => h ▸ .semicolon hk)
  · refine .of_ok h (fun rest hr => .brace ?_) fill_end.any
    rw [hr, ← s.kind?_eq, hs]
  · exact .congr h ((leaves_discard_eat _).mono fun ⟨_, hk, h⟩ => h ▸ .lineBreak hk)

/-! ### Lists -/

/-- A separator that may be left out, behind a phrase. -/
theorem seq_then {P : Phrase α} {Q : List Token → List Token → Prop} {ts rest : List Token}
    (h : seq (Spells P) Q ts rest) : Spells (Then P Q) ts rest := by
  obtain ⟨us, ⟨a, n, hP⟩, hQ⟩ := h
  exact ⟨a, n, .intro hP hQ⟩

/-- A list of elements leaves elements, each with a comma that may be missing. -/
theorem leaves_listOf {P : Phrase α} {element : Parser α} [Progressing element]
    (h : ∀ s, Leaves E (Spells P) element s) :
    Leaves E (Spells (Many (Then P OptionalComma))) (listOf element) s := by
  refine (Leaves.star s fun s _ => ?_).mono Star.many
  refine ((h s).bind (fun _ => leaves_optionalComma.silent_pure _) ?_).mono seq_then
  exact ⟨[], fun rest hr => ⟨hr, .absent rest⟩⟩

/-- Properties between braces leave a body of them. -/
theorem leaves_bodyOf {P : Phrase α} {property : Parser α} [Orderly property]
    [Progressing property] (h : ∀ s, Leaves Ends (Spells P) property s) :
    Leaves E (Spells (Body P)) (bodyOf property) s := by
  have hstep : ∀ s, Leaves Ends (Spells (Then P Breaks))
      (do let a ← property; skipLineBreaks; return a) s := by
    intro s
    refine ((h s).bind (fun _ => leaves_skipLineBreaks.silent_pure _) ?_).mono seq_then
    exact ⟨[], fun rest hr => ⟨hr, .nil rest⟩⟩
  have hclose : Fill E Ends (token .closeCurly) := fill_token _ (by decide) (by decide)
  have hbreaks : Fill Ends Ends Breaks := ⟨[], fun rest hr => ⟨hr, .nil rest⟩⟩
  refine ((Leaves.eat _).bind (fun _ => leaves_skipLineBreaks.bind (fun _ =>
    (Leaves.star _ fun s _ => hstep s).bind (fun _ => (Leaves.eat _).silent fun _ _ => rfl)
      hclose) (Fill.star.seq hclose)) (hbreaks.seq (Fill.star.seq hclose))).mono ?_
  rintro ts rest ⟨_, ⟨opening, ho, rfl⟩, us, hb, vs, hM, closing, hc, rfl⟩
  obtain ⟨as, n, hM⟩ := hM.many
  obtain ⟨ws, hM, hws⟩ := many_after_of_breaks hb hM
  exact ⟨_, n, .intro ho hM hws hc⟩

/-! ### Parameters -/

/-- A property of a pattern leaves a binding and its comma. -/
theorem leaves_patternProperty :
    Leaves E (Spells (Then Binding OptionalComma)) patternProperty s := by
  have hcomma : Fill E E OptionalComma := ⟨[], fun rest hr => ⟨hr, .absent rest⟩⟩
  have hrename : ∀ s, Leaves E (opt (seq (token .colon) (Spells Name)))
      (optionally .colon identifier) s :=
    fun _ => .optionally (fun _ => leaves_identifier) fill_name.any
  rw [patternProperty_eq]
  refine (leaves_identifier.bind (fun _ => (hrename _).bind (fun _ =>
    .look (leaves_optionalComma.silent_pure _)) hcomma) (Fill.opt.seq hcomma)).mono ?_
  rintro ts rest ⟨us, ⟨name, _, ⟨hk⟩⟩, vs, rfl | ⟨_, ⟨colon, hcolon, rfl⟩, rename, _, ⟨hk'⟩⟩,
    hcomma⟩
  · exact ⟨_, _, .intro (.plain (.intro hk)) hcomma⟩
  · exact ⟨_, _, .intro (.renamed (.intro hk) hcolon (.intro hk')) hcomma⟩

/-- A parameter leaves a name, or a body of bindings. -/
theorem leaves_parameter : Leaves E (Spells Parameter) parameter s := by
  have hpattern : ∀ {ts rest}, Spells (Body (Then Binding OptionalComma)) ts rest →
      Spells Parameter ts rest := by
    rintro ts rest ⟨⟨as, span⟩, n, h⟩
    obtain rfl : n = 0 := by
      cases h with
      | intro _ h _ _ => exact Many.need_eq_zero (fun ⟨_, ⟨h, _⟩⟩ => Binding.need_eq_zero h) h
    exact ⟨_, _, .pattern h⟩
  refine .look ?_
  split
  · refine (leaves_identifier.silent_pure _).mono ?_
    rintro ts rest ⟨_, _, ⟨hk⟩⟩
    exact ⟨_, _, .name (.intro hk)⟩
  · refine Leaves.mono (Leaves.silent_pure _ ?_) hpattern
    exact (leaves_bodyOf fun _ => leaves_patternProperty).silent fun _ _ => rfl

/-! ### Expressions -/

/-- A literal leaves a number or a string. -/
theorem leaves_literal : Leaves E (Spells Primary) literal s := by
  rcases literal_cases s with ⟨-, h⟩ | ⟨_, -, h⟩ | ⟨_, -, -, h⟩ | ⟨_, -, -, h⟩
  · exact .of_error h fill_primary.any
  · exact .of_error h fill_primary.any
  · refine .congr h (Leaves.mono ((Leaves.eat .number).silent fun t s' => ?_) ?_)
    · rw [numberValue]
      split <;> rfl
    · rintro ts rest ⟨t, hk, rfl⟩
      exact ⟨_, _, .number hk⟩
  · refine .congr h (((Leaves.eat _).silent_pure _).mono ?_)
    rintro ts rest ⟨t, hk, rfl⟩
    exact ⟨_, _, .string hk⟩

section Expressions

variable {expression sum operand value : Parser Expr}

theorem leaves_parenthesized (h : ∀ s, Leaves Ends (Spells Assignment) expression s) :
    Leaves E (Spells Primary) (parenthesized expression) s := by
  have hclose : Fill E Ends (token .closeParen) := fill_token _ (by decide) (by decide)
  refine ((Leaves.eat _).bind (fun _ => (h _).bind (fun _ => (Leaves.eat _).silent_pure _) hclose)
    (fill_assignment.seq hclose)).mono ?_
  rintro ts rest ⟨_, ⟨opening, ho, rfl⟩, us, ⟨e, n, he⟩, closing, hc, rfl⟩
  exact ⟨e, _, .parenthesized ho he hc⟩

/-- A name leaves a call if an opening parenthesis follows, and otherwise a name that none follows.
-/
theorem leaves_callable [Progressing sum] (h : ∀ s, Leaves Ends (Spells Additive) sum s) :
    Leaves Ends (Spells Primary) (callable sum) s := by
  have hclose : Fill Ends Ends (token .closeParen) := fill_token _ (by decide) (by decide)
  have hnil : Fill Ends Ends (Spells (Many (Then Additive OptionalComma))) :=
    ⟨[], fun rest hr => ⟨hr, _, _, .nil rest⟩⟩
  have hcall : ∀ (callee : Identifier) s, Leaves Ends
      (seq (Spells (Many (Then Additive OptionalComma))) (token .closeParen)) (do
        let arguments ← listOf sum
        let _ ← eat .closeParen
        return Expr.call callee arguments ((← get).spanFrom callee.span.start)) s :=
    fun _ _ => (leaves_listOf h).bind (fun _ => (Leaves.eat _).silent fun _ _ => rfl) hclose
  -- A name by itself is one only because no parenthesis follows.
  have hname : ∀ (callee : Identifier) {s : Session}, s.isAt .openParen = false →
      Leaves Ends (fun ts rest => ts = rest ∧ firstKind rest ≠ some .openParen)
        (pure (Expr.identifier callee)) s := by
    intro callee s hs
    refine .of_ok rfl (fun rest hr => ⟨rfl, ?_⟩) ⟨[], fun rest hr => ⟨trivial, rfl, hr.1⟩⟩
    rw [hr]
    exact Session.isAt_eq_false_iff.1 hs
  refine (leaves_identifier.bind (fun _ => .accept (hcall _) (hnil.seq hclose).any (hname _))
    ⟨[], fun rest hr => ⟨hr, .inr ⟨rfl, hr.1⟩⟩⟩).mono ?_
  rintro ts rest ⟨us, ⟨callee, _, ⟨hk⟩⟩,
    ⟨_, ⟨opening, ho, rfl⟩, vs, ⟨es, n, hM⟩, closing, hc, rfl⟩ |
    ⟨rfl, hrest⟩⟩
  · exact ⟨_, _, .call (.intro hk) ho hM hc⟩
  · exact ⟨_, _, .name (.intro hk) hrest⟩

/-- A spread leaves its dots and the beginning of a sum. -/
theorem leaves_spread (h : ∀ s, Leaves Ends (Spells Additive) sum s) :
    Leaves Ends (Spells Primary) (spread sum) s := by
  refine ((Leaves.eat _).bind (fun _ => (h _).silent_pure _) fill_additive).mono ?_
  rintro ts rest ⟨_, ⟨dots, hd, rfl⟩, e, n, he⟩
  exact ⟨_, _, .spread hd he⟩

/-- A key leaves a name, or a name in brackets. -/
theorem leaves_propertyKey : Leaves E (Spells Key) propertyKey s := by
  have hclose : Fill E Ends (token .closeBracket) := fill_token _ (by decide) (by decide)
  have hbracketed : ∀ s, Leaves E (seq (Spells Name) (token .closeBracket)) (do
      let key ← identifier
      let _ ← eat .closeBracket
      return key) s :=
    fun _ => leaves_identifier.bind (fun _ => (Leaves.eat _).silent_pure _) hclose
  refine (Leaves.accept hbracketed (fill_name.seq hclose).any fun _ => leaves_identifier).mono ?_
  rintro ts rest (⟨_, ⟨opening, ho, rfl⟩, us, ⟨key, _, ⟨hk⟩⟩, closing, hc, rfl⟩ | ⟨key, _, ⟨hk⟩⟩)
  · exact ⟨_, _, .bracketed ho (.intro hk) hc⟩
  · exact ⟨_, _, .plain (.intro hk)⟩

theorem fill_key : Fill E Ends (Spells Key) := by
  refine fill_name.mono ?_
  rintro ts rest ⟨_, _, ⟨hk⟩⟩
  exact ⟨_, _, .plain (.intro hk)⟩

theorem fill_entry : Fill E Ends (Spells Entry) := by
  refine fill_key.mono ?_
  rintro ts rest ⟨key, n, h⟩
  obtain rfl := Key.need_eq_zero h
  exact ⟨_, _, .shorthand h⟩

/-- A property without its comma leaves an entry. -/
theorem leaves_member (hoperand : ∀ s, Leaves Ends (Spells Primary) operand s)
    (hvalue : ∀ s, Leaves Ends (Spells Additive) value s) :
    Leaves Ends (Spells Entry) (member operand value) s := by
  refine .look ?_
  split
  · rename_i hs
    refine ((hoperand s).silent fun _ _ => rfl).mono_at fill_entry.any ?_
    rintro ts rest hts ⟨e, n, he⟩
    -- What starts with three dots and is no operator is a spread.
    obtain ⟨p, hp⟩ := he.entry (hts.trans (Session.isAt_iff.1 hs))
    exact ⟨p, n, hp⟩
  · have hcolon : ∀ s, Leaves Ends (opt (seq (token .colon) (Spells Additive)))
        (optionally .colon value) s := fun _ => .optionally hvalue fill_additive.any
    refine (leaves_propertyKey.bind (fun _ => (hcolon _).silent fun _ _ => rfl) .opt).mono ?_
    rintro ts rest ⟨us, ⟨key, n, hkey⟩, rfl | ⟨_, ⟨colon, hcolon, rfl⟩, e, m, he⟩⟩
    · obtain rfl := Key.need_eq_zero hkey
      exact ⟨_, _, .shorthand hkey⟩
    · obtain rfl := Key.need_eq_zero hkey
      exact ⟨_, _, .keyValue hkey hcolon he⟩

theorem leaves_property (hoperand : ∀ s, Leaves Ends (Spells Primary) operand s)
    (hvalue : ∀ s, Leaves Ends (Spells Additive) value s) :
    Leaves Ends (Spells (Then Entry OptionalComma)) (property operand value) s := by
  rw [property_eq]
  refine ((leaves_member hoperand hvalue).bind (fun _ => leaves_optionalComma.silent_pure _)
    ?_).mono seq_then
  exact ⟨[], fun rest hr => ⟨hr, .absent rest⟩⟩

theorem leaves_object [Orderly operand] [Progressing operand] [Orderly value]
    (hoperand : ∀ s, Leaves Ends (Spells Primary) operand s)
    (hvalue : ∀ s, Leaves Ends (Spells Additive) value s) :
    Leaves E (Spells Primary) (object operand value) s := by
  refine ((leaves_bodyOf fun _ => leaves_property hoperand hvalue).silent fun _ _ => rfl).mono ?_
  rintro ts rest ⟨⟨properties, span⟩, n, h⟩
  exact ⟨_, _, .object h⟩

/-- The terms of a sum, up to where no operator follows. -/
theorem leaves_terms [Orderly operand] (hoperand : ∀ s, Leaves Ends (Spells Primary) operand s)
    (s : Session) :
    Leaves Ends (fun ts rest => Spells Terms ts rest ∧ firstKind rest ≠ some .additiveOperator)
      (terms operand) s := by
  have hnil : Fill Ends Ends
      (fun ts rest => Spells Terms ts rest ∧ firstKind rest ≠ some .additiveOperator) :=
    ⟨[], fun rest hr => ⟨hr, ⟨_, _, .nil rest⟩, hr.2⟩⟩
  -- Each term takes a token, so the induction is on what remains.
  induction hr : s.remaining using Nat.strongRecOn generalizing s with
  | ind r ih =>
    cases hs : s.isAt .additiveOperator with
    | false =>
      refine .of_ok (terms_of_not_isAt operand hs)
        (fun rest hrest => ⟨⟨_, _, .nil rest⟩, ?_⟩) hnil.any
      rw [hrest]
      exact Session.isAt_eq_false_iff.1 hs
    | true =>
      have hterm : ∀ s, Leaves Ends (seq (token .additiveOperator) (Spells Primary))
          (term operand) s := fun s =>
        (Leaves.eat _).bind (fun _ => (hoperand _).silent_pure _) fill_primary
      refine .congr (terms_of_isAt operand hs) (.nested hnil.any (((hterm _).bind (fun ht => ?_)
        hnil).mono ?_))
      · have hlt := Progressing.lt ht
        exact (ih _ (by rw [← hr]; exact hlt) _ rfl).silent_pure _
      · rintro ts rest ⟨us, ⟨_, ⟨operator, ho, rfl⟩, e, n, he⟩, ⟨more, m, hmore⟩, hrest⟩
        exact ⟨⟨_, _, .cons ho he hmore⟩, hrest⟩

/-- A sum leaves an operand and its terms. -/
theorem leaves_additive [Orderly operand] (h : ∀ s, Leaves Ends (Spells Primary) operand s) :
    Leaves Ends (Spells Additive) (additive operand) s := by
  rw [additive_eq]
  refine ((h s).bind (fun _ => (leaves_terms h _).silent_pure _) ?_).mono ?_
  · exact ⟨[], fun rest hr => ⟨hr, ⟨_, _, .nil rest⟩, hr.2⟩⟩
  · rintro ts rest ⟨us, ⟨first, n, hfirst⟩, ⟨more, m, hmore⟩, hrest⟩
    exact ⟨_, _, .intro hfirst hmore hrest⟩

/-- An assignment leaves a sum, or a sum, an operator and the beginning of a value. -/
theorem leaves_assignmentOf (hoperand : ∀ s, Leaves Ends (Spells Additive) operand s)
    (hvalue : ∀ s, Leaves Ends (Spells Assignment) value s) :
    Leaves Ends (Spells Assignment) (assignmentOf operand value) s := by
  have hassigned : ∀ left s, Leaves Ends (opt fun ts rest => ∃ operator us,
      Assigns operator.kind ∧ ts = operator :: us ∧ Spells Assignment us rest)
      (assigned value left) s := by
    intro left s
    rcases assigned_cases value left s with ⟨kind, -, hk, h⟩ | ⟨-, h⟩
    · refine .congr h (((Leaves.eat kind).bind (fun _ => (hvalue _).silent_pure _)
        fill_assignment).mono ?_)
      rintro ts rest ⟨us, ⟨operator, ho, rfl⟩, hus⟩
      exact .inr ⟨operator, us, assigns_iff.2 (by rw [ho, hk]), rfl, hus⟩
    · exact .of_ok h (fun _ _ => .inl rfl) Fill.opt.any
  rw [assignmentOf_eq]
  refine ((hoperand s).bind (fun _ => hassigned _ _) .opt).mono ?_
  rintro ts rest ⟨us, ⟨left, n, hleft⟩, rfl | ⟨operator, vs, hk, rfl, right, m, hright⟩⟩
  · exact ⟨_, _, .sum hleft⟩
  · exact ⟨_, _, .assign hleft hk hright⟩

theorem leaves_primaryOf [Progressing sum] [Orderly sum] [Orderly operand] [Progressing operand]
    (hexpression : ∀ s, Leaves Ends (Spells Assignment) expression s)
    (hsum : ∀ s, Leaves Ends (Spells Additive) sum s)
    (hoperand : ∀ s, Leaves Ends (Spells Primary) operand s) :
    Leaves Ends (Spells Primary) (primaryOf expression sum operand) s := by
  rcases primaryOf_cases expression sum operand s with ⟨-, h⟩ | ⟨-, h⟩ | ⟨-, h⟩ | ⟨-, h⟩ | h
  · exact .congr h (leaves_parenthesized hexpression)
  · exact .congr h (leaves_object hoperand hsum)
  · exact .congr h (leaves_callable hsum)
  · exact .congr h (leaves_spread hsum)
  · exact .congr h leaves_literal

end Expressions

/-- Expressions leave the beginning of an expression, with any number of levels to go. -/
theorem leaves_expressions (b : Nat) :
    (∀ s, Leaves Ends (Spells Assignment) (assignment b) s) ∧
      ∀ s, Leaves Ends (Spells Primary) (primary b) s := by
  induction b with
  | zero =>
    rw [assignment_zero, primary_zero]
    -- With no levels to go nothing is consumed, and anything can be the completion.
    exact ⟨fun _ => .of_error rfl fill_assignment.any, fun _ => .of_error rfl fill_primary.any⟩
  | succ b ih =>
    obtain ⟨hassignment, hprimary⟩ := ih
    have hsum : ∀ s, Leaves Ends (Spells Additive) (additive (primary b)) s :=
      fun _ => leaves_additive hprimary
    rw [assignment_succ, primary_succ]
    exact ⟨fun _ => .nested fill_assignment.any (leaves_assignmentOf hsum hassignment),
      fun _ => .nested fill_primary.any (leaves_primaryOf hassignment hsum hprimary)⟩

theorem leaves_assignment (b : Nat) (s : Session) :
    Leaves Ends (Spells Assignment) (assignment b) s :=
  (leaves_expressions b).1 s

theorem leaves_sum (b : Nat) (s : Session) :
    Leaves Ends (Spells Additive) (additive (primary b)) s :=
  leaves_additive (leaves_expressions b).2

/-! ### Statements -/

section Statements

variable {statement : Parser Stmt} {value : Parser Expr}

/-- A list of statements leaves line breaks and statements with line breaks behind them. -/
theorem leaves_statementList {stop : Option Kind} (hstop : stop ≠ some .lineBreak)
    [Orderly statement] [Progressing statement]
    (h : ∀ s, Leaves Ends (Spells Statement) statement s) :
    Leaves Ends (seq Breaks (Spells (Many (Then Statement Breaks)))) (statementList statement stop)
      s := by
  -- The line breaks behind a statement belong to its step of the loop.
  have hstep : ∀ s, Leaves Ends (Spells (Then Statement Breaks))
      (do let a ← statement; skipLineBreaks; return a) s := by
    intro s
    refine ((h s).bind (fun _ => leaves_skipLineBreaks.silent_pure _) ?_).mono seq_then
    exact ⟨[], fun rest hr => ⟨hr, .nil rest⟩⟩
  rw [statementList_eq statement hstop]
  refine (leaves_skipLineBreaks.bind (fun _ => .star _ fun s _ => hstep s) .star).mono ?_
  rintro ts rest ⟨us, hb, hM⟩
  exact ⟨us, hb, hM.many⟩

/-- A block leaves its braces with the statements between them. -/
theorem leaves_block [Orderly statement] [Progressing statement]
    (h : ∀ s, Leaves Ends (Spells Statement) statement s) :
    Leaves E (Spells (Braced Statement)) (block statement) s := by
  have hclose : Fill E Ends (token .closeCurly) := fill_token _ (by decide) (by decide)
  have hnil : Fill Ends Ends (seq Breaks (Spells (Many (Then Statement Breaks)))) :=
    ⟨[], fun rest hr => ⟨hr, rest, .nil rest, _, _, .nil rest⟩⟩
  rw [block_eq]
  refine ((Leaves.eat _).bind (fun _ => (leaves_statementList (by simp) h).bind (fun _ =>
    (Leaves.eat _).silent fun _ _ => rfl) hclose) (hnil.seq hclose)).mono ?_
  rintro ts rest ⟨_, ⟨opening, ho, rfl⟩, us, ⟨vs, hb, body, n, hM⟩, closing, hc, rfl⟩
  exact ⟨_, _, .intro ho hb hM hc⟩

theorem fill_block : Fill E Ends (Spells (Braced Statement)) := by
  refine ⟨[sample .openCurly, sample .closeCurly],
    fun rest _ => ⟨.cons _ (by decide) (by decide), ?_⟩⟩
  exact ⟨_, _, .intro rfl (.nil _) (.nil _) rfl⟩

theorem leaves_declarator (h : ∀ s, Leaves Ends (Spells Assignment) value s) :
    Leaves Ends (Spells Declared) (declarator value) s := by
  have hinit : ∀ s, Leaves Ends (opt (seq (token .simpleAssignment) (Spells Assignment)))
      (optionally .simpleAssignment value) s := fun _ => .optionally h fill_assignment.any
  rw [declarator_eq]
  refine (leaves_identifier.bind (fun _ => (hinit _).silent fun _ _ => rfl) .opt).mono ?_
  rintro ts rest ⟨us, ⟨name, _, ⟨hk⟩⟩, rfl | ⟨_, ⟨equals, heq, rfl⟩, e, n, he⟩⟩
  · exact ⟨_, _, .plain (.intro hk)⟩
  · exact ⟨_, _, .valued (.intro hk) heq he⟩

theorem fill_declared : Fill E Ends (Spells Declared) := by
  refine fill_name.mono ?_
  rintro ts rest ⟨_, _, ⟨hk⟩⟩
  exact ⟨_, _, .plain (.intro hk)⟩

theorem leaves_nextDeclarator (h : ∀ s, Leaves Ends (Spells Assignment) value s) :
    Leaves Ends (Spells NextDeclared) (nextDeclarator value) s := by
  have hbreaks : Fill Ends Ends Breaks := ⟨[], fun rest hr => ⟨hr, .nil rest⟩⟩
  refine ((Leaves.eat _).bind (fun _ => leaves_skipLineBreaks.bind (fun _ => leaves_declarator h)
    fill_declared) (hbreaks.seq fill_declared)).mono ?_
  rintro ts rest ⟨_, ⟨comma, hc, rfl⟩, us, hb, d, n, hd⟩
  exact ⟨_, _, .intro hc hb hd⟩

theorem declares_of_declarationWord {kind : DeclarationKind} {word : Kind}
    (h : declarationWord (some word) = (kind, word)) : Declares word kind := by
  cases word <;> simp only [declarationWord, Prod.mk.injEq, reduceCtorEq, and_false] at h
  · rw [← h.1]
    exact .letWord
  · rw [← h.1]
    exact .varWord
  · rw [← h.1]
    exact .constWord

/-- A declaration leaves its word, its declarators and the mark of its end. -/
theorem leaves_declarationOf {kind : DeclarationKind} {word : Kind} [Orderly value]
    (hword : Declares word kind) (h : ∀ s, Leaves Ends (Spells Assignment) value s) :
    Leaves E (Spells Statement) (declarationOf value kind word) s := by
  have hmore : ∀ s, Leaves Ends (Spells (Many NextDeclared))
      (repeatWhile (·.isAt .comma) (nextDeclarator value)) s :=
    fun s => (Leaves.star s fun _ _ => leaves_nextDeclarator h).mono Star.many
  have hnil : Fill Ends Ends (Spells (Many NextDeclared)) :=
    ⟨[], fun rest hr => ⟨hr, _, _, .nil rest⟩⟩
  refine ((Leaves.eat _).bind (fun _ => (leaves_declarator h).bind (fun _ => (hmore _).bind
    (fun _ => .look (leaves_endOfStatement.silent_pure _)) fill_end) (hnil.seq fill_end))
    (fill_declared.seq (hnil.seq fill_end))).mono ?_
  rintro ts rest ⟨_, ⟨opening, rfl, rfl⟩, us, ⟨d, n, hd⟩, vs, ⟨ds, m, hM⟩, hend⟩
  exact ⟨_, _, .declaration hword hd hM hend⟩

theorem leaves_resultStatement (h : ∀ s, Leaves Ends (Spells Additive) value s) :
    Leaves E (Spells Statement) (resultStatement value) s := by
  refine ((Leaves.eat _).bind (fun _ => (h _).bind (fun _ =>
    .look (leaves_endOfStatement.silent_pure _)) fill_end) (fill_additive.seq fill_end)).mono ?_
  rintro ts rest ⟨_, ⟨word, hw, rfl⟩, us, ⟨e, n, he⟩, hend⟩
  exact ⟨_, _, .result hw he hend⟩

/-- In front of its body a function looks for the brace once before it is consumed. -/
theorem leaves_body [Orderly statement] [Progressing statement]
    (h : ∀ s, Leaves Ends (Spells Statement) statement s) :
    Leaves E (Spells (Braced Statement)) (do expectBody; block statement) s := by
  rcases expectBody_cases s with ⟨-, hs⟩ | ⟨_, -, -, hs⟩ | ⟨-, hs⟩
  · exact .of_error (bind_of_error hs) fill_block.any
  · exact .of_error (bind_of_error hs) fill_block.any
  · exact .congr (bind_of_ok hs) (leaves_block h)

/-- A function leaves its word, its name, its parameters and its body. -/
theorem leaves_function [Orderly statement] [Progressing statement]
    (h : ∀ s, Leaves Ends (Spells Statement) statement s) :
    Leaves E (Spells Statement) (function statement) s := by
  have hclose : Fill Ends Ends (token .closeParen) := fill_token _ (by decide) (by decide)
  have hopen : Fill Ends Any (token .openParen) := .token fun _ => trivial
  have hnil : Fill Ends Ends (Spells (Many (Then Parameter OptionalComma))) :=
    ⟨[], fun rest hr => ⟨hr, _, _, .nil rest⟩⟩
  have hparams : Fill E Ends (seq (Spells (Many (Then Parameter OptionalComma)))
      (seq (token .closeParen) (Spells (Braced Statement)))) := hnil.seq (hclose.seq fill_block)
  have hbody : ∀ (g : Block → Session → Stmt) s, Leaves E (Spells (Braced Statement))
      (do expectBody; let body ← block statement; return g body (← get)) s := by
    intro g s
    have hassoc : (do expectBody; let body ← block statement; return g body (← get) : Parser Stmt) =
        (do expectBody; block statement) >>= fun body => (do return g body (← get)) := by
      rw [bind_assoc]
    rw [hassoc]
    exact (leaves_body h).silent fun _ _ => rfl
  refine ((Leaves.eat _).bind (fun _ => leaves_identifier.bind (fun _ => (Leaves.eat _).bind
    (fun _ => (leaves_listOf fun _ => leaves_parameter).bind (fun _ => (Leaves.eat _).bind
      (fun _ => hbody _ _) fill_block) (hclose.seq fill_block)) hparams)
    (hopen.seq hparams)) (fill_name.any.seq (hopen.seq hparams))).mono ?_
  rintro ts rest ⟨_, ⟨word, hw, rfl⟩, _, ⟨name, _, ⟨hk⟩⟩, _, ⟨opening, ho, rfl⟩, _, ⟨params, n, hM⟩,
    _, ⟨closing, hc, rfl⟩, body, m, hbody⟩
  obtain rfl := hM.need_eq_zero fun ⟨hP, _⟩ => hP.need_eq_zero
  exact ⟨_, _, .function hw (.intro hk) ho hM hc hbody⟩

theorem leaves_expressionStatement (hs : s.kind? ≠ some .openCurly)
    (h : ∀ s, Leaves Ends (Spells Assignment) value s) :
    Leaves E (Spells Statement) (expressionStatement value) s := by
  refine ((h s).bind (fun _ => leaves_endOfStatement.silent_pure _) fill_end).mono_at
    fill_statement.any ?_
  rintro ts rest hts ⟨us, ⟨e, n, he⟩, hend⟩
  rw [← s.kind?_eq] at hts
  exact ⟨_, _, .expression (hts ▸ hs) he hend⟩

/-- A statement leaves the beginning of the one that its first token selects. -/
theorem leaves_statementOf {expression sum : Parser Expr} [Orderly statement]
    [Progressing statement] [Orderly expression]
    (hstatement : ∀ s, Leaves Ends (Spells Statement) statement s)
    (hexpression : ∀ s, Leaves Ends (Spells Assignment) expression s)
    (hsum : ∀ s, Leaves Ends (Spells Additive) sum s) :
    Leaves E (Spells Statement) (statementOf statement expression sum) s := by
  rcases statementOf_cases statement expression sum s with ⟨-, h⟩ | ⟨-, h⟩ |
    ⟨kind, word, hkind, hword, h⟩ | ⟨-, h⟩ | ⟨-, h⟩ | ⟨hs, h⟩
  · exact .congr h (((Leaves.eat _).silent_pure _).mono fun ⟨_, hk, h⟩ => h ▸ ⟨_, _, .empty hk⟩)
  · exact .congr h (((leaves_block hstatement).silent_pure _).mono
      fun ⟨_, _, h⟩ => ⟨_, _, .block h⟩)
  · rw [hword] at hkind
    exact .congr h (leaves_declarationOf (declares_of_declarationWord hkind) hexpression)
  · exact .congr h (leaves_resultStatement hsum)
  · exact .congr h (leaves_function hstatement)
  · exact .congr h (leaves_expressionStatement hs hexpression)

end Statements

/-- Statements leave the beginning of a statement, with any number of levels to go. -/
theorem leaves_statement (b : Nat) (s : Session) : Leaves E (Spells Statement) (statement b) s := by
  induction b generalizing E s with
  | zero =>
    rw [statement_zero]
    exact .of_error rfl fill_statement.any
  | succ b ih =>
    rw [statement_succ]
    exact .nested fill_statement.any
      (leaves_statementOf (fun _ => ih _) (leaves_assignment b) (leaves_sum b))

end Grammar

namespace Parser

theorem leaves_program (s : Session) :
    Leaves Ends
      (seq Phrase.Breaks (Spells (Phrase.Many (Phrase.Then Phrase.Statement Phrase.Breaks))))
      program s := by
  refine .congr (program_apply s) ?_
  exact (Grammar.leaves_statementList (by simp) (Grammar.leaves_statement s.budget)).silent
    fun _ _ => rfl

/-- Whatever has been read of a program is the beginning of one. -/
theorem exists_derivable_append (s : Session) :
    ∃ c v, Consumes s c (program.final s) ∧ ∃ p n, Derivable s.file (c ++ v) p n := by
  obtain ⟨c, v, hc, hL⟩ := (leaves_program s).viable
  obtain ⟨us, hb, body, n, hM⟩ := hL [] ⟨by simp [firstKind], by simp [firstKind]⟩
  rw [List.append_nil] at hb
  exact ⟨c, v, hc, _, n, .intro hb hM⟩

/-- A program is read to the end of the input. -/
theorem upcoming_of_program_eq_ok {s s' : Session} {p : Program} (h : program s = .ok p s') :
    s'.upcoming = [] := by
  rw [program_apply, Grammar.statementList_eq _ (by simp), bind_assoc] at h
  obtain ⟨_, s₁, -, h⟩ := bind_eq_ok h
  obtain ⟨_, s₂, hloop, h⟩ := bind_eq_ok h
  have htest := test_of_repeatWhile_eq_ok hloop
  cases h
  simpa [Grammar.atStop, Session.kind?, Session.lookahead_eq_none_iff] using htest

/-- What is read as a program is one. -/
theorem exists_derivable_of_program_eq_ok {s s' : Session} {p : Program}
    (h : program s = .ok p s') : ∃ p' n, Derivable s.file s.upcoming p' n := by
  obtain ⟨c, hc, hL⟩ := (leaves_program s).ok h
  have hend := upcoming_of_program_eq_ok h
  obtain ⟨us, hb, body, n, hM⟩ := hL [] (by rw [hend])
  rw [← hend, ← hc.upcoming] at hb
  exact ⟨_, n, .intro hb hM⟩

end Parser

end Scriptlet
