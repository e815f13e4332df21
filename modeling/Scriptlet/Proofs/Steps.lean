import Scriptlet.Proofs.Shape

/-!
# A parse one step at a time

A session changes in two ways only: a token is consumed by `eat`, or the number of levels taken is
changed. A *run* is a sequence of such steps, with the tokens consumed along it. Every moment of a
parse is the end of a run, so what holds of all runs holds at every moment of every parse.

That parsers do nothing else is read off their text. A parser is *built* if it is put together from
the combinators of the library; every production is, and what is to be known of all of them is
proved by induction on how they are built.

## Main definitions

* `Session.Run`: sessions that are reached by steps, and the tokens consumed on the way;
* `Parser.Built`: parsers put together from combinators;
* `Parser.Conduct`, `Parser.Keeps`: what may become of a session, and parsers that keep to it;
* `Parser.Stepwise`: what a parser does is a run.

## Main results

* `Session.Run.append_toList_prefix`: the tokens consumed and the lookahead are the first tokens of
  those to come;
* the instances of `Parser.Built` for the productions;
* `Parser.Built.keeps`: built parsers keep to every conduct;
* `Parser.Built.stepwise`: they go step by step.
-/

namespace Scriptlet

/-! ### Runs -/

/-- The session `s'` is reached from `s` step by step, and the tokens `c` are consumed on the
way. -/
inductive Session.Run : Session → List Token → Session → Prop
  | refl (s : Session) : Run s [] s
  /-- A token is consumed, and the next one is scanned. -/
  | eat {kind : Kind} {s s₁ s' : Session} {t : Token} {c : List Token} :
      Parser.eat kind s = .ok t s₁ → Run s₁ c s' → Run s (t :: c) s'
  /-- A token is consumed, and what stands behind it starts no token. -/
  | fault {s s₁ s' : Session} {t : Token} {e : Error} {c : List Token} :
      s.lookahead = some t → Parser.eat t.kind s = .error e s₁ → Run s₁ c s' → Run s (t :: c) s'
  /-- Another number of levels is taken. -/
  | level {s s' : Session} {c : List Token} (depth : Nat) :
      Run (s.withDepth depth) c s' → Run s c s'

namespace Session.Run

variable {s s' s'' : Session} {c d : List Token}

/-- Runs one behind the other are a run. -/
theorem trans (h : Run s c s') (h' : Run s' d s'') : Run s (c ++ d) s'' := by
  induction h with
  | refl s => exact h'
  | eat heat _ ih => exact .eat heat (ih h')
  | fault ht heat _ ih => exact .fault ht heat (ih h')
  | level depth _ ih => exact .level depth (ih h')

theorem withDepth (h : Run s c s') (depth : Nat) : Run s c (s'.withDepth depth) := by
  have h' := h.trans (.level depth (.refl _))
  rwa [List.append_nil] at h'

/-- A step that meets a fault consumes the token in front of it all the same. -/
theorem consumes_of_fault {s₁ : Session} {t : Token} {e : Error} (ht : s.lookahead = some t)
    (h : Parser.eat t.kind s = .error e s₁) : Consumes s [t] s₁ := by
  rcases Parser.eat_cases t.kind s with ⟨hu, -⟩ | ⟨u, hu, hne, -⟩ | ⟨_, _, -, h', -⟩ |
    ⟨u, _, _, -, h', hc, -⟩
  · rw [← Session.lookahead_eq_none_iff, ht] at hu
    cases hu
  · rw [ht] at hu
    cases hu
    exact absurd rfl hne
  · rw [h] at h'
    cases h'
  · rw [h] at h'
    cases h'
    have hup := hc.upcoming
    rw [← head?_upcoming, hup] at ht
    cases ht
    exact hc

/-- What a run consumes is taken from the front of what comes, and the fault behind it stays. -/
theorem upcoming_and_fault (h : Run s c s') :
    s.upcoming = c ++ s'.upcoming ∧ s'.fault = s.fault := by
  -- The induction is on the steps, of which two consume a token.
  induction h with
  | refl s => exact ⟨rfl, rfl⟩
  | eat heat _ ih =>
    have hc := (Parser.eat_eq_ok heat).2.1
    exact ⟨by rw [hc.upcoming, ih.1]; rfl, ih.2.trans hc.fault⟩
  | fault ht heat _ ih =>
    have hc := consumes_of_fault ht heat
    exact ⟨by rw [hc.upcoming, ih.1]; rfl, ih.2.trans hc.fault⟩
  | level depth _ ih => exact ih

/-- Along a run what remains never grows. -/
theorem remaining_le (h : Run s c s') : s'.remaining ≤ s.remaining := by
  induction h with
  | refl s => exact Nat.le_refl _
  | eat heat _ ih =>
    have hc := (Parser.eat_eq_ok heat).2.1.remaining
    omega
  | fault ht heat _ ih =>
    have hc := (consumes_of_fault ht heat).remaining
    omega
  | level depth _ ih => exact ih

/-- The tokens consumed and the lookahead are the first of the tokens that were to come. -/
theorem append_toList_prefix (h : Run s c s') : c ++ s'.lookahead.toList <+: s.upcoming := by
  rw [h.upcoming_and_fault.1, List.prefix_append_right_inj, ← head?_upcoming]
  cases s'.upcoming with
  | nil => exact List.prefix_refl _
  | cons t ts => exact List.prefix_append [t] ts

end Session.Run

namespace Parser

variable {α β : Type}

/-! ### How parsers are built -/

/-- Refuses the lookahead for the reason given, or the end of the input where more is wanted. -/
def refuse {α : Type} (message wanted : String) : Parser α := fun s =>
  match s.lookahead with
  | none => fail (.endOfInput wanted) s
  | some t => fail (.misplaced t.display message) s

/-- Parsers that are put together from the combinators of the library. Only a number is ever called
malformed. -/
class inductive Built : {α : Type} → Parser α → Prop
  | pure {α : Type} (a : α) : Built (Pure.pure a : Parser α)
  | get : Built (MonadState.get : Parser Session)
  | bind {α β : Type} {p : Parser α} {f : α → Parser β} :
      Built p → (∀ a, Built (f a)) → Built (p >>= f)
  | eat (kind : Kind) : Built (Parser.eat kind)
  | refuse {α : Type} (message wanted : String) : Built (Parser.refuse message wanted : Parser α)
  | overLimit {α : Type} : Built (Parser.overLimit : Parser α)
  | number : Built Grammar.numberLiteral
  | deepen : Built Parser.deepen
  | nested {α : Type} {p : Parser α} : Built p → Built (Parser.nested p)
  | levelled {α : Type} {p : Parser α} : Built p → Built (Parser.levelled p)
  | repeatWhile {α : Type} (test : Session → Bool) {step : Parser α} :
      Built step → Built (Parser.repeatWhile test step)

attribute [instance] Built.pure Built.get Built.eat Built.refuse Built.overLimit Built.number
  Built.deepen

instance (p : Parser α) (f : α → Parser β) [hp : Built p] [hf : ∀ a, Built (f a)] :
    Built (p >>= f) :=
  .bind hp hf

instance (p : Parser α) [h : Built p] : Built (nested p) := .nested h

instance (p : Parser α) [h : Built p] : Built (levelled p) := .levelled h

instance (test : Session → Bool) (step : Parser α) [h : Built step] :
    Built (repeatWhile test step : Parser (List α)) :=
  .repeatWhile test h

instance (g : α → β) (p : Parser α) [Built p] : Built (g <$> p) := by
  rw [map_eq_pure_bind]
  infer_instance

instance (p : Parser α) [Built p] : Built (discard p) := by
  rw [discard_eq]
  infer_instance

instance (c : Prop) [Decidable c] (p q : Parser α) [Built p] [Built q] :
    Built (if c then p else q) := by
  split <;> infer_instance

instance (kind : Kind) : Built (accept kind) := by
  rw [accept]
  infer_instance

instance (kind : Kind) (p : Parser α) [Built p] : Built (optionally kind p) := by
  rw [optionally]
  infer_instance

end Parser

namespace Grammar

open Scriptlet.Parser

variable {α : Type}

instance : Built skipLineBreaks := by
  rw [skipLineBreaks]
  infer_instance

instance : Built optionalComma := by
  rw [optionalComma]
  infer_instance

instance : Built identifier := by
  rw [identifier]
  infer_instance

instance : Built endOfStatement := by
  have (s : Session) : Built (match s.kind? with
      | some .semicolon => discard (eat .semicolon)
      | some .closeCurly => pure ()
      | _ => discard (eat .lineBreak)) := by
    split <;> infer_instance
  rw [endOfStatement]
  infer_instance

instance (element : Parser α) [Built element] : Built (listOf element) := by
  rw [listOf]
  infer_instance

instance (property : Parser α) [Built property] : Built (bodyOf property) := by
  rw [bodyOf]
  infer_instance

instance : Built patternProperty := by
  rw [patternProperty]
  infer_instance

instance : Built objectPattern := by
  rw [objectPattern]
  infer_instance

instance : Built parameter := by
  rw [parameter]
  infer_instance

instance : Built stringLiteral := by
  rw [stringLiteral]
  infer_instance

/-- A literal is a number or a string, and everything else is refused. -/
theorem literal_eq : literal = (do
    let s ← get
    if s.isAt .number then numberLiteral
    else if s.isAt .string then stringLiteral
    else refuse "expected an expression" "an expression" : Parser Expr) := by
  funext s
  rw [get_bind]
  cases h : s.lookahead with
  | none => simp [literal_of_none h, Session.isAt, Session.kind?, h, refuse, fail, Session.position]
  | some t =>
    by_cases hn : t.kind = .number
    · simp [literal_of_number h hn, Session.isAt, Session.kind?, h, hn]
    by_cases hs : t.kind = .string
    · simp [literal_of_string h hs, Session.isAt, Session.kind?, h, hs]
    · simp [literal_of_other h hn hs, Session.isAt, Session.kind?, h, hn, hs, refuse, fail,
        Session.position]

instance : Built literal := by
  rw [literal_eq]
  infer_instance

section Expressions

variable (expression sum operand value : Parser Expr)

instance [Built operand] : Built (additive operand) := by
  rw [additive]
  infer_instance

instance [Built operand] [Built value] : Built (assignmentOf operand value) := by
  have (left : Expr) (s : Session) : Built (match s.kind? with
      | some kind =>
        if kind.isAssignment then do
          let operator ← eat kind
          let right ← value
          return .assignment left operator right ⟨left.span.start, right.span.stop⟩
        else return left
      | none => return left : Parser Expr) := by
    split <;> infer_instance
  rw [assignmentOf]
  infer_instance

instance [Built operand] [Built value] : Built (property operand value) := by
  rw [property_eq, member, propertyKey]
  infer_instance

instance [Built expression] : Built (parenthesized expression) := by
  rw [parenthesized]
  infer_instance

instance [Built operand] [Built value] : Built (object operand value) := by
  rw [object]
  infer_instance

instance [Built value] : Built (callable value) := by
  rw [callable]
  infer_instance

instance [Built operand] : Built (spread operand) := by
  rw [spread]
  infer_instance

instance [Built expression] [Built sum] [Built operand] :
    Built (primaryOf expression sum operand) := by
  have (s : Session) : Built (match s.kind? with
      | some .openParen => parenthesized expression
      | some .openCurly => object operand sum
      | some .identifier => callable sum
      | some .spread => spread sum
      | _ => literal : Parser Expr) := by
    split <;> infer_instance
  rw [primaryOf]
  infer_instance

end Expressions

/-- Expressions are built, with any number of levels to go. -/
theorem built_expressions (b : Nat) : Built (assignment b) ∧ Built (primary b) := by
  induction b with
  | zero =>
    rw [assignment_zero, primary_zero]
    exact ⟨inferInstance, inferInstance⟩
  | succ b ih =>
    obtain ⟨_, _⟩ := ih
    rw [assignment_succ, primary_succ]
    exact ⟨inferInstance, inferInstance⟩

instance (b : Nat) : Built (assignment b) := (built_expressions b).1

instance (b : Nat) : Built (primary b) := (built_expressions b).2

section Statements

variable (statement : Parser Stmt) (expression sum value : Parser Expr)

instance (stop : Option Kind) [Built statement] : Built (statementList statement stop) := by
  rw [statementList]
  infer_instance

instance [Built statement] : Built (block statement) := by
  rw [block]
  infer_instance

instance [Built value] : Built (declarator value) := by
  rw [declarator_eq]
  infer_instance

instance [Built value] : Built (declaration value) := by
  simp only [declaration_eq, declarationOf, nextDeclarator]
  infer_instance

/-- In front of the body of a function everything but a brace is refused. -/
theorem expectBody_eq : expectBody = (do
    let s ← get
    if s.isAt .openCurly then pure ()
    else
      refuse ("expected " ++ Kind.openCurly.describe ++ " to open the function body")
        Kind.openCurly.describe : Parser Unit) := by
  funext s
  rw [expectBody, get_bind, get_bind]
  cases h : s.lookahead with
  | none => simp [Session.isAt, Session.kind?, h, refuse]
  | some t =>
    by_cases hk : t.kind = .openCurly
    · simp [Session.isAt, Session.kind?, h, hk]
    · simp [Session.isAt, Session.kind?, h, hk, refuse]

instance : Built expectBody := by
  rw [expectBody_eq]
  infer_instance

instance : Built emptyStatement := by
  rw [emptyStatement]
  infer_instance

instance [Built value] : Built (resultStatement value) := by
  rw [resultStatement]
  infer_instance

instance [Built statement] : Built (function statement) := by
  rw [function]
  infer_instance

instance [Built expression] : Built (expressionStatement expression) := by
  rw [expressionStatement]
  infer_instance

instance [Built statement] [Built expression] [Built sum] :
    Built (statementOf statement expression sum) := by
  have (s : Session) : Built (match s.kind? with
      | some .semicolon => emptyStatement
      | some .openCurly => do
        let b ← block statement
        return .block b.body b.span
      | some .letWord | some .varWord | some .constWord => declaration expression
      | some .returnWord => resultStatement sum
      | some .functionWord => function statement
      | _ => expressionStatement expression : Parser Stmt) := by
    split <;> infer_instance
  rw [statementOf]
  infer_instance

end Statements

instance (b : Nat) : Built (statement b) := by
  induction b with
  | zero =>
    rw [statement_zero]
    infer_instance
  | succ b ih =>
    rw [statement_succ]
    infer_instance

end Grammar

namespace Parser

theorem budgeted_eq (p : Nat → Parser α) :
    budgeted p = (do let s ← get; p s.budget : Parser α) := rfl

instance (p : Nat → Parser α) [∀ b, Built (p b)] : Built (budgeted p) := by
  rw [budgeted_eq]
  infer_instance

instance : Built program := by
  rw [program, statementList]
  infer_instance

/-! ### Conduct -/

/-- A way in which runs may change a session, and the errors with which they may fail. Runs one
after the other keep to it if each of them does, the number of levels taken does not matter to it,
and what the parts of parsers do on their own keeps to it. -/
structure Conduct where
  /-- What may become of a session on success. -/
  ok : Session → Session → Prop
  /-- What may become of a session on failure. -/
  error : Session → Error → Session → Prop
  refl : ∀ s, ok s s
  trans : ∀ {s s₁ s₂}, ok s s₁ → ok s₁ s₂ → ok s s₂
  fails : ∀ {s s₁ e s₂}, ok s s₁ → error s₁ e s₂ → error s e s₂
  ok_withDepth : ∀ {s s'} depth, ok s s' → ok s (s'.withDepth depth)
  error_withDepth : ∀ {s e s'} depth, error s e s' → error s e (s'.withDepth depth)
  eat_ok : ∀ {kind s t s'}, Parser.eat kind s = .ok t s' → ok s s'
  eat_error : ∀ {kind s e s'}, Parser.eat kind s = .error e s' → error s e s'
  endOfInput : ∀ {s} wanted, s.lookahead = none → error s ⟨.endOfInput wanted, s.lastEnd⟩ s
  misplaced : ∀ {s t} message, s.lookahead = some t →
    error s ⟨.misplaced t.display message, t.span.start⟩ s
  tooDeep : ∀ s, error s ⟨.tooDeep s.maxDepth, s.position⟩ s
  malformedNumber : ∀ {s t s'}, Parser.eat .number s = .ok t s' →
    Binary64.ofLiteral? t.value = none → error s ⟨.malformedNumber t.value, t.span.start⟩ s'

/-- A parser that keeps to a conduct. -/
structure Keeps (C : Conduct) (p : Parser α) : Prop where
  /-- What happens on success. -/
  ok : ∀ {s a s'}, p s = .ok a s' → C.ok s s'
  /-- What happens on failure. -/
  error : ∀ {s e s'}, p s = .error e s' → C.error s e s'

namespace Keeps

variable {C : Conduct}

/-- Returning a value leaves the session as it is. -/
theorem pure (a : α) : Keeps C (Pure.pure a : Parser α) := by
  refine ⟨fun h => ?_, nofun⟩
  cases h
  exact C.refl _

theorem get : Keeps C (MonadState.get : Parser Session) := by
  refine ⟨fun h => ?_, nofun⟩
  cases h
  exact C.refl _

/-- What may become of a session in two parts may become of it. -/
theorem bind {p : Parser α} {f : α → Parser β} (hp : Keeps C p) (hf : ∀ a, Keeps C (f a)) :
    Keeps C (p >>= f) where
  ok h := by
    obtain ⟨a, s₁, h₁, h₂⟩ := bind_eq_ok h
    exact C.trans (hp.ok h₁) ((hf a).ok h₂)
  error h := by
    rcases bind_eq_error h with h₁ | ⟨a, s₁, h₁, h₂⟩
    · exact hp.error h₁
    · exact C.fails (hp.ok h₁) ((hf a).error h₂)

/-- A token that is taken, and one that is refused, are what a conduct is asked about. -/
theorem eat (kind : Kind) : Keeps C (eat kind) := ⟨C.eat_ok, C.eat_error⟩

/-- Refusing a token, and refusing the end of the input, are conduct. -/
theorem refuse (message wanted : String) : Keeps C (refuse message wanted : Parser α) where
  ok h := by
    rw [Parser.refuse] at h
    split at h <;> cases h
  error {s e s'} h := by
    rw [Parser.refuse] at h
    split at h
    · rename_i hnone
      cases h
      rw [Session.position, hnone]
      exact C.endOfInput wanted hnone
    · rename_i t ht
      cases h
      rw [Session.position, ht]
      exact C.misplaced message ht

theorem overLimit : Keeps C (overLimit : Parser α) := by
  refine ⟨nofun, fun {s _ _} h => ?_⟩
  cases h
  exact C.tooDeep s

/-- A number is taken before its value is looked for, so an error comes behind it. -/
theorem numberLiteral : Keeps C Grammar.numberLiteral where
  ok {s a s'} h := by
    obtain ⟨t, s₁, heat, hvalue⟩ := bind_eq_ok h
    cases hn : Binary64.ofLiteral? t.value <;> rw [Grammar.numberValue, hn] at hvalue <;>
      cases hvalue
    exact C.eat_ok heat
  error {s e s'} h := by
    rcases bind_eq_error h with heat | ⟨t, s₁, heat, hvalue⟩
    · exact C.eat_error heat
    · cases hn : Binary64.ofLiteral? t.value <;> rw [Grammar.numberValue, hn] at hvalue <;>
        cases hvalue
      exact C.malformedNumber heat hn

/-- A level is taken, or refused at the limit. -/
theorem deepen : Keeps C deepen where
  ok {s a s'} h := by
    rw [Parser.deepen] at h
    split at h <;> cases h
    exact C.ok_withDepth _ (C.refl s)
  error {s e s'} h := by
    rw [Parser.deepen] at h
    split at h
    · exact Keeps.overLimit.error h
    · cases h

/-- What changes only the number of levels taken keeps to a conduct if the parser inside does. -/
theorem leaving {p : Parser α} (hp : Keeps C p) (depth : Session → Nat) :
    Keeps C (leaving (fun s => s.withDepth (depth s)) p) where
  ok {s a s'} h := by
    rw [Parser.leaving] at h
    split at h <;> cases h
    rename_i h₁
    exact C.ok_withDepth _ (hp.ok h₁)
  error {s e s'} h := by
    rw [Parser.leaving] at h
    split at h <;> cases h
    rename_i h₁
    exact C.error_withDepth _ (hp.error h₁)

theorem nested {p : Parser α} (hp : Keeps C p) : Keeps C (nested p) :=
  deepen.bind fun _ => hp.leaving fun s => s.depth - 1

/-- Giving back levels is conduct like taking them. -/
theorem levelled {p : Parser α} (hp : Keeps C p) : Keeps C (levelled p) where
  ok {s _ _} h := (hp.leaving fun _ => s.depth).ok h
  error {s _ _} h := (hp.leaving fun _ => s.depth).error h

/-- A loop is its steps one behind the other, so it keeps to what each of them keeps to. -/
theorem repeatWhile {step : Parser α} (hstep : Keeps C step) (test : Session → Bool) :
    Keeps C (repeatWhile test step : Parser (List α)) where
  ok {s as s'} h := by
    fun_induction Parser.repeatWhile test step s generalizing as s' with
    | case1 => cases h
    | case2 => cases h
    | case3 s _ a s₁ h₁ _ as' s₂ hloop ih =>
      cases h
      exact C.trans (hstep.ok h₁) (ih hloop)
    -- A step that takes nothing ends the loop, and is a step all the same.
    | case4 s _ a s₁ h₁ _ =>
      cases h
      exact hstep.ok h₁
    | case5 s =>
      cases h
      exact C.refl s
  error {s e s'} h := by
    fun_induction Parser.repeatWhile test step s generalizing s' with
    | case1 s _ e s₁ h₁ =>
      cases h
      exact hstep.error h₁
    | case2 s _ a s₁ h₁ _ e s₂ hloop ih =>
      cases h
      exact C.fails (hstep.ok h₁) (ih hloop)
    | case3 => cases h
    | case4 => cases h
    | case5 => cases h

end Keeps

/-- Parsers that are built from combinators keep to every conduct. -/
theorem Built.keeps {p : Parser α} (h : Built p) (C : Conduct) : Keeps C p := by
  induction h with
  | pure a => exact .pure a
  | get => exact .get
  | bind _ _ ihp ihf => exact ihp.bind ihf
  | eat kind => exact .eat kind
  | refuse message wanted => exact .refuse message wanted
  | overLimit => exact .overLimit
  | number => exact .numberLiteral
  | deepen => exact .deepen
  | nested _ ih => exact ih.nested
  | levelled _ ih => exact ih.levelled
  | repeatWhile test _ ih => exact ih.repeatWhile test

/-! ### Built parsers go step by step -/

/-- What a parser does is a run. A failure that is not about the text behind a token leaves no fault
unmet, and a number is called malformed only if one without a value was consumed. -/
structure Stepwise (p : Parser α) : Prop where
  /-- What happens on success. -/
  ok : ∀ {s a s'}, p s = .ok a s' → ∃ c, Session.Run s c s' ∧ (s.Settled → s'.Settled)
  /-- What happens on failure. -/
  error : ∀ {s e s'}, p s = .error e s' → ∃ c, Session.Run s c s' ∧
    (s.Settled → s'.Settled ∨ e.cause.kind = .lexical) ∧
    ∀ text, e.cause = .malformedNumber text →
      ∃ t ∈ c, t.kind = .number ∧ Binary64.ofLiteral? t.value = none

/-- Going step by step is a conduct. -/
def runConduct : Conduct where
  ok s s' := ∃ c, Session.Run s c s' ∧ (s.Settled → s'.Settled)
  error s e s' := ∃ c, Session.Run s c s' ∧ (s.Settled → s'.Settled ∨ e.cause.kind = .lexical) ∧
    ∀ text, e.cause = .malformedNumber text →
      ∃ t ∈ c, t.kind = .number ∧ Binary64.ofLiteral? t.value = none
  refl s := ⟨[], .refl s, id⟩
  trans := fun ⟨c, hc, hs⟩ ⟨d, hd, hs'⟩ => ⟨c ++ d, hc.trans hd, hs' ∘ hs⟩
  fails := by
    rintro s s₁ e s₂ ⟨c, hc, hs⟩ ⟨d, hd, hs', hnumber⟩
    refine ⟨c ++ d, hc.trans hd, hs' ∘ hs, fun text htext => ?_⟩
    obtain ⟨t, ht, hk⟩ := hnumber text htext
    exact ⟨t, List.mem_append_right c ht, hk⟩
  ok_withDepth depth := fun ⟨c, hc, hs⟩ => ⟨c, hc.withDepth depth, hs⟩
  error_withDepth depth := fun ⟨c, hc, hs⟩ => ⟨c, hc.withDepth depth, hs⟩
  eat_ok h := ⟨_, .eat h (.refl _), fun _ => (eat_eq_ok h).2.2⟩
  eat_error {kind s e s'} h := by
    rcases eat_cases kind s with ⟨-, h'⟩ | ⟨t, -, -, h'⟩ | ⟨_, _, _, h', -⟩ |
      ⟨t, e', s₁, rfl, h', hc, -, -, text, htext⟩ <;> rw [h'] at h <;> cases h
    · exact ⟨[], .refl _, fun hs => .inl hs, by simp⟩
    · exact ⟨[], .refl _, fun hs => .inl hs, by simp⟩
    · have ht := Session.lookahead_of_upcoming hc.upcoming
      exact ⟨[t], .fault ht h' (.refl _), fun _ => .inr (by rw [htext]; rfl), by simp [htext]⟩
  endOfInput _ _ := ⟨[], .refl _, .inl, nofun⟩
  misplaced _ _ := ⟨[], .refl _, .inl, nofun⟩
  tooDeep _ := ⟨[], .refl _, .inl, nofun⟩
  malformedNumber {s t s'} heat hn := by
    obtain ⟨hk, -, hs⟩ := eat_eq_ok heat
    exact ⟨[t], .eat heat (.refl _), fun _ => .inl hs,
      fun _ _ => ⟨t, List.mem_singleton_self t, hk, hn⟩⟩

/-- A parser that is built from combinators does nothing but consume tokens and count levels. -/
theorem Built.stepwise {p : Parser α} (h : Built p) : Stepwise p :=
  ⟨(h.keeps runConduct).ok, (h.keeps runConduct).error⟩

end Parser

end Scriptlet
