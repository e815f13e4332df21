import Scriptlet.Parser.Production
import Scriptlet.Proofs.Consumption

/-!
# The productions in a straight line

Some productions decide something and go on in the same way whatever was decided. Each of these is
shown here to be a plain sequence of parts, so that a proof about it goes through its parts from
first to last. Two of them deserve a word.

A list of statements asks before each line break whether it is at its end; since no list ends at a
line break, it may as well skip them without asking. And a sum, which takes a level with each
operator and gives all of them back at its end, is an operand followed by *terms*, where the first
term runs one level deeper together with all terms behind it. So levels are taken by `nested` alone.

All productions are orderly, and those that make up the steps of a loop consume a token whenever
they succeed.

## Main definitions

* `Parser.optionally`, `Grammar.terms`, `Grammar.member`: the parts that had no name.

## Main results

* `Grammar.additive_eq`, `Grammar.terms_of_isAt`: sums without counting;
* `Grammar.block_eq`, `Grammar.statementList_eq`, `Parser.program_apply`: lists of statements;
* the instances of `Parser.Orderly` and `Parser.Progressing` for the productions.
-/

namespace Scriptlet

namespace Parser

variable {α β : Type}

/-- In front of a token of the kind, accepting it is taking it. -/
theorem accept_bind_of_isAt {kind : Kind} {f : Bool → Parser β} {s : Session}
    (h : s.isAt kind = true) : (accept kind >>= f) s = (eat kind >>= fun _ => f true) s := by
  rw [accept, bind_assoc, get_bind, if_pos h, bind_assoc]
  rfl

theorem accept_bind_of_not_isAt {kind : Kind} {f : Bool → Parser β} {s : Session}
    (h : s.isAt kind = false) : (accept kind >>= f) s = f false s := by
  rw [accept, bind_assoc, get_bind, if_neg (by simp [h])]
  rfl

/-- What a kind of token announces, if it stands there. -/
def optionally (kind : Kind) (p : Parser α) : Parser (Option α) := do
  if ← accept kind then some <$> p else pure none

instance (kind : Kind) (p : Parser α) [Orderly p] : Orderly (optionally kind p) := by
  rw [optionally]
  infer_instance

/-- Going on in the same way after either branch is going on after both. -/
theorem ite_bind (c : Prop) [Decidable c] (p q : Parser α) (f : α → Parser β) :
    ((if c then p else q) >>= f) = if c then p >>= f else q >>= f := by
  split <;> rfl

end Parser

namespace Grammar

open Scriptlet.Parser

/-! ### Tokens and separators -/

theorem skipLineBreaks_of_not_isAt {s : Session} (h : s.isAt .lineBreak = false) :
    skipLineBreaks s = .ok () s := by
  rw [skipLineBreaks, discard_eq, bind_of_ok (repeatWhile_of_not h)]
  rfl

/-- Skipping a line break is taking it and skipping the others. -/
theorem skipLineBreaks_of_isAt {s : Session} (h : s.isAt .lineBreak = true) :
    skipLineBreaks s = (do let _ ← eat .lineBreak; skipLineBreaks : Parser Unit) s := by
  rw [skipLineBreaks, discard_eq, bind_apply, repeatWhile_of_test h, ← bind_apply]
  simp only [bind_assoc, pure_bind]

instance : Orderly skipLineBreaks := by
  rw [skipLineBreaks]
  infer_instance

instance : Orderly optionalComma := by
  rw [optionalComma]
  infer_instance

instance : Orderly identifier := by
  rw [identifier]
  infer_instance

instance : Progressing identifier := by
  rw [identifier]
  infer_instance

instance : Orderly endOfStatement := by
  rw [endOfStatement]
  have (s : Session) : Orderly (match s.kind? with
      | some .semicolon => discard (eat .semicolon)
      | some .closeCurly => pure ()
      | _ => discard (eat .lineBreak)) := by
    split <;> infer_instance
  infer_instance

/-- The end of a statement is a token, or a brace that is left. -/
theorem endOfStatement_cases (s : Session) :
    (s.kind? = some .semicolon ∧ endOfStatement s = discard (eat .semicolon) s) ∨
    (s.kind? = some .closeCurly ∧ endOfStatement s = .ok () s) ∨
    (s.kind? ≠ some .semicolon ∧ s.kind? ≠ some .closeCurly ∧
      endOfStatement s = discard (eat .lineBreak) s) := by
  cases h : s.kind? with
  | none => simp [endOfStatement, get_bind, h]
  | some kind =>
    cases kind <;> simp [endOfStatement, get_bind, h]
    rfl

/-! ### Lists -/

variable {α : Type}

instance (element : Parser α) [Orderly element] : Orderly (listOf element) := by
  rw [listOf]
  infer_instance

instance (property : Parser α) [Orderly property] : Orderly (bodyOf property) := by
  rw [bodyOf]
  infer_instance

/-! ### Parameters -/

/-- A property of a pattern as a sequence: a name, an optional other one, a comma. -/
theorem patternProperty_eq : patternProperty = (do
    let name ← identifier
    let rename ← optionally .colon identifier
    let s ← get
    optionalComma
    return ⟨name, rename, s.spanFrom name.span.start⟩ : Parser PatternProperty) := by
  simp only [patternProperty, optionally, bind_assoc, ite_bind]

instance : Orderly patternProperty := by
  rw [patternProperty_eq]
  infer_instance

instance : Progressing patternProperty := by
  rw [patternProperty_eq]
  infer_instance

instance : Orderly objectPattern := by
  rw [objectPattern]
  infer_instance

instance : Orderly parameter := by
  rw [parameter]
  infer_instance

instance : Progressing parameter := by
  rw [parameter, objectPattern, bodyOf]
  infer_instance

/-! ### Expressions -/

/-- The number that a token stands for. -/
def numberValue (t : Token) : Parser Expr :=
  match Binary64.ofLiteral? t.value with
  | some value => return .number value t.span
  | none => throw ⟨.malformedNumber t.value, t.span.start⟩

/-- A number. -/
def numberLiteral : Parser Expr := eat .number >>= numberValue

/-- A string. -/
def stringLiteral : Parser Expr := do
  let t ← eat .string
  return .string (String.ofList (Text.unescape (t.value.toList.drop 1).dropLast)) t.span

theorem literal_of_none {s : Session} (h : s.lookahead = none) :
    literal s = .error ⟨.endOfInput "an expression", s.lastEnd⟩ s := by
  simp only [literal, get_bind, h, fail, Session.position]

theorem literal_of_number {s : Session} {t : Token} (h : s.lookahead = some t)
    (hk : t.kind = .number) : literal s = numberLiteral s := by
  simp only [literal, get_bind, h, hk, if_true]
  rfl

theorem literal_of_string {s : Session} {t : Token} (h : s.lookahead = some t)
    (hk : t.kind = .string) : literal s = stringLiteral s := by
  simp only [literal, get_bind, h, hk, reduceCtorEq, if_false, if_true]
  rfl

/-- Everything that is neither a number nor a string is refused. -/
theorem literal_of_other {s : Session} {t : Token} (h : s.lookahead = some t)
    (hn : t.kind ≠ .number) (hs : t.kind ≠ .string) :
    literal s = .error ⟨.misplaced t.display "expected an expression", t.span.start⟩ s := by
  simp only [literal, get_bind, h, hn, hs, if_false, fail, Session.position]

instance (token : String) (position : Position) :
    Orderly (throw ⟨.malformedNumber token, position⟩ : Parser α) where
  ok h := by cases h
  error h := by cases h; exact ⟨[], .refl _, fun _ => trivial⟩

instance (t : Token) : Orderly (numberValue t) := by
  rw [numberValue]
  split <;> infer_instance

instance : Orderly numberLiteral := by
  rw [numberLiteral]
  infer_instance

instance : Progressing numberLiteral := by
  rw [numberLiteral]
  infer_instance

instance : Orderly stringLiteral := by
  rw [stringLiteral]
  infer_instance

instance : Progressing stringLiteral := by
  rw [stringLiteral]
  infer_instance

/-- A literal is a number or a string, or an error in front of what stands there instead. -/
theorem literal_cases (s : Session) :
    (s.lookahead = none ∧ literal s = .error ⟨.endOfInput "an expression", s.lastEnd⟩ s) ∨
    (∃ t, s.lookahead = some t ∧
      literal s = .error ⟨.misplaced t.display "expected an expression", t.span.start⟩ s) ∨
    (∃ t, s.lookahead = some t ∧ t.kind = .number ∧ literal s = numberLiteral s) ∨
    (∃ t, s.lookahead = some t ∧ t.kind = .string ∧ literal s = stringLiteral s) := by
  cases h : s.lookahead with
  | none => exact .inl ⟨rfl, literal_of_none h⟩
  | some t =>
    by_cases hn : t.kind = .number
    · exact .inr (.inr (.inl ⟨t, rfl, hn, literal_of_number h hn⟩))
    by_cases hs : t.kind = .string
    · exact .inr (.inr (.inr ⟨t, rfl, hs, literal_of_string h hs⟩))
    · exact .inr (.inl ⟨t, rfl, literal_of_other h hn hs⟩)

instance : Orderly literal where
  ok {s _ _} h := by
    rcases literal_cases s with ⟨-, h'⟩ | ⟨_, -, h'⟩ | ⟨_, -, -, h'⟩ | ⟨_, -, -, h'⟩ <;>
      rw [h'] at h
    · cases h
    · cases h
    · exact Orderly.ok h
    · exact Orderly.ok h
  error {s _ _} h := by
    rcases literal_cases s with ⟨hl, h'⟩ | ⟨t, hl, h'⟩ | ⟨_, -, -, h'⟩ | ⟨_, -, -, h'⟩ <;>
      rw [h'] at h
    · cases h
      have hu := Session.lookahead_eq_none_iff.1 hl
      exact ⟨[], .refl _, fun hs => ⟨hu, hs hu, rfl⟩⟩
    · cases h
      exact ⟨[], .refl _, fun _ => ⟨t, hl, rfl, rfl⟩⟩
    · exact Orderly.error h
    · exact Orderly.error h

instance : Progressing literal where
  lt {s _ _} h := by
    rcases literal_cases s with ⟨-, h'⟩ | ⟨_, -, h'⟩ | ⟨_, -, -, h'⟩ | ⟨_, -, -, h'⟩ <;>
      rw [h'] at h
    · cases h
    · cases h
    · exact Progressing.lt h
    · exact Progressing.lt h

instance (expression : Parser Expr) [Orderly expression] : Orderly (parenthesized expression) := by
  rw [parenthesized]
  infer_instance

instance (expression : Parser Expr) [Orderly expression] :
    Progressing (parenthesized expression) := by
  rw [parenthesized]
  infer_instance

instance (argument : Parser Expr) [Orderly argument] : Orderly (callable argument) := by
  rw [callable]
  infer_instance

instance (argument : Parser Expr) [Orderly argument] : Progressing (callable argument) := by
  rw [callable]
  infer_instance

instance (operand : Parser Expr) [Orderly operand] : Orderly (spread operand) := by
  rw [spread]
  infer_instance

instance (operand : Parser Expr) [Orderly operand] : Progressing (spread operand) := by
  rw [spread]
  infer_instance

instance : Orderly propertyKey := by
  rw [propertyKey]
  infer_instance

instance : Progressing propertyKey := by
  rw [propertyKey]
  infer_instance

/-- A property of an object without its comma. -/
def member (spreadProperty value : Parser Expr) : Parser Property := do
  let s ← get
  if s.isAt .spread then
    let e ← spreadProperty
    return .spread e ((← get).spanFrom s.position)
  else
    let key ← propertyKey
    let e? ← optionally .colon value
    let s' ← get
    return match e? with
      | some e => .keyValue key e (s'.spanFrom s.position)
      | none => .shorthand key (s'.spanFrom s.position)

/-- A property is an entry and the comma behind it. -/
theorem property_eq (spreadProperty value : Parser Expr) :
    property spreadProperty value = (do
      let p ← member spreadProperty value
      optionalComma
      return p : Parser Property) := by
  simp only [property, member, optionally, bind_assoc, ite_bind, pure_bind, map_eq_pure_bind]
  rfl

section Expressions

variable (expression sum operand value : Parser Expr)

instance [Orderly operand] [Orderly value] : Orderly (member operand value) := by
  rw [member]
  infer_instance

instance [Progressing operand] [Orderly operand] [Orderly value] :
    Progressing (member operand value) := by
  rw [member]
  infer_instance

instance [Orderly operand] [Orderly value] : Orderly (property operand value) := by
  rw [property_eq]
  infer_instance

instance [Progressing operand] [Orderly operand] [Orderly value] :
    Progressing (property operand value) := by
  rw [property_eq]
  infer_instance

instance [Orderly operand] [Orderly value] : Orderly (object operand value) := by
  rw [object]
  infer_instance

/-- An operator and the operand behind it. -/
def term : Parser (Token × Expr) := do
  let operator ← eat .additiveOperator
  let right ← operand
  return (operator, right)

instance [Orderly operand] : Orderly (term operand) := by
  rw [term]
  infer_instance

instance [Orderly operand] : Progressing (term operand) := by
  rw [term]
  infer_instance

/-- Operators with their operands, each of which takes a level and keeps it. -/
def termLoop : Parser (List (Token × Expr)) :=
  repeatWhile (·.isAt .additiveOperator) (deepen >>= fun _ => term operand)

/-- Operators with their operands, each of which takes a level; all are given back at the end. -/
def terms : Parser (List (Token × Expr)) := levelled (termLoop operand)

/-- Taking a level either fails at once or leaves all the rest as it was. -/
theorem deepen_bind_cases (p : Parser α) (s : Session) :
    (s.budget = 0 ∧
      (deepen >>= fun _ => p) s = .error ⟨.tooDeep s.maxDepth, s.position⟩ s) ∨
    (0 < s.budget ∧ (deepen >>= fun _ => p) s = p (s.withDepth (s.depth + 1))) := by
  -- Whether a level is left is a question of the two counters only.
  by_cases h : s.maxDepth ≤ s.depth
  · have hdeep : deepen s = .error ⟨.tooDeep s.maxDepth, s.position⟩ s := by
      rw [deepen, if_pos h, overLimit_apply]
    exact .inl ⟨by rw [Session.budget]; omega, bind_of_error hdeep⟩
  · have hdeep : deepen s = .ok () (s.withDepth (s.depth + 1)) := by rw [deepen, if_neg h]
    exact .inr ⟨by rw [Session.budget]; omega, bind_of_ok hdeep⟩

instance (p : Parser α) [Progressing p] : Progressing (deepen >>= fun _ => p) where
  lt {s a s'} h := by
    rcases deepen_bind_cases p s with ⟨-, h'⟩ | ⟨-, h'⟩ <;> rw [h'] at h
    · cases h
    · have hlt := Progressing.lt h
      exact hlt

theorem withDepth_depth (s : Session) : s.withDepth s.depth = s := rfl

/-- The levels that were kept are given back. -/
theorem levelled_of_ok {p : Parser α} {s s' : Session} {a : α} (h : p s = .ok a s') :
    levelled p s = .ok a (s'.withDepth s.depth) := by
  rw [levelled, leaving, h]

theorem levelled_of_error {p : Parser α} {s s' : Session} {e : Error} (h : p s = .error e s') :
    levelled p s = .error e (s'.withDepth s.depth) := by
  rw [levelled, leaving, h]

/-- A sum is an operand and its terms, which give back the levels that they take. -/
theorem additive_eq [Orderly operand] : additive operand = (do
    let first ← operand
    let more ← terms operand
    return more.foldl joinLeft first : Parser Expr) := by
  funext s
  -- Both sides are compared run by run; only the last place where levels are given back differs.
  cases hop : operand s with
  | error e s₁ =>
    obtain ⟨c, hc, -⟩ := Orderly.error hop
    rw [additive, levelled_of_error (bind_of_error hop), bind_of_error hop, ← hc.depth,
      withDepth_depth]
  | ok first s₁ =>
    obtain ⟨c, hc, -⟩ := Orderly.ok hop
    rw [bind_of_ok hop, terms]
    -- The operand has given back its levels, so the terms start at the level of the sum.
    cases hloop : termLoop operand s₁ with
    | error e s₂ =>
      rw [bind_of_error (levelled_of_error hloop), hc.depth]
      refine levelled_of_error ?_
      rw [bind_of_ok hop]
      exact bind_of_error hloop
    | ok more s₂ =>
      rw [bind_of_ok (levelled_of_ok hloop), hc.depth]
      refine levelled_of_ok ?_
      rw [bind_of_ok hop]
      exact bind_of_ok hloop

/-- Without an operator there are no terms. -/
theorem terms_of_not_isAt {s : Session} (h : s.isAt .additiveOperator = false) :
    terms operand s = .ok [] s := by
  have hloop : termLoop operand s = .ok [] s := repeatWhile_of_not h
  rw [terms, levelled_of_ok hloop, withDepth_depth]

/-- The loop takes a level for its first term, and goes on. -/
theorem termLoop_of_isAt [Orderly operand] {s : Session} (h : s.isAt .additiveOperator = true) :
    termLoop operand s = (do
      deepen
      let part ← term operand
      let more ← termLoop operand
      return part :: more : Parser _) s := by
  rw [termLoop, repeatWhile_of_test h, bind_assoc]

/-- The first term runs one level deeper, together with all terms behind it. -/
theorem terms_of_isAt [Orderly operand] {s : Session} (h : s.isAt .additiveOperator = true) :
    terms operand s = nested (do
      let part ← term operand
      let more ← terms operand
      return part :: more) s := by
  -- Both sides take the level, run the first term and the terms behind it, and end at the depth of
  -- `s`; they differ in when the levels of the terms behind are given back.
  have hstart := termLoop_of_isAt operand h
  rcases deepen_bind_cases (term operand >>= fun part =>
    termLoop operand >>= fun more => pure (part :: more)) s with ⟨h0, h'⟩ | ⟨hpos, h'⟩ <;>
    rw [h'] at hstart
  · rw [nested_of_budget_eq_zero h0, overLimit_apply, terms, levelled_of_error hstart,
      withDepth_depth]
  · rw [nested_of_budget_pos hpos, leaving, terms]
    cases hterm : term operand (s.withDepth (s.depth + 1)) with
    | error e s₁ =>
      obtain ⟨c, hc, -⟩ := Orderly.error hterm
      have hd : s₁.depth = s.depth + 1 := hc.depth
      rw [bind_of_error hterm] at hstart
      rw [bind_of_error hterm, levelled_of_error hstart]
      simp [hd]
    | ok part s₁ =>
      obtain ⟨c, hc, -⟩ := Orderly.ok hterm
      have hd : s₁.depth = s.depth + 1 := hc.depth
      rw [bind_of_ok hterm] at hstart
      rw [bind_of_ok hterm]
      cases hloop : termLoop operand s₁ with
      | error e s₂ =>
        rw [bind_of_error hloop] at hstart
        rw [bind_of_error (levelled_of_error hloop), levelled_of_error hstart]
        simp [hd, Session.withDepth]
      | ok more s₂ =>
        rw [bind_of_ok hloop] at hstart
        rw [bind_of_ok (levelled_of_ok hloop), levelled_of_ok hstart]
        simp [hd, Session.withDepth, pure, EStateM.pure]

/-- On success the loop has consumed its terms, and kept a level for each. -/
theorem termLoop_eq_ok [Orderly operand] {s s' : Session} {more : List (Token × Expr)}
    (h : termLoop operand s = .ok more s') :
    ∃ c, Consumes s c (s'.withDepth s.depth) ∧ (s.Settled → s'.Settled) := by
  rw [termLoop] at h
  -- The induction follows the loop; a step that takes no token does not occur.
  fun_induction repeatWhile (·.isAt .additiveOperator) (deepen >>= fun _ => term operand) s
    generalizing more s' with
  | case1 => cases h
  | case2 => cases h
  | case3 s _ part s₁ hstep _ parts s₂ hloop ih =>
    cases h
    rcases deepen_bind_cases (term operand) s with ⟨-, h'⟩ | ⟨-, h'⟩ <;> rw [h'] at hstep
    · cases hstep
    · obtain ⟨c, hc, hs⟩ := Orderly.ok hstep
      obtain ⟨d, hd, hs'⟩ := ih hloop
      exact ⟨c ++ d, hc.ofDepth.trans (hd.withDepth s.depth), hs' ∘ hs⟩
  | case4 s _ part s₁ hstep hlt => exact absurd (Progressing.lt hstep) hlt
  | case5 => cases h; exact ⟨[], .refl _, id⟩

/-- On failure too the loop differs in its levels only from a run that consumes tokens. -/
theorem termLoop_eq_error [Orderly operand] {s s' : Session} {e : Error}
    (h : termLoop operand s = .error e s') :
    ∃ c, Consumes s c (s'.withDepth s.depth) ∧ (s.Settled → Blames e s') := by
  rw [termLoop] at h
  fun_induction repeatWhile (·.isAt .additiveOperator) (deepen >>= fun _ => term operand) s
    generalizing s' with
  | case1 s _ e s₁ hstep =>
    cases h
    rcases deepen_bind_cases (term operand) s with ⟨-, h'⟩ | ⟨-, h'⟩ <;> rw [h'] at hstep
    · cases hstep
      exact ⟨[], .refl _, fun _ => ⟨rfl, rfl⟩⟩
    · obtain ⟨c, hc, hs⟩ := Orderly.error hstep
      exact ⟨c, hc.ofDepth, hs⟩
  | case2 s _ part s₁ hstep _ e s₂ hloop ih =>
    cases h
    rcases deepen_bind_cases (term operand) s with ⟨-, h'⟩ | ⟨-, h'⟩ <;> rw [h'] at hstep
    · cases hstep
    · obtain ⟨c, hc, hs⟩ := Orderly.ok hstep
      obtain ⟨d, hd, hs'⟩ := ih hloop
      exact ⟨c ++ d, hc.ofDepth.trans (hd.withDepth s.depth), hs' ∘ hs⟩
  | case3 => cases h
  | case4 => cases h
  | case5 => cases h

instance [Orderly operand] : Orderly (terms operand) where
  ok {s more s'} h := by
    cases hloop : termLoop operand s with
    | ok more s₁ =>
      rw [terms, levelled_of_ok hloop] at h
      cases h
      exact termLoop_eq_ok operand hloop
    | error e s₁ => rw [terms, levelled_of_error hloop] at h; cases h
  error {s e s'} h := by
    cases hloop : termLoop operand s with
    | ok more s₁ => rw [terms, levelled_of_ok hloop] at h; cases h
    | error e s₁ =>
      rw [terms, levelled_of_error hloop] at h
      cases h
      exact termLoop_eq_error operand hloop

instance [Orderly operand] : Orderly (additive operand) := by
  rw [additive_eq]
  infer_instance

instance [Orderly operand] [Progressing operand] : Progressing (additive operand) := by
  rw [additive_eq]
  infer_instance

/-- What may stand behind the left side of an assignment. -/
def assigned (left : Expr) : Parser Expr := do
  match (← get).kind? with
  | some kind =>
    if kind.isAssignment then
      let operator ← eat kind
      let right ← value
      return .assignment left operator right ⟨left.span.start, right.span.stop⟩
    else return left
  | none => return left

theorem assignmentOf_eq : assignmentOf operand value = operand >>= assigned value := rfl

/-- An assignment operator and the value assigned, or nothing. -/
theorem assigned_cases (left : Expr) (s : Session) :
    (∃ kind, s.kind? = some kind ∧ kind.isAssignment = true ∧ assigned value left s = (do
      let operator ← eat kind
      let right ← value
      return .assignment left operator right ⟨left.span.start, right.span.stop⟩ : Parser Expr) s) ∨
    ((∀ kind, s.kind? = some kind → kind.isAssignment = false) ∧
      assigned value left s = .ok left s) := by
  cases h : s.kind? with
  | none =>
    refine .inr ⟨by simp, ?_⟩
    rw [assigned, get_bind, h]
    rfl
  | some kind =>
    cases hk : kind.isAssignment with
    | true =>
      refine .inl ⟨kind, rfl, hk, ?_⟩
      rw [assigned, get_bind, h]
      exact congrFun (if_pos hk) s
    | false =>
      refine .inr ⟨by simp [hk], ?_⟩
      rw [assigned, get_bind, h]
      exact congrFun (if_neg (by simp [hk])) s

instance (left : Expr) [Orderly value] : Orderly (assigned value left) where
  ok {s _ _} h := by
    rcases assigned_cases value left s with ⟨kind, -, -, h'⟩ | ⟨-, h'⟩ <;> rw [h'] at h
    · exact Orderly.ok h
    · cases h
      exact ⟨[], .refl _, id⟩
  error {s _ _} h := by
    rcases assigned_cases value left s with ⟨kind, -, -, h'⟩ | ⟨-, h'⟩ <;> rw [h'] at h
    · exact Orderly.error h
    · cases h

instance [Orderly operand] [Orderly value] : Orderly (assignmentOf operand value) := by
  rw [assignmentOf_eq]
  infer_instance

instance [Orderly operand] [Orderly value] [Progressing operand] :
    Progressing (assignmentOf operand value) := by
  rw [assignmentOf_eq]
  infer_instance

/-- The first token selects an expression without operators. -/
theorem primaryOf_of_kind? {s : Session} {kind? : Option Kind} : s.kind? = kind? →
    primaryOf expression sum operand s = (match kind? with
      | some .openParen => parenthesized expression
      | some .openCurly => object operand sum
      | some .identifier => callable sum
      | some .spread => spread sum
      | _ => literal : Parser Expr) s := by
  rintro rfl
  rfl

/-- The production that a first token selects. -/
theorem primaryOf_cases (s : Session) :
    (s.kind? = some .openParen ∧ primaryOf expression sum operand s = parenthesized expression s) ∨
    (s.kind? = some .openCurly ∧ primaryOf expression sum operand s = object operand sum s) ∨
    (s.kind? = some .identifier ∧ primaryOf expression sum operand s = callable sum s) ∨
    (s.kind? = some .spread ∧ primaryOf expression sum operand s = spread sum s) ∨
    (primaryOf expression sum operand s = literal s) := by
  cases h : s.kind? with
  | none => simp [primaryOf, get_bind, h]
  | some kind => cases kind <;> simp [primaryOf, get_bind, h]

instance [Orderly expression] [Orderly sum] [Orderly operand] :
    Orderly (primaryOf expression sum operand) := by
  have (s : Session) : Orderly (match s.kind? with
      | some .openParen => parenthesized expression
      | some .openCurly => object operand sum
      | some .identifier => callable sum
      | some .spread => spread sum
      | _ => literal : Parser Expr) := by
    split <;> infer_instance
  rw [primaryOf]
  infer_instance

instance [Orderly operand] [Orderly value] : Progressing (object operand value) := by
  rw [object, bodyOf]
  infer_instance

instance [Orderly expression] [Orderly sum] [Orderly operand] :
    Progressing (primaryOf expression sum operand) := by
  have (s : Session) : Progressing (match s.kind? with
      | some .openParen => parenthesized expression
      | some .openCurly => object operand sum
      | some .identifier => callable sum
      | some .spread => spread sum
      | _ => literal : Parser Expr) := by
    split <;> infer_instance
  rw [primaryOf]
  infer_instance

end Expressions

theorem assignment_zero : assignment 0 = overLimit := by
  funext s
  rw [assignment]

theorem assignment_succ (b : Nat) :
    assignment (b + 1) = nested (assignmentOf (additive (primary b)) (assignment b)) := by
  funext s
  rw [assignment]

theorem primary_zero : primary 0 = overLimit := by
  funext s
  rw [primary]

theorem primary_succ (b : Nat) :
    primary (b + 1) =
      nested (primaryOf (assignment b) (additive (primary b)) (primary b)) := by
  funext s
  rw [primary]

/-- Expressions are orderly and take a token, with any number of levels to go. -/
theorem orderly_expressions (b : Nat) :
    (Orderly (assignment b) ∧ Progressing (assignment b)) ∧
      Orderly (primary b) ∧ Progressing (primary b) := by
  induction b with
  | zero =>
    rw [assignment_zero, primary_zero]
    exact ⟨⟨inferInstance, inferInstance⟩, inferInstance, inferInstance⟩
  | succ b ih =>
    obtain ⟨⟨_, _⟩, _, _⟩ := ih
    rw [assignment_succ, primary_succ]
    exact ⟨⟨inferInstance, inferInstance⟩, inferInstance, inferInstance⟩

instance (b : Nat) : Orderly (assignment b) := (orderly_expressions b).1.1

instance (b : Nat) : Progressing (assignment b) := (orderly_expressions b).1.2

instance (b : Nat) : Orderly (primary b) := (orderly_expressions b).2.1

instance (b : Nat) : Progressing (primary b) := (orderly_expressions b).2.2

/-! ### Statements -/

section Statements

variable (statement : Parser Stmt) (expression sum value : Parser Expr)

/-- A list does not end in front of a line break. -/
theorem isAt_lineBreak_of_atStop {stop : Option Kind} (hstop : stop ≠ some .lineBreak)
    {s : Session} (h : atStop stop s = true) : s.isAt .lineBreak = false := by
  simp only [atStop, Bool.or_eq_true, decide_eq_true_eq] at h
  rw [Session.isAt, decide_eq_false_iff_not]
  rcases h with h | h <;> rw [h]
  · simp
  · exact hstop

/-- A list that does not end at a line break may skip line breaks without looking for its end. -/
theorem statementList_eq {stop : Option Kind} (hstop : stop ≠ some .lineBreak) :
    statementList statement stop = (do
      skipLineBreaks
      repeatWhile (fun s => !atStop stop s) do
        let a ← statement
        skipLineBreaks
        return a : Parser (List Stmt)) := by
  have hstep : (fun a : Stmt => (do
      let s ← get
      if atStop stop s then pure a
      else do
        let _ ← skipLineBreaks
        pure a : Parser Stmt)) = fun a => (do skipLineBreaks; return a : Parser Stmt) := by
    funext a s
    rw [get_bind]
    split
    · rename_i h
      rw [bind_of_ok (skipLineBreaks_of_not_isAt (isAt_lineBreak_of_atStop hstop h))]
    · rfl
  rw [statementList]
  rw [show (do
      let a ← statement
      let s ← get
      if atStop stop s then pure a
      else do
        let _ ← skipLineBreaks
        pure a : Parser Stmt) = statement >>= fun a => (do skipLineBreaks; return a) from
    congrArg (statement >>= ·) hstep]

/-- At its end a list of statements is empty. -/
theorem statementList_of_atStop {stop : Option Kind} (hstop : stop ≠ some .lineBreak) {s : Session}
    (h : atStop stop s = true) : statementList statement stop s = .ok [] s := by
  rw [statementList, bind_of_ok (skipLineBreaks_of_not_isAt (isAt_lineBreak_of_atStop hstop h))]
  exact repeatWhile_of_not (by simp [h])

/-- A block is a list of statements between braces, whether it is empty or not. -/
theorem block_eq : block statement = (do
    let opening ← eat .openCurly
    let body ← statementList statement (some .closeCurly)
    let _ ← eat .closeCurly
    return ⟨body, (← get).spanFrom opening.span.start⟩ : Parser Block) := by
  rw [block]
  congr 1
  funext opening s
  rw [get_bind]
  split
  · rename_i h
    have hstop : atStop (some .closeCurly) s = true := by
      rw [Session.isAt] at h
      rw [atStop, h, Bool.or_true]
    rw [bind_of_ok (statementList_of_atStop statement (by simp) hstop)]
    rfl
  · rfl

instance (stop : Option Kind) [Orderly statement] : Orderly (statementList statement stop) := by
  rw [statementList]
  infer_instance

instance : Orderly emptyStatement := by
  rw [emptyStatement]
  infer_instance

instance : Progressing emptyStatement := by
  rw [emptyStatement]
  infer_instance

instance [Orderly statement] : Orderly (block statement) := by
  rw [block_eq]
  infer_instance

instance [Orderly statement] : Progressing (block statement) := by
  rw [block_eq]
  infer_instance

/-- A declarator is a name and an optional value. -/
theorem declarator_eq : declarator value = (do
    let name ← identifier
    let init ← optionally .simpleAssignment value
    return ⟨name, init, (← get).spanFrom name.span.start⟩ : Parser Declarator) := by
  simp only [declarator, optionally, bind_assoc, ite_bind]

instance [Orderly value] : Orderly (declarator value) := by
  rw [declarator_eq]
  infer_instance

instance [Orderly value] : Progressing (declarator value) := by
  rw [declarator_eq]
  infer_instance

/-- A comma, and a declarator on the same line or a later one. -/
def nextDeclarator : Parser Declarator := do
  let _ ← eat .comma
  skipLineBreaks
  declarator value

instance [Orderly value] : Orderly (nextDeclarator value) := by
  rw [nextDeclarator]
  infer_instance

instance [Orderly value] : Progressing (nextDeclarator value) := by
  rw [nextDeclarator]
  infer_instance

/-- A declaration behind the choice of its word. -/
def declarationOf (kind : DeclarationKind) (word : Kind) : Parser Stmt := do
  let opening ← eat word
  let first ← declarator value
  let more ← repeatWhile (·.isAt .comma) (nextDeclarator value)
  let s ← get
  endOfStatement
  return .declaration kind (first :: more) (s.spanFrom opening.span.start)

theorem declaration_eq : declaration value = (do
    let s ← get
    declarationOf value (declarationWord s.kind?).1 (declarationWord s.kind?).2 :
      Parser Stmt) := rfl

theorem declaration_apply (s : Session) :
    declaration value s =
      declarationOf value (declarationWord s.kind?).1 (declarationWord s.kind?).2 s := rfl

theorem declaration_of_kind? {s : Session} {kind? : Option Kind} (h : s.kind? = kind?) :
    declaration value s =
      declarationOf value (declarationWord kind?).1 (declarationWord kind?).2 s := by
  rw [← h]
  rfl

instance (kind : DeclarationKind) (word : Kind) [Orderly value] :
    Orderly (declarationOf value kind word) := by
  rw [declarationOf]
  infer_instance

instance (kind : DeclarationKind) (word : Kind) [Orderly value] :
    Progressing (declarationOf value kind word) := by
  rw [declarationOf]
  infer_instance

instance [Orderly value] : Orderly (declaration value) where
  ok h := by rw [declaration_apply] at h; exact Orderly.ok h
  error h := by rw [declaration_apply] at h; exact Orderly.error h

instance [Orderly value] : Progressing (declaration value) where
  lt h := by rw [declaration_apply] at h; exact Progressing.lt h

instance [Orderly value] : Orderly (resultStatement value) := by
  rw [resultStatement]
  infer_instance

instance [Orderly value] : Progressing (resultStatement value) := by
  rw [resultStatement]
  infer_instance

/-- In front of a function body there is a brace, or an error. -/
theorem expectBody_cases (s : Session) :
    (s.lookahead = none ∧
      expectBody s = .error ⟨.endOfInput Kind.openCurly.describe, s.lastEnd⟩ s) ∨
    (∃ t, s.lookahead = some t ∧ t.kind ≠ .openCurly ∧
      expectBody s = .error ⟨.misplaced t.display
        ("expected " ++ Kind.openCurly.describe ++ " to open the function body"), t.span.start⟩ s) ∨
    (s.kind? = some .openCurly ∧ expectBody s = .ok () s) := by
  cases h : s.lookahead with
  | none => exact .inl ⟨rfl, by simp only [expectBody, get_bind, h, fail, Session.position]⟩
  | some t =>
    refine .inr ?_
    by_cases hk : t.kind = .openCurly
    · refine .inr ⟨by simp [Session.kind?, h, hk], ?_⟩
      simp only [expectBody, get_bind, h, hk, if_true]
      rfl
    · refine .inl ⟨t, rfl, hk, ?_⟩
      simp only [expectBody, get_bind, h, hk, if_false, fail, Session.position]

instance : Orderly expectBody where
  ok {s _ _} h := by
    rcases expectBody_cases s with ⟨-, h'⟩ | ⟨_, -, -, h'⟩ | ⟨-, h'⟩ <;> rw [h'] at h <;> cases h
    exact ⟨[], .refl _, id⟩
  error {s _ _} h := by
    rcases expectBody_cases s with ⟨hl, h'⟩ | ⟨t, hl, -, h'⟩ | ⟨-, h'⟩ <;> rw [h'] at h <;> cases h
    · have hu := Session.lookahead_eq_none_iff.1 hl
      exact ⟨[], .refl _, fun hs => ⟨hu, hs hu, rfl⟩⟩
    · exact ⟨[], .refl _, fun _ => ⟨t, hl, rfl, rfl⟩⟩

instance [Orderly statement] : Orderly (function statement) := by
  rw [function]
  infer_instance

instance [Orderly statement] : Progressing (function statement) := by
  rw [function]
  infer_instance

instance [Orderly expression] : Orderly (expressionStatement expression) := by
  rw [expressionStatement]
  infer_instance

instance [Orderly expression] [Progressing expression] :
    Progressing (expressionStatement expression) := by
  rw [expressionStatement]
  infer_instance

/-- A statement, and the mark of its end. -/
def ended (p : Parser Stmt) : Parser Stmt := do
  let a ← p
  endOfStatement
  return a

instance (p : Parser Stmt) [Orderly p] : Orderly (ended p) := by
  rw [ended]
  infer_instance

/-- A declaration up to the mark of its end. -/
def openDeclaration (kind : DeclarationKind) (word : Kind) : Parser Stmt := do
  let opening ← eat word
  let first ← declarator value
  let more ← repeatWhile (·.isAt .comma) (nextDeclarator value)
  return .declaration kind (first :: more) ((← get).spanFrom opening.span.start)

/-- A declaration is its open part and the mark of its end. -/
theorem declarationOf_eq (kind : DeclarationKind) (word : Kind) :
    declarationOf value kind word = ended (openDeclaration value kind word) := by
  simp only [declarationOf, ended, openDeclaration, bind_assoc, pure_bind]

instance (kind : DeclarationKind) (word : Kind) [Orderly value] :
    Orderly (openDeclaration value kind word) := by
  rw [openDeclaration]
  infer_instance

/-- The result of a function up to the mark of its end. -/
def openResult : Parser Stmt := do
  let opening ← eat .returnWord
  let e ← value
  return .result e ((← get).spanFrom opening.span.start)

theorem resultStatement_eq : resultStatement value = ended (openResult value) := by
  simp only [resultStatement, ended, openResult, bind_assoc, pure_bind]

instance [Orderly value] : Orderly (openResult value) := by
  rw [openResult]
  infer_instance

/-- An expression as a statement, up to the mark of its end. -/
def openExpression : Parser Stmt := do
  let e ← expression
  return .expression e e.span

theorem expressionStatement_eq :
    expressionStatement expression = ended (openExpression expression) := by
  simp only [expressionStatement, ended, openExpression, bind_assoc, pure_bind]

instance [Orderly expression] : Orderly (openExpression expression) := by
  rw [openExpression]
  infer_instance

/-- A block as a statement. -/
def blockStatement : Parser Stmt := do
  let b ← block statement
  return .block b.body b.span

instance [Orderly statement] : Orderly (blockStatement statement) := by
  rw [blockStatement]
  infer_instance

instance [Orderly statement] : Progressing (blockStatement statement) := by
  rw [blockStatement]
  infer_instance

/-- The first token selects a statement. -/
theorem statementOf_of_kind? {s : Session} {kind? : Option Kind} : s.kind? = kind? →
    statementOf statement expression sum s = (match kind? with
      | some .semicolon => emptyStatement
      | some .openCurly => blockStatement statement
      | some .letWord | some .varWord | some .constWord => declaration expression
      | some .returnWord => resultStatement sum
      | some .functionWord => function statement
      | _ => expressionStatement expression : Parser Stmt) s := by
  rintro rfl
  rfl

/-- The production that a first token selects. -/
theorem statementOf_cases (s : Session) :
    (s.kind? = some .semicolon ∧ statementOf statement expression sum s = emptyStatement s) ∨
    (s.kind? = some .openCurly ∧
      statementOf statement expression sum s = blockStatement statement s) ∨
    (∃ kind word, declarationWord s.kind? = (kind, word) ∧ s.kind? = some word ∧
      statementOf statement expression sum s = declarationOf expression kind word s) ∨
    (s.kind? = some .returnWord ∧
      statementOf statement expression sum s = resultStatement sum s) ∨
    (s.kind? = some .functionWord ∧
      statementOf statement expression sum s = function statement s) ∨
    (s.kind? ≠ some .openCurly ∧
      statementOf statement expression sum s = expressionStatement expression s) := by
  have hs := fun {kind? : Option Kind} (h : s.kind? = kind?) =>
    statementOf_of_kind? statement expression sum h
  have hd := fun {kind? : Option Kind} (h : s.kind? = kind?) => declaration_of_kind? expression h
  cases h : s.kind? with
  | none => exact .inr (.inr (.inr (.inr (.inr ⟨by simp, hs h⟩))))
  | some kind =>
    cases kind with
    | semicolon => exact .inl ⟨rfl, hs h⟩
    | openCurly => exact .inr (.inl ⟨rfl, hs h⟩)
    | letWord | varWord | constWord =>
      exact .inr (.inr (.inl ⟨_, _, rfl, rfl, (hs h).trans (hd h)⟩))
    | returnWord => exact .inr (.inr (.inr (.inl ⟨rfl, hs h⟩)))
    | functionWord => exact .inr (.inr (.inr (.inr (.inl ⟨rfl, hs h⟩))))
    | _ => exact .inr (.inr (.inr (.inr (.inr ⟨by simp, hs h⟩))))

instance [Orderly statement] [Orderly expression] [Orderly sum] :
    Orderly (statementOf statement expression sum) where
  ok {s _ _} h := by
    rcases statementOf_cases statement expression sum s with ⟨-, h'⟩ | ⟨-, h'⟩ |
      ⟨_, _, -, -, h'⟩ | ⟨-, h'⟩ | ⟨-, h'⟩ | ⟨-, h'⟩ <;> rw [h'] at h <;> exact Orderly.ok h
  error {s _ _} h := by
    rcases statementOf_cases statement expression sum s with ⟨-, h'⟩ | ⟨-, h'⟩ |
      ⟨_, _, -, -, h'⟩ | ⟨-, h'⟩ | ⟨-, h'⟩ | ⟨-, h'⟩ <;> rw [h'] at h <;> exact Orderly.error h

instance [Orderly statement] [Orderly expression] [Progressing expression] [Orderly sum] :
    Progressing (statementOf statement expression sum) where
  lt {s _ _} h := by
    rcases statementOf_cases statement expression sum s with ⟨-, h'⟩ | ⟨-, h'⟩ |
      ⟨_, _, -, -, h'⟩ | ⟨-, h'⟩ | ⟨-, h'⟩ | ⟨-, h'⟩ <;> rw [h'] at h <;> exact Progressing.lt h

end Statements

theorem statement_zero : statement 0 = overLimit := by
  funext s
  rw [statement]

theorem statement_succ (b : Nat) :
    statement (b + 1) =
      nested (statementOf (statement b) (assignment b) (additive (primary b))) := by
  funext s
  rw [statement]

/-- Statements are orderly and take a token, with any number of levels to go. -/
theorem orderly_statement (b : Nat) : Orderly (statement b) ∧ Progressing (statement b) := by
  induction b with
  | zero =>
    rw [statement_zero]
    exact ⟨inferInstance, inferInstance⟩
  | succ b ih =>
    obtain ⟨_, _⟩ := ih
    rw [statement_succ]
    exact ⟨inferInstance, inferInstance⟩

instance (b : Nat) : Orderly (statement b) := (orderly_statement b).1

instance (b : Nat) : Progressing (statement b) := (orderly_statement b).2

end Grammar

namespace Parser

/-! ### Programs -/

/-- A program is a list of statements up to the end, whether there are tokens or not. -/
theorem program_apply (s : Session) : program s = (do
    let body ← Grammar.statementList (Grammar.statement s.budget) none
    return ⟨body, (← get).spanFrom (.of s.file 0)⟩ : Parser Program) s := by
  rw [program, get_bind, get_bind]
  split
  · rfl
  · rename_i h
    have hnone : s.lookahead = none := by simpa [Session.hasTokens] using h
    have hstop : Grammar.atStop none s = true := by simp [Grammar.atStop, Session.kind?, hnone]
    rw [bind_of_ok (Grammar.statementList_of_atStop _ (by simp) hstop)]
    rfl

end Parser

end Scriptlet
