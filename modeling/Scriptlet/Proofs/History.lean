import Scriptlet.Proofs.Opening
import Scriptlet.Proofs.Steps

/-!
# Histories of a session

A session is used for one thing after the other: it is given sources, single tokens are taken from
it, levels are taken and set, and productions are run on it from wherever the last failure left it.
Each of these is a *request*, and a list of requests is a *history*. What is to be known of every
session that can come about is proved of all histories.

## Main definitions

* `Production`: the parsers that are run on a session from outside;
* `Request`, `Session.after`: histories.

## Main results

* `Production.orderly`, `Production.built`: what holds of all productions;
* `Parser.final_parse_cases`: what reading a source leaves;
* `Session.readable_after`: the numbers that come have values after any history.
-/

namespace Scriptlet

open Scriptlet.Parser

/-! ### Productions -/

/-- The parsers that are run on a session from outside, and the same parsers a level deeper. Among
them are the lists of elements that take a token whenever they succeed; a list of anything else,
which could be repeated without end, is not. -/
inductive Production : {α : Type} → Parser α → Prop
  | program : Production Parser.program
  | statementList (stop : Option Kind) : Production (Parser.statementList stop)
  | skipLineBreaks : Production Parser.skipLineBreaks
  | endOfStatement : Production Parser.endOfStatement
  | statement : Production Parser.statement
  | emptyStatement : Production Parser.emptyStatement
  | block : Production Parser.block
  | declaration : Production Parser.declaration
  | resultStatement : Production Parser.resultStatement
  | function : Production Parser.function
  | expressionStatement : Production Parser.expressionStatement
  | expression : Production Parser.expression
  | assignment : Production Parser.assignment
  | additive : Production Parser.additive
  | primary : Production Parser.primary
  | parenthesized : Production Parser.parenthesized
  | callable : Production Parser.callable
  | spread : Production Parser.spread
  | literal : Production Parser.literal
  | identifier : Production Parser.identifier
  | callArgument : Production Parser.callArgument
  | arguments : Production Parser.arguments
  | object : Production Parser.object
  | property : Production Parser.property
  | parameter : Production Parser.parameter
  | parameters : Production Parser.parameters
  | objectPattern : Production Parser.objectPattern
  | patternProperty : Production Parser.patternProperty
  /-- A list of elements each of which takes a token. -/
  | listOf {α : Type} {element : Parser α} :
      Production element → Progressing element → Production (Grammar.listOf element)
  | nested {α : Type} {p : Parser α} : Production p → Production (nested p)

instance {α : Type} (p : Nat → Parser α) [∀ b, Orderly (p b)] : Orderly (budgeted p) := by
  rw [budgeted_eq]
  infer_instance

namespace Production

variable {α : Type} {p : Parser α}

theorem orderly_and_built (h : Production p) : Orderly p ∧ Built p := by
  induction h with
  | nested _ ih | listOf _ _ ih =>
    obtain ⟨_, _⟩ := ih
    exact ⟨inferInstance, inferInstance⟩
  | program => exact ⟨inferInstance, inferInstance⟩
  | skipLineBreaks | endOfStatement | emptyStatement | literal | identifier | callArgument
  | parameter | parameters | objectPattern | patternProperty =>
    -- Opened up these are combinators, which the instances are found from.
    simp only [Parser.skipLineBreaks, Parser.endOfStatement, Parser.emptyStatement, Parser.literal,
      Parser.identifier, Parser.callArgument, Parser.additive, Parser.parameter, Parser.parameters,
      Parser.objectPattern, Parser.patternProperty]
    exact ⟨inferInstance, inferInstance⟩
  | _ =>
    -- All others take the levels that are left as their fuel.
    show Orderly (budgeted _) ∧ Built (budgeted _)
    exact ⟨inferInstance, inferInstance⟩

theorem orderly (h : Production p) : Orderly p := h.orderly_and_built.1

theorem built (h : Production p) : Built p := h.orderly_and_built.2

theorem consumes (h : Production p) (s : Session) : ∃ c, Consumes s c (p.final s) := by
  have := h.orderly
  exact Orderly.final p s

end Production

/-! ### Requests -/

/-- What is done with a session. -/
inductive Request : Type 1
  /-- A source is read. -/
  | parse (source : String)
  /-- A token is consumed. -/
  | eat (kind : Kind)
  /-- A level is taken. -/
  | deepen
  /-- The number of levels taken is set. -/
  | restoreDepth (depth : UInt64)
  /-- A production is run. -/
  | call {α : Type} (p : Parser α) (h : Production p)

/-- The session that a request leaves. -/
def Request.run (s : Session) : Request → Session
  | parse source => (Parser.parse source).final s
  | eat kind => (Parser.eat kind).final s
  | deepen => Parser.deepen.final s
  | restoreDepth depth => s.withDepth depth.toNat
  | call p _ => p.final s

/-- The session after the requests of a history, one after the other. -/
def Session.after (s : Session) (history : List Request) : Session := history.foldl Request.run s

/-! ### What requests leave -/

namespace Parser

/-- A source that fails on its first text leaves all but the scanner as it was before the source was
started on. -/
theorem exists_scanner_of_prime {source : String} {s s' : Session} {e : Error}
    (h : prime (restart source s) = .error e s') :
    ∃ scanner, s' = { restart source s with scanner := scanner } := by
  cases hn : (restart source s).scanner.next with
  | error e' scanner =>
    rw [prime, hn] at h
    cases h
    exact ⟨scanner, rfl⟩
  | ok t scanner =>
    cases t with
    | none => exact absurd hn (Scanner.next_ne_none rfl rfl)
    | some t =>
      rw [prime, hn] at h
      cases h

/-- A source leaves the session it was started in, with another scanner, or the session in front of
its first token after some tokens have been consumed. -/
theorem final_parse_cases (source : String) (s : Session) :
    (∃ scanner, (parse source).final s = { restart source s with scanner := scanner }) ∨
    (∃ s₀ c, Opens (Scanner.ofSource s.file source).feed s.file s.maxDepth s₀ ∧
      Consumes s₀ c ((parse source).final s)) := by
  rcases prime_cases source s with ⟨e, s', hprime, -⟩ | ⟨s₀, hprime, hopens⟩
  · obtain ⟨scanner, hs'⟩ := exists_scanner_of_prime hprime
    have herror : parse source s = .error e s' := by rw [parse_apply, bind_of_error hprime]
    exact .inl ⟨scanner, by rw [final_of_error herror, hs']⟩
  · obtain ⟨c, hc⟩ := Orderly.final program s₀
    have hparse : parse source s = program s₀ := by rw [parse_apply, bind_of_ok hprime]
    rw [final, ← hparse] at hc
    exact .inr ⟨s₀, c, hopens, hc⟩

/-- Taking a level changes nothing else, and nothing at all where none is left. -/
theorem final_deepen (s : Session) :
    deepen.final s = s ∨
    (s.depth < s.maxDepth ∧ deepen.final s = s.withDepth (s.depth + 1)) := by
  by_cases h : s.maxDepth ≤ s.depth
  · exact .inl (by rw [final, deepen, if_pos h, overLimit_apply])
  · exact .inr ⟨Nat.lt_of_not_le h, by rw [final, deepen, if_neg h]⟩

end Parser

namespace Session

variable {s s' : Session}

/-- Scanners give no number without a value, so only the lookahead matters. -/
theorem readable_of_lookahead
    (h : ∀ t, s.lookahead = some t → t.kind = .number → (Binary64.ofLiteral? t.value).isSome) :
    s.Readable := by
  intro t ht
  rw [upcoming] at ht
  split at ht
  · cases ht
  · rename_i u hu
    rcases List.mem_cons.1 ht with rfl | ht
    · exact h _ hu
    · exact Scanner.isSome_of_mem_feed ht

theorem Readable.lookahead (h : s.Readable) (t : Token) (ht : s.lookahead = some t) :
    t.kind = .number → (Binary64.ofLiteral? t.value).isSome :=
  h t (List.mem_of_head? (s.head?_upcoming.trans ht))

/-- No request leaves a number as lookahead that cannot be read. -/
theorem Readable.run (h : s.Readable) (request : Request) : (request.run s).Readable := by
  cases request with
  | parse source =>
    rcases final_parse_cases source s with ⟨scanner, hs'⟩ | ⟨s₀, c, hopens, hc⟩
    · rw [Request.run, hs']
      exact readable_of_lookahead h.lookahead
    · exact hc.readable hopens.readable
  | eat kind =>
    obtain ⟨c, hc⟩ := Orderly.final (Parser.eat kind) s
    exact hc.readable h
  | deepen =>
    rcases final_deepen s with hs' | ⟨-, hs'⟩ <;> rw [Request.run, hs'] <;> exact h
  | restoreDepth depth => exact h
  | call p hp =>
    obtain ⟨c, hc⟩ := hp.consumes s
    exact hc.readable h

/-- The numbers that come have values after any history. -/
theorem readable_after (options : ParseOptions) (history : List Request) :
    ((Session.new options).after history).Readable := by
  have (s : Session) (h : s.Readable) : (s.after history).Readable := by
    induction history generalizing s with
    | nil => exact h
    | cons request history ih => exact ih _ (h.run request)
  exact this _ (readable_of_lookahead nofun)

end Session

end Scriptlet
