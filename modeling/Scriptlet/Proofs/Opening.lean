import Scriptlet.Proofs.Following
import Scriptlet.Proofs.Lockstep
import Scriptlet.Proofs.Scanning

/-!
# Opening a source

Before a program is read, the session is put in front of the source and takes its first token. A
source whose first text starts no token fails there; every other source has a first token, if only
the line break at its end, and is then read as a program. From there on the session is known by what
comes: the tokens of the source, and the fault behind them if there is one.

## Main definitions

* `streamOf`: the tokens of a source up to its first fault;
* `Opens`: a session in front of the first token of a source.

## Main results

* `Parser.parse_cases`: a source that is opened is read as a program;
* `parseSource_cases`: the same for a session of its own.
-/

namespace Scriptlet

open Text (byteLength)

/-- The tokens of a source, and the error that ends them if they do not reach its end. -/
def streamOf (source : String) (file : Option String) : Feed :=
  (Scanner.ofSource (file.getD defaultLabel) source).feed

theorem tokenize_eq_ok_iff_streamOf {source : String} {file : Option String} {ts : List Token} :
    tokenize source file = .ok ts ↔ streamOf source file = ⟨ts, none⟩ :=
  tokenize_eq_ok_iff

/-- Every source has a token or a fault. -/
theorem Scanner.next_ne_none {s s' : Scanner} (hf : s.finished = false) (hl : s.lastKind = none) :
    s.next ≠ .ok none s' := by
  intro h
  fun_induction next s with
  | case1 s hrest => simp [close, hf, hl] at h
  | case2 => cases h
  | case3 s c cs hrest p text rest hit htoken ih => exact ih hf hl h
  | case4 => cases h

/-- A session in front of the first token of a source, with all its levels. -/
structure Opens (feed : Feed) (label : String) (limit : Nat) (s : Session) : Prop where
  /-- What comes are the tokens of the source. -/
  upcoming : s.upcoming = feed.tokens
  /-- What is behind them is the fault of the source. -/
  fault : s.fault = feed.fault
  /-- There is a first token. -/
  ne_nil : s.upcoming ≠ []
  /-- Every number has a value. -/
  readable : s.Readable
  /-- The label is that of the source. -/
  file : s.file = label
  /-- Nothing has been consumed. -/
  lastEnd : s.lastEnd = .of label 0
  /-- No level has been taken. -/
  depth : s.depth = 0
  /-- The limit is the one given. -/
  maxDepth : s.maxDepth = limit

namespace Opens

variable {feed feed' : Feed} {label : String} {m m' : Nat} {s s' : Session}

theorem budget (h : Opens feed label m s) : s.budget = m := by
  rw [Session.budget, h.maxDepth, h.depth, Nat.sub_zero]

theorem settled (h : Opens feed label m s) : s.Settled := fun hnil => absurd hnil h.ne_nil

theorem beside (h : Opens feed label m s) (h' : Opens feed' label m' s') (hm : m ≤ m') :
    Beside s s' := by
  refine ⟨?_, ?_, ?_, ?_⟩
  · rw [h.lastEnd, h'.lastEnd]
  · rw [h.file, h'.file]
  · rw [h.depth, h'.depth]
  · rw [h.maxDepth, h'.maxDepth]
    exact hm

end Opens

namespace Parser

instance : Orderly program where
  ok {s _ _} h := by
    rw [program_apply] at h
    exact Orderly.ok h
  error {s _ _} h := by
    rw [program_apply] at h
    exact Orderly.error h

theorem parse_apply (source : String) (s : Session) :
    parse source s = (do prime; program : Parser Program) (restart source s) :=
  bind_of_ok (show (modify (restart source) : Parser PUnit) s = .ok () (restart source s) from rfl)

/-- A source fails on its first text, or it is opened in front of its first token. -/
theorem prime_cases (source : String) (s : Session) :
    (∃ e s', prime (restart source s) = .error e s' ∧ s'.lookahead = s.lookahead ∧
      (Scanner.ofSource s.file source).feed = ⟨[], some e⟩ ∧
      ∃ text, e.cause = .unrecognised text) ∨
    (∃ s₀, prime (restart source s) = .ok () s₀ ∧
      Opens (Scanner.ofSource s.file source).feed s.file s.maxDepth s₀) := by
  cases hn : (Scanner.ofSource s.file source).next with
  | error e sc =>
    have hprime : prime (restart source s) = .error e { restart source s with scanner := sc } := by
      rw [prime, restart, hn]
    exact .inl ⟨e, _, hprime, rfl, Scanner.feed_of_next_eq_error hn,
      Scanner.cause_of_next_eq_error hn⟩
  | ok t sc =>
    cases t with
    -- The end of a source that has just been started gives a line break at least.
    | none => exact absurd hn (Scanner.next_ne_none rfl rfl)
    | some t =>
      have hprime : prime (restart source s) =
          .ok () { restart source s with scanner := sc, lookahead := some t } := by
        rw [prime, restart, hn]
      have hfeed := Scanner.feed_of_next_eq_some hn
      refine .inr ⟨_, hprime, ?_, ?_, ?_, ?_, rfl, rfl, rfl, rfl⟩
      · rw [hfeed]
        rfl
      · rw [hfeed]
        rfl
      · exact List.cons_ne_nil _ _
      · intro u hu hk
        refine Scanner.isSome_of_mem_feed (s := Scanner.ofSource s.file source) ?_ hk
        rw [hfeed]
        exact hu

/-- A source fails on its first text, or it is opened and read as a program. -/
theorem parse_cases (source : String) (s : Session) :
    (∃ e s', parse source s = .error e s' ∧ (Scanner.ofSource s.file source).feed = ⟨[], some e⟩ ∧
      ∃ text, e.cause = .unrecognised text) ∨
    (∃ s₀, parse source s = program s₀ ∧
      Opens (Scanner.ofSource s.file source).feed s.file s.maxDepth s₀) := by
  rw [parse_apply]
  rcases prime_cases source s with ⟨e, s', hprime, -, hfeed, hcause⟩ | ⟨s₀, hprime, hopens⟩
  · exact .inl ⟨e, s', bind_of_error hprime, hfeed, hcause⟩
  · exact .inr ⟨s₀, bind_of_ok hprime, hopens⟩

end Parser

/-- A source in a session of its own fails on its first text, or it is read as a program. -/
theorem parseSource_cases (source : String) (options : ParseOptions) :
    (∃ e, parseSource source options = .error e ∧
      streamOf source options.file = ⟨[], some e⟩ ∧ ∃ text, e.cause = .unrecognised text) ∨
    (∃ s₀, Opens (streamOf source options.file) (options.file.getD defaultLabel)
        options.maxDepth s₀ ∧
      (∀ p s', Parser.program s₀ = .ok p s' → parseSource source options = .ok p) ∧
      (∀ e s', Parser.program s₀ = .error e s' → parseSource source options = .error e)) := by
  rcases Parser.parse_cases source (Session.new options) with ⟨e, s', h, hfeed, hcause⟩ |
    ⟨s₀, h, ho⟩
  · refine .inl ⟨e, ?_, hfeed, hcause⟩
    rw [parseSource, h]
  · refine .inr ⟨s₀, ho, fun p s' hp => ?_, fun e s' hp => ?_⟩
    · rw [parseSource, h, hp]
    · rw [parseSource, h, hp]

end Scriptlet
