import Scriptlet.Proofs.LevelCount

/-!
# Starting over

A session that is given a source starts over. The scanner, the end of the last token and the number
of levels are set anew before anything is read, and the label and the limit are never changed at
all. What is left of the time before is the lookahead, and the first token of the source takes its
place.

A source may have no first token, because its first text starts none. Then there is nothing to take
the place of the lookahead, and the one left behind by an earlier failure stays. The answer is the
same all the same: the fault of the source. So of all that can be asked about a session that starts
over, only one thing may depend on its history, and it does so in this case alone.

## Main definitions

* `Session.withLookahead`: a session with another lookahead;
* `Parser.answer`: what a parser answers, without the session that it leaves.

## Main results

* `Parser.parse_cases_of_same`: sessions with the same label and limit start over alike;
* `Session.parse_after`: what is left of a history when a source is read.
-/

namespace Scriptlet

open Scriptlet.Parser

/-- The session with another lookahead. -/
def Session.withLookahead (s : Session) (lookahead : Option Token) : Session :=
  { s with lookahead := lookahead }

@[simp] theorem Session.withLookahead_withLookahead (s : Session) (first second : Option Token) :
    (s.withLookahead first).withLookahead second = s.withLookahead second := rfl

@[simp] theorem Session.withLookahead_self (s : Session) : s.withLookahead s.lookahead = s := rfl

namespace Parser

/-- What a parser answers, without the session that it leaves. -/
def answer {α : Type} (p : Parser α) (s : Session) : Except Error α :=
  match p s with
  | .ok a _ => .ok a
  | .error e _ => .error e

variable {source : String} {s s' : Session}

/-- In front of a source, sessions with the same label and limit differ in their lookahead only. -/
theorem restart_eq_withLookahead (hfile : s.file = s'.file) (hlimit : s.maxDepth = s'.maxDepth) :
    restart source s = (restart source s').withLookahead s.lookahead := by
  simp only [restart, Session.withLookahead, hfile, hlimit]

/-- Sessions with the same label and limit read a source alike, in all respects if it has a first
token; if it has none, each keeps its own lookahead. -/
theorem parse_cases_of_same (source : String) (hfile : s.file = s'.file)
    (hlimit : s.maxDepth = s'.maxDepth) :
    ((Scanner.ofSource s'.file source).feed.tokens ≠ [] ∧ parse source s = parse source s') ∨
    ((Scanner.ofSource s'.file source).feed.tokens = [] ∧ ∃ (e : Error) (left : Session),
      parse source s = .error e (left.withLookahead s.lookahead) ∧
      parse source s' = .error e (left.withLookahead s'.lookahead)) := by
  rw [parse_apply, parse_apply, restart_eq_withLookahead hfile hlimit]
  cases hnext : (Scanner.ofSource s'.file source).next with
  | error e scanner =>
    -- Nothing is read, so the two sessions are left with what they differ in.
    have hprime (lookahead : Option Token) :
        prime ((restart source s').withLookahead lookahead) =
          .error e ({ restart source s' with scanner := scanner }.withLookahead lookahead) := by
      rw [prime, Session.withLookahead, restart, hnext]
      rfl
    refine .inr ⟨congrArg Feed.tokens (Scanner.feed_of_next_eq_error hnext), e, _,
      bind_of_error (hprime s.lookahead), ?_⟩
    exact bind_of_error (hprime s'.lookahead)
  | ok first scanner =>
    cases first with
    | none => exact absurd hnext (Scanner.next_ne_none rfl rfl)
    | some t =>
      -- The first token takes the place of the lookahead, so nothing of the difference is left.
      have hprime (lookahead : Option Token) :
          prime ((restart source s').withLookahead lookahead) =
            .ok () ({ restart source s' with scanner := scanner }.withLookahead (some t)) := by
        rw [prime, Session.withLookahead, restart, hnext]
        rfl
      refine .inl ⟨?_, ?_⟩
      · rw [Scanner.feed_of_next_eq_some hnext]
        exact List.cons_ne_nil _ _
      · rw [bind_of_ok (hprime s.lookahead)]
        exact (bind_of_ok (f := fun _ => program) (hprime s'.lookahead)).symm

end Parser

namespace Session

/-- No history changes the label or the limit of a session. -/
theorem file_and_maxDepth_after (options : ParseOptions) (history : List Request) :
    ((Session.new options).after history).file = options.file.getD defaultLabel ∧
    ((Session.new options).after history).maxDepth = options.maxDepth := by
  obtain ⟨hfile, hlimit, -⟩ :=
    after_of_depth_le (s := Session.new options) 0 history (Nat.zero_le _)
  exact ⟨hfile, hlimit⟩

/-- A session with a history answers to a source as a new session does, and it is left as a new one
would be, but for the lookahead it had where the source has no first token. So whatever is asked of
the two afterwards leaves them alike exactly if the source has a first token or there was no
lookahead. -/
theorem parse_after (options : ParseOptions) (history : List Request) (source : String) :
    (parse source).answer ((Session.new options).after history) = parseSource source options ∧
    (parse source).final ((Session.new options).after history) =
      ((parse source).final (Session.new options)).withLookahead
        (if (streamOf source options.file).tokens = [] then
          ((Session.new options).after history).lookahead
        else ((parse source).final (Session.new options)).lookahead) ∧
    ((∀ later, ((parse source).final ((Session.new options).after history)).after later =
        ((parse source).final (Session.new options)).after later) ↔
      (streamOf source options.file).tokens ≠ [] ∨
        ((Session.new options).after history).lookahead = none) := by
  obtain ⟨hfile, hlimit⟩ := file_and_maxDepth_after options history
  generalize hs : (Session.new options).after history = s at hfile hlimit ⊢
  have hnew : parseSource source options = (parse source).answer (Session.new options) := by
    rw [parseSource, answer]
    cases parse source (Session.new options) <;> rfl
  -- The session differs from a new one in its lookahead at most, once its levels are set back.
  rcases @parse_cases_of_same s (Session.new options) source hfile hlimit with
    ⟨hfirst, hsame⟩ | ⟨hnone, e, left, herror, herror'⟩
  · have hfirst : (streamOf source options.file).tokens ≠ [] := hfirst
    have hfinal : (parse source).final s = (parse source).final (Session.new options) := by
      rw [final, final, hsame]
    refine ⟨?_, ?_, fun _ => .inl hfirst, fun _ later => by rw [hfinal]⟩
    · rw [hnew, answer, answer, hsame]
    · rw [if_neg hfirst, withLookahead_self, hfinal]
  · have hnone : (streamOf source options.file).tokens = [] := hnone
    have hfinal := final_of_error herror
    have hfinal' := final_of_error herror'
    refine ⟨?_, ?_, fun h => .inr ?_, fun h later => ?_⟩
    · rw [hnew, answer, answer, herror, herror']
    · rw [if_pos hnone, hfinal, hfinal', withLookahead_withLookahead]
    · -- Two sessions that are the same after nothing more have the same lookahead.
      have hsame : (parse source).final s = (parse source).final (Session.new options) := h []
      rw [hfinal, hfinal'] at hsame
      exact congrArg Session.lookahead hsame
    · have hlookahead : s.lookahead = (Session.new options).lookahead :=
        h.resolve_left (not_not_intro hnone)
      rw [hfinal, hfinal', hlookahead]

/-- The second name of a source that was refused is still the lookahead behind a source that starts
no token. -/
theorem not_parse_after_refused : ¬ ∀ options history source,
    parse source ((Session.new options).after history) = parse source (Session.new options) := by
  intro h
  have hfinal : (parse "#").final ((Session.new {}).after [.parse "a b"]) =
      (parse "#").final (Session.new {}) := by
    simp only [final, h {} [.parse "a b"] "#"]
  have hleft : ((parse "#").final ((Session.new {}).after [.parse "a b"])).hasTokens = true := by
    decide +kernel
  have hnone : ((parse "#").final (Session.new {})).hasTokens = false := by decide +kernel
  rw [hfinal, hnone] at hleft
  cases hleft

end Session

end Scriptlet
