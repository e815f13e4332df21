import Scriptlet.Error.Render
import Scriptlet.Proofs.History
import Scriptlet.Proofs.LinePlaces
import Scriptlet.Proofs.Lossless

/-!
# Where failures leave a session

A failure leaves the session where the error is. A token that is refused is still the lookahead, and
the error is at its start; at the end of the input the error is at the end of the last token; and
where scanning fails there is no lookahead, and the scanner stands in front of the text that starts
no token. This is proved by induction on how parsers are built, for any session whatever, so also
for one that an earlier failure has left behind.

From the outside it follows that every error of a source falls between two characters of it, so that
there is always a line to show.

## Main definitions

* `Points`: an error that is about what a session has in front of it;
* `Position.Parts`: a position between two characters of a text;
* `Session.FailsInPlace`: what holds of the failures of a session.

## Main results

* `Parser.Built.points`: errors point at what is in front of the session that they leave;
* `Session.failsInPlace_after`: failures stay in place through all histories.
-/

namespace Scriptlet

open Scriptlet.Parser
open Text (byteLength)

/-! ### Errors that fit a session -/

/-- The error is about what the session has in front of it, and it says where that is. -/
def Points (e : Error) (s : Session) : Prop :=
  match e.cause with
  | .unexpected token _ | .misplaced token _ =>
    ∃ t, s.lookahead = some t ∧ token = t.display ∧ e.position = t.span.start
  | .endOfInput _ => s.lookahead = none ∧ e.position = s.lastEnd
  | .tooDeep limit => limit = s.maxDepth ∧ e.position = s.position
  | .unrecognised _ => s.lookahead = none ∧ e.position = s.scanner.position
  | .malformedNumber _ => True
  | .internal _ => False

namespace Points

variable {e : Error} {s : Session}

theorem withDepth (h : Points e s) (depth : Nat) : Points e (s.withDepth depth) := h

theorem position_eq (h : Points e s) (hkind : e.cause.kind = .grammatical)
    (hnumber : ∀ text, e.cause ≠ .malformedNumber text) : e.position = s.position := by
  cases hcause : e.cause with
  | unexpected token expected | misplaced token message =>
    rw [Points, hcause] at h
    obtain ⟨t, ht, -, hposition⟩ := h
    rw [hposition, Session.position, ht]
  | endOfInput expected =>
    rw [Points, hcause] at h
    rw [h.2, Session.position, h.1]
  | tooDeep limit =>
    rw [Points, hcause] at h
    exact h.2
  | malformedNumber text => exact absurd hcause (hnumber text)
  | unrecognised _ | internal _ =>
    rw [hcause] at hkind
    cases hkind

theorem of_lexical (h : Points e s) (hkind : e.cause.kind = .lexical) :
    s.lookahead = none ∧ e.position = s.scanner.position := by
  cases hcause : e.cause with
  | unrecognised text =>
    rw [Points, hcause] at h
    exact h
  | _ =>
    rw [hcause] at hkind
    cases hkind

theorem kind_ne_internal (h : Points e s) : e.cause.kind ≠ .internal := by
  cases hcause : e.cause with
  | internal message =>
    rw [Points, hcause] at h
    exact h.elim
  | _ => simp [Cause.kind]

end Points

/-- A scanner that fails stands in front of the text that starts no token. -/
theorem Scanner.position_eq_of_next_eq_error {s s' : Scanner} {e : Error}
    (h : s.next = .error e s') : e.position = s'.position := by
  fun_induction next s with
  | case1 s hrest =>
    obtain ⟨t, ht⟩ := s.close_eq
    rw [ht] at h
    cases h
  | case2 =>
    cases h
    rfl
  | case3 s c cs hrest p text rest hit htoken ih => exact ih h
  | case4 => cases h

namespace Parser

/-- To point at what is in front of the session is a conduct. A lexical error comes after a token
has been consumed. -/
def pointConduct : Conduct where
  ok s s' := s'.remaining ≤ s.remaining
  error s e s' := Points e s' ∧ (e.cause.kind = .lexical → s'.remaining < s.remaining)
  refl s := Nat.le_refl _
  trans h h' := Nat.le_trans h' h
  fails := fun h ⟨hpoints, hlt⟩ => ⟨hpoints, fun hkind => Nat.lt_of_lt_of_le (hlt hkind) h⟩
  ok_withDepth _ := id
  error_withDepth depth := fun ⟨hpoints, hlt⟩ => ⟨hpoints.withDepth depth, hlt⟩
  eat_ok h := by
    have := (eat_eq_ok h).2.1.remaining
    omega
  eat_error {kind s e s'} h := by
    rw [eat] at h
    split at h
    · rename_i hnone
      cases h
      exact ⟨⟨hnone, by rw [Session.position, hnone]⟩, nofun⟩
    · rename_i t ht
      split at h
      · split at h
        · cases h
        · -- The token is consumed, and the scanner fails behind it.
          rename_i scanner hnext
          cases h
          obtain ⟨text, htext⟩ := Scanner.cause_of_next_eq_error hnext
          refine ⟨?_, fun _ => ?_⟩
          · rw [Points, htext]
            exact ⟨rfl, Scanner.position_eq_of_next_eq_error hnext⟩
          · have := Scanner.remaining_le_of_next_eq_error hnext
            simp only [Session.remaining, ht, Option.isSome_some, Option.isSome_none,
              Bool.toNat_true, Bool.toNat_false]
            omega
      · cases h
        exact ⟨⟨t, ht, rfl, by rw [Session.position, ht]⟩, nofun⟩
  endOfInput _ hnone := ⟨⟨hnone, rfl⟩, nofun⟩
  misplaced _ ht := ⟨⟨_, ht, rfl, rfl⟩, nofun⟩
  tooDeep _ := ⟨⟨rfl, rfl⟩, nofun⟩
  malformedNumber _ _ := ⟨trivial, nofun⟩

/-- Errors point at what is in front of the session that they leave. -/
theorem Built.points {α : Type} {p : Parser α} (hp : Built p) {s s' : Session} {e : Error}
    (h : p s = .error e s') :
    Points e s' ∧ (e.cause.kind = .lexical → s'.remaining < s.remaining) :=
  (hp.keeps pointConduct).error h

end Parser

/-! ### Positions in a text -/

/-- The position is between two characters of a text, or at one of its ends. -/
def Position.Parts (p : Position) (label : String) (text : List Char) : Prop :=
  ∃ before behind, text = before ++ behind ∧ p = .of label (byteLength before)

section

variable {label : String} {source : String} {m : Nat} {s s' : Session} {e : Error}
  {c d : List Token}

/-- Tokens end and start between two characters. -/
theorem Laid.parts {text rest : List Char} (h : Laid label none 0 text rest (c ++ d)) :
    (placeOf (stopOf (.of label 0) c) d).Parts label (text ++ rest) := by
  obtain ⟨pre, gap, post, happend, hstop, hplace, -⟩ := h.exists_gap []
  rw [List.nil_append] at happend hplace
  cases d with
  | nil => exact ⟨pre, gap ++ post ++ rest, by rw [happend]; simp, hstop⟩
  | cons t d => exact ⟨pre ++ gap, post ++ rest, by rw [happend]; simp, hplace⟩

/-- A session that reads a source is between two characters of it. -/
theorem parts_of_opens (hs : Opens (Scanner.ofSource label source).feed label m s)
    (hc : Consumes s c s') : s'.position.Parts label source.toList := by
  obtain ⟨text, rest, happend, hlaid, -⟩ := exists_laid_streamOf source (some label)
  have htokens : (streamOf source (some label)).tokens = c ++ s'.upcoming :=
    hs.upcoming.symm.trans hc.upcoming
  rw [htokens] at hlaid
  rw [s'.position_eq, hc.lastEnd, hs.lastEnd, happend]
  exact hlaid.parts

theorem parts_of_fault (h : (Scanner.ofSource label source).feed.fault = some e) :
    e.position.Parts label source.toList := by
  obtain ⟨text, rest, happend, -, hstop⟩ := exists_laid_streamOf source (some label)
  rw [show (streamOf source (some label)).fault = some e from h] at hstop
  cases hstop with
  | stuck => exact ⟨text, _, happend, rfl⟩

theorem parts_of_tokenize {file : Option String} (h : tokenize source file = .error e) :
    e.position.Parts (file.getD defaultLabel) source.toList :=
  parts_of_fault (tokenize_eq_error_iff_streamOf.1 h)

/-- An error of a source is between two characters of it. It is about a token or about the text
behind one, never about the library or about a number. -/
theorem parts_of_parse (h : Parser.parse source s = .error e s') :
    (e.cause.kind = .grammatical ∨ e.cause.kind = .lexical) ∧
    (∀ text, e.cause ≠ .malformedNumber text) ∧ e.position.Parts s.file source.toList := by
  rcases parse_cases source s with ⟨e', s'', h', hfeed, text, htext⟩ | ⟨s₀, h', hs⟩ <;>
    rw [h'] at h
  · cases h
    refine ⟨.inr (by rw [htext]; rfl), by simp [htext], parts_of_fault ?_⟩
    rw [hfeed]
  · obtain ⟨c, hc, hblames⟩ := Orderly.error h
    have hpoints := Built.points inferInstance h
    have hnumber := Built.ne_malformedNumber inferInstance hs.readable h
    cases hkind : e.cause.kind with
    | grammatical =>
      refine ⟨.inl rfl, hnumber, ?_⟩
      rw [hpoints.1.position_eq hkind hnumber]
      exact parts_of_opens hs hc
    | lexical =>
      refine ⟨.inr rfl, hnumber, parts_of_fault ?_⟩
      rw [← hs.fault, ← hc.fault]
      exact (hblames hs.settled).fault_of_lexical hkind
    | internal => exact absurd hkind hpoints.1.kind_ne_internal

end

/-! ### Errors with a line to show -/

/-- The error is between two characters of a source, so it is shown with a line of the source. -/
structure Error.Shown (e : Error) (source : String) : Prop where
  /-- The offset is between two characters. -/
  boundary : ∃ before behind, source.toList = before ++ behind ∧
    e.position.offset.toNat = byteLength before
  /-- The offset is not past the end. -/
  le : e.position.offset.toNat ≤ byteLength source.toList
  /-- There is a line at the offset, and the error is shown with it, unless its arrow does not fit
  into a field. -/
  line : ∃ l, lineAt? source.toList e.position.offset.toNat = some l ∧
    e.render? source =
      if l.isDrawable then
        some (e.headline ++ "\n-> " ++ e.position.file ++ "\n" ++ l.render)
      else none

/-- An error between two parts of a source is shown with the line around it. -/
theorem Error.shown_of_parts {e : Error} {label source : String}
    (h : e.position.Parts label source.toList) (hsize : byteLength source.toList < UInt32.size) :
    e.Shown source := by
  obtain ⟨before, behind, happend, hposition⟩ := h
  have hle : byteLength before ≤ byteLength source.toList := by
    rw [happend, Text.byteLength_append]
    exact Nat.le_add_right _ _
  have hoffset : e.position.offset.toNat = byteLength before := by
    rw [hposition]
    exact Position.toNat_offset_of label (Nat.lt_of_le_of_lt hle hsize)
  have hsome : lineAt? source.toList e.position.offset.toNat ≠ none := fun hnone =>
    Nat.not_lt.2 (hoffset ▸ hle) ((lineAt?_eq_none_iff _ _).1 hnone)
  obtain ⟨l, hl⟩ := Option.ne_none_iff_exists'.1 hsome
  refine ⟨⟨before, behind, happend, hoffset⟩, hoffset ▸ hle, l, hl, ?_⟩
  rw [Error.render?, Error.render, hl, Option.all_some]

/-! ### Histories -/

/-- What holds of the failures in a session. -/
structure Session.FailsInPlace (s : Session) : Prop where
  /-- An error of a production is about what the session it leaves has in front of it. If scanning
  has failed, that is the text behind the last token consumed. -/
  production : ∀ {α : Type} (p : Parser α) (e : Error) (s' : Session), Production p →
    p s = .error e s' → Points e s' ∧
    (e.cause.kind = .grammatical → e.position = s'.position) ∧
    (e.cause.kind = .lexical → s'.lookahead = none ∧ e.position = s'.scanner.position ∧
      ∃ c t, Consumes s (c ++ [t]) s' ∧ s'.lastEnd = t.span.stop)
  /-- An error of a source is neither internal nor about a number without a value, and it is shown
  with a line of the source. -/
  parse : ∀ (source : String) (e : Error) (s' : Session), Parser.parse source s = .error e s' →
    (∀ message, e.cause ≠ .internal message) ∧ (∀ text, e.cause ≠ .malformedNumber text) ∧
    (byteLength source.toList < UInt32.size → e.Shown source)

theorem Session.Readable.failsInPlace {s : Session} (h : s.Readable) : s.FailsInPlace where
  production p e s' hp herror := by
    have := hp.orderly
    obtain ⟨hpoints, hlt⟩ := hp.built.points herror
    obtain ⟨c, hc, -⟩ := Orderly.error herror
    refine ⟨hpoints, ?_, ?_⟩
    · intro hkind
      exact hpoints.position_eq hkind (hp.built.ne_malformedNumber h herror)
    · intro hkind
      obtain ⟨hnone, hposition⟩ := hpoints.of_lexical hkind
      -- A token has been consumed, and the error is behind the last one.
      obtain ⟨d, t, rfl⟩ := (List.eq_nil_or_concat c).resolve_left (hc.ne_nil (hlt hkind))
      rw [List.concat_eq_append] at hc
      refine ⟨hnone, hposition, d, t, hc, ?_⟩
      rw [hc.lastEnd, stopOf_append, stopOf_singleton]
  parse source e s' herror := by
    obtain ⟨hkind, hnumber, hparts⟩ := parts_of_parse herror
    refine ⟨?_, hnumber, Error.shown_of_parts hparts⟩
    intro message hcause
    rw [hcause] at hkind
    simp [Cause.kind] at hkind

/-- After any history of a session, an error of a production is about what the session has in front
of it, and an error of a source is shown with a line of that source; so is an error of scanning.
Lists are covered for elements that take a token whenever they succeed. -/
theorem Session.failsInPlace_after (options : ParseOptions) (history : List Request) :
    ((Session.new options).after history).FailsInPlace ∧
    ∀ (source : String) (file : Option String) (e : Error), tokenize source file = .error e →
      byteLength source.toList < UInt32.size → e.Shown source := by
  constructor
  · exact (Session.readable_after options history).failsInPlace
  · intro source file e h
    exact Error.shown_of_parts (parts_of_tokenize h)

end Scriptlet
