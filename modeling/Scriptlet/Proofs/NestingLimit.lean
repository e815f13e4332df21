import Mathlib.Data.Nat.Find
import Scriptlet.Proofs.Recognition

/-!
# The nesting limit cuts a run off and does nothing else

Give a source more and more levels. As long as it is refused one, that is all it is told, and it is
told so further and further on; from the first limit on that is high enough, the result is always
the same one. If that result is a program, the limit is the number of levels its derivation takes.

The runs under two limits are compared by `Parser.lockstep_program`. That some limit is high enough
follows from `Parser.budget_lt_of_program_eq_error`: a level is refused only behind tokens that
account for the levels there are, and a source has at most one token more than it has bytes.

## Main definitions

* `Refused`: a source under a limit that is too low for it.

## Main results

* `parseSource_eq_of_le`: a higher limit changes no result;
* `lt_of_refused`: limits that are too low are not far above the length of the source;
* `parseSource_limit_threshold`: the limit below which a source is refused a level.
-/

namespace Scriptlet

open Scriptlet.Parser
open Text (byteLength)

/-- Offsets in a source that is short enough are in order. -/
theorem Position.offset_of_le (label : String) {k l : Nat} (hkl : k ≤ l) (hl : l < UInt32.size) :
    (Position.of label k).offset ≤ (Position.of label l).offset := by
  show UInt32.ofNat k ≤ UInt32.ofNat l
  rw [UInt32.ofNat_le_iff_le (by omega) (by omega)]
  exact hkl

/-! ### Programs -/

namespace Parser

variable {feed : Feed} {label : String} {m m' limit limit' : Nat} {s s' s₁ s₁' : Session}
  {e e' : Error}

/-- Sessions in front of the same source go in step. -/
theorem lockstep_of_opens (hs : Opens feed label m s) (hs' : Opens feed label m' s') (hm : m ≤ m') :
    Lockstep program program s s' := by
  refine lockstep_program (hs.beside hs' hm) ?_
  rw [Sees, hs.upcoming, hs'.upcoming, hs.fault, hs'.fault]
  exact Agree.refl _ _ _

/-- A refusal names the limit, and stands where the session stands. -/
theorem blames_of_tooDeep (hs : Opens feed label m s) (h : program s = .error e s₁)
    (he : e.cause = .tooDeep limit) : limit = m ∧ e.position = s₁.position := by
  obtain ⟨c, hc, hblames⟩ := Orderly.error h
  have hb := hblames hs.settled
  rw [Blames, he, hc.maxDepth, hs.maxDepth] at hb
  exact hb

/-- A limit that is too low is one that the tokens of the source account for. -/
theorem lt_of_tooDeep (hs : Opens feed label m s) (h : program s = .error e s₁)
    (he : e.cause = .tooDeep limit) : m < 2 * feed.tokens.length + 3 := by
  obtain ⟨c, hc, -⟩ := Orderly.error h
  have hlt := budget_lt_of_program_eq_error h he hc
  have hlength : feed.tokens.length = c.length + s₁.upcoming.length := by
    rw [← hs.upcoming, hc.upcoming, List.length_append]
  rw [hs.budget] at hlt
  omega

/-- Where a session stands that has consumed the first tokens of a source. -/
theorem position_of_consumes {c : List Token} (hs : Opens feed label m s) (hc : Consumes s c s₁) :
    s₁.position = placeOf (stopOf (.of label 0) c) s₁.upcoming := by
  rw [Session.position_eq, hc.lastEnd, hs.lastEnd]

/-- Under a higher limit that is still too low, a level is refused no further in front. -/
theorem position_le_of_tooDeep {stop : Nat} (hs : Opens feed label m s)
    (hs' : Opens feed label m' s') (hm : m ≤ m') (hordered : Ordered label stop 0 feed.tokens)
    (hstop : stop < UInt32.size) (h : program s = .error e s₁) (he : e.cause = .tooDeep limit)
    (h' : program s' = .error e' s₁') (he' : e'.cause = .tooDeep limit') :
    e.position.offset ≤ e'.position.offset := by
  -- Both runs fail at a limit, so they end alike, or the first one stops on the way of the second.
  rcases lockstep_of_opens hs hs' hm with ⟨_, _, _, _, hok, -⟩ | ⟨_, _, _, _, h₁, h₁', -⟩ |
    ⟨c, d, _, _, h₁, -, hc, hd⟩
  · rw [h] at hok
    cases hok
  · rw [h] at h₁
    rw [h'] at h₁'
    cases h₁
    cases h₁'
    exact UInt32.le_refl _
  · rw [h] at h₁
    cases h₁
    rw [final_of_error h'] at hd
    have hrest : s₁.upcoming = d ++ s₁'.upcoming := by
      have happend : c ++ s₁.upcoming = c ++ (d ++ s₁'.upcoming) := by
        rw [← hc.upcoming, ← List.append_assoc, ← hd.upcoming, hs.upcoming, hs'.upcoming]
      exact List.append_cancel_left happend
    rw [← hs.upcoming, hc.upcoming, hrest] at hordered
    obtain ⟨next, -, hnext, hordered⟩ := hordered.append
    obtain ⟨k, l, hkl, hl, hk, hl'⟩ := hordered.place_le
    rw [(blames_of_tooDeep hs h he).2, (blames_of_tooDeep hs' h' he').2, position_of_consumes hs hc,
      position_of_consumes hs' hd, hrest, stopOf_append, hnext, hk, hl']
    exact Position.offset_of_le label hkl (by omega)

end Parser

/-! ### Sources -/

variable {source : String} {file : Option String} {m m' limit : Nat} {e e' : Error}

/-- A source that is refused a level under the limit given. -/
def Refused (source : String) (file : Option String) (m : Nat) : Prop :=
  ∃ e, parseSource source ⟨file, m⟩ = .error e ∧ e.cause = .tooDeep m

/-- A level is refused to a program, never to the first token. -/
theorem exists_opens_of_tooDeep (h : parseSource source ⟨file, m⟩ = .error e)
    (he : e.cause = .tooDeep limit) :
    ∃ s s', Opens (streamOf source file) (file.getD defaultLabel) m s ∧
      program s = .error e s' := by
  rcases parseSource_cases source ⟨file, m⟩ with ⟨e', h', -, text, htext⟩ | ⟨s, hs, hok, herror⟩
  · rw [h] at h'
    cases h'
    rw [he] at htext
    cases htext
  · cases hp : program s with
    | ok p s' =>
      rw [hok p s' hp] at h
      cases h
    | error e' s' =>
      rw [herror e' s' hp] at h
      cases h
      exact ⟨s, s', hs, hp⟩

theorem refused_of_tooDeep (h : parseSource source ⟨file, m⟩ = .error e)
    (he : e.cause = .tooDeep limit) : Refused source file m := by
  obtain ⟨s, s', hs, hp⟩ := exists_opens_of_tooDeep h he
  rw [(blames_of_tooDeep hs hp he).1] at he
  exact ⟨e, h, he⟩

/-- A limit that is high enough can be raised. -/
theorem parseSource_eq_of_le (hm : m ≤ m') (h : ¬ Refused source file m) :
    parseSource source ⟨file, m'⟩ = parseSource source ⟨file, m⟩ := by
  rcases parseSource_cases source ⟨file, m⟩ with ⟨e, he, hfeed, -⟩ | ⟨s, hs, hok, herror⟩ <;>
    rcases parseSource_cases source ⟨file, m'⟩ with ⟨e', he', hfeed', -⟩ | ⟨s', hs', hok', herror'⟩
  · rw [hfeed] at hfeed'
    cases hfeed'
    rw [he, he']
  · -- A source without a first token is opened under no limit.
    exact absurd (by rw [hs'.upcoming, hfeed]) hs'.ne_nil
  · exact absurd (by rw [hs.upcoming, hfeed']) hs.ne_nil
  · rcases lockstep_of_opens hs hs' hm with ⟨_, p, s₁, s₁', hp, hp', -⟩ |
      ⟨_, e, s₁, s₁', hp, hp', -⟩ | ⟨_, _, e, s₁, hp, he, -⟩
    · rw [hok p s₁ hp, hok' p s₁' hp']
    · rw [herror e s₁ hp, herror' e s₁' hp']
    · exact absurd (refused_of_tooDeep (herror e s₁ hp) he) h

theorem length_streamOf_le (source : String) (file : Option String) :
    (streamOf source file).tokens.length ≤ byteLength source.toList + 1 :=
  Scanner.length_feed_le (.ofSource (file.getD defaultLabel) source)

/-- Limits that are too low are not far above the length of the source. -/
theorem lt_of_refused (h : Refused source file m) : m < 2 * byteLength source.toList + 5 := by
  obtain ⟨e, he, hcause⟩ := h
  obtain ⟨s, s', hs, hp⟩ := exists_opens_of_tooDeep he hcause
  have hlt := lt_of_tooDeep hs hp hcause
  have hlength := length_streamOf_le source file
  omega

theorem ordered_streamOf (source : String) (file : Option String) :
    Ordered (file.getD defaultLabel) (byteLength source.toList) 0
      (streamOf source file).tokens := by
  have h := Scanner.ordered_feed (.ofSource (file.getD defaultLabel) source)
  have hoffset : (Scanner.ofSource (file.getD defaultLabel) source).offset = 0 := rfl
  rw [hoffset, Nat.zero_add] at h
  exact h

/-- A program is not refused the levels that its derivation takes. -/
theorem not_refused_of_derivable {ts : List Token} {p : Program} {n : Nat}
    (htokens : tokenize source file = .ok ts) (hd : Derivable (file.getD defaultLabel) ts p n) :
    ¬ Refused source file n := by
  rintro ⟨e, he, -⟩
  rcases @parseSource_of_derivable source ⟨file, n⟩ ts p n htokens hd with ⟨-, hok⟩ | ⟨hlt, -⟩
  · rw [hok] at he
    cases he
  · exact absurd hlt (Nat.lt_irrefl n)

/-- For every source there is a limit from which on the result is always the same, and below which
the source is refused a level, no further in front under a higher limit. It is at most five more
than twice the length of the source, and if the source is a program it is the number of levels that
the derivation takes. Offsets are kept modulo `2 ^ 32`, so only in shorter sources can they be
compared. -/
theorem parseSource_limit_threshold (source : String) (file : Option String) :
    ∃ M r, M ≤ 2 * byteLength source.toList + 5 ∧
      (∀ e limit, r = .error e → e.cause ≠ .tooDeep limit) ∧
      (∀ m, M ≤ m → parseSource source ⟨file, m⟩ = r) ∧
      (∀ m, m < M → ∃ e, parseSource source ⟨file, m⟩ = .error e ∧ e.cause = .tooDeep m) ∧
      (byteLength source.toList < UInt32.size → ∀ m m' e e', m ≤ m' → m' < M →
        parseSource source ⟨file, m⟩ = .error e → parseSource source ⟨file, m'⟩ = .error e' →
        e.position.offset ≤ e'.position.offset) ∧
      (∀ p, r = .ok p → ∃ ts, tokenize source file = .ok ts ∧
        ∀ n, Derivable (file.getD defaultLabel) ts p n ↔ n = M) := by
  classical
  -- Some limit is high enough, since a run takes two levels for each token, and a few more.
  have hexists : ∃ m, ¬ Refused source file m :=
    ⟨2 * byteLength source.toList + 5, fun h => absurd (lt_of_refused h) (Nat.lt_irrefl _)⟩
  have hM : ¬ Refused source file (Nat.find hexists) := Nat.find_spec hexists
  have hlow : ∀ m, m < Nat.find hexists → Refused source file m :=
    fun m hm => not_not.1 (Nat.find_min hexists hm)
  refine ⟨Nat.find hexists, parseSource source ⟨file, Nat.find hexists⟩, ?_, ?_, ?_, hlow, ?_, ?_⟩
  · exact Nat.find_min' hexists fun h => absurd (lt_of_refused h) (Nat.lt_irrefl _)
  · intro e limit h he
    exact hM (refused_of_tooDeep h he)
  · intro m hm
    exact parseSource_eq_of_le hm hM
  · intro hlength m m' e e' hm hm' h h'
    obtain ⟨_, he, hcause⟩ := hlow m (by omega)
    obtain ⟨_, he', hcause'⟩ := hlow m' hm'
    rw [h] at he
    rw [h'] at he'
    cases he
    cases he'
    obtain ⟨s, s₁, hs, hp⟩ := exists_opens_of_tooDeep h hcause
    obtain ⟨s', s₁', hs', hp'⟩ := exists_opens_of_tooDeep h' hcause'
    exact position_le_of_tooDeep hs hs' hm (ordered_streamOf source file) hlength hp hcause hp'
      hcause'
  · intro p h
    obtain ⟨ts, n, htokens, hd, hle⟩ := exists_derivable_of_parseSource h
    have hn : n = Nat.find hexists :=
      Nat.le_antisymm hle (Nat.find_min' hexists (not_refused_of_derivable htokens hd))
    refine ⟨ts, htokens, fun n' => ⟨fun hd' => ?_, fun hn' => ?_⟩⟩
    · rw [← hn]
      exact (Derivable.unique_of_tokenize htokens hd' hd).2
    · rw [hn', ← hn]
      exact hd

end Scriptlet
