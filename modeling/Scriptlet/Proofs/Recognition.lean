import Scriptlet.Proofs.Opening

/-!
# The grammar is what is accepted

A source is accepted exactly if its tokens are a program of the grammar and the program takes no
more levels than there are, and what is returned is the tree of the derivation, spans included. Of a
source that takes more levels than there are, only that is said.

A derivation is followed from front to back (`Parser.follows_program`), so two derivations of the
same tokens have the same tree and take the same number of levels: run a session with as many levels
as both take, and it returns the one tree and the other; run it with as many as only one takes, and
it cannot both succeed and refuse.

## Main results

* `parseSource_of_derivable`: what becomes of a source whose tokens are a program;
* `exists_derivable_of_parseSource`: what is accepted is a program;
* `Derivable.unique_of_tokenize`: derivations are unique;
* `parseSource_accepts_iff_derivable`: all of this together.
-/

namespace Scriptlet

open Scriptlet.Parser

variable {source : String} {options : ParseOptions} {ts : List Token} {p p' : Program} {n n' : Nat}

/-- A source whose tokens are a program is accepted with its tree, or takes too many levels. -/
theorem parseSource_of_derivable (htokens : tokenize source options.file = .ok ts)
    (h : Derivable (options.file.getD defaultLabel) ts p n) :
    (n ≤ options.maxDepth ∧ parseSource source options = .ok p) ∨
    (options.maxDepth < n ∧ ∃ e, parseSource source options = .error e ∧
      e.cause = .tooDeep options.maxDepth) := by
  rw [tokenize_eq_ok_iff_streamOf] at htokens
  rcases parseSource_cases source options with ⟨e, -, hfault, -⟩ | ⟨s, hs, hok, herror⟩
  · rw [htokens] at hfault
    cases hfault
  · have hts : s.upcoming = ts := by rw [hs.upcoming, htokens]
    have hsee : Sees s (program.final s) ts none := by
      rw [Sees, hts, hs.fault, htokens]
      exact Agree.refl _ _ _
    rw [← hs.file] at h
    rw [← hs.file] at hs
    rcases follows_program h hs.lastEnd hs.readable hsee with ⟨c, s', hp, -, -, hn⟩ |
      ⟨e, s', hp, he, hn⟩
    · rw [hs.budget] at hn
      exact .inl ⟨hn, hok p s' hp⟩
    · rw [hs.budget] at hn
      rw [hs.maxDepth] at he
      exact .inr ⟨hn, e, herror e s' hp, he⟩

/-- What is accepted has tokens that derive the tree, with no more levels than there are. -/
theorem exists_derivable_of_parseSource (h : parseSource source options = .ok p) :
    ∃ ts n, tokenize source options.file = .ok ts ∧
      Derivable (options.file.getD defaultLabel) ts p n ∧ n ≤ options.maxDepth := by
  rcases parseSource_cases source options with ⟨e, he, -⟩ | ⟨s, hs, -, herror⟩
  · rw [h] at he
    cases he
  · cases hp : program s with
    | error e s' =>
      rw [herror e s' hp] at h
      cases h
    | ok _ s' =>
      obtain ⟨c, hc, hsettled⟩ := Orderly.ok hp
      have hfault : s.fault = none := by
        rw [← hc.fault]
        exact hsettled hs.settled (upcoming_of_program_eq_ok hp)
      have htokens : tokenize source options.file = .ok s.upcoming := by
        rw [tokenize_eq_ok_iff_streamOf, hs.upcoming, ← hfault, hs.fault]
      -- The derivation found along the run is one that the run follows, so it has its tree.
      obtain ⟨p', n, hd⟩ := exists_derivable_of_program_eq_ok hp
      rw [hs.file] at hd
      rcases parseSource_of_derivable htokens hd with ⟨hn, hok⟩ | ⟨-, e, he, -⟩
      · rw [h] at hok
        cases hok
        exact ⟨s.upcoming, n, htokens, hd, hn⟩
      · rw [h] at he
        cases he

/-- The tokens of a source have at most one derivation. -/
theorem Derivable.unique_of_tokenize {file : Option String}
    (htokens : tokenize source file = .ok ts) (h : Derivable (file.getD defaultLabel) ts p n)
    (h' : Derivable (file.getD defaultLabel) ts p' n') : p = p' ∧ n = n' := by
  -- A derivation that takes no more levels than another succeeds where the other one does.
  have hle : ∀ {p p' n n'}, Derivable (file.getD defaultLabel) ts p n →
      Derivable (file.getD defaultLabel) ts p' n' → n ≤ n' → p = p' ∧ n = n' := by
    intro p p' n n' h h' hnn
    have hn := @parseSource_of_derivable source ⟨file, n⟩ ts p n htokens h
    have hn' := @parseSource_of_derivable source ⟨file, n⟩ ts p' n' htokens h'
    rcases hn with ⟨-, hok⟩ | ⟨hlt, -⟩
    · rcases hn' with ⟨hle, hok'⟩ | ⟨-, e, he, -⟩
      · rw [hok] at hok'
        cases hok'
        exact ⟨rfl, Nat.le_antisymm hnn hle⟩
      · rw [hok] at he
        cases he
    · exact absurd hlt (Nat.lt_irrefl _)
  rcases Nat.le_total n n' with hnn | hnn
  · exact hle h h' hnn
  · obtain ⟨hp, hn⟩ := hle h' h hnn
    exact ⟨hp.symm, hn.symm⟩

/-- A source is accepted with a tree exactly if its tokens derive that tree and take no more levels
than the limit; if they take more, the limit is what it fails on; and the derivation is the only
one. -/
theorem parseSource_accepts_iff_derivable (source : String) (options : ParseOptions) :
    (∀ p, parseSource source options = .ok p ↔
      ∃ ts n, tokenize source options.file = .ok ts ∧
        Derivable (options.file.getD defaultLabel) ts p n ∧ n ≤ options.maxDepth) ∧
    (∀ ts p n, tokenize source options.file = .ok ts →
      Derivable (options.file.getD defaultLabel) ts p n → options.maxDepth < n →
      ∃ e, parseSource source options = .error e ∧ e.cause = .tooDeep options.maxDepth) ∧
    (∀ ts p n p' n', tokenize source options.file = .ok ts →
      Derivable (options.file.getD defaultLabel) ts p n →
      Derivable (options.file.getD defaultLabel) ts p' n' → p = p' ∧ n = n') := by
  refine ⟨fun p => ⟨exists_derivable_of_parseSource, ?_⟩, ?_,
    fun ts p n p' n' => Derivable.unique_of_tokenize⟩
  · rintro ⟨ts, n, htokens, hd, hn⟩
    rcases parseSource_of_derivable htokens hd with ⟨-, hok⟩ | ⟨hlt, -⟩
    · exact hok
    · omega
  · intro ts p n htokens hd hlt
    rcases parseSource_of_derivable htokens hd with ⟨hn, -⟩ | ⟨-, h⟩
    · omega
    · exact h

end Scriptlet
