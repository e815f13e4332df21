import Scriptlet.Proofs.Blindness
import Scriptlet.Proofs.FailureStates
import Scriptlet.Proofs.Spans

/-!
# Only kinds and texts of tokens matter

Two sources may be written with other gaps and carry other labels. If they have the same tokens but
for positions, then the same becomes of them but for positions: the same tree, or the same error at
the token with the same number. This is blindness to positions along the map that forgets all of
them.

## Main definitions

* `bare`: what is left without positions.

## Main results

* `Parser.tracks_program`: programs are read alike from tokens that are alike;
* `parseSource_bare`: the same becomes of sources with the same tokens.
-/

namespace Scriptlet

open Scriptlet.Parser
open Text (byteLength)

/-- Forgets a position. -/
def forget (_ : Position) : Position := ⟨0, ""⟩

/-- What is left of a thing without the positions in it. -/
def bare {α : Type} [Relocatable α] (a : α) : α := relocate forget a

/-- Of a token its kind and its text are left. -/
theorem bare_eq_of_map_eq {ts us : List Token}
    (h : ts.map (fun t => (t.kind, t.value)) = us.map fun u => (u.kind, u.value)) :
    bare ts = bare us := by
  have hbare (ts : List Token) : bare ts = (ts.map fun t => (t.kind, t.value)).map
      fun part => ⟨part.1, part.2, ⟨⟨0, ""⟩, ⟨0, ""⟩⟩⟩ := by
    rw [List.map_map]
    rfl
  rw [hbare, hbare, h]

/-- Programs are read alike from tokens that are alike. -/
theorem Parser.tracks_program {feed feed' : Feed} {label label' : String} {m : Nat}
    {s s' : Session} (hs : Opens feed label m s) (hs' : Opens feed' label' m s')
    (htokens : bare feed.tokens = bare feed'.tokens) (hfault : bare feed.fault = bare feed'.fault) :
    Tracks forget forget program program s s' := by
  have hshadows : Shadows forget forget true s s' :=
    ⟨hs'.depth.trans hs.depth.symm, hs'.maxDepth.trans hs.maxDepth.symm, .inl rfl⟩
  have hprogram := program_apply s
  have hprogram' := program_apply s'
  rw [hs.budget] at hprogram
  rw [hs'.budget] at hprogram'
  refine .congr hprogram hprogram' ?_
  refine Blind.bind (Grammar.blind_statementList (by simp) (Grammar.blind_statement m).weaken)
    (fun hbody => .look fun hseen => .pure ?_) hshadows ?_
  · rw [relocate_program, relocate_program, hbody]
    rfl
  · refine .of_relocate _ ?_ ?_
    · rw [hs.upcoming, hs'.upcoming]
      exact htokens
    · rw [hs.fault, hs'.fault]
      exact hfault

/-- An error of a program whose tokens reach the end of the source is in front of the first token
that has not been consumed, or behind the last one. -/
theorem position_of_program {ts : List Token} {label : String} {m : Nat} {s s' : Session}
    {e : Error} {c : List Token} (hs : Opens ⟨ts, none⟩ label m s)
    (h : program s = .error e s') (hc : Consumes s c s') :
    ts = c ++ s'.upcoming ∧ e.position = placeOf (stopOf (.of label 0) c) s'.upcoming := by
  refine ⟨hs.upcoming.symm.trans hc.upcoming, ?_⟩
  have hpoints := (Built.points inferInstance h).1
  -- As the tokens come without a fault, the error is one of the grammar.
  have hkind : e.cause.kind = .grammatical := by
    cases hkind : e.cause.kind with
    | grammatical => rfl
    | lexical =>
      obtain ⟨d, hd, hblames⟩ := Orderly.error h
      have hfault := (hblames hs.settled).fault_of_lexical hkind
      rw [hd.fault, hs.fault] at hfault
      cases hfault
    | internal => exact absurd hkind hpoints.kind_ne_internal
  rw [hpoints.position_eq hkind (Built.ne_malformedNumber inferInstance hs.readable h),
    s'.position_eq, hc.lastEnd, hs.lastEnd]

theorem getLast?_map_stop {c : List Token} (h : c ≠ []) (before : Position) :
    c.getLast?.map (·.span.stop) = some (stopOf before c) := by
  rw [stopOf, List.getLast?_eq_some_getLast h]
  rfl

/-- Two sources with the same tokens but for positions, under the same limit, are both accepted with
trees that are the same but for positions, or both rejected for the same cause, at the token with
the same number or at the end of the last token. -/
theorem parseSource_bare {source source' : String} {file file' : Option String}
    {ts us : List Token} (hts : tokenize source file = .ok ts)
    (hus : tokenize source' file' = .ok us)
    (hsame : ts.map (fun t => (t.kind, t.value)) = us.map fun u => (u.kind, u.value))
    (limit : Nat) :
    (∃ p q, parseSource source ⟨file, limit⟩ = .ok p ∧ parseSource source' ⟨file', limit⟩ = .ok q ∧
      bare p = bare q) ∨
    (∃ e f, parseSource source ⟨file, limit⟩ = .error e ∧
      parseSource source' ⟨file', limit⟩ = .error f ∧ e.cause = f.cause ∧
      ((∃ k : Nat, ts[k]?.map (·.span.start) = some e.position ∧
          us[k]?.map (·.span.start) = some f.position) ∨
        (ts.getLast?.map (·.span.stop) = some e.position ∧
          us.getLast?.map (·.span.stop) = some f.position))) := by
  have hne := ne_nil_of_tokenize hts
  have hlength : ts.length = us.length := by simpa using congrArg List.length hsame
  rw [tokenize_eq_ok_iff_streamOf] at hts hus
  rcases parseSource_cases source ⟨file, limit⟩ with ⟨e, -, hstream, -⟩ | ⟨s, hs, hok, herror⟩
  · rw [hts] at hstream
    cases hstream
  rcases parseSource_cases source' ⟨file', limit⟩ with ⟨e, -, hstream, -⟩ | ⟨s', hs', hok', herror'⟩
  · rw [hus] at hstream
    cases hstream
  rw [hts] at hs
  rw [hus] at hs'
  -- Two runs on the same bare tokens give the same bare tree, or fail with the same cause.
  rcases tracks_program hs hs' (bare_eq_of_map_eq hsame) rfl with
    ⟨_, _, p, q, _, _, hp, hq, hbare, -⟩ | ⟨c, d, e, f, s₁, s₁', he, hf, hbare, hc, hd, hcd⟩
  · exact .inl ⟨p, q, hok _ _ hp, hok' _ _ hq, hbare⟩
  have hcause : e.cause = f.cause := (Error.mk.inj hbare).1
  refine .inr ⟨e, f, herror _ _ he, herror' _ _ hf, hcause, ?_⟩
  obtain ⟨rfl, hposition⟩ := position_of_program hs he hc
  obtain ⟨rfl, hposition'⟩ := position_of_program hs' hf hd
  have hcd : c.length = d.length := by simpa using congrArg List.length hcd
  rw [List.length_append, List.length_append, hcd, Nat.add_left_cancel_iff] at hlength
  rw [hposition, hposition']
  cases hup : s₁.upcoming with
  | nil =>
    -- The input is used up in both runs.
    have hup' : s₁'.upcoming = [] := by simpa [hup] using hlength.symm
    rw [hup, List.append_nil] at hne
    have hne' : d ≠ [] := by simpa [← List.length_pos_iff, hcd] using hne
    rw [hup', List.append_nil, List.append_nil]
    exact .inr ⟨getLast?_map_stop hne _, getLast?_map_stop hne' _⟩
  | cons t behind =>
    obtain ⟨u, behind', hup'⟩ : ∃ u behind', s₁'.upcoming = u :: behind' :=
      List.exists_cons_of_length_pos (by rw [← hlength, hup]; exact Nat.succ_pos _)
    rw [hup']
    refine .inl ⟨c.length, ?_, ?_⟩
    · simp [placeOf]
    · rw [hcd]
      simp [placeOf]

/-- Other gaps and another label, and an error at the third token. -/
theorem parseSource_bare_comment :
    ∃ e f, parseSource "x = /* é */ ) 1" ⟨some "a", 4⟩ = .error e ∧
      parseSource "x=)1 // one" ⟨none, 4⟩ = .error f ∧ e.cause = f.cause := by
  have hsame : (tokenize "x = /* é */ ) 1" (some "a")).map (·.map fun t => (t.kind, t.value)) =
      (tokenize "x=)1 // one" none).map (·.map fun t => (t.kind, t.value)) := by
    decide +kernel
  have hok : (tokenize "x = /* é */ ) 1" (some "a")).isOk = true := by decide +kernel
  have herror : (parseSource "x=)1 // one" ⟨none, 4⟩).isOk = false := by decide +kernel
  cases hts : tokenize "x = /* é */ ) 1" (some "a") with
  | error e =>
    rw [hts] at hok
    cases hok
  | ok ts =>
    cases hus : tokenize "x=)1 // one" none with
    | error e =>
      rw [hts, hus] at hsame
      cases hsame
    | ok us =>
      rw [hts, hus] at hsame
      rcases parseSource_bare hts hus (Except.ok.inj hsame) 4 with
        ⟨p, q, -, hq, -⟩ | ⟨e, f, he, hf, hcause, -⟩
      · rw [hq] at herror
        cases herror
      · exact ⟨e, f, he, hf, hcause⟩

end Scriptlet
