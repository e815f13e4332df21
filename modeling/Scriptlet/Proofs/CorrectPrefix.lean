import Scriptlet.Proofs.Opening

/-!
# Syntax errors stand at the first token that is wrong

A parser that complains about a token is right to do so there, and neither earlier nor later. The
tokens in front of the one it complains about are the beginning of a program, and together with that
token they are the beginning of none. A parser that complains about the end of the input has read
the beginning of a program that is not a program itself.

So an error is a matter of the tokens up to the one it is about. Any other source that starts with
these tokens fails in the same way, whatever comes behind them, be it text that starts no token.

## Main definitions

* `Extendable`: tokens that are the beginning of a program.

## Main results

* `Parser.not_extendable_of_program_eq_error`: what a parser stops at cannot be part of a program;
* `Parser.program_eq_error_of_agree`: a source that starts with the same tokens fails in the same
  way;
* `parse_error_at_first_wrong_token`: the place of syntax errors.
-/

namespace Scriptlet

open Scriptlet.Parser

/-- The tokens are the beginning of a program. -/
def Extendable (file : String) (ts : List Token) : Prop := ∃ us p n, Derivable file (ts ++ us) p n

/-- The error is about a token, which is shown as given. -/
def Cause.IsAbout (cause : Cause) (shown : String) : Prop :=
  ∃ expected, cause = .unexpected shown expected ∨ cause = .misplaced shown expected

/-- An error about a token stands in front of it, and levels have nothing to do with it. -/
theorem Cause.IsAbout.blames {e : Error} {s : Session} {shown : String}
    (h : e.cause.IsAbout shown) (hb : Blames e s) :
    (∃ t, s.lookahead = some t ∧ shown = t.display ∧ e.position = t.span.start) ∧
      ∀ limit, e.cause ≠ .tooDeep limit := by
  obtain ⟨expected, hc | hc⟩ := h <;> rw [Blames, hc] at hb <;> exact ⟨hb, by simp [hc]⟩

namespace Parser

variable {feed feed' : Feed} {label : String} {m : Nat} {s s' s₀ : Session} {e : Error}
  {c : List Token} {t : Token}

/-- An error that is not a refusal of a level tells derivations apart from what was seen. -/
theorem not_derivable_of_program_eq_error {ts : List Token} (hs : Opens feed label m s)
    (h : program s = .error e s') (he : ∀ limit, e.cause ≠ .tooDeep limit)
    (hsee : Sees s s' ts none) (p : Program) (n : Nat) : ¬ Derivable label ts p n := by
  intro hd
  rw [← final_of_error h] at hsee
  rw [← hs.file] at hd
  have hend : s.lastEnd = .of s.file 0 := by rw [hs.lastEnd, hs.file]
  rcases follows_program hd hend hs.readable hsee with ⟨_, _, hok, -⟩ | ⟨e', _, herror, htoo, -⟩
  · rw [h] at hok
    cases hok
  · rw [h] at herror
    cases herror
    exact he _ htoo

/-- What has been consumed before an error is the beginning of a program. -/
theorem extendable_of_program_eq_error (hs : Opens feed label m s) (h : program s = .error e s')
    (hc : Consumes s c s') : Extendable label c := by
  obtain ⟨c', v, hc', p, n, hd⟩ := exists_derivable_append s
  rw [final_of_error h] at hc'
  rw [hs.file, hc'.unique hc] at hd
  exact ⟨v, p, n, hd⟩

/-- The token a parser stops at is not part of a program that begins with the tokens consumed. -/
theorem not_extendable_of_program_eq_error (hs : Opens feed label m s)
    (h : program s = .error e s') (he : ∀ limit, e.cause ≠ .tooDeep limit) (hc : Consumes s c s')
    (ht : s'.lookahead = some t) : ¬ Extendable label (c ++ [t]) := by
  rintro ⟨us, p, n, hd⟩
  refine not_derivable_of_program_eq_error hs h he ?_ p n hd
  rw [List.append_assoc]
  exact Sees.of_lookahead hc ht us none

/-- Sessions in front of sources that start with the same tokens stop at the last of these in the
same way. -/
theorem program_eq_error_of_agree (hs : Opens feed label m s)
    (hs₀ : Opens feed' label m s₀) (h : program s = .error e s')
    (he : ∀ limit, e.cause ≠ .tooDeep limit) (hc : Consumes s c s') (ht : s'.lookahead = some t)
    (hfeed : ∃ us, feed'.tokens = c ++ t :: us) : ∃ s₀', program s₀ = .error e s₀' := by
  obtain ⟨us, hfeed⟩ := hfeed
  have hsee : Sees s (program.final s) s₀.upcoming s₀.fault := by
    rw [final_of_error h, hs₀.upcoming, hfeed]
    exact Sees.of_lookahead hc ht us _
  rcases lockstep_program (hs.beside hs₀ (Nat.le_refl m)) hsee with ⟨_, _, _, _, hok, -⟩ |
    ⟨_, e', _, s₀', herror, herror', -⟩ | ⟨_, _, e', _, herror, htoo, -⟩
  · rw [h] at hok
    cases hok
  · rw [h] at herror
    cases herror
    exact ⟨s₀', herror'⟩
  · rw [h] at herror
    cases herror
    exact absurd htoo (he _)

/-- What an error about a token says of a program. -/
theorem program_error_of_isAbout {shown : String} (hs : Opens feed label m s)
    (h : program s = .error e s') (he : e.cause.IsAbout shown) :
    ∃ k t, feed.tokens[k]? = some t ∧ s'.upcoming = feed.tokens.drop k ∧
      shown = t.display ∧ e.position = t.span.start ∧
      Extendable label (feed.tokens.take k) ∧ ¬ Extendable label (feed.tokens.take (k + 1)) ∧
      ∀ {feed' s₀}, Opens feed' label m s₀ →
        feed'.tokens.take (k + 1) = feed.tokens.take (k + 1) →
        ∃ s₀', program s₀ = .error e s₀' := by
  obtain ⟨c, hc, hblames⟩ := Orderly.error h
  obtain ⟨⟨t, ht, hshown, hposition⟩, hne⟩ := he.blames (hblames hs.settled)
  obtain ⟨rest, hrest⟩ : ∃ rest, s'.upcoming = t :: rest := by
    rw [← s'.head?_upcoming] at ht
    exact List.head?_eq_some_iff.1 ht
  have htokens : feed.tokens = c ++ t :: rest := by rw [← hs.upcoming, hc.upcoming, hrest]
  have htake : feed.tokens.take (c.length + 1) = c ++ [t] := by
    rw [htokens, List.take_length_add_append]
    rfl
  refine ⟨c.length, t, ?_, ?_, hshown, hposition, ?_, ?_, fun {feed' s₀} hs₀ htake' => ?_⟩
  · rw [htokens, List.getElem?_append_right (Nat.le_refl _), Nat.sub_self]
    rfl
  · rw [htokens, List.drop_left, hrest]
  · rw [htokens, List.take_left]
    exact extendable_of_program_eq_error hs h hc
  · rw [htake]
    exact not_extendable_of_program_eq_error hs h hne hc ht
  · refine program_eq_error_of_agree hs hs₀ h hne hc ht ⟨feed'.tokens.drop (c.length + 1), ?_⟩
    rw [← List.take_append_drop (c.length + 1) feed'.tokens, htake', htake]
    simp

/-- What an error about the end of the input says of a program. -/
theorem program_error_of_endOfInput {expected : String} (hs : Opens feed label m s)
    (h : program s = .error e s') (he : e.cause = .endOfInput expected) :
    feed.fault = none ∧ Extendable label feed.tokens ∧
      ∀ p n, ¬ Derivable label feed.tokens p n := by
  obtain ⟨c, hc, hblames⟩ := Orderly.error h
  have hb := hblames hs.settled
  rw [Blames, he] at hb
  obtain ⟨hnil, hfault, -⟩ := hb
  have htokens : feed.tokens = c := by rw [← hs.upcoming, hc.upcoming, hnil, List.append_nil]
  have hfault' : feed.fault = none := by rw [← hs.fault, ← hc.fault, hfault]
  refine ⟨hfault', ?_, not_derivable_of_program_eq_error hs h (by simp [he]) ?_⟩
  · rw [htokens]
    exact extendable_of_program_eq_error hs h hc
  · rw [Sees, ← hs.upcoming, hs.fault, hfault']
    exact Agree.refl _ _ _

end Parser

/-- A syntax error is about the first token that cannot be part of a program: the tokens in front of
it are the beginning of one, with it they are not, and every source that starts with the same tokens
fails in the same way. If it is about the end of the input, the tokens of the source are the
beginning of a program and not a program. -/
theorem parse_error_at_first_wrong_token (source : String) (options : ParseOptions) (e : Error)
    (s : Session) (h : Parser.parse source (Session.new options) = .error e s) :
    (∀ shown, e.cause.IsAbout shown →
      ∃ k t, (streamOf source options.file).tokens[k]? = some t ∧
        s.upcoming = (streamOf source options.file).tokens.drop k ∧
        shown = t.display ∧ e.position = t.span.start ∧
        Extendable (options.file.getD defaultLabel)
          ((streamOf source options.file).tokens.take k) ∧
        ¬ Extendable (options.file.getD defaultLabel)
          ((streamOf source options.file).tokens.take (k + 1)) ∧
        ∀ source', (streamOf source' options.file).tokens.take (k + 1) =
            (streamOf source options.file).tokens.take (k + 1) →
          parseSource source' options = .error e) ∧
    (∀ expected, e.cause = .endOfInput expected →
      ∃ ts, tokenize source options.file = .ok ts ∧
        Extendable (options.file.getD defaultLabel) ts ∧
        ∀ p n, ¬ Derivable (options.file.getD defaultLabel) ts p n) := by
  rcases Parser.parse_cases source (Session.new options) with ⟨e', s', h', -, text, hcause⟩ |
    ⟨s₀, h', hs⟩
  · rw [h] at h'
    cases h'
    constructor
    · rintro shown ⟨expected, hc | hc⟩ <;> rw [hc] at hcause <;> cases hcause
    · intro expected hc
      rw [hc] at hcause
      cases hcause
  · rw [h'] at h
    constructor
    · intro shown he
      obtain ⟨k, t, ht, hdrop, hshown, hposition, hext, hnot, hsame⟩ :=
        program_error_of_isAbout hs h he
      refine ⟨k, t, ht, hdrop, hshown, hposition, hext, hnot, fun source' htake => ?_⟩
      rcases parseSource_cases source' options with ⟨e', -, hfeed, -⟩ | ⟨s₁, hs₁, -, herror⟩
      · -- A source without tokens does not start with any.
        have ht' : (streamOf source options.file).tokens[k]? = some t := ht
        rw [hfeed, List.take_nil, List.take_add_one, ht'] at htake
        simp at htake
      · obtain ⟨s₁', hs₁'⟩ := hsame hs₁ htake
        exact herror e s₁' hs₁'
    · intro expected he
      obtain ⟨hfault, hext, hnot⟩ := program_error_of_endOfInput hs h he
      refine ⟨_, ?_, hext, hnot⟩
      rw [tokenize_eq_ok_iff_streamOf, ← hfault]
      rfl

/-- A closing brace that closes nothing: the name in front of it is the beginning of a program, and
the two together are not. -/
theorem parse_error_at_first_wrong_token_closeCurly :
    ∃ s, Parser.parse "a\x7d" (Session.new {}) =
        .error ⟨.misplaced "\x7d" "expected an expression", .of defaultLabel 1⟩ s ∧
      ∃ k t, (streamOf "a\x7d" none).tokens[k]? = some t ∧ t.display = "\x7d" ∧
        Extendable defaultLabel ((streamOf "a\x7d" none).tokens.take k) ∧
        ¬ Extendable defaultLabel ((streamOf "a\x7d" none).tokens.take (k + 1)) := by
  have hrun : (((parseSource "a\x7d" {}).map fun _ => none).tryCatch (.ok ∘ some)).toOption =
      some (some ⟨.misplaced "\x7d" "expected an expression", .of defaultLabel 1⟩) := by
    decide +kernel
  cases hs : Parser.parse "a\x7d" (Session.new {}) with
  | ok p s =>
    rw [parseSource, hs] at hrun
    cases hrun
  | error e s =>
    rw [parseSource, hs] at hrun
    cases hrun
    obtain ⟨k, t, ht, -, hshown, -, hext, hnot, -⟩ :=
      (parse_error_at_first_wrong_token "a\x7d" {} _ s hs).1 "\x7d" ⟨_, .inr rfl⟩
    exact ⟨s, rfl, k, t, ht, hshown.symm, hext, hnot⟩

end Scriptlet
