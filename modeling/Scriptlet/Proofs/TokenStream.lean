import Scriptlet.Proofs.CodeRuns

/-!
# Parsing reads the token stream

A parser asks its scanner for one token at a time, and never for one again. What it gets that way is
what scanning the whole source at once gives: at every moment of a parse the tokens consumed and the
lookahead are the first tokens of the stream, and a parse that succeeds has consumed the stream.

The two ways of scanning fail alike. An error of a parser that is about the text of the source is
the error that ends the stream. Where the stream ends in an error, a parser comes to that error,
unless it finds fault with a token in front of it; and since every token takes some text, that token
starts at a smaller offset.

## Main definitions

* `Moment`: the moments of a parse, with the tokens consumed up to each.

## Main results

* `Moment.prefix_streamOf`: what is known of the source at a moment is the front of its stream;
* `Scanner.start_lt_of_fault`: all tokens start in front of the fault;
* `parse_consumes_tokenize`: pulling tokens agrees with scanning at once.
-/

namespace Scriptlet

open Scriptlet.Parser
open Text (byteLength)

/-! ### Moments -/

/-- A moment in the parse of a source by a session of its own: the tokens consumed so far, and the
session as it is then. Once the first token is there, the session goes step by step. -/
inductive Moment (source : String) (options : ParseOptions) : List Token → Session → Prop
  /-- The session stands in front of the source, and no token has been read. -/
  | before : Moment source options [] (restart source (Session.new options))
  /-- There is no first token. -/
  | unopened {e : Error} {s : Session} :
      prime (restart source (Session.new options)) = .error e s → Moment source options [] s
  /-- The first token has been read, and some tokens have been consumed. -/
  | opened {s₀ s : Session} {c : List Token} :
      prime (restart source (Session.new options)) = .ok () s₀ → Session.Run s₀ c s →
      Moment source options c s

variable {source : String} {options : ParseOptions}

/-- The tokens consumed at a moment, and the lookahead, are the first tokens of the stream. -/
theorem Moment.prefix_streamOf {c : List Token} {s : Session} (h : Moment source options c s) :
    c ++ s.lookahead.toList <+: (streamOf source options.file).tokens := by
  rcases prime_cases source (Session.new options) with ⟨e, s', hprime, hlook, -⟩ |
    ⟨s₀, hprime, hopens⟩
  · cases h with
    | before => exact List.nil_prefix
    | unopened h' =>
      rw [hprime] at h'
      cases h'
      rw [hlook]
      exact List.nil_prefix
    | opened h' =>
      rw [hprime] at h'
      cases h'
  · cases h with
    | before => exact List.nil_prefix
    | unopened h' =>
      rw [hprime] at h'
      cases h'
    | opened h' hrun =>
      rw [hprime] at h'
      cases h'
      have hprefix := hrun.append_toList_prefix
      rwa [hopens.upcoming] at hprefix

/-- What a parse leaves is the last of its moments. -/
theorem exists_moment_final (source : String) (options : ParseOptions) :
    ∃ c, Moment source options c ((parse source).final (Session.new options)) := by
  have hbuilt : Stepwise program := Built.stepwise inferInstance
  rcases prime_cases source (Session.new options) with ⟨e, s', hprime, -⟩ | ⟨s₀, hprime, -⟩
  · have hparse : parse source (Session.new options) = .error e s' := by
      rw [parse_apply, bind_of_error hprime]
    rw [final_of_error hparse]
    exact ⟨[], .unopened hprime⟩
  · have hparse : parse source (Session.new options) = program s₀ := by
      rw [parse_apply, bind_of_ok hprime]
    rw [final, hparse]
    cases hp : program s₀ with
    | ok p s' =>
      obtain ⟨c, hc, -⟩ := hbuilt.ok hp
      exact ⟨c, .opened hprime hc⟩
    | error e s' =>
      obtain ⟨c, hc, -⟩ := hbuilt.error hp
      exact ⟨c, .opened hprime hc⟩

/-- Whatever is run on the way of a parse, behind its first token, is run from a session that is
one of its moments. -/
theorem Reaches.exists_moment {α : Type} {d : Code α} {s₀ t : Session}
    (hprime : prime (restart source (Session.new options)) = .ok () s₀)
    (h : Reaches d t Name.program.code s₀) : ∃ c, Moment source options c t := by
  obtain ⟨c, hc⟩ := h.exists_run Name.program.code_below
  exact ⟨c, .opened hprime hc⟩

/-! ### Tokens in front of a fault -/

/-- A fault is inside the source, and every token starts in front of it. -/
theorem Scanner.start_lt_of_fault {s : Scanner} {e : Error} (h : s.feed.fault = some e) :
    ∃ k, s.offset ≤ k ∧ k < s.offset + byteLength s.rest ∧ e.position = .of s.file k ∧
      ∀ t ∈ s.feed.tokens, ∃ i < k, t.span.start = .of s.file i := by
  fun_induction feed s with
  | case1 s e' s' hnext =>
    cases h
    obtain ⟨k, hle, hlt, hk⟩ := position_of_next_eq_error hnext
    exact ⟨k, hle, hlt, hk, by simp⟩
  | case2 => cases h
  | case3 s t s' hnext ih =>
    obtain ⟨k, hle, hlt, hk, hbefore⟩ := ih h
    have hscanned := scanned_of_next hnext
    have hstop := hscanned.stop
    rw [hscanned.file] at hk hbefore
    rcases start_lt_of_next hnext with ⟨start, hstart, hstart', hspan⟩ | ⟨-, hlast⟩
    · refine ⟨k, by omega, by omega, hk, fun u hu => ?_⟩
      rcases List.mem_cons.1 hu with rfl | hu
      · exact ⟨start, by omega, by rw [hspan]⟩
      · exact hbefore u hu
    · -- Behind the line break at the end of the source there is no fault.
      rw [feed_of_next_eq_none hlast] at h
      cases h

theorem tokenize_eq_error_iff_streamOf {file : Option String} {e : Error} :
    tokenize source file = .error e ↔ (streamOf source file).fault = some e := by
  rw [tokenize, Scanner.tokens_eq, streamOf]
  cases (Scanner.ofSource (file.getD defaultLabel) source).feed.fault <;> simp

/-- A lexical error is the fault behind what has come. -/
theorem Blames.fault_of_lexical {e : Error} {s : Session} (h : Blames e s)
    (hkind : e.cause.kind = .lexical) : s.fault = some e := by
  cases hcause : e.cause with
  | unrecognised text =>
    rw [Blames, hcause] at h
    exact h.2
  | _ =>
    rw [hcause] at hkind
    cases hkind

/-- Where the numbers that come have values, none is called malformed. -/
theorem Parser.Built.ne_malformedNumber {α : Type} {p : Parser α} (hp : Built p) {s s' : Session}
    {e : Error} (hs : s.Readable) (h : p s = .error e s') (text : String) :
    e.cause ≠ .malformedNumber text := by
  intro hcause
  obtain ⟨c, hc, -, hnumber⟩ := hp.stepwise.error h
  obtain ⟨t, ht, hk, hnone⟩ := hnumber text hcause
  have hmem : t ∈ s.upcoming := by
    rw [hc.upcoming_and_fault.1]
    exact List.mem_append_left _ ht
  have hsome := hs t hmem hk
  rw [hnone] at hsome
  cases hsome

/-- An error of a program in front of a fault is that fault, or it is about a token. -/
theorem position_of_program_eq_error {feed : Feed} {label : String} {m : Nat} {s s' : Session}
    {e e' : Error} (hs : Opens feed label m s) (hfault : feed.fault = some e)
    (h : program s = .error e' s') :
    e' = e ∨ e'.cause.kind = .grammatical ∧ ∃ t ∈ feed.tokens, e'.position = t.span.start := by
  obtain ⟨c, hc, hblames⟩ := Orderly.error h
  obtain ⟨-, -, hsettled, -⟩ := (Built.stepwise (inferInstance : Built program)).error h
  have hfault' : s'.fault = some e := by rw [hc.fault, hs.fault, hfault]
  -- A token that is still to come is one of the source.
  have hmem : ∀ {t}, s'.lookahead = some t → t ∈ feed.tokens := by
    intro t ht
    rw [← hs.upcoming, hc.upcoming]
    refine List.mem_append_right c (List.mem_of_mem_head? ?_)
    rw [s'.head?_upcoming, ht]
    rfl
  have hb := hblames hs.settled
  cases hcause : e'.cause with
  | unrecognised text =>
    rw [Blames, hcause] at hb
    rw [hb.2, Option.some.injEq] at hfault'
    exact .inl hfault'
  | unexpected token expected =>
    rw [Blames, hcause] at hb
    obtain ⟨t, ht, -, hposition⟩ := hb
    exact .inr ⟨rfl, t, hmem ht, hposition⟩
  | misplaced token message =>
    rw [Blames, hcause] at hb
    obtain ⟨t, ht, -, hposition⟩ := hb
    exact .inr ⟨rfl, t, hmem ht, hposition⟩
  | endOfInput expected =>
    rw [Blames, hcause, hfault'] at hb
    cases hb.2.1
  | malformedNumber text =>
    exact absurd hcause (Built.ne_malformedNumber inferInstance hs.readable h text)
  | tooDeep limit =>
    rw [Blames, hcause] at hb
    have hsettled' : s'.Settled := by
      refine (hsettled hs.settled).resolve_right ?_
      rw [hcause]
      simp [Cause.kind]
    cases ht : s'.lookahead with
    | none =>
      have hnone := hsettled' (Session.lookahead_eq_none_iff.1 ht)
      rw [hnone] at hfault'
      cases hfault'
    | some t =>
      refine .inr ⟨rfl, t, hmem ht, ?_⟩
      rw [hb.2, Session.position, ht]
  | internal message =>
    rw [Blames, hcause] at hb
    exact hb.elim

/-! ### Both ways of scanning -/

/-- A parse that succeeds has consumed the tokens of the source, and nothing is left. -/
theorem tokenize_of_parse_eq_ok {p : Program} {s : Session}
    (h : parse source (Session.new options) = .ok p s) :
    ∃ ts, tokenize source options.file = .ok ts ∧ Moment source options ts s ∧
      s.lookahead = none := by
  rcases prime_cases source (Session.new options) with ⟨e, s', hprime, -⟩ | ⟨s₀, hprime, hs⟩
  · rw [parse_apply, bind_of_error hprime] at h
    cases h
  · rw [parse_apply, bind_of_ok hprime] at h
    have hnil := upcoming_of_program_eq_ok h
    obtain ⟨c, hrun, hsettled⟩ := (Built.stepwise inferInstance).ok h
    obtain ⟨hup, hfault⟩ := hrun.upcoming_and_fault
    rw [hnil, List.append_nil, hs.upcoming] at hup
    rw [hsettled hs.settled hnil, hs.fault] at hfault
    refine ⟨c, ?_, .opened hprime hrun, Session.lookahead_eq_none_iff.2 hnil⟩
    rw [tokenize_eq_ok_iff_streamOf, ← hup, hfault]
    rfl

/-- A lexical error of a parse is the error that ends the tokens of the source. -/
theorem tokenize_of_parse_eq_error {e : Error} {s : Session}
    (h : parse source (Session.new options) = .error e s) (hkind : e.cause.kind = .lexical) :
    tokenize source options.file = .error e := by
  rw [tokenize_eq_error_iff_streamOf]
  rcases parse_cases source (Session.new options) with ⟨e', s', h', hfeed, -⟩ | ⟨s₀, h', hs⟩
  · rw [h] at h'
    cases h'
    exact congrArg Feed.fault hfeed
  · rw [h'] at h
    obtain ⟨c, hc, hblames⟩ := Orderly.error h
    have hfault := (hblames hs.settled).fault_of_lexical hkind
    rw [hc.fault, hs.fault] at hfault
    exact hfault

/-- A source whose tokens end in an error is not parsed: the error is that one, or it is about a
token. -/
theorem parse_of_tokenize_eq_error {e : Error} (h : tokenize source options.file = .error e) :
    ∃ e' s, parse source (Session.new options) = .error e' s ∧
      (e' = e ∨ e'.cause.kind = .grammatical ∧
        ∃ t ∈ (streamOf source options.file).tokens, e'.position = t.span.start) := by
  rw [tokenize_eq_error_iff_streamOf] at h
  rcases parse_cases source (Session.new options) with ⟨e', s', hparse, hfeed, -⟩ |
    ⟨s₀, hparse, hs⟩
  · have hfault : some e' = some e := (congrArg Feed.fault hfeed).symm.trans h
    cases hfault
    exact ⟨e, s', hparse, .inl rfl⟩
  · cases hp : program s₀ with
    | ok p s' =>
      obtain ⟨c, hc, hsettled⟩ := Orderly.ok hp
      have hnone := hsettled hs.settled (upcoming_of_program_eq_ok hp)
      rw [hc.fault, hs.fault] at hnone
      have hsome : some e = none := h.symm.trans hnone
      cases hsome
    | error e' s' => exact ⟨e', s', hparse.trans hp, position_of_program_eq_error hs h hp⟩

/-- A parse that succeeds has consumed exactly the tokens of the source, and no lookahead is left; a
lexical error of a parse is that of scanning at once; where scanning fails so does the parse, with
the same error or with a syntax error further in front; and at every moment of a parse the tokens
consumed and the lookahead are the first tokens of the source. The session that a parse ends with is
one of its moments, and so is every session from which a piece of its code is run. -/
theorem parse_consumes_tokenize (source : String) (options : ParseOptions) :
    (∀ p s, parse source (Session.new options) = .ok p s →
      ∃ ts, tokenize source options.file = .ok ts ∧ Moment source options ts s ∧
        s.lookahead = none) ∧
    (∀ e s, parse source (Session.new options) = .error e s → e.cause.kind = .lexical →
      tokenize source options.file = .error e) ∧
    (∀ e, tokenize source options.file = .error e → byteLength source.toList < UInt32.size →
      ∃ e' s, parse source (Session.new options) = .error e' s ∧
        (e' = e ∨ e'.cause.kind = .grammatical ∧ e'.position.file = e.position.file ∧
          e'.position.offset < e.position.offset)) ∧
    (∃ c, Moment source options c ((parse source).final (Session.new options))) ∧
    (∀ s₀, prime (restart source (Session.new options)) = .ok () s₀ →
      ∀ {α : Type} (d : Code α) (s : Session), Reaches d s Name.program.code s₀ →
        ∃ c, Moment source options c s) ∧
    (∀ c s, Moment source options c s →
      c ++ s.lookahead.toList <+: (streamOf source options.file).tokens) := by
  refine ⟨fun p s => tokenize_of_parse_eq_ok, fun e s => tokenize_of_parse_eq_error,
    fun e h hsize => ?_, exists_moment_final source options,
    fun s₀ hprime _ d s h => h.exists_moment hprime, fun c s => Moment.prefix_streamOf⟩
  obtain ⟨e', s, hparse, hcases⟩ := parse_of_tokenize_eq_error h
  refine ⟨e', s, hparse, hcases.imp_right fun ⟨hkind, t, ht, hposition⟩ => ?_⟩
  rw [tokenize_eq_error_iff_streamOf] at h
  obtain ⟨k, -, hk, hposition', hbefore⟩ := Scanner.start_lt_of_fault h
  obtain ⟨i, hi, hstart⟩ := hbefore t ht
  simp only [Scanner.ofSource, Nat.zero_add] at hk
  rw [hposition, hstart, hposition']
  refine ⟨hkind, rfl, ?_⟩
  rw [UInt32.lt_iff_toNat_lt, Position.toNat_offset_of _ (by omega),
    Position.toNat_offset_of _ (by omega)]
  exact hi

end Scriptlet
