import Scriptlet.Decimal.Binary64
import Scriptlet.Proofs.Consumption

/-!
# What scanned tokens are like

Two things are known of every token that a scanner hands out. It stands behind the tokens handed out
before it and inside the source, so the places a parser comes to never go back; and if it is a
number, its text denotes one.

## Main definitions

* `Scanned`: what one token taken from a scanner is like;
* `Ordered`: tokens that stand one behind the other.

## Main results

* `Scanner.scanned_of_next`: every token is like that;
* `Scanner.ordered_feed`, `Ordered.place_le`: the places between tokens are in order;
* `Scanner.isSome_of_mem_feed`: every number has a value.
-/

namespace Scriptlet

open Text (byteLength)

/-! ### Numbers -/

theorem digitsFrom?_isSome {cs : List Char} (h : ∀ c ∈ cs, isDigit c = true) (n : Nat) :
    (digitsFrom? n cs).isSome := by
  induction cs generalizing n with
  | nil => rfl
  | cons c cs ih =>
    have hc : '0' ≤ c ∧ c ≤ '9' := by simpa [isDigit] using h c List.mem_cons_self
    rw [digitsFrom?, digitValue?, if_pos hc]
    exact ih (fun c hc => h c (List.mem_cons_of_mem _ hc)) _

theorem digits?_isSome {cs : List Char} (hne : cs ≠ []) (h : ∀ c ∈ cs, isDigit c = true) :
    (digits? cs).isSome := by
  rw [digits?, if_neg hne]
  exact digitsFrom?_isSome h 0

theorem takeRun?_isDigit {cs run rest : List Char}
    (h : takeRun? isDigit isDigit cs = some (run, rest)) :
    run ≠ [] ∧ ∀ c ∈ run, isDigit c = true := by
  cases cs with
  | nil => cases h
  | cons c cs =>
    rw [takeRun?] at h
    split at h
    · rename_i hc
      cases h
      refine ⟨by simp, fun d hd => ?_⟩
      rcases List.mem_cons.1 hd with rfl | hd
      · exact hc
      · exact List.all_eq_true.1 List.all_takeWhile d hd
    · cases h

theorem takeFraction_cases (cs : List Char) :
    (takeFraction cs).1 = [] ∨ ∃ fraction, fraction ≠ [] ∧ (∀ c ∈ fraction, isDigit c = true) ∧
      (takeFraction cs).1 = '.' :: fraction := by
  rw [takeFraction.eq_def]
  split
  · split
    · rename_i fraction _ hfraction
      obtain ⟨hne, hdigits⟩ := takeRun?_isDigit hfraction
      exact .inr ⟨fraction, hne, hdigits, rfl⟩
    · exact .inl rfl
  · exact .inl rfl

/-- Digits end in front of a dot and at the end of the text. -/
theorem takeWhile_of_isDigit {cs : List Char} (h : ∀ c ∈ cs, isDigit c = true) (rest : List Char)
    (hrest : rest.takeWhile (· != '.') = []) : (cs ++ rest).takeWhile (· != '.') = cs := by
  have hcs : ∀ c ∈ cs, (c != '.') = true := by
    intro c hc
    rw [bne_iff_ne]
    rintro rfl
    exact absurd (h _ hc) (by decide)
  rw [List.takeWhile_append_of_pos hcs, hrest, List.append_nil]

/-- Digits, and a dot and digits behind them, denote a number. -/
theorem isSome_ofLiteral? {cs text rest : List Char} (h : takeNumber? cs = some (text, rest)) :
    (Binary64.ofLiteral? (String.ofList text)).isSome := by
  obtain ⟨⟨whole, more⟩, hrun, heq⟩ := Option.map_eq_some_iff.1 h
  obtain ⟨hne, hdigits⟩ := takeRun?_isDigit hrun
  obtain ⟨n, hn⟩ := Option.isSome_iff_exists.1 (digits?_isSome hne hdigits)
  cases heq
  rcases takeFraction_cases more with hfraction | ⟨fraction, hne', hdigits', hfraction⟩
  · have hwhole := takeWhile_of_isDigit hdigits [] rfl
    rw [List.append_nil] at hwhole
    rw [hfraction, Binary64.ofLiteral?, String.toList_ofList, List.append_nil, hwhole]
    simp [hn]
  · obtain ⟨m, hm⟩ := Option.isSome_iff_exists.1 (digits?_isSome hne' hdigits')
    obtain ⟨k, hk⟩ := Option.isSome_iff_exists.1 (digitsFrom?_isSome hdigits' n)
    have hwhole := takeWhile_of_isDigit hdigits ('.' :: fraction) rfl
    rw [hfraction, Binary64.ofLiteral?, String.toList_ofList, hwhole]
    simp [hn, hm, hk]

/-! ### Tokens -/

/-- The token `t` taken from the scanner `s`, which leaves `s'`. -/
structure Scanned (s : Scanner) (t : Token) (s' : Scanner) : Prop where
  /-- The label stays. -/
  file : s'.file = s.file
  /-- The token stands between the two scanners. -/
  span : ∃ start, s.offset ≤ start ∧ start ≤ s'.offset ∧
    t.span = ⟨.of s.file start, .of s.file s'.offset⟩
  /-- The source ends where it ended. -/
  stop : s'.offset + byteLength s'.rest = s.offset + byteLength s.rest
  /-- A number has a value. -/
  number : t.kind = .number → (Binary64.ofLiteral? t.value).isSome

theorem Kind.reserved?_ne_number (text : String) : Kind.reserved? text ≠ some .number := by
  rw [Kind.reserved?.eq_def]
  split <;> simp

/-- Only the pattern of numbers gives numbers. -/
theorem Pattern.isSome_of_token? {p : Pattern} {last : Option Kind} {cs text rest : List Char}
    {kind : Kind} {value : String} (hmem : p ∈ Pattern.table)
    (hsplit : p.split? cs = some (text, rest))
    (h : p.token? last text = some (kind, value)) (hk : kind = .number) :
    (Binary64.ofLiteral? value).isSome := by
  subst hk
  cases p with
  | number =>
    cases h
    exact isSome_ofLiteral? hsplit
  | word =>
    exfalso
    simp only [token?, Option.some.injEq, Prod.mk.injEq] at h
    cases hr : Kind.reserved? (String.ofList text) with
    | none => simp [hr] at h
    | some k =>
      simp only [hr, Option.getD_some] at h
      exact Kind.reserved?_ne_number _ (h.1 ▸ hr)
  | fixed k t =>
    cases h
    simp [table] at hmem
  | blanks => cases h
  | lineComment => cases h
  | blockComment => cases h
  | lineBreaks =>
    simp only [token?] at h
    split at h <;> cases h
  | quoted => cases h

namespace Scanner

/-- What is known of a token that is handed out. -/
theorem scanned_of_next {s s' : Scanner} {t : Token} (h : s.next = .ok (some t) s') :
    Scanned s t s' := by
  fun_induction next s with
  | case1 s hrest =>
    rw [close] at h
    split at h
    · cases h
    split at h
    · cases h
    · cases h
      exact ⟨rfl, ⟨s.offset, Nat.le_refl _, Nat.le_refl _, rfl⟩, rfl, by simp⟩
  | case2 => cases h
  | case3 s c cs hrest p text rest hit htoken ih =>
    obtain ⟨-, -, happend, -⟩ := firstMatch?_eq_some hit
    obtain ⟨hfile, ⟨start, hle, hle', hspan⟩, hstop, hnumber⟩ := ih h
    have hlength : byteLength s.rest = byteLength text + byteLength rest := by
      rw [hrest, happend, Text.byteLength_append]
    simp only [skip] at hfile hle hspan hstop
    exact ⟨hfile, ⟨start, by omega, hle', hspan⟩, by omega, hnumber⟩
  | case4 s c cs hrest p text rest hit kind value htoken =>
    obtain ⟨hmem, hsplit, happend, -⟩ := firstMatch?_eq_some hit
    have hlength : byteLength s.rest = byteLength text + byteLength rest := by
      rw [hrest, happend, Text.byteLength_append]
    cases h
    refine ⟨rfl, ⟨s.offset, Nat.le_refl _, ?_, rfl⟩, ?_,
      Pattern.isSome_of_token? hmem hsplit htoken⟩
    · simp only [skip]
      omega
    · simp only [skip]
      omega

/-- A token takes some text, unless it is the line break at the end of the source, and then nothing
comes behind it. -/
theorem start_lt_of_next {s s' : Scanner} {t : Token} (h : s.next = .ok (some t) s') :
    (∃ start, s.offset ≤ start ∧ start < s'.offset ∧
      t.span = ⟨.of s.file start, .of s.file s'.offset⟩) ∨
    (t.kind = .lineBreak ∧ s'.next = .ok none s') := by
  fun_induction next s with
  | case1 s hrest =>
    rw [close] at h
    split at h
    · cases h
    split at h
    · cases h
    · cases h
      -- The line break at the end of the source is the only token without text.
      exact .inr ⟨rfl, next_of_finished hrest rfl⟩
  | case2 => cases h
  | case3 s c cs hrest p text rest hit htoken ih =>
    rcases ih h with ⟨start, hle, hlt, hspan⟩ | hlast
    · simp only [skip] at hle hspan
      exact .inl ⟨start, by omega, hlt, hspan⟩
    · exact .inr hlast
  | case4 s c cs hrest p text rest hit kind value htoken =>
    obtain ⟨-, -, -, hne⟩ := firstMatch?_eq_some hit
    have hpos := Text.byteLength_pos hne
    cases h
    refine .inl ⟨s.offset, Nat.le_refl _, ?_, rfl⟩
    simp only [skip]
    omega

/-- A fault is in front of some text. -/
theorem position_of_next_eq_error {s s' : Scanner} {e : Error} (h : s.next = .error e s') :
    ∃ k, s.offset ≤ k ∧ k < s.offset + byteLength s.rest ∧ e.position = .of s.file k := by
  fun_induction next s with
  | case1 s hrest =>
    obtain ⟨t, ht⟩ := s.close_eq
    rw [ht] at h
    cases h
  | case2 s c cs hrest hit =>
    have hpos : 0 < byteLength s.rest := by rw [hrest]; exact Text.byteLength_pos (by simp)
    rw [EStateM.Result.error.injEq] at h
    exact ⟨s.offset, Nat.le_refl _, by omega, by rw [← h.1]; rfl⟩
  | case3 s c cs hrest p text rest hit htoken ih =>
    obtain ⟨-, -, happend, -⟩ := firstMatch?_eq_some hit
    have hlength : byteLength s.rest = byteLength text + byteLength rest := by
      rw [hrest, happend, Text.byteLength_append]
    obtain ⟨k, hle, hlt, hk⟩ := ih h
    simp only [skip] at hle hlt hk
    exact ⟨k, by omega, by omega, hk⟩
  | case4 => cases h

theorem isSome_of_mem_feed {s : Scanner} {t : Token} (ht : t ∈ s.feed.tokens)
    (hk : t.kind = .number) : (Binary64.ofLiteral? t.value).isSome := by
  fun_induction feed s with
  | case1 => cases ht
  | case2 => cases ht
  | case3 s u s' h ih =>
    rcases List.mem_cons.1 ht with rfl | ht
    · exact (scanned_of_next h).number hk
    · exact ih ht

end Scanner

/-! ### Places -/

/-- Offsets below `2 ^ 32` are kept as they are. -/
theorem Position.toNat_offset_of (label : String) {k : Nat} (h : k < UInt32.size) :
    (Position.of label k).offset.toNat = k :=
  UInt32.toNat_ofNat_of_lt h

/-- Tokens that stand one behind the other, from an offset on and up to the end of the source. -/
inductive Ordered (file : String) (stop : Nat) : Nat → List Token → Prop
  | nil {offset : Nat} : offset ≤ stop → Ordered file stop offset []
  | cons {offset start next : Nat} {t : Token} {ts : List Token} : offset ≤ start → start ≤ next →
      t.span = ⟨.of file start, .of file next⟩ → Ordered file stop next ts →
      Ordered file stop offset (t :: ts)

theorem Scanner.ordered_feed (s : Scanner) :
    Ordered s.file (s.offset + byteLength s.rest) s.offset s.feed.tokens := by
  fun_induction feed s with
  | case1 => exact .nil (Nat.le_add_right _ _)
  | case2 => exact .nil (Nat.le_add_right _ _)
  | case3 s t s' h ih =>
    obtain ⟨hfile, ⟨start, hle, hle', hspan⟩, hstop, -⟩ := scanned_of_next h
    rw [hfile, hstop] at ih
    exact .cons hle hle' hspan ih

/-- The place in front of some tokens, or one given where there are none. -/
def placeOf (before : Position) (ts : List Token) : Position :=
  (ts.head?.map (·.span.start)).getD before

theorem Session.position_eq (s : Session) : s.position = placeOf s.lastEnd s.upcoming := by
  rw [position, placeOf, head?_upcoming]
  cases s.lookahead <;> rfl

namespace Ordered

variable {file : String} {stop offset : Nat} {c d ts : List Token}

theorem le_stop (h : Ordered file stop offset ts) : offset ≤ stop := by
  induction h with
  | nil h => exact h
  | cons _ _ _ _ ih => omega

/-- Behind tokens that were consumed, the others go on in order. -/
theorem append (h : Ordered file stop offset (c ++ ts)) :
    ∃ next, offset ≤ next ∧ stopOf (.of file offset) c = .of file next ∧
      Ordered file stop next ts := by
  induction c generalizing offset with
  | nil => exact ⟨offset, Nat.le_refl _, rfl, h⟩
  | cons t c ih =>
    cases h with
    | cons hle hle' hspan h =>
      obtain ⟨next, hnext, hstop, h⟩ := ih h
      refine ⟨next, by omega, ?_, h⟩
      rw [show t :: c = [t] ++ c from rfl, stopOf_append, stopOf_singleton, hspan, hstop]

/-- The place in front of tokens is inside the source and not in front of the offset. -/
theorem place (h : Ordered file stop offset ts) :
    ∃ k, offset ≤ k ∧ k ≤ stop ∧ placeOf (.of file offset) ts = .of file k := by
  cases h with
  | nil hle => exact ⟨offset, Nat.le_refl _, hle, rfl⟩
  | @cons _ start next t ts hle hle' hspan h =>
    have hstop := h.le_stop
    refine ⟨start, hle, by omega, ?_⟩
    rw [placeOf, List.head?_cons, Option.map_some, Option.getD_some, hspan]

/-- Consuming tokens leads to no place further in front. -/
theorem place_le (h : Ordered file stop offset (d ++ ts)) :
    ∃ k l, k ≤ l ∧ l ≤ stop ∧ placeOf (.of file offset) (d ++ ts) = .of file k ∧
      placeOf (stopOf (.of file offset) d) ts = .of file l := by
  cases d with
  | nil =>
    obtain ⟨k, -, hk, hplace⟩ := h.place
    exact ⟨k, k, Nat.le_refl _, hk, hplace, hplace⟩
  | cons t d =>
    cases h with
    | @cons _ start mid _ _ hle hle' hspan h =>
      obtain ⟨next, hmid, hstop, hts⟩ := h.append
      obtain ⟨l, hl, hl', hplace⟩ := hts.place
      refine ⟨start, l, by omega, hl', ?_, ?_⟩
      · rw [placeOf, List.cons_append, List.head?_cons, Option.map_some, Option.getD_some, hspan]
      · rw [show t :: d = [t] ++ d from rfl, stopOf_append, stopOf_singleton, hspan, hstop, hplace]

end Ordered

end Scriptlet
