import Scriptlet.Parser.Session

/-!
# What a scanner and a session have still to come

A scanner hands out tokens one at a time. Seen from outside it is the list of all tokens it will
hand out, and the error that stops it where it does not reach the end of the source: its *feed*. A
session has a feed too, the lookahead in front of that of its scanner; a session without a lookahead
has nothing to come, whatever its scanner could still find.

Parsers are reasoned about through feeds alone. How a scanner finds its tokens matters here and in
the modules on positions, and nowhere else.

## Main definitions

* `Scanner.feed`, `Session.upcoming`, `Session.fault`;
* `Agree`: two feeds that look the same from behind their first tokens.

## Main results

* `Scanner.tokens_eq`: batch scanning reads the feed;
* `Scanner.feed_of_token?_eq_none`, `Scanner.feed_of_token?_eq_some`: what a match adds to the feed;
* `Scanner.induction_on_rest`: induction along the matches;
* `Scanner.length_feed_le`: a source has at most one token more than bytes;
* `Agree.append`: agreement is passed on behind the tokens consumed.
-/

namespace Scriptlet

open Text (byteLength)

/-- The tokens that come, and the error behind them where they do not reach the end. -/
structure Feed where
  /-- The tokens in order. -/
  tokens : List Token
  /-- The error in front of the first text that starts no token, if there is one. -/
  fault : Option Error

namespace Scanner

/-! ### One call -/

/-- The scanner behind a token of another kind. -/
def behind (s : Scanner) (last : Option Kind) : Scanner := { s with lastKind := last }

section Call

variable {s : Scanner} {p : Pattern} {text rest : List Char}

/-- With nothing left, the end of the source is dealt with. -/
theorem next_of_rest_eq_nil (hrest : s.rest = []) : s.next = s.close := by
  rw [next]
  split
  · rfl
  · rename_i h
    rw [hrest] at h
    cases h

/-- In front of a text that starts no token a scanner fails. -/
theorem next_of_firstMatch?_eq_none {c : Char} {cs : List Char} (hrest : s.rest = c :: cs)
    (hit : firstMatch? s.rest = none) :
    s.next = .error ⟨.unrecognised (String.singleton c), s.position⟩ s := by
  obtain ⟨file, offset, _, last, finished⟩ := s
  subst hrest
  rw [next]
  split
  · rename_i h
    cases h
  · rename_i h
    cases h
    split
    · rfl
    · rename_i hsome
      rw [hit] at hsome
      cases hsome

/-- A match is passed over, unless it stands for a token, which is handed out. -/
theorem next_of_firstMatch? (hit : firstMatch? s.rest = some (p, text, rest)) :
    s.next = match p.token? s.lastKind text with
      | none => (s.skip text rest).next
      | some (kind, value) =>
        .ok (some ⟨kind, value, .of s.file s.offset (byteLength text)⟩)
          ((s.skip text rest).behind (some kind)) := by
  rw [next]
  split
  · rename_i hrest
    rw [hrest] at hit
    cases hit
  · rename_i c cs hrest
    rw [hrest] at hit
    split
    · rename_i hnone
      rw [hnone] at hit
      cases hit
    · rename_i hsome
      rw [hsome] at hit
      cases hit
      rfl

end Call

/-! ### Asking again -/

/-- Behind its end a source has nothing more to come. -/
theorem next_of_finished {s : Scanner} (hrest : s.rest = []) (hf : s.finished = true) :
    s.next = .ok none s := by
  rw [next_of_rest_eq_nil hrest, close, if_pos hf]

/-- The end of a source is dealt with once: either it has been, or it is from now on. -/
theorem close_eq (s : Scanner) :
    ∃ t, s.close = .ok t { s with
      lastKind := if s.finished then s.lastKind else some .lineBreak, finished := true } := by
  obtain ⟨file, offset, rest, last, finished⟩ := s
  cases finished
  · by_cases h : last = some .lineBreak
    · exact ⟨none, by simp [close, h]⟩
    · exact ⟨some ⟨.lineBreak, "\n", .of file offset 0⟩, by simp [close, h]⟩
  · exact ⟨none, rfl⟩

/-- At the end a scanner stays there. -/
theorem next_of_next_eq_none {s s' : Scanner} (h : s.next = .ok none s') :
    s'.next = .ok none s' := by
  fun_induction next s with
  | case1 s hrest =>
    obtain ⟨t, ht⟩ := s.close_eq
    rw [ht] at h
    cases h
    exact next_of_finished hrest rfl
  | case2 => cases h
  | case3 s c cs hrest p text rest hit htoken ih => exact ih h
  | case4 => cases h

/-- In front of a text that starts no token a scanner stays there. -/
theorem next_of_next_eq_error {s s' : Scanner} {e : Error} (h : s.next = .error e s') :
    s'.next = .error e s' := by
  fun_induction next s with
  | case1 s hrest =>
    obtain ⟨t, ht⟩ := s.close_eq
    rw [ht] at h
    cases h
  | case2 s c cs hrest hit =>
    cases h
    -- Nothing has been taken, so the same text is refused again.
    exact next_of_firstMatch?_eq_none hrest (hrest ▸ hit)
  | case3 s c cs hrest p text rest hit htoken ih => exact ih h
  | case4 => cases h

/-- A scanner fails on a text that starts no token, and on nothing else. -/
theorem cause_of_next_eq_error {s s' : Scanner} {e : Error} (h : s.next = .error e s') :
    ∃ text, e.cause = .unrecognised text := by
  fun_induction next s with
  | case1 s hrest =>
    obtain ⟨t, ht⟩ := s.close_eq
    rw [ht] at h
    cases h
  | case2 => cases h; exact ⟨_, rfl⟩
  | case3 s c cs hrest p text rest hit htoken ih => exact ih h
  | case4 => cases h

/-- A failed attempt adds nothing to what remains. -/
theorem remaining_le_of_next_eq_error {s s' : Scanner} {e : Error} (h : s.next = .error e s') :
    s'.remaining ≤ s.remaining := by
  fun_induction next s with
  | case1 s hrest =>
    obtain ⟨t, ht⟩ := s.close_eq
    rw [ht] at h
    cases h
  | case2 => cases h; exact Nat.le_refl _
  | case3 s c cs hrest p text rest hit htoken ih =>
    have hlt := byteLength_lt_of_firstMatch? hit
    have := ih h
    simp only [remaining, skip, hrest] at this ⊢
    omega
  | case4 => cases h

/-! ### Feeds -/

/-- All that a scanner has still to come. -/
def feed (s : Scanner) : Feed :=
  match _h : s.next with
  | .error e _ => ⟨[], some e⟩
  | .ok none _ => ⟨[], none⟩
  | .ok (some t) s' => ⟨t :: s'.feed.tokens, s'.feed.fault⟩
termination_by s.remaining
decreasing_by all_goals exact remaining_lt_of_next _h

/-- A scanner that fails has no tokens to come. -/
theorem feed_of_next_eq_error {s s' : Scanner} {e : Error} (h : s.next = .error e s') :
    s.feed = ⟨[], some e⟩ := by
  rw [feed]
  split <;> simp_all

theorem feed_of_next_eq_none {s s' : Scanner} (h : s.next = .ok none s') : s.feed = ⟨[], none⟩ := by
  rw [feed]
  split <;> simp_all

theorem feed_of_next_eq_some {s s' : Scanner} {t : Token} (h : s.next = .ok (some t) s') :
    s.feed = ⟨t :: s'.feed.tokens, s'.feed.fault⟩ := by
  rw [feed]
  split <;> simp_all

/-- Batch scanning gives the tokens of the feed, or else its fault. -/
theorem tokens_eq (s : Scanner) :
    s.tokens = match s.feed.fault with
      | none => .ok s.feed.tokens
      | some e => .error e := by
  fun_induction tokens s with
  | case1 s e s' h => rw [feed_of_next_eq_error h]
  | case2 s s' h => rw [feed_of_next_eq_none h]
  | case3 s t s' h ih =>
    rw [feed_of_next_eq_some h, ih]
    cases s'.feed.fault <;> rfl

/-- Every token takes its share of what remains. -/
theorem length_feed_le (s : Scanner) : s.feed.tokens.length ≤ s.remaining := by
  fun_induction feed s with
  | case1 => exact Nat.zero_le _
  | case2 => exact Nat.zero_le _
  | case3 s t s' h ih =>
    have := remaining_lt_of_next h
    simp only [List.length_cons]
    omega

/-! ### Match by match -/

section Match

variable {s s' : Scanner} {p : Pattern} {text rest : List Char}

/-- Scanners that go on in the same way have the same to come. -/
theorem feed_of_next_eq (h : s.next = s'.next) : s.feed = s'.feed := by
  cases hn : s'.next with
  | error e s₁ => rw [feed_of_next_eq_error hn, feed_of_next_eq_error (h.trans hn)]
  | ok t s₁ =>
    cases t with
    | none => rw [feed_of_next_eq_none hn, feed_of_next_eq_none (h.trans hn)]
    | some t => rw [feed_of_next_eq_some hn, feed_of_next_eq_some (h.trans hn)]

/-- A text that stands for no token is passed over. -/
theorem feed_of_token?_eq_none (hit : firstMatch? s.rest = some (p, text, rest))
    (htoken : p.token? s.lastKind text = none) : s.feed = (s.skip text rest).feed := by
  have hnext := next_of_firstMatch? hit
  rw [htoken] at hnext
  exact feed_of_next_eq hnext

/-- The token that a text stands for comes first. -/
theorem feed_of_token?_eq_some {kind : Kind} {value : String}
    (hit : firstMatch? s.rest = some (p, text, rest))
    (htoken : p.token? s.lastKind text = some (kind, value)) :
    s.feed = ⟨⟨kind, value, .of s.file s.offset (byteLength text)⟩ ::
        ((s.skip text rest).behind (some kind)).feed.tokens,
      ((s.skip text rest).behind (some kind)).feed.fault⟩ := by
  have hnext := next_of_firstMatch? hit
  rw [htoken] at hnext
  exact feed_of_next_eq_some hnext

/-- A text that starts no token is a fault. -/
theorem feed_of_firstMatch?_eq_none {c : Char} {cs : List Char} (hrest : s.rest = c :: cs)
    (hit : firstMatch? s.rest = none) :
    s.feed = ⟨[], some ⟨.unrecognised (String.singleton c), s.position⟩⟩ :=
  feed_of_next_eq_error (next_of_firstMatch?_eq_none hrest hit)

/-- At the end of the source there is a line break, unless there has just been one. -/
theorem feed_of_rest_eq_nil (hrest : s.rest = []) (hf : s.finished = false) :
    s.feed = ⟨if s.lastKind = some .lineBreak then [] else
      [⟨.lineBreak, "\n", .of s.file s.offset 0⟩], none⟩ := by
  have hnext := next_of_rest_eq_nil hrest
  rw [close, if_neg (by simp [hf])] at hnext
  split
  · rename_i hl
    rw [if_pos hl] at hnext
    exact feed_of_next_eq_none hnext
  · rename_i hl
    rw [if_neg hl] at hnext
    have hlast : feed { s with lastKind := some .lineBreak, finished := true } = ⟨[], none⟩ :=
      feed_of_next_eq_none (next_of_finished hrest rfl)
    rw [feed_of_next_eq_some hnext, hlast]

/-- A scanner comes to the end of its source, or to a text that starts no token, match by match. -/
theorem induction_on_rest {motive : Scanner → Prop} (s : Scanner)
    (stop : ∀ s, s.rest = [] → motive s)
    (stuck : ∀ s c cs, s.rest = c :: cs → firstMatch? s.rest = none → motive s)
    (step : ∀ s p text rest, firstMatch? s.rest = some (p, text, rest) →
      (∀ last, motive ((s.skip text rest).behind last)) → motive s) : motive s := by
  -- By the length of what is left, since matches are not empty.
  induction hn : byteLength s.rest using Nat.strongRecOn generalizing s with
  | ind n ih =>
    cases hrest : s.rest with
    | nil => exact stop s hrest
    | cons c cs =>
      cases hit : firstMatch? s.rest with
      | none => exact stuck s c cs hrest hit
      | some m =>
        obtain ⟨p, text, rest⟩ := m
        exact step s p text rest hit fun last =>
          ih _ (hn ▸ byteLength_lt_of_firstMatch? hit) _ rfl

end Match

end Scanner

theorem tokenize_eq_ok_iff {source : String} {file : Option String} {ts : List Token} :
    tokenize source file = .ok ts ↔
      (Scanner.ofSource (file.getD defaultLabel) source).feed = ⟨ts, none⟩ := by
  rw [tokenize, Scanner.tokens_eq]
  cases h : (Scanner.ofSource (file.getD defaultLabel) source).feed with
  | mk tokens fault => cases fault <;> simp

/-! ### Agreement

Two feeds agree from behind their first `k` tokens if nobody who has consumed that many of each can
tell them apart: the tokens consumed are the same, and so is what stands behind them, be it a token,
the end of the source or a fault. -/

/-- Two feeds look the same from behind their first `k` tokens. -/
def Agree : Nat → List Token → Option Error → List Token → Option Error → Prop
  | _, [], f, [], g => f = g
  | 0, t :: _, _, u :: _, _ => t = u
  | k + 1, t :: ts, f, u :: us, g => t = u ∧ Agree k ts f us g
  | _, _, _, _, _ => False

namespace Agree

variable {k j : Nat} {c ts us : List Token} {f g : Option Error}

@[simp] theorem nil_left : Agree k [] f us g ↔ us = [] ∧ f = g := by
  cases us <;> simp [Agree]

@[simp] theorem nil_right : Agree k ts f [] g ↔ ts = [] ∧ f = g := by
  cases ts <;> simp [Agree]

theorem refl (k : Nat) (ts : List Token) (f : Option Error) : Agree k ts f ts f := by
  induction ts generalizing k with
  | nil => simp
  | cons t ts ih => cases k with
    | zero => rfl
    | succ k => exact ⟨rfl, ih k⟩

theorem head? (h : Agree k ts f us g) : ts.head? = us.head? := by
  cases ts with
  | nil => rw [(nil_left.1 h).1]
  | cons t ts => cases us with
    | nil => simp at h
    | cons u us => cases k with
      | zero => rw [show t = u from h]; rfl
      | succ k => rw [h.1]; rfl

theorem mono (hjk : j ≤ k) (h : Agree k ts f us g) : Agree j ts f us g := by
  -- Along the smaller number: with none left, the rest may differ behind the next token.
  induction j generalizing k ts us with
  | zero => cases ts with
    | nil => simpa using h
    | cons t ts => cases us with
      | nil => simp at h
      | cons u us => exact Option.some.inj h.head?
  | succ j ih =>
    obtain ⟨k, rfl⟩ : ∃ i, k = i + 1 := ⟨k - 1, by omega⟩
    cases ts with
    | nil => simpa using h
    | cons t ts => cases us with
      | nil => simp at h
      | cons u us => exact ⟨h.1, ih (by omega) h.2⟩

/-- Behind tokens consumed on one side the other side has consumed the same ones, and agreement goes
on. -/
theorem append (h : Agree (c.length + k) (c ++ ts) f us g) :
    ∃ vs, us = c ++ vs ∧ Agree k ts f vs g := by
  induction c generalizing us with
  | nil => exact ⟨us, rfl, by simpa using h⟩
  | cons t c ih => cases us with
    | nil => simp at h
    | cons u us =>
      rw [List.length_cons, Nat.add_right_comm] at h
      obtain ⟨rfl, h⟩ := h
      obtain ⟨vs, rfl, hvs⟩ := ih h
      exact ⟨vs, rfl, hvs⟩

/-- Agreement behind the same tokens is agreement from the front. -/
theorem append_iff : Agree (c.length + k) (c ++ ts) f (c ++ us) g ↔ Agree k ts f us g := by
  induction c with
  | nil => simp
  | cons t c ih =>
    rw [List.length_cons, Nat.add_right_comm, List.cons_append, List.cons_append, Agree]
    simpa using ih

end Agree

namespace Session

/-- The tokens that a session has still to come, the lookahead first. -/
def upcoming (s : Session) : List Token :=
  match s.lookahead with
  | none => []
  | some t => t :: s.scanner.feed.tokens

/-- The error behind the tokens to come, if they do not reach the end of the source. -/
def fault (s : Session) : Option Error := s.scanner.feed.fault

@[simp] theorem upcoming_withDepth (s : Session) (d : Nat) :
    (s.withDepth d).upcoming = s.upcoming := rfl

@[simp] theorem fault_withDepth (s : Session) (d : Nat) : (s.withDepth d).fault = s.fault := rfl

theorem head?_upcoming (s : Session) : s.upcoming.head? = s.lookahead := by
  rw [upcoming]
  split <;> simp_all

theorem lookahead_eq_none_iff {s : Session} : s.lookahead = none ↔ s.upcoming = [] := by
  rw [← head?_upcoming, List.head?_eq_none_iff]

theorem lookahead_of_upcoming {s : Session} {t : Token} {ts : List Token}
    (h : s.upcoming = t :: ts) : s.lookahead = some t := by
  rw [← head?_upcoming, h]
  rfl

end Session

end Scriptlet
