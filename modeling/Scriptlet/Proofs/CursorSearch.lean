import Mathlib.Logic.Relation
import Scriptlet.Proofs.Gaps
import Scriptlet.Token.Cursor

/-!
# The search for the next token

A cursor looks for the next token in turns. In each turn it hands out a token that waits, or it
deals with the end of the source, or it makes one match: what is matched stands for a token, which
is put among those that wait, or it is passed over; either way the cursor jumps behind it.

Jumps are by numbers of bytes, and the text at a place is looked up by its offset, so each of these
could be refused. From the front of a source on they never are: a match is as long as the text it
takes, so the cursor stands between two characters, and not past the end. Since a match is never
empty, the search comes to an end, and what it answers is what `Cursor.next?` says.

## Main definitions

* `Cursor.scan?`, `Cursor.turn?`: one match, one turn;
* `Cursor.Search`, `Cursor.Leads`: the turns of a search;
* `Cursor.calls?`: the tokens handed out by a number of calls;
* `Cursor.Stands`: a cursor at the place of a scanner;
* `Cursor.Safe`: what holds of the calls on a cursor.

## Main results

* `Cursor.Stands.scan?_eq`: one match is one match of the scanner;
* `Cursor.Stands.exists_search`: the search comes to an end, with the answer of `Cursor.next?`;
* `Cursor.exists_calls_and_safe`: calls from the front of a source on are safe.
-/

namespace Scriptlet

open Text (byteLength dropBytes?)

/-! ### What a scanner leaves -/

namespace Scanner

/-- A scanner that stands further on in the same source. -/
structure Further (s s' : Scanner) (text : List Char) : Prop where
  /-- The label stays. -/
  file : s'.file = s.file
  /-- The text is in front of the rest. -/
  rest : s.rest = text ++ s'.rest
  /-- The offset has moved behind the text. -/
  offset : s'.offset = s.offset + byteLength text

theorem Further.still (s : Scanner) (lastKind : Option Kind) (finished : Bool) :
    Further s { s with lastKind := lastKind, finished := finished } [] :=
  ⟨rfl, rfl, rfl⟩

theorem Further.refl (s : Scanner) : Further s s [] := .still s s.lastKind s.finished

/-- Behind a match the scanner goes on from there. -/
theorem Further.skip {s s' : Scanner} {text more rest : List Char} (hrest : s.rest = text ++ rest)
    (h : Further (s.skip text rest) s' more) : Further s s' (text ++ more) where
  file := h.file
  rest := by rw [hrest, show rest = more ++ s'.rest from h.rest, List.append_assoc]
  offset := by
    rw [h.offset, Text.byteLength_append, ← Nat.add_assoc]
    rfl

/-- Handing out a token leaves the scanner further on. -/
theorem exists_further_of_next {s s' : Scanner} {t : Option Token} (h : s.next = .ok t s') :
    ∃ text, Further s s' text := by
  fun_induction next s with
  | case1 s hrest =>
    obtain ⟨t, ht⟩ := s.close_eq
    rw [ht] at h
    cases h
    exact ⟨[], rfl, rfl, rfl⟩
  | case2 => cases h
  | case3 s c cs hrest p text rest hit htoken ih =>
    obtain ⟨more, hmore⟩ := ih h
    exact ⟨_, hmore.skip (hrest.trans (firstMatch?_eq_some hit).2.2.1)⟩
  | case4 s c cs hrest p text rest hit kind value htoken =>
    cases h
    exact ⟨text, rfl, hrest.trans (firstMatch?_eq_some hit).2.2.1, rfl⟩

/-- A scanner fails in front of a text that starts no token, behind a gap. -/
theorem exists_gap_of_next_eq_error {s s' : Scanner} {e : Error} (h : s.next = .error e s') :
    ∃ gap c cs, Further s s' gap ∧ s'.rest = c :: cs ∧ Gap s.lastKind gap (c :: cs) ∧
      firstMatch? (c :: cs) = none ∧ e = ⟨.unrecognised (String.singleton c), s'.position⟩ ∧
      s'.lastKind = s.lastKind ∧ s'.finished = s.finished := by
  fun_induction next s with
  | case1 s hrest =>
    obtain ⟨t, ht⟩ := s.close_eq
    rw [ht] at h
    cases h
  | case2 s c cs hrest hit =>
    cases h
    exact ⟨[], c, cs, .refl _, hrest, .nil, hit, rfl, rfl, rfl⟩
  | case3 s c cs hrest p text rest hit htoken ih =>
    obtain ⟨-, hsplit, happend, -⟩ := firstMatch?_eq_some hit
    obtain ⟨gap, d, ds, hfurther, hrest', hgap, hrefused⟩ := ih h
    have hbehind : rest = gap ++ d :: ds := by
      rw [← hrest']
      exact hfurther.rest
    refine ⟨text ++ gap, d, ds, hfurther.skip (hrest.trans happend), hrest', .cons ?_ hgap,
      hrefused⟩
    exact hbehind ▸ Pattern.skipped_of_token? hsplit htoken
  | case4 => cases h

end Scanner

namespace Cursor

/-! ### Turns -/

/-- One match at the place: what it stands for waits, and the cursor jumps behind it. -/
def scan? (c : Cursor) : Option (EStateM.Result Error Cursor Unit) := do
  let rest ← c.remainder?
  match firstMatch? rest with
  | none => return .error ⟨.unrecognised (String.singleton (rest.headD '\x00')), c.position⟩ c
  | some (p, text, _) =>
    let n := byteLength text
    let c' ← match p.token? c.lastKind text with
      | none => some c
      | some (kind, value) => (c.spanFor? n).map fun span => c.push ⟨kind, value, span⟩
    return .ok () (← c'.advance? n)

/-- At the end of the source a line break waits, unless there has just been one. -/
def finish (c : Cursor) : Cursor :=
  let c' := { c with finished := true }
  if c.lastKind = some .lineBreak then c'
  else c'.push ⟨.lineBreak, "\n", .of c.file c.offset.toNat 0⟩

/-- What a turn comes to. -/
inductive Turn where
  /-- The search is over. -/
  | answer (result : EStateM.Result Error Cursor (Option Token))
  /-- The search goes on. -/
  | again (c : Cursor)

/-- One turn of the search for the next token. -/
def turn? (c : Cursor) : Option Turn :=
  match c.pending with
  | t :: ts => some (.answer (.ok (some t) { c with pending := ts }))
  | [] =>
    if c.atEnd then some (if c.finished then .answer (.ok none c) else .again c.finish)
    else
      c.scan?.map fun
        | .ok () c' => .again c'
        | .error e c' => .answer (.error e c')

/-- The search from a cursor on takes a number of turns and comes to an answer. -/
inductive Search : Cursor → Nat → EStateM.Result Error Cursor (Option Token) → Prop
  | answer {c : Cursor} {r : EStateM.Result Error Cursor (Option Token)} :
      c.turn? = some (.answer r) → Search c 1 r
  | again {c c' : Cursor} {n : Nat} {r : EStateM.Result Error Cursor (Option Token)} :
      c.turn? = some (.again c') → Search c' n r → Search c (n + 1) r

/-- The search from one cursor on comes to another one. -/
def Leads : Cursor → Cursor → Prop :=
  Relation.ReflTransGen fun c c' => c.turn? = some (.again c')

/-- The tokens handed out by a number of calls, and the cursor after them; `none` if one of them is
refused. A call that fails, or comes after the end, hands out no token. -/
def calls? : Nat → Cursor → Option (List Token × Cursor)
  | 0, c => some ([], c)
  | n + 1, c => do
    match ← c.next? with
    | .ok (some t) c' => (calls? n c').map fun (ts, c'') => (t :: ts, c'')
    | .ok none c' => calls? n c'
    | .error _ c' => calls? n c'

/-! ### Cursors and scanners -/

/-- The cursor stands where the scanner does. -/
structure Stands (c : Cursor) (s : Scanner) : Prop where
  /-- The labels are the same. -/
  file : s.file = c.file
  /-- The offsets are the same. -/
  offset : c.offset = UInt64.ofNat s.offset
  /-- The offset is between two characters of the source. -/
  source : ∃ before, c.source = before ++ s.rest ∧ s.offset = byteLength before
  /-- The last tokens have been of the same kind. -/
  lastKind : s.lastKind = c.lastKind
  /-- Both have dealt with the end of the source, or neither has. -/
  finished : s.finished = c.finished
  /-- Offsets fit into a word. -/
  size : byteLength c.source < UInt64.size

namespace Stands

variable {c c' : Cursor} {s s' : Scanner} {text rest : List Char}

/-- Offsets of cursors are words, and none of them wraps around. -/
theorem toNat_offset (h : c.Stands s) : c.offset.toNat = s.offset := by
  obtain ⟨before, hsource, hoffset⟩ := h.source
  have hsize := h.size
  rw [hsource, Text.byteLength_append] at hsize
  rw [h.offset]
  -- The offset is that of a part of the source, which fits into a word.
  exact UInt64.toNat_ofNat_of_lt (by omega)

/-- In front of the place and behind it there is the whole source. -/
theorem byteLength_source (h : c.Stands s) :
    byteLength c.source = s.offset + byteLength s.rest := by
  obtain ⟨before, hsource, hoffset⟩ := h.source
  rw [hsource, Text.byteLength_append, hoffset]

/-- The text at the place is what the scanner has left. -/
theorem remainder?_eq (h : c.Stands s) : c.remainder? = some s.rest := by
  obtain ⟨before, hsource, hoffset⟩ := h.source
  rw [remainder?, h.toNat_offset, hsource, hoffset, Text.dropBytes?_byteLength_append]

/-- The cursor is at the end exactly if nothing is left. -/
theorem atEnd_iff (h : c.Stands s) : c.atEnd = true ↔ s.rest = [] := by
  rw [atEnd, decide_eq_true_iff, h.byteLength_source, h.toNat_offset]
  constructor
  · intro hle
    -- As no character is empty, a rest would have bytes.
    refine Classical.not_not.1 fun hne => ?_
    have := Text.byteLength_pos hne
    omega
  · intro hnil
    rw [hnil, Text.byteLength_nil]
    exact Nat.le_refl _

theorem position_eq (h : c.Stands s) : c.position = s.position := by
  rw [position, Scanner.position, h.toNat_offset, h.file]

/-- The scanner is found again from the cursor. -/
theorem scanner?_eq (h : c.Stands s) : c.scanner? = some s := by
  have hrest : (if c.atEnd then some [] else c.remainder?) = some s.rest := by
    split
    · rw [h.atEnd_iff.1 ‹_›]
    · exact h.remainder?_eq
  rw [scanner?, hrest, Option.map_some, h.toNat_offset, ← h.file, ← h.lastKind, ← h.finished]

/-- A call that has to search gives what the scanner gives. -/
theorem next?_eq (h : c.Stands s) (hpending : c.pending = []) :
    c.next? = some (match s.next with
      | .ok t s' => .ok t (c.goto s')
      | .error e s' => .error e (c.goto s')) := by
  rw [next?, hpending]
  exact congrArg (Option.map _) h.scanner?_eq

/-- A jump as long as a text at the place is not refused. -/
theorem reaches (h : c.Stands s) (hrest : s.rest = text ++ rest) :
    c.reaches (byteLength text) = true := by
  have hsize := h.size
  rw [h.byteLength_source, hrest, Text.byteLength_append] at hsize
  rw [Cursor.reaches, h.toNat_offset, decide_eq_true_iff]
  omega

/-- A cursor that has moved as far as the scanner stands where it does. -/
theorem of_further (h : c.Stands s) (hfurther : s.Further s' text)
    (hoffset : c'.offset = UInt64.ofNat s'.offset) (hfile : c'.file = c.file)
    (hsource : c'.source = c.source) (hlast : s'.lastKind = c'.lastKind)
    (hfinished : s'.finished = c'.finished) : c'.Stands s' where
  file := by rw [hfurther.file, h.file, hfile]
  offset := hoffset
  source := by
    obtain ⟨before, happend, hbefore⟩ := h.source
    refine ⟨before ++ text, ?_, ?_⟩
    · rw [hsource, happend, hfurther.rest, List.append_assoc]
    · rw [hfurther.offset, hbefore, Text.byteLength_append]
  lastKind := hlast
  finished := hfinished
  size := hsource ▸ h.size

theorem goto (h : c.Stands s) (hfurther : s.Further s' text) : (c.goto s').Stands s' :=
  h.of_further hfurther rfl rfl rfl rfl rfl

/-- A jump behind a text at the place leads to where the scanner goes. -/
theorem advance?_eq (h : c.Stands s) (hrest : s.rest = text ++ rest) :
    c.advance? (byteLength text) = some (c.goto (s.skip text rest)) := by
  rw [advance?, if_pos (h.reaches hrest), Cursor.goto]
  simp only [Scanner.skip, h.lastKind, h.finished, h.offset, UInt64.ofNat_add]

/-- The span of a text at the place is not refused. -/
theorem spanFor?_eq (h : c.Stands s) (hrest : s.rest = text ++ rest) :
    c.spanFor? (byteLength text) = some (.of s.file s.offset (byteLength text)) := by
  rw [spanFor?, if_pos (h.reaches hrest), h.toNat_offset, h.file]

/-- Tokens that wait do not move a cursor. -/
theorem push (h : c.Stands s) (t : Token) : (c.push t).Stands (s.behind (some t.kind)) :=
  h.of_further (.still s _ _) h.offset rfl rfl rfl h.finished

/-- Where nothing matches, a turn fails and names the character there. -/
theorem scan?_of_firstMatch?_eq_none {d : Char} {ds : List Char} (h : c.Stands s)
    (hrest : s.rest = d :: ds) (hit : firstMatch? s.rest = none) :
    c.scan? = some (.error ⟨.unrecognised (String.singleton d), s.position⟩ c) := by
  rw [hrest] at hit
  rw [scan?, h.remainder?_eq, hrest]
  simp only [Option.bind_eq_bind, Option.bind_some, hit, List.headD_cons, h.position_eq]
  rfl

section Match

variable {p : Pattern} (h : c.Stands s) (hit : firstMatch? s.rest = some (p, text, rest))
include h hit

/-- A match that stands for no token is jumped over. -/
theorem scan?_of_token?_eq_none (htoken : p.token? s.lastKind text = none) :
    c.scan? = some (.ok () (c.goto (s.skip text rest))) := by
  have hrest := (firstMatch?_eq_some hit).2.2.1
  rw [h.lastKind] at htoken
  rw [scan?, h.remainder?_eq]
  simp only [Option.bind_eq_bind, Option.bind_some, hit, htoken, h.advance?_eq hrest]
  rfl

/-- A match that stands for a token is jumped over, and the token waits. -/
theorem scan?_of_token?_eq_some {kind : Kind} {value : String}
    (htoken : p.token? s.lastKind text = some (kind, value)) :
    c.scan? = some (.ok ()
      ((c.push ⟨kind, value, .of s.file s.offset (byteLength text)⟩).goto
        ((s.skip text rest).behind (some kind)))) := by
  have hrest := (firstMatch?_eq_some hit).2.2.1
  rw [h.lastKind] at htoken
  have hpush := h.push ⟨kind, value, .of s.file s.offset (byteLength text)⟩
  rw [scan?, h.remainder?_eq]
  simp only [Option.bind_eq_bind, Option.bind_some, hit, htoken, h.spanFor?_eq hrest,
    Option.map_some, hpush.advance?_eq hrest]
  rfl

end Match

/-! ### The search comes to an end -/

/-- A token that waits is handed out first. -/
theorem turn?_of_pending {t : Token} {ts : List Token} (hpending : c.pending = t :: ts) :
    c.turn? = some (.answer (.ok (some t) { c with pending := ts })) := by
  rw [turn?, hpending]

theorem turn?_of_finished (h : c.Stands s) (hpending : c.pending = []) (hrest : s.rest = [])
    (hfinished : c.finished = true) : c.turn? = some (.answer (.ok none c)) := by
  rw [turn?, hpending]
  simp only [h.atEnd_iff.2 hrest, hfinished, if_true]

theorem turn?_of_rest_eq_nil (h : c.Stands s) (hpending : c.pending = []) (hrest : s.rest = [])
    (hfinished : c.finished = false) : c.turn? = some (.again c.finish) := by
  rw [turn?, hpending]
  simp [h.atEnd_iff.2 hrest, hfinished]

theorem turn?_of_scan? (h : c.Stands s) (hpending : c.pending = []) (hrest : s.rest ≠ [])
    (hscan : c.scan? = some (.ok () c')) : c.turn? = some (.again c') := by
  have hend : ¬ c.atEnd = true := fun hend => hrest (h.atEnd_iff.1 hend)
  rw [turn?, hpending]
  simp [hend, hscan]

theorem turn?_of_scan?_error {e : Error} (h : c.Stands s) (hpending : c.pending = [])
    (hrest : s.rest ≠ []) (hscan : c.scan? = some (.error e c')) :
    c.turn? = some (.answer (.error e c')) := by
  have hend : ¬ c.atEnd = true := fun hend => hrest (h.atEnd_iff.1 hend)
  rw [turn?, hpending]
  simp [hend, hscan]

theorem goto_self (h : c.Stands s) : c.goto s = c := by
  rw [Cursor.goto, ← h.offset, h.lastKind, h.finished]

/-- A token that waits alone is handed out in the next turn. -/
theorem search_of_push {t : Token} (hpending : c.pending = [])
    (hturn : c.turn? = some (.again ((c.push t).goto s'))) :
    Search c 2 (.ok (some t) (c.goto s')) := by
  have hpush : ((c.push t).goto s').pending = [t] := congrArg (· ++ [t]) hpending
  have hanswer := turn?_of_pending hpush
  have hgoto : { (c.push t).goto s' with pending := [] } = c.goto s' := by
    rw [Cursor.goto, Cursor.goto, hpending]
    rfl
  rw [hgoto] at hanswer
  exact .again hturn (.answer hanswer)

/-- At the end of a source the search takes two turns at most. -/
theorem exists_search_of_rest_eq_nil (h : c.Stands s) (hpending : c.pending = [])
    (hrest : s.rest = []) : ∃ n r, Search c n r ∧ c.next? = some r ∧ n ≤ 2 := by
  have hnext := h.next?_eq hpending
  rw [Scanner.next_of_rest_eq_nil hrest, Scanner.close, h.finished] at hnext
  cases hfinished : c.finished with
  | true =>
    rw [hfinished, if_pos rfl] at hnext
    simp only [h.goto_self] at hnext
    exact ⟨1, _, .answer (h.turn?_of_finished hpending hrest hfinished), hnext, by omega⟩
  | false =>
    have hturn := h.turn?_of_rest_eq_nil hpending hrest hfinished
    rw [hfinished, if_neg (by simp)] at hnext
    rw [Cursor.finish] at hturn
    by_cases hlast : c.lastKind = some .lineBreak
    · rw [if_pos (h.lastKind.trans hlast)] at hnext
      rw [if_pos hlast] at hturn
      have hgoto : c.goto { s with finished := true } = { c with finished := true } := by
        rw [Cursor.goto, ← h.offset, h.lastKind]
      simp only [hgoto] at hnext
      have hstands : Stands { c with finished := true } { s with finished := true } :=
        hgoto ▸ h.goto (.still s _ _)
      exact ⟨2, _, .again hturn (.answer (hstands.turn?_of_finished hpending hrest rfl)), hnext,
        by omega⟩
    · rw [if_neg (h.lastKind ▸ hlast)] at hnext
      rw [if_neg hlast] at hturn
      refine ⟨2, _, search_of_push hpending ?_, hnext, by omega⟩
      rw [hturn, Cursor.goto, ← h.offset, h.file, h.toNat_offset]
      rfl

/-- The search comes to an end, with the answer of `Cursor.next?`. Each turn but the last two makes
a match. -/
theorem exists_search (h : c.Stands s) (hpending : c.pending = []) :
    ∃ n r, Search c n r ∧ c.next? = some r ∧ n ≤ byteLength s.rest + 2 := by
  -- Matches are not empty, so the text that is left gets shorter with each.
  induction s using Scanner.induction_on_rest generalizing c with
  | stop s hrest =>
    obtain ⟨n, r, hsearch, hnext, hn⟩ := h.exists_search_of_rest_eq_nil hpending hrest
    exact ⟨n, r, hsearch, hnext, by omega⟩
  | stuck s d ds hrest hit =>
    have hne : s.rest ≠ [] := by simp [hrest]
    have hscan := h.scan?_of_firstMatch?_eq_none hrest hit
    refine ⟨1, _, .answer (h.turn?_of_scan?_error hpending hne hscan), ?_, by omega⟩
    rw [h.next?_eq hpending, Scanner.next_of_firstMatch?_eq_none hrest hit]
    simp only [h.goto_self]
  | step s p text rest hit ih =>
    obtain ⟨-, -, happend, hne⟩ := firstMatch?_eq_some hit
    have hrest : s.rest ≠ [] := by simp [happend, hne]
    have hpos := Text.byteLength_pos hne
    have hnext := h.next?_eq hpending
    rw [Scanner.next_of_firstMatch? hit] at hnext
    have hlength : byteLength s.rest = byteLength text + byteLength rest := by
      rw [happend, Text.byteLength_append]
    cases htoken : p.token? s.lastKind text with
    | none =>
      -- The text is passed over, and the search goes on behind it.
      have hgoto : (c.goto (s.skip text rest)).Stands (s.skip text rest) :=
        h.goto ⟨rfl, happend, rfl⟩
      obtain ⟨n, r, hsearch, hr, hn⟩ := ih s.lastKind hgoto hpending
      have hturn := h.turn?_of_scan? hpending hrest (h.scan?_of_token?_eq_none hit htoken)
      refine ⟨n + 1, r, .again hturn hsearch, ?_, ?_⟩
      · rw [← hr, hnext, hgoto.next?_eq hpending, htoken]
        rfl
      · have : n ≤ byteLength rest + 2 := hn
        omega
    | some found =>
      obtain ⟨kind, value⟩ := found
      have hturn := h.turn?_of_scan? hpending hrest (h.scan?_of_token?_eq_some hit htoken)
      rw [htoken] at hnext
      exact ⟨2, _, search_of_push hpending hturn, hnext, by omega⟩

/-- A match that is not refused leads further on, and one token waits behind it at most. -/
theorem scan?_cases (h : c.Stands s) (hrest : s.rest ≠ []) :
    (∃ e, c.scan? = some (.error e c)) ∨
    ∃ c' s', c.scan? = some (.ok () c') ∧ c'.source = c.source ∧ c'.Stands s' ∧
      s.offset < s'.offset ∧
      (c'.pending = c.pending ∨ ∃ t, c'.pending = c.pending ++ [t]) := by
  cases hit : firstMatch? s.rest with
  | none =>
    obtain ⟨d, ds, hcons⟩ := List.exists_cons_of_ne_nil hrest
    exact .inl ⟨_, h.scan?_of_firstMatch?_eq_none hcons hit⟩
  | some found =>
    obtain ⟨p, text, rest⟩ := found
    obtain ⟨-, -, happend, hne⟩ := firstMatch?_eq_some hit
    have hlt : s.offset < s.offset + byteLength text :=
      Nat.lt_add_of_pos_right (Text.byteLength_pos hne)
    refine .inr ?_
    cases htoken : p.token? s.lastKind text with
    | none =>
      exact ⟨_, _, h.scan?_of_token?_eq_none hit htoken, rfl, h.goto ⟨rfl, happend, rfl⟩, hlt,
        .inl rfl⟩
    | some token =>
      obtain ⟨kind, value⟩ := token
      exact ⟨_, _, h.scan?_of_token?_eq_some hit htoken, rfl,
        (h.push _).goto ⟨rfl, happend, rfl⟩, hlt, .inr ⟨_, rfl⟩⟩

/-- What a call leaves stands where the scanner is left. -/
theorem next?_cases (h : c.Stands s) (hpending : c.pending = []) :
    (∃ t s', s.next = .ok t s' ∧ c.next? = some (.ok t (c.goto s')) ∧ (c.goto s').Stands s') ∨
    ∃ e s', s.next = .error e s' ∧ c.next? = some (.error e (c.goto s')) ∧
      (c.goto s').Stands s' := by
  have hnext := h.next?_eq hpending
  cases hs : s.next with
  | ok t s' =>
    obtain ⟨text, hfurther⟩ := Scanner.exists_further_of_next hs
    exact .inl ⟨t, s', rfl, by rw [hnext, hs], h.goto hfurther⟩
  | error e s' =>
    obtain ⟨gap, -, -, hfurther, -⟩ := Scanner.exists_gap_of_next_eq_error hs
    exact .inr ⟨e, s', rfl, by rw [hnext, hs], h.goto hfurther⟩

/-- Calls are not refused, and each token lessens what remains. -/
theorem exists_calls (h : c.Stands s) (hpending : c.pending = []) (n : Nat) :
    ∃ ts c' s', calls? n c = some (ts, c') ∧ c'.Stands s' ∧ c'.pending = [] ∧
      c'.source = c.source ∧ ts.length + s'.remaining ≤ s.remaining := by
  induction n generalizing c s with
  | zero => exact ⟨[], c, s, rfl, h, hpending, rfl, by simp⟩
  | succ n ih =>
    rcases h.next?_cases hpending with ⟨t, s₁, hs, hnext, h₁⟩ | ⟨e, s₁, hs, hnext, h₁⟩
    · obtain ⟨ts, c', s', hcalls, h', hpending', hsource, hlength⟩ := ih h₁ hpending
      have hle := Scanner.remaining_next_le hs
      cases t with
      | none =>
        refine ⟨ts, c', s', ?_, h', hpending', hsource, by omega⟩
        rw [calls?, hnext]
        exact hcalls
      | some t =>
        have hlt := hle.2 rfl
        refine ⟨t :: ts, c', s', ?_, h', hpending', hsource, ?_⟩
        · rw [calls?, hnext]
          simp [hcalls]
        · rw [List.length_cons]
          omega
    · obtain ⟨ts, c', s', hcalls, h', hpending', hsource, hlength⟩ := ih h₁ hpending
      have hle := Scanner.remaining_le_of_next_eq_error hs
      refine ⟨ts, c', s', ?_, h', hpending', hsource, by omega⟩
      rw [calls?, hnext]
      exact hcalls

end Stands

/-! ### Safety -/

/-- The place is in a source or at its end, between two characters, and the text there can be
read. -/
structure Between (c : Cursor) (source : List Char) : Prop where
  /-- The place is not past the end. -/
  le : c.offset.toNat ≤ byteLength source
  /-- It is between two characters, and looking at the text behind it is not refused. -/
  boundary : ∃ before rest, source = before ++ rest ∧ c.offset.toNat = byteLength before ∧
    c.remainder? = some rest ∧ c.peek? = some (rest.headD '\x00')

/-- What holds of calls on a cursor. -/
structure Safe (c : Cursor) (source : List Char) : Prop where
  /-- Wherever a search comes to, text can be read. -/
  place : ∀ c', c.Leads c' → c'.Between source
  /-- A match fails and changes nothing, or it leads forward and one token waits behind it at
  most. -/
  scan : ∀ c', c.Leads c' → c'.pending = [] → c'.atEnd = false →
    (∃ e, c'.scan? = some (.error e c')) ∨
    ∃ c'', c'.scan? = some (.ok () c'') ∧ c'.offset < c''.offset ∧
      (c''.pending = [] ∨ ∃ t, c''.pending = [t])
  /-- A search comes to an end, and a call gives its answer. -/
  search : ∃ n r, Search c n r ∧ c.next? = some r ∧ n ≤ byteLength source - c.offset.toNat + 2
  /-- After the end nothing changes. -/
  ended : ∀ c', c.next? = some (.ok none c') → c'.next? = some (.ok none c')
  /-- After a failure nothing changes either. The cursor is in front of a character that starts no
  token, which the error names, and what it has passed over is a gap. -/
  failed : ∀ e c', c.next? = some (.error e c') → c'.next? = some (.error e c') ∧
    ∃ before gap d ds, source = before ++ (gap ++ d :: ds) ∧
      c.offset.toNat = byteLength before ∧ c'.offset.toNat = byteLength (before ++ gap) ∧
      Gap c.lastKind gap (d :: ds) ∧ (∀ p ∈ Pattern.table, p.split? (d :: ds) = none) ∧
      e = ⟨.unrecognised (String.singleton d), c'.position⟩

namespace Stands

variable {c c' : Cursor} {s s' : Scanner}

theorem between (h : c.Stands s) : c.Between c.source where
  le := by
    rw [h.toNat_offset, h.byteLength_source]
    exact Nat.le_add_right _ _
  boundary := by
    obtain ⟨before, hsource, hoffset⟩ := h.source
    refine ⟨before, s.rest, hsource, h.toNat_offset.trans hoffset, h.remainder?_eq, ?_⟩
    rw [peek?, h.remainder?_eq, Option.map_some]

theorem finish (h : c.Stands s) :
    c.finish.source = c.source ∧ ∃ s', c.finish.Stands s' := by
  have hdone : Stands { c with finished := true } { s with finished := true } :=
    h.of_further (.still s _ _) h.offset rfl rfl h.lastKind rfl
  rw [Cursor.finish]
  split
  · exact ⟨rfl, _, hdone⟩
  · exact ⟨rfl, _, hdone.push _⟩

/-- A turn leads from one place in a source to another one. -/
theorem again (h : c.Stands s) (hturn : c.turn? = some (.again c')) :
    c'.source = c.source ∧ ∃ s', c'.Stands s' := by
  cases hpending : c.pending with
  | cons t ts =>
    rw [turn?_of_pending hpending] at hturn
    cases hturn
  | nil =>
    by_cases hrest : s.rest = []
    · cases hfinished : c.finished with
      | true =>
        rw [h.turn?_of_finished hpending hrest hfinished] at hturn
        cases hturn
      | false =>
        rw [h.turn?_of_rest_eq_nil hpending hrest hfinished] at hturn
        cases hturn
        exact h.finish
    · rcases h.scan?_cases hrest with ⟨e, hscan⟩ | ⟨c'', s', hscan, hsource, h', -⟩
      · rw [h.turn?_of_scan?_error hpending hrest hscan] at hturn
        cases hturn
      · rw [h.turn?_of_scan? hpending hrest hscan] at hturn
        cases hturn
        exact ⟨hsource, s', h'⟩

/-- So do any number of turns. -/
theorem leads (h : c.Stands s) (hleads : c.Leads c') :
    c'.source = c.source ∧ ∃ s', c'.Stands s' := by
  induction hleads with
  | refl => exact ⟨rfl, s, h⟩
  | tail _ hturn ih =>
    obtain ⟨hsource, s', h'⟩ := ih
    obtain ⟨hsource', hstands⟩ := h'.again hturn
    exact ⟨hsource'.trans hsource, hstands⟩

/-- Calls are safe wherever a cursor stands at the place of a scanner. -/
theorem safe (h : c.Stands s) (hpending : c.pending = []) : c.Safe c.source where
  place c' hleads := by
    obtain ⟨hsource, s', h'⟩ := h.leads hleads
    exact hsource ▸ h'.between
  scan c' hleads hpending' hend := by
    obtain ⟨-, s', h'⟩ := h.leads hleads
    have hrest : s'.rest ≠ [] := fun hrest => by
      rw [h'.atEnd_iff.2 hrest] at hend
      cases hend
    rcases h'.scan?_cases hrest with herror | ⟨c'', s'', hscan, -, h'', hlt, htoken⟩
    · exact .inl herror
    · refine .inr ⟨c'', hscan, ?_, ?_⟩
      · rw [UInt64.lt_iff_toNat_lt, h'.toNat_offset, h''.toNat_offset]
        exact hlt
      · rwa [hpending'] at htoken
  search := by
    obtain ⟨n, r, hsearch, hnext, hn⟩ := h.exists_search hpending
    refine ⟨n, r, hsearch, hnext, ?_⟩
    rw [h.byteLength_source, h.toNat_offset, Nat.add_sub_cancel_left]
    exact hn
  ended c' hnone := by
    rcases h.next?_cases hpending with ⟨t, s', hs, hnext, h'⟩ | ⟨e, s', hs, hnext, h'⟩ <;>
      rw [hnext] at hnone <;> cases hnone
    rw [h'.next?_eq hpending, Scanner.next_of_next_eq_none hs]
    rfl
  failed e c' herror := by
    rcases h.next?_cases hpending with ⟨t, s', hs, hnext, h'⟩ | ⟨e, s', hs, hnext, h'⟩ <;>
      rw [hnext] at herror <;> cases herror
    constructor
    · rw [h'.next?_eq hpending, Scanner.next_of_next_eq_error hs]
      rfl
    · obtain ⟨gap, d, ds, hfurther, hrest, hgap, hit, he, -⟩ :=
        Scanner.exists_gap_of_next_eq_error hs
      obtain ⟨before, hsource, hoffset⟩ := h.source
      refine ⟨before, gap, d, ds, ?_, h.toNat_offset.trans hoffset, ?_, h.lastKind ▸ hgap, ?_, ?_⟩
      · rw [hsource, hfurther.rest, hrest]
      · rw [h'.toNat_offset, hfurther.offset, hoffset, Text.byteLength_append]
      · intro p hp
        simpa using List.findSome?_eq_none_iff.1 hit p hp
      · rw [he, h'.position_eq]

end Stands

/-- In front of a source a cursor stands where the scanner does. -/
theorem stands_ofSource (file source : String)
    (hsize : byteLength source.toList < UInt64.size) :
    (ofSource file source).Stands (Scanner.ofSource file source) where
  file := rfl
  offset := rfl
  source := ⟨[], rfl, rfl⟩
  lastKind := rfl
  finished := rfl
  size := hsize

/-- However often a cursor that starts in front of a source is asked for the next token, no call is
refused, no more tokens are handed out than the source has bytes and one more, and the next call is
safe. -/
theorem exists_calls_and_safe (file source : String) (n : Nat)
    (hsize : byteLength source.toList < UInt64.size) :
    ∃ ts c, calls? n (ofSource file source) = some (ts, c) ∧
      ts.length ≤ byteLength source.toList + 1 ∧ c.Safe source.toList := by
  obtain ⟨ts, c, s, hcalls, h, hpending, hsource, hlength⟩ :=
    (stands_ofSource file source hsize).exists_calls rfl n
  refine ⟨ts, c, hcalls, ?_, ?_⟩
  · exact Nat.le_trans (Nat.le_add_right _ _) hlength
  · rw [show source.toList = c.source from hsource.symm]
    exact h.safe hpending

/-- A character of two bytes in a comment, a run of line ends, and a character that starts no
token. -/
theorem exists_calls_and_safe_wide :
    byteLength "/*é*/ a\n\n //b\n * c".toList < UInt64.size ∧
    ∃ ts c, calls? 4 (ofSource "shell" "/*é*/ a\n\n //b\n * c") = some (ts, c) ∧
      ts.length ≤ byteLength "/*é*/ a\n\n //b\n * c".toList + 1 ∧
      c.Safe "/*é*/ a\n\n //b\n * c".toList := by
  have hsize : byteLength "/*é*/ a\n\n //b\n * c".toList < UInt64.size := by decide +kernel
  exact ⟨hsize, exists_calls_and_safe _ _ 4 hsize⟩

end Cursor

end Scriptlet
