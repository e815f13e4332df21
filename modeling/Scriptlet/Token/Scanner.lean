import Scriptlet.Error
import Scriptlet.Text.Bytes
import Scriptlet.Token.Pattern

/-!
# Scanning a source into tokens

A scanner hands out the tokens of a source one at a time, reading no further than it must for the
next one. Blanks and comments are passed over; a run of line ends gives one line break, and none at
all right behind another line break.

When the source is used up, the scanner hands out one more line break, with an empty span, unless
the last token was one already. Every statement is thus ended by a token, and even an empty source
has one.

A character that starts no token is an error. The scanner then stands in front of that character,
behind whatever it passed over to get there, so asking again gives the same error.

## Implementation notes

The source still to be read is kept as a list of characters beside the byte offset of its first
character, so nothing is ever looked up by offset. `Scanner.next` recurses past the text it skips
and ends because a match is never empty; `Scanner.remaining` is the quantity that every token
lessens, the line break at the end included.

## Main definitions

* `Scanner`, `Scanner.ofSource`, `Scanner.next`;
* `tokenize`: all tokens of a source.

## Main results

* `Scanner.remaining_lt_of_next`: handing out a token lessens what remains.
-/

namespace Scriptlet

open Text (byteLength)

/-- A match takes at least a byte. -/
theorem byteLength_lt_of_firstMatch? {cs text rest : List Char} {p : Pattern}
    (h : firstMatch? cs = some (p, text, rest)) : byteLength rest < byteLength cs := by
  obtain ⟨_, _, rfl, hne⟩ := firstMatch?_eq_some h
  have := Text.byteLength_pos hne
  simp only [Text.byteLength_append]
  omega

/-- A source part way through. -/
structure Scanner where
  /-- The label of the source. -/
  file : String
  /-- The byte offset of the text still to be read. -/
  offset : Nat
  /-- The text still to be read. -/
  rest : List Char
  /-- The kind of the last token, if there was one. -/
  lastKind : Option Kind
  /-- Whether the end of the source has been dealt with. -/
  finished : Bool
  deriving DecidableEq, Inhabited

namespace Scanner

/-- A scanner in front of a whole source. -/
def ofSource (file source : String) : Scanner := ⟨file, 0, source.toList, none, false⟩

/-- The position of the text still to be read. -/
def position (s : Scanner) : Position := .of s.file s.offset

/-- Goes on behind a text taken from the front. -/
def skip (s : Scanner) (text rest : List Char) : Scanner :=
  { s with offset := s.offset + byteLength text, rest := rest }

/-- The line break at the end of the source, once, and only behind another kind of token. -/
def close (s : Scanner) : EStateM.Result Error Scanner (Option Token) :=
  if s.finished then .ok none s
  else if s.lastKind = some .lineBreak then .ok none { s with finished := true }
  else
    .ok (some ⟨.lineBreak, "\n", .of s.file s.offset 0⟩)
      { s with lastKind := some .lineBreak, finished := true }

/-- The next token, `none` at the end of the source. -/
def next (s : Scanner) : EStateM.Result Error Scanner (Option Token) :=
  match _hrest : s.rest with
  | [] => s.close
  | c :: cs =>
    match _hit : firstMatch? (c :: cs) with
    | none => .error ⟨.unrecognised (String.singleton c), s.position⟩ s
    | some (p, text, rest) =>
      match p.token? s.lastKind text with
      | none => next (s.skip text rest)
      | some (kind, value) =>
        .ok (some ⟨kind, value, .of s.file s.offset (byteLength text)⟩)
          { s.skip text rest with lastKind := some kind }
termination_by byteLength s.rest
decreasing_by
  have := byteLength_lt_of_firstMatch? _hit
  simpa [skip, _hrest] using this

/-- What is still to come, as a number: the bytes to be read, and the end of the source. -/
def remaining (s : Scanner) : Nat := byteLength s.rest + (!s.finished).toNat

theorem remaining_close_le {s s' : Scanner} {t : Option Token} (h : s.close = .ok t s') :
    s'.remaining ≤ s.remaining ∧ (t.isSome → s'.remaining < s.remaining) := by
  unfold close at h
  split at h
  · cases h
    simp
  · split at h <;> cases h <;> simp_all [remaining]

/-- Asking for a token never adds to what remains, and handing one out lessens it. -/
theorem remaining_next_le {s s' : Scanner} {t : Option Token} (h : s.next = .ok t s') :
    s'.remaining ≤ s.remaining ∧ (t.isSome → s'.remaining < s.remaining) := by
  fun_induction next s with
  | case1 s hrest => exact remaining_close_le h
  | case2 => cases h
  | case3 s c cs hrest p text rest hit htoken ih =>
    have hlt := byteLength_lt_of_firstMatch? hit
    have := ih h
    simp only [remaining, skip, hrest] at this ⊢
    omega
  | case4 s c cs hrest p text rest hit kind value htoken =>
    have hlt := byteLength_lt_of_firstMatch? hit
    cases h
    simp only [remaining, skip, hrest]
    omega

theorem remaining_lt_of_next {s s' : Scanner} {t : Token} (h : s.next = .ok (some t) s') :
    s'.remaining < s.remaining :=
  (remaining_next_le h).2 rfl

/-- All tokens still to come, or the error in front of the first text that starts none. -/
def tokens (s : Scanner) : Except Error (List Token) :=
  match _h : s.next with
  | .error e _ => .error e
  | .ok none _ => .ok []
  | .ok (some t) s' => (tokens s').map (t :: ·)
termination_by s.remaining
decreasing_by exact remaining_lt_of_next _h

end Scanner

/-- All tokens of a source. -/
def tokenize (source : String) (file : Option String) : Except Error (List Token) :=
  (Scanner.ofSource (file.getD defaultLabel) source).tokens

end Scriptlet
