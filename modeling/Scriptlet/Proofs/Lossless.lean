import Scriptlet.Proofs.Gaps
import Scriptlet.Proofs.Spans
import Scriptlet.Proofs.TokenStream

/-!
# Tokens and gaps make up the source

Scanning loses nothing. A source is made of words and gaps: a gap, the word of the first token, a
gap, the word of the next token, and so on to a gap at the end. The span of each token is where its
word stands. Only the line break that ends a source has no word, and an empty span at the very end.

Where scanning fails, the same is true of the source up to the text that starts no token.

The scanner is followed match by match. A match that is passed over makes the first gap longer, and
a match that stands for a token is a word behind an empty gap; so the relation `Laid` between a text
and its tokens is built from the front, like the list of tokens.

## Main definitions

* `Laid`: tokens whose words make up a text, with gaps between them;
* `Span.Cuts`: the text of a span;
* `Lossless`: what this says of spans.

## Main results

* `Scanner.exists_laid`: what a scanner gives is laid out in its source;
* `Laid.exists_word`, `Laid.exists_gap`: the text of a token, and between tokens;
* `tokenize_lossless`: tokenization is lossless.
-/

namespace Scriptlet

open Text (byteLength)

/-! ### Texts laid out -/

/-- The text, which starts at a byte offset behind a token of the given kind and has `rest` behind
it, is made of the words of the tokens and of gaps around them. -/
inductive Laid (label : String) : Option Kind → Nat → List Char → List Char → List Token → Prop
  /-- There is no token. -/
  | nil {last : Option Kind} {offset : Nat} {gap rest : List Char} : Gap last gap rest →
      Laid label last offset gap rest []
  /-- A gap, the word of a token, and the text behind it. -/
  | cons {last : Option Kind} {offset : Nat} {gap word text rest : List Char} {t : Token}
      {ts : List Token} : Gap last gap (word ++ (text ++ rest)) → t.ReadFrom word →
      t.span = .of label (offset + byteLength gap) (byteLength word) →
      Laid label (some t.kind) (offset + byteLength (gap ++ word)) text rest ts →
      Laid label last offset (gap ++ (word ++ text)) rest (t :: ts)
  /-- The line break at the end of a source. -/
  | close {last : Option Kind} {offset : Nat} {gap : List Char} : Gap last gap [] →
      Laid label last offset gap []
        [⟨.lineBreak, "\n", .of label (offset + byteLength gap) 0⟩]

/-- What stops a scanner at a byte offset: the end of the source, or a text that no pattern
matches. -/
inductive Stop (label : String) (offset : Nat) : List Char → Option Error → Prop
  | done : Stop label offset [] none
  | stuck {c : Char} {cs : List Char} : firstMatch? (c :: cs) = none →
      Stop label offset (c :: cs) (some ⟨.unrecognised (String.singleton c), .of label offset⟩)

section

variable {label : String} {last : Option Kind} {offset : Nat} {text rest : List Char}
  {ts : List Token}

/-- A text that is passed over makes the first gap longer. -/
theorem Laid.skip {piece : List Char} (hpiece : Skipped last piece (text ++ rest))
    (h : Laid label last (offset + byteLength piece) text rest ts) :
    Laid label last offset (piece ++ text) rest ts := by
  cases h with
  | nil hgap => exact .nil (.cons hpiece hgap)
  | @cons _ _ gap word text _ t ts hgap hword hspan hrest =>
    rw [List.append_assoc, List.append_assoc] at hpiece
    rw [Nat.add_assoc, ← Text.byteLength_append] at hspan hrest
    rw [← List.append_assoc]
    rw [← List.append_assoc] at hrest
    exact .cons (.cons hpiece hgap) hword hspan hrest
  | close hgap =>
    rw [Nat.add_assoc, ← Text.byteLength_append]
    exact .close (.cons hpiece hgap)

end

namespace Scanner

/-- What a scanner gives is laid out in its source, up to where it stops. -/
theorem exists_laid (s : Scanner) (hf : s.finished = false) :
    ∃ text rest, s.rest = text ++ rest ∧ Laid s.file s.lastKind s.offset text rest s.feed.tokens ∧
      Stop s.file (s.offset + byteLength text) rest s.feed.fault := by
  induction s using induction_on_rest with
  | stop s hrest =>
    refine ⟨[], [], hrest, ?_, ?_⟩
    · rw [feed_of_rest_eq_nil hrest hf]
      split
      · exact .nil .nil
      · exact .close .nil
    · rw [feed_of_rest_eq_nil hrest hf]
      exact .done
  | stuck s c cs hrest hit =>
    refine ⟨[], c :: cs, hrest, ?_, ?_⟩
    · rw [feed_of_firstMatch?_eq_none hrest hit]
      exact .nil .nil
    · rw [feed_of_firstMatch?_eq_none hrest hit]
      exact .stuck (hrest ▸ hit)
  | step s p word behind hit ih =>
    obtain ⟨hmem, hsplit, happend, -⟩ := firstMatch?_eq_some hit
    cases htoken : p.token? s.lastKind word with
    | none =>
      obtain ⟨text, rest, hrest, hlaid, hstop⟩ := ih s.lastKind hf
      have hbehind : behind = text ++ rest := hrest
      rw [feed_of_token?_eq_none hit htoken]
      refine ⟨word ++ text, rest, by rw [happend, hbehind, List.append_assoc], ?_, ?_⟩
      · exact hlaid.skip (hbehind ▸ Pattern.skipped_of_token? hsplit htoken)
      · rw [Text.byteLength_append, ← Nat.add_assoc]
        exact hstop
    | some found =>
      obtain ⟨kind, value⟩ := found
      obtain ⟨text, rest, hrest, hlaid, hstop⟩ := ih (some kind) hf
      have hbehind : behind = text ++ rest := hrest
      rw [feed_of_token?_eq_some hit htoken]
      refine ⟨word ++ text, rest, by rw [happend, hbehind, List.append_assoc], ?_, ?_⟩
      · exact .cons .nil (Pattern.readFrom_of_token? hmem hsplit htoken _) rfl hlaid
      · rw [Text.byteLength_append, ← Nat.add_assoc]
        exact hstop

end Scanner

/-! ### The text of a token, and between tokens -/

namespace Laid

variable {label : String} {last : Option Kind} {text rest : List Char} {ts c d : List Token}

/-- A token stands where its word stands, or it is the line break at the end. -/
theorem exists_word (before : List Char) {t : Token}
    (h : Laid label last (byteLength before) text rest ts) (ht : t ∈ ts) :
    (∃ pre word post, before ++ text = pre ++ (word ++ post) ∧ t.ReadFrom word ∧
      t.span = .of label (byteLength pre) (byteLength word)) ∨
    (rest = [] ∧ ts.getLast? = some t ∧ t.kind = .lineBreak ∧
      t.span = .of label (byteLength (before ++ text)) 0) := by
  generalize hoffset : byteLength before = offset at h
  induction h generalizing before with
  | nil => cases ht
  | @cons _ _ gap word text rest u ts _ hword hspan hrest ih =>
    subst hoffset
    rw [← Text.byteLength_append] at hspan
    rcases List.mem_cons.1 ht with rfl | ht
    · exact .inl ⟨before ++ gap, word, text, by simp, hword, hspan⟩
    · rcases ih (before ++ (gap ++ word)) ht (Text.byteLength_append _ _) with
        ⟨pre, word', post, happend, hword', hspan'⟩ | ⟨hnil, hlast, hk, hspan'⟩
      · exact .inl ⟨pre, word', post, by rw [← happend]; simp, hword', hspan'⟩
      · refine .inr ⟨hnil, ?_, hk, by rw [hspan']; simp⟩
        rw [List.getLast?_cons, hlast]
        rfl
  | close =>
    subst hoffset
    rw [List.mem_singleton] at ht
    subst ht
    exact .inr ⟨rfl, rfl, rfl, by rw [Text.byteLength_append]⟩

/-- Between the tokens in front of a place and those behind it there is a gap. -/
theorem exists_gap (before : List Char)
    (h : Laid label last (byteLength before) text rest (c ++ d)) :
    ∃ pre gap post, before ++ text = pre ++ (gap ++ post) ∧
      stopOf (.of label (byteLength before)) c = .of label (byteLength pre) ∧
      placeOf (.of label (byteLength (before ++ text))) d = .of label (byteLength (pre ++ gap)) ∧
      Gap ((c.getLast?.map (·.kind)).or last) gap (post ++ rest) := by
  generalize hoffset : byteLength before = offset at h
  generalize happend : c ++ d = ts at h
  -- By how the tokens are laid out: the gap is the first one, or one of those behind the first
  -- token.
  induction h generalizing before c with
  | @nil last offset gap rest hgap =>
    obtain ⟨rfl, rfl⟩ := List.append_eq_nil_iff.1 happend
    exact ⟨before, gap, [], by simp, by rw [hoffset]; rfl, rfl, hgap⟩
  | @cons last offset gap word text rest t ts hgap hword hspan hrest ih =>
    subst hoffset
    rw [← Text.byteLength_append] at hspan
    cases c with
    | nil =>
      obtain rfl : d = t :: ts := happend
      refine ⟨before, gap, word ++ text, rfl, rfl, ?_, by rwa [List.append_assoc]⟩
      rw [placeOf, List.head?_cons, Option.map_some, Option.getD_some, hspan]
      rfl
    | cons u c =>
      obtain ⟨rfl, htail⟩ := List.cons.inj happend
      obtain ⟨pre, gap', post, hpre, hstop, hplace, hgap'⟩ :=
        ih (before ++ (gap ++ word)) (Text.byteLength_append _ _) htail
      have hwhole : before ++ (gap ++ word) ++ text = before ++ (gap ++ (word ++ text)) := by simp
      rw [hwhole] at hpre hplace
      have hfirst : stopOf (.of label (byteLength before)) (u :: c) =
          stopOf (.of label (byteLength before + byteLength (gap ++ word))) c := by
        rw [show u :: c = [u] ++ c from rfl, stopOf_append, stopOf_singleton, hspan, Span.of,
          ← Text.byteLength_append, ← Text.byteLength_append, List.append_assoc]
      refine ⟨pre, gap', post, hpre, hfirst.trans hstop, hplace, ?_⟩
      rw [List.getLast?_cons]
      cases hlast : c.getLast? <;> rw [hlast] at hgap' <;> exact hgap'
  | @close last offset gap hgap =>
    subst hoffset
    rw [← Text.byteLength_append] at happend
    cases c with
    | nil =>
      obtain rfl : d = _ := happend
      exact ⟨before, gap, [], by simp, rfl, rfl, hgap⟩
    | cons u c =>
      obtain ⟨rfl, htail⟩ := List.cons.inj happend
      obtain ⟨rfl, rfl⟩ := List.append_eq_nil_iff.1 htail
      exact ⟨before ++ gap, [], [], by simp, rfl, by simp [placeOf], .nil⟩

end Laid

/-! ### Spans -/

/-- The text between the two ends of a span of a source, and the text behind it. -/
def Span.Cuts (span : Span) (source text behind : List Char) : Prop :=
  ∃ before, source = before ++ (text ++ behind) ∧ span.start.offset.toNat = byteLength before ∧
    span.stop.offset.toNat = byteLength (before ++ text)

/-- The tokens take a text apart that has `rest` behind it, and nothing of it is lost. -/
structure Lossless (label : String) (text rest : List Char) (ts : List Token) : Prop where
  /-- The tokens stand one behind the other and do not overlap. -/
  inOrder : ts.Pairwise fun t u => t.span.stop.offset ≤ u.span.start.offset
  /-- The span of a token that is no line break is not empty, and the text in it is the value. -/
  value : ∀ t ∈ ts, t.kind ≠ .lineBreak → t.span.start.offset < t.span.stop.offset ∧
    ∃ behind, t.span.Cuts text t.value.toList behind
  /-- The span of a line break holds a newline, and blanks and newlines behind it. Only the last
  token of a whole source may be a line break with an empty span at the end. -/
  lineBreak : ∀ t ∈ ts, t.kind = .lineBreak →
    (∃ run behind, t.span.Cuts text ('\n' :: run) behind ∧ ∀ c ∈ run, isLayout c = true) ∨
    (rest = [] ∧ ts.getLast? = some t ∧ t.span = .of label (byteLength text) 0)
  /-- From the end of a token, or the start of the text, to the start of the next token, or the end
  of the text, there is a gap. -/
  gap : ∀ c d, ts = c ++ d → ∃ gap behind,
    (⟨stopOf (.of label 0) c, placeOf (.of label (byteLength text)) d⟩ : Span).Cuts text gap
      behind ∧ Gap (c.getLast?.map (·.kind)) gap (behind ++ rest)

section

variable {label : String} {text rest : List Char} {ts : List Token}

/-- The ends of a span that does not wrap around cut its text out. -/
theorem Span.cuts_of_append {pre word post : List Char} (h : text = pre ++ (word ++ post))
    (hsize : byteLength text < UInt32.size) :
    (⟨.of label (byteLength pre), .of label (byteLength (pre ++ word))⟩ : Span).Cuts text word
      post := by
  have hlength : byteLength text = byteLength pre + byteLength word + byteLength post := by
    rw [h, Text.byteLength_append, Text.byteLength_append, Nat.add_assoc]
  refine ⟨pre, h, Position.toNat_offset_of _ (by omega), Position.toNat_offset_of _ ?_⟩
  rw [Text.byteLength_append]
  omega

theorem Laid.lossless (h : Laid label none 0 text rest ts) (hstanding : Standing label ts)
    (hsize : byteLength text < UInt32.size) : Lossless label text rest ts where
  inOrder := hstanding.inOrder
  value t ht hk := by
    refine ⟨hstanding.lt t ht hk, ?_⟩
    rcases exists_word [] h ht with ⟨pre, word, post, happend, hword, hspan⟩ |
      ⟨-, -, hk', -⟩
    · rw [hspan, ← hword.value hk, Span.of, ← Text.byteLength_append]
      exact ⟨post, Span.cuts_of_append happend hsize⟩
    · exact absurd hk' hk
  lineBreak t ht hk := by
    rcases exists_word [] h ht with ⟨pre, word, post, happend, hword, hspan⟩ |
      ⟨hend, hlast, -, hspan⟩
    · obtain ⟨run, rfl, hrun⟩ := hword.lineBreak hk
      rw [hspan, Span.of, ← Text.byteLength_append]
      exact .inl ⟨run, post, Span.cuts_of_append happend hsize, hrun⟩
    · exact .inr ⟨hend, hlast, hspan⟩
  gap c d hcd := by
    subst hcd
    obtain ⟨pre, gap, post, happend, hstop, hplace, hgap⟩ := exists_gap [] h
    rw [Text.byteLength_nil] at hstop
    rw [List.nil_append] at happend hplace
    rw [Option.or_none] at hgap
    rw [hstop, hplace]
    exact ⟨gap, post, Span.cuts_of_append happend hsize, hgap⟩

end

/-! ### Sources -/

/-- The tokens of a source are laid out in it, up to its end or to a text that starts no token. -/
theorem exists_laid_streamOf (source : String) (file : Option String) :
    ∃ text rest, source.toList = text ++ rest ∧
      Laid (file.getD defaultLabel) none 0 text rest (streamOf source file).tokens ∧
      Stop (file.getD defaultLabel) (byteLength text) rest (streamOf source file).fault := by
  obtain ⟨text, rest, happend, hlaid, hstop⟩ :=
    (Scanner.ofSource (file.getD defaultLabel) source).exists_laid rfl
  refine ⟨text, rest, happend, hlaid, ?_⟩
  rw [← Nat.zero_add (byteLength text)]
  exact hstop

/-- The tokens of a source stand in order, each where its value or, for a line break, a run of line
ends stands, and between them there are gaps; where scanning fails, the same is true of the source
up to the character in front of which it fails, and no pattern matches there. -/
theorem tokenize_lossless (source : String) (file : Option String)
    (hsize : byteLength source.toList < UInt32.size) :
    (∀ ts, tokenize source file = .ok ts →
      Lossless (file.getD defaultLabel) source.toList [] ts) ∧
    (∀ e, tokenize source file = .error e → ∃ text c cs, source.toList = text ++ c :: cs ∧
      e.position.offset.toNat = byteLength text ∧ e.position.file = file.getD defaultLabel ∧
      e.cause = .unrecognised (String.singleton c) ∧
      (∀ p ∈ Pattern.table, p.split? (c :: cs) = none) ∧
      Lossless (file.getD defaultLabel) text (c :: cs) (streamOf source file).tokens) := by
  obtain ⟨text, rest, happend, hlaid, hstop⟩ := exists_laid_streamOf source file
  have hstanding : Standing (file.getD defaultLabel) (streamOf source file).tokens :=
    ((Scanner.ofSource (file.getD defaultLabel) source).standing_feed
      (by simpa [Scanner.ofSource] using hsize)).1
  have hlength : byteLength text ≤ byteLength source.toList := by
    rw [happend, Text.byteLength_append]
    exact Nat.le_add_right _ _
  have hlossless := hlaid.lossless hstanding (Nat.lt_of_le_of_lt hlength hsize)
  generalize hfault : (streamOf source file).fault = fault at hstop
  -- Whether the source is read to its end or up to a fault, the tokens in front are laid out alike.
  constructor
  · intro ts h
    rw [tokenize_eq_ok_iff_streamOf] at h
    rw [h] at hlossless hfault
    subst hfault
    cases hstop
    rwa [happend, List.append_nil]
  · intro e h
    rw [tokenize_eq_error_iff_streamOf] at h
    rw [h] at hfault
    subst hfault
    cases hstop with
    | @stuck c cs hit =>
      refine ⟨text, c, cs, happend, Position.toNat_offset_of _ (by omega), rfl, rfl,
        fun p hp => ?_, hlossless⟩
      have hnone := List.findSome?_eq_none_iff.1 hit p hp
      simpa using hnone

/-- Characters of more than one byte in a string and in a comment, and a line with no end. -/
theorem tokenize_lossless_wide :
    ∃ ts, tokenize "x = \"é\" // ü\n  y /* ∀ */" none = .ok ts ∧
      Lossless defaultLabel "x = \"é\" // ü\n  y /* ∀ */".toList [] ts := by
  have hsize : byteLength "x = \"é\" // ü\n  y /* ∀ */".toList < UInt32.size := by
    decide +kernel
  have hok : (tokenize "x = \"é\" // ü\n  y /* ∀ */" none).isOk = true := by
    decide +kernel
  cases h : tokenize "x = \"é\" // ü\n  y /* ∀ */" none with
  | error e =>
    rw [h] at hok
    cases hok
  | ok ts => exact ⟨ts, rfl, (tokenize_lossless _ none hsize).1 ts h⟩

end Scriptlet
