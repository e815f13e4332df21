import Mathlib.Data.List.Chain
import Scriptlet.Proofs.Lossless

/-!
# Line breaks separate tokens

A line break stands between two tokens of other kinds exactly if a line ends in the text between
them, and likewise in front of the first one. What ends a line is a newline, unless it is inside a
comment between marks; the newline behind a comment up to the end of the line is one. However many
lines end there, the line break is one token. It stands at the end of every source, too: for the
line that ends there, or else for no text at all.

The text between two tokens is told from the words of the tokens, not from their spans, so none of
this needs a bound on the length of the source. Only where the empty span of the last line break is
told from others, offsets must not wrap around.

## Main definitions

* `endsLine`: whether a line ends in a text;
* `Piece`, `Assembles`: the tokens of a source with all of its text;
* `Separates`: which texts have a line break.

## Main results

* `Gap.endsLine_append`: no line ends in a gap;
* `Scanner.isChain_feed`, `Scanner.getLast?_feed`: line breaks stand alone, and at the end;
* `Laid.exists_pieces`: texts laid out, piece by piece;
* `tokenize_lineBreaks`: the line breaks of a source.
-/

namespace Scriptlet

open Text (byteLength)

/-! ### Ends of lines -/

/-- Whether a line ends in a text: whether it has a newline that is not inside a comment between
marks. The flag says that the text starts inside of one. -/
def endsLine : Bool → List Char → Bool
  | _, [] => false
  | true, '*' :: '/' :: cs => endsLine false cs
  | true, _ :: cs => endsLine true cs
  | false, '\n' :: _ => true
  | false, '/' :: '*' :: cs => endsLine true cs
  | false, '/' :: '/' :: cs => cs.contains '\n'
  | false, _ :: cs => endsLine false cs

@[simp] theorem endsLine_nil (inside : Bool) : endsLine inside [] = false := by
  cases inside <;> rfl

@[simp] theorem endsLine_newline (cs : List Char) : endsLine false ('\n' :: cs) = true := rfl

theorem endsLine_blanks {run : List Char} (h : ∀ c ∈ run, isBlank c = true) (cs : List Char) :
    endsLine false (run ++ cs) = endsLine false cs := by
  induction run with
  | nil => rfl
  | cons c run ih =>
    obtain ⟨hc, hrun⟩ := List.forall_mem_cons.1 h
    have hplain : c ≠ '\n' ∧ c ≠ '/' := by
      constructor <;> rintro rfl <;> exact absurd hc (by decide)
    rw [List.cons_append, endsLine.eq_7 _ _ hplain.1 (fun _ h' => absurd h' hplain.2)
      (fun _ h' => absurd h' hplain.2), ih hrun]

/-- A comment up to the end of its line leaves that end to what stands behind it. -/
theorem endsLine_lineComment {line cs : List Char} (hline : '\n' ∉ line)
    (hcs : ∀ c ∈ cs.head?, c = '\n') :
    endsLine false ('/' :: '/' :: line ++ cs) = endsLine false cs := by
  rw [List.cons_append, List.cons_append, endsLine]
  cases cs with
  | nil => simpa using hline
  | cons c cs =>
    obtain rfl := hcs c rfl
    simp

/-- Inside a comment no line ends. -/
theorem endsLine_throughClose {body : List Char} (h : ¬ ['*', '/'] <:+: body ++ ['*'])
    (cs : List Char) : endsLine true (body ++ ['*', '/'] ++ cs) = endsLine false cs := by
  induction body with
  | nil => rfl
  | cons c body ih =>
    rw [List.cons_append, List.infix_cons_iff, not_or] at h
    rw [List.cons_append, List.cons_append, endsLine.eq_3, ih h.2]
    exact ne_slash_of_not_prefix h.1 cs

/-- No line ends in what is passed over, unless it is behind a line break. -/
theorem Skipped.endsLine_append {last : Option Kind} {text rest cs : List Char}
    (h : Skipped last text rest) (hlast : last ≠ some .lineBreak)
    (hcs : ∀ c ∈ cs.head?, rest.head? = some c) :
    endsLine false (text ++ cs) = endsLine false cs := by
  cases h with
  | blanks _ hrun => exact endsLine_blanks hrun cs
  | lineComment hline hrest => exact endsLine_lineComment hline fun c hc => hrest c (hcs c hc)
  | blockComment hfirst => exact endsLine_throughClose hfirst cs
  | lineBreaks hbreak _ => exact absurd hbreak hlast

/-- No line ends in a gap, unless it is behind a line break. -/
theorem Gap.endsLine_append {last : Option Kind} {gap rest cs : List Char} (h : Gap last gap rest)
    (hlast : last ≠ some .lineBreak) (hcs : ∀ c ∈ cs.head?, rest.head? = some c) :
    endsLine false (gap ++ cs) = endsLine false cs := by
  induction h with
  | nil => rfl
  | @cons text gap rest hskipped _ ih =>
    rw [List.append_assoc, hskipped.endsLine_append hlast, ih hcs]
    cases gap with
    | nil => exact hcs
    | cons d gap => exact fun c hc => hc

/-! ### Line breaks among the tokens -/

/-- Behind a line break no pattern gives another one. -/
theorem Pattern.kind_ne_lineBreak_of_token? {p : Pattern} {text : List Char} {kind : Kind}
    {value : String} (hp : p ∈ table)
    (h : p.token? (some .lineBreak) text = some (kind, value)) : kind ≠ .lineBreak := by
  rintro rfl
  obtain rfl := eq_lineBreaks_of_token? hp h
  cases h

namespace Scanner

/-- Behind a line break no other one comes. -/
theorem isChain_feed (s : Scanner) (hf : s.finished = false) :
    (s.lastKind.toList ++ s.feed.tokens.map (·.kind)).IsChain
      fun k l => ¬(k = .lineBreak ∧ l = .lineBreak) := by
  induction s using induction_on_rest with
  | stop s hrest =>
    rw [feed_of_rest_eq_nil hrest hf]
    cases hlast : s.lastKind with
    | none => simp
    | some k => by_cases hk : k = .lineBreak <;> simp [hk]
  | stuck s c cs hrest hit =>
    rw [feed_of_firstMatch?_eq_none hrest hit]
    cases s.lastKind <;> simp
  | step s p text rest hit ih =>
    cases htoken : p.token? s.lastKind text with
    | none =>
      rw [feed_of_token?_eq_none hit htoken]
      exact ih s.lastKind hf
    | some found =>
      obtain ⟨kind, value⟩ := found
      rw [feed_of_token?_eq_some hit htoken]
      have hbehind := ih (some kind) hf
      cases hlast : s.lastKind with
      | none => exact hbehind
      | some k =>
        -- Behind a line break no pattern stands for another one.
        refine List.isChain_cons_cons.2 ⟨?_, hbehind⟩
        rintro ⟨rfl, rfl⟩
        rw [hlast] at htoken
        exact Pattern.kind_ne_lineBreak_of_token? (firstMatch?_eq_some hit).1 htoken rfl

/-- A source that is scanned to its end ends in a line break. -/
theorem getLast?_feed (s : Scanner) (hf : s.finished = false) (h : s.feed.fault = none) :
    (s.lastKind.toList ++ s.feed.tokens.map (·.kind)).getLast? = some .lineBreak := by
  induction s using induction_on_rest with
  | stop s hrest =>
    rw [feed_of_rest_eq_nil hrest hf]
    by_cases hlast : s.lastKind = some .lineBreak <;> simp [hlast]
  | stuck s c cs hrest hit =>
    rw [feed_of_firstMatch?_eq_none hrest hit] at h
    cases h
  | step s p text rest hit ih =>
    cases htoken : p.token? s.lastKind text with
    | none =>
      rw [feed_of_token?_eq_none hit htoken] at h ⊢
      exact ih s.lastKind hf h
    | some found =>
      obtain ⟨kind, value⟩ := found
      rw [feed_of_token?_eq_some hit htoken] at h ⊢
      have hbehind := ih (some kind) hf h
      cases s.lastKind with
      | none => exact hbehind
      | some k =>
        rw [Option.toList_some, List.singleton_append, List.getLast?_cons]
        exact congrArg (fun last => some (last.getD k)) hbehind

end Scanner

/-! ### Tokens with all of the text -/

/-- A token in its source: the text in front of it that stands for no token, and its word. -/
structure Piece where
  /-- The text in front of the word. -/
  gap : List Char
  /-- The text that the token was read from. -/
  word : List Char
  /-- The token. -/
  token : Token

namespace Piece

/-- The text of a piece. -/
def text (p : Piece) : List Char := p.gap ++ p.word

/-- The text of some pieces, one behind the other. -/
def textOf (ps : List Piece) : List Char := ps.flatMap text

@[simp] theorem textOf_nil : textOf [] = [] := rfl

@[simp] theorem textOf_cons (p : Piece) (ps : List Piece) :
    textOf (p :: ps) = p.gap ++ (p.word ++ textOf ps) := by
  simp [textOf, text]

@[simp] theorem textOf_append (ps qs : List Piece) : textOf (ps ++ qs) = textOf ps ++ textOf qs :=
  List.flatMap_append

/-- The piece behind one text and in front of another. -/
structure Fits (label : String) (last : Option Kind) (before behind : List Char) (p : Piece) :
    Prop where
  /-- The text in front of the word is a gap. -/
  gap : Gap last p.gap (p.word ++ behind)
  /-- The token stands where its word stands. -/
  span : p.token.span = .of label (byteLength (before ++ p.gap)) (byteLength p.word)
  /-- The word is that of the token, or it is empty at the end of the source. -/
  word : p.token.ReadFrom p.word ∨ (p.word = [] ∧ behind = [] ∧ p.token.kind = .lineBreak)

end Piece

open Piece (textOf)

/-- Texts laid out, piece by piece. -/
theorem Laid.exists_pieces {label : String} {last : Option Kind} {text rest : List Char}
    {ts : List Token} (before : List Char) (hrest : rest = [])
    (h : Laid label last (byteLength before) text rest ts) :
    ∃ ps tail, ps.map (·.token) = ts ∧ text = textOf ps ++ tail ∧
      (∀ a p b, ps = a ++ p :: b → p.Fits label ((a.getLast?.map (·.token.kind)).or last)
        (before ++ textOf a) (textOf b ++ tail)) ∧
      Gap ((ps.getLast?.map (·.token.kind)).or last) tail [] := by
  generalize hoffset : byteLength before = offset at h
  induction h generalizing before with
  | @nil _ _ gap _ hgap =>
    subst hrest
    exact ⟨[], gap, rfl, by simp, by simp, hgap⟩
  | @cons last _ gap word text rest t ts hgap hword hspan _ ih =>
    subst hoffset hrest
    rw [← Text.byteLength_append] at hspan
    obtain ⟨ps, tail, htokens, rfl, hfits, htail⟩ :=
      ih (before ++ (gap ++ word)) rfl (Text.byteLength_append _ _)
    refine ⟨⟨gap, word, t⟩ :: ps, tail, by rw [List.map_cons, htokens], by simp, ?_, ?_⟩
    · intro a p b hsplit
      cases a with
      | nil =>
        obtain ⟨rfl, rfl⟩ := List.cons.inj hsplit
        rw [List.append_nil] at hgap
        exact ⟨hgap, by simpa using hspan, .inl hword⟩
      | cons q a =>
        obtain ⟨rfl, rfl⟩ := List.cons.inj hsplit
        have hp := hfits a p b rfl
        rw [List.getLast?_cons]
        cases hlast : a.getLast? <;> rw [hlast] at hp <;> simpa using hp
    · rw [List.getLast?_cons]
      cases hlast : ps.getLast? <;> rw [hlast] at htail <;> exact htail
  | @close _ _ gap hgap =>
    subst hoffset
    rw [← Text.byteLength_append]
    refine ⟨[⟨gap, [], _⟩], [], rfl, by simp, ?_, .nil⟩
    intro a p b hsplit
    obtain ⟨rfl, hsplit⟩ | ⟨-, hsplit⟩ := List.singleton_eq_append_iff.1 hsplit
    · obtain ⟨rfl, rfl⟩ := List.cons.inj hsplit
      exact ⟨hgap, by simp, .inr ⟨rfl, rfl, rfl⟩⟩
    · cases hsplit

/-! ### Sources -/

/-- The pieces, with a tail behind them, are a source with all of its tokens. -/
structure Assembles (label : String) (source : List Char) (ts : List Token) (ps : List Piece)
    (tail : List Char) : Prop where
  /-- Each token is in a piece. -/
  tokens : ps.map (·.token) = ts
  /-- Nothing of the source is lost. -/
  source : source = textOf ps ++ tail
  /-- Each token stands where its word stands. -/
  span : ∀ a p b, ps = a ++ p :: b →
    p.token.span = .of label (byteLength (textOf a ++ p.gap)) (byteLength p.word)
  /-- The word of a token that is no line break is its value. -/
  word : ∀ p ∈ ps, p.token.kind ≠ .lineBreak → p.word = p.token.value.toList

/-- Line breaks separate the other tokens of a source. -/
structure Separates (label : String) (source : List Char) (ps : List Piece) (tail : List Char) :
    Prop where
  /-- In front of a token that is no line break, and behind the one before it or the start of the
  source, there is a line break exactly if a line ends in the text up to the token. -/
  inFront : ∀ a b p d, ps = a ++ (b ++ p :: d) → (∀ q ∈ a.getLast?, q.token.kind ≠ .lineBreak) →
    (∀ q ∈ b, q.token.kind = .lineBreak) → p.token.kind ≠ .lineBreak →
    (b ≠ [] ↔ endsLine false (textOf b ++ p.gap) = true)
  /-- Behind the last token that is no line break, or the start of the source, there is one line
  break. It stands for no text, at the end of the source, exactly if no line ends in the text up to
  there; and where offsets do not wrap around, its span is empty then and only then. -/
  atEnd : ∀ a b, ps = a ++ b → (∀ q ∈ a.getLast?, q.token.kind ≠ .lineBreak) →
    (∀ q ∈ b, q.token.kind = .lineBreak) →
    ∃ q, b = [q] ∧ (q.word = [] ↔ endsLine false (textOf b ++ tail) = false) ∧
      (q.word = [] → q.token.span = .of label (byteLength source) 0) ∧
      (byteLength source < UInt32.size → (q.token.span.start = q.token.span.stop ↔ q.word = []))

namespace Piece.Fits

variable {label : String} {last : Option Kind} {before behind : List Char} {p : Piece}

/-- No line ends in front of the word. -/
theorem endsLine_gap (h : p.Fits label last before behind) (hlast : last ≠ some .lineBreak) :
    endsLine false p.gap = false := by
  have happend : endsLine false (p.gap ++ []) = endsLine false [] :=
    h.gap.endsLine_append hlast nofun
  simpa using happend

/-- A line ends in front of a line break and in it, unless it stands for no text. -/
theorem endsLine_lineBreak (h : p.Fits label last before behind) (hlast : last ≠ some .lineBreak)
    (hk : p.token.kind = .lineBreak) (hword : p.word ≠ []) (cs : List Char) :
    endsLine false (p.gap ++ (p.word ++ cs)) = true := by
  obtain ⟨run, hrun, -⟩ := (h.word.resolve_right fun hempty => hword hempty.1).lineBreak hk
  rw [hrun, List.cons_append, h.gap.endsLine_append hlast, endsLine_newline]
  rw [hrun]
  exact fun c hc => hc

/-- An empty word is at the end of the source. -/
theorem behind_eq_nil (h : p.Fits label last before behind) (hword : p.word = []) :
    behind = [] := by
  rcases h.word with hread | ⟨-, hbehind, -⟩
  · exact absurd hword hread.ne_nil
  · exact hbehind

/-- Where offsets do not wrap around, an empty span is that of an empty word. -/
theorem start_eq_stop_iff (h : p.Fits label last before behind)
    (hsize : byteLength (before ++ p.gap ++ p.word) < UInt32.size) :
    p.token.span.start = p.token.span.stop ↔ p.word = [] := by
  rw [Text.byteLength_append] at hsize
  rw [h.span, Span.of]
  constructor
  · intro heq
    have hoffset := congrArg (fun q => q.offset.toNat) heq
    simp only [Position.toNat_offset_of label (show byteLength (before ++ p.gap) < _ by omega),
      Position.toNat_offset_of label hsize] at hoffset
    by_contra hne
    have := Text.byteLength_pos hne
    omega
  · intro hword
    rw [hword, Text.byteLength_nil, Nat.add_zero]

end Piece.Fits

/-- Line breaks in a row are one at most. -/
theorem eq_nil_or_singleton_of_isChain {a b d : List Piece}
    (hchain : ((a ++ (b ++ d)).map (·.token.kind)).IsChain
      fun k l => ¬(k = .lineBreak ∧ l = .lineBreak))
    (hb : ∀ q ∈ b, q.token.kind = .lineBreak) : b = [] ∨ ∃ q, b = [q] := by
  cases b with
  | nil => exact .inl rfl
  | cons q b =>
    cases b with
    | nil => exact .inr ⟨q, rfl⟩
    | cons r b =>
      rw [List.map_append, List.map_append] at hchain
      have hpair := hchain.right_of_append.left_of_append
      rw [List.map_cons, List.map_cons, List.isChain_cons_cons] at hpair
      exact absurd ⟨hb q (by simp), hb r (by simp)⟩ hpair.1

theorem separates_of_fits {label : String} {ps : List Piece} {tail : List Char}
    (hfits : ∀ a p b, ps = a ++ p :: b →
      p.Fits label (a.getLast?.map (·.token.kind)) (textOf a) (textOf b ++ tail))
    (hchain : (ps.map (·.token.kind)).IsChain fun k l => ¬(k = .lineBreak ∧ l = .lineBreak))
    (hlast : ∃ q, ps.getLast? = some q ∧ q.token.kind = .lineBreak) :
    Separates label (textOf ps ++ tail) ps tail where
  inFront a b p d hsplit ha hb hp := by
    have hlast : a.getLast?.map (·.token.kind) ≠ some .lineBreak := by simpa using ha
    have hfit := hfits _ p d (by rw [hsplit, List.append_assoc])
    have hne := (hfit.word.resolve_right fun hempty => hp hempty.2.2).ne_nil
    rcases eq_nil_or_singleton_of_isChain (hsplit ▸ hchain) hb with rfl | ⟨q, rfl⟩
    · rw [List.append_nil] at hfit
      simp [hfit.endsLine_gap hlast]
    · have hq := hfits a q (p :: d) hsplit
      have hword : q.word ≠ [] := by
        intro hword
        have hbehind := hq.behind_eq_nil hword
        simp [hne] at hbehind
      have hline := hq.endsLine_lineBreak hlast (hb q (by simp)) hword p.gap
      simpa using hline
  atEnd a b hsplit ha hb := by
    obtain ⟨last, hlast, hkind⟩ := hlast
    have hnone : a.getLast?.map (·.token.kind) ≠ some .lineBreak := by simpa using ha
    rcases eq_nil_or_singleton_of_isChain (d := []) (by simpa [hsplit] using hchain) hb with
      rfl | ⟨q, rfl⟩
    · rw [List.append_nil] at hsplit
      exact absurd hkind (ha last (hsplit ▸ hlast))
    · have hq := hfits a q [] hsplit
      have htail : q.word = [] → tail = [] := fun hword => by simpa using hq.behind_eq_nil hword
      refine ⟨q, rfl, ⟨fun hword => ?_, fun hline => ?_⟩, fun hword => ?_, fun hsize => ?_⟩
      · rw [htail hword]
        simpa [hword] using hq.endsLine_gap hnone
      · by_contra hword
        have hends := hq.endsLine_lineBreak hnone (hb q (by simp)) hword tail
        rw [Piece.textOf_cons, Piece.textOf_nil, List.append_nil, List.append_assoc, hends] at hline
        cases hline
      · rw [hq.span, hsplit, htail hword, hword]
        simp [hword]
      · refine hq.start_eq_stop_iff (Nat.lt_of_le_of_lt ?_ hsize)
        rw [hsplit]
        simp

/-- The tokens of a source end in a line break, no two line breaks stand one behind the other, and
the line breaks stand where lines end. -/
theorem tokenize_lineBreaks {source : String} {file : Option String} {ts : List Token}
    (h : tokenize source file = .ok ts) :
    (∃ t, ts.getLast? = some t ∧ t.kind = .lineBreak) ∧
    ts.IsChain (fun t u => ¬(t.kind = .lineBreak ∧ u.kind = .lineBreak)) ∧
    ∃ ps tail, Assembles (file.getD defaultLabel) source.toList ts ps tail ∧
      Separates (file.getD defaultLabel) source.toList ps tail := by
  rw [tokenize_eq_ok_iff_streamOf] at h
  obtain ⟨text, rest, happend, hlaid, hstop⟩ := exists_laid_streamOf source file
  have hchain : ((streamOf source file).tokens.map (·.kind)).IsChain _ :=
    (Scanner.ofSource (file.getD defaultLabel) source).isChain_feed rfl
  have hlast : ((streamOf source file).tokens.map (·.kind)).getLast? = some .lineBreak :=
    (Scanner.ofSource (file.getD defaultLabel) source).getLast?_feed rfl (congrArg Feed.fault h)
  rw [h] at hlaid hstop hchain hlast
  cases hstop
  obtain ⟨ps, tail, rfl, rfl, hfits, -⟩ := hlaid.exists_pieces [] rfl
  simp only [Option.or_none, List.nil_append] at hfits
  rw [List.append_nil] at happend
  refine ⟨?_, List.isChain_map _ |>.1 hchain, ps, tail, ⟨rfl, happend, ?_, ?_⟩, ?_⟩
  · simpa using hlast
  · exact fun a p b hsplit => (hfits a p b hsplit).span
  · intro p hp hk
    obtain ⟨a, b, hsplit⟩ := List.append_of_mem hp
    exact ((hfits a p b hsplit).word.resolve_right fun hempty => hk hempty.2.2).value hk
  · rw [happend]
    refine separates_of_fits hfits ?_ ?_
    · rwa [List.map_map] at hchain
    · simpa using hlast

/-- A newline in a comment between marks ends no line, one behind a comment does, and the last line
has no end of its own. -/
theorem tokenize_lineBreaks_comments :
    ∃ ts, tokenize "a /* \n */ b // c\n\n /**/ d" none = .ok ts ∧
      ts.map (·.kind) = [.identifier, .identifier, .lineBreak, .identifier, .lineBreak] ∧
      (∃ t, ts.getLast? = some t ∧ t.kind = .lineBreak) ∧
      ts.IsChain (fun t u => ¬(t.kind = .lineBreak ∧ u.kind = .lineBreak)) ∧
      ∃ ps tail, Assembles defaultLabel "a /* \n */ b // c\n\n /**/ d".toList ts ps tail ∧
        Separates defaultLabel "a /* \n */ b // c\n\n /**/ d".toList ps tail := by
  have hkinds : (tokenize "a /* \n */ b // c\n\n /**/ d" none).map (List.map (·.kind)) =
      .ok [.identifier, .identifier, .lineBreak, .identifier, .lineBreak] := by
    decide +kernel
  cases h : tokenize "a /* \n */ b // c\n\n /**/ d" none with
  | error e =>
    rw [h] at hkinds
    cases hkinds
  | ok ts =>
    rw [h] at hkinds
    exact ⟨ts, rfl, Except.ok.inj hkinds, tokenize_lineBreaks h⟩

end Scriptlet
