import Scriptlet.Proofs.MatchEnds
import Scriptlet.Proofs.Regex

/-!
# The first match is the longest

Each pattern of the lexical grammar is a regular expression, and its reader takes what a matcher of
regular expressions prefers. The table is tried in order, and in a pattern ways are tried in order;
nowhere is there a search for the longest text. Yet that is what is found. The text that a pattern
takes is the longest word of its language that the source starts with, except for a comment between
marks, which is lazy and ends at the first closing mark. And of the patterns that match at a place,
the first one takes strictly more than any other.

## Main definitions

* `Pattern.regex`: the patterns as regular expressions;
* `Pattern.Wins`, `Pattern.TakesAll`, `Scanner.Advances`: what is said of the match of the table.

## Main results

* `Pattern.first?_regex`: readers take what is preferred;
* `Pattern.prefix_of_mem_language`: what is preferred is longest;
* `Pattern.length_lt_of_split?`: the match of the table is longer than the others;
* `Scanner.next_takes_longest`: the match of the table, and what the scanner makes of it.
-/

namespace Scriptlet

open Text (byteLength)

namespace Pattern

/-- A character of a string between the given marks, or two where there is a backslash. -/
def quotedItem (mark : Char) : Regex :=
  .alt (.char fun c => c != mark && c != '\\' && c != '\n') (.literal ['\\'] (.char (· != '\n')))

/-- The regular expression of a pattern. -/
def regex : Pattern → Regex
  | blanks => .plus (.char isBlank)
  | lineBreaks => .literal ['\n'] (.star (.char isLayout))
  | lineComment => .literal ['/', '/'] (.star (.char (· != '\n')))
  | blockComment => .literal ['/', '*'] (.seq (.lazyStar (.char fun _ => true))
      (.literal ['*', '/'] .empty))
  | word => .seq (.char isWordStart) (.star (.char isWordPart))
  | number => .seq (.plus (.char isDigit)) (.optional (.literal ['.'] (.plus (.char isDigit))))
  | quoted mark => .literal [mark] (.seq (.star (quotedItem mark)) (.literal [mark] .empty))
  | fixed _ text => .literal text .empty

end Pattern

/-! ### Readers take what is preferred -/

namespace Regex

variable {cs : List Char}

theorem first?_empty (cs : List Char) : empty.first? cs = some ([], cs) := rfl

theorem first?_literal_empty (t cs : List Char) :
    (literal t empty).first? cs = takeText? t cs := by
  by_cases h : ∃ more, cs = t ++ more
  · obtain ⟨more, rfl⟩ := h
    rw [first?_literal_append, first?_empty, takeText?_append]
    simp [join]
  · rw [first?_literal_of_not fun more heq => h ⟨more, heq⟩, takeText?, if_neg]
    rw [List.isPrefixOf_iff_prefix]
    rintro ⟨more, rfl⟩
    exact h ⟨more, rfl⟩

/-- A class and a repetition of another one take a run. -/
theorem first?_run (first more : Char → Bool) (cs : List Char) :
    (seq (char first) (star (char more))).first? cs = takeRun? first more cs := by
  cases cs with
  | nil => rfl
  | cons c cs =>
    rw [first?_seq_char, first?_star_char]
    rfl

/-- The expression for a line comment takes what the reader takes. -/
theorem first?_lineComment (cs : List Char) :
    (literal ['/', '/'] (star (char (· != '\n')))).first? cs = takeLineComment? cs := by
  by_cases h : ∃ more, cs = '/' :: '/' :: more
  · obtain ⟨more, rfl⟩ := h
    exact (first?_literal_append ['/', '/'] more).trans (by rw [first?_star_char]; rfl)
  · rw [first?_literal_of_not fun more heq => h ⟨more, heq⟩, takeLineComment?.eq_2]
    exact fun more heq => h ⟨more, heq⟩

/-- A lazy run ends at the first closing mark. -/
theorem first?_throughClose (cs : List Char) :
    (seq (lazyStar (char fun _ => true)) (literal ['*', '/'] empty)).first? cs =
      takeThroughClose? cs := by
  have hways : ∀ c cs, (char fun _ => true).ways (c :: cs) = [([c], cs)] := fun _ _ => rfl
  -- By the cases of the reader: a lazy run stops where the mark stands, and takes a character
  -- anywhere else.
  fun_induction takeThroughClose? cs with
  | case1 => rw [first?_seq_lazyStar_of_nil rfl, first?_literal_of_not fun more h => by cases h]
  | case2 cs =>
    rw [first?_seq_lazyStar_of_singleton (hways _ _) (Nat.lt_succ_self _), first?_literal_empty]
    rfl
  | case3 c cs hclose ih =>
    have hnone : takeText? ['*', '/'] (c :: cs) = none := by
      refine if_neg fun h => ?_
      obtain ⟨more, heq⟩ := List.isPrefixOf_iff_prefix.1 h
      obtain ⟨rfl, rfl⟩ := List.cons.inj heq
      exact hclose more rfl rfl
    rw [first?_seq_lazyStar_of_singleton (hways _ _) (Nat.lt_succ_self _), first?_literal_empty,
      hnone, ih]
    rfl

/-- The expression for a block comment takes what the reader takes. -/
theorem first?_blockComment (cs : List Char) :
    (literal ['/', '*'] (seq (lazyStar (char fun _ => true)) (literal ['*', '/'] empty))).first?
      cs = takeBlockComment? cs := by
  by_cases h : ∃ more, cs = '/' :: '*' :: more
  · obtain ⟨more, rfl⟩ := h
    exact (first?_literal_append ['/', '*'] more).trans (by rw [first?_throughClose]; rfl)
  · rw [first?_literal_of_not fun more heq => h ⟨more, heq⟩, takeBlockComment?.eq_2]
    exact fun more heq => h ⟨more, heq⟩

/-- So does the expression for a fraction, which may be missing. -/
theorem first?_fraction (cs : List Char) :
    (optional (literal ['.'] (plus (char isDigit)))).first? cs = some (takeFraction cs) := by
  rw [first?_optional]
  by_cases h : ∃ more, cs = '.' :: more
  · obtain ⟨more, rfl⟩ := h
    rw [show '.' :: more = ['.'] ++ more from rfl, first?_literal_append, plus, first?_run]
    cases hrun : takeRun? isDigit isDigit more <;> simp [takeFraction, hrun, join]
  · rw [first?_literal_of_not fun more heq => h ⟨more, heq⟩, takeFraction.eq_2]
    · rfl
    · exact fun more heq => h ⟨more, heq⟩

/-- So does the expression for a number. -/
theorem first?_number (cs : List Char) :
    (seq (plus (char isDigit)) (optional (literal ['.'] (plus (char isDigit))))).first? cs =
      takeNumber? cs := by
  rw [first?_seq_of_isSome fun m => by rw [first?_fraction]; rfl, plus, first?_run, takeNumber?]
  cases takeRun? isDigit isDigit cs with
  | none => rfl
  | some parts => exact congrArg (Option.map (join parts.1)) (first?_fraction parts.2)

section Quoted

variable {mark c : Char}

theorem ways_quotedItem_plain (hmark : c ≠ mark) (hstop : ¬(c = '\n' ∨ c = '\\')) :
    (Pattern.quotedItem mark).ways (c :: cs) = [([c], cs)] := by
  rw [not_or] at hstop
  simp [Pattern.quotedItem, ways, literal, hmark, hstop]

theorem ways_quotedItem_escape (hc : c ≠ '\n') :
    (Pattern.quotedItem mark).ways ('\\' :: c :: cs) = [(['\\', c], cs)] := by
  simp [Pattern.quotedItem, ways, literal, join, hc]

theorem ways_quotedItem_of_stop (hmark : mark ≠ '\\') (hstop : c = mark ∨ c = '\n') :
    (Pattern.quotedItem mark).ways (c :: cs) = [] := by
  rcases hstop with rfl | rfl <;> simp [Pattern.quotedItem, ways, literal, hmark]

theorem ways_quotedItem_backslash (hcs : ∀ c ∈ cs.head?, c = '\n') :
    (Pattern.quotedItem mark).ways ('\\' :: cs) = [] := by
  cases cs with
  | nil => simp [Pattern.quotedItem, ways, literal]
  | cons c cs => simp [Pattern.quotedItem, ways, literal, hcs c rfl]

/-- In front of anything but a mark a string is not closed. -/
theorem first?_mark_of_ne (hc : c ≠ mark) : (literal [mark] empty).first? (c :: cs) = none :=
  first?_literal_of_not fun _ h => hc (List.cons.inj h).1

theorem first?_throughQuote (hmark : mark ≠ '\\') (cs : List Char) :
    (seq (star (Pattern.quotedItem mark)) (literal [mark] empty)).first? cs =
      takeThroughQuote? mark cs := by
  -- In each place there is at most one way to take an item, so the run is as long as the reader's.
  fun_induction takeThroughQuote? mark cs with
  | case1 => rw [first?_seq_star_of_nil rfl, first?_literal_of_not fun more h => by cases h]
  | case2 cs =>
    rw [first?_seq_star_of_nil (ways_quotedItem_backslash (by simp)), first?_mark_of_ne hmark.symm]
  | case3 c cs hc ih =>
    have hlt : cs.length < ('\\' :: c :: cs).length := Nat.lt_succ_of_lt (Nat.lt_succ_self _)
    rw [first?_seq_star_of_singleton (ways_quotedItem_escape hc) hlt, ih,
      first?_mark_of_ne hmark.symm, Option.or_none]
    rfl
  | case4 cs =>
    rw [first?_seq_star_of_nil (ways_quotedItem_of_stop hmark (.inl rfl)), first?_literal_empty]
    exact takeText?_append [mark] cs
  | case5 c cs hback hc hstop =>
    rw [first?_seq_star_of_nil, first?_mark_of_ne hc]
    rcases hstop with rfl | rfl
    · exact ways_quotedItem_of_stop hmark (.inr rfl)
    · refine ways_quotedItem_backslash fun d hd => ?_
      obtain ⟨more, rfl⟩ := List.head?_eq_some_iff.1 hd
      exact absurd rfl (hback d more rfl)
  | case6 c cs _ hc hstop ih =>
    rw [first?_seq_star_of_singleton (ways_quotedItem_plain hc hstop) (Nat.lt_succ_self _), ih,
      first?_mark_of_ne hc, Option.or_none]
    rfl

end Quoted

end Regex

/-- A reader takes what a matcher prefers. -/
theorem Pattern.first?_regex {p : Pattern} (hp : p ∈ table) (cs : List Char) :
    p.regex.first? cs = p.split? cs := by
  cases p with
  | blanks => exact Regex.first?_run _ _ cs
  | lineBreaks => exact Regex.first?_run (· = '\n') isLayout cs
  | lineComment => exact Regex.first?_lineComment cs
  | blockComment => exact Regex.first?_blockComment cs
  | word => exact Regex.first?_run _ _ cs
  | number => exact Regex.first?_number cs
  | quoted mark =>
    have hmark := inLine_of_mem hp
    simp only [inLine, Bool.and_eq_true, decide_eq_true_eq] at hmark
    cases cs with
    | nil => rfl
    | cons c cs =>
      rw [split?, takeQuoted?, regex, Regex.literal, Regex.first?_seq_char, Regex.literal,
        Regex.first?_throughQuote hmark.2]
      by_cases hc : c = mark
      · subst hc
        simp
        rfl
      · simp [hc]
  | fixed kind text => exact Regex.first?_literal_empty text cs

/-! ### What is preferred is longest -/

/-- A run in front of some text is part of the longest one. -/
theorem prefix_of_takeRun? {first more : Char → Bool} {c : Char} {run behind text rest : List Char}
    (hrun : ∀ d ∈ run, more d = true)
    (h : takeRun? first more (c :: run ++ behind) = some (text, rest)) : c :: run <+: text := by
  rw [List.cons_append, takeRun?] at h
  split at h
  · cases h
    rw [List.takeWhile_append_of_pos hrun]
    exact List.cons_prefix_cons.2 ⟨rfl, List.prefix_append _ _⟩
  · cases h

/-- The digits of a number, and its fraction if it has one. -/
theorem Regex.mem_language_number {w : List Char}
    (h : w ∈ (seq (plus (char isDigit))
      (optional (literal ['.'] (plus (char isDigit))))).language) :
    ∃ c run, isDigit c = true ∧ (∀ d ∈ run, isDigit d = true) ∧ (w = c :: run ∨
      ∃ d digits, isDigit d = true ∧ (∀ e ∈ digits, isDigit e = true) ∧
        w = c :: run ++ '.' :: d :: digits) := by
  rw [language, Language.mem_mul] at h
  obtain ⟨whole, hwhole, fraction, hfraction, rfl⟩ := h
  obtain ⟨c, run, hc, hrun, rfl⟩ := mem_language_seq_char.1 hwhole
  refine ⟨c, run, hc, mem_language_star_char.1 hrun, ?_⟩
  rw [optional, language, Language.mem_add] at hfraction
  rcases hfraction with hfraction | hfraction
  · obtain ⟨v, hv, rfl⟩ := mem_language_literal.1 hfraction
    obtain ⟨d, digits, hd, hdigits, rfl⟩ := mem_language_seq_char.1 hv
    exact .inr ⟨d, digits, hd, mem_language_star_char.1 hdigits, rfl⟩
  · rw [language, Language.mem_one] at hfraction
    rw [hfraction, List.append_nil]
    exact .inl rfl

theorem prefix_of_takeNumber? {w behind text rest : List Char}
    (hw : w ∈ Pattern.number.regex.language) (h : takeNumber? (w ++ behind) = some (text, rest)) :
    w <+: text := by
  obtain ⟨c, run, hc, hrun, rfl | ⟨d, digits, hd, hdigits, rfl⟩⟩ := Regex.mem_language_number hw
  · obtain ⟨⟨whole, more⟩, hwhole, heq⟩ := Option.map_eq_some_iff.1 h
    cases heq
    exact (prefix_of_takeRun? hrun hwhole).trans (List.prefix_append _ _)
  · have hwhole : takeRun? isDigit isDigit (c :: run ++ '.' :: d :: digits ++ behind) =
        some (c :: run, '.' :: (d :: digits ++ behind)) :=
      takeRun?_eq_some_iff.2 ⟨by simp, ⟨c, run, rfl, hc, hrun⟩, by simp [isDigit]⟩
    cases hfraction : takeRun? isDigit isDigit (d :: digits ++ behind) with
    | none => simp [takeRun?, hd] at hfraction
    | some parts =>
      obtain ⟨fraction, last⟩ := parts
      have hdigits' := prefix_of_takeRun? hdigits hfraction
      rw [takeNumber?_of_takeRun? hwhole] at h
      simp only [takeFraction, hfraction, Option.some.injEq, Prod.mk.injEq] at h
      rw [← h.1]
      exact (List.prefix_append_right_inj _).2 (List.cons_prefix_cons.2 ⟨rfl, hdigits'⟩)

/-- An item of a quotation is one character, or a backslash and the one behind it. -/
theorem mem_language_quotedItem {mark : Char} {item : List Char}
    (h : item ∈ (Pattern.quotedItem mark).language) :
    (∃ c, c ≠ mark ∧ ¬(c = '\n' ∨ c = '\\') ∧ item = [c]) ∨ ∃ c, c ≠ '\n' ∧ item = ['\\', c] := by
  rw [Pattern.quotedItem, Regex.language, Language.mem_add] at h
  rcases h with ⟨c, hc, rfl⟩ | h
  · simp only [Bool.and_eq_true, bne_iff_ne] at hc
    exact .inl ⟨c, hc.1.1, by simp [hc], rfl⟩
  · obtain ⟨_, ⟨c, hc, rfl⟩, rfl⟩ := Regex.mem_language_literal.1 h
    exact .inr ⟨c, by simpa using hc, rfl⟩

/-- A string is closed by the first mark behind its characters. -/
theorem takeThroughQuote?_of_mem {mark : Char} (hmark : mark ≠ '\\') {body : List Char}
    (h : body ∈ (Regex.star (Pattern.quotedItem mark)).language) (behind : List Char) :
    takeThroughQuote? mark (body ++ mark :: behind) = some (body ++ [mark], behind) := by
  obtain ⟨items, rfl, hitems⟩ := Language.mem_kstar.1 h
  clear h
  -- One item after the other, as none of them is the closing mark.
  induction items with
  | nil =>
    rw [List.flatten_nil, List.nil_append, takeThroughQuote?.eq_3 _ _ _ fun _ _ h' =>
      absurd h' hmark, if_pos rfl]
    rfl
  | cons item items ih =>
    obtain ⟨hitem, hrest⟩ := List.forall_mem_cons.1 hitems
    rcases mem_language_quotedItem hitem with ⟨c, hc, hstop, rfl⟩ | ⟨c, hc, rfl⟩
    · rw [List.flatten_cons, List.singleton_append, List.cons_append,
        takeThroughQuote?.eq_3 _ _ _ fun _ _ h' => absurd (.inr h') hstop, if_neg hc,
        if_neg hstop, ih hrest]
      rfl
    · rw [List.flatten_cons, List.append_assoc, List.cons_append, List.singleton_append,
        takeThroughQuote?.eq_2, if_neg hc, ih hrest]
      rfl

namespace Pattern

variable {p q : Pattern} {cs text rest : List Char}

/-- What a pattern takes is the longest word of its language that the source starts with, but for
comments between marks. -/
theorem prefix_of_mem_language (hp : p ∈ table) (hlazy : p ≠ blockComment)
    (h : p.split? cs = some (text, rest)) {w : List Char} (hw : w ∈ p.regex.language)
    (hcs : w <+: cs) : w <+: text := by
  obtain ⟨behind, rfl⟩ := hcs
  cases p with
  | blanks | word =>
    obtain ⟨c, run, -, hrun, rfl⟩ := Regex.mem_language_seq_char.1 hw
    exact prefix_of_takeRun? (Regex.mem_language_star_char.1 hrun) h
  | lineBreaks =>
    obtain ⟨c, run, -, hrun, rfl⟩ := Regex.mem_language_seq_char.1 hw
    have htake : takeRun? (· = '\n') isLayout (c :: run ++ behind) = some (text, rest) := h
    exact prefix_of_takeRun? (Regex.mem_language_star_char.1 hrun) htake
  | lineComment =>
    obtain ⟨line, hline, rfl⟩ := Regex.mem_language_literal.1 hw
    have htake : takeLineComment? ('/' :: '/' :: (line ++ behind)) = some (text, rest) := h
    rw [takeLineComment?, List.takeWhile_append_of_pos (Regex.mem_language_star_char.1 hline)]
      at htake
    cases htake
    exact List.prefix_append ('/' :: '/' :: line) _
  | blockComment => exact absurd rfl hlazy
  | number => exact prefix_of_takeNumber? hw h
  -- A quotation in the language ends at the first mark, so the texts are even the same.
  | quoted mark =>
    have hmark := inLine_of_mem hp
    simp only [inLine, Bool.and_eq_true, decide_eq_true_eq] at hmark
    obtain ⟨v, hv, rfl⟩ := Regex.mem_language_literal.1 hw
    obtain ⟨body, hbody, _, hclose, rfl⟩ := Language.mem_mul.1 hv
    obtain ⟨_, hempty, rfl⟩ := Regex.mem_language_literal.1 hclose
    obtain rfl := (Language.mem_one _).1 hempty
    have htake := takeThroughQuote?_of_mem hmark.2 hbody behind
    simp [split?, takeQuoted?, htake] at h
    simp [← h.1]
  | fixed kind word =>
    obtain ⟨v, hv, rfl⟩ := Regex.mem_language_literal.1 hw
    obtain rfl := (Language.mem_one _).1 hv
    rw [(takeText?_eq_some h).1, List.append_nil]

/-- Of two patterns that match, the match of the table is the one that takes more. -/
theorem length_lt_of_split? {text' rest' : List Char}
    (hit : firstMatch? cs = some (p, text, rest)) (hq : q ∈ table) (hne : q ≠ p)
    (h : q.split? cs = some (text', rest')) : text'.length < text.length := by
  obtain ⟨hp, hsplit, hsign⟩ := firstMatch?_eq_some_iff.1 hit
  -- If two patterns match, one of them is a sign and the other one is that sign and an equals sign.
  obtain ⟨c, more, hc, rfl⟩ := (eq_of_split? hq hp h hsplit).resolve_left hne
  rcases cases_of_sign hc hp hsplit with rfl | ⟨rfl, -⟩
  · -- The sign by itself is not the first match here.
    obtain ⟨rfl, happend⟩ := takeText?_eq_some hsplit
    obtain ⟨-, rfl⟩ := List.cons.inj happend
    exact absurd rfl (hsign (by simpa using hc))
  · rcases cases_of_sign hc hq h with rfl | ⟨rfl, -⟩
    · obtain ⟨rfl, -⟩ := takeText?_eq_some hsplit
      obtain ⟨rfl, -⟩ := takeText?_eq_some h
      simp
    · exact absurd rfl hne

/-- Blanks and comments stand for no token, and neither does a line end behind another one. -/
theorem token?_eq_none_iff {last : Option Kind} : p.token? last text = none ↔
    p = blanks ∨ p = lineComment ∨ p = blockComment ∨
      (p = lineBreaks ∧ last = some .lineBreak) := by
  cases p with
  | lineBreaks => by_cases hlast : last = some .lineBreak <;> simp [token?, hlast]
  | blanks | lineComment | blockComment | word | number | quoted mark | fixed kind word =>
    simp [token?]

/-- The value of a token is the text that was matched, but for line breaks. -/
theorem value_of_token? {last : Option Kind} {kind : Kind} {value : String} (hp : p ∈ table)
    (h : p.token? last text = some (kind, value)) :
    value = if kind = .lineBreak then "\n" else String.ofList text := by
  cases p with
  | blanks | lineComment | blockComment => cases h
  | lineBreaks =>
    rw [token?] at h
    split at h <;> cases h
    rfl
  | word | number | quoted mark | fixed kind' text' =>
    have hk : kind ≠ .lineBreak := by
      rintro rfl
      cases eq_lineBreaks_of_token? hp h
    rw [if_neg hk]
    cases h
    rfl

end Pattern

/-! ### Words -/

/-- The reserved words and their kinds. -/
def reservedWords : List (String × Kind) :=
  [("let", .letWord), ("var", .varWord), ("const", .constWord), ("return", .returnWord),
    ("function", .functionWord)]

/-- A word is of the kind of a reserved word exactly if it is that word. -/
theorem Kind.mem_reservedWords_iff (text : String) :
    ((Kind.reserved? text).getD .identifier ∈ reservedWords.map (·.2) ↔
      text ∈ reservedWords.map (·.1)) ∧
    (text ∈ reservedWords.map (·.1) →
      (text, (Kind.reserved? text).getD .identifier) ∈ reservedWords) := by
  rw [Kind.reserved?.eq_def]
  split <;> simp_all [reservedWords]

/-- A match of words takes all that a word can go on with. -/
theorem takeRun?_word {cs text rest : List Char}
    (h : takeRun? isWordStart isWordPart cs = some (text, rest)) :
    text = cs.takeWhile isWordPart := by
  cases cs with
  | nil => cases h
  | cons c cs =>
    rw [takeRun?] at h
    split at h
    · rename_i hc
      cases h
      simp [isWordPart, hc]
    · cases h

/-! ### The match of the table -/

/-- The pattern wins at the front of a source. -/
structure Pattern.Wins (p : Pattern) (cs text rest : List Char) : Prop where
  /-- No pattern in front of it in the table matches. -/
  first : ∃ earlier later, table = earlier ++ p :: later ∧ ∀ q ∈ earlier, q.regex.first? cs = none
  /-- The pattern matches, and takes the text. -/
  takes : p.regex.first? cs = some (text, rest)
  /-- Each other pattern that matches takes less. -/
  longer : ∀ q ∈ table, q ≠ p → ∀ text' rest', q.regex.first? cs = some (text', rest') →
    text'.length < text.length

/-- The text is as long as it can be. -/
structure Pattern.TakesAll (p : Pattern) (cs text : List Char) : Prop where
  /-- The text is a word of the language of the pattern. -/
  mem : text ∈ p.regex.language
  /-- Of the words that the source starts with it is the longest, but for comments between marks. -/
  longest : p ≠ blockComment → ∀ w ∈ p.regex.language, w <+: cs → w <+: text
  /-- A comment between marks goes up to the first closing mark behind the opening one. -/
  close : p = blockComment → ∃ body, text = '/' :: '*' :: (body ++ ['*', '/']) ∧
    ¬ ['*', '/'] <:+: body ++ ['*']

/-- The scanner goes on behind the text that the pattern has taken. -/
structure Scanner.Advances (s : Scanner) (p : Pattern) (text rest : List Char) : Prop where
  /-- The text stands in front of the rest. -/
  split : s.rest = text ++ rest
  /-- Blanks, comments and line ends behind a line break are passed over, and nothing else is. -/
  silent : p.token? s.lastKind text = none ↔ p = .blanks ∨ p = .lineComment ∨ p = .blockComment ∨
    (p = .lineBreaks ∧ s.lastKind = some .lineBreak)
  /-- What is passed over leaves its length behind, and no more. -/
  passes : p.token? s.lastKind text = none →
    s.next = next { s with offset := s.offset + byteLength text, rest := rest }
  /-- A token has the span of the text, and the text as its value; line breaks have a newline. -/
  token : ∀ kind value, p.token? s.lastKind text = some (kind, value) →
    s.next = .ok (some ⟨kind, value, .of s.file s.offset (byteLength text)⟩)
      { s with offset := s.offset + byteLength text, rest := rest, lastKind := some kind } ∧
    value = if kind = .lineBreak then "\n" else String.ofList text
  /-- A word is all that can belong to it, and its kind is that of a reserved word exactly if all of
  it is one. -/
  word : p = .word → text = s.rest.takeWhile isWordPart ∧
    ∀ kind value, p.token? s.lastKind text = some (kind, value) →
      (kind ∈ reservedWords.map (·.2) ↔ String.ofList text ∈ reservedWords.map (·.1)) ∧
      (String.ofList text ∈ reservedWords.map (·.1) → (String.ofList text, kind) ∈ reservedWords)

section

variable {p : Pattern} {cs text rest : List Char}

theorem Pattern.wins_of_firstMatch? (hit : firstMatch? cs = some (p, text, rest)) :
    p.Wins cs text rest where
  first := by
    obtain ⟨earlier, q, later, htable, hq, hnone⟩ := List.findSome?_eq_some_iff.1 hit
    obtain ⟨parts, -, heq⟩ := Option.map_eq_some_iff.1 hq
    cases heq
    refine ⟨earlier, later, htable, fun r hr => ?_⟩
    rw [first?_regex (htable ▸ List.mem_append_left _ hr)]
    simpa using hnone r hr
  takes := by
    obtain ⟨hp, hsplit, -⟩ := firstMatch?_eq_some hit
    rw [first?_regex hp, hsplit]
  longer q hq hne text' rest' h := by
    rw [first?_regex hq] at h
    exact length_lt_of_split? hit hq hne h

theorem Pattern.takesAll_of_firstMatch? (hit : firstMatch? cs = some (p, text, rest)) :
    p.TakesAll cs text := by
  obtain ⟨hp, hsplit, -⟩ := firstMatch?_eq_some hit
  refine ⟨?_, fun hlazy w hw hcs => prefix_of_mem_language hp hlazy hsplit hw hcs, ?_⟩
  · rw [← first?_regex hp] at hsplit
    exact (Regex.mem_language_of_first? hsplit).1
  · rintro rfl
    exact takeBlockComment?_eq_some hsplit

theorem Scanner.advances_of_firstMatch? {s : Scanner}
    (hit : firstMatch? s.rest = some (p, text, rest)) : s.Advances p text rest where
  split := (firstMatch?_eq_some hit).2.2.1
  silent := Pattern.token?_eq_none_iff
  passes htoken := by
    rw [next_of_firstMatch? hit, htoken]
    rfl
  token kind value htoken := by
    rw [next_of_firstMatch? hit, htoken]
    exact ⟨rfl, Pattern.value_of_token? (firstMatch?_eq_some hit).1 htoken⟩
  word hword := by
    subst hword
    refine ⟨takeRun?_word (firstMatch?_eq_some hit).2.1, fun kind value htoken => ?_⟩
    simp only [Pattern.token?, Option.some.injEq, Prod.mk.injEq] at htoken
    rw [← htoken.1]
    exact Kind.mem_reservedWords_iff _

end

/-- Where a pattern matches, the first one of the table that does takes strictly more than any
other, and all that it can take; and the scanner makes a token of it, or passes over it, and goes on
behind it. -/
theorem Scanner.next_takes_longest (s : Scanner)
    (h : ∃ q ∈ Pattern.table, ∃ w ∈ q.regex.language, w <+: s.rest) :
    ∃ p text rest, p.Wins s.rest text rest ∧ p.TakesAll s.rest text ∧ s.Advances p text rest := by
  obtain ⟨q, hq, hw⟩ := h
  cases hit : firstMatch? s.rest with
  | none =>
    have hnone := List.findSome?_eq_none_iff.1 hit q hq
    rw [Option.map_eq_none_iff, ← Pattern.first?_regex hq] at hnone
    rw [← Regex.isSome_first?_iff, hnone] at hw
    cases hw
  | some found =>
    obtain ⟨p, text, rest⟩ := found
    exact ⟨p, text, rest, Pattern.wins_of_firstMatch? hit, Pattern.takesAll_of_firstMatch? hit,
      advances_of_firstMatch? hit⟩

/-- A word that starts like a reserved one, in front of a sign: it is a word as a whole. -/
theorem Scanner.next_takes_longest_lets :
    let s := ofSource "shell" "lets+=1"
    (∃ q ∈ Pattern.table, ∃ w ∈ q.regex.language, w <+: s.rest) ∧
      Pattern.word.Wins s.rest "lets".toList "+=1".toList ∧
      Pattern.word.TakesAll s.rest "lets".toList ∧
      s.Advances .word "lets".toList "+=1".toList := by
  have h : ∃ q ∈ Pattern.table, ∃ w ∈ q.regex.language,
      w <+: (ofSource "shell" "lets+=1").rest := by
    refine ⟨.word, by decide, ['l'], ?_, by decide⟩
    exact Regex.mem_language_seq_char.2
      ⟨'l', [], by decide, Regex.mem_language_star_char.2 nofun, rfl⟩
  obtain ⟨p, text, rest, hwins, htakes, hadvances⟩ := next_takes_longest _ h
  -- No other pattern matches, and this one takes all four letters.
  have hothers : ∀ q ∈ Pattern.table, q ≠ .word →
      q.regex.first? (ofSource "shell" "lets+=1").rest = none := by
    decide +kernel
  have hword : Pattern.word.regex.first? (ofSource "shell" "lets+=1").rest =
      some ("lets".toList, "+=1".toList) := by
    decide +kernel
  have hfirst := hwins.takes
  obtain rfl : p = .word := by
    obtain ⟨earlier, later, htable, -⟩ := hwins.first
    by_contra hne
    rw [hothers p (by simp [htable]) hne] at hfirst
    cases hfirst
  rw [hword] at hfirst
  cases hfirst
  exact ⟨h, hwins, htakes, hadvances⟩

end Scriptlet
