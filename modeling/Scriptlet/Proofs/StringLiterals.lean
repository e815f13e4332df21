import Scriptlet.Proofs.Recognition

/-!
# Texts as string literals

Every text can be written as a literal, between marks of either sort: a backslash and the mark get a
backslash in front of them, and a newline becomes a backslash and the letter `n`. All else stands as
it is. A source that is such a literal is one token, and as a program it is one statement with the
text as its value.

Three readers have to agree on this. The pattern of strings passes over the character behind a
backslash without asking what it is; the parser takes the first and the last character away; and
decoding asks which letter stands behind a backslash. Each is followed through an escaped text, one
character of the text after the other.

## Main definitions

* `Text.escapeChar`, `Text.literal`: a text as a literal.

## Main results

* `takeThroughQuote?_flatMap_escapeChar`: the pattern takes the whole literal;
* `Text.unescape_flatMap_escapeChar`: decoding gives the text back;
* `parseSource_literal`: a literal as a source.
-/

namespace Scriptlet

open Text (byteLength)

/-! ### Escaped texts -/

namespace Text

/-- A character of a literal between the given marks. -/
def escapeChar (mark c : Char) : List Char :=
  if c = '\\' ∨ c = mark then ['\\', c] else if c = '\n' then ['\\', 'n'] else [c]

/-- The literal that stands for a text, between the given marks. -/
def literal (mark : Char) (v : String) : String :=
  String.ofList (mark :: v.toList.flatMap (escapeChar mark) ++ [mark])

/-- The ways in which a character is written: a letter behind a backslash that stands for it and
does not end the line, or the character itself, which then ends neither the line nor the literal. -/
theorem escapeChar_cases {mark : Char} (hmark : mark = '"' ∨ mark = '\x27') (c : Char) :
    (∃ d, escapeChar mark c = ['\\', d] ∧ simpleEscape? d = some c ∧ d ≠ '\n') ∨
    (escapeChar mark c = [c] ∧ c ≠ '\\' ∧ c ≠ mark ∧ c ≠ '\n') := by
  by_cases hself : c = '\\' ∨ c = mark
  · refine .inl ⟨c, if_pos hself, ?_⟩
    rcases hself with rfl | rfl
    · exact ⟨rfl, by decide⟩
    · rcases hmark with rfl | rfl <;> exact ⟨rfl, by decide⟩
  by_cases hnewline : c = '\n'
  · subst hnewline
    exact .inl ⟨'n', by rw [escapeChar, if_neg hself, if_pos rfl], rfl, by decide⟩
  · obtain ⟨hback, hne⟩ := not_or.1 hself
    exact .inr ⟨by rw [escapeChar, if_neg hself, if_neg hnewline], hback, hne, hnewline⟩

/-! ### Decoding -/

theorem unescape_cons_of_ne {c : Char} (h : c ≠ '\\') (cs : List Char) :
    unescape (c :: cs) = c :: unescape cs := by
  rw [unescape.eq_5] <;> simp_all

/-- A letter behind a backslash stands for one character, whatever comes behind it. -/
theorem unescape_of_simpleEscape? {c d : Char} (h : simpleEscape? c = some d) (cs : List Char) :
    unescape ('\\' :: c :: cs) = d :: unescape cs := by
  have hx : c ≠ 'x' := by
    rintro rfl
    cases h
  rw [unescape.eq_4, h] <;> simp_all

theorem unescape_flatMap_escapeChar {mark : Char} (hmark : mark = '"' ∨ mark = '\x27')
    (v : List Char) : unescape (v.flatMap (escapeChar mark)) = v := by
  induction v with
  | nil => rfl
  | cons c v ih =>
    rw [List.flatMap_cons]
    rcases escapeChar_cases hmark c with ⟨d, hchar, hsimple, -⟩ | ⟨hchar, hback, -⟩
    · rw [hchar, List.cons_append, List.singleton_append, unescape_of_simpleEscape? hsimple, ih]
    · rw [hchar, List.singleton_append, unescape_cons_of_ne hback, ih]

end Text

/-! ### Scanning -/

theorem takeThroughQuote?_flatMap_escapeChar {mark : Char} (hmark : mark = '"' ∨ mark = '\x27')
    (v rest : List Char) :
    takeThroughQuote? mark (v.flatMap (Text.escapeChar mark) ++ mark :: rest) =
      some (v.flatMap (Text.escapeChar mark) ++ [mark], rest) := by
  induction v with
  | nil =>
    rcases hmark with rfl | rfl <;> simp [takeThroughQuote?]
  | cons c v ih =>
    rw [List.flatMap_cons, List.append_assoc]
    -- A character is escaped, or else it is neither the mark nor a backslash nor a newline.
    rcases Text.escapeChar_cases hmark c with ⟨d, hchar, -, hline⟩ | ⟨hchar, hback, hne, hline⟩
    · rw [hchar, List.cons_append, List.singleton_append, takeThroughQuote?.eq_2, if_neg hline, ih]
      rfl
    · rw [hchar, List.singleton_append, takeThroughQuote?.eq_3 _ _ _ fun _ _ h => absurd h hback,
        if_neg hne, if_neg (not_or.2 ⟨hline, hback⟩), ih]
      rfl

/-- A source that starts with a mark has a match if its literal is closed. -/
theorem firstMatch?_mark {mark : Char} (hmark : mark = '"' ∨ mark = '\x27') (cs : List Char) :
    firstMatch? (mark :: cs) = (takeThroughQuote? mark cs).map fun parts =>
      (.quoted mark, mark :: parts.1, parts.2) := by
  rcases hmark with rfl | rfl <;> cases h : takeThroughQuote? _ cs <;>
    simp [firstMatch?, Pattern.table, Pattern.split?, takeRun?, isBlank, takeLineComment?,
      takeBlockComment?, isWordStart, takeNumber?, isDigit, takeQuoted?, takeText?,
      List.isPrefixOf, h]

section Source

variable {mark : Char} (v : String) (file : Option String)

/-- A literal is one token, up to the end of the source. -/
theorem streamOf_literal (hmark : mark = '"' ∨ mark = '\x27') :
    streamOf (Text.literal mark v) file =
      ⟨[⟨.string, Text.literal mark v,
          .of (file.getD defaultLabel) 0 (byteLength (Text.literal mark v).toList)⟩,
        ⟨.lineBreak, "\n",
          .of (file.getD defaultLabel) (byteLength (Text.literal mark v).toList) 0⟩], none⟩ := by
  have hit : firstMatch? (Text.literal mark v).toList =
      some (.quoted mark, (Text.literal mark v).toList, []) := by
    rw [Text.literal, String.toList_ofList, List.cons_append, firstMatch?_mark hmark,
      takeThroughQuote?_flatMap_escapeChar hmark]
    rfl
  have htoken : (Pattern.quoted mark).token? none (Text.literal mark v).toList =
      some (.string, Text.literal mark v) := by
    rw [Pattern.token?, String.ofList_toList]
  rw [streamOf, Scanner.feed_of_token?_eq_some (s := Scanner.ofSource _ _) hit htoken,
    Scanner.feed_of_rest_eq_nil rfl rfl]
  simp [Scanner.ofSource, Scanner.behind, Scanner.skip]

/-- A string in front of a line break is a program of one statement. -/
theorem Derivable.of_string (label : String) {t b : Token} (ht : t.kind = .string)
    (hb : b.kind = .lineBreak) : Derivable label [t, b]
      ⟨[.expression (.string (Phrase.textOf t) t.span) t.span], ⟨.of label 0, b.span.stop⟩⟩ 3 := by
  have hsum : Phrase.Additive [t, b] [b] (.string (Phrase.textOf t) t.span) 1 :=
    .intro (.string ht) (.nil [b]) (by simp [hb])
  have hstatement : Phrase.Statement [t, b] [] _ 3 :=
    .expression (by simp [ht]) (.sum hsum) (.lineBreak hb)
  have hbody := Phrase.Many.cons (Phrase.Then.intro hstatement (Phrase.Breaks.nil [])) (.nil [])
  exact .intro (.nil [t, b]) hbody

/-- The text of a literal is what it was made from. -/
theorem Phrase.textOf_literal (hmark : mark = '"' ∨ mark = '\x27') (span : Span) :
    Phrase.textOf ⟨.string, Text.literal mark v, span⟩ = v := by
  rw [Phrase.textOf, Text.literal, String.toList_ofList, List.cons_append, List.drop_one,
    List.tail_cons, List.dropLast_concat, Text.unescape_flatMap_escapeChar hmark,
    String.ofList_toList]

/-- Every text is the value of its literals. Such a literal is one token, with a line break behind
it at the end of the source, and read as a program it is one statement, whose expression is a string
with the text as its value and with the whole literal as its span. -/
theorem parseSource_literal (hmark : mark = '"' ∨ mark = '\x27')
    (hsize : byteLength (Text.literal mark v).toList < UInt32.size) :
    ∃ span : Span, span.start.offset.toNat = 0 ∧
      span.stop.offset.toNat = byteLength (Text.literal mark v).toList ∧
      span.start.file = file.getD defaultLabel ∧ span.stop.file = file.getD defaultLabel ∧
      tokenize (Text.literal mark v) file =
        .ok [⟨.string, Text.literal mark v, span⟩, ⟨.lineBreak, "\n", ⟨span.stop, span.stop⟩⟩] ∧
      parseSource (Text.literal mark v) ⟨file, defaultMaxDepth⟩ =
        .ok ⟨[.expression (.string v span) span], ⟨span.start, span.stop⟩⟩ := by
  have htokens := streamOf_literal v file hmark
  rw [← tokenize_eq_ok_iff_streamOf, Span.of, Span.of, Nat.add_zero, Nat.zero_add] at htokens
  refine ⟨⟨.of (file.getD defaultLabel) 0,
    .of (file.getD defaultLabel) (byteLength (Text.literal mark v).toList)⟩,
    Position.toNat_offset_of _ (by decide), Position.toNat_offset_of _ hsize, rfl, rfl, htokens, ?_⟩
  -- The program is one statement that is a string, which takes three levels.
  rcases @parseSource_of_derivable _ ⟨file, defaultMaxDepth⟩ _ _ _ htokens
    (.of_string _ rfl rfl) with ⟨-, hok⟩ | ⟨hlt, -⟩
  · rwa [Phrase.textOf_literal v hmark] at hok
  · exact absurd hlt (by decide : ¬ defaultMaxDepth < 3)

/-- A backslash in front of a mark, digits that look like an escape, and a newline. -/
theorem parseSource_literal_backslashes :
    byteLength (Text.literal '"' "\\\"\\x41\né").toList < UInt32.size ∧
      Text.literal '"' "\\\"\\x41\né" = "\"\\\\\\\"\\\\x41\\né\"" ∧
      ∃ span, parseSource "\"\\\\\\\"\\\\x41\\né\"" {} =
        .ok ⟨[.expression (.string "\\\"\\x41\né" span) span], ⟨span.start, span.stop⟩⟩ := by
  have hsize : byteLength (Text.literal '"' "\\\"\\x41\né").toList < UInt32.size := by
    decide +kernel
  have hliteral : Text.literal '"' "\\\"\\x41\né" = "\"\\\\\\\"\\\\x41\\né\"" := by
    decide +kernel
  obtain ⟨span, -, -, -, -, -, hparse⟩ := parseSource_literal "\\\"\\x41\né" none (.inl rfl) hsize
  rw [hliteral] at hparse
  exact ⟨hsize, hliteral, span, hparse⟩

end Source

end Scriptlet
