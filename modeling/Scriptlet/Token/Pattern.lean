import Scriptlet.Token

/-!
# Patterns of the lexical grammar

What can stand next in a source is given by a table of patterns, tried in order: the first one that
matches wins. A pattern takes the longest text it can from the front of the source, with one
exception: a block comment ends at the first `*/`.

Each pattern is a small reader on a list of characters, made of `takeWhile` and `dropWhile` where a
run of one class is read. A reader answers with the text it took and the text behind it, and what it
took is never empty (`firstMatch?_eq_some`); that is what makes scanning come to an end.

## Main definitions

* `Pattern`, `Pattern.table`: the patterns and their order;
* `Pattern.split?`: the text that a pattern takes from the front of a source;
* `Pattern.token?`: the token that the text stands for, if it stands for one;
* `firstMatch?`: the first pattern of the table that matches.

## Main results

* `firstMatch?_eq_some`: a match splits the source behind a non-empty text.
-/

namespace Scriptlet

/-! ### Classes of characters -/

/-- A blank inside a line. -/
def isBlank (c : Char) : Bool := c = ' ' || c = '\t' || c = '\r'

/-- A blank, or the end of a line. -/
def isLayout (c : Char) : Bool := isBlank c || c = '\n'

/-- A decimal digit. -/
def isDigit (c : Char) : Bool := '0' ≤ c && c ≤ '9'

/-- A character that can start a word. -/
def isWordStart (c : Char) : Bool :=
  ('a' ≤ c && c ≤ 'z') || ('A' ≤ c && c ≤ 'Z') || c = '_' || c = '$'

/-- A character that can go on with a word. -/
def isWordPart (c : Char) : Bool := isWordStart c || isDigit c

/-! ### Readers

Each reader answers with the text it takes and the text behind it. -/

/-- A character of the class `first`, then all that follows of the class `more`. -/
def takeRun? (first more : Char → Bool) : List Char → Option (List Char × List Char)
  | [] => none
  | c :: cs => if first c then some (c :: cs.takeWhile more, cs.dropWhile more) else none

/-- A given text. -/
def takeText? (text cs : List Char) : Option (List Char × List Char) :=
  if text.isPrefixOf cs then some (text, cs.drop text.length) else none

/-- Two slashes and the rest of the line, without the newline. -/
def takeLineComment? : List Char → Option (List Char × List Char)
  | '/' :: '/' :: cs => some ('/' :: '/' :: cs.takeWhile (· != '\n'), cs.dropWhile (· != '\n'))
  | _ => none

/-- Everything up to and including the first `*/`. -/
def takeThroughClose? : List Char → Option (List Char × List Char)
  | [] => none
  | '*' :: '/' :: cs => some (['*', '/'], cs)
  | c :: cs => (takeThroughClose? cs).map fun (taken, rest) => (c :: taken, rest)

/-- A comment from `/*` to the first `*/`. -/
def takeBlockComment? : List Char → Option (List Char × List Char)
  | '/' :: '*' :: cs =>
    (takeThroughClose? cs).map fun (taken, rest) => ('/' :: '*' :: taken, rest)
  | _ => none

/-- A dot with digits behind it, or nothing. -/
def takeFraction (cs : List Char) : List Char × List Char :=
  match cs with
  | '.' :: more =>
    match takeRun? isDigit isDigit more with
    | some (digits, rest) => ('.' :: digits, rest)
    | none => ([], cs)
  | _ => ([], cs)

/-- Digits, and a fraction if there is one. -/
def takeNumber? (cs : List Char) : Option (List Char × List Char) :=
  (takeRun? isDigit isDigit cs).map fun (whole, more) =>
    (whole ++ (takeFraction more).1, (takeFraction more).2)

/-- Everything up to and including the closing quote, on one line. A backslash takes the character
behind it along, whatever it is. -/
def takeThroughQuote? (mark : Char) : List Char → Option (List Char × List Char)
  | [] => none
  | '\\' :: c :: cs =>
    if c = '\n' then none
    else (takeThroughQuote? mark cs).map fun (taken, rest) => ('\\' :: c :: taken, rest)
  | c :: cs =>
    if c = mark then some ([c], cs)
    else if c = '\n' ∨ c = '\\' then none
    else (takeThroughQuote? mark cs).map fun (taken, rest) => (c :: taken, rest)

/-- A text between two marks. -/
def takeQuoted? (mark : Char) : List Char → Option (List Char × List Char)
  | [] => none
  | c :: cs =>
    if c = mark then (takeThroughQuote? mark cs).map fun (taken, rest) => (c :: taken, rest)
    else none

/-! ### The table -/

/-- The patterns of the lexical grammar. -/
inductive Pattern where
  /-- Blanks inside a line. -/
  | blanks
  /-- The end of a line, and all blanks and line ends behind it. -/
  | lineBreaks
  /-- A comment up to the end of the line. -/
  | lineComment
  /-- A comment between `/*` and `*/`. -/
  | blockComment
  /-- A reserved word or an identifier. -/
  | word
  /-- A decimal number. -/
  | number
  /-- A string between two of the given marks. -/
  | quoted (mark : Char)
  /-- A fixed text. -/
  | fixed (kind : Kind) (text : List Char)
  deriving DecidableEq

namespace Pattern

/-- The patterns in the order in which they are tried. -/
def table : List Pattern :=
  [blanks, lineBreaks, lineComment, blockComment, word, number, quoted '"', quoted '\x27',
   fixed .spread ['.', '.', '.'],
   fixed .complexAssignment ['+', '='], fixed .complexAssignment ['-', '='],
   fixed .complexAssignment ['*', '='], fixed .complexAssignment ['/', '='],
   fixed .additiveOperator ['+'], fixed .additiveOperator ['-'], fixed .simpleAssignment ['='],
   fixed .openBracket ['['], fixed .closeBracket [']'],
   fixed .openCurly ['\x7b'], fixed .closeCurly ['\x7d'],
   fixed .openParen ['('], fixed .closeParen [')'],
   fixed .semicolon [';'], fixed .colon [':'], fixed .comma [',']]

/-- The text that a pattern takes from the front of a source, and the source behind it. -/
def split? : Pattern → List Char → Option (List Char × List Char)
  | blanks => takeRun? isBlank isBlank
  | lineBreaks => takeRun? (· = '\n') isLayout
  | lineComment => takeLineComment?
  | blockComment => takeBlockComment?
  | word => takeRun? isWordStart isWordPart
  | number => takeNumber?
  | quoted mark => takeQuoted? mark
  | fixed _ text => takeText? text

/-- The kind and the value of the token that a matched text stands for. Blanks and comments stand
for none, and neither does a line break right behind another one. -/
def token? (last : Option Kind) (text : List Char) : Pattern → Option (Kind × String)
  | blanks | lineComment | blockComment => none
  | lineBreaks => if last = some .lineBreak then none else some (.lineBreak, "\n")
  | word =>
    let value := String.ofList text
    some ((Kind.reserved? value).getD .identifier, value)
  | number => some (.number, String.ofList text)
  | quoted _ => some (.string, String.ofList text)
  | fixed kind _ => some (kind, String.ofList text)

end Pattern

/-- The first pattern of the table that matches, with the text it takes and the source behind it. -/
def firstMatch? (cs : List Char) : Option (Pattern × List Char × List Char) :=
  Pattern.table.findSome? fun p => (p.split? cs).map fun parts => (p, parts)

/-! ### A match splits the source behind a non-empty text -/

/-- What a reader promises: the source is the text taken and the rest, and the text taken is not
empty. -/
def Splits (cs : List Char) (parts : List Char × List Char) : Prop :=
  cs = parts.1 ++ parts.2 ∧ parts.1 ≠ []

theorem takeRun?_splits {first more : Char → Bool} {cs : List Char} {parts : List Char × List Char}
    (h : takeRun? first more cs = some parts) : Splits cs parts := by
  cases cs with
  | nil => simp [takeRun?] at h
  | cons c cs =>
    simp only [takeRun?] at h
    split at h
    · cases h
      simp [Splits]
    · cases h

theorem takeText?_splits {text cs : List Char} {parts : List Char × List Char} (ht : text ≠ [])
    (h : takeText? text cs = some parts) : Splits cs parts := by
  unfold takeText? at h
  split at h
  · rename_i hp
    cases h
    obtain ⟨more, rfl⟩ := List.isPrefixOf_iff_prefix.1 hp
    simp [Splits, ht]
  · cases h

theorem takeLineComment?_splits {cs : List Char} {parts : List Char × List Char}
    (h : takeLineComment? cs = some parts) : Splits cs parts := by
  unfold takeLineComment? at h
  split at h
  · cases h
    simp [Splits]
  · cases h

theorem takeThroughClose?_splits {cs : List Char} {parts : List Char × List Char}
    (h : takeThroughClose? cs = some parts) : Splits cs parts := by
  fun_induction takeThroughClose? cs generalizing parts with
  | case1 => cases h
  | case2 cs => cases h; simp [Splits]
  | case3 c cs _ ih =>
    obtain ⟨inner, hinner, rfl⟩ := Option.map_eq_some_iff.1 h
    have := (ih hinner).1
    simp [Splits, ← this]

theorem takeBlockComment?_splits {cs : List Char} {parts : List Char × List Char}
    (h : takeBlockComment? cs = some parts) : Splits cs parts := by
  unfold takeBlockComment? at h
  split at h
  · obtain ⟨inner, hinner, rfl⟩ := Option.map_eq_some_iff.1 h
    have := (takeThroughClose?_splits hinner).1
    simp [Splits, ← this]
  · cases h

theorem takeFraction_append (cs : List Char) :
    (takeFraction cs).1 ++ (takeFraction cs).2 = cs := by
  unfold takeFraction
  split
  · split
    · rename_i h
      have := (takeRun?_splits h).1
      simp [← this]
    · simp
  · simp

theorem takeNumber?_splits {cs : List Char} {parts : List Char × List Char}
    (h : takeNumber? cs = some parts) : Splits cs parts := by
  obtain ⟨⟨whole, more⟩, hrun, rfl⟩ := Option.map_eq_some_iff.1 h
  obtain ⟨hcs, hne⟩ := takeRun?_splits hrun
  constructor
  · simpa [takeFraction_append] using hcs
  · simp [show whole ≠ [] from hne]

theorem takeThroughQuote?_splits {mark : Char} {cs : List Char} {parts : List Char × List Char}
    (h : takeThroughQuote? mark cs = some parts) : Splits cs parts := by
  fun_induction takeThroughQuote? mark cs generalizing parts with
  | case1 => cases h
  | case2 => cases h
  | case3 c cs _ ih =>
    obtain ⟨inner, hinner, rfl⟩ := Option.map_eq_some_iff.1 h
    have := (ih hinner).1
    simp [Splits, ← this]
  | case4 cs => cases h; simp [Splits]
  | case5 => cases h
  | case6 c cs _ _ _ ih =>
    obtain ⟨inner, hinner, rfl⟩ := Option.map_eq_some_iff.1 h
    have := (ih hinner).1
    simp [Splits, ← this]

theorem takeQuoted?_splits {mark : Char} {cs : List Char} {parts : List Char × List Char}
    (h : takeQuoted? mark cs = some parts) : Splits cs parts := by
  cases cs with
  | nil => simp [takeQuoted?] at h
  | cons c cs =>
    simp only [takeQuoted?] at h
    split at h
    · obtain ⟨inner, hinner, rfl⟩ := Option.map_eq_some_iff.1 h
      have := (takeThroughQuote?_splits hinner).1
      simp [Splits, ← this]
    · cases h

/-- No pattern of the table is an empty fixed text. -/
theorem Pattern.text_ne_nil {kind : Kind} {text : List Char} (h : fixed kind text ∈ table) :
    text ≠ [] := by
  rintro rfl
  simp [table] at h

theorem Pattern.split?_splits {p : Pattern} (hp : p ∈ table) {cs : List Char}
    {parts : List Char × List Char} (h : p.split? cs = some parts) : Splits cs parts := by
  cases p with
  | blanks => exact takeRun?_splits h
  | lineBreaks => exact takeRun?_splits h
  | lineComment => exact takeLineComment?_splits h
  | blockComment => exact takeBlockComment?_splits h
  | word => exact takeRun?_splits h
  | number => exact takeNumber?_splits h
  | quoted mark => exact takeQuoted?_splits h
  | fixed kind text => exact takeText?_splits (text_ne_nil hp) h

/-- A match is the split of a pattern of the table: the source is the text taken and the rest, and
the text taken is not empty. -/
theorem firstMatch?_eq_some {cs text rest : List Char} {p : Pattern}
    (h : firstMatch? cs = some (p, text, rest)) :
    p ∈ Pattern.table ∧ p.split? cs = some (text, rest) ∧ cs = text ++ rest ∧ text ≠ [] := by
  obtain ⟨q, hq, hsplit⟩ := List.exists_of_findSome?_eq_some h
  obtain ⟨parts, hparts, heq⟩ := Option.map_eq_some_iff.1 hsplit
  cases heq
  exact ⟨hq, hparts, Pattern.split?_splits hq hparts⟩

end Scriptlet
