import Scriptlet.Decimal.Layout
import Scriptlet.Text.Quoted

/-!
# Outlines

An outline shows a value as the constructors it is built with: a record has a name and named
fields, a tagged value has a name and unnamed parts, and a list has elements. An outline fits on
one line, or it is spread out with each field, part and element on a line of its own, indented by
four spaces for each level and followed by a comma.

## Implementation notes

As for JSON documents, a writer is given the text that stands behind the outline.

## Main definitions

* `Outline`;
* `Outline.compact`, `Outline.pretty`.
-/

namespace Scriptlet

/-- Outlines of values. -/
inductive Outline where
  /-- A value without parts, as it is written. -/
  | atom (text : String)
  /-- A name with unnamed parts. -/
  | tagged (name : String) (parts : List Outline)
  /-- A name with named fields. -/
  | record (name : String) (fields : List (String × Outline))
  /-- A list. -/
  | list (items : List Outline)

namespace Outline

/-- Numbers in outlines: the shortest digits that read back, written out in full from `1e-4` up to
below `1e16` and otherwise with an exponent. -/
def numberFormat : NumberFormat where
  plainFrom := -4
  plainBelow := 16
  plus := []
  tie := .up
  infinity := "inf"

/-- A natural number. -/
def natural (n : Nat) : Outline := atom (toString n)

/-- A binary number. -/
def number (x : Binary64) : Outline := atom (numberFormat.render x)

/-- A text, quoted so that every character can be seen. -/
def text (s : String) : Outline := atom (Text.quote s)

/-- A value that may be missing. -/
def optional : Option Outline → Outline
  | none => atom "None"
  | some o => tagged "Some" [o]

/-! ### On one line -/

mutual

/-- An outline on one line, in front of a text. -/
def write : Outline → List Char → List Char
  | atom s, rest => s.toList ++ rest
  | tagged name parts, rest => name.toList ++ '(' :: writeItems parts (')' :: rest)
  | record name fields, rest =>
    name.toList ++ ' ' :: '\x7b' :: ' ' :: writeFields fields (' ' :: '\x7d' :: rest)
  | list items, rest => '[' :: writeItems items (']' :: rest)

/-- Parts or elements with commas between them. -/
def writeItems : List Outline → List Char → List Char
  | [], rest => rest
  | [o], rest => write o rest
  | o :: os, rest => write o (',' :: ' ' :: writeItems os rest)

/-- Fields with commas between them. -/
def writeFields : List (String × Outline) → List Char → List Char
  | [], rest => rest
  | [(name, o)], rest => name.toList ++ ':' :: ' ' :: write o rest
  | (name, o) :: fields, rest =>
    name.toList ++ ':' :: ' ' :: write o (',' :: ' ' :: writeFields fields rest)

end

/-- An outline on one line. -/
def compact (o : Outline) : String := String.ofList (o.write [])

/-! ### Spread out -/

/-- The indentation of a level, in front of a text. -/
def indent (level : Nat) (rest : List Char) : List Char := List.replicate (4 * level) ' ' ++ rest

mutual

/-- An outline spread out at a level, in front of a text. -/
def writePretty : Outline → Nat → List Char → List Char
  | atom s, _, rest => s.toList ++ rest
  | tagged name parts, level, rest =>
    name.toList ++ '(' :: '\n' :: prettyItems parts (level + 1) (indent level (')' :: rest))
  | record name fields, level, rest =>
    name.toList ++ ' ' :: '\x7b' :: '\n' ::
      prettyFields fields (level + 1) (indent level ('\x7d' :: rest))
  | list [], _, rest => '[' :: ']' :: rest
  | list (o :: os), level, rest =>
    '[' :: '\n' :: indent (level + 1)
      (writePretty o (level + 1) (',' :: '\n' ::
        prettyItems os (level + 1) (indent level (']' :: rest))))

/-- Parts or elements, each on a line of its own. -/
def prettyItems : List Outline → Nat → List Char → List Char
  | [], _, rest => rest
  | o :: os, level, rest =>
    indent level (writePretty o level (',' :: '\n' :: prettyItems os level rest))

/-- Fields, each on a line of its own. -/
def prettyFields : List (String × Outline) → Nat → List Char → List Char
  | [], _, rest => rest
  | (name, o) :: fields, level, rest =>
    indent level (name.toList ++ ':' :: ' ' ::
      writePretty o level (',' :: '\n' :: prettyFields fields level rest))

end

/-- An outline spread out over lines. -/
def pretty (o : Outline) : String := String.ofList (o.writePretty 0 [])

end Outline

end Scriptlet
