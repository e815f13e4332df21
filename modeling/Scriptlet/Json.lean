import Scriptlet.Decimal.Layout
import Scriptlet.Text.Quoted

/-!
# JSON documents

A JSON document is null, a number, a string, an array or an object whose members keep their order.
It is written in two forms: the compact one has no white space at all, and the pretty one puts
every element and every member on a line of its own, indented by two spaces for each level.

## Implementation notes

A writer is given the text that stands behind the document and returns the whole. Nothing is ever
appended to a text already written, so the time is linear in the length of the result, and a
statement about a document in the middle of a text needs no other form of the writer.

## Main definitions

* `Json`;
* `Json.compact`, `Json.pretty`.
-/

namespace Scriptlet

/-- JSON documents. -/
inductive Json where
  /-- The document `null`. -/
  | null
  /-- A natural number. -/
  | natural (n : Nat)
  /-- A binary number. -/
  | number (x : Binary64)
  /-- A string. -/
  | text (s : String)
  /-- An array. -/
  | array (items : List Json)
  /-- An object, its members in order. -/
  | object (members : List (String × Json))

namespace Json

/-- Numbers in JSON: the shortest digits that read back, written out in full from `1e-5` up to below
`1e16` and otherwise with a signed exponent. JSON has no infinity, and `null` stands for it. -/
def numberFormat : NumberFormat where
  plainFrom := -5
  plainBelow := 16
  plus := ['+']
  tie := .toEven
  infinity := "null"

/-- A document without parts, in front of a text. -/
def writeText (s : String) (rest : List Char) : List Char := s.toList ++ rest

/-! ### The compact form -/

mutual

/-- A document in compact form, in front of a text. -/
def write : Json → List Char → List Char
  | null, rest => writeText "null" rest
  | natural n, rest => writeText (toString n) rest
  | number x, rest => writeText (numberFormat.render x) rest
  | text s, rest => writeText (Text.quoteJson s) rest
  | array items, rest => '[' :: writeItems items (']' :: rest)
  | object members, rest => '\x7b' :: writeMembers members ('\x7d' :: rest)

/-- Elements with commas between them. -/
def writeItems : List Json → List Char → List Char
  | [], rest => rest
  | [j], rest => write j rest
  | j :: js, rest => write j (',' :: writeItems js rest)

/-- Members with commas between them. -/
def writeMembers : List (String × Json) → List Char → List Char
  | [], rest => rest
  | [(key, j)], rest => writeText (Text.quoteJson key) (':' :: write j rest)
  | (key, j) :: members, rest =>
    writeText (Text.quoteJson key) (':' :: write j (',' :: writeMembers members rest))

end

/-- A document in compact form. -/
def compact (j : Json) : String := String.ofList (j.write [])

/-! ### The pretty form -/

/-- A new line, indented for a level, in front of a text. -/
def newLine (level : Nat) (rest : List Char) : List Char :=
  '\n' :: List.replicate (2 * level) ' ' ++ rest

mutual

/-- A document in pretty form at a level, in front of a text. -/
def writePretty : Json → Nat → List Char → List Char
  | null, _, rest => writeText "null" rest
  | natural n, _, rest => writeText (toString n) rest
  | number x, _, rest => writeText (numberFormat.render x) rest
  | text s, _, rest => writeText (Text.quoteJson s) rest
  | array [], _, rest => '[' :: ']' :: rest
  | array (j :: js), level, rest =>
    '[' :: newLine (level + 1)
      (writePretty j (level + 1) (prettyItems js (level + 1) (newLine level (']' :: rest))))
  | object [], _, rest => '\x7b' :: '\x7d' :: rest
  | object ((key, j) :: members), level, rest =>
    '\x7b' :: newLine (level + 1)
      (writeText (Text.quoteJson key) (':' :: ' ' ::
        writePretty j (level + 1)
          (prettyMembers members (level + 1) (newLine level ('\x7d' :: rest)))))

/-- The elements behind the first, each on a line of its own. -/
def prettyItems : List Json → Nat → List Char → List Char
  | [], _, rest => rest
  | j :: js, level, rest =>
    ',' :: newLine level (writePretty j level (prettyItems js level rest))

/-- The members behind the first, each on a line of its own. -/
def prettyMembers : List (String × Json) → Nat → List Char → List Char
  | [], _, rest => rest
  | (key, j) :: members, level, rest =>
    ',' :: newLine level
      (writeText (Text.quoteJson key) (':' :: ' ' ::
        writePretty j level (prettyMembers members level rest)))

end

/-- A document in pretty form. -/
def pretty (j : Json) : String := String.ofList (j.writePretty 0 [])

end Json

end Scriptlet
