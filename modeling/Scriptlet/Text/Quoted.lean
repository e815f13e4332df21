import Scriptlet.Text.Combining
import Scriptlet.Text.Invisible

/-!
# Quoted text

Two ways to write a text between double quotes.

* `quote` is for people: every character that could not be seen on its own is written as its code,
  so that two texts that differ look different.
* `quoteJson` is the string of the JSON format: only what that format forbids in a string is
  escaped.

Both escape the quote and the backslash, so the text ends at the first quote that no backslash
precedes.

## Main definitions

* `quote`, `quoteJson`
-/

namespace Scriptlet.Text

/-- The digits of a number in lower-case hexadecimal. -/
def hexDigits (n : Nat) : List Char := Nat.toDigits 16 n

/-- A character inside `quote`: a letter behind a backslash for the common ones, `\u{…}` with the
code for the other ones that cannot be seen, and all else as it is. -/
def quoteChar (c : Char) : List Char :=
  match c with
  | '\x00' => ['\\', '0']
  | '\t' => ['\\', 't']
  | '\r' => ['\\', 'r']
  | '\n' => ['\\', 'n']
  | '\\' => ['\\', '\\']
  | '"' => ['\\', '"']
  | c =>
    if isCombining c || isInvisible c then ['\\', 'u', '\x7b'] ++ hexDigits c.toNat ++ ['\x7d']
    else [c]

/-- A text between double quotes, readable even where it holds invisible characters. -/
def quote (s : String) : String :=
  String.ofList ('"' :: s.toList.flatMap quoteChar ++ ['"'])

/-- A character inside a JSON string: a letter behind a backslash where the format has one, `\u00`
with two digits for the other controls, and all else as it is. -/
def quoteJsonChar (c : Char) : List Char :=
  match c with
  | '"' => ['\\', '"']
  | '\\' => ['\\', '\\']
  | '\x08' => ['\\', 'b']
  | '\x0c' => ['\\', 'f']
  | '\n' => ['\\', 'n']
  | '\r' => ['\\', 'r']
  | '\t' => ['\\', 't']
  | c =>
    if c.toNat < 0x10 then ['\\', 'u', '0', '0', '0'] ++ hexDigits c.toNat
    else if c.toNat < 0x20 then ['\\', 'u', '0', '0'] ++ hexDigits c.toNat
    else [c]

/-- A text as a JSON string. -/
def quoteJson (s : String) : String :=
  String.ofList ('"' :: s.toList.flatMap quoteJsonChar ++ ['"'])

end Scriptlet.Text
