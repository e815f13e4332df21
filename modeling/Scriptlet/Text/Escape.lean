/-!
# Escapes in string literals

The body of a string literal is decoded from left to right. A backslash in front of one of
`n t r \ " ' 0` stands, together with that letter, for one character; `\x` with one or two
hexadecimal digits stands for the character with that code. Every other backslash stands for
itself, and decoding goes on with the character right behind it.

An `\x` takes as many digits as there are, up to two. With one digit it is still an escape; with
none it is the two characters `\x`.

## Main definitions

* `unescape`: the text that a literal's body stands for.
-/

namespace Scriptlet.Text

/-- What a letter stands for behind a backslash, for the escapes of one letter. -/
def simpleEscape? : Char → Option Char
  | 'n' => some '\n'
  | 't' => some '\t'
  | 'r' => some '\r'
  | '\\' => some '\\'
  | '"' => some '"'
  | '\x27' => some '\x27'
  | '0' => some '\x00'
  | _ => none

/-- The value of an ASCII hexadecimal digit. -/
def hexDigit? (c : Char) : Option Nat :=
  if '0' ≤ c ∧ c ≤ '9' then some (c.toNat - 48)
  else if 'a' ≤ c ∧ c ≤ 'f' then some (c.toNat - 87)
  else if 'A' ≤ c ∧ c ≤ 'F' then some (c.toNat - 55)
  else none

/-- The text that the body of a string literal stands for. -/
def unescape : List Char → List Char
  | [] => []
  | '\\' :: 'x' :: c :: d :: cs =>
    match hexDigit? c, hexDigit? d with
    | some high, some low => Char.ofNat (16 * high + low) :: unescape cs
    | some code, none => Char.ofNat code :: unescape (d :: cs)
    | none, _ => '\\' :: 'x' :: unescape (c :: d :: cs)
  | ['\\', 'x', c] =>
    match hexDigit? c with
    | some code => [Char.ofNat code]
    | none => ['\\', 'x', c]
  | '\\' :: c :: cs =>
    match simpleEscape? c with
    | some d => d :: unescape cs
    | none => '\\' :: unescape (c :: cs)
  | c :: cs => c :: unescape cs

end Scriptlet.Text
