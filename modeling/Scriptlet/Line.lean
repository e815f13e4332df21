import Scriptlet.Text.Bytes

/-!
# Lines of a text

A line runs up to and includes its newline; only the last one may lack it. A byte offset belongs to
the line that holds its byte. The offset behind the last byte belongs to the last line as well, at
the column behind that line's last byte that is not a newline.

## Main definitions

* `lines`: the lines of a text;
* `Line`, `lineAt?`: the line to which a byte offset belongs, and the column in it.
-/

namespace Scriptlet

open Text (byteLength)

/-- The lines of a text, each with its newline. -/
def lines : List Char → List (List Char)
  | [] => []
  | c :: cs =>
    if c = '\n' then [c] :: lines cs
    else
      match lines cs with
      | [] => [[c]]
      | l :: ls => (c :: l) :: ls

/-- Nothing of a text is lost in its lines. -/
theorem flatten_lines (cs : List Char) : (lines cs).flatten = cs := by
  induction cs with
  | nil => rfl
  | cons c cs ih =>
    rw [lines]
    split
    · simp [ih]
    · cases h : lines cs with
      | nil => simpa [h] using ih
      | cons l ls => simpa [h] using ih

/-- A place in a text: a line and a column in it. -/
structure Line where
  /-- The number of the line, from one. -/
  number : Nat
  /-- The line with its newline. -/
  text : List Char
  /-- The number of bytes of the line in front of the place. -/
  column : Nat
  deriving DecidableEq, Inhabited

/-- A text without the newlines at its end. -/
def dropNewlines (cs : List Char) : List Char := (cs.reverse.dropWhile (· = '\n')).reverse

/-- The place at a byte offset among lines, the first of which has a given number. The offset behind
the last byte is on the last line; with no line there, it is on an empty one. -/
def lineAmong? (number : Nat) : Nat → List (List Char) → Option Line
  | offset, [] => if offset = 0 then some ⟨number, [], 0⟩ else none
  | offset, [l] =>
    if offset < byteLength l then some ⟨number, l, offset⟩
    else if offset = byteLength l then some ⟨number, l, byteLength (dropNewlines l)⟩
    else none
  | offset, l :: ls =>
    if offset < byteLength l then some ⟨number, l, offset⟩
    else lineAmong? (number + 1) (offset - byteLength l) ls

/-- The line to which a byte offset belongs; `none` for an offset past the end of the text. -/
def lineAt? (content : List Char) (offset : Nat) : Option Line :=
  lineAmong? 1 offset (lines content)

end Scriptlet
