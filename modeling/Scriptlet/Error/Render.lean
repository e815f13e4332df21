import Scriptlet.Error
import Scriptlet.Line
import Scriptlet.Text.Blank

/-!
# Errors shown in their source

An error is shown with its name and tip, the label of the source, the line it points into and, under
that line, an arrow to the place. Spaces and tabs at the front of the line are left out, and the
arrow is as much shorter; white space at the end of the line is left out, too. The arrow's length
counts bytes, so the head stands under the character only where all characters before it take one
byte.

An arrow is drawn by filling a field up to a width, and widths are limited. An error that needs a
longer arrow cannot be shown.

## Main definitions

* `Error.render`: the text in which an error is shown;
* `Error.render?`: the same, for errors that can be shown.
-/

namespace Scriptlet

/-- A text set to the right in a field of a given width. -/
def alignRight (width : Nat) (s : String) : String :=
  String.ofList (List.replicate (width - s.length) ' ') ++ s

/-- The headline: the name of the cause, and the tip if there is one. -/
def Error.headline (e : Error) : String :=
  match e.cause.tip? with
  | none => "Error: " ++ e.cause.name
  | some tip => "Error: " ++ e.cause.name ++ " (" ++ tip ++ ")"

/-- Whether a character at the front of a line is left out when the line is shown. -/
def isIndent (c : Char) : Bool := c = ' ' || c = '\t'

/-- A line without the blanks around it, and an arrow under its place. -/
def Line.render (l : Line) : String :=
  let number := toString l.number
  let margin := alignRight (number.length + 2) "|"
  let shown := String.ofList (Text.trimEnd (l.text.dropWhile isIndent))
  let indent := (l.text.takeWhile isIndent).length
  let arrow := String.ofList (List.replicate (l.column - indent) '-') ++ "^"
  margin ++ "\n" ++ number ++ " | " ++ shown ++ "\n" ++ margin ++ " " ++ arrow ++ "\n"

/-- The greatest width of a field. -/
def maxWidth : Nat := 65535

/-- Whether the arrow under a line fits into a field. -/
def Line.isDrawable (l : Line) : Bool :=
  l.column - (l.text.takeWhile isIndent).length + 1 ≤ maxWidth

/-- The error in the source it was raised for. An error past the end of the source is shown by its
message alone. -/
def Error.render (e : Error) (source : String) : String :=
  e.headline ++ "\n-> " ++ e.position.file ++ "\n" ++
    match lineAt? source.toList e.position.offset.toNat with
    | some l => l.render
    | none => "   " ++ e.message ++ "\n"

/-- The error in the source it was raised for; `none` if its arrow does not fit into a field. -/
def Error.render? (e : Error) (source : String) : Option String :=
  if (lineAt? source.toList e.position.offset.toNat).all Line.isDrawable then some (e.render source)
  else none

end Scriptlet
