/-!
# Files

A tree of files and directories, and what reading a path in it gives. A path is walked part by part
from the root or from the working directory; a part that is empty or a single dot stays where it
is, two dots go up, and a part may only be looked up in a directory. A path that leads to a
directory cannot be read, and neither can a file whose bytes are no text.

With it a run of the command is described completely by its arguments and a tree.

## Main definitions

* `ReadError`, `ReadError.reason`;
* `Entry`, `Files`, `Files.read`.
-/

namespace Scriptlet.Command

/-- Why a file could not be read. -/
inductive ReadError where
  /-- There is no such file. -/
  | missing
  /-- It is a directory. -/
  | directory
  /-- Something on the way to it is no directory. -/
  | notDirectory
  /-- A part of the path, or the path itself, is longer than a path can be. -/
  | nameTooLong
  /-- The bytes of the file are no text. -/
  | notText
  /-- Anything else, in the words of the system. -/
  | other (reason : String)
  deriving DecidableEq

/-- Why a file could not be read, in words. -/
def ReadError.reason : ReadError → String
  | missing => "No such file or directory (os error 2)"
  | directory => "Is a directory (os error 21)"
  | notDirectory => "Not a directory (os error 20)"
  | nameTooLong => "File name too long (os error 36)"
  | notText => "stream did not contain valid UTF-8"
  | other reason => reason

/-- What stands under a name. -/
inductive Entry where
  /-- A file with its bytes. -/
  | file (bytes : ByteArray)
  /-- A directory with its entries. -/
  | directory (entries : List (String × Entry))

/-- The number of bytes that a part of a path may have. -/
def nameLimit : Nat := 255

/-- The number of bytes that a path may have. -/
def pathLimit : Nat := 4095

/-- Walks the parts of a path from an entry on; `above` are the directories that it stands in, the
nearest first. Above the root is the root. -/
def Entry.walk (above : List Entry) (here : Entry) : List String → Except ReadError Entry
  | [] => .ok here
  | part :: parts =>
    match here with
    | .file _ => .error .notDirectory
    | .directory entries =>
      if part = "" ∨ part = "." then here.walk above parts
      else if part = ".." then
        match above with
        | [] => here.walk [] parts
        | up :: above => up.walk above parts
      else if nameLimit < part.utf8ByteSize then .error .nameTooLong
      else
        match entries.lookup part with
        | none => .error .missing
        | some entry => entry.walk (here :: above) parts

/-- A tree of files, with a working directory. -/
structure Files where
  /-- The root of the tree. -/
  root : Entry
  /-- The parts of the path of the working directory. -/
  here : List String

/-- The text of the file at a path. -/
def Files.read (files : Files) (path : String) : Except ReadError String := do
  if path = "" then throw .missing
  if pathLimit < path.utf8ByteSize then throw .nameTooLong
  let parts := path.splitOn "/"
  let start := if "/".isPrefixOf path then [] else files.here
  match ← files.root.walk [] (start ++ parts) with
  | .directory _ => throw .directory
  | .file bytes =>
    match String.fromUTF8? bytes with
    | some text => return text
    | none => throw .notText

end Scriptlet.Command
