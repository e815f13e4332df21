import Scriptlet.Decimal.Digits
import Scriptlet.Parser.Session

/-!
# Options of the command

The command takes one file and a few options, in any order: `--tokens`, `--json`, `--max-depth` with
a number, and `-V` or `--verbose`. The number stands in the next argument or behind an equals sign.
Behind `--` every argument is a file. An option may be given only once.

Whatever breaks these rules makes the whole line of arguments invalid; which rule it was does not
matter.

## Main definitions

* `Options`, `Options.ofArgs?`
-/

namespace Scriptlet.Command

/-- What the command is asked to do. -/
structure Options where
  /-- The path of the source. -/
  file : String
  /-- Print the tokens and not the tree. -/
  tokens : Bool
  /-- Print the tree as JSON and not as an outline. -/
  json : Bool
  /-- The nesting limit. -/
  maxDepth : Nat
  /-- Report on the progress of the work. -/
  verbose : Bool
  deriving DecidableEq

/-- What has been given so far. -/
structure Given where
  file : Option String := none
  tokens : Bool := false
  json : Bool := false
  maxDepth : Option Nat := none
  verbose : Bool := false
  deriving DecidableEq

/-- A nesting limit: digits, with a plus sign in front if need be, below `2 ^ 64`. -/
def limit? (value : List Char) : Option Nat :=
  let number :=
    match value with
    | '+' :: cs => digits? cs
    | cs => digits? cs
  number.filter (· < UInt64.size)

/-- Whether an argument is an option. A dash alone is a file. -/
def isOption (arg : String) : Bool := "-".isPrefixOf arg && arg != "-"

namespace Given

/-- Takes the file. It must have a name, and there must not be another one. -/
def takeFile? (g : Given) (file : String) : Option Given :=
  if file = "" ∨ g.file.isSome then none else some { g with file := some file }

/-- Takes the files behind `--`. -/
def takeFiles? (g : Given) (files : List String) : Option Given := files.foldlM takeFile? g

/-- Takes the nesting limit. -/
def takeLimit? (g : Given) (value : List Char) : Option Given :=
  if g.maxDepth.isSome then none
  else (limit? value).map fun n => { g with maxDepth := some n }

/-- Takes an option that has no value. -/
def takeFlag? (g : Given) : String → Option Given
  | "--tokens" => if g.tokens then none else some { g with tokens := true }
  | "--json" => if g.json then none else some { g with json := true }
  | "-V" | "--verbose" => if g.verbose then none else some { g with verbose := true }
  | _ => none

/-- Takes all arguments. -/
def takeArgs? (g : Given) : List String → Option Given
  | [] => some g
  | "--" :: files => g.takeFiles? files
  | ["--max-depth"] => none
  | "--max-depth" :: value :: args => do (← g.takeLimit? value.toList).takeArgs? args
  | arg :: args => do
    let g ←
      match "--max-depth=".toList.isPrefixOf? arg.toList with
      | some value => g.takeLimit? value
      | none => if isOption arg then g.takeFlag? arg else g.takeFile? arg
    g.takeArgs? args

end Given

/-- The options that a line of arguments gives, if it is valid. -/
def Options.ofArgs? (args : List String) : Option Options := do
  let g ← ({} : Given).takeArgs? args
  let file ← g.file
  return ⟨file, g.tokens, g.json, g.maxDepth.getD defaultMaxDepth, g.verbose⟩

end Scriptlet.Command
