import Scriptlet.Command.Files
import Scriptlet.Command.Options
import Scriptlet.Error.Render
import Scriptlet.Parser.Production
import Scriptlet.Tree.Json
import Scriptlet.Tree.Outline

/-!
# Running the command

The command reads a file and prints its tokens or its tree. Sources are labelled with the last part
of the path. An error in the source is shown in the source, on the error output, and nothing is
printed then.

What reading the file gave is an argument, so a run is a function of the options and the contents.

## Main definitions

* `Outcome`;
* `Options.run`, `run`.
-/

namespace Scriptlet.Command

/-- What a run leaves: the exit code, and the texts printed on the two outputs. -/
structure Outcome where
  /-- The exit code. -/
  code : UInt32
  /-- What is printed. -/
  output : String
  /-- What is printed on the error output. -/
  errors : String
  deriving DecidableEq

/-- The last part of a path. Empty parts and single dots do not count, and a path that ends by going
up, or has no part at all, stands for itself. -/
def labelOf (path : String) : String :=
  let parts := (path.splitOn "/").filter fun part => part != "" && part != "."
  match parts.getLast? with
  | none | some ".." => path
  | some name => name

/-- A token in the list of tokens: where it starts, and what it is. -/
def tokenLine (t : Token) : String :=
  alignRight 6 (toString t.span.start.offset.toNat) ++ "  " ++ t.summary ++ "\n"

/-- Prints a result, or shows an error in its source. An error that cannot be shown ends the run
abnormally. -/
def report (source : String) : Except Error String → Outcome
  | .ok text => ⟨0, text, ""⟩
  | .error e =>
    match e.render? source with
    | some shown => ⟨1, "", shown⟩
    | none => ⟨101, "", "Formatting argument out of range\n"⟩

/-- What the options ask to be printed for a source. -/
def Options.print (o : Options) (source : String) : Except Error String :=
  let label := labelOf o.file
  if o.tokens then (tokenize source (some label)).map fun ts => String.join (ts.map tokenLine)
  else
    (parseSource source ⟨some label, o.maxDepth⟩).map fun p =>
      (if o.json then p.toJson.pretty else p.outline.pretty) ++ "\n"

/-- Runs the command on what reading the file gave. -/
def Options.run (o : Options) : Except ReadError String → Outcome
  | .ok source => report source (o.print source)
  | .error e =>
    ⟨1, "", "Error: failed to read " ++ o.file ++ "\n\nCaused by:\n    " ++ e.reason ++ "\n"⟩

/-- What is printed for an invalid line of arguments. -/
def usage : String :=
  "Usage: scriptlet [--tokens] [--json] [--max-depth N] [-V | --verbose] [--] FILE\n"

/-- Runs the command with a line of arguments, given what reading a path gives. -/
def run (args : List String) (read : String → Except ReadError String) : Outcome :=
  match Options.ofArgs? args with
  | none => ⟨2, "", usage⟩
  | some o => o.run (read o.file)

end Scriptlet.Command
