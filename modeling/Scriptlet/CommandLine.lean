import Scriptlet.CommandLine.SystemError
import Scriptlet.Shell

/-!
The command as a function from its options, its input and the files it may read to what it writes
and the status it ends with. Errors of a running program are values like others; the status tells of
syntax errors and of files that cannot be read.
-/

namespace Scriptlet.CommandLine

open Text

structure Completion where
  status : UInt8
  output : Bytes
  errors : Bytes
deriving DecidableEq

def succeeded (output : String) : Completion := ⟨0, encode output, []⟩

/-- The text of an error as it is written: without the blanks at its end, and with a line end. -/
def errorText (message : String) : String := trimEnd message ++ "\n"

def failed (output : Bytes) (message : String) : Completion :=
  ⟨1, output, encode (errorText message)⟩

def completed : Except (List SyntaxError) (Option Value) → Completion
  | .ok none => succeeded ""
  | .ok (some value) => succeeded (value.render ++ "\n")
  | .error errors => failed [] (SyntaxError.listing errors)

def runSource (depth : Nat) (source : String) : Option Completion :=
  let (scope, store) := Store.empty.addRoot
  (interpret depth scope source store).map fun (outcome, _) => completed outcome

def runFile (depth : Nat) (contents : Except SystemError Bytes) : Option Completion :=
  match contents with
  | .error error => some (failed [] error.message)
  | .ok bytes =>
      match decode? bytes with
      | none => some (failed [] "stream did not contain valid UTF-8")
      | some source => runSource depth source

def concluded (ending : Ending) (written : Bytes) : Completion :=
  match ending.message? with
  | none => ⟨0, written, []⟩
  | some message => failed written message

def runShell (depth : Nat) (prompt : String) (input : Bytes) : Option Completion :=
  (Shell.run depth prompt input .unlimited).map fun (ending, _, writer) =>
    concluded ending writer.written

/-- What the command is run with. A source text is preferred to a file, and without either of them
the command is a shell. -/
structure Options where
  file : Option String
  source : Option String
  prompt : String
deriving DecidableEq, Repr

def run (depth : Nat) (options : Options) (input : Bytes)
    (readFile : String → Except SystemError Bytes) : Option Completion :=
  match options.source, options.file with
  | some source, _ => runSource depth source
  | none, some path => runFile depth (readFile path)
  | none, none => runShell depth options.prompt input

end Scriptlet.CommandLine
