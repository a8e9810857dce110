import Scriptlet.Session
import Scriptlet.Shell.Writer
import Scriptlet.Text.Blank

/-!
The shell answers a line at a time. Each line is a program of its own that runs in the one scope
of the session; blank lines are passed over, and errors are answers like others.
-/

namespace Scriptlet

open Text

inductive Ending where
  | finished
  /-- A line is not a text. -/
  | undecodable
  /-- The writer is full. -/
  | full
deriving DecidableEq, Repr

def Ending.message? : Ending → Option String
  | finished => none
  | undecodable => some "stream did not contain valid UTF-8"
  | full => some "failed to write whole buffer"

namespace Shell

def defaultPrompt : String := ">> "

def replyTo : Except (List SyntaxError) (Option Value) → String
  | .ok none => ""
  | .ok (some value) => value.render ++ "\n"
  | .error errors => SyntaxError.listing errors

def answer (depth : Nat) (scope : Handle) (line : String) : Run String := do
  if allBlank line then
    return ""
  else
    let outcome ← interpret depth scope line
    return replyTo outcome

inductive Step where
  | stop (ending : Ending)
  | reply (text : String) (store : Store)

def step (depth : Nat) (scope : Handle) (line : Bytes) (store : Store) : Option Step :=
  match decode? line with
  | none => some (.stop .undecodable)
  | some text => (answer depth scope text store).map fun (reply, store) => .reply reply store

/-- Prompts and answers a line, until there are no more lines or something fails. -/
def session (depth : Nat) (scope : Handle) (prompt : String) :
    List Bytes → Store → Writer → Option (Ending × Store × Writer)
  | lines, store, writer =>
      match writer.write (encode prompt) with
      | (false, writer) => some (.full, store, writer)
      | (true, writer) =>
          match lines with
          | [] => some (.finished, store, writer)
          | line :: rest =>
              (step depth scope line store).bind fun
                | .stop ending => some (ending, store, writer)
                | .reply reply store =>
                    match writer.write (encode reply) with
                    | (false, writer) => some (.full, store, writer)
                    | (true, writer) => session depth scope prompt rest store writer

def run (depth : Nat) (prompt : String) (input : Bytes) (writer : Writer) :
    Option (Ending × Store × Writer) :=
  let (scope, store) := Store.empty.addRoot
  session depth scope prompt (lines input) store writer

end Shell

end Scriptlet
