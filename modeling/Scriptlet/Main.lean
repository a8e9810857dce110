import Scriptlet.Main.Arguments

/-!
The command itself: it reads its arguments, files and standard input, and writes what the library
answers.
-/

namespace Scriptlet.Main

open Text CommandLine

def callDepth : Nat := 1000000000

def emit (stream : IO.FS.Stream) (bytes : Bytes) : IO Unit := do
  stream.write ⟨bytes.toArray⟩
  stream.flush

/-- The next line with its end cut off, or `none` behind the last one. -/
partial def readLine (stream : IO.FS.Stream) : IO (Option Bytes) := do
  let rec gather (line : Array UInt8) : IO (Array UInt8) := do
    let chunk ← stream.read 1
    match chunk.data[0]? with
    | none => return line
    | some byte => if byte = lineFeed then return line.push byte else gather (line.push byte)
  return (lines (← gather #[]).toList).head?

def systemError (code : UInt32) (text : String) : SystemError :=
  -- Some calls of the system report an error as the negative of its number.
  let number := if code.toNat < UInt32.size / 2 then code.toNat else UInt32.size - code.toNat
  match number with
  | 2 => .noSuchFile
  | 13 => .permissionDenied
  | 20 => .notDirectory
  | 21 => .isDirectory
  | 36 => .nameTooLong
  | number => .other number text.capitalize

def readFile (path : String) : IO (Except SystemError Bytes) := do
  try
    let contents ← IO.FS.readBinFile path
    return .ok contents.data.toList
  catch error =>
    return .error <| match error with
      | .noFileOrDirectory _ code text | .interrupted _ code text
      | .alreadyExists _ code text | .invalidArgument _ code text
      | .permissionDenied _ code text | .resourceExhausted _ code text
      | .inappropriateType _ code text | .noSuchThing _ code text
      | .otherError code text | .resourceBusy code text | .resourceVanished code text
      | .unsupportedOperation code text | .hardwareFault code text
      | .unsatisfiedConstraints code text | .illegalOperation code text
      | .protocolError code text | .timeExpired code text => systemError code text
      | .unexpectedEof => .other 0 "Unexpected end of file"
      | .userError text => .other 0 text

def finish (completion : Completion) : IO UInt32 := do
  emit (← IO.getStdout) completion.output
  emit (← IO.getStderr) completion.errors
  return completion.status.toUInt32

def finishWith (completion : Option Completion) : IO UInt32 :=
  finish (completion.getD (failed [] "calls nest too deep"))

partial def converse (prompt : String) (scope : Handle) (store : Store) : IO UInt32 := do
  emit (← IO.getStdout) (encode prompt)
  match ← readLine (← IO.getStdin) with
  | none => finish (concluded .finished [])
  | some line =>
      match Shell.step callDepth scope line store with
      | none => finishWith none
      | some (.stop ending) => finish (concluded ending [])
      | some (.reply reply store) =>
          emit (← IO.getStdout) (encode reply)
          converse prompt scope store

def run (arguments : List String) : IO UInt32 := do
  match settle arguments with
  | .inl completion => finish completion
  | .inr ⟨none, none, prompt⟩ =>
      let (scope, store) := Store.empty.addRoot
      converse prompt scope store
  | .inr options =>
      let contents ← match options.file with
        | none => pure (.error .noSuchFile)
        | some path => readFile path
      finishWith (CommandLine.run callDepth options [] fun _ => contents)

end Scriptlet.Main

def main (arguments : List String) : IO UInt32 := Scriptlet.Main.run arguments
