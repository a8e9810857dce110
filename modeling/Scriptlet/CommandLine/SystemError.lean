import Scriptlet.Text.Decimal

/-!
Why the system does not hand over a file. Each error has the system's own number and wording.
-/

namespace Scriptlet.CommandLine

open Text

inductive SystemError where
  | noSuchFile
  | permissionDenied
  | notDirectory
  | isDirectory
  | nameTooLong
  | other (code : Nat) (text : String)
deriving DecidableEq, Repr

def SystemError.code : SystemError → Nat
  | noSuchFile => 2
  | permissionDenied => 13
  | notDirectory => 20
  | isDirectory => 21
  | nameTooLong => 36
  | other code _ => code

def SystemError.text : SystemError → String
  | noSuchFile => "No such file or directory"
  | permissionDenied => "Permission denied"
  | notDirectory => "Not a directory"
  | isDirectory => "Is a directory"
  | nameTooLong => "File name too long"
  | other _ text => text

def SystemError.message (error : SystemError) : String :=
  error.text ++ " (os error " ++ String.ofList (Decimal.digits error.code) ++ ")"

end Scriptlet.CommandLine
