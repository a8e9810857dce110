import Scriptlet.Token

/-!
What a reader of programs reports. Each report says what is wrong and how far from the end mark the
token stands that it is about, so reports further on in a text have smaller distances.
-/

namespace Scriptlet

inductive SyntaxError where
  /-- Another token stands where the grammar admits one kind only. -/
  | unexpected (expected : TokenKind) (found : Token)
  /-- No expression starts with this token. -/
  | noRule (token : Token)
  /-- A numeral that is not one, or does not fit the width of integers. -/
  | badInteger (literal : String)
deriving DecidableEq, Repr

def SyntaxError.message : SyntaxError → String
  | .unexpected expected found =>
      "expected next token to be " ++ expected.text ++ ", got " ++ found.text ++ " instead"
  | .noRule token => "no parse rule for " ++ token.text
  | .badInteger literal => "could not parse " ++ literal ++ " as integer"

def SyntaxError.listing (errors : List SyntaxError) : String :=
  "parser errors:\n" ++ "".intercalate (errors.map fun error => "\t" ++ error.message ++ "\n")

structure Report where
  error : SyntaxError
  /-- The number of tokens from the one that the error is about up to the end mark. -/
  remaining : Nat
deriving DecidableEq, Repr

end Scriptlet
