/-!
Decimal numerals for 64-bit signed integers. Writing gives the shortest numeral; reading takes
an optional sign and any number of ASCII digits, and refuses what does not fit the width.
-/

namespace Scriptlet.Text.Decimal

def digits (number : Nat) : List Char := Nat.toDigits 10 number

def valueOf (run : List Char) : Nat := Nat.ofDigitChars 10 run 0

def fit? (number : Int) : Option Int64 :=
  if Int64.minValue.toInt ≤ number ∧ number ≤ Int64.maxValue.toInt then
    some (Int64.ofInt number)
  else none

def magnitude? (run : List Char) : Option Nat :=
  if run ≠ [] ∧ run.all Char.isDigit then some (valueOf run) else none

def readChars? : List Char → Option Int64
  | '-' :: run => (magnitude? run).bind fun magnitude => fit? (-magnitude)
  | '+' :: run => (magnitude? run).bind fun magnitude => fit? magnitude
  | run => (magnitude? run).bind fun magnitude => fit? magnitude

def read? (text : String) : Option Int64 := readChars? text.toList

def writeChars (value : Int64) : List Char :=
  if value.toInt < 0 then '-' :: digits value.toInt.natAbs else digits value.toInt.natAbs

def write (value : Int64) : String := String.ofList (writeChars value)

end Scriptlet.Text.Decimal
