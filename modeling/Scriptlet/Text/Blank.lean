/-!
Blank characters are those with the Unicode property `White_Space`: 25 code points.
Lines, margins and the gaps between tokens are all judged by this one test.
-/

namespace Scriptlet.Text

/-- The code points with the property `White_Space`, as closed ranges in increasing order. -/
def blankRanges : List (Nat × Nat) :=
  [(0x0009, 0x000D), (0x0020, 0x0020), (0x0085, 0x0085), (0x00A0, 0x00A0), (0x1680, 0x1680),
    (0x2000, 0x200A), (0x2028, 0x2029), (0x202F, 0x202F), (0x205F, 0x205F), (0x3000, 0x3000)]

def isBlank (char : Char) : Bool :=
  blankRanges.any fun (first, last) => first ≤ char.toNat && char.toNat ≤ last

example : (blankRanges.map fun (first, last) => last + 1 - first).sum = 25 := by decide

def allBlank (text : String) : Bool := text.toList.all isBlank

def trimEnd (text : String) : String :=
  String.ofList (text.toList.reverse.dropWhile isBlank).reverse

end Scriptlet.Text
