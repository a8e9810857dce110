/-!
Texts as bytes. Bytes are UTF-8 or they are no text. A byte stream is cut into lines at line
feeds; one carriage return before a line feed belongs to the line's end, and elsewhere it belongs
to the line.
-/

namespace Scriptlet.Text

abbrev Bytes := List UInt8

def encode (text : String) : Bytes := text.toUTF8.data.toList

def decode? (bytes : Bytes) : Option String := String.fromUTF8? ⟨bytes.toArray⟩

theorem decode_encode (text : String) : decode? (encode text) = some text := by
  have valid : text.toByteArray.IsValidUTF8 := text.isValidUTF8
  simp [decode?, encode, String.fromUTF8?, String.fromUTF8, valid]

def lineFeed : UInt8 := 0x0A

def carriageReturn : UInt8 := 0x0D

def pushByte (byte : UInt8) : List Bytes → List Bytes
  | [] => [[byte]]
  | line :: lines => (byte :: line) :: lines

/-- The lines of a byte stream without their ends. The last line need not be ended. -/
def lines : Bytes → List Bytes
  | [] => []
  | [byte] => if byte = lineFeed then [[]] else [[byte]]
  | first :: second :: rest =>
      if first = lineFeed then [] :: lines (second :: rest)
      else if first = carriageReturn ∧ second = lineFeed then lines (second :: rest)
      else pushByte first (lines (second :: rest))

example : lines [49, 13, 10, 50, 13, 13, 10, 10, 51, 13] = [[49], [50, 13], [], [51, 13]] := by
  decide

end Scriptlet.Text
