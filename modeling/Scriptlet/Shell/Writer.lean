import Scriptlet.Text.Bytes

/-!
Where a shell writes to. A writer may have room for so many bytes only; what does not fit is cut
off, and the write fails.
-/

namespace Scriptlet

open Text

structure Writer where
  written : Bytes
  /-- The number of bytes that still fit; without one there is no limit. -/
  room : Option Nat

namespace Writer

def unlimited : Writer := ⟨[], none⟩

def withRoom (room : Nat) : Writer := ⟨[], some room⟩

def write (writer : Writer) (bytes : Bytes) : Bool × Writer :=
  match writer.room with
  | none => (true, ⟨writer.written ++ bytes, none⟩)
  | some room =>
      (decide (bytes.length ≤ room),
        ⟨writer.written ++ bytes.take room, some (room - bytes.length)⟩)

end Writer

end Scriptlet
