import Scriptlet.Value

/-!
What operators do to values. Integers have 64 bits and wrap around; division drops the fraction, and
the one quotient that is out of range wraps as well.
-/

namespace Scriptlet

namespace UnaryOp

def apply : UnaryOp → Value → Value
  | not, operand => .bool !operand.truthy
  | negate, .int operand => .int (-operand)
  | negate, operand => (Fault.unaryMismatch negate operand.type).value

end UnaryOp

namespace BinaryOp

def applyInts (left right : Int64) : BinaryOp → Value
  | add => .int (left + right)
  | subtract => .int (left - right)
  | multiply => .int (left * right)
  | divide => if right = 0 then Fault.divisionByZero.value else .int (left / right)
  | less => .bool (decide (left < right))
  | greater => .bool (decide (right < left))
  | equal => .bool (decide (left = right))
  | notEqual => .bool (decide (left ≠ right))

def applyBools (left right : Bool) : BinaryOp → Value
  | equal => .bool (left == right)
  | notEqual => .bool (left != right)
  | op => (Fault.noOperator op .bool).value

def apply (op : BinaryOp) : Value → Value → Value
  | .int left, .int right => op.applyInts left right
  | .bool left, .bool right => op.applyBools left right
  | left, right =>
      if left.type = right.type then (Fault.noOperator op left.type).value
      else (Fault.typeMismatch left.type op right.type).value

end BinaryOp

end Scriptlet
