import Scriptlet.Program
import Scriptlet.Token

/-!
How strongly a token binds the operand before it. The operators of an expression are grouped by
comparing these strengths.
-/

namespace Scriptlet

inductive Precedence where
  | lowest | equals | lessGreater | sum | product | unary | call
deriving DecidableEq, Repr

namespace Precedence

def rank : Precedence → Nat
  | lowest => 0
  | equals => 1
  | lessGreater => 2
  | sum => 3
  | product => 4
  | unary => 5
  | call => 6

instance : LT Precedence := ⟨fun weaker stronger => weaker.rank < stronger.rank⟩

instance : LE Precedence := ⟨fun weaker stronger => weaker.rank ≤ stronger.rank⟩

instance (weaker stronger : Precedence) : Decidable (weaker < stronger) :=
  inferInstanceAs (Decidable (weaker.rank < stronger.rank))

instance (weaker stronger : Precedence) : Decidable (weaker ≤ stronger) :=
  inferInstanceAs (Decidable (weaker.rank ≤ stronger.rank))

def ofKind : TokenKind → Precedence
  | .equalEqual | .bangEqual => equals
  | .less | .greater => lessGreater
  | .plus | .minus => sum
  | .star | .slash => product
  | .leftParen => call
  | _ => lowest

end Precedence

def BinaryOp.ofKind? : TokenKind → Option BinaryOp
  | .plus => some .add
  | .minus => some .subtract
  | .star => some .multiply
  | .slash => some .divide
  | .less => some .less
  | .greater => some .greater
  | .equalEqual => some .equal
  | .bangEqual => some .notEqual
  | _ => none

/-- A token that links operands is an operator or opens the arguments of a call. -/
theorem link_is_operator_or_call (kind : TokenKind) :
    Precedence.lowest < Precedence.ofKind kind ↔
      (BinaryOp.ofKind? kind).isSome = true ∨ kind = .leftParen := by
  cases kind <;> decide

section Links

variable {least : Precedence} {kind : TokenKind}

theorem lowest_lt_of_link (linked : least < Precedence.ofKind kind) :
    Precedence.lowest < Precedence.ofKind kind :=
  Nat.lt_of_le_of_lt (Nat.zero_le _) linked

theorem not_end_of_link (linked : least < Precedence.ofKind kind) : kind ≠ .endMark := by
  rintro rfl
  exact Nat.not_lt_zero _ linked

theorem opens_of_link (linked : least < Precedence.ofKind kind)
    (noOp : BinaryOp.ofKind? kind = none) : kind = .leftParen := by
  rcases (link_is_operator_or_call kind).mp (lowest_lt_of_link linked) with isOp | opens
  · rw [noOp] at isOp
    cases isOp
  · exact opens

end Links

end Scriptlet
