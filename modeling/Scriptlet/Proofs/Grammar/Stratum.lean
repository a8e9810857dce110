import Scriptlet.Proofs.Grammar.Derivation

/-!
How the strata of the grammar stand to the binding strengths that reading compares. An expression
of a tight stratum is one of every looser stratum.
-/

namespace Scriptlet

namespace Stratum

def strength : Stratum → Precedence
  | equality => .equals
  | comparison => .lessGreater
  | sum => .sum
  | product => .product
  | unary => .unary
  | applied | atom => .call

/-- The strongest demand under which an expression of the stratum is read as a whole. -/
def demand : Stratum → Precedence
  | equality => .lowest
  | comparison => .equals
  | sum => .lessGreater
  | product => .sum
  | unary | applied | atom => .unary

theorem strength_le_tighter (stratum : Stratum) : stratum.strength ≤ stratum.tighter.strength := by
  cases stratum <;> decide

theorem demand_le_tighter (stratum : Stratum) : stratum.demand ≤ stratum.tighter.demand := by
  cases stratum <;> decide

theorem demand_of_operator (op : BinaryOp) : (ofOp op).demand < (ofOp op).strength := by
  cases op <;> decide

theorem demand_of_operand (op : BinaryOp) : (ofOp op).strength ≤ (ofOp op).tighter.demand := by
  cases op <;> decide

theorem strength_of_operator {kind : TokenKind} {op : BinaryOp}
    (isOp : BinaryOp.ofKind? kind = some op) : Precedence.ofKind kind = (ofOp op).strength := by
  cases kind <;> cases isOp <;> rfl

def rank : Stratum → Nat
  | equality => 0
  | comparison => 1
  | sum => 2
  | product => 3
  | unary => 4
  | applied => 5
  | atom => 6

theorem rank_injective {first second : Stratum} (same : first.rank = second.rank) :
    first = second := by
  cases first <;> cases second <;> first | rfl | cases same

theorem rank_tighter {stratum : Stratum} (below : stratum.rank < atom.rank) :
    stratum.tighter.rank = stratum.rank + 1 := by
  cases stratum <;> first | rfl | exact absurd below (by decide)

/-- Apart from single operands, which bind like calls, tightness is binding strength. -/
theorem rank_le_of_strength_le {loose tight : Stratum} (notAtom : loose ≠ atom)
    (weaker : loose.strength ≤ tight.strength) : loose.rank ≤ tight.rank := by
  revert notAtom weaker
  cases loose <;> cases tight <;> decide

/-- What is admitted as the right operand of an operator is of the operands' stratum. -/
theorem operand_rank_le {op : BinaryOp} {tight : Stratum}
    (tighter : (ofOp op).strength < tight.strength ∨ Precedence.unary ≤ tight.strength) :
    (ofOp op).tighter.rank ≤ tight.rank := by
  revert tighter
  cases op <;> cases tight <;> decide

end Stratum

theorem spells_looser {loose tight : Stratum} {tokens : List Token} {tree : Expr}
    (looser : loose.rank ≤ tight.rank) (spelled : Spells (.expression tight) tokens tree) :
    Spells (.expression loose) tokens tree := by
  obtain ⟨distance, gap⟩ := Nat.exists_eq_add_of_le looser
  induction distance generalizing loose with
  | zero =>
      rw [Stratum.rank_injective gap] at spelled
      exact spelled
  | succ distance induction =>
      have bounded : tight.rank ≤ Stratum.atom.rank := by cases tight <;> decide
      have below : loose.rank < Stratum.atom.rank := by omega
      have next := Stratum.rank_tighter below
      refine .looser loose ?_ (induction (by omega) (by omega))
      rintro rfl
      exact Nat.lt_irrefl _ below

end Scriptlet
