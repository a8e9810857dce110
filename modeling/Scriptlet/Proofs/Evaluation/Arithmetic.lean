import Mathlib.Data.Int.ModEq
import Scriptlet.Proofs.Evaluation.Unwinding

/-!
Arithmetic over whole expressions. Every operator wraps around, and wrapping once at the end comes
to the same: an expression has the value of its exact number, reduced to the width of integers. Only
a division looks at numbers that are reduced, and a division by zero, where evaluation gets to one,
is all that goes wrong.
-/

namespace Scriptlet

open Evaluation

namespace BinaryOp

def isArithmetic : BinaryOp → Bool
  | add | subtract | multiply | divide => true
  | less | greater | equal | notEqual => false

/-- What an operator makes of integers of any size. A division reduces its operands to the width and
drops the fraction of the quotient; nothing else reduces anything. -/
def exactValue (left right : Int) : BinaryOp → Int
  | add => left + right
  | subtract => left - right
  | multiply => left * right
  | divide => (left.bmod (2 ^ 64)).tdiv (right.bmod (2 ^ 64))
  | less | greater | equal | notEqual => 0

end BinaryOp

def Expr.exactValue (numbers : String → Int64) : Expr → Int
  | .int value => value.toInt
  | .name identifier => (numbers identifier).toInt
  | .unary _ operand => -operand.exactValue numbers
  | .binary left op right => op.exactValue (left.exactValue numbers) (right.exactValue numbers)
  | _ => 0

/-- Numerals, names that are bound to these numbers, signs and the operators of arithmetic. -/
inductive Arithmetic (start : Evaluator) (numbers : String → Int64) : Expr → Prop where
  | int (value : Int64) : Arithmetic start numbers (.int value)
  | name {name : String}
      (bound : start.store.lookup start.current name = some (.int (numbers name))) :
      Arithmetic start numbers (.name name)
  | negate {operand : Expr} (inner : Arithmetic start numbers operand) :
      Arithmetic start numbers (.unary .negate operand)
  | binary {left right : Expr} {op : BinaryOp} (isArithmetic : op.isArithmetic = true)
      (first : Arithmetic start numbers left) (second : Arithmetic start numbers right) :
      Arithmetic start numbers (.binary left op right)

inductive Expr.IsPartOf : Expr → Expr → Prop where
  | self (expr : Expr) : IsPartOf expr expr
  | operand {part operand : Expr} (op : UnaryOp) (inner : IsPartOf part operand) :
      IsPartOf part (.unary op operand)
  | left {part left : Expr} (op : BinaryOp) (right : Expr) (inner : IsPartOf part left) :
      IsPartOf part (.binary left op right)
  | right {part right : Expr} (left : Expr) (op : BinaryOp) (inner : IsPartOf part right) :
      IsPartOf part (.binary left op right)

/-- Evaluation gets to a division, the dividend has a number, and the divisor is zero. -/
def DividesByZero (start : Evaluator) (expr : Expr) : Prop :=
  ∃ left right dividend,
    Inside ⟨.expression expr, start⟩ ⟨.expression (.binary left .divide right), start⟩ ∧
      Ends left.evaluate start (.int dividend) start ∧ Ends right.evaluate start (.int 0) start

section Width

/-- An operator that wraps around makes of reduced numbers what reducing makes of its result. -/
theorem apply_ints_exact {op : BinaryOp} (isArithmetic : op.isArithmetic = true)
    {left right : Int} (divisor : op = .divide → Int64.ofInt right ≠ 0) :
    op.applyInts (.ofInt left) (.ofInt right) = .int (.ofInt (op.exactValue left right)) := by
  cases op with
  | add => simp [BinaryOp.applyInts, BinaryOp.exactValue, Int64.ofInt_add]
  | subtract => simp [BinaryOp.applyInts, BinaryOp.exactValue, Int64.ofInt_sub]
  | multiply => simp [BinaryOp.applyInts, BinaryOp.exactValue, Int64.ofInt_mul]
  | divide =>
      have quotient : Int64.ofInt left / Int64.ofInt right =
          Int64.ofInt (BinaryOp.exactValue left right .divide) := by
        apply Int64.toInt_inj.mp
        rw [Int64.toInt_div, Int64.toInt_ofInt, Int64.toInt_ofInt, Int64.toInt_ofInt]
        rfl
      simp [BinaryOp.applyInts, divisor rfl, quotient]
  | less | greater | equal | notEqual => cases isArithmetic

/-- Quotient and remainder make up the dividend, up to wrapping around. -/
theorem quotient_and_remainder {quotient dividend divisor : Int64}
    (isQuotient : quotient.toInt = (dividend.toInt.tdiv divisor.toInt).bmod (2 ^ 64)) :
    quotient.toInt * divisor.toInt + dividend.toInt.tmod divisor.toInt ≡
      dividend.toInt [ZMOD 2 ^ 64] := by
  have reduced : quotient.toInt ≡ dividend.toInt.tdiv divisor.toInt [ZMOD 2 ^ 64] := by
    rw [isQuotient]
    exact Int.bmod_emod
  calc quotient.toInt * divisor.toInt + dividend.toInt.tmod divisor.toInt
    _ ≡ dividend.toInt.tdiv divisor.toInt * divisor.toInt +
        dividend.toInt.tmod divisor.toInt [ZMOD 2 ^ 64] := (reduced.mul_right _).add_right _
    _ = dividend.toInt := by rw [Int.mul_comm, Int.mul_tdiv_add_tmod]

end Width

section Reached

variable {start : Evaluator} {left right operand : Expr} {op : BinaryOp}

theorem divides_in_operand (divides : DividesByZero start operand) (sign : UnaryOp) :
    DividesByZero start (.unary sign operand) := by
  rcases divides with ⟨first, second, dividend, inside, ended⟩
  exact ⟨first, second, dividend, .head ⟨.operand, id, id⟩ inside, ended⟩

theorem divides_in_left (divides : DividesByZero start left) (op : BinaryOp) (right : Expr) :
    DividesByZero start (.binary left op right) := by
  rcases divides with ⟨first, second, dividend, inside, ended⟩
  exact ⟨first, second, dividend, .head ⟨.left, id, id⟩ inside, ended⟩

/-- Evaluation gets to the right operand when the left one has a number. -/
theorem divides_in_right {number : Int64} (ended : Ends left.evaluate start (.int number) start)
    (divides : DividesByZero start right) (op : BinaryOp) :
    DividesByZero start (.binary left op right) := by
  rcases divides with ⟨first, second, dividend, inside, endedBoth⟩
  exact ⟨first, second, dividend, .head ⟨.right ended rfl, id, id⟩ inside, endedBoth⟩

theorem binary_of_ints_ends {middle final : Evaluator} {first second : Int64}
    (ended : Ends left.evaluate start (.int first) middle)
    (endedRight : Ends right.evaluate middle (.int second) final) :
    Ends (Expr.binary left op right).evaluate start (op.applyInts first second) final := by
  apply binary_ends_iff.mpr
  exact ⟨_, _, ended, _, _, endedRight, rfl, rfl⟩

/-- A division by zero that evaluation gets to is what everything around it comes to. -/
theorem fails_of_divides {expr : Expr} (divides : DividesByZero start expr) :
    Ends expr.evaluate start (.error "division by zero") start := by
  rcases divides with ⟨left, right, dividend, inside, ended, endedRight⟩
  have fails : Ends (Expr.binary left .divide right).evaluate start
      (.error "division by zero") start := binary_of_ints_ends ended endedRight
  exact inside_stops inside rfl fails

end Reached

section Exact

variable {start : Evaluator} {numbers : String → Int64} {expr : Expr}

/-- An arithmetic expression comes to its exact number, reduced once, unless evaluation gets to a
division by zero. -/
theorem exact_or_divides (arithmetic : Arithmetic start numbers expr) :
    Ends expr.evaluate start (.int (.ofInt (expr.exactValue numbers))) start ∨
      DividesByZero start expr := by
  induction arithmetic with
  | int value =>
      left
      apply int_ends_iff.mpr
      simp [Expr.exactValue]
  | name bound =>
      left
      apply name_ends_iff.mpr
      simp [Expr.exactValue, bound]
  | negate _ inner =>
      rcases inner with ended | divides
      · left
        apply unary_ends_iff.mpr
        refine ⟨_, _, ended, ?_, rfl⟩
        simp [UnaryOp.apply, Expr.exactValue, Int64.ofInt_neg]
      · right
        exact divides_in_operand divides .negate
  | @binary left right op isArithmetic _ _ first second =>
      rcases first with ended | divides
      · rcases second with endedRight | divides
        -- Both operands have numbers, so that all that can go wrong is that they are divided.
        · by_cases zero : op = .divide ∧ Int64.ofInt (right.exactValue numbers) = 0
          · right
            rcases zero with ⟨rfl, zero⟩
            rw [zero] at endedRight
            exact ⟨left, right, _, .refl, ended, endedRight⟩
          · left
            have whole : Ends (Expr.binary left op right).evaluate start
                (op.applyInts (.ofInt (left.exactValue numbers))
                  (.ofInt (right.exactValue numbers))) start :=
              binary_of_ints_ends ended endedRight
            rw [apply_ints_exact isArithmetic fun isDivision isZero => zero ⟨isDivision, isZero⟩]
              at whole
            exact whole
        · right
          exact divides_in_right ended divides op
      · right
        exact divides_in_left divides op right

/-- Where evaluation gets to no division by zero, it gets to none in a part either. -/
theorem part_divides_not {part : Expr} (isPart : part.IsPartOf expr)
    (arithmetic : Arithmetic start numbers expr) (never : ¬DividesByZero start expr) :
    Arithmetic start numbers part ∧ ¬DividesByZero start part := by
  induction isPart with
  | self => exact ⟨arithmetic, never⟩
  | operand op _ induction =>
      cases arithmetic with
      | negate inner =>
          exact induction inner fun divides => never (divides_in_operand divides .negate)
  | left op right _ induction =>
      cases arithmetic with
      | binary _ first _ =>
          exact induction first fun divides => never (divides_in_left divides op right)
  | right left op _ induction =>
      cases arithmetic with
      | binary _ first second =>
          rcases exact_or_divides first with ended | divides
          · exact induction second fun divides => never (divides_in_right ended divides op)
          · exact absurd (divides_in_left divides op _) never

/-- The operands of a division come to their exact numbers, and the divisor is not zero. -/
theorem division_of_exact {left right : Expr}
    (arithmetic : Arithmetic start numbers (.binary left .divide right))
    (never : ¬DividesByZero start (.binary left .divide right)) :
    Ends left.evaluate start (.int (.ofInt (left.exactValue numbers))) start ∧
      Ends right.evaluate start (.int (.ofInt (right.exactValue numbers))) start ∧
      Int64.ofInt (right.exactValue numbers) ≠ 0 := by
  cases arithmetic with
  | binary _ first second =>
      rcases exact_or_divides first with ended | divides
      · rcases exact_or_divides second with endedRight | divides
        · refine ⟨ended, endedRight, ?_⟩
          intro zero
          rw [zero] at endedRight
          exact never ⟨left, right, _, .refl, ended, endedRight⟩
        · exact absurd (divides_in_right ended divides .divide) never
      · exact absurd (divides_in_left divides .divide right) never

end Exact

/-- An arithmetic expression fails exactly where evaluation gets to a division by zero, and with no
other error. Otherwise each part of it has its exact number, reduced once to the width, and a
division has the quotient of what its operands have come to. -/
theorem arithmetic_wraps_once {start : Evaluator} {numbers : String → Int64} {expr : Expr}
    (arithmetic : Arithmetic start numbers expr) :
    (∀ message final, Ends expr.evaluate start (.error message) final ↔
      message = "division by zero" ∧ final = start ∧ DividesByZero start expr) ∧
    (¬DividesByZero start expr → ∀ part : Expr, part.IsPartOf expr → ∃ value : Int64,
      Ends part.evaluate start (.int value) start ∧
        value.toInt = (part.exactValue numbers).bmod (2 ^ 64) ∧
        ∀ left right, part = .binary left .divide right → ∃ dividend divisor : Int64,
          Ends left.evaluate start (.int dividend) start ∧
          Ends right.evaluate start (.int divisor) start ∧ divisor ≠ 0 ∧
          value.toInt = (dividend.toInt.tdiv divisor.toInt).bmod (2 ^ 64) ∧
          value.toInt * divisor.toInt + dividend.toInt.tmod divisor.toInt ≡
            dividend.toInt [ZMOD 2 ^ 64]) := by
  constructor
  · intro message final
    constructor
    · intro fails
      rcases exact_or_divides arithmetic with ended | divides
      · cases (ends_unique (expression_deepens expr) ended fails).1
      · rcases ends_unique (expression_deepens expr) fails (fails_of_divides divides) with
          ⟨same, sameFinal⟩
        cases same
        exact ⟨rfl, sameFinal, divides⟩
    · intro divides
      rcases divides with ⟨rfl, rfl, divides⟩
      exact fails_of_divides divides
  · intro never part isPart
    rcases part_divides_not isPart arithmetic never with ⟨arithmeticPart, neverPart⟩
    have ended := (exact_or_divides arithmeticPart).resolve_right neverPart
    refine ⟨_, ended, Int64.toInt_ofInt, ?_⟩
    intro left right isDivision
    subst isDivision
    rcases division_of_exact arithmeticPart neverPart with ⟨endedLeft, endedRight, nonzero⟩
    have isQuotient : (Int64.ofInt ((Expr.binary left .divide right).exactValue numbers)).toInt =
        ((Int64.ofInt (left.exactValue numbers)).toInt.tdiv
          (Int64.ofInt (right.exactValue numbers)).toInt).bmod (2 ^ 64) := by
      rw [Int64.toInt_ofInt, Int64.toInt_ofInt, Int64.toInt_ofInt]
      rfl
    exact ⟨_, _, endedLeft, endedRight, nonzero, isQuotient, quotient_and_remainder isQuotient⟩

def lowestBound : Evaluator :=
  let (scope, store) := Store.empty.addRoot
  ⟨store.bind scope "low" (.int Int64.minValue), scope⟩

def lowestQuotient : Expr := .binary (.name "low") .divide (.unary .negate (.int 1))

/-- The quotient out of range wraps to the lowest integer, and the difference below that wraps to
the highest one. -/
theorem lowest_quotient_wraps :
    let below : Expr := .binary lowestQuotient .subtract (.int 1)
    Arithmetic lowestBound (fun _ => Int64.minValue) below ∧ ¬DividesByZero lowestBound below ∧
      Ends lowestQuotient.evaluate lowestBound (.int Int64.minValue) lowestBound ∧
      Ends below.evaluate lowestBound (.int Int64.maxValue) lowestBound := by
  intro below
  have arithmetic : Arithmetic lowestBound (fun _ => Int64.minValue) below := by
    apply Arithmetic.binary rfl _ (.int 1)
    apply Arithmetic.binary rfl (.name _) (.negate (.int 1))
    decide +kernel
  have wraps := arithmetic_wraps_once arithmetic
  have never : ¬DividesByZero lowestBound below := by
    intro divides
    have fails := (wraps.1 _ _).mpr ⟨rfl, rfl, divides⟩
    have ran : (below.evaluate 0 lowestBound).map Prod.fst = some (.int Int64.maxValue) := by
      decide +kernel
    rcases ends_of_run ran with ⟨final, ended⟩
    cases (ends_unique (expression_deepens below) ended fails).1
  have isQuotient := wraps.2 never lowestQuotient (.left .subtract (.int 1) (.self _))
  have isBelow := wraps.2 never below (.self _)
  rcases isQuotient with ⟨quotient, endedQuotient, valueOfQuotient, -⟩
  rcases isBelow with ⟨difference, ended, value, -⟩
  have lowest : quotient = Int64.minValue := Int64.toInt_inj.mp valueOfQuotient
  have highest : difference = Int64.maxValue := Int64.toInt_inj.mp value
  subst lowest highest
  exact ⟨arithmetic, never, endedQuotient, ended⟩

end Scriptlet
