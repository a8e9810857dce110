import Scriptlet.Program

/-!
Two trees are equal when they have the same shape and the same leaves, and this can be decided.
-/

namespace Scriptlet

mutual

def Expr.same : Expr → Expr → Bool
  | .name left, .name right => left == right
  | .int left, .int right => left == right
  | .bool left, .bool right => left == right
  | .unary leftOp left, .unary rightOp right => leftOp == rightOp && left.same right
  | .binary left₁ leftOp left₂, .binary right₁ rightOp right₂ =>
      left₁.same right₁ && leftOp == rightOp && left₂.same right₂
  | .ifThen left leftBlock, .ifThen right rightBlock =>
      left.same right && sameStatements leftBlock rightBlock
  | .ifElse left leftBlock leftOther, .ifElse right rightBlock rightOther =>
      left.same right && sameStatements leftBlock rightBlock && sameStatements leftOther rightOther
  | .function leftNames left, .function rightNames right =>
      leftNames == rightNames && sameStatements left right
  | .call left leftArguments, .call right rightArguments =>
      left.same right && sameExpressions leftArguments rightArguments
  | _, _ => false

def Stmt.same : Stmt → Stmt → Bool
  | .bind leftName left, .bind rightName right => leftName == rightName && left.same right
  | .return left, .return right => left.same right
  | .expr left, .expr right => left.same right
  | _, _ => false

def sameExpressions : List Expr → List Expr → Bool
  | [], [] => true
  | left :: lefts, right :: rights => left.same right && sameExpressions lefts rights
  | _, _ => false

def sameStatements : List Stmt → List Stmt → Bool
  | [], [] => true
  | left :: lefts, right :: rights => left.same right && sameStatements lefts rights
  | _, _ => false

end

mutual

theorem Expr.same_iff : (left right : Expr) → (left.same right = true ↔ left = right)
  | .name _, right => by cases right <;> simp [Expr.same]
  | .int _, right => by cases right <;> simp [Expr.same]
  | .bool _, right => by cases right <;> simp [Expr.same]
  | .unary _ operand, right => by cases right <;> simp [Expr.same, operand.same_iff]
  | .binary first _ second, right => by
      cases right <;> simp [Expr.same, first.same_iff, second.same_iff, and_assoc]
  | .ifThen condition consequence, right => by
      cases right <;> simp [Expr.same, condition.same_iff, same_statements_iff consequence]
  | .ifElse condition consequence alternative, right => by
      cases right <;> simp [Expr.same, condition.same_iff, same_statements_iff consequence,
        same_statements_iff alternative, and_assoc]
  | .function _ body, right => by cases right <;> simp [Expr.same, same_statements_iff body]
  | .call callee arguments, right => by
      cases right <;> simp [Expr.same, callee.same_iff, same_expressions_iff arguments]

theorem Stmt.same_iff : (left right : Stmt) → (left.same right = true ↔ left = right)
  | .bind _ value, right => by cases right <;> simp [Stmt.same, value.same_iff]
  | .return value, right => by cases right <;> simp [Stmt.same, value.same_iff]
  | .expr value, right => by cases right <;> simp [Stmt.same, value.same_iff]

theorem same_expressions_iff :
    (left right : List Expr) → (sameExpressions left right = true ↔ left = right)
  | [], right => by cases right <;> simp [sameExpressions]
  | first :: rest, right => by
      cases right <;> simp [sameExpressions, first.same_iff, same_expressions_iff rest]

theorem same_statements_iff :
    (left right : List Stmt) → (sameStatements left right = true ↔ left = right)
  | [], right => by cases right <;> simp [sameStatements]
  | first :: rest, right => by
      cases right <;> simp [sameStatements, first.same_iff, same_statements_iff rest]

end

instance : DecidableEq Expr := fun left right => decidable_of_iff _ (left.same_iff right)

instance : DecidableEq Stmt := fun left right => decidable_of_iff _ (left.same_iff right)

end Scriptlet
