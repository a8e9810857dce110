import Scriptlet.Proofs.Rule.Footing

/-!
Judgements about the rules of the grammar. Expressions and statements start on a token that nobody
has looked at; what follows a token that was used looks at the next one first. So a judgement on
footings that is closed under the ways in which rules are put together holds of every rule, as soon
as it holds of the lists of statements in blocks.
-/

namespace Scriptlet.Grammar

open Rule

structure JudgedAt (judged : {Result : Type} → Footing → Rule Result → Prop) (depth : Nat) :
    Prop where
  expression (least : Precedence) : judged .fresh (expression least depth)
  operand : judged .fresh (operand depth)
  links (least : Precedence) (left : Expr) : judged .used (links least left depth)
  arguments : judged .used (arguments depth)
  moreArguments : judged .used (moreArguments depth)
  conditional : judged .used (conditional depth)
  block : judged .used (block depth)
  blockStatements : judged .fresh (blockStatements depth)
  statement : judged .fresh (statement depth)

section Rules

variable {judged : {Result : Type} → Footing → Rule Result → Prop} (closed : Closed judged)

include closed

theorem more_parameters_judged (depth : Nat) : judged .used (moreParameters depth) := by
  induction depth with
  | zero => exact closed.tooDeep _
  | succ depth induction =>
      rw [moreParameters]
      refine closed.peek fun token => ?_
      split
      · next isComma =>
          exact closed.advanceOnto (closed.ofUsed (isComma ▸ by decide)
            (closed.bind (expect_judged closed (by decide)) fun _ => closed.currentUsed fun _ =>
              closed.bind induction fun _ => closed.pure _))
      · exact closed.beside (closed.bind (expect_judged closed (by decide)) fun _ => closed.pure _)

theorem parameters_judged (depth : Nat) : judged .used (parameters depth) := by
  refine closed.peek fun token => ?_
  split
  · next closes =>
      exact closed.advanceOnto (closed.ofUsed (closes ▸ by decide) (closed.pure _))
  · exact closed.beside (closed.bind (expect_judged closed (by decide)) fun _ =>
      closed.currentUsed fun _ =>
        closed.bind (more_parameters_judged closed depth) fun _ => closed.pure _)

theorem integer_judged {token : Token} (isInteger : token.kind = .integer) :
    judged (.facing token) (integer token) := by
  rw [integer]
  split
  · exact closed.ofUsed (isInteger ▸ by decide) (closed.pure _)
  · next unread => exact closed.failHere ⟨rfl, isInteger, unread⟩

section JudgedAt

variable {depth : Nat} (rules : JudgedAt judged depth)

include closed rules

theorem operand_judged : judged .fresh (operand (depth + 1)) := by
  rw [operand]
  refine closed.current fun token => ?_
  have used {kind : TokenKind} {Result : Type} {rule : Rule Result} (isKind : token.kind = kind)
      (inside : kind ≠ .endMark) (isJudged : judged .used rule) : judged (.facing token) rule :=
    closed.ofUsed (isKind ▸ inside) isJudged
  split
  case h_1 kind | h_3 kind | h_4 kind => exact used kind (by decide) (closed.pure _)
  case h_2 kind => exact integer_judged closed kind
  case h_5 kind | h_6 kind =>
    exact used kind (by decide) (closed.advance
      (closed.bind (rules.expression _) fun _ => closed.pure _))
  case h_7 kind =>
    exact used kind (by decide) (closed.advance (closed.bind (rules.expression _) fun _ =>
      closed.bind (expect_judged closed (by decide)) fun _ => closed.pure _))
  case h_8 kind => exact used kind (by decide) rules.conditional
  case h_9 kind =>
    exact used kind (by decide) (closed.bind (expect_judged closed (by decide)) fun _ =>
      closed.bind (parameters_judged closed depth) fun _ =>
      closed.bind (expect_judged closed (by decide)) fun _ =>
      closed.bind rules.block fun _ => closed.pure _)
  case h_10 => exact closed.failHere ⟨rfl, by simp_all [Phrase.expressionStarts]⟩

theorem links_judged (least : Precedence) (left : Expr) :
    judged .used (links least left (depth + 1)) := by
  rw [links]
  refine closed.peek fun token => ?_
  split
  · next linked =>
      refine closed.advanceOnto (closed.ofUsed (not_end_of_link linked) ?_)
      split
      · exact closed.advance
          (closed.bind (rules.expression _) fun _ => rules.links least _)
      · exact closed.bind rules.arguments fun _ => rules.links least _
  · exact closed.beside (closed.pure _)

theorem arguments_judged : judged .used (arguments (depth + 1)) := by
  rw [arguments]
  refine closed.peek fun token => closed.advanceOnto ?_
  split
  · next closes => exact closed.ofUsed (closes ▸ by decide) (closed.pure _)
  · exact closed.ofFresh (closed.bind (rules.expression _) fun _ =>
      closed.bind rules.moreArguments fun _ => closed.pure _)

theorem more_arguments_judged : judged .used (moreArguments (depth + 1)) := by
  rw [moreArguments]
  refine closed.peek fun token => ?_
  split
  · next isComma =>
      exact closed.advanceOnto (closed.ofUsed (isComma ▸ by decide)
        (closed.advance (closed.bind (rules.expression _) fun _ =>
          closed.bind rules.moreArguments fun _ => closed.pure _)))
  · exact closed.beside (closed.bind (expect_judged closed (by decide)) fun _ => closed.pure _)

theorem conditional_judged : judged .used (conditional (depth + 1)) := by
  rw [conditional]
  refine closed.bind (expect_judged closed (by decide)) fun _ => closed.advance
    (closed.bind (rules.expression _) fun _ =>
    closed.bind (expect_judged closed (by decide)) fun _ =>
    closed.bind (expect_judged closed (by decide)) fun _ =>
    closed.bind rules.block fun _ => closed.peek fun token => ?_)
  split
  · next isElse =>
      exact closed.advanceOnto (closed.ofUsed (isElse ▸ by decide)
        (closed.bind (expect_judged closed (by decide)) fun _ =>
          closed.bind rules.block fun _ => closed.pure _))
  · exact closed.beside (closed.pure _)

theorem statement_judged : judged .fresh (statement (depth + 1)) := by
  have finish (make : Expr → Stmt) : judged .fresh (do
      let value ← expression .lowest depth
      skip .semicolon
      return make value) :=
    closed.bind (rules.expression _) fun _ =>
      closed.bind (skip_judged closed (by decide)) fun _ => closed.pure _
  rw [statement]
  refine closed.current fun token => ?_
  split
  · next isLet =>
      exact closed.ofUsed (isLet ▸ by decide)
        (closed.bind (expect_judged closed (by decide)) fun _ =>
        closed.currentUsed fun name => closed.bind (expect_judged closed (by decide)) fun _ =>
          closed.advance (finish (.bind name.slice)))
  · next isReturn => exact closed.ofUsed (isReturn ▸ by decide) (closed.advance (finish .return))
  · exact closed.ofFresh (finish .expr)

end JudgedAt

theorem rules_judged (lists : ∀ depth, JudgedAt judged depth →
    judged .fresh (blockStatements (depth + 1))) (depth : Nat) : JudgedAt judged depth := by
  induction depth with
  | zero => constructor <;> intros <;> exact closed.tooDeep _
  | succ depth rules =>
      exact
        { expression := fun least => closed.bind rules.operand fun left => rules.links least left
          operand := operand_judged closed rules
          links := links_judged closed rules
          arguments := arguments_judged closed rules
          moreArguments := more_arguments_judged closed rules
          conditional := conditional_judged closed rules
          block := closed.advance rules.blockStatements
          blockStatements := lists depth rules
          statement := statement_judged closed rules }

end Rules

end Scriptlet.Grammar
