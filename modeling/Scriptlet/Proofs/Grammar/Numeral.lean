import Scriptlet.Proofs.Grammar.Uniform
import Scriptlet.Proofs.Grammar.Completeness
import Scriptlet.Proofs.Grammar.Whole

/-!
How a numeral behind signs is read. The signs are as many negations of the number, however many they
are. A numeral that cannot be read breaks the whole statement around it, and leaves one report.
-/

namespace Scriptlet

open Text Rule Grammar

/-- Minus signs, and then a numeral that was cut from this slice. -/
inductive SignedNumeral (slice : String) : Nat → List Token → Prop where
  | numeral {token : Token} : token.kind = .integer → token.slice = slice →
      SignedNumeral slice 0 [token]
  | sign {token : Token} {signs : Nat} {rest : List Token} : token.kind = .minus →
      SignedNumeral slice signs rest → SignedNumeral slice (signs + 1) (token :: rest)

def Expr.negated (expr : Expr) : (signs : Nat) → Expr
  | 0 => expr
  | signs + 1 => .unary .negate (expr.negated signs)

variable {slice : String} {signs : Nat} {tokens : List Token}

theorem spells_of_signed {value : Int64} (readable : Decimal.read? slice = some value)
    (signed : SignedNumeral slice signs tokens) :
    Spells (.expression .unary) tokens ((Expr.int value).negated signs) := by
  induction signed with
  | @numeral token isInteger same =>
      have spelled : Spells (.expression .atom) [token] (.int value) := by
        apply Spells.integer token value isInteger
        rw [same]
        exact readable
      exact spells_looser (by decide) spelled
  | @sign token _ _ isMinus _ induction => exact .negate token isMinus induction

section Unreadable

variable {mark : EndMark} {last : Token}

/-- The rule fails on the last token, with nothing but a report on the numeral. -/
def FailsOn {Value : Type} (rule : Nat → Rule Value) (mark : EndMark) (slice : String)
    (last : Token) (tokens : List Token) : Prop :=
  Always rule mark tokens none [.badInteger slice] [last]

/-- What a rule runs first fails the whole rule. -/
theorem fails_behind {First Value : Type} {rule : Nat → Rule Value} {first : Nat → Rule First}
    {ahead : List Token} (next : First → Nat → Rule Value) (bottom : rule 0 = tooDeep)
    (step : ∀ depth, rule (depth + 1) mark ahead =
      (first depth >>= fun value => next value depth) mark tokens)
    (fails : FailsOn first mark slice last tokens) : FailsOn rule mark slice last ahead := by
  intro depth outcome ran
  cases depth with
  | zero =>
      rw [bottom] at ran
      cases ran
  | succ depth =>
      have failed : FailsOn (fun depth => first depth >>= fun value => next value depth) mark slice
        last tokens := always_bind_failed fails
      rw [step] at ran
      exact failed depth outcome ran

theorem expression_fails (fails : FailsOn operand mark slice last tokens) (least : Precedence) :
    FailsOn (expression least) mark slice last tokens :=
  fails_behind (fun left => links least left) (expression.eq_1 least) (fun _ => rfl) fails

/-- Every sign hands on the failure of what is behind it. -/
theorem operand_fails (unreadable : Decimal.read? slice = none) (mark : EndMark)
    (signed : SignedNumeral slice signs tokens) :
    ∃ last, FailsOn operand mark slice last tokens := by
  induction signed with
  | @numeral token isInteger same =>
      refine ⟨token, ?_⟩
      intro depth outcome ran
      cases depth with
      | zero => cases ran
      | succ depth =>
          rw [operand, run_current_bind] at ran
          simp only [List.headD_cons, isInteger, integer, same, unreadable] at ran
          cases ran
          exact ⟨rfl, rfl, rfl⟩
  | @sign token _ rest isMinus _ induction =>
      rcases induction with ⟨last, fails⟩
      refine ⟨last, ?_⟩
      have inner := expression_fails fails .unary
      apply fails_behind (fun inner _ => pure (.unary .negate inner)) operand.eq_1 _ inner
      intro depth
      rw [operand, run_current_bind]
      simp only [List.headD_cons, isMinus, run_advance_bind, List.tail_cons]

theorem signed_begins (signed : SignedNumeral slice signs tokens) (mark : EndMark) :
    (tokens.headD mark.token).kind = .minus ∨ (tokens.headD mark.token).kind = .integer := by
  cases signed with
  | numeral isInteger => exact .inr isInteger
  | sign isMinus => exact .inl isMinus

theorem statement_fails (signed : SignedNumeral slice signs tokens)
    (fails : FailsOn operand mark slice last tokens) :
    FailsOn statement mark slice last tokens := by
  have inner := expression_fails fails .lowest
  apply fails_behind (fun value _ => do skip .semicolon; return .expr value) statement.eq_1 _ inner
  intro depth
  rw [statement, run_current_bind]
  rcases signed_begins signed mark with isMinus | isInteger
  · rw [isMinus]
  · rw [isInteger]

/-- Behind a statement that fails on its last token there is nothing left. -/
theorem pass_broken_at_last (start : List Token) (last : Token) : passBroken start [last] = [] := by
  rw [passBroken, recovered, Recovery.skipFrom]
  split
  · rfl
  · split
    · rfl
    · split
      · rfl
      · rfl

/-- A numeral that cannot be read is reported once, and there is no program. -/
theorem read_of_unreadable (unreadable : Decimal.read? slice = none)
    (signed : SignedNumeral slice signs tokens) (mark : EndMark) :
    readFrom mark tokens = ([], [.badInteger slice]) := by
  rcases operand_fails unreadable mark signed with ⟨last, fails⟩
  have inside : (tokens.headD mark.token).kind ≠ .endMark := by
    rcases signed_begins signed mark with isMinus | isInteger
    · rw [isMinus]
      decide
    · rw [isInteger]
      decide
  have statement := statement_fails signed fails
  have nothing : Always program mark [] (some []) [] [] := always_program_end rfl
  have whole := always_step program.eq_1 (fun depth => program_step depth inside) statement
    (fun _ => pass_broken_at_last tokens last) nothing
  exact read_from_of_always whole

end Unreadable

end Scriptlet
