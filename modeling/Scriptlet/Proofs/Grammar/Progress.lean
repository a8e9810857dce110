import Mathlib.Tactic.SplitIfs
import Scriptlet.Proofs.Grammar.Judgement

/-!
Every rule of the grammar only moves on, and fails only with a report.
-/

namespace Scriptlet

namespace Recovery

theorem skip_from_suffix (open_ : Int32) (ahead : List Token) :
    (skipFrom open_ ahead).2 <:+ ahead := by
  induction ahead generalizing open_ with
  | nil => exact List.suffix_refl []
  | cons token rest induction =>
      rw [skipFrom]
      split_ifs
      · exact List.suffix_refl _
      · exact List.suffix_refl _
      · exact List.suffix_refl _
      · exact (induction _).trans (List.suffix_cons token rest)

/-- The answer of skipping is positive on a closing brace only. -/
theorem skip_from_closed (open_ : Int32) (ahead : List Token)
    (closed : (skipFrom open_ ahead).1 = true) :
    ∃ token rest, (skipFrom open_ ahead).2 = token :: rest ∧ token.kind = .rightBrace := by
  induction ahead generalizing open_ with
  | nil => simp [skipFrom] at closed
  | cons token rest induction =>
      rw [skipFrom] at closed ⊢
      split_ifs with brace stops boundary
      · exact ⟨token, rest, rfl, brace.1⟩
      · rw [if_neg brace, if_pos stops] at closed
        cases closed
      · rw [if_neg brace, if_neg stops, if_pos boundary] at closed
        cases closed
      · rw [if_neg brace, if_neg stops, if_neg boundary] at closed
        exact induction _ closed

end Recovery

theorem Rule.accountable_recover (start : List Token) : Rule.Accountable (recover start) := by
  intro mark ahead outcome ran
  cases ran
  exact ⟨Recovery.skip_from_suffix _ ahead, nofun⟩

namespace Grammar

open Rule

theorem block_statements_account {depth : Nat}
    (rules : JudgedAt (fun _ rule => Accountable rule) depth) :
    Accountable (blockStatements (depth + 1)) := by
  rw [blockStatements]
  refine accountable_bind accountable_current fun token => ?_
  split
  · exact accountable_pure _
  · split
    · exact accountable_fail_here _
    · refine accountable_bind accountable_remaining fun start =>
        accountable_bind (accountable_attempt rules.statement) fun read => ?_
      cases read with
      | some first =>
          exact accountable_bind accountable_advance fun _ =>
            accountable_bind rules.blockStatements fun _ => accountable_pure _
      | none =>
          refine accountable_bind (accountable_recover start) fun closed => ?_
          split
          · exact rules.blockStatements
          · exact accountable_bind accountable_advance fun _ => rules.blockStatements

/-- The rules of this depth are answerable for where they stop and why they fail. -/
theorem rules_account (depth : Nat) : JudgedAt (fun _ rule => Accountable rule) depth :=
  rules_judged accountable_closed (fun _ rules => block_statements_account rules) depth

end Grammar

end Scriptlet
