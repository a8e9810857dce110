import Scriptlet.Proofs.Grammar.Comparison

/-!
How deep the rules of the grammar call each other. A greater depth changes no outcome.
-/

namespace Scriptlet.Grammar

open Rule

theorem extends_compares : Compares Extends id where
  kind _ := rfl
  slice _ := rfl
  pure _ := extends_refl _
  bind := bind_extends
  attempt := attempt_extends
  current := bind_extends (extends_refl _)
  peek := bind_extends (extends_refl _)
  remaining next := bind_extends (extends_refl _) (by simpa using next)
  advance := extends_refl _
  recover start := by
    rw [List.map_id]
    exact extends_refl _
  unexpectedNext _ _ := extends_refl _
  unexpectedHere _ _ := extends_refl _
  noRule _ := extends_refl _
  badInteger _ := extends_refl _

/-- One more level of depth changes no outcome of a rule. -/
theorem rules_deepen (depth : Nat) : ComparedAt Extends depth (depth + 1) := by
  induction depth with
  | zero => constructor <;> intros <;> exact too_deep_extends _
  | succ depth rules => exact rules_compare extends_compares rules

theorem program_deepens (depth : Nat) : Extends (program depth) (program (depth + 1)) :=
  (rules_deepen depth).program

end Scriptlet.Grammar
