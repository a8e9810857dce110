import Scriptlet.Proofs.Evaluation.Points

/-!
Induction on the points of a run with an outcome. Such a run does not go on for ever: each part
that is begun is smaller than what it is a part of, or it is the body of a function, in which calls
may nest less deep. So what follows at a point from the points after it holds wherever there is an
outcome.
-/

namespace Scriptlet

open Evaluation

/-- How much of the tree the task goes through. A call has its function's body from a value. -/
noncomputable def Task.size : Task → Nat
  | .expression expr => sizeOf expr
  | .expressions exprs => sizeOf exprs
  | .statement stmt => sizeOf stmt
  | .block _ rest => sizeOf rest
  | .call _ _ => 0

namespace Point

def RunsWithin (point : Point) (depth : Nat) : Prop :=
  match point.task with
  | .expression expr => ∃ outcome, expr.evaluate depth point.start = some outcome
  | .expressions exprs => ∃ outcome, evaluateAll exprs depth point.start = some outcome
  | .statement stmt => ∃ outcome, stmt.evaluate depth point.start = some outcome
  | .block last rest => ∃ outcome, Block.evaluateAfter last rest depth point.start = some outcome
  | .call callee values => ∃ outcome, callee.call values depth point.start = some outcome

theorem runs_of_terminates {point : Point} (terminates : point.Terminates) :
    ∃ depth, point.RunsWithin depth := by
  rcases point with ⟨task, start⟩
  cases task with
  | expression expr =>
      rcases expression_terminates_iff.mp terminates with ⟨_, _, depth, ran⟩
      exact ⟨depth, _, ran⟩
  | expressions exprs =>
      rcases expressions_terminate_iff.mp terminates with ⟨_, _, depth, ran⟩
      exact ⟨depth, _, ran⟩
  | statement stmt =>
      rcases statement_terminates_iff.mp terminates with ⟨_, _, depth, ran⟩
      exact ⟨depth, _, ran⟩
  | block last rest =>
      rcases block_terminates_iff.mp terminates with ⟨_, _, depth, ran⟩
      exact ⟨depth, _, ran⟩
  | call callee values =>
      rcases call_terminates_iff.mp terminates with ⟨_, _, depth, ran⟩
      exact ⟨depth, _, ran⟩

end Point

section Stages

variable {start middle : Evaluator} {depth : Nat}

theorem bind_eq_some {First Next : Type} {evaluation : Evaluation First}
    {next : First → Evaluation Next} {outcome : Next × Evaluator}
    (ran : (evaluation >>= next) start = some outcome) :
    ∃ result middle, evaluation start = some (result, middle) ∧
      next result middle = some outcome := by
  rcases Option.bind_eq_some_iff.mp ran with ⟨⟨result, middle⟩, ranFirst, ranNext⟩
  exact ⟨result, middle, ranFirst, ranNext⟩

/-- Behind a first stage that yields no signal, the next one runs, and no deeper. -/
theorem next_stage_runs {first : (depth : Nat) → Evaluation Value}
    {next : Value → Evaluation Value} {value : Value} {outcome : Value × Evaluator}
    (deepens : Deepens first) (ended : Ends first start value middle)
    (unsignalled : value.isSignal = false)
    (ran : ((first depth).andThen next) start = some outcome) :
    next value middle = some outcome := by
  rcases bind_eq_some ran with ⟨result, reached, ranFirst, ranNext⟩
  rcases ends_unique deepens ended ⟨depth, ranFirst⟩ with ⟨rfl, rfl⟩
  rw [if_neg (by rw [unsignalled]; exact Bool.false_ne_true)] at ranNext
  exact ranNext

theorem branch_runs {body : Block} {outcome : Value × Evaluator}
    (ran : branch (body.evaluate depth) start = some outcome) :
    Point.RunsWithin ⟨.block none body, branched start⟩ depth := by
  rw [run_branch] at ran
  rcases Option.map_eq_some_iff.mp ran with ⟨⟨result, inner⟩, ranBody, _⟩
  exact ⟨_, ranBody⟩

end Stages

/-- A part runs no deeper than the whole. It is smaller, or it is the body of a function, which is
entered by a call and runs less deep. -/
theorem begun_runs_within {point part : Point} {depth : Nat} (begins : BeginsPart point part)
    (runs : point.RunsWithin depth) :
    (part.RunsWithin depth ∧ part.task.size < point.task.size) ∨
      ∃ shallower < depth, part.RunsWithin shallower := by
  cases begins with
  | operand | left | ifThenCondition | ifElseCondition | callee | firstExpression | bound
  | returned | yielded | firstStatement =>
      rcases runs with ⟨_, ranWhole⟩
      rcases bind_eq_some ranWhole with ⟨_, _, ranFirst, _⟩
      exact .inl ⟨⟨_, ranFirst⟩, by simp +arith [Task.size]⟩
  | right ended unsignalled =>
      rcases runs with ⟨_, ranWhole⟩
      have ranNext := next_stage_runs (expression_deepens _) ended unsignalled ranWhole
      rcases bind_eq_some ranNext with ⟨_, _, ranSecond, _⟩
      exact .inl ⟨⟨_, ranSecond⟩, by simp +arith [Task.size]⟩
  | ifThenConsequence ended unsignalled truthy =>
      rcases runs with ⟨_, ranWhole⟩
      have ranNext := next_stage_runs (expression_deepens _) ended unsignalled ranWhole
      rw [if_pos truthy] at ranNext
      exact .inl ⟨branch_runs ranNext, by simp +arith [Task.size]⟩
  | ifElseConsequence ended unsignalled truthy =>
      rcases runs with ⟨_, ranWhole⟩
      have ranNext := next_stage_runs (expression_deepens _) ended unsignalled ranWhole
      rw [if_pos truthy] at ranNext
      exact .inl ⟨branch_runs ranNext, by simp +arith [Task.size]⟩
  | ifElseAlternative ended unsignalled untruthy =>
      rcases runs with ⟨_, ranWhole⟩
      have ranNext := next_stage_runs (expression_deepens _) ended unsignalled ranWhole
      rw [if_neg untruthy] at ranNext
      exact .inl ⟨branch_runs ranNext, by simp +arith [Task.size]⟩
  | arguments ended unsignalled =>
      rcases runs with ⟨_, ranWhole⟩
      have ranNext := next_stage_runs (expression_deepens _) ended unsignalled ranWhole
      rcases bind_eq_some ranNext with ⟨_, _, ranAll, _⟩
      exact .inl ⟨⟨_, ranAll⟩, by simp +arith [Task.size]⟩
  | call ended unsignalled endedAll =>
      rcases runs with ⟨_, ranWhole⟩
      have ranNext := next_stage_runs (expression_deepens _) ended unsignalled ranWhole
      rcases bind_eq_some ranNext with ⟨values, last, ranAll, ranCall⟩
      rcases ends_unique (expressions_deepen _) endedAll ⟨depth, ranAll⟩ with ⟨rfl, rfl⟩
      exact .inl ⟨⟨_, ranCall⟩, by simp +arith [Task.size]⟩
  | otherExpressions ended unsignalled =>
      rcases runs with ⟨_, ranWhole⟩
      rcases bind_eq_some ranWhole with ⟨value, middle, ranFirst, ranNext⟩
      rcases ends_unique (expression_deepens _) ended ⟨depth, ranFirst⟩ with ⟨rfl, rfl⟩
      rw [if_neg (by rw [unsignalled]; exact Bool.false_ne_true)] at ranNext
      rcases bind_eq_some ranNext with ⟨_, _, ranRest, _⟩
      exact .inl ⟨⟨_, ranRest⟩, by simp +arith [Task.size]⟩
  | otherStatements ended unsignalled =>
      rcases runs with ⟨_, ranWhole⟩
      rcases bind_eq_some ranWhole with ⟨value, middle, ranFirst, ranNext⟩
      rcases ends_unique (statement_deepens _) ended ⟨depth, ranFirst⟩ with ⟨rfl, rfl⟩
      rw [if_neg (by rw [unsignalled]; exact Bool.false_ne_true)] at ranNext
      exact .inl ⟨⟨_, ranNext⟩, by simp +arith [Task.size]⟩
  | body =>
      right
      rcases runs with ⟨_, ranWhole⟩
      cases depth with
      | zero => cases ranWhole
      | succ depth =>
          rcases Option.bind_eq_some_iff.mp ranWhole with ⟨_, ranThere, _⟩
          have ranWithin := (run_within _ _ _).symm.trans ranThere
          rcases Option.map_eq_some_iff.mp ranWithin with ⟨_, ranBody, _⟩
          exact ⟨depth, Nat.lt_succ_self depth, _, ranBody⟩

/-- What holds at a point as soon as it holds at the points that follow from it, holds at every
point with an outcome. -/
theorem terminating_induction {motive : Point → Prop}
    (step : ∀ point, (∀ part, BeginsPart point part → motive part) → motive point)
    {point : Point} (terminates : point.Terminates) : motive point := by
  rcases Point.runs_of_terminates terminates with ⟨depth, runs⟩
  induction depth using Nat.strongRecOn generalizing point with
  | ind depth shallower =>
      induction size : point.task.size using Nat.strongRecOn generalizing point with
      | ind size smaller =>
          subst size
          apply step
          intro part begins
          rcases begun_runs_within begins runs with ⟨runsPart, less⟩ | ⟨depth', less, runsPart⟩
          · exact smaller _ less (begun_terminates begins terminates) runsPart rfl
          · exact shallower depth' less (begun_terminates begins terminates) runsPart

end Scriptlet
