import Scriptlet.Proofs.Evaluation.Invariant
import Scriptlet.Proofs.Evaluation.Points

/-!
Invariants throughout a run. A point that is ready for an invariant leads to points that are ready
for it, so all points that a run goes through are. Whatever ends at one of them keeps the
invariant.
-/

namespace Scriptlet

open Evaluation

theorem Scope.own_of_bind_all {holds : Value → Prop} {parent : Option Handle} {names : List String}
    {values : List Value} (good : ∀ value ∈ values, holds value) {name : String} {value : Value}
    (bound : ((empty parent).bindAll names values).own name = some value) : holds value := by
  have together : List.Forall₂ (fun left right => left = right ∧ holds left) values values :=
    List.forall₂_same.mpr fun value member => ⟨rfl, good value member⟩
  exact (own_of_binds_alike
    (bind_all_binds_alike names (empty_binds_alike parent parent) together) name).2 value bound

namespace Invariant

variable (invariant : Invariant)

def Admits (size : Nat) (here : Handle) : Task → Prop
  | .expression _ | .expressions _ => invariant.readable size here
  | .statement _ => invariant.writable size here
  | .block last _ => invariant.writable size here ∧ ∀ value ∈ last, invariant.outcomes size value
  | .call callee values =>
      (∀ parameters body home, callee = .function parameters body home →
        invariant.readable size home) ∧
      ∀ value ∈ values, invariant.values size value

/-- The invariant holds of the store and of all that the task deals with. -/
structure Ready (point : Point) : Prop where
  stores : invariant.stores point.start.store
  admits : invariant.Admits point.start.store.size point.start.current point.task

variable {invariant}

/-- A block is ready to be run in a new scope. -/
theorem added_ready {store : Store} {home : Handle} {scope : Scope} {body : Block}
    (stores : invariant.stores store) (readable : invariant.readable store.size home)
    (link : scope.parent = some home)
    (own : ∀ name value, scope.own name = some value → invariant.values store.size value) :
    invariant.Ready ⟨.block none body, ⟨(store.add scope).2, store.size⟩⟩ := by
  obtain ⟨added, writable⟩ := invariant.add stores readable link own
  refine ⟨added, ?_, fun _ found => nomatch found⟩
  exact (store.size_add scope).symm ▸ writable

theorem branched_ready {start : Evaluator} {body : Block} (stores : invariant.stores start.store)
    (readable : invariant.readable start.store.size start.current) :
    invariant.Ready ⟨.block none body, branched start⟩ :=
  added_ready stores readable rfl fun _ _ bound => nomatch bound

theorem begun_ready {point part : Point} (ready : invariant.Ready point)
    (begins : BeginsPart point part) : invariant.Ready part := by
  obtain ⟨stores, admits⟩ := ready
  cases begins with
  | operand | left | ifThenCondition | ifElseCondition | callee | firstExpression =>
      exact ⟨stores, admits⟩
  | right ended unsignalled | arguments ended unsignalled | otherExpressions ended unsignalled =>
      obtain ⟨kept, _⟩ := expression_keeps stores admits ended
      exact ⟨kept.stores, kept.readable admits⟩
  | ifThenConsequence ended unsignalled chosen | ifElseConsequence ended unsignalled chosen
  | ifElseAlternative ended unsignalled chosen =>
      obtain ⟨kept, _⟩ := expression_keeps stores admits ended
      exact branched_ready kept.stores (kept.readable admits)
  | call ended unsignalled endedAll =>
      obtain ⟨kept, outcome⟩ := expression_keeps stores admits ended
      obtain ⟨keptAll, _, usable⟩ :=
        expressions_keep kept.stores (kept.readable admits) endedAll
      refine ⟨keptAll.stores, ?_, usable _ rfl⟩
      rintro parameters body home rfl
      exact invariant.home (invariant.outcomes_later keptAll.grown outcome)
  | bound | returned | yielded => exact ⟨stores, invariant.readable_of_writable admits⟩
  | firstStatement => exact ⟨stores, admits.1⟩
  | otherStatements ended unsignalled =>
      obtain ⟨kept, outcomes⟩ := statement_keeps stores admits.1 ended
      exact ⟨kept.stores, kept.writable admits.1, outcomes⟩
  | body =>
      exact added_ready stores (admits.1 _ _ _ rfl) (Scope.parent_bind_all _ _ _)
        fun _ _ => Scope.own_of_bind_all admits.2

theorem visited_ready {point reached : Point} (ready : invariant.Ready point)
    (visits : Visits point reached) : invariant.Ready reached := by
  induction visits with
  | refl => exact ready
  | tail _ begins induction => exact begun_ready induction begins

theorem point_keeps {point : Point} {results : List Value} {final : Evaluator}
    (ready : invariant.Ready point) (endedPoint : point.Ends results final) :
    invariant.Kept point.start final ∧
      ∀ value ∈ results, invariant.outcomes final.store.size value := by
  obtain ⟨task, start⟩ := point
  obtain ⟨stores, admits⟩ := ready
  cases task with
  | expression expr =>
      obtain ⟨value, ended, rfl⟩ := Point.expression_ends_iff.mp endedPoint
      obtain ⟨kept, outcome⟩ := expression_keeps stores admits ended
      exact ⟨kept, List.forall_mem_singleton.mpr outcome⟩
  | expressions exprs =>
      obtain ⟨values, ended, rfl⟩ := Point.expressions_end_iff.mp endedPoint
      obtain ⟨kept, signal, usable⟩ := expressions_keep stores admits ended
      cases values with
      | error found => exact ⟨kept, List.forall_mem_singleton.mpr (signal found rfl)⟩
      | ok values =>
          exact ⟨kept, fun value member => invariant.outcome_of_value (usable _ rfl value member)⟩
  | statement stmt =>
      obtain ⟨value, ended, rfl⟩ := Point.statement_ends_iff.mp endedPoint
      obtain ⟨kept, outcomes⟩ := statement_keeps stores admits ended
      exact ⟨kept, fun value member => outcomes value (Option.mem_toList.mp member)⟩
  | block last rest =>
      obtain ⟨value, ended, rfl⟩ := Point.block_ends_iff.mp endedPoint
      obtain ⟨kept, outcomes⟩ := block_keeps stores admits.1 admits.2 ended
      exact ⟨kept, fun value member => outcomes value (Option.mem_toList.mp member)⟩
  | call callee values =>
      obtain ⟨value, ended, rfl⟩ := Point.call_ends_iff.mp endedPoint
      obtain ⟨kept, outcome⟩ := call_keeps stores admits.1 admits.2 ended
      exact ⟨kept, List.forall_mem_singleton.mpr outcome⟩

end Invariant

end Scriptlet
