import Scriptlet.Proofs.Evaluation.Ends
import Scriptlet.Proofs.Evaluation.Pairing

/-!
Every evaluation agrees with itself under every pairing that lets it look up the names it reads. The
induction is on the tree for one depth of calls, and on the depth for the calls in it.
-/

namespace Scriptlet.Pairing

open Evaluation

variable {pairing : Pairing} {Result Result' : Type} {results : Nat → Result → Result' → Prop}

def Calls (pairing : Pairing) (apply : Application) : Prop :=
  ∀ size here there callee callee' values values',
    SameCallee pairing.reads (pairing.readable size) callee callee' →
      List.Forall₂ (pairing.values size) values values' →
      pairing.Agree pairing.outcomes size here there (apply callee values) (apply callee' values')

variable {apply : Application}

section Statements

variable {size : Nat} {here there : Handle} {expr : Expr}
  (evaluated : pairing.Agree pairing.outcomes size here there (expression apply expr)
    (expression apply expr))

include evaluated

theorem bind_agrees {name : String}
    (bound : ∀ later value value', size ≤ later → pairing.values later value value' →
      pairing.Agree (fun _ _ _ => True) later here there (bindName name value)
        (bindName name value')) :
    pairing.Agree pairing.Yields size here there (statement apply (.bind name expr))
      (statement apply (.bind name expr)) := by
  refine agree_bind evaluated fun later value value' grown together =>
    agree_unless_signal together ?_ fun usable => ?_
  · exact agree_pure fun _ grown' => .some (pairing.outcomes_later grown' together)
  · exact agree_bind (bound later value value' grown usable) fun _ _ _ _ _ =>
      agree_pure fun _ _ => .none

theorem return_agrees :
    pairing.Agree pairing.Yields size here there (statement apply (.return expr))
      (statement apply (.return expr)) := by
  refine agree_bind evaluated fun later value value' _ together =>
    agree_pure fun _ grown => .some ?_
  rw [← (pairing.alike together).same_signal]
  split
  · exact pairing.outcomes_later grown together
  · rename_i unsignalled
    have usable := pairing.value_of_outcome (eq_false_of_ne_true unsignalled) together
    exact pairing.outcomes_later grown (pairing.returned usable)

theorem expr_agrees :
    pairing.Agree pairing.Yields size here there (statement apply (.expr expr))
      (statement apply (.expr expr)) :=
  agree_bind evaluated fun _ _ _ _ together =>
    agree_pure fun _ grown => .some (pairing.outcomes_later grown together)

end Statements

mutual

theorem expression_agrees (calls : pairing.Calls apply) (size : Nat) {here there : Handle}
    (readable : pairing.readable size here there) :
    (expr : Expr) → (named : ∀ name ∈ expr.names, pairing.reads name) →
      pairing.Agree pairing.outcomes size here there (expression apply expr)
        (expression apply expr)
  | .name name, named => by
      refine agree_bind (agree_lookup readable (named name List.mem_cons_self))
        fun later value value' _ yields => ?_
      refine agree_pure fun final grown => ?_
      cases yields with
      | none => exact pairing.fault final _
      | some together => exact pairing.outcomes_later grown together
  | .int value, _ => agree_pure fun later _ => pairing.outcome_of_value (pairing.int later value)
  | .bool value, _ => agree_pure fun later _ => pairing.outcome_of_value (pairing.bool later value)
  | .unary op operand, named => by
      refine agree_and_then (expression_agrees calls size readable operand named)
        fun _ value value' _ together => agree_pure fun _ _ => ?_
      rw [← (pairing.values_alike together).same_unary op]
      exact pairing.computed (op.apply_computed value)
  | .binary left op right, named => by
      obtain ⟨lefts, rights⟩ := List.forall_mem_append.mp named
      refine agree_and_then (expression_agrees calls size readable left lefts)
        fun later value value' grown together => ?_
      refine agree_and_then
        (expression_agrees calls later (pairing.readable_later grown readable) right rights)
        fun _ other other' grown' together' => agree_pure fun _ _ => ?_
      rw [← (pairing.values_alike together).same_binary (pairing.values_alike together') op]
      exact pairing.computed (op.apply_computed value other)
  | .ifThen condition consequence, named => by
      obtain ⟨conditions, consequences⟩ := List.forall_mem_append.mp named
      refine agree_and_then (expression_agrees calls size readable condition conditions)
        fun later value value' grown together => ?_
      rw [← (pairing.values_alike together).same_truth]
      split
      · exact agree_branch (pairing.readable_later grown readable)
          fun even inner inner' _ writable =>
            block_agrees calls even writable .none consequence consequences
      · exact agree_pure fun final _ => pairing.outcome_of_value (pairing.null final)
  | .ifElse condition consequence alternative, named => by
      obtain ⟨conditions, branches⟩ := List.forall_mem_append.mp named
      obtain ⟨consequences, alternatives⟩ := List.forall_mem_append.mp branches
      refine agree_and_then (expression_agrees calls size readable condition conditions)
        fun later value value' grown together => ?_
      rw [← (pairing.values_alike together).same_truth]
      split
      · exact agree_branch (pairing.readable_later grown readable)
          fun even inner inner' _ writable =>
            block_agrees calls even writable .none consequence consequences
      · exact agree_branch (pairing.readable_later grown readable)
          fun even inner inner' _ writable =>
            block_agrees calls even writable .none alternative alternatives
  | .function parameters body, named => by
      refine agree_bind (agree_current readable) fun _ home home' _ readable' =>
        agree_pure fun _ grown => ?_
      exact pairing.outcome_of_value
        (pairing.function parameters named (pairing.readable_later grown readable'))
  | .call callee arguments, named => by
      obtain ⟨callees, rest⟩ := List.forall_mem_append.mp named
      refine agree_and_then (expression_agrees calls size readable callee callees)
        fun later value value' grown together => ?_
      refine agree_bind
        (expressions_agree calls later (pairing.readable_later grown readable) arguments rest)
        fun even values values' grown' arguments => ?_
      cases arguments with
      | error signal => exact agree_pure fun _ grown'' => pairing.outcomes_later grown'' signal
      | ok arguments =>
          have callees := pairing.callee
            (pairing.outcome_of_value (pairing.values_later grown' together))
          exact calls even _ _ value value' _ _ callees arguments

theorem expressions_agree (calls : pairing.Calls apply) (size : Nat) {here there : Handle}
    (readable : pairing.readable size here there) :
    (exprs : List Expr) → (named : ∀ name ∈ expressionNames exprs, pairing.reads name) →
      pairing.Agree pairing.Arguments size here there (expressions apply exprs)
        (expressions apply exprs)
  | [], _ => agree_pure fun _ _ => .ok .nil
  | first :: rest, named => by
      obtain ⟨firsts, rests⟩ := List.forall_mem_append.mp named
      refine agree_bind (expression_agrees calls size readable first firsts)
        fun later value value' grown together => agree_unless_signal together ?_ fun usable => ?_
      · exact agree_pure fun _ grown' => .error (pairing.outcomes_later grown' together)
      · refine agree_bind
          (expressions_agree calls later (pairing.readable_later grown readable) rest rests)
          fun even values values' grown' arguments => agree_pure fun final grown'' => ?_
        cases arguments with
        | error signal => exact .error (pairing.outcomes_later grown'' signal)
        | ok arguments =>
            exact .ok (.cons (pairing.values_later (Nat.le_trans grown' grown'') usable)
              (arguments.imp fun _ _ => pairing.values_later grown''))

theorem statement_agrees (calls : pairing.Calls apply) (size : Nat) {here there : Handle}
    (writable : pairing.writable size here there) :
    (stmt : Stmt) → (named : ∀ name ∈ stmt.names, pairing.reads name) →
      pairing.Agree pairing.Yields size here there (statement apply stmt) (statement apply stmt)
  | .bind name value, named => by
      have readable := pairing.readable_of_writable writable
      refine bind_agrees (expression_agrees calls size readable value named)
        fun later value value' grown usable => ?_
      exact agree_bind_name (pairing.writable_later grown writable) usable name
  | .return value, named =>
      return_agrees
        (expression_agrees calls size (pairing.readable_of_writable writable) value named)
  | .expr value, named =>
      expr_agrees (expression_agrees calls size (pairing.readable_of_writable writable) value named)

theorem block_agrees (calls : pairing.Calls apply) (size : Nat) {here there : Handle}
    (writable : pairing.writable size here there) {last last' : Option Value}
    (lasts : pairing.Yields size last last') :
    (stmts : List Stmt) → (named : ∀ name ∈ statementNames stmts, pairing.reads name) →
      pairing.Agree pairing.Yields size here there (block apply last stmts)
        (block apply last' stmts)
  | [], _ => agree_pure fun _ grown => rel_mono lasts fun _ _ => pairing.outcomes_later grown
  | first :: rest, named => by
      obtain ⟨firsts, rests⟩ := List.forall_mem_append.mp named
      refine agree_bind (statement_agrees calls size writable first firsts)
        fun later value value' grown yields => ?_
      -- Values that go together are alike, so both blocks go on or both stop here.
      have signals : value.any Value.isSignal = value'.any Value.isSignal := by
        cases yields with
        | none => rfl
        | some together => exact (pairing.alike together).same_signal
      rw [← signals]
      split
      · exact agree_pure fun _ grown' => rel_mono yields fun _ _ => pairing.outcomes_later grown'
      · exact block_agrees calls later (pairing.writable_later grown writable) yields rest rests

end

theorem call_agrees (calls : pairing.Calls apply) : pairing.Calls (call apply) := by
  intro size here there callee callee' values values' callees together
  cases callees with
  | function parameters body named homes =>
      refine agree_bind (agree_add_scope homes (Scope.parent_bind_all _ _ _)
        (Scope.parent_bind_all _ _ _) fun later grown => Scope.bind_all_binds_alike parameters
          (Scope.empty_binds_alike _ _) (together.imp fun _ _ => pairing.values_later grown))
        fun later inner inner' grown writable => ?_
      refine agree_bind (agree_within inner inner'
        (block_agrees calls later writable .none body named)) fun _ value value' _ yields =>
          agree_pure fun final grown' => pairing.unwrap ?_
      cases yields with
      | none => exact pairing.outcome_of_value (pairing.null final)
      | some together => exact pairing.outcomes_later grown' together
  | other same other =>
      have fault (callee : Value) (other : callee.type ≠ .function) (values : List Value) :
          call apply callee values = pure (Fault.notFunction callee.type).value := by
        cases callee <;> first | rfl | exact absurd rfl other
      rw [fault callee other, fault callee' (same ▸ other), ← same]
      exact agree_pure fun final _ => pairing.fault final _

theorem call_within_agrees (depth : Nat) : pairing.Calls (callWithin depth) := by
  induction depth with
  | zero => exact fun _ _ _ _ _ _ _ _ _ _ _ _ _ => .none
  | succ depth induction => exact call_agrees induction

section Ends

variable {left : (depth : Nat) → Evaluation Result} {right : (depth : Nat) → Evaluation Result'}
  {store store' : Store} {here there : Handle}
  (agree : ∀ depth, pairing.Agree results store.size here there (left depth) (right depth))
  (stores : pairing.stores store store')

include agree stores

theorem ends_right {result : Result} {final : Evaluator}
    (ended : Ends left ⟨store, here⟩ result final) :
    ∃ result' final', Ends right ⟨store', there⟩ result' final' ∧
      pairing.Meet results store.size here there (result, final) (result', final') := by
  obtain ⟨depth, ran⟩ := ended
  have both := agree depth store store' stores (Nat.le_refl _)
  rw [ran] at both
  generalize ran' : right depth ⟨store', there⟩ = outcome at both
  cases both with
  | some met => exact ⟨_, _, ⟨depth, ran'⟩, met⟩

theorem ends_left {result' : Result'} {final' : Evaluator}
    (ended : Ends right ⟨store', there⟩ result' final') :
    ∃ result final, Ends left ⟨store, here⟩ result final ∧
      pairing.Meet results store.size here there (result, final) (result', final') := by
  obtain ⟨depth, ran⟩ := ended
  have both := agree depth store store' stores (Nat.le_refl _)
  rw [ran] at both
  generalize ran' : left depth ⟨store, here⟩ = outcome at both
  cases both with
  | some met => exact ⟨_, _, ⟨depth, ran'⟩, met⟩

theorem terminates_iff :
    Terminates left ⟨store, here⟩ ↔ Terminates right ⟨store', there⟩ := by
  constructor
  · rintro ⟨result, final, ended⟩
    obtain ⟨result', final', ended', _⟩ := ends_right agree stores ended
    exact ⟨result', final', ended'⟩
  · rintro ⟨result', final', ended⟩
    obtain ⟨result, final, ended', _⟩ := ends_left agree stores ended
    exact ⟨result, final, ended'⟩

theorem ends_meet (deepens : Deepens right) {result : Result} {result' : Result'}
    {final final' : Evaluator} (ended : Ends left ⟨store, here⟩ result final)
    (ended' : Ends right ⟨store', there⟩ result' final') :
    pairing.Meet results store.size here there (result, final) (result', final') := by
  obtain ⟨other, reached, endedOther, met⟩ := ends_right agree stores ended
  obtain ⟨rfl, rfl⟩ := ends_unique deepens endedOther ended'
  exact met

end Ends

end Scriptlet.Pairing
