import Scriptlet.Evaluation

/-!
How deep calls nest. Wherever an evaluation has an outcome, it has the same one with calls that may
nest deeper.
-/

namespace Scriptlet.Evaluation

variable {Result Next : Type}

section Runs

variable (start : Evaluator)

theorem run_bind (evaluation : Evaluation Result) (next : Result → Evaluation Next) :
    (evaluation >>= next) start =
      (evaluation start).bind fun reached => next reached.1 reached.2 := rfl

theorem run_within (scope : Handle) (body : Evaluation Result) :
    within scope body start = (body ⟨start.store, scope⟩).map fun reached =>
      (reached.1, ⟨reached.2.store, start.current⟩) := by
  change (body ⟨start.store, scope⟩).bind _ = _
  cases body ⟨start.store, scope⟩ <;> rfl

theorem run_branch (body : Evaluation (Option Value)) :
    branch body start =
      (body ⟨(start.store.addChild start.current).2, start.store.size⟩).map fun reached =>
        (reached.1.getD .null, ⟨reached.2.store, start.current⟩) := by
  change (within start.store.size body >>= fun value => pure (value.getD .null))
    ⟨(start.store.addChild start.current).2, start.current⟩ = _
  rw [run_bind, run_within]
  cases body ⟨(start.store.addChild start.current).2, start.store.size⟩ <;> rfl

end Runs

/-- Wherever the shallow evaluation has an outcome, the deep one has the same. -/
def Extends (shallow deep : Evaluation Result) : Prop :=
  ∀ start outcome, shallow start = some outcome → deep start = some outcome

section Extends

theorem extends_refl (evaluation : Evaluation Result) : Extends evaluation evaluation :=
  fun _ _ ran => ran

theorem bind_extends {shallow deep : Evaluation Result}
    {shallowNext deepNext : Result → Evaluation Next} (first : Extends shallow deep)
    (second : ∀ result, Extends (shallowNext result) (deepNext result)) :
    Extends (shallow >>= shallowNext) (deep >>= deepNext) := by
  intro start outcome ran
  rw [run_bind] at ran ⊢
  obtain ⟨reached, ranFirst, ranSecond⟩ := Option.bind_eq_some_iff.mp ran
  rw [first start reached ranFirst]
  exact second reached.1 reached.2 outcome ranSecond

theorem within_extends {shallow deep : Evaluation Result} (scope : Handle)
    (body : Extends shallow deep) : Extends (within scope shallow) (within scope deep) :=
  bind_extends (extends_refl _) fun _ => bind_extends (extends_refl _) fun _ =>
    bind_extends body fun _ => extends_refl _

theorem and_then_extends {shallow deep : Evaluation Value}
    {shallowNext deepNext : Value → Evaluation Value} (first : Extends shallow deep)
    (second : ∀ value, Extends (shallowNext value) (deepNext value)) :
    Extends (shallow.andThen shallowNext) (deep.andThen deepNext) := by
  refine bind_extends first fun value => ?_
  split
  · exact extends_refl _
  · exact second value

theorem branch_extends {shallow deep : Evaluation (Option Value)} (body : Extends shallow deep) :
    Extends (branch shallow) (branch deep) :=
  bind_extends (extends_refl _) fun _ => bind_extends (extends_refl _) fun inner =>
    bind_extends (within_extends inner body) fun _ => extends_refl _

def CallsExtend (shallow deep : Application) : Prop :=
  ∀ callee values, Extends (shallow callee values) (deep callee values)

variable {shallow deep : Application}

mutual

theorem expression_extends (calls : CallsExtend shallow deep) :
    (expr : Expr) → Extends (expression shallow expr) (expression deep expr)
  | .name _ | .int _ | .bool _ | .function _ _ => extends_refl _
  | .unary _ operand => and_then_extends (expression_extends calls operand) fun _ => extends_refl _
  | .binary left _ right =>
      and_then_extends (expression_extends calls left) fun _ =>
        and_then_extends (expression_extends calls right) fun _ => extends_refl _
  | .ifThen condition consequence => by
      refine and_then_extends (expression_extends calls condition) fun value => ?_
      split
      · exact branch_extends (block_extends calls none consequence)
      · exact extends_refl _
  | .ifElse condition consequence alternative => by
      refine and_then_extends (expression_extends calls condition) fun value => ?_
      split
      · exact branch_extends (block_extends calls none consequence)
      · exact branch_extends (block_extends calls none alternative)
  | .call callee arguments => by
      refine and_then_extends (expression_extends calls callee) fun value =>
        bind_extends (expressions_extend calls arguments) fun values => ?_
      cases values with
      | error signal => exact extends_refl _
      | ok values => exact calls value values

theorem expressions_extend (calls : CallsExtend shallow deep) :
    (exprs : List Expr) → Extends (expressions shallow exprs) (expressions deep exprs)
  | [] => extends_refl _
  | first :: rest => by
      refine bind_extends (expression_extends calls first) fun value => ?_
      split
      · exact extends_refl _
      · exact bind_extends (expressions_extend calls rest) fun _ => extends_refl _

theorem statement_extends (calls : CallsExtend shallow deep) :
    (stmt : Stmt) → Extends (statement shallow stmt) (statement deep stmt)
  | .bind _ value | .return value | .expr value =>
      bind_extends (expression_extends calls value) fun _ => extends_refl _

theorem block_extends (calls : CallsExtend shallow deep) (last : Option Value) :
    (stmts : List Stmt) → Extends (block shallow last stmts) (block deep last stmts)
  | [] => extends_refl _
  | first :: rest => by
      refine bind_extends (statement_extends calls first) fun value => ?_
      split
      · exact extends_refl _
      · exact block_extends calls value rest

end

theorem call_extends (calls : CallsExtend shallow deep) :
    CallsExtend (call shallow) (call deep) := by
  intro callee values
  cases callee with
  | function parameters body home =>
      exact bind_extends (extends_refl _) fun scope =>
        bind_extends (within_extends scope (block_extends calls none body)) fun _ =>
          extends_refl _
  | _ => exact extends_refl _

theorem call_within_extends (depth : Nat) :
    CallsExtend (callWithin depth) (callWithin (depth + 1)) := by
  induction depth with
  | zero =>
      intro _ _ _ _ ran
      cases ran
  | succ depth induction => exact call_extends induction

end Extends

end Scriptlet.Evaluation
