import Scriptlet.Proofs.Evaluation.Frame
import Scriptlet.Proofs.Evaluation.Points

/-!
A signal ends everything around it up to the next call. Wherever an expression stands in a block,
the signal that it yields is what the block yields, and nothing is bound any more. What evaluation
would have come to behind the signal has no part in this and may be exchanged for anything else.
-/

namespace Scriptlet

open Evaluation

def Task.IsCall : Task → Prop
  | .call _ _ => True
  | .expression _ | .expressions _ | .statement _ | .block _ _ => False

def BeginsInside (point part : Point) : Prop :=
  BeginsPart point part ∧ ¬point.task.IsCall ∧ ¬part.task.IsCall

/-- Evaluation gets from the one point to the other within the tree, without making a call between
them. All that is evaluated on the way yields no signal. -/
def Inside : Point → Point → Prop := Relation.ReflTransGen BeginsInside

/-- The task yields this signal and leaves this store, back in the scope that it started in. -/
def Point.Stops (point : Point) (signal : Value) (store : Store) : Prop :=
  let final : Evaluator := ⟨store, point.start.current⟩
  match point.task with
  | .expression expr => Evaluation.Ends expr.evaluate point.start signal final
  | .expressions exprs => Evaluation.Ends (evaluateAll exprs) point.start (.error signal) final
  | .statement stmt => Evaluation.Ends stmt.evaluate point.start (some signal) final
  | .block last rest =>
      Evaluation.Ends (Block.evaluateAfter last rest) point.start (some signal) final
  | .call callee values => Evaluation.Ends (callee.call values) point.start signal final

section Stops

variable {point part : Point} {signal : Value} {store : Store}

theorem expression_stops {expr : Expr} {reached final : Evaluator}
    (ended : Ends expr.evaluate reached signal final) :
    Point.Stops ⟨.expression expr, reached⟩ signal final.store := by
  have same : final.current = reached.current := (expression_preserves_store ended).1
  simp only [Point.Stops, ← same]
  exact ended

/-- What stops the block of a branch stops the branch, which returns to the scope around it. -/
theorem branch_stops {start middle : Evaluator} {body : Block}
    (same : middle.current = start.current)
    (stops : Point.Stops ⟨.block none body, branched middle⟩ signal store) :
    Evaluation.Ends (fun depth => branch (body.evaluate depth)) middle signal
      ⟨store, start.current⟩ := by
  rw [← same]
  exact ends_branch_iff.mpr ⟨_, _, stops, rfl, rfl⟩

/-- What stops a part stops the whole, with the same signal and the same store. -/
theorem begun_stops (begins : BeginsInside point part) (signalled : signal.isSignal = true)
    (stops : part.Stops signal store) : point.Stops signal store := by
  rcases begins with ⟨begins, notInCall, noCall⟩
  cases begins with
  | operand => exact unary_ends_iff.mpr ⟨_, _, stops, by simp [signalled]⟩
  | left => exact binary_ends_iff.mpr ⟨_, _, stops, by simp [signalled]⟩
  | right ended unsignalled =>
      have same := (expression_preserves_store ended).1
      simp only [Point.Stops, same] at stops
      refine binary_ends_iff.mpr ⟨_, _, ended, ?_⟩
      simp only [unsignalled]
      exact ⟨_, _, stops, by simp [signalled]⟩
  | ifThenCondition => exact if_then_ends_iff.mpr ⟨_, _, stops, by simp [signalled]⟩
  | ifThenConsequence ended unsignalled truthy =>
      have same := (expression_preserves_store ended).1
      refine if_then_ends_iff.mpr ⟨_, _, ended, ?_⟩
      simp only [unsignalled, truthy]
      exact branch_stops same stops
  | ifElseCondition => exact if_else_ends_iff.mpr ⟨_, _, stops, by simp [signalled]⟩
  | ifElseConsequence ended unsignalled truthy =>
      have same := (expression_preserves_store ended).1
      refine if_else_ends_iff.mpr ⟨_, _, ended, ?_⟩
      simp only [unsignalled, truthy]
      exact branch_stops same stops
  | ifElseAlternative ended unsignalled untruthy =>
      have same := (expression_preserves_store ended).1
      refine if_else_ends_iff.mpr ⟨_, _, ended, ?_⟩
      simp only [unsignalled, untruthy]
      exact branch_stops same stops
  | callee => exact call_ends_iff.mpr ⟨_, _, stops, by simp [signalled]⟩
  | arguments ended unsignalled =>
      have same := (expression_preserves_store ended).1
      simp only [Point.Stops, same] at stops
      refine call_ends_iff.mpr ⟨_, _, ended, ?_⟩
      simp only [unsignalled]
      exact ⟨_, _, stops, rfl, rfl⟩
  | call => exact absurd trivial noCall
  | firstExpression => exact expressions_end_iff.mpr ⟨_, _, stops, by simp [signalled]⟩
  | otherExpressions ended unsignalled =>
      have same := (expression_preserves_store ended).1
      simp only [Point.Stops, same] at stops
      refine expressions_end_iff.mpr ⟨_, _, ended, ?_⟩
      simp only [unsignalled]
      exact ⟨_, stops, rfl⟩
  | bound => exact bind_ends_iff.mpr ⟨_, _, stops, by simp [signalled]⟩
  | returned => exact return_ends_iff.mpr ⟨_, stops, by simp [signalled]⟩
  | yielded => exact expr_ends_iff.mpr ⟨_, stops, rfl⟩
  | firstStatement => exact block_ends_iff.mpr ⟨_, _, stops, by simp [signalled]⟩
  | otherStatements ended unsignalled =>
      have same := (statement_binds_only ended).1
      simp only [Point.Stops, same] at stops
      refine block_ends_iff.mpr ⟨_, _, ended, ?_⟩
      simp only [unsignalled]
      exact stops
  | body => exact absurd trivial notInCall

theorem inside_stops (inside : Inside point part) (signalled : signal.isSignal = true)
    (stops : part.Stops signal store) : point.Stops signal store := by
  induction inside using Relation.ReflTransGen.head_induction_on with
  | refl => exact stops
  | head begins _ induction => exact begun_stops begins signalled induction

end Stops

mutual

/-- The expressions are the same in all that evaluation comes to when it starts here. A part behind
the first one counts only where the first one ends and yields no signal. -/
inductive SameExpr : Evaluator → Expr → Expr → Prop where
  | refl {start : Evaluator} (expr : Expr) : SameExpr start expr expr
  | unary {start : Evaluator} {op : UnaryOp} {operand operand' : Expr}
      (operands : SameExpr start operand operand') :
      SameExpr start (.unary op operand) (.unary op operand')
  | binary {start : Evaluator} {op : BinaryOp} {left left' right right' : Expr}
      (lefts : SameExpr start left left')
      (rights : ∀ value middle, Ends left.evaluate start value middle → value.isSignal = false →
        SameExpr middle right right') :
      SameExpr start (.binary left op right) (.binary left' op right')
  | ifThen {start : Evaluator} {condition condition' : Expr} {consequence consequence' : Block}
      (conditions : SameExpr start condition condition')
      (consequences : ∀ value middle, Ends condition.evaluate start value middle →
        value.isSignal = false → value.truthy →
          SameBlock (branched middle) consequence consequence') :
      SameExpr start (.ifThen condition consequence) (.ifThen condition' consequence')
  | ifElse {start : Evaluator} {condition condition' : Expr}
      {consequence consequence' alternative alternative' : Block}
      (conditions : SameExpr start condition condition')
      (consequences : ∀ value middle, Ends condition.evaluate start value middle →
        value.isSignal = false → value.truthy →
          SameBlock (branched middle) consequence consequence')
      (alternatives : ∀ value middle, Ends condition.evaluate start value middle →
        value.isSignal = false → ¬value.truthy →
          SameBlock (branched middle) alternative alternative') :
      SameExpr start (.ifElse condition consequence alternative)
        (.ifElse condition' consequence' alternative')
  | call {start : Evaluator} {callee callee' : Expr} {arguments arguments' : List Expr}
      (callees : SameExpr start callee callee')
      (lists : ∀ value middle, Ends callee.evaluate start value middle → value.isSignal = false →
        SameExprs middle arguments arguments') :
      SameExpr start (.call callee arguments) (.call callee' arguments')

inductive SameExprs : Evaluator → List Expr → List Expr → Prop where
  | nil {start : Evaluator} : SameExprs start [] []
  | cons {start : Evaluator} {first first' : Expr} {rest rest' : List Expr}
      (firsts : SameExpr start first first')
      (rests : ∀ value middle, Ends first.evaluate start value middle → value.isSignal = false →
        SameExprs middle rest rest') :
      SameExprs start (first :: rest) (first' :: rest')

inductive SameStmt : Evaluator → Stmt → Stmt → Prop where
  | bind {start : Evaluator} {name : String} {expr expr' : Expr}
      (exprs : SameExpr start expr expr') : SameStmt start (.bind name expr) (.bind name expr')
  | return {start : Evaluator} {expr expr' : Expr} (exprs : SameExpr start expr expr') :
      SameStmt start (.return expr) (.return expr')
  | expr {start : Evaluator} {expr expr' : Expr} (exprs : SameExpr start expr expr') :
      SameStmt start (.expr expr) (.expr expr')

inductive SameBlock : Evaluator → Block → Block → Prop where
  | nil {start : Evaluator} : SameBlock start [] []
  | cons {start : Evaluator} {first first' : Stmt} {rest rest' : Block}
      (firsts : SameStmt start first first')
      (rests : ∀ value middle, Ends first.evaluate start value middle →
        value.any Value.isSignal = false → SameBlock middle rest rest') :
      SameBlock start (first :: rest) (first' :: rest')

end

namespace Evaluation

def EndsAlike {Result : Type} (start : Evaluator)
    (evaluation other : (depth : Nat) → Evaluation Result) : Prop :=
  ∀ result final, Ends evaluation start result final ↔ Ends other start result final

/-- Two evaluations in stages end alike when their first stages do and whatever the first stage has
come to, the rests do. -/
theorem staged_alike {First Result : Type} {start : Evaluator}
    {whole whole' : (depth : Nat) → Evaluation Result}
    {first first' : (depth : Nat) → Evaluation First}
    {rest rest' : First → Evaluator → Result → Evaluator → Prop}
    (stages : ∀ result final, Ends whole start result final ↔
      ∃ value middle, Ends first start value middle ∧ rest value middle result final)
    (stages' : ∀ result final, Ends whole' start result final ↔
      ∃ value middle, Ends first' start value middle ∧ rest' value middle result final)
    (firsts : EndsAlike start first first')
    (rests : ∀ value middle, Ends first start value middle → ∀ result final,
      rest value middle result final ↔ rest' value middle result final) :
    EndsAlike start whole whole' := by
  intro result final
  rw [stages, stages']
  refine exists_congr fun value => exists_congr fun middle => ?_
  rw [← firsts value middle]
  exact and_congr_right fun ended => rests value middle ended result final

/-- Nothing follows a signal, so that the rests need to be alike only behind other values. -/
theorem alike_behind_signal {stopped : Bool} {halt rest rest' : Prop}
    (rests : stopped = false → (rest ↔ rest')) :
    (if stopped = true then halt else rest) ↔ (if stopped = true then halt else rest') := by
  cases stopped with
  | true => exact Iff.rfl
  | false => exact rests rfl

theorem branches_alike {start : Evaluator} {body other : Block}
    (bodies : EndsAlike (branched start) body.evaluate other.evaluate) :
    EndsAlike start (fun depth => branch (body.evaluate depth))
      (fun depth => branch (other.evaluate depth)) := by
  intro value final
  rw [ends_branch_iff, ends_branch_iff]
  refine exists_congr fun result => exists_congr fun inner => ?_
  exact and_congr_left fun _ => bodies result inner

mutual

theorem expression_ends_alike {start : Evaluator} {expr other : Expr}
    (same : SameExpr start expr other) : EndsAlike start expr.evaluate other.evaluate := by
  match same with
  | .refl _ => exact fun _ _ => Iff.rfl
  | .unary operands =>
      exact staged_alike (fun _ _ => unary_ends_iff) (fun _ _ => unary_ends_iff)
        (expression_ends_alike operands) fun _ _ _ _ _ => Iff.rfl
  | .binary lefts rights =>
      refine staged_alike (fun _ _ => binary_ends_iff) (fun _ _ => binary_ends_iff)
        (expression_ends_alike lefts) fun value middle ended result final => ?_
      refine alike_behind_signal fun unsignalled => ?_
      have alike := expression_ends_alike (rights value middle ended unsignalled)
      simp only [alike _ _]
  | .ifThen conditions consequences =>
      refine staged_alike (fun _ _ => if_then_ends_iff) (fun _ _ => if_then_ends_iff)
        (expression_ends_alike conditions) fun value middle ended result final => ?_
      refine alike_behind_signal fun unsignalled => ?_
      split
      · rename_i truthy
        exact branches_alike
          (block_ends_alike (consequences value middle ended unsignalled truthy)) _ _
      · exact Iff.rfl
  | .ifElse conditions consequences alternatives =>
      refine staged_alike (fun _ _ => if_else_ends_iff) (fun _ _ => if_else_ends_iff)
        (expression_ends_alike conditions) fun value middle ended result final => ?_
      refine alike_behind_signal fun unsignalled => ?_
      split
      · rename_i truthy
        exact branches_alike
          (block_ends_alike (consequences value middle ended unsignalled truthy)) _ _
      · rename_i untruthy
        exact branches_alike
          (block_ends_alike (alternatives value middle ended unsignalled untruthy)) _ _
  | .call callees lists =>
      refine staged_alike (fun _ _ => call_ends_iff) (fun _ _ => call_ends_iff)
        (expression_ends_alike callees) fun value middle ended result final => ?_
      refine alike_behind_signal fun unsignalled => ?_
      have alike := expressions_end_alike (lists value middle ended unsignalled)
      simp only [alike _ _]

theorem expressions_end_alike {start : Evaluator} {exprs others : List Expr}
    (same : SameExprs start exprs others) :
    EndsAlike start (evaluateAll exprs) (evaluateAll others) := by
  match same with
  | .nil => exact fun _ _ => Iff.rfl
  | .cons firsts rests =>
      refine staged_alike (fun _ _ => expressions_end_iff) (fun _ _ => expressions_end_iff)
        (expression_ends_alike firsts) fun value middle ended result final => ?_
      refine alike_behind_signal fun unsignalled => ?_
      have alike := expressions_end_alike (rests value middle ended unsignalled)
      simp only [alike _ _]

theorem statement_ends_alike {start : Evaluator} {stmt other : Stmt}
    (same : SameStmt start stmt other) : EndsAlike start stmt.evaluate other.evaluate := by
  match same with
  | .bind exprs =>
      exact staged_alike (fun _ _ => bind_ends_iff) (fun _ _ => bind_ends_iff)
        (expression_ends_alike exprs) fun _ _ _ _ _ => Iff.rfl
  | .return exprs =>
      intro result final
      simp only [return_ends_iff, expression_ends_alike exprs _ _]
  | .expr exprs =>
      intro result final
      simp only [expr_ends_iff, expression_ends_alike exprs _ _]

theorem block_ends_alike {start : Evaluator} {last : Option Value} {block other : Block}
    (same : SameBlock start block other) :
    EndsAlike start (Block.evaluateAfter last block) (Block.evaluateAfter last other) := by
  match same with
  | .nil => exact fun _ _ => Iff.rfl
  | .cons firsts rests =>
      refine staged_alike (fun _ _ => block_ends_iff) (fun _ _ => block_ends_iff)
        (statement_ends_alike firsts) fun value middle ended result final => ?_
      refine alike_behind_signal fun unsignalled => ?_
      exact block_ends_alike (rests value middle ended unsignalled) _ _

end

end Evaluation

/-- An expression stands in the same position in two tasks that start here. All that is evaluated
before it is the same in both. Anything may stand behind it, and in the branches that are not taken
on the way. -/
inductive SamePosition (expr : Expr) (reached : Evaluator) : Evaluator → Task → Task → Prop where
  | here : SamePosition expr reached reached (.expression expr) (.expression expr)
  | operand {start : Evaluator} {op : UnaryOp} {operand operand' : Expr}
      (operands : SamePosition expr reached start (.expression operand) (.expression operand')) :
      SamePosition expr reached start (.expression (.unary op operand))
        (.expression (.unary op operand'))
  | left {start : Evaluator} {op : BinaryOp} {left left' right right' : Expr}
      (lefts : SamePosition expr reached start (.expression left) (.expression left')) :
      SamePosition expr reached start (.expression (.binary left op right))
        (.expression (.binary left' op right'))
  | right {start middle : Evaluator} {op : BinaryOp} {left right right' : Expr} {value : Value}
      (ended : Ends left.evaluate start value middle) (unsignalled : value.isSignal = false)
      (rights : SamePosition expr reached middle (.expression right) (.expression right')) :
      SamePosition expr reached start (.expression (.binary left op right))
        (.expression (.binary left op right'))
  | ifThenCondition {start : Evaluator} {condition condition' : Expr}
      {consequence consequence' : Block}
      (conditions : SamePosition expr reached start (.expression condition)
        (.expression condition')) :
      SamePosition expr reached start (.expression (.ifThen condition consequence))
        (.expression (.ifThen condition' consequence'))
  | ifThenConsequence {start middle : Evaluator} {condition : Expr}
      {consequence consequence' : Block} {chosen : Value}
      (ended : Ends condition.evaluate start chosen middle)
      (unsignalled : chosen.isSignal = false) (truthy : chosen.truthy)
      (consequences : SamePosition expr reached (branched middle) (.block none consequence)
        (.block none consequence')) :
      SamePosition expr reached start (.expression (.ifThen condition consequence))
        (.expression (.ifThen condition consequence'))
  | ifElseCondition {start : Evaluator} {condition condition' : Expr}
      {consequence consequence' alternative alternative' : Block}
      (conditions : SamePosition expr reached start (.expression condition)
        (.expression condition')) :
      SamePosition expr reached start (.expression (.ifElse condition consequence alternative))
        (.expression (.ifElse condition' consequence' alternative'))
  | ifElseConsequence {start middle : Evaluator} {condition : Expr}
      {consequence consequence' alternative alternative' : Block} {chosen : Value}
      (ended : Ends condition.evaluate start chosen middle)
      (unsignalled : chosen.isSignal = false) (truthy : chosen.truthy)
      (consequences : SamePosition expr reached (branched middle) (.block none consequence)
        (.block none consequence')) :
      SamePosition expr reached start (.expression (.ifElse condition consequence alternative))
        (.expression (.ifElse condition consequence' alternative'))
  | ifElseAlternative {start middle : Evaluator} {condition : Expr}
      {consequence consequence' alternative alternative' : Block} {chosen : Value}
      (ended : Ends condition.evaluate start chosen middle)
      (unsignalled : chosen.isSignal = false) (untruthy : ¬chosen.truthy)
      (alternatives : SamePosition expr reached (branched middle) (.block none alternative)
        (.block none alternative')) :
      SamePosition expr reached start (.expression (.ifElse condition consequence alternative))
        (.expression (.ifElse condition consequence' alternative'))
  | callee {start : Evaluator} {callee callee' : Expr} {arguments arguments' : List Expr}
      (callees : SamePosition expr reached start (.expression callee) (.expression callee')) :
      SamePosition expr reached start (.expression (.call callee arguments))
        (.expression (.call callee' arguments'))
  | arguments {start middle : Evaluator} {callee : Expr} {arguments arguments' : List Expr}
      {function : Value} (ended : Ends callee.evaluate start function middle)
      (unsignalled : function.isSignal = false)
      (lists : SamePosition expr reached middle (.expressions arguments)
        (.expressions arguments')) :
      SamePosition expr reached start (.expression (.call callee arguments))
        (.expression (.call callee arguments'))
  | firstExpression {start : Evaluator} {first first' : Expr} {rest rest' : List Expr}
      (firsts : SamePosition expr reached start (.expression first) (.expression first')) :
      SamePosition expr reached start (.expressions (first :: rest))
        (.expressions (first' :: rest'))
  | otherExpressions {start middle : Evaluator} {first : Expr} {rest rest' : List Expr}
      {value : Value} (ended : Ends first.evaluate start value middle)
      (unsignalled : value.isSignal = false)
      (rests : SamePosition expr reached middle (.expressions rest) (.expressions rest')) :
      SamePosition expr reached start (.expressions (first :: rest)) (.expressions (first :: rest'))
  | bound {start : Evaluator} {name : String} {bound bound' : Expr}
      (exprs : SamePosition expr reached start (.expression bound) (.expression bound')) :
      SamePosition expr reached start (.statement (.bind name bound))
        (.statement (.bind name bound'))
  | returned {start : Evaluator} {returned returned' : Expr}
      (exprs : SamePosition expr reached start (.expression returned) (.expression returned')) :
      SamePosition expr reached start (.statement (.return returned))
        (.statement (.return returned'))
  | yielded {start : Evaluator} {yielded yielded' : Expr}
      (exprs : SamePosition expr reached start (.expression yielded) (.expression yielded')) :
      SamePosition expr reached start (.statement (.expr yielded)) (.statement (.expr yielded'))
  | firstStatement {start : Evaluator} {last last' : Option Value} {first first' : Stmt}
      {rest rest' : Block}
      (firsts : SamePosition expr reached start (.statement first) (.statement first')) :
      SamePosition expr reached start (.block last (first :: rest)) (.block last' (first' :: rest'))
  | otherStatements {start middle : Evaluator} {last last' value : Option Value} {first : Stmt}
      {rest rest' : Block} (ended : Ends first.evaluate start value middle)
      (unsignalled : value.any Value.isSignal = false)
      (rests : SamePosition expr reached middle (.block value rest) (.block value rest')) :
      SamePosition expr reached start (.block last (first :: rest)) (.block last' (first :: rest'))

def Task.Same (start : Evaluator) : Task → Task → Prop
  | .expression expr, .expression other => SameExpr start expr other
  | .expressions exprs, .expressions others => SameExprs start exprs others
  | .statement stmt, .statement other => SameStmt start stmt other
  | .block _ statements, .block _ others => SameBlock start statements others
  | _, _ => False

section Exchange

theorem same_statement (start : Evaluator) (stmt : Stmt) : SameStmt start stmt stmt := by
  cases stmt with
  | bind _ expr => exact .bind (.refl expr)
  | «return» expr => exact .return (.refl expr)
  | expr expr => exact .expr (.refl expr)

section Stages

variable {Result : Type} {first : (depth : Nat) → Evaluation Result} {stop : Result → Bool}
  {start final : Evaluator} {came : Result}

/-- Behind a first stage that stops, evaluation comes to nothing. -/
theorem unreached_behind_signal {Reached : Result → Evaluator → Prop} (deepens : Deepens first)
    (ended : Ends first start came final) (stopped : stop came = true) :
    ∀ value middle, Ends first start value middle → stop value = false → Reached value middle := by
  intro value middle ended' goesOn
  rcases ends_unique deepens ended ended' with ⟨rfl, rfl⟩
  rw [stopped] at goesOn
  contradiction

/-- Behind a first stage, evaluation goes on only from what the stage has come to. -/
theorem reached_behind_stage {Reached : Result → Evaluator → Prop} (deepens : Deepens first)
    (ended : Ends first start came final) (goesOn : Reached came final) :
    ∀ value middle, Ends first start value middle → Reached value middle := by
  intro value middle ended'
  rcases ends_unique deepens ended ended' with ⟨rfl, rfl⟩
  exact goesOn

end Stages

variable {expr : Expr} {start reached final : Evaluator} {task other : Task} {signal : Value}

/-- Evaluation gets to the position. -/
theorem position_inside (position : SamePosition expr reached start task other) :
    Inside ⟨task, start⟩ ⟨.expression expr, reached⟩ := by
  induction position with
  | here => exact .refl
  | operand _ inner => exact .head ⟨.operand, id, id⟩ inner
  | left _ inner => exact .head ⟨.left, id, id⟩ inner
  | right ended unsignalled _ inner => exact .head ⟨.right ended unsignalled, id, id⟩ inner
  | ifThenCondition _ inner => exact .head ⟨.ifThenCondition, id, id⟩ inner
  | ifThenConsequence ended unsignalled truthy _ inner =>
      exact .head ⟨.ifThenConsequence ended unsignalled truthy, id, id⟩ inner
  | ifElseCondition _ inner => exact .head ⟨.ifElseCondition, id, id⟩ inner
  | ifElseConsequence ended unsignalled truthy _ inner =>
      exact .head ⟨.ifElseConsequence ended unsignalled truthy, id, id⟩ inner
  | ifElseAlternative ended unsignalled untruthy _ inner =>
      exact .head ⟨.ifElseAlternative ended unsignalled untruthy, id, id⟩ inner
  | callee _ inner => exact .head ⟨.callee, id, id⟩ inner
  | arguments ended unsignalled _ inner =>
      exact .head ⟨.arguments ended unsignalled, id, id⟩ inner
  | firstExpression _ inner => exact .head ⟨.firstExpression, id, id⟩ inner
  | otherExpressions ended unsignalled _ inner =>
      exact .head ⟨.otherExpressions ended unsignalled, id, id⟩ inner
  | bound _ inner => exact .head ⟨.bound, id, id⟩ inner
  | returned _ inner => exact .head ⟨.returned, id, id⟩ inner
  | yielded _ inner => exact .head ⟨.yielded, id, id⟩ inner
  | firstStatement _ inner => exact .head ⟨.firstStatement, id, id⟩ inner
  | otherStatements ended unsignalled _ inner =>
      exact .head ⟨.otherStatements ended unsignalled, id, id⟩ inner

/-- Behind an expression in which a signal stands, evaluation comes to nothing. -/
theorem unreached_behind_position {part part' : Expr} {store : Store}
    {Reached : Value → Evaluator → Prop}
    (position : SamePosition expr reached start (.expression part) (.expression part'))
    (stops : Point.Stops ⟨.expression expr, reached⟩ signal store)
    (signalled : signal.isSignal = true) :
    ∀ value middle, Ends part.evaluate start value middle → value.isSignal = false →
      Reached value middle :=
  unreached_behind_signal (expression_deepens _)
    (inside_stops (position_inside position) signalled stops) signalled

/-- What stands behind a signal or beside the way to it may be exchanged for anything. On the way,
each part that the position is in stops with the signal, so that what is behind the part is not come
to, and what is before the part has ended in just one way. -/
theorem exchanged_same (position : SamePosition expr reached start task other)
    (ended : Ends expr.evaluate reached signal final) (signalled : signal.isSignal = true) :
    task.Same start other := by
  have stops := expression_stops ended
  induction position with
  | here => exact SameExpr.refl expr
  | operand _ inner => exact SameExpr.unary inner
  | left lefts inner =>
      exact SameExpr.binary inner (unreached_behind_position lefts stops signalled)
  | right before _ _ inner =>
      exact SameExpr.binary (.refl _)
        (reached_behind_stage (expression_deepens _) before fun _ => inner)
  | ifThenCondition conditions inner =>
      exact SameExpr.ifThen inner (unreached_behind_position conditions stops signalled)
  | ifThenConsequence before _ _ _ inner =>
      exact SameExpr.ifThen (.refl _)
        (reached_behind_stage (expression_deepens _) before fun _ _ => inner)
  | ifElseCondition conditions inner =>
      exact SameExpr.ifElse inner (unreached_behind_position conditions stops signalled)
        (unreached_behind_position conditions stops signalled)
  | ifElseConsequence before _ truthy _ inner =>
      exact SameExpr.ifElse (.refl _)
        (reached_behind_stage (expression_deepens _) before fun _ _ => inner)
        (reached_behind_stage (expression_deepens _) before fun _ untruthy =>
          absurd truthy untruthy)
  | ifElseAlternative before _ untruthy _ inner =>
      exact SameExpr.ifElse (.refl _)
        (reached_behind_stage (expression_deepens _) before fun _ truthy =>
          absurd truthy untruthy)
        (reached_behind_stage (expression_deepens _) before fun _ _ => inner)
  | callee callees inner =>
      exact SameExpr.call inner (unreached_behind_position callees stops signalled)
  | arguments before _ _ inner =>
      exact SameExpr.call (.refl _)
        (reached_behind_stage (expression_deepens _) before fun _ => inner)
  | firstExpression firsts inner =>
      exact SameExprs.cons inner (unreached_behind_position firsts stops signalled)
  | otherExpressions before _ _ inner =>
      exact SameExprs.cons (.refl _)
        (reached_behind_stage (expression_deepens _) before fun _ => inner)
  | bound _ inner => exact SameStmt.bind inner
  | returned _ inner => exact SameStmt.return inner
  | yielded _ inner => exact SameStmt.expr inner
  | firstStatement firsts inner =>
      have stopped := inside_stops (position_inside firsts) signalled stops
      exact SameBlock.cons inner (unreached_behind_signal (statement_deepens _) stopped signalled)
  | otherStatements before _ _ inner =>
      exact SameBlock.cons (same_statement _ _)
        (reached_behind_stage (statement_deepens _) before fun _ => inner)

end Exchange

/-- A signal that an expression yields anywhere in a block, outside the functions in it, is what
the block yields, and the store is the one that the expression leaves. This stays so when all that
is not evaluated on the way to the signal is exchanged for something else. -/
theorem signal_ends_block {block : Block} {expr : Expr} {start reached final : Evaluator}
    {signal : Value} (inside : Inside ⟨.block none block, start⟩ ⟨.expression expr, reached⟩)
    (ended : Ends expr.evaluate reached signal final) (signalled : signal.isSignal = true) :
    let outcome (result : Option Value) (after : Evaluator) : Prop :=
      result = some signal ∧ after = ⟨final.store, start.current⟩
    (∀ result after, Ends block.evaluate start result after ↔ outcome result after) ∧
      ∀ other, SameBlock start block other →
        ∀ result after, Ends (Block.evaluate other) start result after ↔ outcome result after := by
  intro outcome
  have yields : Ends block.evaluate start (some signal) ⟨final.store, start.current⟩ :=
    inside_stops inside signalled (expression_stops ended)
  have only : ∀ result after, Ends block.evaluate start result after ↔ outcome result after := by
    intro result after
    constructor
    · intro came
      exact ends_unique (block_deepens none block) came yields
    · intro outcome
      rcases outcome with ⟨rfl, rfl⟩
      exact yields
  refine ⟨only, ?_⟩
  intro other exchanged result after
  have alike : EndsAlike start block.evaluate (Block.evaluate other) := block_ends_alike exchanged
  rw [← alike, only]

def nestedCall (thirdArgument : List Expr) : Expr :=
  .call (.function ["x"] [.expr (.name "x")]) (.int 2 :: .name "out" :: thirdArgument)

def nestedBranch (thirdArgument : List Expr) (behindCall unselected : Block) : Expr :=
  .ifElse (.bool true) (.expr (nestedCall thirdArgument) :: behindCall) unselected

def nestedSum (branch right : Expr) : Stmt := .bind "a" (.binary branch .add right)

def returnedScope : Evaluator :=
  let (scope, store) := Store.empty.addRoot
  ⟨store.bind scope "out" (.returned (.int 5)), scope⟩

/-- What the name is bound to gets out of the argument, the call, the branch, the operand and the
binding, whatever stands behind the name. -/
theorem returned_argument_ends_block :
    let signal : Value := .returned (.int 5)
    let final := branched returnedScope
    let block := [nestedSum (nestedBranch [.int 3] [.expr (.int 7)] []) (.int 1),
      .expr (.name "a")]
    let other := [nestedSum (nestedBranch [] [] [.return (.bool true)]) (.name "b")]
    signal.isSignal = true ∧ Ends (Expr.name "out").evaluate final signal final ∧
      Inside ⟨.block none block, returnedScope⟩ ⟨.expression (.name "out"), final⟩ ∧
      SameBlock returnedScope block other ∧
      ∀ result after, Ends (Block.evaluate other) returnedScope result after ↔
        result = some signal ∧ after = ⟨final.store, 0⟩ := by
  intro signal final block other
  have found : Ends (Expr.name "out").evaluate final signal final :=
    name_ends_iff.mpr ⟨by decide +kernel, rfl⟩
  have chosen : Ends (Expr.bool true).evaluate returnedScope (.bool true) returnedScope :=
    bool_ends_iff.mpr ⟨rfl, rfl⟩
  have inCall : SamePosition (.name "out") final final (.expression (nestedCall [.int 3]))
      (.expression (nestedCall [])) :=
    .arguments (function_ends_iff.mpr ⟨rfl, rfl⟩) rfl
      (.otherExpressions (int_ends_iff.mpr ⟨rfl, rfl⟩) rfl (.firstExpression .here))
  have inBranch : SamePosition (.name "out") final returnedScope
      (.expression (nestedBranch [.int 3] [.expr (.int 7)] []))
      (.expression (nestedBranch [] [] [.return (.bool true)])) :=
    .ifElseConsequence chosen rfl rfl (.firstStatement (.yielded inCall))
  have inBlock : SamePosition (.name "out") final returnedScope (.block none block)
      (.block none other) := .firstStatement (.bound (.left inBranch))
  have inside := position_inside inBlock
  have same : SameBlock returnedScope block other := exchanged_same inBlock found rfl
  exact ⟨rfl, found, inside, same, (signal_ends_block inside found rfl).2 other same⟩

end Scriptlet
