import Scriptlet.Proofs.Evaluation.Ends
import Mathlib.Logic.Relation

/-!
The points of a run. At each of them something is about to be evaluated, and evaluating it leads
to further points in it. A run goes through all of these, also when it has no outcome: there is an
outcome at a point exactly when there is one at each point that follows from it.
-/

namespace Scriptlet

open Evaluation

inductive Task where
  | expression (expr : Expr)
  | expressions (exprs : List Expr)
  | statement (stmt : Stmt)
  /-- The rest of a block, when `last` is what the statement before it yielded. -/
  | block (last : Option Value) (rest : Block)
  | call (callee : Value) (values : List Value)

def listed : Except Value (List Value) → List Value
  | .error signal => [signal]
  | .ok values => values

def Task.evaluate : Task → (depth : Nat) → Evaluation (List Value)
  | expression expr, depth => do
      let value ← expr.evaluate depth
      return [value]
  | expressions exprs, depth => do
      let values ← evaluateAll exprs depth
      return listed values
  | statement stmt, depth => do
      let value ← stmt.evaluate depth
      return value.toList
  | block last rest, depth => do
      let value ← Block.evaluateAfter last rest depth
      return value.toList
  | call callee values, depth => do
      let value ← callee.call values depth
      return [value]

structure Point where
  task : Task
  start : Evaluator

namespace Point

def Ends (point : Point) (results : List Value) (final : Evaluator) : Prop :=
  Evaluation.Ends point.task.evaluate point.start results final

def Terminates (point : Point) : Prop := Evaluation.Terminates point.task.evaluate point.start

section Ends

variable {start final : Evaluator} {results : List Value}

theorem expression_ends_iff {expr : Expr} :
    Ends ⟨.expression expr, start⟩ results final ↔
      ∃ value, Evaluation.Ends expr.evaluate start value final ∧ results = [value] := ends_map_iff

theorem expressions_end_iff {exprs : List Expr} :
    Ends ⟨.expressions exprs, start⟩ results final ↔
      ∃ values, Evaluation.Ends (evaluateAll exprs) start values final ∧
        results = listed values := ends_map_iff

theorem statement_ends_iff {stmt : Stmt} :
    Ends ⟨.statement stmt, start⟩ results final ↔
      ∃ value, Evaluation.Ends stmt.evaluate start value final ∧ results = value.toList :=
  ends_map_iff

theorem block_ends_iff {last : Option Value} {rest : Block} :
    Ends ⟨.block last rest, start⟩ results final ↔
      ∃ value, Evaluation.Ends (Block.evaluateAfter last rest) start value final ∧
        results = value.toList := ends_map_iff

theorem call_ends_iff {callee : Value} {values : List Value} :
    Ends ⟨.call callee values, start⟩ results final ↔
      ∃ value, Evaluation.Ends (callee.call values) start value final ∧ results = [value] :=
  ends_map_iff

end Ends

end Point

def branched (start : Evaluator) : Evaluator :=
  ⟨(start.store.addChild start.current).2, start.store.size⟩

/-- The points at which a part of a task is begun, one for each part that evaluation comes to. -/
inductive BeginsPart : Point → Point → Prop where
  | operand {op : UnaryOp} {operand : Expr} {start : Evaluator} :
      BeginsPart ⟨.expression (.unary op operand), start⟩ ⟨.expression operand, start⟩
  | left {op : BinaryOp} {left right : Expr} {start : Evaluator} :
      BeginsPart ⟨.expression (.binary left op right), start⟩ ⟨.expression left, start⟩
  | right {op : BinaryOp} {left right : Expr} {start middle : Evaluator} {value : Value}
      (ended : Ends left.evaluate start value middle) (unsignalled : value.isSignal = false) :
      BeginsPart ⟨.expression (.binary left op right), start⟩ ⟨.expression right, middle⟩
  | ifThenCondition {condition : Expr} {consequence : Block} {start : Evaluator} :
      BeginsPart ⟨.expression (.ifThen condition consequence), start⟩ ⟨.expression condition, start⟩
  | ifThenConsequence {condition : Expr} {consequence : Block} {start middle : Evaluator}
      {chosen : Value} (ended : Ends condition.evaluate start chosen middle)
      (unsignalled : chosen.isSignal = false) (truthy : chosen.truthy) :
      BeginsPart ⟨.expression (.ifThen condition consequence), start⟩
        ⟨.block none consequence, branched middle⟩
  | ifElseCondition {condition : Expr} {consequence alternative : Block} {start : Evaluator} :
      BeginsPart ⟨.expression (.ifElse condition consequence alternative), start⟩
        ⟨.expression condition, start⟩
  | ifElseConsequence {condition : Expr} {consequence alternative : Block}
      {start middle : Evaluator} {chosen : Value}
      (ended : Ends condition.evaluate start chosen middle)
      (unsignalled : chosen.isSignal = false) (truthy : chosen.truthy) :
      BeginsPart ⟨.expression (.ifElse condition consequence alternative), start⟩
        ⟨.block none consequence, branched middle⟩
  | ifElseAlternative {condition : Expr} {consequence alternative : Block}
      {start middle : Evaluator} {chosen : Value}
      (ended : Ends condition.evaluate start chosen middle)
      (unsignalled : chosen.isSignal = false) (untruthy : ¬chosen.truthy) :
      BeginsPart ⟨.expression (.ifElse condition consequence alternative), start⟩
        ⟨.block none alternative, branched middle⟩
  | callee {callee : Expr} {arguments : List Expr} {start : Evaluator} :
      BeginsPart ⟨.expression (.call callee arguments), start⟩ ⟨.expression callee, start⟩
  | arguments {callee : Expr} {arguments : List Expr} {start middle : Evaluator}
      {function : Value} (ended : Ends callee.evaluate start function middle)
      (unsignalled : function.isSignal = false) :
      BeginsPart ⟨.expression (.call callee arguments), start⟩ ⟨.expressions arguments, middle⟩
  | call {callee : Expr} {arguments : List Expr} {start middle last : Evaluator}
      {function : Value} {values : List Value} (ended : Ends callee.evaluate start function middle)
      (unsignalled : function.isSignal = false)
      (endedAll : Ends (evaluateAll arguments) middle (.ok values) last) :
      BeginsPart ⟨.expression (.call callee arguments), start⟩ ⟨.call function values, last⟩
  | firstExpression {first : Expr} {rest : List Expr} {start : Evaluator} :
      BeginsPart ⟨.expressions (first :: rest), start⟩ ⟨.expression first, start⟩
  | otherExpressions {first : Expr} {rest : List Expr} {start middle : Evaluator} {value : Value}
      (ended : Ends first.evaluate start value middle) (unsignalled : value.isSignal = false) :
      BeginsPart ⟨.expressions (first :: rest), start⟩ ⟨.expressions rest, middle⟩
  | bound {name : String} {expr : Expr} {start : Evaluator} :
      BeginsPart ⟨.statement (.bind name expr), start⟩ ⟨.expression expr, start⟩
  | returned {expr : Expr} {start : Evaluator} :
      BeginsPart ⟨.statement (.return expr), start⟩ ⟨.expression expr, start⟩
  | yielded {expr : Expr} {start : Evaluator} :
      BeginsPart ⟨.statement (.expr expr), start⟩ ⟨.expression expr, start⟩
  | firstStatement {last : Option Value} {first : Stmt} {rest : Block} {start : Evaluator} :
      BeginsPart ⟨.block last (first :: rest), start⟩ ⟨.statement first, start⟩
  | otherStatements {last value : Option Value} {first : Stmt} {rest : Block}
      {start middle : Evaluator} (ended : Ends first.evaluate start value middle)
      (unsignalled : value.any Value.isSignal = false) :
      BeginsPart ⟨.block last (first :: rest), start⟩ ⟨.block value rest, middle⟩
  | body {parameters : List String} {body : Block} {home : Handle} {values : List Value}
      {start : Evaluator} :
      BeginsPart ⟨.call (.function parameters body home) values, start⟩
        ⟨.block none body, entered start parameters home values⟩

/-- The points that a run goes through from a point on. -/
def Visits : Point → Point → Prop := Relation.ReflTransGen BeginsPart

namespace Point

section Terminates

variable {start : Evaluator}

theorem terminates_map_iff {Result Next : Type} {evaluation : (depth : Nat) → Evaluation Result}
    {map : Result → Next} :
    Evaluation.Terminates (fun depth => evaluation depth >>= fun first => pure (map first)) start ↔
      Evaluation.Terminates evaluation start := by
  constructor
  · rintro ⟨_, final, ended⟩
    obtain ⟨first, ended, _⟩ := ends_map_iff.mp ended
    exact ⟨first, final, ended⟩
  · rintro ⟨first, final, ended⟩
    exact ⟨map first, final, ends_map_iff.mpr ⟨first, ended, rfl⟩⟩

theorem expression_terminates_iff {expr : Expr} :
    Terminates ⟨.expression expr, start⟩ ↔ Evaluation.Terminates expr.evaluate start :=
  terminates_map_iff

theorem expressions_terminate_iff {exprs : List Expr} :
    Terminates ⟨.expressions exprs, start⟩ ↔ Evaluation.Terminates (evaluateAll exprs) start :=
  terminates_map_iff

theorem statement_terminates_iff {stmt : Stmt} :
    Terminates ⟨.statement stmt, start⟩ ↔ Evaluation.Terminates stmt.evaluate start :=
  terminates_map_iff

theorem block_terminates_iff {last : Option Value} {rest : Block} :
    Terminates ⟨.block last rest, start⟩ ↔
      Evaluation.Terminates (Block.evaluateAfter last rest) start := terminates_map_iff

theorem call_terminates_iff {callee : Value} {values : List Value} :
    Terminates ⟨.call callee values, start⟩ ↔
      Evaluation.Terminates (callee.call values) start := terminates_map_iff

theorem branch_terminates_iff {body : Block} :
    Evaluation.Terminates (fun depth => branch (body.evaluate depth)) start ↔
      Terminates ⟨.block none body, branched start⟩ := by
  rw [block_terminates_iff]
  constructor
  · rintro ⟨_, _, ended⟩
    obtain ⟨result, inner, ended, _⟩ := ends_branch_iff.mp ended
    exact ⟨result, inner, ended⟩
  · rintro ⟨result, inner, ended⟩
    exact ⟨_, _, ends_branch_iff.mpr ⟨result, inner, ended, rfl, rfl⟩⟩

end Terminates

end Point

section Stages

variable {First Result : Type} {whole : (depth : Nat) → Evaluation Result}
  {first : (depth : Nat) → Evaluation First} {start middle : Evaluator} {value : First}

theorem first_stage_terminates {rest : First → Evaluator → Result → Evaluator → Prop}
    (stages : ∀ result final, Ends whole start result final ↔
      ∃ value middle, Ends first start value middle ∧ rest value middle result final)
    (terminates : Terminates whole start) : Terminates first start := by
  obtain ⟨result, final, ended⟩ := terminates
  obtain ⟨value, middle, endedFirst, _⟩ := (stages result final).mp ended
  exact ⟨value, middle, endedFirst⟩

variable {stop : First → Bool} {halt : First → Result}
  {rest : First → Evaluator → Result → Evaluator → Prop}

/-- When the first stage of an evaluation has an outcome, the whole has one unless the rest, which
is not started behind a signal, has none. -/
theorem staged_terminates_iff (deepens : Deepens first) (ended : Ends first start value middle)
    (stages : ∀ result final, Ends whole start result final ↔
      ∃ value middle, Ends first start value middle ∧
        if stop value then result = halt value ∧ final = middle
        else rest value middle result final) :
    Terminates whole start ↔
      (stop value = false → ∃ result final, rest value middle result final) := by
  constructor
  · rintro ⟨result, final, endedWhole⟩ goesOn
    obtain ⟨value', middle', ended', restEnded⟩ := (stages result final).mp endedWhole
    obtain ⟨rfl, rfl⟩ := ends_unique deepens ended ended'
    rw [goesOn] at restEnded
    exact ⟨result, final, restEnded⟩
  · intro goesOn
    cases stopped : stop value with
    | true =>
        refine ⟨halt value, middle, (stages _ _).mpr ⟨value, middle, ended, ?_⟩⟩
        rw [stopped]
        exact ⟨rfl, rfl⟩
    | false =>
        obtain ⟨result, final, restEnded⟩ := goesOn stopped
        refine ⟨result, final, (stages _ _).mpr ⟨value, middle, ended, ?_⟩⟩
        rw [stopped]
        exact restEnded

end Stages

section Begins

variable {start middle : Evaluator} {value : Value}

theorem binary_terminates_iff {left right : Expr} {op : BinaryOp}
    (ended : Ends left.evaluate start value middle) :
    Terminates (Expr.binary left op right).evaluate start ↔
      (value.isSignal = false → Terminates right.evaluate middle) := by
  refine (staged_terminates_iff (expression_deepens left) ended fun _ _ => binary_ends_iff).trans
    (forall_congr' fun _ => ?_)
  constructor
  · rintro ⟨_, _, second, last, ended, _⟩
    exact ⟨second, last, ended⟩
  · rintro ⟨second, last, ended⟩
    cases signal : second.isSignal with
    | true => exact ⟨second, last, second, last, ended, by rw [signal]; exact ⟨rfl, rfl⟩⟩
    | false => exact ⟨_, last, second, last, ended, by rw [signal]; exact ⟨rfl, rfl⟩⟩

theorem if_then_terminates_iff {condition : Expr} {consequence : Block}
    (ended : Ends condition.evaluate start value middle) :
    Terminates (Expr.ifThen condition consequence).evaluate start ↔
      (value.isSignal = false → value.truthy →
        Point.Terminates ⟨.block none consequence, branched middle⟩) := by
  refine (staged_terminates_iff (expression_deepens condition) ended
    fun _ _ => if_then_ends_iff).trans (forall_congr' fun _ => ?_)
  by_cases truthy : value.truthy
  · simp only [truthy, true_imp_iff]
    exact Point.branch_terminates_iff
  · constructor
    · exact fun _ holds => absurd holds truthy
    · intro _
      exact ⟨.null, middle, by rw [if_neg truthy]; exact ⟨rfl, rfl⟩⟩

theorem if_else_terminates_iff {condition : Expr} {consequence alternative : Block}
    (ended : Ends condition.evaluate start value middle) :
    Terminates (Expr.ifElse condition consequence alternative).evaluate start ↔
      (value.isSignal = false → Point.Terminates
        ⟨.block none (if value.truthy then consequence else alternative), branched middle⟩) := by
  refine (staged_terminates_iff (expression_deepens condition) ended
    fun _ _ => if_else_ends_iff).trans (forall_congr' fun _ => ?_)
  by_cases truthy : value.truthy
  · simp only [if_pos truthy]
    exact Point.branch_terminates_iff
  · simp only [if_neg truthy]
    exact Point.branch_terminates_iff

theorem call_terminates_iff {callee : Expr} {arguments : List Expr}
    (ended : Ends callee.evaluate start value middle) :
    Terminates (Expr.call callee arguments).evaluate start ↔
      (value.isSignal = false → ∃ values last, Ends (evaluateAll arguments) middle values last ∧
        ∀ usable, values = .ok usable → Terminates (value.call usable) last) := by
  refine (staged_terminates_iff (expression_deepens callee) ended
    fun _ _ => call_ends_iff).trans (forall_congr' fun _ => ?_)
  constructor
  · rintro ⟨result, final, values, last, endedAll, outcome⟩
    refine ⟨values, last, endedAll, ?_⟩
    rintro usable rfl
    exact ⟨result, final, outcome⟩
  · rintro ⟨values, last, endedAll, called⟩
    cases values with
    | error signal => exact ⟨signal, last, _, last, endedAll, rfl, rfl⟩
    | ok usable =>
        obtain ⟨result, final, outcome⟩ := called usable rfl
        exact ⟨result, final, _, last, endedAll, outcome⟩

theorem expressions_terminate_iff {first : Expr} {rest : List Expr}
    (ended : Ends first.evaluate start value middle) :
    Terminates (evaluateAll (first :: rest)) start ↔
      (value.isSignal = false → Terminates (evaluateAll rest) middle) := by
  refine (staged_terminates_iff (expression_deepens first) ended
    fun _ _ => expressions_end_iff).trans (forall_congr' fun _ => ?_)
  constructor
  · rintro ⟨_, final, others, ended, _⟩
    exact ⟨others, final, ended⟩
  · rintro ⟨others, final, ended⟩
    exact ⟨_, final, others, ended, rfl⟩

theorem block_terminates_iff {first : Stmt} {rest : Block} {last result : Option Value}
    (ended : Ends first.evaluate start result middle) :
    Terminates (Block.evaluateAfter last (first :: rest)) start ↔
      (result.any Value.isSignal = false → Terminates (Block.evaluateAfter result rest) middle) :=
  staged_terminates_iff (statement_deepens first) ended fun _ _ => block_ends_iff

theorem function_call_terminates_iff {parameters : List String} {body : Block} {home : Handle}
    {values : List Value} :
    Terminates ((Value.function parameters body home).call values) start ↔
      Terminates body.evaluate (entered start parameters home values) := by
  constructor
  · rintro ⟨_, _, ended⟩
    obtain ⟨result, inner, ended, _⟩ := function_call_ends_iff.mp ended
    exact ⟨result, inner, ended⟩
  · rintro ⟨result, inner, ended⟩
    exact ⟨_, _, function_call_ends_iff.mpr ⟨result, inner, ended, rfl, rfl⟩⟩

end Begins

/-- What a point with an outcome leads to has an outcome as well. -/
theorem begun_terminates {point part : Point} (begins : BeginsPart point part)
    (terminates : point.Terminates) : part.Terminates := by
  cases begins with
  | operand =>
      rw [Point.expression_terminates_iff] at terminates ⊢
      exact first_stage_terminates (fun _ _ => unary_ends_iff) terminates
  | left =>
      rw [Point.expression_terminates_iff] at terminates ⊢
      exact first_stage_terminates (fun _ _ => binary_ends_iff) terminates
  | right ended unsignalled =>
      rw [Point.expression_terminates_iff] at terminates ⊢
      exact (binary_terminates_iff ended).mp terminates unsignalled
  | ifThenCondition =>
      rw [Point.expression_terminates_iff] at terminates ⊢
      exact first_stage_terminates (fun _ _ => if_then_ends_iff) terminates
  | ifThenConsequence ended unsignalled truthy =>
      rw [Point.expression_terminates_iff] at terminates
      exact (if_then_terminates_iff ended).mp terminates unsignalled truthy
  | ifElseCondition =>
      rw [Point.expression_terminates_iff] at terminates ⊢
      exact first_stage_terminates (fun _ _ => if_else_ends_iff) terminates
  | ifElseConsequence ended unsignalled truthy =>
      rw [Point.expression_terminates_iff] at terminates
      have chosen := (if_else_terminates_iff ended).mp terminates unsignalled
      rwa [if_pos truthy] at chosen
  | ifElseAlternative ended unsignalled untruthy =>
      rw [Point.expression_terminates_iff] at terminates
      have chosen := (if_else_terminates_iff ended).mp terminates unsignalled
      rwa [if_neg untruthy] at chosen
  | callee =>
      rw [Point.expression_terminates_iff] at terminates ⊢
      exact first_stage_terminates (fun _ _ => call_ends_iff) terminates
  | arguments ended unsignalled =>
      rw [Point.expression_terminates_iff] at terminates
      obtain ⟨values, last, endedAll, _⟩ := (call_terminates_iff ended).mp terminates unsignalled
      exact Point.expressions_terminate_iff.mpr ⟨values, last, endedAll⟩
  | call ended unsignalled endedAll =>
      rw [Point.expression_terminates_iff] at terminates
      obtain ⟨values', last', endedAll', called⟩ :=
        (call_terminates_iff ended).mp terminates unsignalled
      -- The arguments have one outcome only, so this is the call that was made.
      obtain ⟨rfl, rfl⟩ := ends_unique (expressions_deepen _) endedAll endedAll'
      exact Point.call_terminates_iff.mpr (called _ rfl)
  | firstExpression =>
      rw [Point.expressions_terminate_iff] at terminates
      rw [Point.expression_terminates_iff]
      exact first_stage_terminates (fun _ _ => expressions_end_iff) terminates
  | otherExpressions ended unsignalled =>
      rw [Point.expressions_terminate_iff] at terminates ⊢
      exact (expressions_terminate_iff ended).mp terminates unsignalled
  | bound =>
      rw [Point.statement_terminates_iff] at terminates
      rw [Point.expression_terminates_iff]
      exact first_stage_terminates (fun _ _ => bind_ends_iff) terminates
  | returned =>
      obtain ⟨_, final, ended⟩ := Point.statement_terminates_iff.mp terminates
      obtain ⟨value, ended, _⟩ := return_ends_iff.mp ended
      exact Point.expression_terminates_iff.mpr ⟨value, final, ended⟩
  | yielded =>
      obtain ⟨_, final, ended⟩ := Point.statement_terminates_iff.mp terminates
      obtain ⟨value, ended, _⟩ := expr_ends_iff.mp ended
      exact Point.expression_terminates_iff.mpr ⟨value, final, ended⟩
  | firstStatement =>
      rw [Point.block_terminates_iff] at terminates
      rw [Point.statement_terminates_iff]
      exact first_stage_terminates (fun _ _ => block_ends_iff) terminates
  | otherStatements ended unsignalled =>
      rw [Point.block_terminates_iff] at terminates ⊢
      exact (block_terminates_iff ended).mp terminates unsignalled
  | body =>
      rw [Point.call_terminates_iff] at terminates
      exact Point.block_terminates_iff.mpr (function_call_terminates_iff.mp terminates)

section Parts

variable {start : Evaluator}

theorem expression_terminates_of_parts {expr : Expr}
    (parts : ∀ part, BeginsPart ⟨.expression expr, start⟩ part → part.Terminates) :
    Terminates expr.evaluate start := by
  cases expr with
  | name name => exact ⟨_, _, name_ends_iff.mpr ⟨rfl, rfl⟩⟩
  | int value => exact ⟨_, _, int_ends_iff.mpr ⟨rfl, rfl⟩⟩
  | bool value => exact ⟨_, _, bool_ends_iff.mpr ⟨rfl, rfl⟩⟩
  | function parameters body => exact ⟨_, _, function_ends_iff.mpr ⟨rfl, rfl⟩⟩
  | unary op operand =>
      obtain ⟨value, middle, ended⟩ := Point.expression_terminates_iff.mp (parts _ .operand)
      refine (staged_terminates_iff (expression_deepens operand) ended
        fun _ _ => unary_ends_iff).mpr fun _ => ?_
      exact ⟨_, middle, rfl, rfl⟩
  | binary left op right =>
      obtain ⟨value, middle, ended⟩ := Point.expression_terminates_iff.mp (parts _ .left)
      exact (binary_terminates_iff ended).mpr fun unsignalled =>
        Point.expression_terminates_iff.mp (parts _ (.right ended unsignalled))
  | ifThen condition consequence =>
      obtain ⟨value, middle, ended⟩ :=
        Point.expression_terminates_iff.mp (parts _ .ifThenCondition)
      exact (if_then_terminates_iff ended).mpr fun unsignalled truthy =>
        parts _ (.ifThenConsequence ended unsignalled truthy)
  | ifElse condition consequence alternative =>
      obtain ⟨value, middle, ended⟩ :=
        Point.expression_terminates_iff.mp (parts _ .ifElseCondition)
      refine (if_else_terminates_iff ended).mpr fun unsignalled => ?_
      split
      · rename_i truthy
        exact parts _ (.ifElseConsequence ended unsignalled truthy)
      · rename_i untruthy
        exact parts _ (.ifElseAlternative ended unsignalled untruthy)
  | call callee arguments =>
      obtain ⟨value, middle, ended⟩ := Point.expression_terminates_iff.mp (parts _ .callee)
      refine (call_terminates_iff ended).mpr fun unsignalled => ?_
      obtain ⟨values, last, endedAll⟩ :=
        Point.expressions_terminate_iff.mp (parts _ (.arguments ended unsignalled))
      refine ⟨values, last, endedAll, ?_⟩
      rintro usable rfl
      exact Point.call_terminates_iff.mp (parts _ (.call ended unsignalled endedAll))

theorem expressions_terminate_of_parts {exprs : List Expr}
    (parts : ∀ part, BeginsPart ⟨.expressions exprs, start⟩ part → part.Terminates) :
    Terminates (evaluateAll exprs) start := by
  cases exprs with
  | nil => exact ⟨_, _, no_expressions_end_iff.mpr ⟨rfl, rfl⟩⟩
  | cons first rest =>
      obtain ⟨value, middle, ended⟩ :=
        Point.expression_terminates_iff.mp (parts _ .firstExpression)
      exact (expressions_terminate_iff ended).mpr fun unsignalled =>
        Point.expressions_terminate_iff.mp (parts _ (.otherExpressions ended unsignalled))

theorem statement_terminates_of_parts {stmt : Stmt}
    (parts : ∀ part, BeginsPart ⟨.statement stmt, start⟩ part → part.Terminates) :
    Terminates stmt.evaluate start := by
  cases stmt with
  | bind name expr =>
      obtain ⟨value, middle, ended⟩ := Point.expression_terminates_iff.mp (parts _ .bound)
      refine (staged_terminates_iff (expression_deepens expr) ended
        fun _ _ => bind_ends_iff).mpr fun _ => ?_
      exact ⟨none, _, rfl, rfl⟩
  | «return» expr =>
      obtain ⟨value, final, ended⟩ := Point.expression_terminates_iff.mp (parts _ .returned)
      exact ⟨_, final, return_ends_iff.mpr ⟨value, ended, rfl⟩⟩
  | expr expr =>
      obtain ⟨value, final, ended⟩ := Point.expression_terminates_iff.mp (parts _ .yielded)
      exact ⟨_, final, expr_ends_iff.mpr ⟨value, ended, rfl⟩⟩

theorem block_terminates_of_parts {last : Option Value} {rest : Block}
    (parts : ∀ part, BeginsPart ⟨.block last rest, start⟩ part → part.Terminates) :
    Terminates (Block.evaluateAfter last rest) start := by
  cases rest with
  | nil => exact ⟨_, _, empty_block_ends_iff.mpr ⟨rfl, rfl⟩⟩
  | cons first rest =>
      obtain ⟨value, middle, ended⟩ :=
        Point.statement_terminates_iff.mp (parts _ .firstStatement)
      exact (block_terminates_iff ended).mpr fun unsignalled =>
        Point.block_terminates_iff.mp (parts _ (.otherStatements ended unsignalled))

theorem call_terminates_of_parts {callee : Value} {values : List Value}
    (parts : ∀ part, BeginsPart ⟨.call callee values, start⟩ part → part.Terminates) :
    Terminates (callee.call values) start := by
  cases callee with
  | function parameters body home =>
      exact function_call_terminates_iff.mpr (Point.block_terminates_iff.mp (parts _ .body))
  | _ => exact ⟨_, _, (other_call_ends_iff (by intro same; cases same)).mpr ⟨rfl, rfl⟩⟩

end Parts

/-- There is an outcome at a point exactly when there is one at each point that follows from it. A
run without outcome therefore never comes to an end of its points. -/
theorem terminates_iff_parts_terminate (point : Point) :
    point.Terminates ↔ ∀ part, BeginsPart point part → part.Terminates := by
  refine ⟨fun terminates part begins => begun_terminates begins terminates, fun parts => ?_⟩
  obtain ⟨task, start⟩ := point
  cases task with
  | expression expr =>
      exact Point.expression_terminates_iff.mpr (expression_terminates_of_parts parts)
  | expressions exprs =>
      exact Point.expressions_terminate_iff.mpr (expressions_terminate_of_parts parts)
  | statement stmt =>
      exact Point.statement_terminates_iff.mpr (statement_terminates_of_parts parts)
  | block last rest => exact Point.block_terminates_iff.mpr (block_terminates_of_parts parts)
  | call callee values => exact Point.call_terminates_iff.mpr (call_terminates_of_parts parts)

end Scriptlet
