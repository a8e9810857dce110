import Scriptlet.Proofs.Evaluation.Frame
import Scriptlet.Proofs.Evaluation.Names
import Scriptlet.Proofs.Evaluation.PointInduction
import Scriptlet.Proofs.Evaluation.Signals

/-!
What errors there are. Operators are applied to values that are no signals, as signals are passed on
before, and names are looked up in a store that binds no signal. So the messages are those of a
short list, in which errors and returned values never occur as the types of operands.
-/

namespace Scriptlet

open Evaluation

/-- The messages of errors, when these are the names that could be looked up. -/
inductive ListedMessage (named : String → Prop) : String → Prop where
  | unbound {name : String} (read : named name) :
      ListedMessage named ("identifier not found: " ++ name)
  | divisionByZero : ListedMessage named "division by zero"
  | notFunction {type : String} (other : type ∈ ["INTEGER", "BOOLEAN", "NULL"]) :
      ListedMessage named ("not a function: " ++ type)
  | negation {type : String} (other : type ∈ ["BOOLEAN", "NULL", "FUNCTION"]) :
      ListedMessage named ("unknown operator: -" ++ type)
  | truthOperator {op : BinaryOp} (other : op ≠ .equal ∧ op ≠ .notEqual) :
      ListedMessage named
        ("unknown operator: " ++ "BOOLEAN" ++ " " ++ op.symbol ++ " " ++ "BOOLEAN")
  | noOperator {type : String} {op : BinaryOp} (other : type ∈ ["NULL", "FUNCTION"]) :
      ListedMessage named ("unknown operator: " ++ type ++ " " ++ op.symbol ++ " " ++ type)
  | typeMismatch {left right : String} {op : BinaryOp}
      (lefts : left ∈ ["INTEGER", "BOOLEAN", "NULL", "FUNCTION"])
      (rights : right ∈ ["INTEGER", "BOOLEAN", "NULL", "FUNCTION"]) (distinct : left ≠ right) :
      ListedMessage named ("type mismatch: " ++ left ++ " " ++ op.symbol ++ " " ++ right)

variable {named : String → Prop}

/-- An error has a listed message, a function reads only these names, and no signal is wrapped. -/
def Value.Sound (named : String → Prop) : Value → Prop
  | .int _ | .bool _ | .null => True
  | .returned value => value.isSignal = false ∧ value.Sound named
  | .error message => ListedMessage named message
  | .function _ body _ => ∀ name ∈ Block.names body, named name

def Value.Usable (named : String → Prop) (value : Value) : Prop :=
  value.isSignal = false ∧ value.Sound named

def Store.Sound (named : String → Prop) (store : Store) : Prop :=
  ∀ handle scope, store.scope? handle = some scope →
    ∀ name value, scope.own name = some value → value.Usable named

theorem ValueType.name_injective {left right : ValueType} (same : left.name = right.name) :
    left = right := by
  cases left <;> cases right <;> first | rfl | exact absurd same (by decide)

namespace Value

variable {value left right : Value}

theorem Sound.unwrap (sound : value.Sound named) : value.unwrap.Sound named := by
  cases value with
  | returned inner => exact sound.2
  | _ => exact sound

theorem plain_type_name (plain : value.isSignal = false) :
    value.type.name ∈ ["INTEGER", "BOOLEAN", "NULL", "FUNCTION"] := by
  cases value with
  | int | bool | null | function => simp [type, ValueType.name]
  | returned | error => cases plain

theorem not_function_sound (plain : value.isSignal = false) (other : value.type ≠ .function) :
    (Fault.notFunction value.type).value.Sound named := by
  cases value with
  | int | bool | null => exact .notFunction (by simp [type, ValueType.name])
  | function => exact absurd rfl other
  | returned | error => cases plain

theorem unary_apply_sound (op : UnaryOp) (plain : value.isSignal = false) :
    (op.apply value).Sound named := by
  cases op with
  | not => trivial
  | negate =>
      cases value with
      | int => trivial
      | bool | null | function => exact .negation (by simp [type, ValueType.name])
      | returned | error => cases plain

theorem int_operands_sound (op : BinaryOp) (left right : Int64) :
    (op.applyInts left right).Sound named := by
  cases op with
  | divide =>
      rw [BinaryOp.applyInts]
      split
      · exact .divisionByZero
      · trivial
  | _ => trivial

theorem bool_operands_sound (op : BinaryOp) (left right : Bool) :
    (op.applyBools left right).Sound named := by
  cases op with
  | equal | notEqual => trivial
  | _ => exact .truthOperator (by decide)

theorem binary_apply_sound (op : BinaryOp) (plain : left.isSignal = false)
    (plain' : right.isSignal = false) : (op.apply left right).Sound named := by
  rw [BinaryOp.apply.eq_def]
  split
  · exact int_operands_sound op _ _
  · exact bool_operands_sound op _ _
  · rename_i notInts notBools
    split
    · rename_i same
      -- Integers and truth values are dealt with above, so these two types are left.
      cases left with
      | null | function => exact .noOperator (by simp [type, ValueType.name])
      | int left =>
          cases right with
          | int right => exact absurd rfl (notInts left right rfl)
          | _ => cases same
      | bool left =>
          cases right with
          | bool right => exact absurd rfl (notBools left right rfl)
          | _ => cases same
      | returned | error => cases plain
    · rename_i distinct
      exact .typeMismatch (plain_type_name plain) (plain_type_name plain')
        fun same => distinct (ValueType.name_injective same)

end Value

namespace Store.Sound

variable {store : Store}

theorem add (sound : store.Sound named) {scope : Scope}
    (usable : ∀ name value, scope.own name = some value → value.Usable named) :
    (store.add scope).2.Sound named := HoldsOnly.add sound usable

theorem bind (sound : store.Sound named) (scope : Handle) (name : String) {value : Value}
    (usable : value.Usable named) : (store.bind scope name value).Sound named :=
  HoldsOnly.bind sound scope name usable

theorem lookup (sound : store.Sound named) {handle : Handle} {name : String} {value : Value}
    (found : store.lookup handle name = some value) : value.Usable named :=
  HoldsOnly.lookup sound found

end Store.Sound

def Task.Admitted (named : String → Prop) : Task → Prop
  | .expression expr => ∀ name ∈ expr.names, named name
  | .expressions exprs => ∀ name ∈ expressionNames exprs, named name
  | .statement stmt => ∀ name ∈ stmt.names, named name
  | .block last rest =>
      (∀ value ∈ last, value.Sound named) ∧ ∀ name ∈ statementNames rest, named name
  | .call callee values => callee.Usable named ∧ ∀ value ∈ values, value.Usable named

namespace Point

structure Admitted (named : String → Prop) (point : Point) : Prop where
  store : point.start.store.Sound named
  task : point.task.Admitted named

def Keeps (named : String → Prop) (point : Point) : Prop :=
  ∀ results final, point.Ends results final →
    final.store.Sound named ∧ ∀ value ∈ results, value.Sound named

namespace Keeps

variable {start final : Evaluator} {value : Value} {result : Option Value}

theorem expression {expr : Expr} (keeps : Keeps named ⟨.expression expr, start⟩)
    (ended : Evaluation.Ends expr.evaluate start value final) :
    final.store.Sound named ∧ value.Sound named := by
  rcases keeps _ _ (expression_ends_iff.mpr ⟨value, ended, rfl⟩) with ⟨store, sound⟩
  exact ⟨store, sound value List.mem_cons_self⟩

theorem expressions {exprs : List Expr} {values : Except Value (List Value)}
    (keeps : Keeps named ⟨.expressions exprs, start⟩)
    (ended : Evaluation.Ends (evaluateAll exprs) start values final) :
    final.store.Sound named ∧ ∀ value ∈ listed values, value.Sound named :=
  keeps _ _ (expressions_end_iff.mpr ⟨values, ended, rfl⟩)

theorem statement {stmt : Stmt} (keeps : Keeps named ⟨.statement stmt, start⟩)
    (ended : Evaluation.Ends stmt.evaluate start result final) :
    final.store.Sound named ∧ ∀ value ∈ result, value.Sound named := by
  rcases keeps _ _ (statement_ends_iff.mpr ⟨result, ended, rfl⟩) with ⟨store, sound⟩
  exact ⟨store, fun value found => sound value (Option.mem_toList.mpr found)⟩

theorem block {last : Option Value} {rest : Block} (keeps : Keeps named ⟨.block last rest, start⟩)
    (ended : Evaluation.Ends (Block.evaluateAfter last rest) start result final) :
    final.store.Sound named ∧ ∀ value ∈ result, value.Sound named := by
  rcases keeps _ _ (block_ends_iff.mpr ⟨result, ended, rfl⟩) with ⟨store, sound⟩
  exact ⟨store, fun value found => sound value (Option.mem_toList.mpr found)⟩

theorem call {callee : Value} {values : List Value}
    (keeps : Keeps named ⟨.call callee values, start⟩)
    (ended : Evaluation.Ends (callee.call values) start value final) :
    final.store.Sound named ∧ value.Sound named := by
  rcases keeps _ _ (call_ends_iff.mpr ⟨value, ended, rfl⟩) with ⟨store, sound⟩
  exact ⟨store, sound value List.mem_cons_self⟩

end Keeps

end Point

theorem arguments_unsignalled {exprs : List Expr} {values : List Value} {start final : Evaluator}
    (ended : Ends (evaluateAll exprs) start (.ok values) final) :
    ∀ value ∈ values, value.isSignal = false := by
  induction exprs generalizing start values with
  | nil =>
      rcases no_expressions_end_iff.mp ended with ⟨same, _⟩
      cases same
      exact fun _ member => absurd member List.not_mem_nil
  | cons first rest induction =>
      rcases expressions_end_iff.mp ended with ⟨value, middle, _, outcome⟩
      split at outcome
      · cases outcome.1
      · rename_i unsignalled
        rcases outcome with ⟨others, endedRest, same⟩
        cases others with
        | error signal => cases same
        | ok others =>
            cases same
            exact List.forall_mem_cons.mpr ⟨eq_false_of_ne_true unsignalled, induction endedRest⟩

/-- A block in a new scope is admitted when the bindings of the scope are usable. -/
theorem added_admitted {store : Store} {scope : Scope} {body : Block} (sound : store.Sound named)
    (own : ∀ name value, scope.own name = some value → value.Usable named)
    (names : ∀ name ∈ statementNames body, named name) :
    Point.Admitted named ⟨.block none body, ⟨(store.add scope).2, store.size⟩⟩ where
  store := sound.add own
  task := ⟨fun value found => absurd found (Option.not_mem_none value), names⟩

section Parts

variable {point part : Point}

theorem begun_admitted (admitted : point.Admitted named) (begins : BeginsPart point part)
    (earlier : ∀ part, BeginsPart point part → part.Admitted named → part.Keeps named) :
    part.Admitted named := by
  rcases admitted with ⟨store, task⟩
  cases begins with
  | operand | bound | returned | yielded => exact ⟨store, task⟩
  | left | ifThenCondition | ifElseCondition | callee | firstExpression =>
      exact ⟨store, (List.forall_mem_append.mp task).1⟩
  | firstStatement => exact ⟨store, (List.forall_mem_append.mp task.2).1⟩
  | right ended unsignalled =>
      rcases List.forall_mem_append.mp task with ⟨lefts, rights⟩
      exact ⟨((earlier _ .left ⟨store, lefts⟩).expression ended).1, rights⟩
  | ifThenConsequence ended unsignalled truthy =>
      rcases List.forall_mem_append.mp task with ⟨conditions, consequences⟩
      have middle := ((earlier _ .ifThenCondition ⟨store, conditions⟩).expression ended).1
      exact added_admitted middle (fun _ _ bound => nomatch bound) consequences
  | ifElseConsequence ended unsignalled truthy =>
      rcases List.forall_mem_append.mp task with ⟨conditions, branches⟩
      have middle := ((earlier _ .ifElseCondition ⟨store, conditions⟩).expression ended).1
      exact added_admitted middle (fun _ _ bound => nomatch bound)
        (List.forall_mem_append.mp branches).1
  | ifElseAlternative ended unsignalled untruthy =>
      rcases List.forall_mem_append.mp task with ⟨conditions, branches⟩
      have middle := ((earlier _ .ifElseCondition ⟨store, conditions⟩).expression ended).1
      exact added_admitted middle (fun _ _ bound => nomatch bound)
        (List.forall_mem_append.mp branches).2
  | arguments ended unsignalled =>
      rcases List.forall_mem_append.mp task with ⟨callees, arguments⟩
      exact ⟨((earlier _ .callee ⟨store, callees⟩).expression ended).1, arguments⟩
  | call ended unsignalled endedAll =>
      rcases List.forall_mem_append.mp task with ⟨callees, arguments⟩
      rcases (earlier _ .callee ⟨store, callees⟩).expression ended with ⟨middle, function⟩
      have listedArguments := earlier _ (.arguments ended unsignalled) ⟨middle, arguments⟩
      rcases listedArguments.expressions endedAll with ⟨last, sound⟩
      have plain := arguments_unsignalled endedAll
      exact ⟨last, ⟨unsignalled, function⟩,
        fun value member => ⟨plain value member, sound value member⟩⟩
  | otherExpressions ended unsignalled =>
      rcases List.forall_mem_append.mp task with ⟨firsts, rests⟩
      exact ⟨((earlier _ .firstExpression ⟨store, firsts⟩).expression ended).1, rests⟩
  | otherStatements ended unsignalled =>
      rcases List.forall_mem_append.mp task.2 with ⟨firsts, rests⟩
      rcases (earlier _ .firstStatement ⟨store, firsts⟩).statement ended with ⟨middle, sound⟩
      exact ⟨middle, sound, rests⟩
  | body =>
      rcases task with ⟨⟨_, function⟩, values⟩
      exact added_admitted store (fun _ _ => Scope.own_of_bind_all values) function

/-- A branch comes to what its block yields, or to null. -/
theorem branch_sound {body : Block} {start final : Evaluator} {value : Value}
    (keeps : Point.Keeps named ⟨.block none body, branched start⟩)
    (ended : Ends (fun depth => branch (body.evaluate depth)) start value final) :
    final.store.Sound named ∧ value.Sound named := by
  rcases ends_branch_iff.mp ended with ⟨result, inner, endedBody, rfl, rfl⟩
  rcases keeps.block endedBody with ⟨store, sound⟩
  refine ⟨store, ?_⟩
  cases result with
  | none => trivial
  | some value => exact sound value rfl

variable {start middle final : Evaluator} {first value : Value}

/-- What is sound after a first stage is still so after the whole, if the rest keeps it behind a
value that is no signal. -/
theorem stage_sound {rest : Prop}
    (outcome : if first.isSignal then value = first ∧ final = middle else rest)
    (sound : middle.store.Sound named ∧ first.Sound named)
    (goesOn : first.isSignal = false → rest → final.store.Sound named ∧ value.Sound named) :
    final.store.Sound named ∧ value.Sound named := by
  split at outcome
  · rcases outcome with ⟨rfl, rfl⟩
    exact sound
  · rename_i unsignalled
    exact goesOn (eq_false_of_ne_true unsignalled) outcome

theorem expression_sound {expr : Expr} (admitted : Point.Admitted named ⟨.expression expr, start⟩)
    (parts : ∀ part, BeginsPart ⟨.expression expr, start⟩ part → part.Keeps named)
    (ended : Ends expr.evaluate start value final) :
    final.store.Sound named ∧ value.Sound named := by
  rcases admitted with ⟨store, task⟩
  cases expr with
  | name name =>
      rcases name_ends_iff.mp ended with ⟨rfl, rfl⟩
      refine ⟨store, ?_⟩
      cases found : final.store.lookup final.current name with
      | none => exact .unbound (task name List.mem_cons_self)
      | some value => exact (store.lookup found).2
  | int literal =>
      rcases int_ends_iff.mp ended with ⟨rfl, rfl⟩
      exact ⟨store, trivial⟩
  | bool literal =>
      rcases bool_ends_iff.mp ended with ⟨rfl, rfl⟩
      exact ⟨store, trivial⟩
  | function parameters body =>
      rcases function_ends_iff.mp ended with ⟨rfl, rfl⟩
      exact ⟨store, task⟩
  | unary op operand =>
      rcases unary_ends_iff.mp ended with ⟨inner, middle, endedOperand, outcome⟩
      have sound := (parts _ .operand).expression endedOperand
      apply stage_sound outcome sound
      intro unsignalled outcome
      rcases outcome with ⟨rfl, rfl⟩
      exact ⟨sound.1, Value.unary_apply_sound op unsignalled⟩
  | binary left op right =>
      rcases binary_ends_iff.mp ended with ⟨first, middle, endedLeft, outcome⟩
      apply stage_sound outcome ((parts _ .left).expression endedLeft)
      intro plainFirst outcome
      rcases outcome with ⟨second, last, endedRight, outcome⟩
      have sound := (parts _ (.right endedLeft plainFirst)).expression endedRight
      apply stage_sound outcome sound
      intro plainSecond outcome
      rcases outcome with ⟨rfl, rfl⟩
      exact ⟨sound.1, Value.binary_apply_sound op plainFirst plainSecond⟩
  | ifThen condition consequence =>
      rcases if_then_ends_iff.mp ended with ⟨chosen, middle, endedCondition, outcome⟩
      have sound := (parts _ .ifThenCondition).expression endedCondition
      apply stage_sound outcome sound
      intro unsignalled outcome
      split at outcome
      · rename_i truthy
        exact branch_sound (parts _ (.ifThenConsequence endedCondition unsignalled truthy)) outcome
      · rcases outcome with ⟨rfl, rfl⟩
        exact ⟨sound.1, trivial⟩
  | ifElse condition consequence alternative =>
      rcases if_else_ends_iff.mp ended with ⟨chosen, middle, endedCondition, outcome⟩
      apply stage_sound outcome ((parts _ .ifElseCondition).expression endedCondition)
      intro unsignalled outcome
      split at outcome
      · rename_i truthy
        exact branch_sound (parts _ (.ifElseConsequence endedCondition unsignalled truthy)) outcome
      · rename_i untruthy
        exact branch_sound (parts _ (.ifElseAlternative endedCondition unsignalled untruthy))
          outcome
  | call callee arguments =>
      rcases call_ends_iff.mp ended with ⟨function, middle, endedCallee, outcome⟩
      apply stage_sound outcome ((parts _ .callee).expression endedCallee)
      intro unsignalled outcome
      rcases outcome with ⟨values, last, endedAll, outcome⟩
      have listedArguments := parts _ (.arguments endedCallee unsignalled)
      cases values with
      | error signal =>
          rcases outcome with ⟨rfl, rfl⟩
          rcases listedArguments.expressions endedAll with ⟨storeLast, soundAll⟩
          exact ⟨storeLast, soundAll value List.mem_cons_self⟩
      | ok values => exact (parts _ (.call endedCallee unsignalled endedAll)).call outcome

theorem expressions_sound {exprs : List Expr} {values : Except Value (List Value)}
    (admitted : Point.Admitted named ⟨.expressions exprs, start⟩)
    (parts : ∀ part, BeginsPart ⟨.expressions exprs, start⟩ part → part.Keeps named)
    (ended : Ends (evaluateAll exprs) start values final) :
    final.store.Sound named ∧ ∀ value ∈ listed values, value.Sound named := by
  cases exprs with
  | nil =>
      rcases no_expressions_end_iff.mp ended with ⟨rfl, rfl⟩
      exact ⟨admitted.store, fun _ member => absurd member List.not_mem_nil⟩
  | cons first rest =>
      rcases expressions_end_iff.mp ended with ⟨value, middle, endedFirst, outcome⟩
      rcases (parts _ .firstExpression).expression endedFirst with ⟨storeMiddle, sound⟩
      split at outcome
      · rcases outcome with ⟨rfl, rfl⟩
        exact ⟨storeMiddle, List.forall_mem_singleton.mpr sound⟩
      · rename_i plain
        rcases outcome with ⟨others, endedRest, rfl⟩
        have rests := parts _ (.otherExpressions endedFirst (eq_false_of_ne_true plain))
        rcases rests.expressions endedRest with ⟨storeLast, soundRest⟩
        cases others with
        | error signal => exact ⟨storeLast, soundRest⟩
        | ok others => exact ⟨storeLast, List.forall_mem_cons.mpr ⟨sound, soundRest⟩⟩

variable {result : Option Value}

theorem statement_sound {stmt : Stmt} (parts : ∀ part, BeginsPart ⟨.statement stmt, start⟩ part →
      part.Keeps named) (ended : Ends stmt.evaluate start result final) :
    final.store.Sound named ∧ ∀ value ∈ result, value.Sound named := by
  cases stmt with
  | bind name expr =>
      rcases bind_ends_iff.mp ended with ⟨value, middle, endedExpr, outcome⟩
      rcases (parts _ .bound).expression endedExpr with ⟨storeMiddle, sound⟩
      split at outcome
      · rcases outcome with ⟨rfl, rfl⟩
        exact ⟨storeMiddle, fun _ found => Option.some.inj found ▸ sound⟩
      · rename_i plain
        rcases outcome with ⟨rfl, rfl⟩
        exact ⟨storeMiddle.bind _ name ⟨eq_false_of_ne_true plain, sound⟩,
          fun value found => absurd found (Option.not_mem_none value)⟩
  | «return» expr =>
      rcases return_ends_iff.mp ended with ⟨value, endedExpr, rfl⟩
      rcases (parts _ .returned).expression endedExpr with ⟨storeFinal, sound⟩
      refine ⟨storeFinal, ?_⟩
      intro yielded found
      cases found
      split
      · exact sound
      · rename_i plain
        exact ⟨eq_false_of_ne_true plain, sound⟩
  | expr expr =>
      rcases expr_ends_iff.mp ended with ⟨value, endedExpr, rfl⟩
      rcases (parts _ .yielded).expression endedExpr with ⟨storeFinal, sound⟩
      exact ⟨storeFinal, fun _ found => Option.some.inj found ▸ sound⟩

theorem block_sound {last : Option Value} {rest : Block}
    (admitted : Point.Admitted named ⟨.block last rest, start⟩)
    (parts : ∀ part, BeginsPart ⟨.block last rest, start⟩ part → part.Keeps named)
    (ended : Ends (Block.evaluateAfter last rest) start result final) :
    final.store.Sound named ∧ ∀ value ∈ result, value.Sound named := by
  cases rest with
  | nil =>
      rcases empty_block_ends_iff.mp ended with ⟨rfl, rfl⟩
      exact ⟨admitted.store, admitted.task.1⟩
  | cons first rest =>
      rcases block_ends_iff.mp ended with ⟨value, middle, endedFirst, outcome⟩
      rcases (parts _ .firstStatement).statement endedFirst with ⟨storeMiddle, sound⟩
      split at outcome
      · rcases outcome with ⟨rfl, rfl⟩
        exact ⟨storeMiddle, sound⟩
      · rename_i plain
        exact (parts _ (.otherStatements endedFirst (eq_false_of_ne_true plain))).block outcome

theorem call_sound {callee : Value} {values : List Value}
    (admitted : Point.Admitted named ⟨.call callee values, start⟩)
    (parts : ∀ part, BeginsPart ⟨.call callee values, start⟩ part → part.Keeps named)
    (ended : Ends (callee.call values) start value final) :
    final.store.Sound named ∧ value.Sound named := by
  by_cases other : callee.type = .function
  · cases callee with
    | function parameters body home =>
        rcases function_call_ends_iff.mp ended with ⟨result, inner, endedBody, rfl, rfl⟩
        rcases (parts _ .body).block endedBody with ⟨store, sound⟩
        refine ⟨store, Value.Sound.unwrap ?_⟩
        cases result with
        | none => trivial
        | some value => exact sound value rfl
    | _ => cases other
  · rcases (other_call_ends_iff other).mp ended with ⟨rfl, rfl⟩
    exact ⟨admitted.store, Value.not_function_sound admitted.task.1.1 other⟩

theorem point_sound (admitted : point.Admitted named)
    (parts : ∀ part, BeginsPart point part → part.Keeps named) : point.Keeps named := by
  intro results final endedPoint
  rcases point with ⟨task, start⟩
  cases task with
  | expression expr =>
      rcases Point.expression_ends_iff.mp endedPoint with ⟨value, ended, rfl⟩
      rcases expression_sound admitted parts ended with ⟨store, sound⟩
      exact ⟨store, List.forall_mem_singleton.mpr sound⟩
  | expressions exprs =>
      rcases Point.expressions_end_iff.mp endedPoint with ⟨values, ended, rfl⟩
      exact expressions_sound admitted parts ended
  | statement stmt =>
      rcases Point.statement_ends_iff.mp endedPoint with ⟨result, ended, rfl⟩
      rcases statement_sound parts ended with ⟨store, sound⟩
      exact ⟨store, fun value member => sound value (Option.mem_toList.mp member)⟩
  | block last rest =>
      rcases Point.block_ends_iff.mp endedPoint with ⟨result, ended, rfl⟩
      rcases block_sound admitted parts ended with ⟨store, sound⟩
      exact ⟨store, fun value member => sound value (Option.mem_toList.mp member)⟩
  | call callee values =>
      rcases Point.call_ends_iff.mp endedPoint with ⟨value, ended, rfl⟩
      rcases call_sound admitted parts ended with ⟨store, sound⟩
      exact ⟨store, List.forall_mem_singleton.mpr sound⟩

theorem admitted_keeps (admitted : point.Admitted named) : point.Keeps named := by
  intro results final ended
  -- The step is made for points that are admitted; that they are is passed on to the parts.
  have step (point : Point)
      (parts : ∀ part, BeginsPart point part → part.Admitted named → part.Keeps named)
      (admitted : point.Admitted named) : point.Keeps named :=
    point_sound admitted fun part begins =>
      parts part begins (begun_admitted admitted begins parts)
  exact terminating_induction step ⟨results, final, ended⟩ admitted results final ended

theorem visited_admitted {reached : Point} (admitted : point.Admitted named)
    (visits : Visits point reached) : reached.Admitted named := by
  induction visits with
  | refl => exact admitted
  | tail _ begins induction =>
      exact begun_admitted induction begins fun _ _ admitted => admitted_keeps admitted

end Parts

theorem Store.sound_iff {store : Store} :
    store.Sound named ↔ store.SignalFree ∧ ∀ name, store.Reads name → named name := by
  constructor
  · intro sound
    refine ⟨fun handle scope present name value bound =>
      (sound handle scope present name value bound).1, ?_⟩
    intro name reads
    rcases reads with ⟨handle, scope, bound, parameters, body, home, present, own, read⟩
    exact (sound handle scope present bound _ own).2 name read
  · intro both handle scope present bound value own
    rcases both with ⟨free, reads⟩
    have plain := free handle scope present bound value own
    refine ⟨plain, ?_⟩
    cases value with
    | int | bool | null => trivial
    | returned | error => cases plain
    | function parameters body home =>
        exact fun name read => reads name ⟨_, _, _, _, _, _, present, own, read⟩

/-- Programs run one after another, each in some scope, and the store that they lead to. -/
inductive ProgramsRun (first : Store) : List Program → Store → Prop where
  | start : ProgramsRun first [] first
  | next {programs : List Program} {program : Program} {store later : Store} {depth : Nat}
      {scope : Handle} {result : Option Value} (before : ProgramsRun first programs store)
      (ran : program.run depth scope store = some (result, later)) :
      ProgramsRun first (programs ++ [program]) later

section Programs

variable {first store later : Store} {program : Program} {programs : List Program} {scope : Handle}

theorem program_admitted (sound : store.Sound named)
    (names : ∀ name ∈ Block.names program, named name) :
    Point.Admitted named ⟨.block none program, ⟨store, scope⟩⟩ where
  store := sound
  task := ⟨fun value found => absurd found (Option.not_mem_none value), names⟩

theorem program_run_sound {depth : Nat} {result : Option Value} (sound : store.Sound named)
    (names : ∀ name ∈ Block.names program, named name)
    (ranThere : program.run depth scope store = some (result, later)) :
    later.Sound named ∧ ∀ value ∈ result, value.Sound named := by
  rcases in_scope_eq_some_iff.mp ranThere with ⟨final, ran, rfl⟩
  rcases program_ends_iff.mp ⟨depth, ran⟩ with ⟨yielded, ended, rfl⟩
  rcases (admitted_keeps (program_admitted sound names)).block ended with ⟨store, soundAll⟩
  refine ⟨store, ?_⟩
  intro value found
  rcases Option.map_eq_some_iff.mp found with ⟨inner, foundInner, rfl⟩
  exact (soundAll inner foundInner).unwrap

/-- Whatever functions the store binds, they come from the programs or were there before. -/
theorem programs_run_sound (free : first.SignalFree) (before : ProgramsRun first programs store) :
    store.Sound fun name =>
      first.Reads name ∨ ∃ earlier ∈ programs, name ∈ Block.names earlier := by
  induction before with
  | start => exact Store.sound_iff.mpr ⟨free, fun name reads => .inl reads⟩
  | @next programs program store later _ _ _ _ ran induction =>
      rcases Store.sound_iff.mp induction with ⟨freeNow, reads⟩
      refine (program_run_sound (Store.sound_iff.mpr ⟨freeNow, ?_⟩) ?_ ran).1
      · intro name read
        rcases reads name read with there | ⟨earlier, member, named⟩
        · exact .inl there
        · exact .inr ⟨earlier, List.mem_append_left _ member, named⟩
      · intro name read
        exact .inr ⟨program, List.mem_append_right _ List.mem_cons_self, read⟩

end Programs

/-- From a store that binds no signal, after any programs, the errors that the next program makes
have listed messages: those that any part of its run comes to and the one that it comes to itself.
The names in the messages are read by the program or by functions that are bound when it starts, and
those read by functions have been read by a program before or by functions bound at first. -/
theorem errors_are_listed {first store : Store} (free : first.SignalFree)
    {programs : List Program} (before : ProgramsRun first programs store) (program : Program)
    (scope : Handle) :
    let named (name : String) : Prop := name ∈ Block.names program ∨ store.Reads name
    (∀ reached, Visits ⟨.block none program, ⟨store, scope⟩⟩ reached →
      ∀ results final, reached.Ends results final →
        ∀ message, .error message ∈ results → ListedMessage named message) ∧
    (∀ depth message later, program.run depth scope store = some (some (.error message), later) →
      ListedMessage named message) ∧
    ∀ name, store.Reads name →
      first.Reads name ∨ ∃ earlier ∈ programs, name ∈ Block.names earlier := by
  intro named
  rcases Store.sound_iff.mp (programs_run_sound free before) with ⟨freeNow, reads⟩
  have sound : store.Sound named := Store.sound_iff.mpr ⟨freeNow, fun name read => .inr read⟩
  have names : ∀ name ∈ Block.names program, named name := fun name read => .inl read
  refine ⟨?_, ?_, reads⟩
  · intro reached visits results final ended message member
    have admitted := visited_admitted (program_admitted sound names) visits
    exact (admitted_keeps admitted results final ended).2 _ member
  · intro depth message later ran
    exact (program_run_sound sound names ran).2 _ rfl

def unboundReader : Program := [.bind "f" (.function [] [.expr (.name "missing")])]

/-- The next program calls the function, and the error shows the name that the function reads. -/
theorem unbound_reader_error :
    ∃ store later, ProgramsRun Store.empty.addRoot.2 [unboundReader] store ∧
      Program.run 1 0 [.expr (.call (.name "f") [])] store =
        some (some (.error "identifier not found: missing"), later) ∧
      ListedMessage (fun name => name ∈ ["f"] ∨ store.Reads name)
        "identifier not found: missing" ∧
      ∀ name, store.Reads name → Store.empty.addRoot.2.Reads name ∨
        ∃ earlier ∈ [unboundReader], name ∈ Block.names earlier := by
  have ran : (unboundReader.run 0 0 Store.empty.addRoot.2 >>= fun (_, store) =>
      Program.run 1 0 [.expr (.call (.name "f") [])] store).map Prod.fst =
        some (some (.error "identifier not found: missing")) := by
    decide +kernel
  rcases Option.map_eq_some_iff.mp ran with ⟨⟨value, later⟩, ran, rfl⟩
  rcases Option.bind_eq_some_iff.mp ran with ⟨⟨result, store⟩, ranFirst, ranSecond⟩
  have free : Store.empty.addRoot.2.SignalFree :=
    Store.SignalFree.empty.add fun _ _ bound => nomatch bound
  have before : ProgramsRun Store.empty.addRoot.2 [unboundReader] store := .next .start ranFirst
  rcases errors_are_listed free before [.expr (.call (.name "f") [])] 0 with ⟨_, listed, reads⟩
  exact ⟨store, later, before, ranSecond, listed 1 _ later ranSecond, reads⟩

end Scriptlet
