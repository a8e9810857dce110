import Scriptlet.Store
import Scriptlet.Value.Operators

/-!
Running programs over a store. An evaluator stands in one scope of its store, where it looks names
up and binds them; it enters another scope for a branch or the body of a function and comes back
afterwards. Evaluation is defined on the shape of the tree; how a call is carried out is a
parameter, and the calls are tied together by counting how deep they nest. A run has no outcome
exactly when its calls nest deeper than the count allows.
-/

namespace Scriptlet

structure Evaluator where
  store : Store
  /-- The scope in which names are looked up and bound. -/
  current : Handle

/-- A computation of an evaluator; it may have no outcome. -/
abbrev Evaluation := StateT Evaluator Option

abbrev Run := StateT Store Option

abbrev Application := Value → List Value → Evaluation Value

namespace Evaluation

def inScope {Result : Type} (scope : Handle) (evaluation : Evaluation Result) : Run Result :=
  fun store => (evaluation ⟨store, scope⟩).map fun (result, evaluator) => (result, evaluator.store)

def current : Evaluation Handle := fun evaluator => some (evaluator.current, evaluator)

def enter (scope : Handle) : Evaluation Unit := fun evaluator =>
  some ((), { evaluator with current := scope })

def within {Result : Type} (scope : Handle) (body : Evaluation Result) : Evaluation Result := do
  let outer ← current
  enter scope
  let result ← body
  enter outer
  return result

def addScope (scope : Scope) : Evaluation Handle := fun evaluator =>
  let (handle, store) := evaluator.store.add scope
  some (handle, { evaluator with store })

def lookup (name : String) : Evaluation (Option Value) := fun evaluator =>
  some (evaluator.store.lookup evaluator.current name, evaluator)

def bindName (name : String) (value : Value) : Evaluation Unit := fun evaluator =>
  some ((), { evaluator with store := evaluator.store.bind evaluator.current name value })

/-- Goes on with a value, unless it is a signal: a signal is the outcome of all that waits for it.
-/
def andThen (evaluation : Evaluation Value) (next : Value → Evaluation Value) :
    Evaluation Value := do
  let value ← evaluation
  if value.isSignal then return value else next value

/-- Evaluates a body in a new scope inside the current one. It has the value null when the body
yields none. -/
def branch (body : Evaluation (Option Value)) : Evaluation Value := do
  let outer ← current
  let inner ← addScope (.empty (some outer))
  let value ← within inner body
  return value.getD .null

variable (apply : Application)

mutual

def expression : Expr → Evaluation Value
  | .name name => do
      let value ← lookup name
      return value.getD (Fault.unbound name).value
  | .int value => return .int value
  | .bool value => return .bool value
  | .unary op operand => (expression operand).andThen fun operand => return op.apply operand
  | .binary left op right =>
      (expression left).andThen fun left =>
        (expression right).andThen fun right => return op.apply left right
  | .ifThen condition consequence =>
      (expression condition).andThen fun condition =>
        if condition.truthy then branch (block none consequence) else return .null
  | .ifElse condition consequence alternative =>
      (expression condition).andThen fun condition =>
        if condition.truthy then branch (block none consequence)
        else branch (block none alternative)
  | .function parameters body => do
      let home ← current
      return .function parameters body home
  | .call callee arguments =>
      (expression callee).andThen fun callee => do
        let values ← expressions arguments
        match values with
        | .error signal => return signal
        | .ok values => apply callee values

def expressions : List Expr → Evaluation (Except Value (List Value))
  | [] => return .ok []
  | first :: rest => do
      let value ← expression first
      if value.isSignal then
        return .error value
      else
        let values ← expressions rest
        return values.map (value :: ·)

def statement : Stmt → Evaluation (Option Value)
  | .bind name value => do
      let value ← expression value
      if value.isSignal then
        return some value
      else
        bindName name value
        return none
  | .return value => do
      let value ← expression value
      return some (if value.isSignal then value else .returned value)
  | .expr value => do
      let value ← expression value
      return some value

/-- Runs statements up to the first signal. The block yields what its last statement yields, and
`last` if it has none. -/
def block (last : Option Value) : Block → Evaluation (Option Value)
  | [] => return last
  | first :: rest => do
      let value ← statement first
      if value.any Value.isSignal then
        return value
      else
        block value rest

end

/-- The value of a call. Functions run in a new scope inside the one they were written in; missing
arguments leave their parameters unbound, and superfluous ones are dropped. -/
def call : Application
  | .function parameters body home, values => do
      let scope ← addScope ((Scope.empty (some home)).bindAll parameters values)
      let value ← within scope (block apply none body)
      return (value.getD .null).unwrap
  | callee, _ => return (Fault.notFunction callee.type).value

def callWithin : (depth : Nat) → Application
  | 0 => fun _ _ _ => none
  | depth + 1 => call (callWithin depth)

end Evaluation

open Evaluation

def Expr.evaluate (expr : Expr) (depth : Nat) : Evaluation Value :=
  expression (callWithin depth) expr

def Block.evaluate (block : Block) (depth : Nat) : Evaluation (Option Value) :=
  Evaluation.block (callWithin depth) none block

/-- What a program yields in the current scope, with calls nested at most `depth` deep. It yields
what its last statement yields, or nothing; a return ends it with the value returned. -/
def Program.evaluate (program : Program) (depth : Nat) : Evaluation (Option Value) := do
  let value ← Block.evaluate program depth
  return value.map Value.unwrap

def Program.run (depth : Nat) (scope : Handle) (program : Program) : Run (Option Value) :=
  (program.evaluate depth).inScope scope

/-- Applies a callee with calls nested at most `depth` deep. The evaluator stands in the oldest
scope, and a call leaves it for the scope of the callee. -/
def applyWithin (depth : Nat) (callee : Value) (values : List Value) : Run Value :=
  (callWithin depth callee values).inScope 0

end Scriptlet
