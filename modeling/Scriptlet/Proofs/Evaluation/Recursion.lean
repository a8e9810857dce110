import Mathlib.Data.Nat.Factorial.Basic
import Mathlib.Data.Nat.Fib.Basic
import Scriptlet.Proofs.Evaluation.Arithmetic
import Scriptlet.Proofs.Evaluation.LateBinding

/-!
Functions that call themselves by their names. A function is bound in the scope that it is written
in, so that each of its calls sees it from a scope further inside, and its own parameter before the
parameters of the calls that wait for it. The factorials and the Fibonacci numbers come out right at
every depth, up to wrapping around.
-/

namespace Scriptlet

open Evaluation

/-- From the scope that the evaluator stands in, the name means this value. -/
structure Evaluator.Sees (start : Evaluator) (name : String) (value : Value) : Prop where
  present : start.current < start.store.size
  found : start.store.lookup start.current name = some value

namespace Store

variable {earlier later : Store}

/-- What names mean from the earlier scopes stays as it is. -/
theorem Preserves.lookup (preserves : later.Preserves earlier) (name : String) {seen : Handle}
    (present : seen < earlier.size) : later.lookup seen name = earlier.lookup seen name := by
  apply lookup_congr fun handle => handle < earlier.size
  · intro handle older
    rw [ownOf, ownOf, preserves.same handle older]
  · intro handle older
    rw [parentOf, parentOf, preserves.same handle older]
  · intro _ _ older _ _ outward
    exact Nat.lt_trans outward older
  · exact present

end Store

section Sees

variable {start final : Evaluator} {name parameter : String} {value argument : Value}
  {home : Handle}

theorem sees_later (sees : start.Sees name value)
    (kept : final.current = start.current ∧ final.store.Preserves start.store) :
    final.Sees name value := by
  rcases kept with ⟨same, preserves⟩
  constructor
  · rw [same]
    exact Nat.lt_of_lt_of_le sees.present preserves.grown
  · rw [same, preserves.lookup name sees.present]
    exact sees.found

/-- A new scope sees what it binds itself, and beyond that what its parent sees. -/
theorem sees_added {store : Store} {scope : Scope} {parent : Handle}
    (link : scope.parent = some parent) (older : parent < store.size)
    (means : (scope.own name).or (store.lookup parent name) = some value) :
    (⟨(store.add scope).2, store.size⟩ : Evaluator).Sees name value := by
  have outer := ((Store.Preserves.refl store).add scope).lookup name older
  constructor
  · simp [Store.size_add]
  · rw [Store.lookup_eq, Store.own_of_add, Store.parent_of_add, if_pos rfl, if_pos rfl, link,
      Option.bind_some, if_pos older, outer]
    exact means

theorem sees_branched (sees : start.Sees name value) : (branched start).Sees name value :=
  sees_added rfl sees.present sees.found

/-- In the scope of a call the parameter means the argument, whatever it means further out. -/
theorem entered_sees_argument (present : home < start.store.size) :
    (entered start [parameter] home [argument]).Sees parameter argument := by
  apply sees_added rfl present
  simp [Scope.bindAll, Scope.own_bind]

/-- Other names mean in a call what they mean where the function was written. -/
theorem entered_sees_outer (sees : (⟨start.store, home⟩ : Evaluator).Sees name value)
    (other : name ≠ parameter) : (entered start [parameter] home [argument]).Sees name value := by
  apply sees_added rfl sees.present
  simp [Scope.bindAll, Scope.own_bind, Scope.empty, other, sees.found]

end Sees

section Forms

variable {start middle inner final : Evaluator} {value : Value} {result : Option Value}

theorem seen_name_ends {name : String} (sees : start.Sees name value) :
    Ends (Expr.name name).evaluate start value start := by
  apply name_ends_iff.mpr
  simp [sees.found]

theorem literal_ends (literal : Int64) :
    Ends (Expr.int literal).evaluate start (.int literal) start :=
  int_ends_iff.mpr ⟨rfl, rfl⟩

/-- A name that a function is bound to is called with the value of one argument. -/
theorem named_call_ends {name : String} {parameters : List String} {body : Block} {home : Handle}
    {argument : Expr} {number : Int64} (sees : start.Sees name (.function parameters body home))
    (ended : Ends argument.evaluate start (.int number) middle)
    (called : Ends ((Value.function parameters body home).call [.int number]) middle value final) :
    Ends (Expr.call (.name name) [argument]).evaluate start value final := by
  have arguments : Ends (evaluateAll [argument]) start (.ok [.int number]) middle := by
    apply expressions_end_iff.mpr
    exact ⟨_, _, ended, _, no_expressions_end_iff.mpr ⟨rfl, rfl⟩, rfl⟩
  apply call_ends_iff.mpr
  exact ⟨_, _, seen_name_ends sees, _, _, arguments, called⟩

/-- An expression at the end of a block is what the block yields. -/
theorem yielding_ends {expr : Expr} {last : Option Value}
    (ended : Ends expr.evaluate start value final) :
    Ends (Block.evaluateAfter last [.expr expr]) start (some value) final := by
  apply block_ends_iff.mpr
  refine ⟨_, _, expr_ends_iff.mpr ⟨_, ended, rfl⟩, ?_⟩
  split
  · exact ⟨rfl, rfl⟩
  · exact empty_block_ends_iff.mpr ⟨rfl, rfl⟩

theorem returning_ends {expr : Expr} {number : Int64}
    (ended : Ends expr.evaluate start (.int number) final) :
    Ends (Block.evaluate [.return expr]) start (some (.returned (.int number))) final := by
  apply block_ends_iff.mpr
  exact ⟨_, _, return_ends_iff.mpr ⟨_, ended, rfl⟩, rfl, rfl⟩

theorem chosen_branch_ends {condition : Expr} {consequence alternative : Block} {holds : Bool}
    (ended : Ends condition.evaluate start (.bool holds) start)
    (endedBranch : Ends (if holds then consequence else alternative).evaluate (branched start)
      result inner) :
    Ends (Expr.ifElse condition consequence alternative).evaluate start (result.getD .null)
      ⟨inner.store, start.current⟩ := by
  apply if_else_ends_iff.mpr
  refine ⟨_, _, ended, ?_⟩
  cases holds with
  | true => exact ends_branch_iff.mpr ⟨_, _, endedBranch, rfl, rfl⟩
  | false => exact ends_branch_iff.mpr ⟨_, _, endedBranch, rfl, rfl⟩

/-- A return inside a branch ends the block around the branch. -/
theorem returned_from_branch {condition : Expr} {body rest : Block} {number : Int64}
    (test : Ends condition.evaluate start (.bool true) start)
    (ended : Ends body.evaluate (branched start) (some (.returned (.int number))) inner) :
    Ends (Block.evaluate (.expr (.ifThen condition body) :: rest)) start
      (some (.returned (.int number))) ⟨inner.store, start.current⟩ := by
  have branch : Ends (Expr.ifThen condition body).evaluate start (.returned (.int number))
      ⟨inner.store, start.current⟩ := by
    apply if_then_ends_iff.mpr
    exact ⟨_, _, test, ends_branch_iff.mpr ⟨_, _, ended, rfl, rfl⟩⟩
  apply block_ends_iff.mpr
  exact ⟨_, _, expr_ends_iff.mpr ⟨_, branch, rfl⟩, rfl, rfl⟩

/-- A block goes on behind a branch that is not taken. -/
theorem passed_by_branch {condition : Expr} {body rest : Block}
    (test : Ends condition.evaluate start (.bool false) start)
    (ended : Ends (Block.evaluateAfter (some .null) rest) start result final) :
    Ends (Block.evaluate (.expr (.ifThen condition body) :: rest)) start result final := by
  have branch : Ends (Expr.ifThen condition body).evaluate start .null start := by
    apply if_then_ends_iff.mpr
    exact ⟨_, _, test, rfl, rfl⟩
  apply block_ends_iff.mpr
  exact ⟨_, _, expr_ends_iff.mpr ⟨_, branch, rfl⟩, ended⟩

theorem function_ends {parameters : List String} {body : Block} {home : Handle}
    {values : List Value}
    (ended : Ends body.evaluate (entered start parameters home values) (some value) inner) :
    Ends ((Value.function parameters body home).call values) start value.unwrap
      ⟨inner.store, start.current⟩ :=
  function_call_ends_iff.mpr ⟨_, _, ended, rfl, rfl⟩

end Forms

section Numbers

variable {number : Nat}

theorem less_than_two_iff (fits : number < 2 ^ 63) : Int64.ofNat number < 2 ↔ number < 2 := by
  have two : (2 : Int64).toInt = 2 := rfl
  rw [Int64.lt_iff_toInt_lt, Int64.toInt_ofNat_of_lt fits, two]
  omega

theorem less_by (number less : Nat) :
    Int64.ofNat (number + less) - Int64.ofNat less = Int64.ofNat number := by
  rw [Int64.ofNat_add]
  exact Int64.add_sub_cancel _ _

end Numbers

def isSmall : Expr := .binary (.name "n") .less (.int 2)

def callBelow (name : String) (less : Nat) : Expr :=
  .call (.name name) [.binary (.name "n") .subtract (.int (.ofNat less))]

def factorialProduct : Expr := .binary (.name "n") .multiply (callBelow "fact" 1)

def factorialChoice : Expr := .ifElse isSmall [.expr (.int 1)] [.expr factorialProduct]

def factorialBody : Block := [.expr factorialChoice]

def fibonacciSum : Expr := .binary (callBelow "fib" 1) .add (callBelow "fib" 2)

def fibonacciBody : Block := [.expr (.ifThen isSmall [.return (.name "n")]), .expr fibonacciSum]

/-- Wherever the name is seen to mean the function from its home, calling the function with the
argument comes to the result, both of them reduced to the width of integers. -/
def Computes (name : String) (body : Block) (argument result : Nat) : Prop :=
  ∀ (home : Handle) (start : Evaluator),
    (⟨start.store, home⟩ : Evaluator).Sees name (.function ["n"] body home) →
      ∃ final, Ends ((Value.function ["n"] body home).call [.int (.ofNat argument)]) start
        (.int (.ofNat result)) final

/-- Inside a call with this argument, the argument and the function are seen, and the function is
also seen from its home. -/
structure InCall (name : String) (body : Block) (home : Handle) (number : Nat)
    (start : Evaluator) : Prop where
  argument : start.Sees "n" (.int (.ofNat number))
  function : start.Sees name (.function ["n"] body home)
  atHome : (⟨start.store, home⟩ : Evaluator).Sees name (.function ["n"] body home)

section Calls

variable {start final : Evaluator} {home : Handle} {name : String} {body : Block}
  {number result : Nat}

theorem in_call_entered (start : Evaluator) (number : Nat) (other : name ≠ "n")
    (atHome : (⟨start.store, home⟩ : Evaluator).Sees name (.function ["n"] body home)) :
    InCall name body home number (entered start ["n"] home [.int (.ofNat number)]) where
  argument := entered_sees_argument atHome.present
  function := entered_sees_outer atHome other
  atHome := sees_later atHome ⟨rfl, (Store.Preserves.refl _).add _⟩

theorem in_call_branched (inCall : InCall name body home number start) :
    InCall name body home number (branched start) where
  argument := sees_branched inCall.argument
  function := sees_branched inCall.function
  atHome := sees_later inCall.atHome ⟨rfl, (Store.Preserves.refl _).add _⟩

theorem in_call_later (inCall : InCall name body home number start)
    (kept : final.current = start.current ∧ final.store.Preserves start.store) :
    InCall name body home number final where
  argument := sees_later inCall.argument kept
  function := sees_later inCall.function kept
  atHome := sees_later inCall.atHome ⟨rfl, kept.2⟩

theorem is_small_ends (inCall : InCall name body home number start) (fits : number < 2 ^ 63) :
    Ends isSmall.evaluate start (.bool (decide (number < 2))) start := by
  have ended : Ends isSmall.evaluate start (.bool (decide (Int64.ofNat number < 2))) start :=
    binary_of_ints_ends (seen_name_ends inCall.argument) (literal_ends 2)
  simp only [less_than_two_iff fits] at ended
  exact ended

/-- A call for a smaller argument comes to its result, back inside the call that makes it. -/
theorem call_below_ends (computes : Computes name body number result) (less : Nat)
    (inCall : InCall name body home (number + less) start) :
    ∃ final, Ends (callBelow name less).evaluate start (.int (.ofNat result)) final ∧
      InCall name body home (number + less) final := by
  rcases computes home start inCall.atHome with ⟨final, called⟩
  have argument : Ends (Expr.binary (.name "n") .subtract (.int (.ofNat less))).evaluate start
      (.int (Int64.ofNat (number + less) - .ofNat less)) start :=
    binary_of_ints_ends (seen_name_ends inCall.argument) (literal_ends _)
  rw [less_by] at argument
  have ended : Ends (callBelow name less).evaluate start (.int (.ofNat result)) final :=
    named_call_ends inCall.function argument called
  exact ⟨final, ended, in_call_later inCall (expression_preserves_store ended)⟩

end Calls

section Factorial

variable {number : Nat}

theorem factorial_of_small (small : number < 2) :
    Computes "fact" factorialBody number number.factorial := by
  intro home start atHome
  have inCall := in_call_entered start number (by decide) atHome
  have test := is_small_ends inCall (by omega)
  rw [decide_eq_true small] at test
  have one : number.factorial = 1 := Nat.factorial_eq_one.mpr (by omega)
  rw [one]
  have chosen : Ends factorialChoice.evaluate _ (.int 1) _ :=
    chosen_branch_ends test (yielding_ends (literal_ends 1))
  exact ⟨_, function_ends (yielding_ends chosen)⟩

theorem factorial_of_smaller (fits : number + 1 < 2 ^ 63) (large : ¬number + 1 < 2)
    (computes : Computes "fact" factorialBody number number.factorial) :
    Computes "fact" factorialBody (number + 1) (number + 1).factorial := by
  intro home start atHome
  have inCall := in_call_entered start (number + 1) (by decide) atHome
  have test := is_small_ends inCall fits
  rw [decide_eq_false large] at test
  -- The product stands in a branch, from which the argument and the function are still seen.
  have inBranch := in_call_branched inCall
  rcases call_below_ends computes 1 inBranch with ⟨final, called, _⟩
  have product : Ends factorialProduct.evaluate _
      (.int (.ofNat (number + 1) * .ofNat number.factorial)) final :=
    binary_of_ints_ends (seen_name_ends inBranch.argument) called
  rw [← Int64.ofNat_mul, ← Nat.factorial_succ] at product
  have chosen : Ends factorialChoice.evaluate _ (.int (.ofNat (number + 1).factorial)) _ :=
    chosen_branch_ends test (yielding_ends product)
  exact ⟨_, function_ends (yielding_ends chosen)⟩

theorem factorial_computes (number : Nat) (fits : number < 2 ^ 63) :
    Computes "fact" factorialBody number number.factorial := by
  induction number with
  | zero => exact factorial_of_small (by decide)
  | succ number induction =>
      by_cases small : number + 1 < 2
      · exact factorial_of_small small
      · exact factorial_of_smaller fits small (induction (by omega))

end Factorial

section Fibonacci

variable {number : Nat}

/-- The return in the branch ends this call alone; the calls that wait for it go on. -/
theorem fibonacci_of_small (small : number < 2) :
    Computes "fib" fibonacciBody number (Nat.fib number) := by
  intro home start atHome
  have inCall := in_call_entered start number (by decide) atHome
  have test := is_small_ends inCall (by omega)
  rw [decide_eq_true small] at test
  have same : Nat.fib number = number := by
    match number, small with
    | 0, _ => rfl
    | 1, _ => rfl
  rw [same]
  have returned := returning_ends (seen_name_ends (in_call_branched inCall).argument)
  exact ⟨_, function_ends (returned_from_branch test returned)⟩

theorem fibonacci_of_smaller (fits : number + 2 < 2 ^ 63)
    (second : Computes "fib" fibonacciBody number (Nat.fib number))
    (first : Computes "fib" fibonacciBody (number + 1) (Nat.fib (number + 1))) :
    Computes "fib" fibonacciBody (number + 2) (Nat.fib (number + 2)) := by
  intro home start atHome
  have inCall := in_call_entered start (number + 2) (by decide) atHome
  have test := is_small_ends inCall fits
  rw [decide_eq_false (by omega)] at test
  rcases call_below_ends first 1 inCall with ⟨middle, called, between⟩
  -- The second call starts with the scopes that the first one has added.
  rcases call_below_ends second 2 between with ⟨final, calledAgain, _⟩
  have sum : Ends fibonacciSum.evaluate _
      (.int (.ofNat (Nat.fib (number + 1)) + .ofNat (Nat.fib number))) final :=
    binary_of_ints_ends called calledAgain
  rw [← Int64.ofNat_add, Nat.add_comm (Nat.fib (number + 1)), ← Nat.fib_add_two] at sum
  exact ⟨_, function_ends (passed_by_branch test (yielding_ends sum))⟩

theorem fibonacci_computes (number : Nat) (fits : number < 2 ^ 63) :
    Computes "fib" fibonacciBody number (Nat.fib number) := by
  induction number using Nat.twoStepInduction with
  | zero => exact fibonacci_of_small (by decide)
  | one => exact fibonacci_of_small (by decide)
  | more number second first =>
      exact fibonacci_of_smaller fits (second (by omega)) (first (by omega))

end Fibonacci

def definedAndCalled (name : String) (body : Block) (argument : Nat) : Program :=
  [.bind name (.function ["n"] body), .expr (.call (.name name) [.int (.ofNat argument)])]

theorem defined_and_called_ends {name : String} {body : Block} {argument result : Nat}
    (computes : Computes name body argument result) {store : Store} {scope : Handle}
    (present : scope < store.size) :
    ∃ final, Ends (Block.evaluate (definedAndCalled name body argument)) ⟨store, scope⟩
      (some (.int (.ofNat result))) final := by
  let defined : Evaluator := ⟨store.bind scope name (.function ["n"] body scope), scope⟩
  have sees : defined.Sees name (.function ["n"] body scope) := by
    constructor
    · exact Nat.lt_of_lt_of_eq present (store.size_bind _ _ _).symm
    · rw [Store.lookup_eq, Store.own_of_bind present]
      rfl
  rcases computes scope defined sees with ⟨final, called⟩
  have ended : Ends (Block.evaluateAfter none [.expr (.call (.name name) [.int (.ofNat argument)])])
      defined (some (.int (.ofNat result))) final :=
    yielding_ends (named_call_ends sees (literal_ends _) called)
  refine ⟨final, ?_⟩
  apply block_ends_iff.mpr
  exact ⟨_, _, function_definition_ends store scope name ["n"] body, ended⟩

end Scriptlet
