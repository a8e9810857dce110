import Scriptlet.Proofs.Evaluation.Depth
import Scriptlet.Proofs.Evaluation.Names
import Mathlib.Data.List.Forall2

/-!
Two evaluations side by side. A pairing says which stores, scopes and values of the one go with
which of the other, and that the primitive steps of evaluation keep to this. How many scopes the
left store has is an index of the pairing, as a handle may come to name a scope only later. Two
evaluations agree when both have no outcome, or have outcomes that go together and end in the
scopes they started from; the ways in which evaluations are put together keep agreement.
-/

namespace Scriptlet

section Options

variable {Left Right Left' Right' : Type} {results : Left → Right → Prop}
  {results' : Left' → Right' → Prop} {left : Option Left} {right : Option Right}

theorem rel_bind {leftNext : Left → Option Left'} {rightNext : Right → Option Right'}
    (first : Option.Rel results left right)
    (second : ∀ result result', results result result' →
      Option.Rel results' (leftNext result) (rightNext result')) :
    Option.Rel results' (left.bind leftNext) (right.bind rightNext) := by
  cases first with
  | none => exact .none
  | some together => exact second _ _ together

theorem rel_map {leftNext : Left → Left'} {rightNext : Right → Right'}
    (first : Option.Rel results left right)
    (second : ∀ result result', results result result' →
      results' (leftNext result) (rightNext result')) :
    Option.Rel results' (left.map leftNext) (right.map rightNext) := by
  cases first with
  | none => exact .none
  | some together => exact .some (second _ _ together)

theorem rel_mono {weaker : Left → Right → Prop} (strong : Option.Rel results left right)
    (implied : ∀ result result', results result result' → weaker result result') :
    Option.Rel weaker left right := by
  cases strong with
  | none => exact .none
  | some together => exact .some (implied _ _ together)

end Options

inductive Value.Alike : Value → Value → Prop where
  | same (value : Value) : Alike value value
  | returned (left right : Value) : Alike (.returned left) (.returned right)
  | function {leftNames rightNames : List String} {leftBody rightBody : Block}
      {leftHome rightHome : Handle} :
      Alike (.function leftNames leftBody leftHome) (.function rightNames rightBody rightHome)

namespace Value.Alike

variable {left right left' right' : Value}

theorem same_signal (alike : left.Alike right) : left.isSignal = right.isSignal := by
  cases alike <;> rfl

theorem same_truth (alike : left.Alike right) : left.truthy = right.truthy := by
  cases alike <;> rfl

theorem same_unary (alike : left.Alike right) (op : UnaryOp) : op.apply left = op.apply right := by
  cases alike with
  | same => rfl
  | returned | function => cases op <;> rfl

theorem same_binary (alike : left.Alike left') (alike' : right.Alike right') (op : BinaryOp) :
    op.apply left right = op.apply left' right' := by
  cases alike with
  | same =>
      cases alike' with
      | same => rfl
      | returned | function => cases left <;> rfl
  | returned | function =>
      cases alike' with
      | same => cases right <;> rfl
      | returned | function => rfl

end Value.Alike

inductive Value.Computed : Value → Prop where
  | int (value : Int64) : Computed (.int value)
  | bool (value : Bool) : Computed (.bool value)
  | fault (fault : Fault) : Computed fault.value

theorem UnaryOp.apply_computed (op : UnaryOp) (operand : Value) : (op.apply operand).Computed := by
  cases op with
  | not => exact .bool _
  | negate =>
      cases operand with
      | int value => exact .int _
      | _ => exact .fault _

theorem BinaryOp.apply_ints_computed (op : BinaryOp) (left right : Int64) :
    (op.applyInts left right).Computed := by
  cases op with
  | add | subtract | multiply => exact .int _
  | divide =>
      rw [applyInts]
      split
      · exact .fault _
      · exact .int _
  | less | greater | equal | notEqual => exact .bool _

theorem BinaryOp.apply_bools_computed (op : BinaryOp) (left right : Bool) :
    (op.applyBools left right).Computed := by
  cases op with
  | equal | notEqual => exact .bool _
  | _ => exact .fault _

theorem BinaryOp.apply_computed (op : BinaryOp) (left right : Value) :
    (op.apply left right).Computed := by
  rw [apply.eq_def]
  split
  · exact op.apply_ints_computed _ _
  · exact op.apply_bools_computed _ _
  · split <;> exact .fault _

namespace Scope

theorem bind_all_cons (scope : Scope) (name : String) (names : List String) (value : Value)
    (values : List Value) :
    scope.bindAll (name :: names) (value :: values) =
      (scope.bind name value).bindAll names values := rfl

theorem parent_bind_all (scope : Scope) (names : List String) (values : List Value) :
    (scope.bindAll names values).parent = scope.parent := by
  induction names generalizing scope values with
  | nil => rfl
  | cons name names induction =>
      cases values with
      | nil => rfl
      | cons value values => rw [bind_all_cons, induction, parent_bind]

def BindsAlike (values : Value → Value → Prop) (left right : Scope) : Prop :=
  ∀ name, Option.Rel values (left.own name) (right.own name)

variable {values : Value → Value → Prop}

theorem empty_binds_alike (left right : Option Handle) :
    BindsAlike values (empty left) (empty right) := fun _ => .none

theorem bind_binds_alike {left right : Scope} {value value' : Value} (name : String)
    (before : BindsAlike values left right) (bound : values value value') :
    BindsAlike values (left.bind name value) (right.bind name value') := by
  intro wanted
  rw [own_bind, own_bind]
  split
  · exact .some bound
  · exact before wanted

theorem bind_all_binds_alike (names : List String) {left right : Scope}
    {leftValues rightValues : List Value} (before : BindsAlike values left right)
    (bound : List.Forall₂ values leftValues rightValues) :
    BindsAlike values (left.bindAll names leftValues) (right.bindAll names rightValues) := by
  induction names generalizing left right leftValues rightValues with
  | nil => exact before
  | cons name names induction =>
      cases bound with
      | nil => exact before
      | cons first rest => exact induction (bind_binds_alike name before first) rest

end Scope

/-- Callees that a call treats alike: one function that reads only these names, written in two
scopes that go together, or two values of one type that is not that of functions. -/
inductive SameCallee (reads : String → Prop) (homes : Handle → Handle → Prop) :
    Value → Value → Prop where
  | function (parameters : List String) (body : Block) {left right : Handle}
      (named : ∀ name ∈ Block.names body, reads name) (together : homes left right) :
      SameCallee reads homes (.function parameters body left) (.function parameters body right)
  | other {left right : Value} (same : left.type = right.type) (other : left.type ≠ .function) :
      SameCallee reads homes left right

structure Pairing where
  stores : Store → Store → Prop
  /-- Names that evaluation may look up. -/
  reads : String → Prop
  /-- Scopes in which evaluation may look names up. -/
  readable : (size : Nat) → Handle → Handle → Prop
  /-- Scopes in which evaluation may bind names. -/
  writable : (size : Nat) → Handle → Handle → Prop
  /-- Values that may be bound to a name and handed to a call. -/
  values : (size : Nat) → Value → Value → Prop
  /-- Values that an evaluation may come to, among them the signals. -/
  outcomes : (size : Nat) → Value → Value → Prop
  readable_later {size later : Nat} {left right : Handle} (grown : size ≤ later) :
    readable size left right → readable later left right
  writable_later {size later : Nat} {left right : Handle} (grown : size ≤ later) :
    writable size left right → writable later left right
  values_later {size later : Nat} {left right : Value} (grown : size ≤ later) :
    values size left right → values later left right
  outcomes_later {size later : Nat} {left right : Value} (grown : size ≤ later) :
    outcomes size left right → outcomes later left right
  readable_of_writable {size : Nat} {left right : Handle} :
    writable size left right → readable size left right
  outcome_of_value {size : Nat} {left right : Value} :
    values size left right → outcomes size left right
  value_of_outcome {size : Nat} {left right : Value} (unsignalled : left.isSignal = false) :
    outcomes size left right → values size left right
  alike {size : Nat} {left right : Value} : outcomes size left right → left.Alike right
  int (size : Nat) (value : Int64) : values size (.int value) (.int value)
  bool (size : Nat) (value : Bool) : values size (.bool value) (.bool value)
  null (size : Nat) : values size .null .null
  fault (size : Nat) (fault : Fault) : outcomes size fault.value fault.value
  function {size : Nat} {left right : Handle} (parameters : List String) {body : Block}
    (named : ∀ name ∈ Block.names body, reads name) :
    readable size left right →
      values size (.function parameters body left) (.function parameters body right)
  callee {size : Nat} {left right : Value} :
    outcomes size left right → SameCallee reads (readable size) left right
  returned {size : Nat} {left right : Value} :
    values size left right → outcomes size (.returned left) (.returned right)
  unwrap {size : Nat} {left right : Value} :
    outcomes size left right → outcomes size left.unwrap right.unwrap
  lookup {left right : Store} {here there : Handle} {name : String} (named : reads name) :
    stores left right → readable left.size here there →
      Option.Rel (outcomes left.size) (left.lookup here name) (right.lookup there name)
  add {left right : Store} {here there : Handle} {scope scope' : Scope} :
    stores left right → readable left.size here there →
      scope.parent = some here → scope'.parent = some there →
      scope.BindsAlike (values left.size) scope' →
      stores (left.add scope).2 (right.add scope').2 ∧
        writable (left.size + 1) left.size right.size
  bind {left right : Store} {here there : Handle} {value value' : Value} (name : String) :
    stores left right → writable left.size here there → values left.size value value' →
      stores (left.bind here name value) (right.bind there name value')

open Evaluation

namespace Pairing

variable (pairing : Pairing)

theorem computed {size : Nat} {value : Value} (computed : value.Computed) :
    pairing.outcomes size value value := by
  cases computed with
  | int value => exact pairing.outcome_of_value (pairing.int size value)
  | bool value => exact pairing.outcome_of_value (pairing.bool size value)
  | fault fault => exact pairing.fault size fault

theorem values_alike {size : Nat} {left right : Value} (values : pairing.values size left right) :
    left.Alike right := pairing.alike (pairing.outcome_of_value values)

def Yields (size : Nat) : Option Value → Option Value → Prop := Option.Rel (pairing.outcomes size)

inductive Arguments (size : Nat) : Except Value (List Value) → Except Value (List Value) → Prop
  | error {left right : Value} (together : pairing.outcomes size left right) :
      Arguments size (.error left) (.error right)
  | ok {left right : List Value} (together : List.Forall₂ (pairing.values size) left right) :
      Arguments size (.ok left) (.ok right)

variable {Result Result' Next Next' : Type}

structure Meet (results : Nat → Result → Result' → Prop) (size : Nat) (here there : Handle)
    (left : Result × Evaluator) (right : Result' × Evaluator) : Prop where
  results : results left.2.store.size left.1 right.1
  stores : pairing.stores left.2.store right.2.store
  grown : size ≤ left.2.store.size
  here : left.2.current = here
  there : right.2.current = there

/-- From stores that go together, with so many scopes at least, the two evaluations have no outcome
or outcomes that go together, and end where they started. -/
def Agree (results : Nat → Result → Result' → Prop) (size : Nat) (here there : Handle)
    (left : Evaluation Result) (right : Evaluation Result') : Prop :=
  ∀ store store', pairing.stores store store' → size ≤ store.size →
    Option.Rel (pairing.Meet results store.size here there) (left ⟨store, here⟩)
      (right ⟨store', there⟩)

section Agree

variable {pairing} {results : Nat → Result → Result' → Prop} {size : Nat} {here there : Handle}

theorem agree_pure {result : Result} {result' : Result'}
    (together : ∀ later, size ≤ later → results later result result') :
    pairing.Agree results size here there (pure result) (pure result') :=
  fun store _ stores enough => .some ⟨together store.size enough, stores, Nat.le_refl _, rfl, rfl⟩

theorem agree_bind {nextResults : Nat → Next → Next' → Prop} {left : Evaluation Result}
    {right : Evaluation Result'} {leftNext : Result → Evaluation Next}
    {rightNext : Result' → Evaluation Next'}
    (first : pairing.Agree results size here there left right)
    (second : ∀ later result result', size ≤ later → results later result result' →
      pairing.Agree nextResults later here there (leftNext result) (rightNext result')) :
    pairing.Agree nextResults size here there (left >>= leftNext) (right >>= rightNext) := by
  intro store store' stores enough
  refine rel_bind (first store store' stores enough) ?_
  rintro ⟨result, middle, _⟩ ⟨result', middle', _⟩ ⟨together, stores', grown, rfl, rfl⟩
  have later := second middle.size result result' (Nat.le_trans enough grown) together
    middle middle' stores' (Nat.le_refl _)
  exact rel_mono later fun _ _ met => { met with grown := Nat.le_trans grown met.grown }

theorem agree_within {left : Evaluation Result} {right : Evaluation Result'}
    (inner inner' : Handle) (body : pairing.Agree results size inner inner' left right) :
    pairing.Agree results size here there (within inner left) (within inner' right) := by
  intro store store' stores enough
  rw [run_within, run_within]
  exact rel_map (body store store' stores enough) fun _ _ met =>
    ⟨met.results, met.stores, met.grown, rfl, rfl⟩

/-- Two evaluations that stop at a signal and otherwise go on with the value. -/
theorem agree_unless_signal {value value' : Value} {left leftNext : Evaluation Result}
    {right rightNext : Evaluation Result'} (together : pairing.outcomes size value value')
    (stop : pairing.Agree results size here there left right)
    (goOn : pairing.values size value value' →
      pairing.Agree results size here there leftNext rightNext) :
    pairing.Agree results size here there (if value.isSignal then left else leftNext)
      (if value'.isSignal then right else rightNext) := by
  rw [← (pairing.alike together).same_signal]
  split
  · exact stop
  · rename_i unsignalled
    exact goOn (pairing.value_of_outcome (eq_false_of_ne_true unsignalled) together)

theorem agree_and_then {left right : Evaluation Value}
    {leftNext rightNext : Value → Evaluation Value}
    (first : pairing.Agree pairing.outcomes size here there left right)
    (second : ∀ later value value', size ≤ later → pairing.values later value value' →
      pairing.Agree pairing.outcomes later here there (leftNext value) (rightNext value')) :
    pairing.Agree pairing.outcomes size here there (left.andThen leftNext)
      (right.andThen rightNext) := by
  refine agree_bind first fun later value value' grown together =>
    agree_unless_signal together ?_ (second later value value' grown)
  exact agree_pure fun _ grown' => pairing.outcomes_later grown' together

theorem agree_current (readable : pairing.readable size here there) :
    pairing.Agree pairing.readable size here there current current :=
  fun _ _ stores enough =>
    .some ⟨pairing.readable_later enough readable, stores, Nat.le_refl _, rfl, rfl⟩

theorem agree_add_scope {parent parent' : Handle} {scope scope' : Scope}
    (readable : pairing.readable size parent parent')
    (link : scope.parent = some parent) (link' : scope'.parent = some parent')
    (alike : ∀ later, size ≤ later → scope.BindsAlike (pairing.values later) scope') :
    pairing.Agree pairing.writable size here there (addScope scope) (addScope scope') := by
  intro store store' stores enough
  obtain ⟨added, writable⟩ := pairing.add stores (pairing.readable_later enough readable) link link'
    (alike store.size enough)
  exact .some ⟨(store.size_add scope).symm ▸ writable, added,
    (store.size_add scope).symm ▸ Nat.le_succ _, rfl, rfl⟩

theorem agree_branch {left right : Evaluation (Option Value)}
    (readable : pairing.readable size here there)
    (body : ∀ later inner inner', size ≤ later → pairing.writable later inner inner' →
      pairing.Agree pairing.Yields later inner inner' left right) :
    pairing.Agree pairing.outcomes size here there (branch left) (branch right) := by
  refine agree_bind (agree_current readable) fun later outer outer' grown readable' => ?_
  refine agree_bind (agree_add_scope readable' rfl rfl fun _ _ => Scope.empty_binds_alike _ _)
    fun even inner inner' grown' writable => ?_
  refine agree_bind (agree_within inner inner'
    (body even inner inner' (Nat.le_trans grown grown') writable)) fun _ value value' _ yields => ?_
  refine agree_pure fun final grown'' => ?_
  cases yields with
  | none => exact pairing.outcome_of_value (pairing.null final)
  | some together => exact pairing.outcomes_later grown'' together

theorem agree_lookup (readable : pairing.readable size here there) {name : String}
    (named : pairing.reads name) :
    pairing.Agree pairing.Yields size here there (Evaluation.lookup name)
      (Evaluation.lookup name) :=
  fun _ _ stores enough =>
    .some ⟨pairing.lookup named stores (pairing.readable_later enough readable), stores,
      Nat.le_refl _, rfl, rfl⟩

theorem agree_bind_name {value value' : Value} (writable : pairing.writable size here there)
    (together : pairing.values size value value') (name : String) :
    pairing.Agree (fun _ _ _ => True) size here there (bindName name value)
      (bindName name value') := by
  intro store store' stores enough
  have bound := pairing.bind name stores (pairing.writable_later enough writable)
    (pairing.values_later enough together)
  exact .some ⟨trivial, bound, (store.size_bind _ _ _).symm ▸ Nat.le_refl _, rfl, rfl⟩

end Agree

end Pairing

end Scriptlet
