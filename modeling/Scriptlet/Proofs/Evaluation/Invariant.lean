import Scriptlet.Proofs.Evaluation.Agreement

/-!
Properties of a store that evaluation keeps. An invariant says what holds of the store, of the
scopes that an evaluator stands in and of the values that it handles, and that the primitive steps
keep to this. It is a pairing of each evaluation with itself, so every evaluation keeps it.
-/

namespace Scriptlet

open Evaluation

structure Invariant where
  stores : Store → Prop
  /-- Scopes in which evaluation may look names up. -/
  readable : (size : Nat) → Handle → Prop
  /-- Scopes in which evaluation may bind names. -/
  writable : (size : Nat) → Handle → Prop
  /-- Values that may be bound to a name and handed to a call. -/
  values : (size : Nat) → Value → Prop
  /-- Values that an evaluation may come to, among them the signals. -/
  outcomes : (size : Nat) → Value → Prop
  readable_later {size later : Nat} {scope : Handle} (grown : size ≤ later) :
    readable size scope → readable later scope
  writable_later {size later : Nat} {scope : Handle} (grown : size ≤ later) :
    writable size scope → writable later scope
  values_later {size later : Nat} {value : Value} (grown : size ≤ later) :
    values size value → values later value
  outcomes_later {size later : Nat} {value : Value} (grown : size ≤ later) :
    outcomes size value → outcomes later value
  readable_of_writable {size : Nat} {scope : Handle} : writable size scope → readable size scope
  outcome_of_value {size : Nat} {value : Value} : values size value → outcomes size value
  value_of_outcome {size : Nat} {value : Value} (unsignalled : value.isSignal = false) :
    outcomes size value → values size value
  int (size : Nat) (value : Int64) : values size (.int value)
  bool (size : Nat) (value : Bool) : values size (.bool value)
  null (size : Nat) : values size .null
  fault (size : Nat) (fault : Fault) : outcomes size fault.value
  function {size : Nat} {home : Handle} (parameters : List String) (body : Block) :
    readable size home → values size (.function parameters body home)
  home {size : Nat} {parameters : List String} {body : Block} {home : Handle} :
    outcomes size (.function parameters body home) → readable size home
  returned {size : Nat} {value : Value} : values size value → outcomes size (.returned value)
  unwrap {size : Nat} {value : Value} : outcomes size value → outcomes size value.unwrap
  lookup {store : Store} {here : Handle} {name : String} {value : Value} :
    stores store → readable store.size here → store.lookup here name = some value →
      outcomes store.size value
  add {store : Store} {here : Handle} {scope : Scope} :
    stores store → readable store.size here → scope.parent = some here →
      (∀ name value, scope.own name = some value → values store.size value) →
      stores (store.add scope).2 ∧ writable (store.size + 1) store.size
  bind {store : Store} {here : Handle} {value : Value} (name : String) :
    stores store → writable store.size here → values store.size value →
      stores (store.bind here name value)

section Diagonal

variable {holds : Value → Prop}

theorem rel_self {result : Option Value} (good : ∀ value, result = some value → holds value) :
    Option.Rel (fun left right => left = right ∧ holds left) result result := by
  cases result with
  | none => exact .none
  | some value => exact .some ⟨rfl, good value rfl⟩

theorem Scope.own_of_binds_alike {left right : Scope}
    (alike : BindsAlike (fun left right => left = right ∧ holds left) left right) (name : String) :
    left.own name = right.own name ∧ ∀ value, left.own name = some value → holds value := by
  have together := alike name
  generalize left.own name = value, right.own name = value' at together
  cases together with
  | none => exact ⟨rfl, fun _ bound => nomatch bound⟩
  | some together =>
      exact ⟨congrArg some together.1, fun _ bound => Option.some.inj bound ▸ together.2⟩

theorem same_callee_self {homes : Handle → Prop} {callee : Value}
    (good : ∀ parameters body home, callee = .function parameters body home → homes home) :
    SameCallee (fun _ => True) (fun left right => left = right ∧ homes left) callee callee := by
  cases callee with
  | function parameters body home =>
      exact .function _ _ (fun _ _ => trivial) ⟨rfl, good _ _ _ rfl⟩
  | _ => exact .other rfl (by intro same; cases same)

end Diagonal

namespace Invariant

def pairing (invariant : Invariant) : Pairing where
  stores left right := left = right ∧ invariant.stores left
  reads _ := True
  readable size left right := left = right ∧ invariant.readable size left
  writable size left right := left = right ∧ invariant.writable size left
  values size left right := left = right ∧ invariant.values size left
  outcomes size left right := left = right ∧ invariant.outcomes size left
  readable_later grown := And.imp_right (invariant.readable_later grown)
  writable_later grown := And.imp_right (invariant.writable_later grown)
  values_later grown := And.imp_right (invariant.values_later grown)
  outcomes_later grown := And.imp_right (invariant.outcomes_later grown)
  readable_of_writable := And.imp_right invariant.readable_of_writable
  outcome_of_value := And.imp_right invariant.outcome_of_value
  value_of_outcome unsignalled := And.imp_right (invariant.value_of_outcome unsignalled)
  alike := by
    rintro _ left _ ⟨rfl, _⟩
    exact .same left
  int size value := ⟨rfl, invariant.int size value⟩
  bool size value := ⟨rfl, invariant.bool size value⟩
  null size := ⟨rfl, invariant.null size⟩
  fault size fault := ⟨rfl, invariant.fault size fault⟩
  function parameters body _ := by
    rintro ⟨rfl, readable⟩
    exact ⟨rfl, invariant.function parameters body readable⟩
  callee := by
    rintro _ left _ ⟨rfl, good⟩
    exact same_callee_self fun _ _ _ same => invariant.home (same ▸ good)
  returned := by
    rintro _ left _ ⟨rfl, good⟩
    exact ⟨rfl, invariant.returned good⟩
  unwrap := by
    rintro _ left _ ⟨rfl, good⟩
    exact ⟨rfl, invariant.unwrap good⟩
  lookup _ := by
    rintro ⟨rfl, good⟩ ⟨rfl, readable⟩
    exact rel_self fun _ found => invariant.lookup good readable found
  add := by
    rintro _ _ _ _ scope scope' ⟨rfl, good⟩ ⟨rfl, readable⟩ link link' alike
    obtain rfl : scope = scope' := by
      obtain ⟨own, parent⟩ := scope
      obtain ⟨own', parent'⟩ := scope'
      rw [show own = own' from funext fun name => (Scope.own_of_binds_alike alike name).1,
        show parent = parent' from link.trans link'.symm]
    obtain ⟨added, writable⟩ := invariant.add good readable link fun name value =>
      (Scope.own_of_binds_alike alike name).2 value
    exact ⟨⟨rfl, added⟩, rfl, writable⟩
  bind name := by
    rintro ⟨rfl, good⟩ ⟨rfl, writable⟩ ⟨rfl, usable⟩
    exact ⟨rfl, invariant.bind name good writable usable⟩

variable (invariant : Invariant)

/-- What an evaluation leaves when it keeps an invariant. -/
structure Kept (start final : Evaluator) : Prop where
  stores : invariant.stores final.store
  grown : start.store.size ≤ final.store.size
  current : final.current = start.current

variable {invariant} {start final : Evaluator}

theorem Kept.readable (kept : invariant.Kept start final)
    (readable : invariant.readable start.store.size start.current) :
    invariant.readable final.store.size final.current := by
  rw [kept.current]
  exact invariant.readable_later kept.grown readable

theorem Kept.writable (kept : invariant.Kept start final)
    (writable : invariant.writable start.store.size start.current) :
    invariant.writable final.store.size final.current := by
  rw [kept.current]
  exact invariant.writable_later kept.grown writable

theorem keeps {Result : Type} {results : Nat → Result → Result → Prop}
    {run : (depth : Nat) → Evaluation Result} {result : Result}
    (agree : ∀ depth, invariant.pairing.Agree results start.store.size start.current start.current
      (run depth) (run depth))
    (stores : invariant.stores start.store) (ended : Ends run start result final) :
    invariant.Kept start final ∧ results final.store.size result result := by
  obtain ⟨depth, ran⟩ := ended
  have met := agree depth start.store start.store ⟨rfl, stores⟩ (Nat.le_refl _)
  rw [ran] at met
  cases met with
  | some met => exact ⟨⟨met.stores.2, met.grown, met.here⟩, met.results⟩

theorem expression_keeps {expr : Expr} {value : Value} (stores : invariant.stores start.store)
    (readable : invariant.readable start.store.size start.current)
    (ended : Ends expr.evaluate start value final) :
    invariant.Kept start final ∧ invariant.outcomes final.store.size value := by
  have here : invariant.pairing.readable _ start.current start.current := ⟨rfl, readable⟩
  obtain ⟨kept, together⟩ := keeps (fun depth =>
    Pairing.expression_agrees (Pairing.call_within_agrees depth) _ here expr fun _ _ => trivial)
    stores ended
  exact ⟨kept, together.2⟩

theorem expressions_keep {exprs : List Expr} {values : Except Value (List Value)}
    (stores : invariant.stores start.store)
    (readable : invariant.readable start.store.size start.current)
    (ended : Ends (evaluateAll exprs) start values final) :
    invariant.Kept start final ∧
      (∀ signal, values = .error signal → invariant.outcomes final.store.size signal) ∧
      ∀ usable, values = .ok usable →
        ∀ value ∈ usable, invariant.values final.store.size value := by
  have here : invariant.pairing.readable _ start.current start.current := ⟨rfl, readable⟩
  obtain ⟨kept, arguments⟩ := keeps (fun depth =>
    Pairing.expressions_agree (Pairing.call_within_agrees depth) _ here exprs fun _ _ => trivial)
    stores ended
  refine ⟨kept, ?_, ?_⟩
  · rintro signal rfl
    cases arguments with
    | error together => exact together.2
  · rintro usable rfl value member
    cases arguments with
    | ok together => exact (List.forall₂_same.mp together value member).2

theorem call_keeps {callee value : Value} {values : List Value}
    (stores : invariant.stores start.store)
    (homes : ∀ parameters body home, callee = .function parameters body home →
      invariant.readable start.store.size home)
    (usable : ∀ value ∈ values, invariant.values start.store.size value)
    (ended : Ends (callee.call values) start value final) :
    invariant.Kept start final ∧ invariant.outcomes final.store.size value := by
  have together : List.Forall₂ (invariant.pairing.values start.store.size) values values :=
    List.forall₂_same.mpr fun value member => ⟨rfl, usable value member⟩
  obtain ⟨kept, results⟩ := keeps (fun depth =>
    Pairing.call_within_agrees depth _ start.current start.current callee callee values values
      (same_callee_self homes) together) stores ended
  exact ⟨kept, results.2⟩

theorem yields_self {size : Nat} {result : Option Value} :
    invariant.pairing.Yields size result result ↔
      ∀ value ∈ result, invariant.outcomes size value := by
  constructor
  · rintro yields value rfl
    cases yields with
    | some together => exact together.2
  · exact rel_self

theorem statement_keeps {stmt : Stmt} {result : Option Value}
    (stores : invariant.stores start.store)
    (writable : invariant.writable start.store.size start.current)
    (ended : Ends stmt.evaluate start result final) :
    invariant.Kept start final ∧ ∀ value ∈ result, invariant.outcomes final.store.size value := by
  have here : invariant.pairing.writable _ start.current start.current := ⟨rfl, writable⟩
  obtain ⟨kept, yields⟩ := keeps (fun depth =>
    Pairing.statement_agrees (Pairing.call_within_agrees depth) _ here stmt fun _ _ => trivial)
    stores ended
  exact ⟨kept, yields_self.mp yields⟩

theorem block_keeps {last result : Option Value} {block : Block}
    (stores : invariant.stores start.store)
    (writable : invariant.writable start.store.size start.current)
    (lasts : ∀ value ∈ last, invariant.outcomes start.store.size value)
    (ended : Ends (Block.evaluateAfter last block) start result final) :
    invariant.Kept start final ∧ ∀ value ∈ result, invariant.outcomes final.store.size value := by
  have here : invariant.pairing.writable _ start.current start.current := ⟨rfl, writable⟩
  obtain ⟨kept, yields⟩ := keeps (fun depth =>
    Pairing.block_agrees (Pairing.call_within_agrees depth) _ here (yields_self.mpr lasts) block
      fun _ _ => trivial) stores ended
  exact ⟨kept, yields_self.mp yields⟩

theorem program_keeps {program : Program} {result : Option Value}
    (stores : invariant.stores start.store)
    (writable : invariant.writable start.store.size start.current)
    (ended : Ends program.evaluate start result final) :
    invariant.Kept start final ∧ ∀ value ∈ result, invariant.outcomes final.store.size value := by
  obtain ⟨yielded, endedBlock, rfl⟩ := program_ends_iff.mp ended
  obtain ⟨kept, outcomes⟩ := block_keeps stores writable
    (fun value found => absurd found (Option.not_mem_none value)) endedBlock
  refine ⟨kept, fun value found => ?_⟩
  obtain ⟨inner, foundInner, rfl⟩ := Option.map_eq_some_iff.mp found
  exact invariant.unwrap (outcomes inner foundInner)

end Invariant

end Scriptlet
