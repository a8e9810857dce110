import Scriptlet.Proofs.Evaluation.Agreement
import Scriptlet.Proofs.Evaluation.Frame
import Scriptlet.Proofs.Store.Bindings

/-!
Where a function is defined does not matter to what does not read its name. A function keeps the
scope it is written in, not what that scope binds at the time, and a binding of a name that nobody
reads goes unnoticed: two runs whose stores differ in that binding only stay so.
-/

namespace Scriptlet

open Evaluation

def Value.names : Value → List String
  | .function _ body _ => Block.names body
  | .returned value => value.names
  | _ => []

theorem Value.names_unwrap (value : Value) : value.unwrap.names = value.names := by
  cases value <;> rfl

/-- No value that a scope of the store binds reads the name. -/
def Store.Avoids (store : Store) (name : String) : Prop :=
  store.HoldsOnly fun value => name ∉ value.names

theorem Scope.eq_of_binds_alike {left right : Scope} {values : Value → Value → Prop}
    (parents : left.parent = right.parent) (alike : left.BindsAlike values right)
    (same : ∀ value value', values value value' → value = value') : left = right := by
  have own (name : String) : left.own name = right.own name := by
    generalize bound : left.own name = found, bound' : right.own name = found'
    have together := alike name
    rw [bound, bound'] at together
    cases together with
    | none => rfl
    | some together => exact congrArg some (same _ _ together)
  cases left
  cases right
  exact congr (congrArg Scope.mk (funext own)) parents

/-- The right store binds one name more in one scope, and nothing in the left one reads it. -/
def Pairing.beside (scope : Handle) (name : String) (value : Value) : Pairing where
  stores left right := right = left.bind scope name value ∧ scope < left.size ∧ left.Avoids name
  reads wanted := wanted ≠ name
  readable _ here there := here = there
  writable _ here there := here = there ∧ scope ≠ here
  values _ left right := left = right ∧ name ∉ left.names
  outcomes _ left right := left = right ∧ name ∉ left.names
  readable_later _ := id
  writable_later _ := id
  values_later _ := id
  outcomes_later _ := id
  readable_of_writable := And.left
  outcome_of_value := id
  value_of_outcome _ := id
  alike := by
    rintro _ left _ ⟨rfl, _⟩
    exact .same left
  int _ _ := ⟨rfl, List.not_mem_nil⟩
  bool _ _ := ⟨rfl, List.not_mem_nil⟩
  null _ := ⟨rfl, List.not_mem_nil⟩
  fault _ _ := ⟨rfl, List.not_mem_nil⟩
  function parameters _ named same := ⟨congrArg _ same, fun read => named name read rfl⟩
  callee := by
    rintro _ left _ ⟨rfl, unread⟩
    cases left with
    | function parameters body home =>
        exact .function parameters body (fun wanted read same => unread (same ▸ read)) rfl
    | _ => exact .other rfl nofun
  returned := fun ⟨same, unread⟩ => ⟨congrArg _ same, unread⟩
  unwrap := by
    rintro _ left _ ⟨rfl, unread⟩
    exact ⟨rfl, left.names_unwrap ▸ unread⟩
  lookup := by
    rintro left _ here _ wanted distinct ⟨rfl, _, avoids⟩ rfl
    rw [Store.lookup_bind_other left scope value distinct]
    cases found : left.lookup here wanted with
    | none => exact .none
    | some value => exact .some ⟨rfl, Store.HoldsOnly.lookup avoids found⟩
  add := by
    rintro left _ here _ added added' ⟨rfl, older, avoids⟩ rfl link link' alike
    obtain rfl := Scope.eq_of_binds_alike (link.trans link'.symm) alike fun _ _ => And.left
    refine ⟨⟨left.add_bind older added, ?_, ?_⟩, (left.size_bind _ _ _).symm, Nat.ne_of_lt older⟩
    · rw [left.size_add]
      exact Nat.lt_succ_of_lt older
    · refine Store.HoldsOnly.add avoids fun bound value same => ?_
      have together := alike bound
      rw [same] at together
      cases together with
      | some together => exact together.2
  bind := by
    rintro left _ here _ value _ bound ⟨rfl, older, avoids⟩ ⟨rfl, distinct⟩ ⟨rfl, unread⟩
    exact ⟨left.bind_comm_scopes distinct, (left.size_bind _ _ _).symm ▸ older,
      avoids.bind _ bound unread⟩

namespace Evaluation

variable {name : String} {stmt : Stmt}

/-- Also in the scope with the further binding, a statement may bind all other names. -/
theorem statement_agrees_beside (scope : Handle) (value : Value)
    (unbound : name ∉ stmt.boundNames) (unread : name ∉ stmt.names) (size depth : Nat) :
    (Pairing.beside scope name value).Agree (Pairing.beside scope name value).Yields size scope
      scope (stmt.evaluate depth) (stmt.evaluate depth) := by
  have evaluated (expr : Expr) (unread : name ∉ expr.names) :
      (Pairing.beside scope name value).Agree (Pairing.beside scope name value).outcomes size scope
        scope (expression (callWithin depth) expr) (expression (callWithin depth) expr) :=
    Pairing.expression_agrees (Pairing.call_within_agrees depth) size rfl expr
      fun _ read same => unread (same ▸ read)
  cases stmt with
  | bind other expr =>
      have distinct : name ≠ other := fun same => unbound (List.mem_singleton.mpr same)
      refine Pairing.bind_agrees (evaluated expr unread) fun later bound bound' _ together => ?_
      obtain ⟨rfl, unread⟩ := together
      rintro store _ ⟨rfl, older, avoids⟩ _
      refine .some ⟨trivial, ⟨store.bind_comm_names distinct, ?_, avoids.bind _ other unread⟩, ?_,
        rfl, rfl⟩
      · exact (store.size_bind _ _ _).symm ▸ older
      · exact (store.size_bind _ _ _).symm ▸ Nat.le_refl _
  | «return» expr => exact Pairing.return_agrees (evaluated expr unread)
  | expr expr => exact Pairing.expr_agrees (evaluated expr unread)

/-- What a statement comes to, it also comes to beside a binding of a name that it does not read or
bind, nor calls anything that reads it; the binding stays in place. -/
theorem statement_ends_beside {store : Store} {scope : Handle} (value : Value)
    (present : scope < store.size) (unbound : name ∉ stmt.boundNames)
    (unread : name ∉ stmt.names) (avoids : store.Avoids name) :
    (Terminates stmt.evaluate ⟨store, scope⟩ ↔
      Terminates stmt.evaluate ⟨store.bind scope name value, scope⟩) ∧
    ∀ result between, Ends stmt.evaluate ⟨store, scope⟩ result between → between.current = scope ∧
      Ends stmt.evaluate ⟨store.bind scope name value, scope⟩ result
        ⟨between.store.bind scope name value, scope⟩ := by
  have agree := statement_agrees_beside scope value unbound unread store.size
  have stores : (Pairing.beside scope name value).stores store (store.bind scope name value) :=
    ⟨rfl, present, avoids⟩
  refine ⟨Pairing.terminates_iff agree stores, fun result between ended => ?_⟩
  obtain ⟨result', ⟨_, there⟩, ended', together, ⟨rfl, _⟩, _, here, back⟩ :=
    Pairing.ends_right agree stores ended
  obtain rfl : scope = there := back.symm
  refine ⟨here, ?_⟩
  cases together with
  | none => exact ended'
  | some together => exact together.1 ▸ ended'

theorem function_definition_ends (store : Store) (scope : Handle) (name : String)
    (parameters : List String) (body : Block) :
    Ends (Stmt.bind name (.function parameters body)).evaluate ⟨store, scope⟩ none
      ⟨store.bind scope name (.function parameters body scope), scope⟩ :=
  bind_ends_iff.mpr ⟨_, _, function_ends_iff.mpr ⟨rfl, rfl⟩, rfl, rfl⟩

/-- Behind a statement that ends without a signal, a block goes on. -/
theorem block_goes_on_iff {start middle final : Evaluator} {first : Stmt} {rest : Block}
    {last result between : Option Value} (ended : Ends first.evaluate start between middle)
    (unsignalled : between.any Value.isSignal = false) :
    Ends (Block.evaluateAfter last (first :: rest)) start result final ↔
      Ends (Block.evaluateAfter between rest) middle result final := by
  rw [block_ends_iff]
  constructor
  · rintro ⟨between', middle', ended', goesOn⟩
    obtain ⟨rfl, rfl⟩ := ends_unique (statement_deepens first) ended ended'
    rwa [if_neg (ne_true_of_eq_false unsignalled)] at goesOn
  · intro goesOn
    refine ⟨between, middle, ended, ?_⟩
    rwa [if_neg (ne_true_of_eq_false unsignalled)]

end Evaluation

/-- A function may as well be defined after a statement that does not read or bind its name, nor
calls anything that reads it: either order gives the statement the same value and leaves the same
store, so whatever is run behind the two comes to the same. The body may read any name. -/
theorem function_definition_commutes {store : Store} {scope : Handle} {name : String} {stmt : Stmt}
    (parameters : List String) (body : Block) (present : scope < store.size)
    (unbound : name ∉ stmt.boundNames) (unread : name ∉ stmt.names) (avoids : store.Avoids name) :
    let start : Evaluator := ⟨store, scope⟩
    let define : Stmt := .bind name (.function parameters body)
    ∃ before, Ends define.evaluate start none before ∧
      (Terminates stmt.evaluate start ↔ Terminates stmt.evaluate before) ∧
      ∀ result between, Ends stmt.evaluate start result between →
        result.any Value.isSignal = false →
        (∃ final, Ends stmt.evaluate before result final ∧
          Ends define.evaluate between none final) ∧
        ∀ first rest value last,
          Ends (Block.evaluate (define :: stmt :: first :: rest)) start value last ↔
            Ends (Block.evaluate (stmt :: define :: first :: rest)) start value last := by
  intro start define
  obtain ⟨terminates, beside⟩ := statement_ends_beside (.function parameters body scope) present
    unbound unread avoids
  have defined := function_definition_ends store scope name parameters body
  refine ⟨_, defined, terminates, ?_⟩
  rintro result ⟨between, here⟩ ended unsignalled
  obtain ⟨back, endedBeside⟩ := beside _ _ ended
  obtain rfl : scope = here := back.symm
  have definedLater := function_definition_ends between scope name parameters body
  refine ⟨⟨_, endedBeside, definedLater⟩, fun first rest value last => ?_⟩
  calc Ends (Block.evaluateAfter none (define :: stmt :: first :: rest)) start value last
    _ ↔ Ends (Block.evaluateAfter none (stmt :: first :: rest)) _ value last :=
      block_goes_on_iff defined rfl
    _ ↔ Ends (Block.evaluateAfter result (first :: rest)) _ value last :=
      block_goes_on_iff endedBeside unsignalled
    _ ↔ Ends (Block.evaluateAfter none (first :: rest)) _ value last :=
      block_ends_iff.trans block_ends_iff.symm
    _ ↔ Ends (Block.evaluateAfter result (define :: first :: rest)) _ value last :=
      (block_goes_on_iff definedLater rfl).symm
    _ ↔ Ends (Block.evaluateAfter none (stmt :: define :: first :: rest)) start value last :=
      (block_goes_on_iff ended unsignalled).symm

def addingScope : Store :=
  let (scope, store) := Store.empty.addRoot
  (store.bind scope "x" (.int 1)).bind scope "g" (.function ["n"]
    [.bind "h" (.function [] [.expr (.binary (.name "x") .add (.name "n"))]),
      .expr (.call (.name "h") [])] scope)

/-- A function that reads itself and `y` sees `y` whether it is defined after `y` or before. -/
theorem later_bound_name_is_seen :
    let define : Stmt := .bind "f" (.function [] [.expr (.ifElse
      (.binary (.name "y") .less (.name "x")) [.expr (.call (.name "f") [])] [.expr (.name "y")])])
    let stmt : Stmt := .bind "y" (.call (.name "g") [.int 2])
    ∃ last, Ends (Block.evaluate [define, stmt, .expr (.call (.name "f") [])]) ⟨addingScope, 0⟩
        (some (.int 3)) last ∧
      Ends (Block.evaluate [stmt, define, .expr (.call (.name "f") [])]) ⟨addingScope, 0⟩
        (some (.int 3)) last := by
  intro define stmt
  have bound : (stmt.evaluate 2 ⟨addingScope, 0⟩).map Prod.fst = some none := by decide +kernel
  have called : (Block.evaluate [define, stmt, .expr (.call (.name "f") [])] 2
      ⟨addingScope, 0⟩).map Prod.fst = some (some (.int 3)) := by decide +kernel
  obtain ⟨between, ended⟩ := ends_of_run bound
  obtain ⟨last, endedBlock⟩ := ends_of_run called
  have avoids : addingScope.Avoids "f" :=
    ((Store.HoldsOnly.empty _).add_root.bind 0 "x" (by decide)).bind 0 "g" (by decide)
  have unbound : "f" ∉ stmt.boundNames := by decide
  have unread : "f" ∉ stmt.names := by decide
  obtain ⟨_, _, _, commutes⟩ := function_definition_commutes [] _
    (Nat.zero_lt_one : 0 < addingScope.size) unbound unread avoids
  obtain ⟨_, sameBlocks⟩ := commutes none between ended rfl
  exact ⟨last, endedBlock, (sameBlocks _ [] _ _).mp endedBlock⟩

end Scriptlet
