import Scriptlet.Proofs.Evaluation.Relocation

/-!
Stores without dangling handles. Every scope that a store or a value in it refers to is in the
store, and evaluation keeps it so. A linked store therefore looks the same, up to handles, after
anything that only adds scopes.
-/

namespace Scriptlet

open Evaluation

def Value.Within (size : Nat) (value : Value) : Prop := ∀ home ∈ value.home?, home < size

structure Scope.Within (size : Nat) (scope : Scope) : Prop where
  parent : ∀ parent ∈ scope.parent, parent < size
  own : ∀ name value, scope.own name = some value → value.Within size

theorem Value.Within.later {size later : Nat} {value : Value} (grown : size ≤ later)
    (within : value.Within size) : value.Within later :=
  fun home found => Nat.lt_of_lt_of_le (within home found) grown

theorem Scope.Within.later {size later : Nat} {scope : Scope} (grown : size ≤ later)
    (within : scope.Within size) : scope.Within later where
  parent parent found := Nat.lt_of_lt_of_le (within.parent parent found) grown
  own name value bound := (within.own name value bound).later grown

theorem Scope.Within.bind {size : Nat} {scope : Scope} {value : Value}
    (within : scope.Within size) (name : String) (bound : value.Within size) :
    (scope.bind name value).Within size where
  parent := within.parent
  own wanted found same := by
    rw [own_bind] at same
    split at same
    · obtain rfl := Option.some.inj same
      exact bound
    · exact within.own wanted found same

namespace Store

/-- Each scope of the store refers to scopes of the store only. -/
def Linked (store : Store) : Prop :=
  ∀ handle scope, store.scope? handle = some scope → scope.Within store.size

namespace Linked

variable {store : Store}

theorem empty : Store.empty.Linked := by
  intro handle scope found
  exact absurd (older_of_scope found) (Nat.not_lt_zero handle)

theorem add (linked : store.Linked) {scope : Scope} (within : scope.Within store.size) :
    (store.add scope).2.Linked := by
  intro handle found present
  rw [size_add]
  rw [scope_add] at present
  split at present
  · obtain rfl := Option.some.inj present
    exact within.later (Nat.le_succ _)
  · exact (linked handle found present).later (Nat.le_succ _)

theorem add_root (linked : store.Linked) : store.addRoot.2.Linked := by
  refine linked.add ⟨fun parent found => ?_, fun name value bound => ?_⟩
  · cases found
  · cases bound

theorem bind (linked : store.Linked) (scope : Handle) (name : String) {value : Value}
    (within : value.Within store.size) : (store.bind scope name value).Linked := by
  intro handle found present
  rw [size_bind]
  by_cases same : scope = handle
  · subst same
    rw [scope_bind] at present
    obtain ⟨before, presentBefore, rfl⟩ := Option.map_eq_some_iff.mp present
    exact (linked scope before presentBefore).bind name within
  · rw [scope_bind_other _ _ _ _ _ same] at present
    exact linked handle found present

theorem lookup (linked : store.Linked) {handle : Handle} {name : String} {value : Value}
    (found : store.lookup handle name = some value) : value.Within store.size := by
  obtain ⟨binder, scope, present, bound⟩ := bound_of_lookup found
  exact (linked binder scope present).own name value bound

end Linked

end Store

def Invariant.linked : Invariant where
  stores := Store.Linked
  readable size scope := scope < size
  writable size scope := scope < size
  values size value := value.Within size
  outcomes size value := value.Within size
  readable_later grown older := Nat.lt_of_lt_of_le older grown
  writable_later grown older := Nat.lt_of_lt_of_le older grown
  values_later := Value.Within.later
  outcomes_later := Value.Within.later
  readable_of_writable := id
  outcome_of_value := id
  value_of_outcome _ := id
  int _ _ := fun _ found => nomatch found
  bool _ _ := fun _ found => nomatch found
  null _ := fun _ found => nomatch found
  fault _ _ := fun _ found => nomatch found
  function _ _ older := fun _ found => Option.some.inj found ▸ older
  home within := within _ rfl
  returned := id
  unwrap within := fun home found => within home (Value.home_of_unwrap found)
  lookup linked _ := linked.lookup
  add linked older link within := by
    refine ⟨linked.add ⟨fun parent found => ?_, within⟩, Nat.lt_succ_self _⟩
    obtain rfl := Option.some.inj (link.symm.trans found)
    exact older
  bind name linked _ within := linked.bind _ name within

namespace Evaluation

variable {start final : Evaluator}

/-- Evaluation in a scope of a linked store leaves a linked store, and its value refers to a scope
of that store. -/
theorem expression_keeps_linked {expr : Expr} {value : Value} (linked : start.store.Linked)
    (present : start.current < start.store.size) (ended : Ends expr.evaluate start value final) :
    final.store.Linked ∧ value.Within final.store.size := by
  obtain ⟨kept, within⟩ := Invariant.linked.expression_keeps linked present ended
  exact ⟨kept.stores, within⟩

theorem program_keeps_linked {program : Program} {result : Option Value}
    (linked : start.store.Linked) (present : start.current < start.store.size)
    (ended : Ends program.evaluate start result final) :
    final.store.Linked ∧ ∀ value ∈ result, value.Within final.store.size := by
  obtain ⟨kept, within⟩ := Invariant.linked.program_keeps linked present ended
  exact ⟨kept.stores, within⟩

end Evaluation

section Added

variable {store later : Store}

def Relocation.behind (store later : Store) : Relocation :=
  ⟨store.size, later.size - store.size, fun _ => True⟩

theorem Relocation.behind_reaches (handle : Handle) :
    (Relocation.behind store later).Reaches handle := Or.inr trivial

theorem Relocation.behind_keeps {handle : Handle} (older : handle < store.size) :
    (Relocation.behind store later).Keeps handle :=
  ⟨move_older _ older, behind_reaches handle⟩

theorem Scope.Within.moves {scope : Scope} (within : scope.Within store.size) :
    (Relocation.behind store later).MovesScope scope scope :=
  Relocation.moves_scope_self
    (fun parent link => Relocation.behind_keeps (within.parent parent link))
    fun name value bound home found =>
      Relocation.behind_keeps (within.own name value bound home found)

theorem Store.Linked.moves (linked : store.Linked) (preserved : later.Preserves store) :
    (Relocation.behind store later).MovesStore store later where
  old := Nat.le_refl _
  size := (Nat.add_sub_of_le preserved.grown).symm
  scopes handle _ := by
    rcases Nat.lt_or_ge handle store.size with older | newer
    · rw [Relocation.move_older _ older, preserved.same handle older]
      cases present : store.scope? handle with
      | none => exact .none
      | some scope => exact .some (linked handle scope present).moves
    · have newer' : later.size ≤ handle + (later.size - store.size) := by
        have grown := preserved.grown
        revert newer
        change store.size ≤ (handle : Nat) → _
        omega
      rw [Relocation.move_newer _ newer, scope_newer newer]
      exact (scope_newer newer').symm ▸ .none

end Added

end Scriptlet
