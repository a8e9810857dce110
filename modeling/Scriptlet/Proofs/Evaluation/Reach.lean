import Scriptlet.Proofs.Evaluation.Relocation

/-!
What a call can see. The scopes within reach of a callee and its arguments are those that they were
written in, and from there on the parents of scopes and the scopes of functions that are bound in
them. A call comes to the same whatever the other scopes hold, and wherever it is made from.
-/

namespace Scriptlet

open Evaluation

/-- The scopes that can be got at from these values. -/
inductive Store.Reaches (store : Store) (values : List Value) : Handle → Prop where
  | home {value : Value} {home : Handle} (given : value ∈ values) (found : home ∈ value.home?) :
      Reaches store values home
  | parent {handle parent : Handle} {scope : Scope} (reached : Reaches store values handle)
      (present : store.scope? handle = some scope) (link : parent ∈ scope.parent) :
      Reaches store values parent
  | bound {handle home : Handle} {scope : Scope} {name : String} {value : Value}
      (reached : Reaches store values handle) (present : store.scope? handle = some scope)
      (bound : scope.own name = some value) (found : home ∈ value.home?) :
      Reaches store values home

/-- No scope is moved, and new scopes and those in reach of the values are within reach. -/
def Relocation.within (store : Store) (values : List Value) : Relocation :=
  ⟨store.size, 0, store.Reaches values⟩

namespace Relocation

variable {store : Store} {values : List Value}

theorem within_move (handle : Handle) : (within store values).move handle = handle := by
  rw [move]
  split <;> rfl

theorem within_keeps {handle : Handle} (reached : store.Reaches values handle) :
    (within store values).Keeps handle := ⟨within_move handle, Or.inr reached⟩

theorem within_moves_store {changed : Store} (sameSize : changed.size = store.size)
    (sameReached : ∀ handle, store.Reaches values handle →
      changed.scope? handle = store.scope? handle) :
    (within store values).MovesStore store changed where
  old := Nat.le_refl _
  size := sameSize
  scopes handle reached := by
    rw [within_move]
    rcases reached with newer | reached
    · rw [Store.scope_newer newer, Store.scope_newer (sameSize ▸ newer)]
      exact .none
    · rw [sameReached handle reached]
      cases present : store.scope? handle with
      | none => exact .none
      | some scope =>
          exact .some (moves_scope_self (fun _ link => within_keeps (reached.parent present link))
            fun _ _ bound _ found => within_keeps (reached.bound present bound found))

theorem within_value_eq {value value' : Value}
    (moves : (within store values).MovesValue value value') : value' = value :=
  moves.same.trans (Value.rename_eq_self fun home _ => within_move home)

theorem within_scope_eq {left right : Store} (moves : (within store values).MovesStore left right)
    {handle : Handle} (reached : (within store values).Reaches handle) :
    right.scope? handle = left.scope? handle := by
  have same := moves.scope_eq reached
  rw [within_move] at same
  rw [same]
  cases left.scope? handle with
  | none => rfl
  | some scope =>
      exact congrArg some (Scope.rename_eq_self (fun _ _ => within_move _)
        fun _ _ _ _ _ => within_move _)

end Relocation

theorem calls_agree_within (store : Store) (callee : Value) (values : List Value)
    (here there : Handle) (depth : Nat) :
    (Relocation.within store (callee :: values)).pairing.Agree
      (Relocation.within store (callee :: values)).pairing.outcomes store.size here there
      (callee.call values depth) (callee.call values depth) := by
  have kept (value : Value) (given : value ∈ callee :: values) :
      (Relocation.within store (callee :: values)).MovesValue value value :=
    Relocation.moves_value_self fun home found => Relocation.within_keeps (.home given found)
  have callees : SameCallee (Relocation.within store (callee :: values)).pairing.reads
      ((Relocation.within store (callee :: values)).pairing.readable store.size) callee callee :=
    Pairing.callee _ (kept callee List.mem_cons_self)
  exact Pairing.call_within_agrees depth _ here there callee callee values values callees
    (List.forall₂_same.mpr fun value given => kept value (List.mem_cons_of_mem _ given))

/-- A call from any scope comes to the same in two stores that agree on the scopes within reach of
the callee and its arguments, whatever their other scopes hold and are linked to; and the stores
that it leaves agree on all scopes on which the stores agreed before, and on all added ones. -/
theorem calls_see_reached_scopes (store changed : Store) (callee : Value) (values : List Value)
    (sameSize : changed.size = store.size)
    (sameReached : ∀ handle, store.Reaches (callee :: values) handle →
      changed.scope? handle = store.scope? handle) (here there : Handle) :
    (Terminates (callee.call values) ⟨store, here⟩ ↔
      Terminates (callee.call values) ⟨changed, there⟩) ∧
    ∀ value final value' final', Ends (callee.call values) ⟨store, here⟩ value final →
      Ends (callee.call values) ⟨changed, there⟩ value' final' →
      value' = value ∧ final'.store.size = final.store.size ∧
        ∀ handle, changed.scope? handle = store.scope? handle →
          final'.store.scope? handle = final.store.scope? handle := by
  have agree := calls_agree_within store callee values here there
  have stores := Relocation.within_moves_store sameSize sameReached
  refine ⟨Pairing.terminates_iff agree stores, fun value final value' final' ended ended' => ?_⟩
  have met := Pairing.ends_meet agree stores (call_deepens callee values) ended ended'
  refine ⟨Relocation.within_value_eq met.results, met.stores.size, fun handle same => ?_⟩
  obtain ⟨_, preserved⟩ := call_preserves_store ended
  obtain ⟨_, preserved'⟩ := call_preserves_store ended'
  -- Neither call changes a scope that was there before; the added ones are paired with each other.
  rcases Nat.lt_or_ge handle store.size with older | newer
  · rw [preserved.same handle older, preserved'.same handle (sameSize.symm ▸ older), same]
  · exact Relocation.within_scope_eq met.stores (Or.inl newer)

def twoScopes : Store :=
  let (first, store) := Store.empty.addRoot
  let (second, store) := store.addRoot
  (store.bind first "x" (.int 1)).bind second "x" (.int 2)

/-- A function of the first scope yields what `x` means there, also when it is called from the
other scope, and also when `x` means something else in that one. -/
theorem caller_scope_is_not_seen :
    ∃ final final',
      Ends ((Value.function [] [.expr (.name "x")] 0).call []) ⟨twoScopes, 1⟩ (.int 1) final ∧
      Ends ((Value.function [] [.expr (.name "x")] 0).call [])
        ⟨twoScopes.bind 1 "x" (.int 3), 0⟩ (.int 1) final' ∧
      final'.store.scope? 2 = final.store.scope? 2 := by
  have ran : ((Value.function [] [.expr (.name "x")] 0).call [] 1 ⟨twoScopes, 1⟩).map Prod.fst =
      some (.int 1) := by
    decide +kernel
  obtain ⟨final, ended⟩ := ends_of_run ran
  have onlyFirst (handle : Handle)
      (reached : twoScopes.Reaches [.function [] [.expr (.name "x")] 0] handle) : handle = 0 := by
    induction reached with
    | home given found =>
        obtain rfl := List.mem_singleton.mp given
        exact (Option.some.inj found).symm
    | parent _ present link induction =>
        subst induction
        obtain rfl := Option.some.inj present
        cases link
    | @bound _ home _ name _ _ present bound found induction =>
        subst induction
        obtain rfl := Option.some.inj present
        change (if name = "x" then some (Value.int 1) else none) = some _ at bound
        split at bound
        · obtain rfl := Option.some.inj bound
          cases found
        · cases bound
  obtain ⟨terminates, same⟩ := calls_see_reached_scopes twoScopes
    (twoScopes.bind 1 "x" (.int 3)) _ [] (Store.size_bind _ _ _ _) (fun handle reached => by
      rw [onlyFirst handle reached]
      exact Store.scope_bind_other _ _ _ _ _ (by decide)) 1 0
  obtain ⟨value', final', ended'⟩ := terminates.mp ⟨_, final, ended⟩
  obtain ⟨rfl, _, agree⟩ := same _ _ _ _ ended ended'
  exact ⟨final, final', ended, ended', agree 2 rfl⟩

end Scriptlet
