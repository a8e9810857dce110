import Scriptlet.Store

/-!
Bindings in a store. One more binding can be made before or after scopes are added and other names
or scopes are bound, and it does not change what another name is found to mean. What all bindings
have in common is kept by everything that is done to a store.
-/

namespace Scriptlet

theorem Scope.bind_comm {name other : String} (distinct : name ≠ other) (scope : Scope)
    (value value' : Value) :
    (scope.bind name value).bind other value' = (scope.bind other value').bind name value := by
  have own (wanted : String) : ((scope.bind name value).bind other value').own wanted =
      ((scope.bind other value').bind name value).own wanted := by
    simp only [own_bind]
    by_cases first : wanted = name
    · rw [if_pos first, if_pos first, if_neg (first ▸ distinct)]
    · rw [if_neg first, if_neg first]
  exact congrArg (Scope.mk · scope.parent) (funext own)

namespace Store

theorem eq_of_scopes {left right : Store}
    (same : ∀ handle, left.scope? handle = right.scope? handle) : left = right :=
  congrArg Store.mk (Array.ext_getElem? same)

section Bind

variable (store : Store) {scope : Handle} {name : String} {value : Value}

theorem bind_comm_scopes {scope' : Handle} {name' : String} {value' : Value}
    (distinct : scope ≠ scope') :
    (store.bind scope name value).bind scope' name' value' =
      (store.bind scope' name' value').bind scope name value := by
  refine eq_of_scopes fun handle => ?_
  by_cases here : scope = handle
  · subst here
    rw [scope_bind_other _ _ _ _ _ distinct.symm, scope_bind, scope_bind,
      scope_bind_other _ _ _ _ _ distinct.symm]
  · rw [scope_bind_other _ scope handle _ _ here]
    by_cases there : scope' = handle
    · subst there
      rw [scope_bind, scope_bind, scope_bind_other _ _ _ _ _ here]
    · rw [scope_bind_other _ _ _ _ _ there, scope_bind_other _ _ _ _ _ there,
        scope_bind_other _ _ _ _ _ here]

theorem bind_comm_names {name' : String} {value' : Value} (distinct : name ≠ name') :
    (store.bind scope name value).bind scope name' value' =
      (store.bind scope name' value').bind scope name value := by
  refine eq_of_scopes fun handle => ?_
  by_cases here : scope = handle
  · subst here
    simp only [scope_bind, Option.map_map]
    exact congrArg (Option.map · (store.scope? scope))
      (funext fun found => found.bind_comm distinct value value')
  · simp only [scope_bind_other _ _ _ _ _ here]

theorem add_bind (older : scope < store.size) (added : Scope) :
    ((store.bind scope name value).add added).2 = (store.add added).2.bind scope name value := by
  refine eq_of_scopes fun handle => ?_
  rw [scope_add, size_bind]
  by_cases here : scope = handle
  · subst here
    rw [if_neg (Nat.ne_of_lt older), scope_bind, scope_bind, scope_add_older _ _ _ older]
  · rw [scope_bind_other _ _ _ _ _ here, scope_bind_other _ _ _ _ _ here, scope_add]

end Bind

def HoldsOnly (store : Store) (admitted : Value → Prop) : Prop :=
  ∀ handle scope, store.scope? handle = some scope →
    ∀ name value, scope.own name = some value → admitted value

namespace HoldsOnly

variable {store : Store} {admitted : Value → Prop}

theorem empty (admitted : Value → Prop) : Store.empty.HoldsOnly admitted := by
  intro handle scope present
  exact absurd (older_of_scope present) (Nat.not_lt_zero handle)

theorem add (holds : store.HoldsOnly admitted) {scope : Scope}
    (own : ∀ name value, scope.own name = some value → admitted value) :
    (store.add scope).2.HoldsOnly admitted := by
  intro handle found present
  rw [scope_add] at present
  split at present
  · obtain rfl := Option.some.inj present
    exact own
  · exact holds handle found present

theorem add_root (holds : store.HoldsOnly admitted) : store.addRoot.2.HoldsOnly admitted := by
  refine holds.add fun name value bound => ?_
  cases bound

theorem bind (holds : store.HoldsOnly admitted) (scope : Handle) (name : String) {value : Value}
    (isSuch : admitted value) : (store.bind scope name value).HoldsOnly admitted := by
  intro handle found present wanted bound same
  by_cases here : scope = handle
  · subst here
    rw [scope_bind] at present
    obtain ⟨before, presentBefore, rfl⟩ := Option.map_eq_some_iff.mp present
    rw [Scope.own_bind] at same
    split at same
    · obtain rfl := Option.some.inj same
      exact isSuch
    · exact holds scope before presentBefore wanted bound same
  · rw [scope_bind_other _ _ _ _ _ here] at present
    exact holds handle found present wanted bound same

theorem lookup (holds : store.HoldsOnly admitted) {handle : Handle} {name : String} {value : Value}
    (found : store.lookup handle name = some value) : admitted value := by
  obtain ⟨binder, scope, present, bound⟩ := bound_of_lookup found
  exact holds binder scope present name value bound

end HoldsOnly

def ownOf (store : Store) (handle : Handle) (name : String) : Option Value :=
  (store.scope? handle).bind fun scope => scope.own name

def parentOf (store : Store) (handle : Handle) : Option Handle :=
  (store.scope? handle).bind Scope.parent

theorem lookup_eq (store : Store) (seen : Handle) (name : String) :
    store.lookup seen name = (store.ownOf seen name).or ((store.parentOf seen).bind fun parent =>
      if parent < seen then store.lookup parent name else none) := by
  rw [lookup.eq_def, ownOf, parentOf]
  cases store.scope? seen with
  | none => rfl
  | some scope =>
      dsimp only [Option.bind_some]
      cases scope.own name with
      | some value => rfl
      | none => cases scope.parent <;> rfl

theorem own_newer {store : Store} {handle : Handle} (newer : store.size ≤ handle) (name : String) :
    store.ownOf handle name = none := by
  rw [ownOf, scope_newer newer]
  rfl

theorem parent_newer {store : Store} {handle : Handle} (newer : store.size ≤ handle) :
    store.parentOf handle = none := by
  rw [parentOf, scope_newer newer]
  rfl

theorem own_of_add (store : Store) (scope : Scope) (handle : Handle) (name : String) :
    (store.add scope).2.ownOf handle name =
      if handle = store.size then scope.own name else store.ownOf handle name := by
  rw [ownOf, scope_add]
  split <;> rfl

theorem parent_of_add (store : Store) (scope : Scope) (handle : Handle) :
    (store.add scope).2.parentOf handle =
      if handle = store.size then scope.parent else store.parentOf handle := by
  rw [parentOf, scope_add]
  split <;> rfl

theorem own_of_copied (store : Store) (source : Handle) (name : String) :
    ((store.scope? source).getD (.empty none)).own name = store.ownOf source name := by
  rw [ownOf]
  cases store.scope? source <;> rfl

theorem parent_of_copied (store : Store) (source : Handle) :
    ((store.scope? source).getD (.empty none)).parent = store.parentOf source := by
  rw [parentOf]
  cases store.scope? source <;> rfl

theorem own_of_bind {store : Store} {scope : Handle} (older : scope < store.size) (name : String)
    (value : Value) : (store.bind scope name value).ownOf scope name = some value := by
  rw [ownOf, scope_bind, scope?, Array.getElem?_eq_getElem older]
  exact if_pos rfl

theorem own_of_bind_other (store : Store) {scope handle : Handle} {name wanted : String}
    (value : Value) (other : handle ≠ scope ∨ wanted ≠ name) :
    (store.bind scope name value).ownOf handle wanted = store.ownOf handle wanted := by
  rw [ownOf, ownOf]
  by_cases here : scope = handle
  · subst here
    rw [scope_bind, Option.bind_map]
    exact Option.bind_congr fun _ _ => if_neg (other.resolve_left (not_not_intro rfl))
  · rw [scope_bind_other _ _ _ _ _ here]

theorem parent_of_bind (store : Store) (scope handle : Handle) (name : String) (value : Value) :
    (store.bind scope name value).parentOf handle = store.parentOf handle := by
  rw [parentOf, parentOf]
  by_cases here : scope = handle
  · subst here
    rw [scope_bind]
    cases store.scope? scope <;> rfl
  · rw [scope_bind_other _ _ _ _ _ here]

/-- Two stores find the same where they agree outward from a scope, up to the first scope that binds
the name. The induction follows the links, and `Alike` is what holds of the scopes it comes to. -/
theorem lookup_congr {first second : Store} {name : String} (Alike : Handle → Prop)
    (own : ∀ handle, Alike handle → first.ownOf handle name = second.ownOf handle name)
    (parents : ∀ handle, Alike handle → first.parentOf handle = second.parentOf handle)
    (outward : ∀ handle parent, Alike handle → second.ownOf handle name = none →
      second.parentOf handle = some parent → parent < handle → Alike parent)
    {seen : Handle} (alike : Alike seen) : first.lookup seen name = second.lookup seen name := by
  induction seen using Nat.strongRecOn with
  | ind seen induction =>
      rw [lookup_eq, lookup_eq second, own seen alike, parents seen alike]
      cases unbound : second.ownOf seen name with
      | some value => rfl
      | none =>
          refine congrArg _ (Option.bind_congr fun parent link => ?_)
          split
          · rename_i older
            exact induction parent older (outward seen parent alike unbound link older)
          · rfl

/-- A binding of one name does not change what another is found to mean. -/
theorem lookup_bind_other (store : Store) (scope : Handle) {name wanted : String} (value : Value)
    (distinct : wanted ≠ name) (seen : Handle) :
    (store.bind scope name value).lookup seen wanted = store.lookup seen wanted := by
  apply lookup_congr fun _ => True
  · exact fun _ _ => own_of_bind_other store value (.inr distinct)
  · exact fun handle _ => parent_of_bind store scope handle name value
  · exact fun _ _ _ _ _ _ => trivial
  · trivial

end Store

end Scriptlet
