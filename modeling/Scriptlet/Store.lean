import Scriptlet.Value

/-!
The store of scopes. A scope has bindings of its own and may have a parent in which names are
looked up that it does not bind itself. Scopes are shared: every handle to a scope sees what is
bound in it later, and nothing ever removes a scope.
-/

namespace Scriptlet

structure Scope where
  own : String → Option Value
  parent : Option Handle

namespace Scope

def empty (parent : Option Handle) : Scope := ⟨fun _ => none, parent⟩

def bind (scope : Scope) (name : String) (value : Value) : Scope :=
  { scope with own := fun wanted => if wanted = name then some value else scope.own wanted }

theorem own_bind (scope : Scope) (name wanted : String) (value : Value) :
    (scope.bind name value).own wanted = if wanted = name then some value else scope.own wanted :=
  rfl

theorem parent_bind (scope : Scope) (name : String) (value : Value) :
    (scope.bind name value).parent = scope.parent := rfl

/-- Binds names to values one after another; names and values left over are not bound. -/
def bindAll (scope : Scope) (names : List String) (values : List Value) : Scope :=
  (names.zip values).foldl (fun scope (name, value) => scope.bind name value) scope

end Scope

structure Store where
  scopes : Array Scope

namespace Store

def empty : Store := ⟨#[]⟩

def size (store : Store) : Nat := store.scopes.size

def scope? (store : Store) (handle : Handle) : Option Scope := store.scopes[handle]?

def add (store : Store) (scope : Scope) : Handle × Store :=
  (store.size, ⟨store.scopes.push scope⟩)

def addRoot (store : Store) : Handle × Store := store.add (.empty none)

def addChild (store : Store) (parent : Handle) : Handle × Store := store.add (.empty (some parent))

/-- Adds a scope with the bindings that another has now, and with the same parent. -/
def addCopy (store : Store) (handle : Handle) : Handle × Store :=
  store.add ((store.scope? handle).getD (.empty none))

def bind (store : Store) (handle : Handle) (name : String) (value : Value) : Store :=
  ⟨store.scopes.modify handle fun scope => scope.bind name value⟩

theorem size_add (store : Store) (scope : Scope) : (store.add scope).2.size = store.size + 1 := by
  simp [add, size]

theorem scope_add_older (store : Store) (scope : Scope) (handle : Handle)
    (older : handle < store.size) : (store.add scope).2.scope? handle = store.scope? handle := by
  have bound : handle ≠ store.scopes.size := Nat.ne_of_lt older
  simp [add, scope?, Array.getElem?_push, bound]

theorem scope_add (store : Store) (scope : Scope) (handle : Handle) :
    (store.add scope).2.scope? handle =
      if handle = store.size then some scope else store.scope? handle := Array.getElem?_push

theorem older_of_scope {store : Store} {handle : Handle} {scope : Scope}
    (found : store.scope? handle = some scope) : handle < store.size := by
  rw [scope?] at found
  exact (Array.getElem?_eq_some_iff.mp found).1

theorem scope_newer {store : Store} {handle : Handle} (newer : store.size ≤ handle) :
    store.scope? handle = none := Array.getElem?_eq_none newer

theorem size_bind (store : Store) (handle : Handle) (name : String) (value : Value) :
    (store.bind handle name value).size = store.size := by
  simp [bind, size]

theorem scope_bind (store : Store) (handle : Handle) (name : String) (value : Value) :
    (store.bind handle name value).scope? handle =
      (store.scope? handle).map fun scope => scope.bind name value := by
  simp [bind, scope?, Array.getElem?_modify]

theorem scope_bind_other (store : Store) (handle other : Handle) (name : String) (value : Value)
    (distinct : handle ≠ other) :
    (store.bind handle name value).scope? other = store.scope? other := by
  simp [bind, scope?, Array.getElem?_modify, distinct]

/-- The value of a name in the nearest scope outward that binds it. A parent is older than its
children, so its handle is smaller; a link that does not lead to an older scope is not followed.
-/
def lookup (store : Store) (handle : Handle) (name : String) : Option Value :=
  match store.scope? handle with
  | none => none
  | some scope =>
      match scope.own name, scope.parent with
      | some value, _ => some value
      | none, none => none
      | none, some parent => if parent < handle then store.lookup parent name else none
termination_by handle

/-- What a name is found to mean is bound to it in some scope. -/
theorem bound_of_lookup {store : Store} {handle : Handle} {name : String} {value : Value}
    (found : store.lookup handle name = some value) :
    ∃ binder scope, store.scope? binder = some scope ∧ scope.own name = some value := by
  induction handle using Nat.strongRecOn with
  | ind handle outward =>
      rw [lookup] at found
      split at found
      · cases found
      · rename_i scope present
        split at found
        · rename_i bound
          exact ⟨handle, scope, present, bound.trans found⟩
        · cases found
        · split at found
          · rename_i older
            exact outward _ older found
          · cases found

end Store

end Scriptlet
