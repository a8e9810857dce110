import Scriptlet.Proofs.Evaluation.Linked
import Scriptlet.Proofs.Evaluation.Turns
import Scriptlet.Proofs.Store.EditLog
import Scriptlet.Proofs.Store.Outward

/-!
The lineage of scopes. Whatever is done to a store in whatever order, each scope is older than the
scopes inside it and every function was written in a scope of the store. So names can be looked up
in every store that ever comes about, although scopes may bind functions that refer back to them.
-/

namespace Scriptlet

open Evaluation

/-- Scopes of the store refer to scopes of the store only, and each is younger than its parent. -/
structure Store.Layered (store : Store) : Prop where
  linked : store.Linked
  ordered : store.Ordered

theorem Scope.Within.empty {size : Nat} {parent : Option Handle}
    (older : ∀ outer ∈ parent, outer < size) : (Scope.empty parent).Within size where
  parent := older
  own _ _ bound := nomatch bound

namespace Store.Layered

variable {store : Store}

theorem empty : Store.empty.Layered := ⟨.empty, .empty⟩

theorem add (layered : store.Layered) {scope : Scope} (within : scope.Within store.size) :
    (store.add scope).2.Layered :=
  ⟨layered.linked.add within, layered.ordered.add within.parent⟩

theorem bind (layered : store.Layered) (scope : Handle) (name : String) {value : Value}
    (within : value.Within store.size) : (store.bind scope name value).Layered :=
  ⟨layered.linked.bind scope name within, layered.ordered.bind scope name value⟩

end Store.Layered

def Invariant.layered : Invariant :=
  { Invariant.linked with
    stores := Store.Layered
    lookup := fun layered _ => layered.linked.lookup
    add := fun layered older link within => by
      refine ⟨layered.add ⟨fun parent found => ?_, within⟩, Nat.lt_succ_self _⟩
      obtain rfl := Option.some.inj (link.symm.trans found)
      exact older
    bind := fun name layered _ within => layered.bind _ name within }

def Turn.Within (size : Nat) : Turn → Prop
  | .source _ | .program _ => True
  | .call callee values => callee.Within size ∧ ∀ value ∈ values, value.Within size

theorem Turn.Within.admitted {size : Nat} {scope : Handle} {turn : Turn}
    (within : turn.Within size) (present : scope < size) :
    Invariant.layered.AdmitsTurn size scope turn := by
  cases turn with
  | source | program => exact present
  | call callee values =>
      refine ⟨?_, within.2⟩
      rintro parameters body home rfl
      exact within.1 home rfl

/-- The stores that come about from the empty one: by edits, and by turns taken in any scope. A
store also comes about in the middle of a turn, at each point that the run of the turn goes through.
What is bound and handed over refers to scopes that exist. -/
inductive Store.Reachable : Store → Prop where
  | empty : Reachable .empty
  | edit {store : Store} {edit : Edit} (reachable : Reachable store)
      (within : edit.Within store.size)
      (bound : ∀ scope name value, edit = .bind scope name value → value.Within store.size) :
      Reachable (edit.apply store)
  | during {store : Store} {turn : Turn} {scope : Handle} {point reached : Point}
      (reachable : Reachable store) (present : scope < store.size)
      (within : turn.Within store.size) (starts : point ∈ turn.point? ⟨store, scope⟩)
      (visits : Visits point reached) : Reachable reached.start.store
  | after {store later : Store} {turn : Turn} {scope : Handle} {depth : Nat}
      {result : Option Value} (reachable : Reachable store) (present : scope < store.size)
      (within : turn.Within store.size) (ran : turn.run depth scope store = some (result, later)) :
      Reachable later

section Steps

variable {store : Store}

theorem Store.Layered.edit (layered : store.Layered) {edit : Edit} (within : edit.Within store.size)
    (bound : ∀ scope name value, edit = .bind scope name value → value.Within store.size) :
    (edit.apply store).Layered := by
  cases edit with
  | root => exact layered.add (.empty fun _ found => nomatch found)
  | child parent => exact layered.add (.empty fun _ found => Option.some.inj found ▸ within)
  | copy source =>
      refine layered.add ?_
      cases present : store.scope? source with
      | none => exact .empty fun _ found => nomatch found
      | some scope => exact layered.linked source scope present
  | bind scope name value => exact layered.bind scope name (bound scope name value rfl)

theorem Store.Reachable.layered (reachable : store.Reachable) : store.Layered := by
  induction reachable with
  | empty => exact .empty
  | edit _ within bound layered => exact layered.edit within bound
  | during _ present within starts visits layered =>
      have ready := Invariant.turn_ready layered (within.admitted present) starts
      exact (Invariant.visited_ready ready visits).stores
  | after _ present within ran layered =>
      exact (Invariant.turn_keeps layered (within.admitted present) ran).1

end Steps

/-- In every store that comes about, whatever was done in whatever order: parents are scopes of the
store and older than their children, so links never lead back to a scope; whatever is bound refers
to a scope of the store, if to any, and so do the values that the next turn comes to, as a whole and
at each point of its run. Following the links from any scope therefore ends, after no more steps
than there are scopes up to this one, and finds what the nearest scope that binds the name binds it
to, or nothing if none does. -/
theorem reachable_stores_are_layered {store : Store} (reachable : store.Reachable) :
    (∀ child parent, store.parentOf child = some parent →
      parent < child ∧ child < store.size) ∧
    (∀ scope, ¬Relation.TransGen store.Link scope scope) ∧
    (∀ scope name (value : Value), store.ownOf scope name = some value →
      value.Within store.size) ∧
    (∀ (turn : Turn) (scope : Handle), turn.Within store.size → scope < store.size →
      (∀ point ∈ turn.point? ⟨store, scope⟩, ∀ reached, Visits point reached →
        ∀ results final, reached.Ends results final →
          ∀ value ∈ results, Value.Within final.store.size value) ∧
      ∀ depth result later, turn.run depth scope store = some (result, later) →
        ∀ value ∈ result, Value.Within later.size value) ∧
    ∀ scope name,
      (∀ steps, scope < steps →
        store.search name steps scope = some (store.lookup scope name)) ∧
      (∀ value, store.lookup scope name = some value ↔ store.Nearest scope name value) ∧
      (store.lookup scope name = none ↔
        ∀ outer, store.Outward scope outer → store.ownOf outer name = none) := by
  have layered := reachable.layered
  refine ⟨fun child parent link => ⟨layered.ordered child parent link, ?_⟩,
    layered.ordered.acyclic, fun scope name value bound => ?_, fun turn scope within present => ?_,
    fun scope name => ⟨fun steps => layered.ordered.search_ends,
      fun value => layered.ordered.lookup_iff_nearest, layered.ordered.lookup_none_iff⟩⟩
  · by_contra newer
    rw [Store.parent_newer (Nat.le_of_not_lt newer)] at link
    cases link
  · obtain ⟨found, presentThere, boundThere⟩ := Option.bind_eq_some_iff.mp bound
    exact (layered.linked scope found presentThere).own name value boundThere
  · have admitted := within.admitted present
    refine ⟨fun point starts reached visits results final ended => ?_, fun depth result later ran =>
      (Invariant.turn_keeps layered admitted ran).2.2⟩
    have ready := Invariant.visited_ready (Invariant.turn_ready layered admitted starts) visits
    exact (Invariant.point_keeps ready ended).2

/-- A scope inside another one binds a function that was written in it, and so refers to itself. The
function is found there all the same, and what is not bound is searched for to the end. -/
theorem scope_may_refer_to_itself :
    let itself := Value.function ["x"] [.expr (.name "f")] 1
    ∃ store : Store, store.Reachable ∧ store.ownOf 1 "f" = some itself ∧
      store.parentOf 1 = some 0 ∧ ¬Relation.TransGen store.Link 1 1 ∧
      store.Nearest 1 "f" itself ∧ store.search "g" 2 1 = some none := by
  intro itself
  let outer := Edit.root.apply .empty
  let inner := (Edit.child 0).apply outer
  let turn := Turn.source "let f = fn(x) \x7b f \x7d;"
  have ran : ((turn.run 0 1 inner).map fun (_, later) =>
      (later.ownOf 1 "f", later.parentOf 1, later.lookup 1 "f", later.lookup 1 "g")) =
      some (some itself, some 0, some itself, none) := by
    decide +kernel
  obtain ⟨⟨result, store⟩, ran, same⟩ := Option.map_eq_some_iff.mp ran
  simp only [Prod.mk.injEq] at same
  obtain ⟨own, parent, bound, unbound⟩ := same
  have outerReachable : (Edit.root.apply .empty).Reachable := .edit .empty trivial nofun
  have innerReachable : ((Edit.child 0).apply outer).Reachable :=
    .edit outerReachable (by decide) nofun
  have within : turn.Within inner.size := trivial
  have reachable : store.Reachable := .after innerReachable (by decide) within ran
  obtain ⟨_, acyclic, _, _, search⟩ := reachable_stores_are_layered reachable
  refine ⟨store, reachable, own, parent, acyclic 1, ((search 1 "f").2.1 itself).mp bound, ?_⟩
  rw [(search 1 "g").1 2 (by decide), unbound]

end Scriptlet
