import Mathlib.Logic.Relation
import Scriptlet.Proofs.Store.Bindings

/-!
Looking names up along the links of a store. Where each parent is older than its children, the links
lead outward and never back, so a search that follows them comes to an end; it finds what the
nearest scope that binds the name binds it to.
-/

namespace Scriptlet.Store

def Ordered (store : Store) : Prop :=
  ∀ child parent, store.parentOf child = some parent → parent < child

def Link (store : Store) (child parent : Handle) : Prop := store.parentOf child = some parent

def Outward (store : Store) : Handle → Handle → Prop := Relation.ReflTransGen store.Link

/-- Looks a name up in at most so many scopes, one behind the other along the links. Without an
answer, the search has not come to its end. -/
def search (store : Store) (name : String) : (steps : Nat) → Handle → Option (Option Value)
  | 0, _ => none
  | steps + 1, seen =>
      match store.ownOf seen name, store.parentOf seen with
      | some value, _ => some (some value)
      | none, none => some none
      | none, some parent => store.search name steps parent

/-- The nearest scope outward that binds the name binds it to this value. -/
def Nearest (store : Store) (seen : Handle) (name : String) (value : Value) : Prop :=
  ∃ binder, store.Outward seen binder ∧ store.ownOf binder name = some value ∧
    ∀ nearer, store.Outward seen nearer → store.Outward nearer binder → nearer ≠ binder →
      store.ownOf nearer name = none

variable {store : Store} {seen parent outer : Handle} {name : String} {value : Value}

theorem outward_parent (link : store.parentOf seen = some parent) :
    store.Outward seen outer ↔ outer = seen ∨ store.Outward parent outer := by
  constructor
  · intro leads
    rcases leads.cases_head with same | ⟨next, linked, leads⟩
    · exact .inl same.symm
    · obtain rfl : parent = next := Option.some.inj (link.symm.trans linked)
      exact .inr leads
  · rintro (rfl | leads)
    · exact .refl
    · exact .head link leads

theorem outward_root (root : store.parentOf seen = none) :
    store.Outward seen outer ↔ outer = seen := by
  constructor
  · intro leads
    rcases leads.cases_head with same | ⟨next, linked, _⟩
    · exact same.symm
    · exact absurd (root.symm.trans linked) nofun
  · rintro rfl
    exact .refl

/-- Where a scope does not bind the name itself, its parent decides. -/
theorem nearest_outer (unbound : store.ownOf seen name = none)
    (link : store.parentOf seen = some parent) :
    store.Nearest seen name value ↔ store.Nearest parent name value := by
  constructor
  · rintro ⟨binder, leads, bound, nearest⟩
    rcases (outward_parent link).mp leads with rfl | leads
    · exact absurd (unbound.symm.trans bound) nofun
    · exact ⟨binder, leads, bound, fun nearer leadsThere =>
        nearest nearer ((outward_parent link).mpr (.inr leadsThere))⟩
  · rintro ⟨binder, leads, bound, nearest⟩
    refine ⟨binder, (outward_parent link).mpr (.inr leads), bound, fun nearer leadsThere => ?_⟩
    rcases (outward_parent link).mp leadsThere with rfl | leadsThere
    · exact fun _ _ => unbound
    · exact nearest nearer leadsThere

theorem not_nearest_root (unbound : store.ownOf seen name = none)
    (root : store.parentOf seen = none) : ¬store.Nearest seen name value := by
  rintro ⟨binder, leads, bound, _⟩
  obtain rfl := (outward_root root).mp leads
  exact absurd (unbound.symm.trans bound) nofun

namespace Ordered

theorem empty : Store.empty.Ordered := by
  intro child parent link
  rw [parent_newer (Nat.zero_le child)] at link
  cases link

theorem add (ordered : store.Ordered) {scope : Scope}
    (older : ∀ parent ∈ scope.parent, parent < store.size) : (store.add scope).2.Ordered := by
  intro child parent link
  rw [parent_of_add] at link
  split at link
  · next newest => exact newest ▸ older parent link
  · exact ordered child parent link

theorem bind (ordered : store.Ordered) (scope : Handle) (name : String) (value : Value) :
    (store.bind scope name value).Ordered := by
  intro child parent link
  exact ordered child parent (parent_of_bind store scope child name value ▸ link)

variable (ordered : store.Ordered)

include ordered

theorem outward_le (leads : store.Outward seen outer) : outer ≤ seen := by
  induction leads with
  | refl => exact Nat.le_refl _
  | tail _ link induction => exact Nat.le_trans (Nat.le_of_lt (ordered _ _ link)) induction

/-- No links lead from a scope back to it. -/
theorem acyclic (scope : Handle) : ¬Relation.TransGen store.Link scope scope := by
  intro cycle
  obtain ⟨parent, link, back⟩ := Relation.TransGen.head'_iff.mp cycle
  exact Nat.not_lt_of_le (ordered.outward_le back) (ordered _ _ link)

theorem nearest_own {own : Value} (bound : store.ownOf seen name = some own) :
    store.Nearest seen name value ↔ own = value := by
  constructor
  · rintro ⟨binder, leads, boundThere, nearest⟩
    by_cases here : seen = binder
    · subst here
      exact Option.some.inj (bound.symm.trans boundThere)
    · exact absurd (bound.symm.trans (nearest seen .refl leads here)) nofun
  · rintro rfl
    refine ⟨seen, .refl, bound, fun nearer leads back distinct => ?_⟩
    exact absurd (Nat.le_antisymm (ordered.outward_le leads) (ordered.outward_le back)) distinct

/-- Where links are known to lead outward, none is left out in looking a name up. -/
theorem lookup_outward (seen : Handle) (name : String) : store.lookup seen name =
    (store.ownOf seen name).or
      ((store.parentOf seen).bind fun parent => store.lookup parent name) := by
  rw [lookup_eq]
  exact congrArg _ (Option.bind_congr fun parent link => if_pos (ordered seen parent link))

/-- A search that may take a step for each scope up to the first one comes to its end. -/
theorem search_ends {steps : Nat} (enough : seen < steps) :
    store.search name steps seen = some (store.lookup seen name) := by
  induction steps generalizing seen with
  | zero => exact absurd enough (Nat.not_lt_zero _)
  | succ steps induction =>
      rw [search, ordered.lookup_outward]
      cases store.ownOf seen name with
      | some value => rfl
      | none =>
          cases link : store.parentOf seen with
          | none => rfl
          | some parent =>
              exact induction (Nat.lt_of_lt_of_le (ordered seen parent link)
                (Nat.le_of_lt_succ enough))

theorem lookup_iff_nearest :
    store.lookup seen name = some value ↔ store.Nearest seen name value := by
  induction seen using Nat.strongRecOn with
  | ind seen induction =>
      rw [ordered.lookup_outward]
      cases own : store.ownOf seen name with
      | some bound => exact Option.some_inj.trans (ordered.nearest_own own).symm
      | none =>
          cases link : store.parentOf seen with
          | none => exact iff_of_false nofun (not_nearest_root own link)
          | some parent =>
              exact (induction parent (ordered seen parent link)).trans
                (nearest_outer own link).symm

theorem lookup_none_iff : store.lookup seen name = none ↔
    ∀ outer, store.Outward seen outer → store.ownOf outer name = none := by
  induction seen using Nat.strongRecOn with
  | ind seen induction =>
      rw [ordered.lookup_outward]
      cases own : store.ownOf seen name with
      | some bound => exact iff_of_false nofun fun all => nomatch own.symm.trans (all seen .refl)
      | none =>
          cases link : store.parentOf seen with
          | none => simp [outward_root link, own]
          | some parent =>
              simpa [outward_parent link, own] using induction parent (ordered seen parent link)

end Ordered

end Scriptlet.Store
