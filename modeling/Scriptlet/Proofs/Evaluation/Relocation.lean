import Scriptlet.Proofs.Evaluation.Frame

/-!
Evaluation over a store whose scopes are numbered otherwise. A relocation leaves the old scopes
where they are and moves the new ones; some of the old scopes may be out of reach, and then the two
stores need not agree on them. Evaluation comes to the same in both stores, up to the new handles,
and never leads out of reach.
-/

namespace Scriptlet

open Evaluation

namespace Value

/-- The scope that a function was written in, also of a function on its way from a return. -/
def home? : Value → Option Handle
  | function _ _ home => some home
  | returned value => value.home?
  | _ => none

def rename (move : Handle → Handle) : Value → Value
  | function parameters body home => function parameters body (move home)
  | returned value => returned (value.rename move)
  | value => value

variable {move : Handle → Handle}

theorem rename_eq_self {value : Value} (stays : ∀ home ∈ value.home?, move home = home) :
    value.rename move = value := by
  induction value with
  | function parameters body home => rw [rename, stays home rfl]
  | returned value induction => rw [rename, induction stays]
  | _ => rfl

theorem alike_rename (move : Handle → Handle) (value : Value) :
    value.Alike (value.rename move) := by
  cases value with
  | returned value => exact .returned _ _
  | function parameters body home => exact .function
  | _ => exact .same _

theorem unwrap_rename (move : Handle → Handle) (value : Value) :
    (value.rename move).unwrap = value.unwrap.rename move := by
  cases value <;> rfl

theorem home_of_unwrap {value : Value} {home : Handle} (found : home ∈ value.unwrap.home?) :
    home ∈ value.home? := by
  cases value <;> exact found

theorem type_rename (move : Handle → Handle) (value : Value) :
    (value.rename move).type = value.type := by
  cases value <;> rfl

theorem truthy_rename (move : Handle → Handle) (value : Value) :
    (value.rename move).truthy = value.truthy := by
  cases value <;> rfl

theorem render_rename (move : Handle → Handle) (value : Value) :
    (value.rename move).render = value.render := by
  induction value with
  | returned value induction => exact induction
  | _ => rfl

theorem rename_eq_error_iff {value : Value} {message : String} :
    value.rename move = .error message ↔ value = .error message := by
  cases value <;> simp [rename]

end Value

def Scope.rename (move : Handle → Handle) (scope : Scope) : Scope where
  own name := (scope.own name).map (Value.rename move)
  parent := scope.parent.map move

theorem Scope.rename_eq_self {move : Handle → Handle} {scope : Scope}
    (parent : ∀ parent ∈ scope.parent, move parent = parent)
    (own : ∀ name value, scope.own name = some value → ∀ home ∈ value.home?, move home = home) :
    scope.rename move = scope := by
  have sameOwn : (scope.rename move).own = scope.own := by
    funext name
    change (scope.own name).map _ = scope.own name
    cases bound : scope.own name with
    | none => rfl
    | some value => exact congrArg some (Value.rename_eq_self (own name value bound))
  have sameParent : (scope.rename move).parent = scope.parent := by
    change scope.parent.map move = scope.parent
    cases link : scope.parent with
    | none => rfl
    | some outer => exact congrArg some (parent outer link)
  exact congr (congrArg Scope.mk sameOwn) sameParent

/-- Which scopes are new, how far they are moved, and which of the old ones are within reach. -/
structure Relocation where
  base : Nat
  offset : Nat
  old : Handle → Prop

namespace Relocation

variable (relocation : Relocation)

def move (handle : Nat) : Nat :=
  if handle < relocation.base then handle else handle + relocation.offset

def Reaches (handle : Handle) : Prop := relocation.base ≤ handle ∨ relocation.old handle

theorem move_older {handle : Handle} (older : handle < relocation.base) :
    relocation.move handle = handle := if_pos older

theorem move_newer {handle : Handle} (newer : relocation.base ≤ handle) :
    relocation.move handle = handle + relocation.offset := if_neg (Nat.not_lt.mpr newer)

theorem move_lt_iff {left right : Nat} :
    relocation.move left < relocation.move right ↔ left < right := by
  rw [move, move]
  split <;> split <;> omega

theorem move_injective : Function.Injective relocation.move := by
  intro left right same
  rcases Nat.lt_trichotomy left right with less | same' | more
  · exact absurd (relocation.move_lt_iff.mpr less) (same ▸ Nat.lt_irrefl _)
  · exact same'
  · exact absurd (relocation.move_lt_iff.mpr more) (same ▸ Nat.lt_irrefl _)

structure MovesValue (left right : Value) : Prop where
  same : right = left.rename relocation.move
  reached : ∀ home ∈ left.home?, relocation.Reaches home

structure MovesScope (left right : Scope) : Prop where
  parent : right.parent = left.parent.map relocation.move
  reached : ∀ parent ∈ left.parent, relocation.Reaches parent
  own : left.BindsAlike relocation.MovesValue right

structure MovesStore (left right : Store) : Prop where
  old : relocation.base ≤ left.size
  size : right.size = left.size + relocation.offset
  scopes : ∀ handle, relocation.Reaches handle →
    Option.Rel relocation.MovesScope (left.scope? handle)
      (right.scope? (relocation.move handle))

def Keeps (handle : Handle) : Prop :=
  relocation.move handle = handle ∧ relocation.Reaches handle

variable {relocation}

theorem moves_value_self {value : Value} (kept : ∀ home ∈ value.home?, relocation.Keeps home) :
    relocation.MovesValue value value where
  same := (Value.rename_eq_self fun home found => (kept home found).1).symm
  reached home found := (kept home found).2

theorem moves_scope_self {scope : Scope} (parent : ∀ parent ∈ scope.parent, relocation.Keeps parent)
    (own : ∀ name value, scope.own name = some value →
      ∀ home ∈ value.home?, relocation.Keeps home) : relocation.MovesScope scope scope where
  parent := by
    have same := Scope.rename_eq_self (fun outer link => (parent outer link).1)
      fun name value bound home found => (own name value bound home found).1
    exact (congrArg Scope.parent same).symm
  reached outer link := (parent outer link).2
  own name := by
    cases bound : scope.own name with
    | none => exact .none
    | some value => exact .some (moves_value_self (own name value bound))

theorem MovesScope.rename_eq {left right : Scope} (moves : relocation.MovesScope left right) :
    right = left.rename relocation.move := by
  obtain ⟨own, parent⟩ := right
  have sameOwn (name : String) : own name = (left.own name).map (Value.rename relocation.move) := by
    have together := moves.own name
    generalize left.own name = value at together
    change Option.Rel _ value (own name) at together
    generalize own name = value' at together
    cases together with
    | none => rfl
    | some together => rw [together.same]; rfl
  exact congr (congrArg Scope.mk (funext sameOwn)) moves.parent

theorem MovesStore.scope_eq {left right : Store} (moves : relocation.MovesStore left right)
    {handle : Handle} (reached : relocation.Reaches handle) :
    right.scope? (relocation.move handle) =
      (left.scope? handle).map (Scope.rename relocation.move) := by
  have together := moves.scopes handle reached
  generalize left.scope? handle = scope, right.scope? (relocation.move handle) = scope' at together
  cases together with
  | none => rfl
  | some together => rw [together.rename_eq]; rfl

theorem MovesStore.lookup {left right : Store} (moves : relocation.MovesStore left right)
    {handle : Handle} (reached : relocation.Reaches handle) (name : String) :
    Option.Rel relocation.MovesValue (left.lookup handle name)
      (right.lookup (relocation.move handle) name) := by
  -- The induction follows the links outward; a relocation keeps the order of scopes, so that a link
  -- is followed on the one side exactly when it is on the other.
  induction handle using Nat.strongRecOn with
  | ind handle outward =>
      rw [Store.lookup, Store.lookup]
      have together := moves.scopes handle reached
      generalize left.scope? handle = found, right.scope? (relocation.move handle) = found'
        at together
      cases together with
      | none => exact .none
      | @some scope scope' together =>
          dsimp only
          have own := together.own name
          rw [together.parent]
          generalize scope.own name = value, scope'.own name = value' at own
          cases own with
          | some own => exact .some own
          | none =>
              cases link : scope.parent with
              | none => exact .none
              | some parent =>
                  dsimp only [Option.map_some]
                  simp only [relocation.move_lt_iff]
                  split
                  · rename_i older
                    exact outward parent older (together.reached parent link)
                  · exact .none

theorem MovesStore.size_eq {left right : Store} (moves : relocation.MovesStore left right) :
    relocation.move left.size = right.size := by
  rw [relocation.move_newer moves.old, moves.size]

theorem MovesStore.add {left right : Store} (moves : relocation.MovesStore left right)
    {scope scope' : Scope} (added : relocation.MovesScope scope scope') :
    relocation.MovesStore (left.add scope).2 (right.add scope').2 where
  old := by
    rw [Store.size_add]
    exact Nat.le_succ_of_le moves.old
  size := by
    rw [Store.size_add, Store.size_add, moves.size, Nat.add_right_comm]
  scopes handle reached := by
    rw [Store.scope_add, Store.scope_add, ← moves.size_eq]
    simp only [relocation.move_injective.eq_iff]
    split
    · exact .some added
    · exact moves.scopes handle reached

theorem MovesStore.bind {left right : Store} (moves : relocation.MovesStore left right)
    {value value' : Value} (bound : relocation.MovesValue value value') (scope : Handle)
    (name : String) :
    relocation.MovesStore (left.bind scope name value)
      (right.bind (relocation.move scope) name value') where
  old := by
    rw [Store.size_bind]
    exact moves.old
  size := by
    rw [Store.size_bind, Store.size_bind, moves.size]
  scopes handle reached := by
    by_cases same : scope = handle
    · subst same
      rw [Store.scope_bind, Store.scope_bind]
      exact rel_map (moves.scopes scope reached) fun _ _ moves =>
        ⟨moves.parent, moves.reached, Scope.bind_binds_alike name moves.own bound⟩
    · rw [Store.scope_bind_other _ _ _ _ _ same,
        Store.scope_bind_other _ _ _ _ _ (relocation.move_injective.ne same)]
      exact moves.scopes handle reached

def pairing (relocation : Relocation) : Pairing where
  stores := relocation.MovesStore
  reads _ := True
  readable _ left right := right = relocation.move left ∧ relocation.Reaches left
  writable _ left right := right = relocation.move left ∧ relocation.Reaches left
  values _ := relocation.MovesValue
  outcomes _ := relocation.MovesValue
  readable_later _ := id
  writable_later _ := id
  values_later _ := id
  outcomes_later _ := id
  readable_of_writable := id
  outcome_of_value := id
  value_of_outcome _ := id
  alike := by
    rintro _ left _ ⟨rfl, _⟩
    exact left.alike_rename _
  int _ _ := ⟨rfl, fun _ found => nomatch found⟩
  bool _ _ := ⟨rfl, fun _ found => nomatch found⟩
  null _ := ⟨rfl, fun _ found => nomatch found⟩
  fault _ _ := ⟨rfl, fun _ found => nomatch found⟩
  function parameters body _ := by
    rintro ⟨rfl, reached⟩
    refine ⟨rfl, fun home found => ?_⟩
    obtain rfl := Option.some.inj found
    exact reached
  callee := by
    rintro _ left _ ⟨rfl, reached⟩
    cases left with
    | function parameters body home =>
        exact .function _ _ (fun _ _ => trivial) ⟨rfl, reached home rfl⟩
    | _ => exact .other rfl (by intro same; cases same)
  returned := by
    rintro _ left _ ⟨rfl, reached⟩
    exact ⟨rfl, reached⟩
  unwrap := by
    rintro _ left _ ⟨rfl, reached⟩
    exact ⟨left.unwrap_rename _, fun home found => reached home (Value.home_of_unwrap found)⟩
  lookup {_ _ _ _ name} _ moves := by
    rintro ⟨rfl, reached⟩
    exact moves.lookup reached name
  add := by
    rintro left right here _ scope scope' moves ⟨rfl, reached⟩ link link' own
    have added : relocation.MovesScope scope scope' := by
      refine ⟨by rw [link, link']; rfl, fun parent found => ?_, own⟩
      obtain rfl := Option.some.inj (link.symm.trans found)
      exact reached
    exact ⟨moves.add added, moves.size_eq.symm, Or.inl moves.old⟩
  bind name moves := by
    rintro ⟨rfl, _⟩ bound
    exact moves.bind bound _ name

end Relocation

end Scriptlet
