import Scriptlet.Proofs.Evaluation.Invariant

/-!
What evaluation leaves alone. An expression and a call change no scope that is there when they
start; all that they bind, they bind in scopes that they add. Statements bind in the scope they
stand in, and only the names that they bind directly.
-/

namespace Scriptlet

open Evaluation

namespace Store

/-- The later store has all scopes of the earlier one as they were. -/
structure Preserves (later earlier : Store) : Prop where
  grown : earlier.size ≤ later.size
  same : ∀ handle < earlier.size, later.scope? handle = earlier.scope? handle

namespace Preserves

variable {store earlier later : Store}

theorem refl (store : Store) : store.Preserves store := ⟨Nat.le_refl _, fun _ _ => rfl⟩

theorem add (preserves : store.Preserves earlier) (scope : Scope) :
    (store.add scope).2.Preserves earlier where
  grown := by
    rw [size_add]
    exact Nat.le_succ_of_le preserves.grown
  same handle older := by
    rw [scope_add_older store scope handle (Nat.lt_of_lt_of_le older preserves.grown),
      preserves.same handle older]

theorem bind (preserves : store.Preserves earlier) {scope : Handle} (newer : earlier.size ≤ scope)
    (name : String) (value : Value) : (store.bind scope name value).Preserves earlier where
  grown := by
    rw [size_bind]
    exact preserves.grown
  same handle older := by
    have distinct : scope ≠ handle := fun same => Nat.not_lt.mpr newer (same ▸ older)
    rw [scope_bind_other store scope handle name value distinct, preserves.same handle older]

end Preserves

/-- Of the scopes of the earlier store, the later one may have changed one, and there only what
these names are bound to. -/
structure BindsOnly (later earlier : Store) (changed : Handle) (names : List String) : Prop where
  grown : earlier.size ≤ later.size
  others : ∀ handle < earlier.size, handle ≠ changed →
    later.scope? handle = earlier.scope? handle
  changed : ∀ scope, earlier.scope? changed = some scope →
    ∃ scope', later.scope? changed = some scope' ∧ scope'.parent = scope.parent ∧
      ∀ name ∉ names, scope'.own name = scope.own name

namespace BindsOnly

variable {earlier middle later : Store} {scope : Handle} {names more : List String}

theorem of_preserves (preserves : later.Preserves earlier) (scope : Handle) (names : List String) :
    later.BindsOnly earlier scope names where
  grown := preserves.grown
  others handle older _ := preserves.same handle older
  changed found present :=
    ⟨found, (preserves.same scope (older_of_scope present)).trans present, rfl, fun _ _ => rfl⟩

theorem trans (first : middle.BindsOnly earlier scope names)
    (second : later.BindsOnly middle scope more) :
    later.BindsOnly earlier scope (names ++ more) where
  grown := Nat.le_trans first.grown second.grown
  others handle older distinct :=
    (second.others handle (Nat.lt_of_lt_of_le older first.grown) distinct).trans
      (first.others handle older distinct)
  changed found present := by
    obtain ⟨found', exists', sameParent, sameOwn⟩ := first.changed found present
    obtain ⟨found'', exists'', sameParent', sameOwn'⟩ := second.changed found' exists'
    refine ⟨found'', exists'', sameParent'.trans sameParent, fun name unbound => ?_⟩
    rw [List.mem_append, not_or] at unbound
    exact (sameOwn' name unbound.2).trans (sameOwn name unbound.1)

theorem bind (store : Store) (scope : Handle) (name : String) (value : Value) :
    (store.bind scope name value).BindsOnly store scope [name] where
  grown := (store.size_bind scope name value).symm ▸ Nat.le_refl _
  others handle _ distinct := store.scope_bind_other scope handle name value distinct.symm
  changed found present := by
    refine ⟨found.bind name value, by rw [store.scope_bind, present]; rfl, rfl, ?_⟩
    intro wanted unbound
    rw [Scope.own_bind, if_neg (fun same => unbound (List.mem_singleton.mpr same))]

end BindsOnly

end Store

def Invariant.frame (earlier : Store) : Invariant where
  stores store := store.Preserves earlier
  readable _ _ := True
  writable _ scope := earlier.size ≤ scope
  values _ _ := True
  outcomes _ _ := True
  readable_later _ := id
  writable_later _ := id
  values_later _ := id
  outcomes_later _ := id
  readable_of_writable _ := trivial
  outcome_of_value := id
  value_of_outcome _ := id
  int _ _ := trivial
  bool _ _ := trivial
  null _ := trivial
  fault _ _ := trivial
  function _ _ := id
  home := id
  returned := id
  unwrap := id
  lookup _ _ _ := trivial
  add preserves _ _ _ := ⟨preserves.add _, preserves.grown⟩
  bind name preserves newer _ := preserves.bind newer name _

namespace Evaluation

variable {start final : Evaluator}

theorem expression_preserves_store {expr : Expr} {value : Value}
    (ended : Ends expr.evaluate start value final) :
    final.current = start.current ∧ final.store.Preserves start.store := by
  obtain ⟨kept, _⟩ := (Invariant.frame start.store).expression_keeps (.refl _) trivial ended
  exact ⟨kept.current, kept.stores⟩

theorem call_preserves_store {callee value : Value} {values : List Value}
    (ended : Ends (callee.call values) start value final) :
    final.current = start.current ∧ final.store.Preserves start.store := by
  obtain ⟨kept, _⟩ := (Invariant.frame start.store).call_keeps (.refl _)
    (fun _ _ _ _ => trivial) (fun _ _ => trivial) ended
  exact ⟨kept.current, kept.stores⟩

end Evaluation

/-- The names that a statement binds itself, outside the blocks in it. -/
def Stmt.boundNames : Stmt → List String
  | .bind name _ => [name]
  | .return _ | .expr _ => []

def Block.boundNames (block : Block) : List String := block.flatMap Stmt.boundNames

namespace Evaluation

variable {start final : Evaluator} {result : Option Value}

theorem statement_binds_only {stmt : Stmt} (ended : Ends stmt.evaluate start result final) :
    final.current = start.current ∧
      final.store.BindsOnly start.store start.current stmt.boundNames := by
  cases stmt with
  | bind name expr =>
      obtain ⟨value, middle, ended, rest⟩ := bind_ends_iff.mp ended
      obtain ⟨same, preserves⟩ := expression_preserves_store ended
      split at rest
      · obtain ⟨_, rfl⟩ := rest
        exact ⟨same, .of_preserves preserves _ _⟩
      · obtain ⟨_, rfl⟩ := rest
        rw [← same]
        exact ⟨rfl, (Store.BindsOnly.of_preserves preserves _ []).trans (.bind _ _ _ _)⟩
  | «return» expr =>
      obtain ⟨value, ended, _⟩ := return_ends_iff.mp ended
      obtain ⟨same, preserves⟩ := expression_preserves_store ended
      exact ⟨same, .of_preserves preserves _ _⟩
  | expr expr =>
      obtain ⟨value, ended, _⟩ := expr_ends_iff.mp ended
      obtain ⟨same, preserves⟩ := expression_preserves_store ended
      exact ⟨same, .of_preserves preserves _ _⟩

theorem block_binds_only {last : Option Value} {block : Block}
    (ended : Ends (Block.evaluateAfter last block) start result final) :
    final.current = start.current ∧
      final.store.BindsOnly start.store start.current block.boundNames := by
  induction block generalizing start last with
  | nil =>
      obtain ⟨_, rfl⟩ := empty_block_ends_iff.mp ended
      exact ⟨rfl, .of_preserves (.refl _) _ _⟩
  | cons first rest induction =>
      obtain ⟨value, middle, endedFirst, endedRest⟩ := block_ends_iff.mp ended
      obtain ⟨same, bindsFirst⟩ := statement_binds_only endedFirst
      have endedRest : final.current = middle.current ∧
          final.store.BindsOnly middle.store middle.current (Block.boundNames rest) := by
        split at endedRest
        · obtain ⟨_, rfl⟩ := endedRest
          exact ⟨rfl, .of_preserves (.refl _) _ _⟩
        · exact induction endedRest
      obtain ⟨same', bindsRest⟩ := endedRest
      -- The statement has come back to the scope it started in, so the rest binds there too.
      rw [same] at bindsRest
      exact ⟨same'.trans same, bindsFirst.trans bindsRest⟩

end Evaluation

/-- Whatever an expression or a call comes to, the evaluator is back where it was and all scopes
are as they were, with others added. Statements of a block or of a program may change the scope
they stand in, and in it only what the names are bound to that they bind themselves. -/
theorem evaluation_leaves_scopes :
    (∀ (expr : Expr) (start final : Evaluator) (value : Value),
      Ends expr.evaluate start value final →
        final.current = start.current ∧ final.store.Preserves start.store) ∧
    (∀ (callee : Value) (values : List Value) (start final : Evaluator) (value : Value),
      Ends (callee.call values) start value final →
        final.current = start.current ∧ final.store.Preserves start.store) ∧
    ∀ (block : Block) (start final : Evaluator) (result : Option Value),
      Ends block.evaluate start result final ∨ Ends (Program.evaluate block) start result final →
        final.current = start.current ∧
          final.store.BindsOnly start.store start.current block.boundNames := by
  refine ⟨fun _ _ _ _ => expression_preserves_store, fun _ _ _ _ _ => call_preserves_store, ?_⟩
  rintro block start final result (ended | ended)
  · exact block_binds_only ended
  · obtain ⟨value, ended, _⟩ := program_ends_iff.mp ended
    exact block_binds_only ended

def returningScope : Store :=
  let body : Block := [.bind "x" (.name "y"), .expr (.ifThen (.bool true) [.return (.name "x")])]
  let (scope, store) := Store.empty.addRoot
  (store.bind scope "x" (.int 1)).bind scope "f" (.function ["y"] body scope)

/-- Calling the function leaves the caller's own binding of the name alone, and a program that
binds the value binds nothing else. -/
theorem returning_call_leaves_scope :
    ∃ final later,
      Ends (Expr.call (.name "f") [.int 2]).evaluate ⟨returningScope, 0⟩ (.int 2) final ∧
      (final.current = 0 ∧ final.store.Preserves returningScope) ∧
      Ends (Program.evaluate [.bind "z" (.call (.name "f") [.int 2])]) ⟨returningScope, 0⟩ none
        later ∧
      later.current = 0 ∧ later.store.BindsOnly returningScope 0 ["z"] := by
  have called : ((Expr.call (.name "f") [.int 2]).evaluate 1 ⟨returningScope, 0⟩).map Prod.fst =
      some (.int 2) := by
    decide +kernel
  have bound : (Program.evaluate [.bind "z" (.call (.name "f") [.int 2])] 1
      ⟨returningScope, 0⟩).map Prod.fst = some none := by
    decide +kernel
  obtain ⟨final, ended⟩ := ends_of_run called
  obtain ⟨later, endedProgram⟩ := ends_of_run bound
  obtain ⟨expressions, _, programs⟩ := evaluation_leaves_scopes
  exact ⟨final, later, ended, expressions _ _ _ _ ended, endedProgram,
    programs _ _ _ _ (.inr endedProgram)⟩

end Scriptlet
