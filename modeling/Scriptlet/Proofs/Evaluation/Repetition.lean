import Scriptlet.Proofs.Evaluation.Linked
import Mathlib.Data.Set.Function
import Mathlib.Order.Interval.Set.Basic

/-!
Evaluating an expression again. An expression only adds scopes to a store, so what another
expression comes to is the same before and after it, up to the handles of the scopes that the two
evaluations add. Nothing that a value shows depends on those handles.
-/

namespace Scriptlet

open Evaluation

/-- Values that show themselves alike. -/
structure Value.LooksLike (left right : Value) : Prop where
  type : left.type = right.type
  text : left.render = right.render
  truth : left.truthy = right.truthy
  message : ∀ message, left = .error message ↔ right = .error message

/-- From a store one evaluation came to a value and a final store, and from a later store another
one did. The renaming takes the scopes that the one added to those that the other added, and turns
its value and all its scopes into those of the other. -/
structure Renames (move : Handle → Handle) (store : Store) (value : Value) (final : Store)
    (later : Store) (value' : Value) (final' : Store) : Prop where
  older : ∀ handle < store.size, move handle = handle
  added : Set.BijOn move (Set.Ico store.size final.size) (Set.Ico later.size final'.size)
  value : value' = value.rename move
  scopes : ∀ handle < final.size,
    final'.scope? (move handle) = (final.scope? handle).map (Scope.rename move)

/-- The two evaluations came to the same, up to the handles of the scopes that they added. -/
structure SameUpToAdded (store : Store) (value : Value) (final : Store)
    (later : Store) (value' : Value) (final' : Store) : Prop where
  renamed : ∃ move, Renames move store value final later value' final'
  looks : value.LooksLike value'

theorem Value.looks_like_rename (move : Handle → Handle) (value : Value) :
    value.LooksLike (value.rename move) where
  type := (value.type_rename move).symm
  text := (value.render_rename move).symm
  truth := (value.truthy_rename move).symm
  message _ := rename_eq_error_iff.symm

section Behind

variable {store later : Store}

theorem Relocation.behind_added {final final' : Store} (grown : store.size ≤ later.size)
    (size : final'.size = final.size + (later.size - store.size)) :
    Set.BijOn (behind store later).move (Set.Ico store.size final.size)
      (Set.Ico later.size final'.size) := by
  refine ⟨fun handle added => ?_, (behind store later).move_injective.injOn, fun handle added => ?_⟩
  · rw [Set.mem_Ico] at added ⊢
    rw [move_newer _ added.1]
    change later.size ≤ handle + (later.size - store.size) ∧
      handle + (later.size - store.size) < final'.size
    omega
  · rw [Set.mem_Ico] at added
    have newer : store.size ≤ handle - (later.size - store.size) := by omega
    refine ⟨handle - (later.size - store.size), Set.mem_Ico.mpr ⟨newer, by omega⟩, ?_⟩
    rw [move_newer _ newer]
    change handle - (later.size - store.size) + (later.size - store.size) = handle
    omega

theorem Relocation.behind_renames {value value' : Value} {final final' : Store}
    (grown : store.size ≤ later.size)
    (values : (behind store later).MovesValue value value')
    (stores : (behind store later).MovesStore final final') :
    SameUpToAdded store value final later value' final' where
  renamed := ⟨(behind store later).move, fun _ older => move_older _ older,
    behind_added grown stores.size, values.same,
    fun handle _ => stores.scope_eq (behind_reaches handle)⟩
  looks := values.same ▸ value.looks_like_rename _

variable {scope : Handle}

theorem agrees_behind (present : scope < store.size) (expr : Expr) (depth : Nat) :
    (Relocation.behind store later).pairing.Agree (Relocation.behind store later).pairing.outcomes
      store.size scope scope (expr.evaluate depth) (expr.evaluate depth) := by
  have here : (Relocation.behind store later).pairing.readable store.size scope scope :=
    ⟨(Relocation.move_older _ present).symm, Relocation.behind_reaches scope⟩
  exact Pairing.expression_agrees (Pairing.call_within_agrees depth) _ here expr fun _ _ => trivial

variable (linked : store.Linked) (present : scope < store.size) (preserved : later.Preserves store)

include linked present preserved

theorem terminates_behind_iff (expr : Expr) :
    Terminates expr.evaluate ⟨store, scope⟩ ↔ Terminates expr.evaluate ⟨later, scope⟩ :=
  Pairing.terminates_iff (agrees_behind present expr) (linked.moves preserved)

theorem same_behind {expr : Expr} {value value' : Value} {final final' : Evaluator}
    (ended : Ends expr.evaluate ⟨store, scope⟩ value final)
    (ended' : Ends expr.evaluate ⟨later, scope⟩ value' final') :
    SameUpToAdded store value final.store later value' final'.store := by
  have met := Pairing.ends_meet (agrees_behind present expr)
    (linked.moves preserved) (expression_deepens expr) ended ended'
  exact Relocation.behind_renames preserved.grown met.results met.stores

end Behind

/-- Once an expression has been evaluated, evaluating another one in the same scope ends if and
only if it would have ended before, and then it comes to the same, up to the handles of added
scopes; so it does not matter either in which order the two are evaluated. The two expressions may
be one. -/
theorem expressions_are_repeatable (store : Store) (scope : Handle) (linked : store.Linked)
    (present : scope < store.size) (first second : Expr) (value : Value) (between : Evaluator)
    (ended : Ends first.evaluate ⟨store, scope⟩ value between) :
    (Terminates second.evaluate ⟨store, scope⟩ ↔ Terminates second.evaluate between) ∧
    (∀ before beforeFinal after afterFinal,
      Ends second.evaluate ⟨store, scope⟩ before beforeFinal →
      Ends second.evaluate between after afterFinal →
      SameUpToAdded store before beforeFinal.store between.store after afterFinal.store) ∧
    ∀ before beforeFinal, Ends second.evaluate ⟨store, scope⟩ before beforeFinal →
      ∃ value' final', Ends first.evaluate beforeFinal value' final' ∧
        SameUpToAdded store value between.store beforeFinal.store value' final'.store := by
  obtain ⟨middle, current⟩ := between
  obtain ⟨rfl, preserved⟩ := expression_preserves_store ended
  refine ⟨terminates_behind_iff linked present preserved second,
    fun _ _ _ _ endedBefore endedAfter =>
      same_behind linked present preserved endedBefore endedAfter, ?_⟩
  -- For the other order the same is said of the first expression, evaluated behind the second.
  rintro before ⟨middle', current⟩ endedBefore
  obtain ⟨rfl, preserved'⟩ := expression_preserves_store endedBefore
  obtain ⟨value', final', ended'⟩ :=
    (terminates_behind_iff linked present preserved' first).mp ⟨value, _, ended⟩
  exact ⟨value', final', ended', same_behind linked present preserved' ended ended'⟩

def makingScope : Store :=
  let (scope, store) := Store.empty.addRoot
  store.bind scope "make" (.function ["x"] [.expr (.function [] [.expr (.name "x")])] scope)

theorem making_scope_linked : makingScope.Linked :=
  Store.Linked.empty.add_root.bind _ _ fun _ found => Option.some.inj found ▸ by decide

/-- Two functions made one after the other live in scopes of their own, and the second is made the
same way before and after the first. -/
theorem made_function_is_repeatable :
    ∃ between before after,
      Ends (Expr.call (.name "make") [.int 1]).evaluate ⟨makingScope, 0⟩
        (.function [] [.expr (.name "x")] 1) between ∧
      Ends (Expr.call (.name "make") [.int 2]).evaluate ⟨makingScope, 0⟩
        (.function [] [.expr (.name "x")] 1) before ∧
      Ends (Expr.call (.name "make") [.int 2]).evaluate between
        (.function [] [.expr (.name "x")] 2) after ∧
      SameUpToAdded makingScope (.function [] [.expr (.name "x")] 1) before.store
        between.store (.function [] [.expr (.name "x")] 2) after.store := by
  let made (literal : Int64) := (Expr.call (.name "make") [.int literal]).evaluate
  have first : (made 1 1 ⟨makingScope, 0⟩).map Prod.fst =
      some (.function [] [.expr (.name "x")] 1) := by
    decide +kernel
  have alone : (made 2 1 ⟨makingScope, 0⟩).map Prod.fst =
      some (.function [] [.expr (.name "x")] 1) := by
    decide +kernel
  have second : ((made 1 1 ⟨makingScope, 0⟩).bind fun reached => made 2 1 reached.2).map Prod.fst =
      some (.function [] [.expr (.name "x")] 2) := by
    decide +kernel
  obtain ⟨before, endedAlone⟩ := ends_of_run alone
  obtain ⟨⟨_, between⟩, ranFirst, rfl⟩ := Option.map_eq_some_iff.mp first
  rw [ranFirst, Option.bind_some] at second
  obtain ⟨after, endedSecond⟩ := ends_of_run second
  have repeatable := expressions_are_repeatable makingScope 0 making_scope_linked (by decide)
    _ (.call (.name "make") [.int 2]) _ between ⟨1, ranFirst⟩
  exact ⟨between, before, after, ⟨1, ranFirst⟩, endedAlone, endedSecond,
    repeatable.2.1 _ _ _ _ endedAlone endedSecond⟩

end Scriptlet
