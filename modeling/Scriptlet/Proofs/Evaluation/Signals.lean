import Scriptlet.Proofs.Evaluation.Turns
import Scriptlet.Proofs.Evaluation.Throughout
import Scriptlet.Proofs.Store.Bindings

/-!
Where signals can be. A signal ends whatever waits for it before it could be bound, handed to a
call or wrapped once more; so none is ever bound in a scope or given for a parameter, a returned
value is wrapped only once, and calls and programs take the wrapping off.
-/

namespace Scriptlet

open Evaluation

def Store.SignalFree (store : Store) : Prop :=
  ∀ handle scope, store.scope? handle = some scope →
    ∀ name value, scope.own name = some value → value.isSignal = false

/-- The value is not a returned value that wraps a signal. -/
def Value.WrappedOnce (value : Value) : Prop :=
  ∀ inner, value = .returned inner → inner.isSignal = false

namespace Value

variable {value : Value}

theorem wrapped_once_of_plain (plain : value.isSignal = false) : value.WrappedOnce := by
  rintro inner rfl
  cases plain

theorem wrapped_once_of_error (message : String) : (error message).WrappedOnce := by
  intro inner same
  cases same

theorem not_returned_of_plain (plain : value.isSignal = false) : value.type ≠ .returned := by
  cases value with
  | returned => cases plain
  | _ => exact fun same => nomatch same

theorem wrapped_once_of_not_returned (other : value.type ≠ .returned) : value.WrappedOnce := by
  rintro inner rfl
  exact absurd rfl other

theorem WrappedOnce.unwrap (once : value.WrappedOnce) : value.unwrap.type ≠ .returned := by
  cases value with
  | returned inner => exact not_returned_of_plain (once inner rfl)
  | _ => exact fun same => nomatch same

end Value

namespace Store.SignalFree

variable {store : Store}

theorem empty : Store.empty.SignalFree := HoldsOnly.empty _

theorem add (free : store.SignalFree) {scope : Scope}
    (plain : ∀ name value, scope.own name = some value → value.isSignal = false) :
    (store.add scope).2.SignalFree := HoldsOnly.add free plain

theorem bind (free : store.SignalFree) (scope : Handle) (name : String) {value : Value}
    (plain : value.isSignal = false) : (store.bind scope name value).SignalFree :=
  HoldsOnly.bind free scope name plain

theorem lookup (free : store.SignalFree) {handle : Handle} {name : String} {value : Value}
    (found : store.lookup handle name = some value) : value.isSignal = false :=
  HoldsOnly.lookup free found

end Store.SignalFree

def Invariant.signalFree : Invariant where
  stores := Store.SignalFree
  readable _ _ := True
  writable _ _ := True
  values _ value := value.isSignal = false
  outcomes _ value := value.WrappedOnce
  readable_later _ := id
  writable_later _ := id
  values_later _ := id
  outcomes_later _ := id
  readable_of_writable := id
  outcome_of_value := Value.wrapped_once_of_plain
  value_of_outcome unsignalled _ := unsignalled
  int _ _ := rfl
  bool _ _ := rfl
  null _ := rfl
  fault _ fault := Value.wrapped_once_of_error fault.message
  function _ _ _ := rfl
  home _ := trivial
  returned plain := fun _ same => Value.returned.inj same ▸ plain
  unwrap once := Value.wrapped_once_of_not_returned once.unwrap
  lookup free _ found := Value.wrapped_once_of_plain (free.lookup found)
  add free _ _ plain := ⟨free.add plain, trivial⟩
  bind name free _ plain := free.bind _ name plain

/-- What holds at a point where no signal has leaked. -/
structure Orderly (point : Point) : Prop where
  /-- No scope binds a signal. This includes the scope in which the parameters of a function have
  just been bound. -/
  before : point.start.store.SignalFree
  arguments : ∀ callee values, point.task = .call callee values →
    ∀ value ∈ values, value.isSignal = false
  after : ∀ results final, point.Ends results final → final.store.SignalFree
  wrapped : ∀ results final, point.Ends results final → ∀ value ∈ results, value.WrappedOnce
  called : ∀ callee values results final, point.task = .call callee values →
    point.Ends results final → ∀ value ∈ results, value.type ≠ .returned

section Runs

variable {start final : Evaluator}

theorem call_never_returned {callee value : Value} {values : List Value}
    (free : start.store.SignalFree) (plain : ∀ value ∈ values, value.isSignal = false)
    (ended : Ends (callee.call values) start value final) :
    final.store.SignalFree ∧ value.type ≠ .returned := by
  obtain ⟨kept, _⟩ := Invariant.signalFree.call_keeps free (fun _ _ _ _ => trivial) plain ended
  refine ⟨kept.stores, ?_⟩
  -- The invariant says of a call's value only that it is wrapped once at most. That the wrapping
  -- has come off shows in what the body of the function yields.
  cases callee with
  | function parameters body home =>
      obtain ⟨result, inner, endedBody, rfl, _⟩ := function_call_ends_iff.mp ended
      have ready : Invariant.signalFree.Ready
          ⟨.call (.function parameters body home) values, start⟩ :=
        ⟨free, fun _ _ _ _ => trivial, plain⟩
      obtain ⟨stores, writable, lasts⟩ := Invariant.begun_ready ready .body
      obtain ⟨_, once⟩ := Invariant.block_keeps stores writable lasts endedBody
      cases result with
      | none => exact Value.not_returned_of_plain rfl
      | some result => exact (once result rfl).unwrap
  | _ =>
      obtain ⟨rfl, _⟩ := (other_call_ends_iff (by intro same; cases same)).mp ended
      intro same
      cases same

theorem program_never_returned {program : Program} {result : Option Value}
    (free : start.store.SignalFree) (ended : Ends program.evaluate start result final) :
    final.store.SignalFree ∧ ∀ value ∈ result, value.type ≠ .returned := by
  obtain ⟨yielded, endedBlock, rfl⟩ := program_ends_iff.mp ended
  obtain ⟨kept, once⟩ := Invariant.signalFree.block_keeps free trivial
    (fun value found => absurd found (Option.not_mem_none value)) endedBlock
  refine ⟨kept.stores, fun value found => ?_⟩
  obtain ⟨inner, foundInner, rfl⟩ := Option.map_eq_some_iff.mp found
  exact (once inner foundInner).unwrap

theorem ready_orderly {point : Point} (ready : Invariant.signalFree.Ready point) :
    Orderly point where
  before := ready.stores
  arguments := by
    obtain ⟨task, start⟩ := point
    rintro callee values rfl
    exact ready.admits.2
  after _ _ ended := (Invariant.point_keeps ready ended).1.stores
  wrapped _ _ ended := (Invariant.point_keeps ready ended).2
  called := by
    obtain ⟨task, start⟩ := point
    rintro callee values results final rfl ended
    obtain ⟨value, endedCall, rfl⟩ := Point.call_ends_iff.mp ended
    exact List.forall_mem_singleton.mpr
      (call_never_returned ready.stores ready.admits.2 endedCall).2

end Runs

def Turn.Plain : Turn → Prop
  | .source _ | .program _ => True
  | .call _ values => ∀ value ∈ values, value.isSignal = false

/-- The stores that turns lead to, one after another. -/
inductive History (first : Store) : Store → Prop where
  | start : History first first
  | next {store later : Store} {turn : Turn} {depth : Nat} {scope : Handle}
      {result : Option Value} (history : History first store) (plain : turn.Plain)
      (ran : turn.run depth scope store = some (result, later)) : History first later

section Turns

variable {store later : Store} {scope : Handle} {depth : Nat} {result : Option Value}

theorem program_run_orderly {given : Program} (free : store.SignalFree)
    (ranThere : (Turn.program given).run depth scope store = some (result, later)) :
    later.SignalFree ∧ ∀ value ∈ result, value.type ≠ .returned := by
  obtain ⟨final, ran, rfl⟩ := Turn.program_run_iff.mp ranThere
  exact program_never_returned free ⟨depth, ran⟩

theorem turn_orderly {turn : Turn} (free : store.SignalFree) (plain : turn.Plain)
    (ran : turn.run depth scope store = some (result, later)) :
    later.SignalFree ∧ ∀ value ∈ result, value.type ≠ .returned := by
  cases turn with
  | source text =>
      rcases Turn.source_cases text with ⟨given, sameRun, _⟩ | ⟨ranNothing, _⟩
      · exact program_run_orderly free (sameRun depth scope ▸ ran)
      · obtain ⟨rfl, rfl⟩ := Prod.mk.inj (Option.some.inj ((ranNothing _ _ _).symm.trans ran))
        exact ⟨free, fun _ found => nomatch found⟩
  | program given => exact program_run_orderly free ran
  | call callee values =>
      obtain ⟨value, final, ranCall, rfl, rfl⟩ := Turn.call_run_iff.mp ran
      obtain ⟨freeLater, other⟩ := call_never_returned free plain ⟨depth, ranCall⟩
      exact ⟨freeLater, fun value found => Option.some.inj found ▸ other⟩

theorem turn_ready {turn : Turn} {point : Point} (free : store.SignalFree)
    (plain : turn.Plain) (starts : point ∈ turn.point? ⟨store, scope⟩) :
    Invariant.signalFree.Ready point := by
  refine Invariant.turn_ready free ?_ starts
  cases turn with
  | source | program => trivial
  | call callee values => exact ⟨fun _ _ _ _ => trivial, plain⟩

theorem history_signal_free {first : Store} (free : first.SignalFree)
    (history : History first store) : store.SignalFree := by
  induction history with
  | start => exact free
  | next _ plain ran induction => exact (turn_orderly induction plain ran).1

end Turns

/-- From a store that binds no signal, turns that hand over none never make one leak. Whatever the
turns before, and whether or not the next one has an outcome: no scope binds a signal and no call is
given one at any point of its run, what ends there leaves it so, returned values are wrapped once
only, and neither a call nor the turn as a whole has a returned value as its value. -/
theorem signals_never_leak {first store : Store} (free : first.SignalFree)
    (history : History first store) (turn : Turn) (plain : turn.Plain) (scope : Handle) :
    (∀ point ∈ turn.point? ⟨store, scope⟩, ∀ reached, Visits point reached →
      Orderly reached) ∧
    ∀ depth result later, turn.run depth scope store = some (result, later) →
      later.SignalFree ∧ ∀ value ∈ result, value.type ≠ .returned := by
  have freeNow := history_signal_free free history
  refine ⟨fun point starts reached visits => ?_, fun depth result later =>
    turn_orderly freeNow plain⟩
  exact ready_orderly (Invariant.visited_ready (turn_ready freeNow plain starts) visits)

def returningProgram : Program :=
  [.bind "f" (.function ["x"] [.expr (.ifThen (.bool true) [.return (.name "x")]), .expr (.int 1)])]

/-- With `f` called for an operand of a return statement, the value is the sum itself. -/
theorem returned_sum_is_unwrapped :
    let adding : Turn := .source "return f(2) + 3;"
    ∃ store later, History Store.empty.addRoot.2 store ∧
      adding.run 1 0 store = some (some (.int 5), later) ∧ later.SignalFree ∧
      ∀ point ∈ adding.point? ⟨store, 0⟩, ∀ reached, Visits point reached → Orderly reached := by
  intro adding
  have ran : ((Turn.program returningProgram).run 0 0 Store.empty.addRoot.2 >>=
      fun (_, store) => adding.run 1 0 store).map Prod.fst = some (some (.int 5)) := by
    decide +kernel
  obtain ⟨⟨value, later⟩, ran, rfl⟩ := Option.map_eq_some_iff.mp ran
  obtain ⟨⟨result, store⟩, ranFirst, ranSecond⟩ := Option.bind_eq_some_iff.mp ran
  have free : Store.empty.addRoot.2.SignalFree := Store.SignalFree.empty.add fun _ _ bound =>
    nomatch bound
  have plain : (Turn.program returningProgram).Plain := trivial
  have history : History Store.empty.addRoot.2 store := .next .start plain ranFirst
  obtain ⟨orderly, outcome⟩ := signals_never_leak free history adding trivial 0
  exact ⟨store, later, history, ranSecond, (outcome 1 _ later ranSecond).1, orderly⟩

end Scriptlet
