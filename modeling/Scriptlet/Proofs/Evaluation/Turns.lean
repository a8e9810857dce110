import Scriptlet.Proofs.Evaluation.Throughout
import Scriptlet.Proofs.Session.Answer

/-!
The turns of a session. In each of them a source text or a program is run, or a function is called,
over the store that the turns before it left. A turn has a point from which its run starts, and it
has an outcome exactly when there is one at that point. A turn keeps every invariant that admits it.
-/

namespace Scriptlet

open Evaluation

theorem in_scope_eq_some_iff {Result : Type} {evaluation : Evaluation Result} {scope : Handle}
    {store later : Store} {result : Result} :
    evaluation.inScope scope store = some (result, later) ↔
      ∃ final, evaluation ⟨store, scope⟩ = some (result, final) ∧ final.store = later := by
  constructor
  · intro ran
    obtain ⟨⟨reached, final⟩, ranInner, same⟩ := Option.map_eq_some_iff.mp ran
    obtain ⟨rfl, rfl⟩ := Prod.mk.inj same
    exact ⟨final, ranInner, rfl⟩
  · rintro ⟨final, ran, rfl⟩
    exact Option.map_eq_some_iff.mpr ⟨_, ran, rfl⟩

inductive Turn where
  | source (text : String)
  | program (program : Program)
  | call (callee : Value) (values : List Value)

namespace Turn

/-- Where the run for a turn starts. Nothing is run for a source text with syntax errors. -/
def point? (start : Evaluator) : Turn → Option Point
  | .source text =>
      match readSource text with
      | (read, []) => some ⟨.block none read, start⟩
      | _ => none
  | .program given => some ⟨.block none given, start⟩
  | .call callee values => some ⟨.call callee values, start⟩

def run (depth : Nat) (scope : Handle) : Turn → Run (Option Value)
  | .source text => do
      let result ← interpret depth scope text
      return result.toOption.join
  | .program given => given.run depth scope
  | .call callee values => do
      let value ← (callee.call values depth).inScope scope
      return some value

/-- A source text stands for the program read from it, or for nothing if it has syntax errors. -/
theorem source_cases (text : String) :
    (∃ given, (∀ depth scope, (source text).run depth scope = (program given).run depth scope) ∧
      ∀ start, (source text).point? start = (program given).point? start) ∨
    (∀ depth scope store, (source text).run depth scope store = some (none, store)) ∧
      ∀ start, (source text).point? start = none := by
  rcases read_clean_or_broken text with ⟨given, read⟩ | broken
  · refine .inl ⟨given, fun depth scope => ?_, fun start => by simp only [point?, read]⟩
    funext store
    change (interpret depth scope text store).bind _ = _
    rw [interpret_clean read]
    change _ = given.run depth scope store
    cases given.run depth scope store <;> rfl
  · refine .inr ⟨fun depth scope store => ?_, fun start => ?_⟩
    · change (interpret depth scope text store).bind _ = _
      rw [interpret_broken broken]
      rfl
    · rw [point?]
      split
      · next read => exact absurd (congrArg Prod.snd read) broken
      · rfl

variable {depth : Nat} {scope : Handle} {store later : Store} {result : Option Value}

theorem program_run_iff {given : Program} :
    (program given).run depth scope store = some (result, later) ↔
      ∃ final, given.evaluate depth ⟨store, scope⟩ = some (result, final) ∧ final.store = later :=
  in_scope_eq_some_iff

theorem call_run_iff {callee : Value} {values : List Value} :
    (call callee values).run depth scope store = some (result, later) ↔
      ∃ value final, callee.call values depth ⟨store, scope⟩ = some (value, final) ∧
        final.store = later ∧ result = some value := by
  constructor
  · intro ran
    obtain ⟨⟨value, reached⟩, ranThere, same⟩ := Option.bind_eq_some_iff.mp ran
    obtain ⟨rfl, rfl⟩ := Prod.mk.inj (Option.some.inj same)
    obtain ⟨final, ranCall, rfl⟩ := in_scope_eq_some_iff.mp ranThere
    exact ⟨value, final, ranCall, rfl, rfl⟩
  · rintro ⟨value, final, ranCall, rfl, rfl⟩
    exact Option.bind_eq_some_iff.mpr ⟨_, in_scope_eq_some_iff.mpr ⟨final, ranCall, rfl⟩, rfl⟩

/-- With calls nested deep enough, a turn has an outcome, unless its run goes on for ever. -/
theorem runs_iff_terminates (turn : Turn) :
    (∃ depth result later, turn.run depth scope store = some (result, later)) ↔
      ∀ point ∈ turn.point? ⟨store, scope⟩, point.Terminates := by
  have program_runs (given : Program) :
      (∃ depth result later, (program given).run depth scope store = some (result, later)) ↔
        ∀ point ∈ (program given).point? ⟨store, scope⟩, point.Terminates := by
    simp only [point?, Option.mem_some_iff, forall_eq', Point.block_terminates_iff]
    constructor
    · rintro ⟨depth, result, later, ranThere⟩
      obtain ⟨final, ran, rfl⟩ := program_run_iff.mp ranThere
      obtain ⟨value, ended, _⟩ := program_ends_iff.mp ⟨depth, ran⟩
      exact ⟨value, final, ended⟩
    · rintro ⟨value, final, ended⟩
      obtain ⟨depth, ran⟩ := program_ends_iff.mpr ⟨value, ended, rfl⟩
      exact ⟨depth, _, _, program_run_iff.mpr ⟨final, ran, rfl⟩⟩
  cases turn with
  | source text =>
      rcases source_cases text with ⟨given, sameRun, samePoint⟩ | ⟨ran, nowhere⟩
      · simp only [sameRun, samePoint, program_runs]
      · simp only [nowhere, ran]
        exact ⟨fun _ point found => absurd found (Option.not_mem_none point),
          fun _ => ⟨0, none, store, rfl⟩⟩
  | program given => exact program_runs given
  | call callee values =>
      simp only [point?, Option.mem_some_iff, forall_eq', Point.call_terminates_iff, call_run_iff]
      constructor
      · rintro ⟨depth, _, _, value, final, ran, _⟩
        exact ⟨value, final, depth, ran⟩
      · rintro ⟨value, final, depth, ran⟩
        exact ⟨depth, _, _, value, final, ran, rfl, rfl⟩

end Turn

namespace Invariant

variable {invariant : Invariant} {store later : Store} {scope : Handle} {turn : Turn}

def AdmitsTurn (invariant : Invariant) (size : Nat) (scope : Handle) : Turn → Prop
  | .source _ | .program _ => invariant.writable size scope
  | .call callee values => invariant.Admits size scope (.call callee values)

theorem turn_ready {point : Point} (stores : invariant.stores store)
    (admits : invariant.AdmitsTurn store.size scope turn)
    (starts : point ∈ turn.point? ⟨store, scope⟩) : invariant.Ready point := by
  have ready (given : Program) (writable : invariant.writable store.size scope)
      (starts : point ∈ (Turn.program given).point? ⟨store, scope⟩) : invariant.Ready point := by
    obtain rfl := Option.some.inj starts
    exact ⟨stores, writable, fun _ found => nomatch found⟩
  cases turn with
  | source text =>
      rcases Turn.source_cases text with ⟨given, _, samePoint⟩ | ⟨_, nowhere⟩
      · exact ready given admits (samePoint _ ▸ starts)
      · exact absurd (nowhere _ ▸ starts) (Option.not_mem_none point)
  | program given => exact ready given admits starts
  | call callee values =>
      obtain rfl := Option.some.inj starts
      exact ⟨stores, admits⟩

theorem turn_keeps {depth : Nat} {result : Option Value} (stores : invariant.stores store)
    (admits : invariant.AdmitsTurn store.size scope turn)
    (ran : turn.run depth scope store = some (result, later)) :
    invariant.stores later ∧ store.size ≤ later.size ∧
      ∀ value ∈ result, invariant.outcomes later.size value := by
  have keeps (given : Program) (writable : invariant.writable store.size scope)
      (ran : (Turn.program given).run depth scope store = some (result, later)) :
      invariant.stores later ∧ store.size ≤ later.size ∧
        ∀ value ∈ result, invariant.outcomes later.size value := by
    obtain ⟨final, ended, rfl⟩ := Turn.program_run_iff.mp ran
    obtain ⟨kept, outcomes⟩ :=
      program_keeps stores writable ⟨depth, ended⟩
    exact ⟨kept.stores, kept.grown, outcomes⟩
  cases turn with
  | source text =>
      rcases Turn.source_cases text with ⟨given, sameRun, _⟩ | ⟨ranNothing, _⟩
      · exact keeps given admits (sameRun depth scope ▸ ran)
      · obtain ⟨rfl, rfl⟩ := Prod.mk.inj (Option.some.inj ((ranNothing _ _ _).symm.trans ran))
        exact ⟨stores, Nat.le_refl _, fun _ found => nomatch found⟩
  | program given => exact keeps given admits ran
  | call callee values =>
      obtain ⟨value, final, ranCall, rfl, rfl⟩ := Turn.call_run_iff.mp ran
      obtain ⟨kept, outcome⟩ :=
        call_keeps stores admits.1 admits.2 ⟨depth, ranCall⟩
      exact ⟨kept.stores, kept.grown, fun value found => Option.some.inj found ▸ outcome⟩

end Invariant

end Scriptlet
