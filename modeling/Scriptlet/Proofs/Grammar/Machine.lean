import Mathlib.Logic.Relation
import Scriptlet.Proofs.Grammar.Script
import Scriptlet.Proofs.Grammar.Sequence

/-!
Reading in single steps. A moment of reading is the script that is being carried out, the calls that
wait for it, the tokens ahead and the reports made so far; a step carries out one action, or skips
one token in recovery. Whatever outcome a rule has, the steps of its script come to that outcome.
-/

namespace Scriptlet.Grammar

open Rule

/-- What waits for the result of a call, up to the call that was made first. -/
inductive Pending (first : Call) : Call → Type where
  | finish : Pending first first
  | call {caller callee : Call} (next : callee.Result → Script caller.Result)
      (rest : Pending first caller) : Pending first callee
  | attempt {caller : Call} (next : Option Stmt → Script caller.Result)
      (rest : Pending first caller) : Pending first .statement

/-- What is being done: a script is carried out, tokens are skipped with so many braces counted, or
a call comes back with its result. -/
inductive Control (first : Call) where
  | run {call : Call} (script : Script call.Result) (pending : Pending first call)
  | skipping {call : Call} (open_ : Int32) (next : Bool → Script call.Result)
      (pending : Pending first call)
  | back {call : Call} (result : Option call.Result) (pending : Pending first call)

structure Moment (first : Call) where
  control : Control first
  ahead : List Token
  reports : List Report

namespace Moment

variable {first : Call}

def step (mark : EndMark) (moment : Moment first) : Option (Moment first) :=
  match moment with
  | ⟨.run script pending, ahead, reports⟩ =>
      match script with
      | .done result => some ⟨.back (some result) pending, ahead, reports⟩
      | .failHere error =>
          some ⟨.back none pending, ahead, reports ++ [⟨error, ahead.length⟩]⟩
      | .failNext error =>
          some ⟨.back none pending, ahead, reports ++ [⟨error, ahead.tail.length⟩]⟩
      | .current next => some ⟨.run (next (ahead.headD mark.token)) pending, ahead, reports⟩
      | .peek next => some ⟨.run (next (ahead.tail.headD mark.token)) pending, ahead, reports⟩
      | .advance next => some ⟨.run next pending, ahead.tail, reports⟩
      | .remaining next => some ⟨.run (next ahead) pending, ahead, reports⟩
      | .recover start next =>
          let open_ := Recovery.countAll (Recovery.upTo start ahead)
          some ⟨.skipping open_ next pending, ahead, reports⟩
      | .call callee next => some ⟨.run callee.script (.call next pending), ahead, reports⟩
      | .attempt next => some ⟨.run Call.statement.script (.attempt next pending), ahead, reports⟩
  | ⟨.skipping open_ next pending, ahead, reports⟩ =>
      match ahead with
      | [] => some ⟨.run (next false) pending, [], reports⟩
      | token :: rest =>
          if token.kind = .rightBrace ∧ open_ < 0 then
            some ⟨.run (next true) pending, token :: rest, reports⟩
          else if token.kind = .endMark then
            some ⟨.run (next false) pending, token :: rest, reports⟩
          else if open_ ≤ 0 ∧ (token.kind = .semicolon ∨
              Recovery.kindAt rest = .rightBrace ∨ Recovery.kindAt rest = .endMark) then
            some ⟨.run (next false) pending, token :: rest, reports⟩
          else
            some ⟨.skipping (Recovery.count open_ (Recovery.kindAt rest)) next pending, rest,
              reports⟩
  | ⟨.back result pending, ahead, reports⟩ =>
      match pending, result with
      | .finish, _ => none
      | .call next rest, some result => some ⟨.run (next result) rest, ahead, reports⟩
      | .call _ rest, none => some ⟨.back none rest, ahead, reports⟩
      | .attempt next rest, result => some ⟨.run (next result) rest, ahead, reports⟩

def Reaches (mark : EndMark) : Moment first → Moment first → Prop :=
  Relation.ReflTransGen fun moment later => moment.step mark = some later

def steps (mark : EndMark) : (count : Nat) → Moment first → Option (Moment first)
  | 0, moment => some moment
  | count + 1, moment => (moment.step mark).bind (steps mark count)

section Reaches

variable {mark : EndMark} {call : Call} {pending : Pending first call} {ahead : List Token}
  {reports : List Report}

theorem reaches_step {moment later last : Moment first} (stepped : moment.step mark = some later)
    (reaches : Reaches mark later last) : Reaches mark moment last := .head stepped reaches

theorem reaches_of_steps {count : Nat} {moment later : Moment first}
    (stepped : moment.steps mark count = some later) : Reaches mark moment later := by
  induction count generalizing moment with
  | zero =>
      obtain rfl := Option.some.inj stepped
      exact .refl
  | succ count induction =>
      obtain ⟨next, first, rest⟩ := Option.bind_eq_some_iff.mp stepped
      exact reaches_step first (induction rest)

theorem skipping_reaches (open_ : Int32) (next : Bool → Script call.Result) :
    Reaches mark ⟨.skipping open_ next pending, ahead, reports⟩
      ⟨.run (next (Recovery.skipFrom open_ ahead).1) pending, (Recovery.skipFrom open_ ahead).2,
        reports⟩ := by
  induction ahead generalizing open_ with
  | nil => exact .single rfl
  | cons token rest induction =>
      rw [Recovery.skipFrom]
      by_cases closes : token.kind = .rightBrace ∧ open_ < 0
      · rw [if_pos closes]
        exact .single (by rw [step, if_pos closes])
      · rw [if_neg closes]
        by_cases ended : token.kind = .endMark
        · rw [if_pos ended]
          exact .single (by rw [step, if_neg closes, if_pos ended])
        · rw [if_neg ended]
          split
          · next boundary =>
              exact .single (by rw [step, if_neg closes, if_neg ended, if_pos boundary])
          · next inside =>
              refine reaches_step ?_ (induction _)
              rw [step, if_neg closes, if_neg ended, if_neg inside]

/-- The steps of a script come to the outcome that it has, if calls come to theirs. -/
theorem reaches_of_run {depth : Nat}
    (calls : ∀ (callee : Call) ahead outcome, callee.rule depth mark ahead = some outcome →
      ∀ (pending : Pending first callee) reports,
        Reaches mark ⟨.run callee.script pending, ahead, reports⟩
          ⟨.back outcome.result pending, outcome.ahead, reports ++ outcome.reports⟩)
    {script : Script call.Result} {outcome : Outcome call.Result}
    (ran : script.run (fun callee => callee.rule depth) mark ahead = some outcome) :
    Reaches mark ⟨.run script pending, ahead, reports⟩
      ⟨.back outcome.result pending, outcome.ahead, reports ++ outcome.reports⟩ := by
  induction script generalizing ahead reports outcome with
  | done result =>
      cases ran
      exact .single (by rw [step, List.append_nil])
  | failHere error | failNext error =>
      cases ran
      exact .single rfl
  | current next induction =>
      rw [Script.run, run_current_bind] at ran
      exact reaches_step rfl (induction _ ran)
  | peek next induction =>
      rw [Script.run, run_peek_bind] at ran
      exact reaches_step rfl (induction _ ran)
  | advance next induction =>
      rw [Script.run, run_advance_bind] at ran
      exact reaches_step rfl (induction ran)
  | remaining next induction =>
      rw [Script.run, run_remaining_bind] at ran
      exact reaches_step rfl (induction _ ran)
  | recover start next induction =>
      rw [Script.run, run_recover_bind] at ran
      exact reaches_step rfl ((skipping_reaches _ next).trans (induction _ ran))
  | call callee next induction =>
      refine reaches_step rfl ?_
      rcases run_bind_cases ran with ⟨made, stop, failed, rfl⟩ |
        ⟨result, made, middle, final, ranCallee, ranNext, rfl⟩
      · exact (calls callee ahead _ failed _ _).tail rfl
      · refine (calls callee ahead _ ranCallee _ _).trans (reaches_step rfl ?_)
        rw [← List.append_assoc]
        exact induction _ ranNext
  | attempt next induction =>
      rw [Script.run, run_attempt_bind] at ran
      obtain ⟨read, ranRead, ran⟩ := Option.bind_eq_some_iff.mp ran
      obtain ⟨final, ranNext, rfl⟩ := Option.map_eq_some_iff.mp ran
      refine reaches_step rfl ((calls .statement ahead _ ranRead _ _).trans (reaches_step rfl ?_))
      rw [← List.append_assoc]
      exact induction _ ranNext

/-- The steps of a rule's script come to the outcome that the rule has at any depth. -/
theorem reaches_outcome {depth : Nat} {outcome : Outcome call.Result}
    (ran : call.rule depth mark ahead = some outcome) :
    Reaches mark ⟨.run call.script pending, ahead, reports⟩
      ⟨.back outcome.result pending, outcome.ahead, reports ++ outcome.reports⟩ := by
  induction depth generalizing call ahead reports with
  | zero => cases call <;> cases ran
  | succ depth induction =>
      rw [← script_runs] at ran
      exact reaches_of_run (fun _ _ _ ranCallee _ _ => induction ranCallee) ran

end Reaches

end Moment

end Scriptlet.Grammar
