import Scriptlet.Proofs.Grammar.Progress
import Scriptlet.Reader

/-!
Lists of statements are read one statement at a time. Each step reads a statement, keeps it unless
it failed, and goes on behind it or where recovery from it stopped. The steps of a program and of a
block differ only in where they end and in what a closing brace does to recovery.
-/

namespace Scriptlet.Grammar

open Rule

/-- Where recovery stops after a statement that began at `start` and failed at `ahead`, and whether
this is on the brace that closes the block around the statement. -/
def recovered (start ahead : List Token) : Bool × List Token :=
  Recovery.skipFrom (Recovery.countAll (Recovery.upTo start ahead)) ahead

def passBroken (start ahead : List Token) : List Token := (recovered start ahead).2.tail

def passBrokenInBlock (start ahead : List Token) : List Token :=
  if (recovered start ahead).1 then (recovered start ahead).2 else (recovered start ahead).2.tail

/-- Where a program goes on after a statement that began at `start`. -/
def resume (start : List Token) (read : Outcome Stmt) : List Token :=
  match read.result with
  | some _ => read.ahead.tail
  | none => passBroken start read.ahead

def resumeInBlock (start : List Token) (read : Outcome Stmt) : List Token :=
  match read.result with
  | some _ => read.ahead.tail
  | none => passBrokenInBlock start read.ahead

def precede (read : Outcome Stmt) (more : Outcome (List Stmt)) : Outcome (List Stmt) :=
  ⟨more.result.map (read.result.toList ++ ·), read.reports ++ more.reports, more.ahead⟩

variable {mark : EndMark} {ahead : List Token}

/-- A run of a list is a run of its first statement and one of the rest. -/
theorem runs_of_step {first : Option (Outcome Stmt)} {outcome : Outcome (List Stmt)}
    {rest : Outcome Stmt → Option (Outcome (List Stmt))}
    (ran : (first.bind fun read => (rest read).map (precede read)) = some outcome) :
    ∃ read more, first = some read ∧ rest read = some more ∧ outcome = precede read more := by
  obtain ⟨read, ranRead, ran⟩ := Option.bind_eq_some_iff.mp ran
  obtain ⟨more, ranMore, rfl⟩ := Option.map_eq_some_iff.mp ran
  exact ⟨read, more, ranRead, ranMore, rfl⟩

theorem recovered_suffix (start ahead : List Token) : (recovered start ahead).2 <:+ ahead :=
  Recovery.skip_from_suffix _ ahead

theorem recovered_on_brace {start : List Token} (closed : (recovered start ahead).1 = true) :
    ((recovered start ahead).2.headD mark.token).kind = .rightBrace := by
  obtain ⟨brace, behind, stopped, isBrace⟩ := Recovery.skip_from_closed _ _ closed
  rw [recovered, stopped]
  exact isBrace

theorem run_recover_bind {Next : Type} (start : List Token) (next : Bool → Rule Next)
    (mark : EndMark) (ahead : List Token) :
    (recover start >>= next) mark ahead =
      next (recovered start ahead).1 mark (recovered start ahead).2 := by
  rw [bind_eq_and_then, and_then_result (recover start) next mark ahead _ [] _ rfl]
  simp [recovered]

theorem program_step (depth : Nat) (inside : (ahead.headD mark.token).kind ≠ .endMark) :
    program (depth + 1) mark ahead = (statement depth mark ahead).bind fun read =>
      (program depth mark (resume ahead read)).map (precede read) := by
  rw [program, run_current_bind, if_neg inside, run_remaining_bind, run_attempt_bind]
  congr 1
  funext read
  obtain ⟨result, reports, stop⟩ := read
  cases result with
  | some first =>
      simp only [run_advance_bind, run_then_pure, Option.map_map, resume]
      rfl
  | none =>
      simp only [run_recover_bind, run_advance_bind, resume, passBroken]
      congr 1
      funext more
      simp [precede]

theorem program_end (depth : Nat) (ended : (ahead.headD mark.token).kind = .endMark) :
    program (depth + 1) mark ahead = some ⟨some [], [], ahead⟩ := by
  rw [program, run_current_bind, if_pos ended]
  rfl

theorem block_step (depth : Nat) (open_ : (ahead.headD mark.token).kind ≠ .rightBrace)
    (inside : (ahead.headD mark.token).kind ≠ .endMark) :
    blockStatements (depth + 1) mark ahead = (statement depth mark ahead).bind fun read =>
      (blockStatements depth mark (resumeInBlock ahead read)).map (precede read) := by
  rw [blockStatements, run_current_bind, if_neg open_, if_neg inside, run_remaining_bind,
    run_attempt_bind]
  congr 1
  funext read
  obtain ⟨result, reports, stop⟩ := read
  cases result with
  | some first =>
      simp only [run_advance_bind, run_then_pure, Option.map_map, resumeInBlock]
      rfl
  | none =>
      have kept : (fun more : Outcome (List Stmt) =>
          (⟨more.result, reports ++ more.reports, more.ahead⟩ : Outcome (List Stmt))) =
          precede ⟨none, reports, stop⟩ := by
        funext more
        simp [precede]
      by_cases closed : (recovered ahead stop).1 = true
      · simp only [run_recover_bind, resumeInBlock, passBrokenInBlock, if_pos closed, kept]
      · simp only [run_recover_bind, resumeInBlock, passBrokenInBlock, if_neg closed,
          run_advance_bind, kept]

theorem block_end (depth : Nat) (closes : (ahead.headD mark.token).kind = .rightBrace) :
    blockStatements (depth + 1) mark ahead = some ⟨some [], [], ahead⟩ := by
  rw [blockStatements, run_current_bind, if_pos closes]
  rfl

theorem block_unclosed (depth : Nat) (ended : (ahead.headD mark.token).kind = .endMark) :
    blockStatements (depth + 1) mark ahead =
      failHere (.unexpected .rightBrace (ahead.headD mark.token)) mark ahead := by
  have open_ : (ahead.headD mark.token).kind ≠ .rightBrace := by
    rw [ended]
    decide
  rw [blockStatements, run_current_bind, if_neg open_, if_pos ended]

end Scriptlet.Grammar
