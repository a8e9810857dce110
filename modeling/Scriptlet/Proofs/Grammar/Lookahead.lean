import Scriptlet.Proofs.Grammar.Judgement
import Scriptlet.Proofs.Grammar.Sequence
import Scriptlet.Proofs.Grammar.Soundness

/-!
No rule of the grammar looks behind the token that its first report is about: being steady is a
closed judgement, and lists of statements are steady as well.
-/

namespace Scriptlet.Grammar

open Rule

section Lists

variable {first : Rule Stmt} {list : Rule (List Stmt)} {go : List Token → Outcome Stmt → List Token}
  {mark otherMark : EndMark} {known ahead otherAhead : List Token} {read otherRead : Outcome Stmt}
  {more otherMore : Outcome (List Stmt)} {report : Report}

/-- The first report of a list is that of its first statement, if this made one. -/
theorem step_concerns (steady : Steady .fresh first) (sighted : Sighted .fresh list)
    (kept : ∀ statement reports stop, go ahead ⟨some statement, reports, stop⟩ = stop.tail)
    (ran : first mark ahead = some read) (ranMore : list mark (go ahead read) = some more)
    (isFirst : report ∈ (precede read more).reports.head?) : report.Concerns mark ahead := by
  obtain ⟨result, reports, stop⟩ := read
  cases reports with
  | cons earlier later => exact steady.concerns trivial ran isFirst
  | nil =>
      obtain ⟨within, reported⟩ := steady.accountable mark ahead _ ran
      cases result with
      | none => exact absurd rfl (reported rfl)
      | some statement =>
          rw [kept] at ranMore
          exact concerns_of_suffix (sighted.concerns trivial ranMore isFirst)
            ((List.tail_suffix stop).trans within)

/-- A list that goes on behind a silent first statement compares as the rest of it does. -/
theorem together_behind {statement : Stmt} {rest otherRest : List Token}
    (together : Together known mark ahead otherMark more otherMore) :
    Together known mark ahead otherMark (precede ⟨some statement, [], rest⟩ more)
      (precede ⟨some statement, [], otherRest⟩ otherMore) := by
  cases together with
  | same same otherSame alike further =>
      subst same
      subst otherSame
      exact .same rfl rfl alike further
  | fault isFirst isOther sameError => exact .fault isFirst isOther sameError
  | lost lost => exact .lost lost

theorem lost_behind (steady : Steady .fresh first) (sighted : Sighted .fresh list)
    (kept : ∀ statement reports stop, go ahead ⟨some statement, reports, stop⟩ = stop.tail)
    (ran : first mark ahead = some read) (ranMore : list mark (go ahead read) = some more)
    (lost : Lost known ahead read) : Lost known ahead (precede read more) := by
  refine lost_then lost fun silent => ?_
  obtain ⟨result, reports, stop⟩ := read
  subst silent
  cases result with
  | none => exact absurd rfl ((steady.accountable mark ahead _ ran).2 rfl)
  | some statement =>
      rw [kept] at ranMore
      have shorter := (sighted.accountable mark stop.tail more ranMore).1.length_le
      refine ⟨fun report isFirst => ?_, (List.tail_sublist more.ahead).length_le.trans shorter⟩
      exact remaining_le (sighted.concerns trivial ranMore isFirst)

theorem step_together (steady : Steady .fresh first) (sighted : Sighted .fresh list)
    (kept : ∀ start statement reports stop, go start ⟨some statement, reports, stop⟩ = stop.tail)
    (alike : Alike known mark ahead otherMark otherAhead)
    (ran : first mark ahead = some read) (ranMore : list mark (go ahead read) = some more)
    (ranOther : first otherMark otherAhead = some otherRead)
    (ranOtherMore : list otherMark (go otherAhead otherRead) = some otherMore) :
    Together known mark ahead otherMark (precede read more) (precede otherRead otherMore) := by
  cases steady.together trivial alike ran ranOther with
  | @same _ rest _ later same otherSame alikeLater further =>
      subst same
      subst otherSame
      rw [kept] at ranMore ranOtherMore
      have landed := steady.lands trivial ran
      have together := sighted.together trivial (alike_tail alikeLater landed) ranMore ranOtherMore
      refine together_behind (together_from_start ?_ together)
      have positive := List.length_pos_iff.mpr landed
      simp only [List.length_tail]
      omega
  | fault isFirst isOther sameError =>
      exact .fault (List.mem_head?_append_of_mem_head? isFirst)
        (List.mem_head?_append_of_mem_head? isOther) sameError
  | lost lost => exact .lost (lost_behind steady sighted (kept ahead) ran ranMore lost)

end Lists

/-- Where a list of statements ends or goes on depends on its first token, and so does how. -/
theorem sighted_list {list : Rule (List Stmt)} (accountable : Accountable list)
    (concerns : ∀ {mark ahead outcome report}, list mark ahead = some outcome →
      report ∈ outcome.reports.head? → Report.Concerns mark ahead report)
    (together : ∀ {known mark ahead otherMark otherAhead outcome other},
      Alike known mark ahead otherMark otherAhead →
      otherAhead.headD otherMark.token = ahead.headD mark.token →
      list mark ahead = some outcome → list otherMark otherAhead = some other →
      Together known mark ahead otherMark outcome other) : Sighted .fresh list where
  accountable := accountable
  concerns _ ran isFirst := concerns ran isFirst
  together {known _ _ ahead _ _ _} _ alike ran ranOther := by
    by_cases none : known = []
    · refine .lost (lost_of_unknown .fresh accountable
        (fun _ isFirst => concerns ran isFirst) ?_ ran)
      rw [none]
      exact Nat.le_refl _
    · exact together alike (alike_head alike none) ran ranOther

theorem block_statements_foresee {depth : Nat} (foresees : JudgedAt Steady depth) :
    Steady .fresh (blockStatements (depth + 1)) := by
  have kept (start : List Token) (statement : Stmt) (reports : List Report) (stop : List Token) :
      resumeInBlock start ⟨some statement, reports, stop⟩ = stop.tail := rfl
  refine ⟨sighted_list (rules_account (depth + 1)).blockStatements ?_ ?_, ?_⟩
  · intro mark ahead outcome report ran isFirst
    by_cases closes : (ahead.headD mark.token).kind = .rightBrace
    · rw [block_end depth closes] at ran
      cases ran
      cases isFirst
    · by_cases ended : (ahead.headD mark.token).kind = .endMark
      · rw [block_unclosed depth ended] at ran
        cases ran
        cases isFirst
        exact concerns_here rfl
      · rw [block_step depth closes ended] at ran
        obtain ⟨read, more, ranRead, ranMore, rfl⟩ := runs_of_step ran
        exact step_concerns foresees.statement foresees.blockStatements.toSighted (kept ahead)
          ranRead ranMore isFirst
  · intro known mark ahead otherMark otherAhead outcome other alike sameHead ran ranOther
    by_cases closes : (ahead.headD mark.token).kind = .rightBrace
    · rw [block_end depth closes] at ran
      rw [block_end depth (by rw [sameHead, closes])] at ranOther
      cases ran
      cases ranOther
      exact .same rfl rfl alike (Nat.le_refl _)
    · by_cases ended : (ahead.headD mark.token).kind = .endMark
      · rw [block_unclosed depth ended] at ran
        rw [block_unclosed depth (by rw [sameHead, ended])] at ranOther
        cases ran
        cases ranOther
        exact .fault rfl rfl (by rw [sameHead])
      · rw [block_step depth closes ended] at ran
        rw [block_step depth (by rwa [sameHead]) (by rwa [sameHead])] at ranOther
        obtain ⟨read, more, ranRead, ranMore, rfl⟩ := runs_of_step ran
        obtain ⟨otherRead, otherMore, ranOtherRead, ranOtherMore, rfl⟩ := runs_of_step ranOther
        exact step_together foresees.statement foresees.blockStatements.toSighted kept alike ranRead
          ranMore ranOtherRead ranOtherMore
  · intro mark ahead rest body _ reads
    obtain ⟨_, ⟨_, _, _, last, behind, _, _, rfl⟩, _⟩ := (rules_sound _).blockStatements reads
    exact List.cons_ne_nil last behind

theorem rules_foresee (depth : Nat) : JudgedAt Steady depth :=
  rules_judged steady_closed (fun _ foresees => block_statements_foresee foresees) depth

theorem program_accounts (depth : Nat) : Accountable (program depth) := by
  induction depth with
  | zero => exact accountable_too_deep
  | succ depth induction =>
      rw [program]
      refine accountable_bind accountable_current fun token => ?_
      split
      · exact accountable_pure _
      · refine accountable_bind accountable_remaining fun start =>
          accountable_bind (accountable_attempt (rules_account depth).statement) fun read => ?_
        cases read with
        | some first =>
            exact accountable_bind accountable_advance fun _ =>
              accountable_bind induction fun _ => accountable_pure _
        | none =>
            exact accountable_bind (accountable_recover start) fun _ =>
              accountable_bind accountable_advance fun _ => induction

theorem program_sighted (depth : Nat) : Sighted .fresh (program depth) := by
  have kept (start : List Token) (statement : Stmt) (reports : List Report) (stop : List Token) :
      resume start ⟨some statement, reports, stop⟩ = stop.tail := rfl
  induction depth with
  | zero => exact steady_too_deep.toSighted
  | succ depth induction =>
      have steady := (rules_foresee depth).statement
      refine sighted_list (program_accounts (depth + 1)) ?_ ?_
      · intro mark ahead outcome report ran isFirst
        by_cases ended : (ahead.headD mark.token).kind = .endMark
        · rw [program_end depth ended] at ran
          cases ran
          cases isFirst
        · rw [program_step depth ended] at ran
          obtain ⟨read, more, ranRead, ranMore, rfl⟩ := runs_of_step ran
          exact step_concerns steady induction (kept ahead) ranRead ranMore isFirst
      · intro known mark ahead otherMark otherAhead outcome other alike sameHead ran ranOther
        by_cases ended : (ahead.headD mark.token).kind = .endMark
        · rw [program_end depth ended] at ran
          rw [program_end depth (by rw [sameHead, ended])] at ranOther
          cases ran
          cases ranOther
          exact .same rfl rfl alike (Nat.le_refl _)
        · rw [program_step depth ended] at ran
          rw [program_step depth (by rwa [sameHead])] at ranOther
          obtain ⟨read, more, ranRead, ranMore, rfl⟩ := runs_of_step ran
          obtain ⟨otherRead, otherMore, ranOtherRead, ranOtherMore, rfl⟩ := runs_of_step ranOther
          exact step_together steady induction kept alike ranRead ranMore ranOtherRead ranOtherMore

end Scriptlet.Grammar
