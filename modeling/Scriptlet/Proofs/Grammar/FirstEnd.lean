import Scriptlet.Proofs.Grammar.Braces
import Scriptlet.Proofs.Grammar.Lookahead
import Scriptlet.Proofs.Grammar.Termination
import Scriptlet.Proofs.Rule.FirstEnd
import Scriptlet.Program.Equality

/-!
Reading up to the first end mark. What stands behind an end mark is not read, unless recovery from a
broken statement of the program runs onto the mark itself: going on behind the place where recovery
has stopped then means to go on behind the mark.
-/

namespace Scriptlet

open Rule

namespace Recovery

variable (mark : EndMark) (ahead behind : List Token)

theorem kind_at_beyond : kindAt (ahead ++ mark.token :: behind) = kindAt ahead := by
  cases ahead <;> rfl

theorem skip_from_beyond (open_ : Int32) : skipFrom open_ (ahead ++ mark.token :: behind) =
    ((skipFrom open_ ahead).1, (skipFrom open_ ahead).2 ++ mark.token :: behind) := by
  induction ahead generalizing open_ with
  | nil => simp [skipFrom, EndMark.token]
  | cons token rest induction =>
      rw [List.cons_append, skipFrom, skipFrom, kind_at_beyond, induction]
      split
      · rfl
      · split
        · rfl
        · split <;> rfl

theorem recovered_beyond {start stop : List Token} (within : stop <:+ start) :
    Grammar.recovered (start ++ mark.token :: behind) (stop ++ mark.token :: behind) =
      ((Grammar.recovered start stop).1,
        (Grammar.recovered start stop).2 ++ mark.token :: behind) := by
  obtain ⟨front, rfl⟩ := within
  rw [List.append_assoc, recovered_append, recovered_append, skipInto, skipInto, kind_at_beyond,
    skip_from_beyond]

end Recovery

namespace Grammar

variable {mark otherMark : EndMark} {start behind : List Token} {read otherRead : Outcome Stmt}

/-- How a list goes on behind a statement in the two runs: alike, or in the one run at the end and
in the other behind the mark. -/
inductive Resumes (go : List Token → Outcome Stmt → List Token) (mark : EndMark)
    (start behind : List Token) (read otherRead : Outcome Stmt) : Prop where
  | alike : otherRead.result = read.result →
      otherRead.reports.map Report.error = read.reports.map Report.error →
      ¬(read.result = none ∧ (recovered start read.ahead).2 = []) →
      go (start ++ mark.token :: behind) otherRead = go start read ++ mark.token :: behind →
      Resumes go mark start behind read otherRead
  | past : read.result = none → (recovered start read.ahead).2 = [] → go start read = [] →
      go (start ++ mark.token :: behind) otherRead <:+ behind →
      Resumes go mark start behind read otherRead

section Resumes

variable {go : List Token → Outcome Stmt → List Token}

theorem resumes_of_beyond
    (kept : ∀ start statement reports stop, go start ⟨some statement, reports, stop⟩ = stop.tail)
    (ends : ∀ {start reports stop}, (recovered start stop).2 = [] →
      go start ⟨none, reports, stop⟩ = [])
    (passes : ∀ {start stop} (reports otherReports), stop <:+ start →
      go (start ++ mark.token :: behind) ⟨none, otherReports, stop ++ mark.token :: behind⟩ =
        if (recovered start stop).2 = [] then behind
        else go start ⟨none, reports, stop⟩ ++ mark.token :: behind)
    (within : ∀ start read, go start read <:+ read.ahead) (isWithin : read.ahead <:+ start)
    (landed : read.result ≠ none → read.ahead ≠ []) (beyond : Beyond mark behind read otherRead) :
    Resumes go mark start behind read otherRead := by
  obtain ⟨result, reports, stop⟩ := read
  obtain ⟨otherResult, otherReports, otherStop⟩ := otherRead
  cases beyond with
  | short sameResult sameErrors sameAhead =>
      obtain rfl : otherResult = result := sameResult
      obtain rfl : otherStop = stop ++ mark.token :: behind := sameAhead
      cases otherResult with
      | some statement =>
          refine .alike rfl sameErrors nofun ?_
          rw [kept, kept, tail_beyond (landed nofun)]
      | none =>
          by_cases broken : (recovered start stop).2 = []
          · refine .past rfl broken (ends broken) ?_
            rw [passes reports otherReports isWithin, if_pos broken]
          · refine .alike rfl sameErrors (fun ended => broken ended.2) ?_
            rw [passes reports otherReports isWithin, if_neg broken]
  | past failed ended isPast =>
      cases failed
      cases ended
      exact .past rfl rfl (ends rfl) ((within _ _).trans isPast)

end Resumes

theorem resume_within (start : List Token) (read : Outcome Stmt) :
    resume start read <:+ read.ahead := by
  rw [resume]
  split
  · exact List.tail_suffix _
  · exact (List.tail_suffix _).trans (Recovery.skip_from_suffix _ _)

theorem resume_in_block_within (start : List Token) (read : Outcome Stmt) :
    resumeInBlock start read <:+ read.ahead := by
  have skipped : (recovered start read.ahead).2 <:+ read.ahead := Recovery.skip_from_suffix _ _
  rw [resumeInBlock]
  split
  · exact List.tail_suffix _
  · rw [passBrokenInBlock]
    split
    · exact skipped
    · exact (List.tail_suffix _).trans skipped

theorem statement_resumes (isWithin : read.ahead <:+ start)
    (landed : read.result ≠ none → read.ahead ≠ []) (beyond : Beyond mark behind read otherRead) :
    Resumes resume mark start behind read otherRead := by
  refine resumes_of_beyond (fun _ _ _ _ => rfl) (fun ended => ?_)
    (fun {start stop} _ _ within => ?_) resume_within isWithin landed beyond
  · simp only [resume, passBroken, ended, List.tail_nil]
  · simp only [resume, passBroken, Recovery.recovered_beyond mark behind within]
    split
    · next ended => rw [ended]; rfl
    · next more => exact tail_beyond more _

theorem statement_resumes_in_block (isWithin : read.ahead <:+ start)
    (landed : read.result ≠ none → read.ahead ≠ []) (beyond : Beyond mark behind read otherRead) :
    Resumes resumeInBlock mark start behind read otherRead := by
  -- Recovery that stops on the brace which closes the block has not come to the end.
  have closes {start stop : List Token} (closed : (recovered start stop).1 = true) :
      (recovered start stop).2 ≠ [] := by
    obtain ⟨token, rest, same, _⟩ := Recovery.skip_from_closed _ _ closed
    rw [recovered, same]
    exact List.cons_ne_nil token rest
  refine resumes_of_beyond (fun _ _ _ _ => rfl) (fun ended => ?_)
    (fun {start stop} _ _ within => ?_) resume_in_block_within isWithin landed beyond
  · simp only [resumeInBlock, passBrokenInBlock, ended, List.tail_nil, ite_self]
  · simp only [resumeInBlock, passBrokenInBlock, Recovery.recovered_beyond mark behind within]
    by_cases closed : (recovered start stop).1 = true
    · rw [if_pos closed, if_pos closed, if_neg (closes closed)]
    · rw [if_neg closed, if_neg closed]
      split
      · next ended => rw [ended]; rfl
      · next more => exact tail_beyond more _

/-- A block that comes to the end fails there. -/
theorem block_at_end {depth : Nat} {more : Outcome Block}
    (ran : blockStatements depth mark [] = some more) : more.result = none ∧ more.ahead = [] := by
  cases depth with
  | zero => cases ran
  | succ depth =>
      rw [block_unclosed depth rfl] at ran
      cases ran
      exact ⟨rfl, rfl⟩

/-- A list of statements compares as its first statement and the rest of it do. -/
theorem beyond_precede {more otherMore : Outcome (List Stmt)}
    (sameResult : otherRead.result = read.result)
    (sameErrors : otherRead.reports.map Report.error = read.reports.map Report.error)
    (beyond : Beyond mark behind more otherMore) :
    Beyond mark behind (precede read more) (precede otherRead otherMore) := by
  cases beyond with
  | short sameMore sameMoreErrors sameAhead =>
      refine .short ?_ ?_ sameAhead
      · simp only [precede, sameResult, sameMore]
      · simp only [precede, List.map_append, sameErrors, sameMoreErrors]
  | past failed ended within => exact .past (by simp only [precede, failed]; rfl) ended within

theorem statement_within {depth : Nat} (ran : statement depth mark start = some read) :
    read.ahead <:+ start := ((rules_account depth).statement mark start read ran).1

theorem statement_lands {depth : Nat} (heeds : Heeds .fresh (statement depth))
    (ran : statement depth mark start = some read) (succeeds : read.result ≠ none) :
    read.ahead ≠ [] := by
  obtain ⟨result, reports, stop⟩ := read
  cases result with
  | none => exact absurd rfl succeeds
  | some _ => exact heeds.lands trivial ran

theorem block_statements_heed {depth : Nat} (rules : JudgedAt Heeds depth) :
    Heeds .fresh (blockStatements (depth + 1)) where
  accountable := (rules_account (depth + 1)).blockStatements
  lands {mark ahead rest result reports} _ ran := by
    by_cases closes : (ahead.headD mark.token).kind = .rightBrace
    · rw [block_end depth closes] at ran
      cases ran
      rintro rfl
      cases closes
    · by_cases ended : (ahead.headD mark.token).kind = .endMark
      · rw [block_unclosed depth ended] at ran
        cases ran
      · rw [block_step depth closes ended] at ran
        obtain ⟨read, ⟨result, moreReports, stop⟩, _, ranMore, same⟩ := runs_of_step ran
        cases result with
        | none => cases same
        | some body =>
            cases same
            exact rules.blockStatements.lands trivial ranMore
  beyond {mark otherMark ahead behind outcome other} _ ran ranOther := by
    have sameHead := head_beyond mark otherMark ahead behind
    by_cases closes : (ahead.headD mark.token).kind = .rightBrace
    · rw [block_end depth closes] at ran
      rw [block_end depth (by rwa [sameHead])] at ranOther
      cases ran
      cases ranOther
      exact .short rfl rfl rfl
    · by_cases ended : (ahead.headD mark.token).kind = .endMark
      · rw [block_unclosed depth ended] at ran
        rw [block_unclosed depth (by rwa [sameHead]), sameHead] at ranOther
        cases ran
        cases ranOther
        exact .short rfl rfl rfl
      · rw [block_step depth closes ended] at ran
        rw [block_step depth (by rwa [sameHead]) (by rwa [sameHead])] at ranOther
        obtain ⟨read, more, ranRead, ranMore, rfl⟩ := runs_of_step ran
        obtain ⟨otherRead, otherMore, ranOtherRead, ranOtherMore, rfl⟩ := runs_of_step ranOther
        have beyond := rules.statement.beyond trivial ranRead ranOtherRead
        cases statement_resumes_in_block (statement_within ranRead)
            (statement_lands rules.statement ranRead) beyond with
        | alike sameResult sameErrors _ sameRest =>
            rw [sameRest] at ranOtherMore
            exact beyond_precede sameResult sameErrors
              (rules.blockStatements.beyond trivial ranMore ranOtherMore)
        | past failed _ ended within =>
            rw [ended] at ranMore
            obtain ⟨unclosed, atEnd⟩ := block_at_end ranMore
            have later := ((rules_account depth).blockStatements _ _ _ ranOtherMore).1
            exact .past (by rw [precede, unclosed]; rfl) atEnd (later.trans within)

theorem statement_heeds (depth : Nat) : Heeds .fresh (statement depth) :=
  (rules_judged heeds_closed (fun _ rules => block_statements_heed rules) depth).statement

/-- The program comes to a statement that is broken, and recovery from it runs onto the end mark. -/
inductive BreaksAtEnd (mark : EndMark) : List Token → Prop where
  | here {depth : Nat} {start : List Token} {read : Outcome Stmt} :
      (start.headD mark.token).kind ≠ .endMark → statement depth mark start = some read →
      read.result = none → (recovered start read.ahead).2 = [] → BreaksAtEnd mark start
  | later {depth : Nat} {start : List Token} {read : Outcome Stmt} :
      (start.headD mark.token).kind ≠ .endMark → statement depth mark start = some read →
      BreaksAtEnd mark (resume start read) → BreaksAtEnd mark start

/-- Whether a program breaks at the end is decided by its first statement or by the rest. -/
theorem breaks_at_end_iff {depth : Nat} (inside : (start.headD mark.token).kind ≠ .endMark)
    (ran : statement depth mark start = some read) : BreaksAtEnd mark start ↔
      (read.result = none ∧ (recovered start read.ahead).2 = []) ∨
        BreaksAtEnd mark (resume start read) := by
  have deepens (depth : Nat) := (rules_deepen depth).statement
  constructor
  · rintro (⟨_, ranHere, failed, ended⟩ | ⟨_, ranHere, later⟩)
    · cases outcome_unique deepens ranHere ran
      exact Or.inl ⟨failed, ended⟩
    · cases outcome_unique deepens ranHere ran
      exact Or.inr later
  · rintro (⟨failed, ended⟩ | later)
    · exact .here inside ran failed ended
    · exact .later inside ran later

/-- A program is read in the same way up to the mark, or is broken there and read on. -/
theorem program_beyond (depth : Nat) {ahead : List Token} {outcome other : Outcome Program}
    (ran : program depth mark ahead = some outcome)
    (ranOther : program depth otherMark (ahead ++ mark.token :: behind) = some other) :
    (¬BreaksAtEnd mark ahead ∧ other.result = outcome.result ∧
        other.reports.map Report.error = outcome.reports.map Report.error ∧
        other.ahead = outcome.ahead ++ mark.token :: behind) ∨
      BreaksAtEnd mark ahead ∧ other.ahead <:+ behind := by
  have sameHead := head_beyond mark otherMark
  induction depth generalizing ahead outcome other with
  | zero => cases ran
  | succ depth induction =>
      by_cases ended : (ahead.headD mark.token).kind = .endMark
      · rw [program_end depth ended] at ran
        rw [program_end depth (by rwa [sameHead])] at ranOther
        cases ran
        cases ranOther
        refine Or.inl ⟨?_, rfl, rfl, rfl⟩
        rintro (⟨inside, _⟩ | ⟨inside, _⟩) <;> exact inside ended
      · rw [program_step depth ended] at ran
        rw [program_step depth (by rwa [sameHead])] at ranOther
        obtain ⟨read, more, ranRead, ranMore, rfl⟩ := runs_of_step ran
        obtain ⟨otherRead, otherMore, ranOtherRead, ranOtherMore, rfl⟩ := runs_of_step ranOther
        rw [breaks_at_end_iff ended ranRead]
        have heeds := statement_heeds depth
        cases statement_resumes (statement_within ranRead) (statement_lands heeds ranRead)
            (heeds.beyond trivial ranRead ranOtherRead) with
        | alike sameResult sameErrors notHere sameRest =>
            rw [sameRest] at ranOtherMore
            rcases induction ranMore ranOtherMore with
              ⟨notLater, sameMore, sameMoreErrors, sameAhead⟩ | ⟨later, within⟩
            · refine Or.inl ⟨not_or.mpr ⟨notHere, notLater⟩, ?_, ?_, sameAhead⟩
              · simp only [precede, sameResult, sameMore]
              · simp only [precede, List.map_append, sameErrors, sameMoreErrors]
            · exact Or.inr ⟨Or.inr later, within⟩
        | past failed broken _ within =>
            have later := (program_accounts depth _ _ _ ranOtherMore).1
            exact Or.inr ⟨Or.inl ⟨failed, broken⟩, later.trans within⟩

/-- Tokens without an end mark among them are read to their end. -/
theorem program_reads_all {depth : Nat} {ahead : List Token} {outcome : Outcome Program}
    (inside : ∀ token ∈ ahead, token.kind ≠ .endMark)
    (ran : program depth mark ahead = some outcome) : outcome.ahead = [] := by
  have ended := program_stops_at_end depth ran
  have within := (program_accounts depth mark ahead outcome ran).1
  cases stop : outcome.ahead with
  | nil => rfl
  | cons token rest =>
      rw [stop] at ended within
      exact absurd ended (inside token (within.subset List.mem_cons_self))

end Grammar

open Grammar

def passedCount (tokens : List Token) : Nat :=
  (Reader.ofTokens tokens).ahead.length - (Reader.ofTokens tokens).program.2.ahead.length

theorem passed_count_of_outcome {tokens : List Token} {depth : Nat} {outcome : Outcome Program}
    (ran : program depth (Reader.ofTokens tokens).endMark (Reader.ofTokens tokens).ahead =
      some outcome) :
    passedCount tokens = (Reader.ofTokens tokens).ahead.length - outcome.ahead.length := by
  simp only [passedCount, Reader.program, Reader.apply, program_at_call_depth ran]

theorem of_tokens_around (front : List Token) (eof next : Token) (behind : List Token) :
    ∃ rest, (Reader.ofTokens (front ++ eof :: next :: behind)).ahead = front ++ eof :: rest := by
  refine ⟨(Reader.ofTokens (next :: behind)).ahead, ?_⟩
  rw [Reader.of_tokens_append front (List.cons_ne_nil eof _),
    ← List.singleton_append, Reader.of_tokens_append [eof] (List.cons_ne_nil next behind)]
  rfl

theorem programs_answer (mark otherMark : EndMark) (ahead other : List Token) :
    ∃ depth outcome otherOutcome, program depth mark ahead = some outcome ∧
      program depth otherMark other = some otherOutcome := by
  obtain ⟨outcome, ran⟩ := program_answers _ mark ahead (Nat.le_refl _)
  obtain ⟨otherOutcome, ranOther⟩ := program_answers _ otherMark other (Nat.le_refl _)
  exact ⟨_, outcome, otherOutcome, program_extends (Nat.le_max_left _ _) _ _ _ ran,
    program_extends (Nat.le_max_right _ _) _ _ _ ranOther⟩

section Whole

variable {front : List Token} (inside : ∀ token ∈ front, token.kind ≠ .endMark) {eof : Token}
  (isEnd : eof.kind = .endMark)

include inside isEnd

theorem all_passed : passedCount (front ++ [eof]) = front.length := by
  have reader := Reader.of_tokens_ended front eof isEnd
  obtain ⟨outcome, ran⟩ := program_answers _ ⟨eof.slice, eof.span⟩ front (Nat.le_refl _)
  rw [passed_count_of_outcome (by rw [reader]; exact ran), reader, program_reads_all inside ran]
  rfl

omit isEnd in
/-- Tokens without an end mark are read as with the mark that is put behind them. -/
theorem of_tokens_unended : Reader.ofTokens (front ++ [(Reader.ofTokens front).endMark.token]) =
    Reader.ofTokens front := by
  rw [Reader.of_tokens_ended _ _ rfl]
  simp only [EndMark.token, Reader.ofTokens]
  cases found : front.getLast? with
  | none => rw [List.getLast?_eq_none_iff.mp found]
  | some last => simp only [if_neg (inside last (List.mem_of_getLast? found))]

/-- Reading tokens with an end mark among them compares with reading them up to that mark. -/
theorem read_beyond (behind : List Token) :
    (¬BreaksAtEnd ⟨eof.slice, eof.span⟩ front ∧
        (readTokens (front ++ eof :: behind)).1 = (readTokens (front ++ [eof])).1 ∧
        (readTokens (front ++ eof :: behind)).2.map Report.error =
          (readTokens (front ++ [eof])).2.map Report.error ∧
        passedCount (front ++ eof :: behind) = front.length) ∨
      BreaksAtEnd ⟨eof.slice, eof.span⟩ front ∧
        (behind ≠ [] → front.length < passedCount (front ++ eof :: behind)) := by
  cases behind with
  | nil =>
      by_cases breaks : BreaksAtEnd ⟨eof.slice, eof.span⟩ front
      · exact Or.inr ⟨breaks, fun more => absurd rfl more⟩
      · exact Or.inl ⟨breaks, rfl, rfl, all_passed inside isEnd⟩
  | cons next behind =>
      have reader := Reader.of_tokens_ended front eof isEnd
      obtain ⟨rest, ahead⟩ := of_tokens_around front eof next behind
      have isMark : eof = (⟨eof.slice, eof.span⟩ : EndMark).token := by
        rw [EndMark.token, ← isEnd]
      obtain ⟨depth, outcome, other, ran, ranOther⟩ := programs_answer ⟨eof.slice, eof.span⟩
        (Reader.ofTokens (front ++ eof :: next :: behind)).endMark front (front ++ eof :: rest)
      rw [@Reader.read_tokens_of_outcome (front ++ [eof]) depth outcome (by rw [reader]; exact ran),
        @Reader.read_tokens_of_outcome (front ++ eof :: next :: behind) depth other
          (by rw [ahead]; exact ranOther),
        @passed_count_of_outcome (front ++ eof :: next :: behind) depth other
          (by rw [ahead]; exact ranOther), ahead]
      have compared := ranOther
      rw [isMark] at compared
      rcases program_beyond depth ran compared with
        ⟨notBroken, sameResult, sameErrors, sameAhead⟩ | ⟨broken, within⟩
      · refine Or.inl ⟨notBroken, by rw [sameResult], sameErrors, ?_⟩
        rw [sameAhead, program_reads_all inside ran]
        simp
      · refine Or.inr ⟨broken, fun _ => ?_⟩
        have bounded := within.length_le
        simp only [List.length_append, List.length_cons]
        omega

/-- Where recovery does not run onto the first end mark, all that is read is what stands before the
mark, and reading stops at it. Where recovery does, and tokens follow the mark, the mark is passed.
A list without an end mark is read up to the one that is put behind it. -/
theorem read_up_to_first_end (behind other : List Token) :
    (¬BreaksAtEnd ⟨eof.slice, eof.span⟩ front →
      (readTokens (front ++ eof :: behind)).1 = (readTokens (front ++ eof :: other)).1 ∧
      (readTokens (front ++ eof :: behind)).2.map Report.error =
        (readTokens (front ++ eof :: other)).2.map Report.error ∧
      passedCount (front ++ eof :: behind) = front.length) ∧
    (BreaksAtEnd ⟨eof.slice, eof.span⟩ front → behind ≠ [] →
      front.length < passedCount (front ++ eof :: behind)) ∧
    readTokens front = readTokens (front ++ [(Reader.ofTokens front).endMark.token]) ∧
    passedCount front = front.length := by
  refine ⟨?_, ?_, ?_⟩
  · intro whole
    rcases read_beyond inside isEnd behind with ⟨_, program, errors, passed⟩ | ⟨broken, _⟩
    · rcases read_beyond inside isEnd other with ⟨_, same, sameErrors, _⟩ | ⟨broken, _⟩
      · exact ⟨program.trans same.symm, errors.trans sameErrors.symm, passed⟩
      · exact absurd broken whole
    · exact absurd broken whole
  · intro broken
    rcases read_beyond inside isEnd behind with ⟨whole, _⟩ | ⟨_, passed⟩
    · exact absurd broken whole
    · exact passed
  · have unended := of_tokens_unended inside
    constructor
    · simp only [readTokens, unended]
    · rw [← all_passed inside (show (Reader.ofTokens front).endMark.token.kind = .endMark from rfl)]
      simp only [passedCount, unended]

end Whole

/-- Nothing behind a name and an end mark is read, whatever it is. -/
theorem name_is_read_alone :
    let name : Token := ⟨.identifier, "x", ⟨0, 1⟩⟩
    let eof : Token := ⟨.endMark, "", ⟨1, 1⟩⟩
    (∀ token ∈ [name], token.kind ≠ .endMark) ∧ eof.kind = .endMark ∧
      ¬BreaksAtEnd ⟨eof.slice, eof.span⟩ [name] ∧ ∀ behind,
        (readTokens ([name] ++ eof :: behind)).1 = [.expr (.name "x")] ∧
          passedCount ([name] ++ eof :: behind) = 1 := by
  intro name eof
  have inside : ∀ token ∈ [name], token.kind ≠ .endMark := by decide
  have ran : statement 3 ⟨eof.slice, eof.span⟩ [name] =
      some ⟨some (.expr (.name "x")), [], [name]⟩ := rfl
  have whole : ¬BreaksAtEnd ⟨eof.slice, eof.span⟩ [name] := by
    rw [breaks_at_end_iff (by decide) ran]
    rintro (⟨failed, _⟩ | ⟨inside, _⟩ | ⟨inside, _⟩)
    · cases failed
    · exact inside rfl
    · exact inside rfl
  refine ⟨inside, rfl, whole, fun behind => ?_⟩
  obtain ⟨program, _, passed⟩ := (read_up_to_first_end inside rfl behind []).1 whole
  have read : (readTokens ([name] ++ [eof])).1 = [.expr (.name "x")] := by decide +kernel
  exact ⟨program.trans read, passed⟩

/-- An operand is missing at the end mark, and the name behind the mark is read as a program. -/
theorem end_is_passed_for_missing_operand :
    (readTokens [⟨.minus, "-", ⟨0, 1⟩⟩, ⟨.endMark, "", ⟨1, 1⟩⟩]).1 = [] ∧
      (readTokens [⟨.minus, "-", ⟨0, 1⟩⟩, ⟨.endMark, "", ⟨1, 1⟩⟩,
        ⟨.identifier, "x", ⟨1, 2⟩⟩]).1 = [.expr (.name "x")] ∧
      1 < passedCount [⟨.minus, "-", ⟨0, 1⟩⟩, ⟨.endMark, "", ⟨1, 1⟩⟩,
        ⟨.identifier, "x", ⟨1, 2⟩⟩] := by
  decide +kernel

end Scriptlet
