import Scriptlet.Grammar

/-!
Judgements about single runs of rules, each closed under the ways in which rules are put together.
A rule may run deeper than another, may be answerable for where it stops and why it fails, may
answer at all, and may read tokens without a report.
-/

namespace Scriptlet.Rule

variable {Result Next : Type}

section Runs

variable (mark : EndMark) (ahead : List Token)

theorem run_current_bind (next : Token → Rule Next) :
    (current >>= next) mark ahead = next (ahead.headD mark.token) mark ahead := by
  rw [bind_eq_and_then, and_then_result current next mark ahead ahead [] _ rfl]
  simp

theorem run_peek_bind (next : Token → Rule Next) :
    (peek >>= next) mark ahead = next (ahead.tail.headD mark.token) mark ahead := by
  rw [bind_eq_and_then, and_then_result peek next mark ahead ahead [] _ rfl]
  simp

theorem run_advance_bind (next : Unit → Rule Next) :
    (advance >>= next) mark ahead = next () mark ahead.tail := by
  rw [bind_eq_and_then, and_then_result advance next mark ahead ahead.tail [] _ rfl]
  simp

theorem run_remaining_bind (next : List Token → Rule Next) :
    (remaining >>= next) mark ahead = next ahead mark ahead := by
  rw [bind_eq_and_then, and_then_result remaining next mark ahead ahead [] _ rfl]
  simp

theorem run_expect (kind : TokenKind) :
    expect kind mark ahead =
      if (ahead.tail.headD mark.token).kind = kind then some ⟨some (), [], ahead.tail⟩
      else failNext (.unexpected kind (ahead.tail.headD mark.token)) mark ahead := by
  rw [expect, run_peek_bind]
  split <;> rfl

theorem run_skip (kind : TokenKind) :
    skip kind mark ahead =
      if (ahead.tail.headD mark.token).kind = kind then some ⟨some (), [], ahead.tail⟩
      else some ⟨some (), [], ahead⟩ := by
  rw [skip, run_peek_bind]
  split <;> rfl

theorem run_skip_bind (kind : TokenKind) (next : Unit → Rule Next) :
    (skip kind >>= next) mark ahead = next () mark
      (if (ahead.tail.headD mark.token).kind = kind then ahead.tail else ahead) := by
  have ran : skip kind mark ahead = some ⟨some (), [],
      if (ahead.tail.headD mark.token).kind = kind then ahead.tail else ahead⟩ := by
    rw [run_skip]
    split <;> rfl
  rw [bind_eq_and_then, and_then_result _ _ _ _ _ _ _ ran]
  simp

theorem run_attempt_bind (rule : Rule Result) (next : Option Result → Rule Next) :
    (attempt rule >>= next) mark ahead = (rule mark ahead).bind fun first =>
      (next first.result mark first.ahead).map fun second =>
        ⟨second.result, first.reports ++ second.reports, second.ahead⟩ := by
  rw [bind_eq_and_then, andThen, attempt]
  cases rule mark ahead <;> rfl

/-- A run of two rules is a failing run of the first, or a run of the first and then the second. -/
theorem run_then_pure (rule : Rule Result) (make : Result → Next) :
    (rule >>= fun result => pure (make result)) mark ahead =
      (rule mark ahead).map fun last => ⟨last.result.map make, last.reports, last.ahead⟩ := by
  rw [bind_eq_and_then, andThen]
  cases rule mark ahead with
  | none => rfl
  | some last =>
      obtain ⟨result, reports, stop⟩ := last
      cases result <;> simp [pure, succeed]

theorem run_bind_cases {rule : Rule Result} {next : Result → Rule Next} {mark : EndMark}
    {ahead : List Token} {outcome : Outcome Next}
    (ran : (rule >>= next) mark ahead = some outcome) :
    (∃ reports rest, rule mark ahead = some ⟨none, reports, rest⟩ ∧
        outcome = ⟨none, reports, rest⟩) ∨
      ∃ result reports middle second, rule mark ahead = some ⟨some result, reports, middle⟩ ∧
        next result mark middle = some second ∧
        outcome = ⟨second.result, reports ++ second.reports, second.ahead⟩ := by
  rw [bind_eq_and_then] at ran
  cases start : rule mark ahead with
  | none => simp [andThen, start] at ran
  | some first =>
      obtain ⟨result, reports, middle⟩ := first
      cases result with
      | none =>
          rw [and_then_failed _ _ _ _ _ _ start] at ran
          exact Or.inl ⟨reports, middle, rfl, (Option.some.inj ran).symm⟩
      | some result =>
          rw [and_then_result _ _ _ _ _ _ _ start] at ran
          obtain ⟨second, ranSecond, same⟩ := Option.map_eq_some_iff.mp ran
          exact Or.inr ⟨result, reports, middle, second, rfl, ranSecond, same.symm⟩

/-- What follows a rule depends on nothing but the outcome of the rule. -/
theorem run_then_congr {rule other : Rule Result} {mark : EndMark} {ahead otherAhead : List Token}
    (same : rule mark ahead = other mark otherAhead) (next : Result → Rule Next) :
    (rule >>= next) mark ahead = (other >>= next) mark otherAhead := by
  rw [bind_eq_and_then, bind_eq_and_then, andThen, andThen, same]

theorem pure_then (result : Result) (next : Result → Rule Next) :
    pure result >>= next = next result := by
  funext mark ahead
  rw [bind_eq_and_then, and_then_result _ _ _ _ _ _ _ rfl]
  simp

theorem then_pure (rule : Rule Result) : (rule >>= fun result => pure result) = rule := by
  funext mark ahead
  rw [run_then_pure]
  cases rule mark ahead with
  | none => rfl
  | some outcome => simp

theorem then_assoc {Last : Type} (rule : Rule Result) (next : Result → Rule Next)
    (last : Next → Rule Last) :
    rule >>= next >>= last = rule >>= fun result => next result >>= last := by
  funext mark ahead
  simp only [bind_eq_and_then, andThen]
  cases rule mark ahead with
  | none => rfl
  | some first =>
      obtain ⟨result, reports, middle⟩ := first
      cases result with
      | none => rfl
      | some result =>
          simp only [Option.bind_some]
          cases next result mark middle with
          | none => rfl
          | some second =>
              obtain ⟨result, later, stop⟩ := second
              cases result <;> simp [List.append_assoc, Function.comp_def]

end Runs

def Extends (shallow deep : Rule Result) : Prop :=
  ∀ mark ahead outcome, shallow mark ahead = some outcome → deep mark ahead = some outcome

section Extends

variable {shallow deep : Rule Result}

theorem extends_refl (rule : Rule Result) : Extends rule rule := fun _ _ _ ran => ran

theorem too_deep_extends (deep : Rule Result) : Extends tooDeep deep := by
  intro _ _ _ ran
  cases ran

theorem bind_extends {shallowNext deepNext : Result → Rule Next} (first : Extends shallow deep)
    (second : ∀ result, Extends (shallowNext result) (deepNext result)) :
    Extends (shallow >>= shallowNext) (deep >>= deepNext) := by
  intro mark ahead outcome ran
  rcases run_bind_cases ran with ⟨reports, rest, failed, rfl⟩ |
    ⟨result, reports, middle, final, ranFirst, ranFinal, rfl⟩
  · exact and_then_failed _ _ _ _ _ _ (first mark ahead _ failed)
  · rw [bind_eq_and_then, and_then_result _ _ _ _ _ _ _ (first mark ahead _ ranFirst),
      second result mark middle final ranFinal]
    rfl

theorem attempt_extends (inner : Extends shallow deep) :
    Extends (attempt shallow) (attempt deep) := by
  intro mark ahead outcome ran
  obtain ⟨final, ranFinal, same⟩ := Option.map_eq_some_iff.mp ran
  rw [attempt, inner mark ahead final ranFinal, Option.map_some, same]

/-- A rule that keeps its outcome from each depth to the next keeps it at every greater depth. -/
theorem extends_deeper {rule : Nat → Rule Result}
    (deepens : ∀ depth, Extends (rule depth) (rule (depth + 1))) {shallow deep : Nat}
    (deeper : shallow ≤ deep) : Extends (rule shallow) (rule deep) := by
  induction deeper with
  | refl => exact extends_refl _
  | step _ induction =>
      exact fun mark ahead outcome ran =>
        deepens _ mark ahead outcome (induction mark ahead outcome ran)

/-- Such a rule has one outcome, whatever the depth. -/
theorem outcome_unique {rule : Nat → Rule Result}
    (deepens : ∀ depth, Extends (rule depth) (rule (depth + 1))) {depth other : Nat}
    {mark : EndMark} {ahead : List Token} {outcome otherOutcome : Outcome Result}
    (ran : rule depth mark ahead = some outcome)
    (ranOther : rule other mark ahead = some otherOutcome) : outcome = otherOutcome := by
  have deepest := extends_deeper deepens (Nat.le_max_left depth other) mark ahead outcome ran
  have same := extends_deeper deepens (Nat.le_max_right depth other) mark ahead _ ranOther
  rw [deepest] at same
  exact Option.some.inj same

end Extends

/-- Every run stops at a token that was ahead, and a failing run has made a report. -/
def Accountable (rule : Rule Result) : Prop :=
  ∀ mark ahead outcome, rule mark ahead = some outcome →
    outcome.ahead <:+ ahead ∧ (outcome.result = none → outcome.reports ≠ [])

section Accountable

theorem accountable_too_deep : Accountable (tooDeep : Rule Result) := by
  intro _ _ _ ran
  cases ran

/-- A rule that only looks at what is ahead. -/
theorem accountable_look {rule : Rule Result}
    (look : ∀ mark ahead, ∃ result, rule mark ahead = some ⟨some result, [], ahead⟩) :
    Accountable rule := by
  intro mark ahead outcome ran
  obtain ⟨result, looked⟩ := look mark ahead
  rw [looked] at ran
  cases ran
  exact ⟨List.suffix_refl ahead, nofun⟩

theorem accountable_pure (result : Result) : Accountable (pure result : Rule Result) :=
  accountable_look fun _ _ => ⟨result, rfl⟩

theorem accountable_current : Accountable current := accountable_look fun _ _ => ⟨_, rfl⟩

theorem accountable_peek : Accountable peek := accountable_look fun _ _ => ⟨_, rfl⟩

theorem accountable_remaining : Accountable remaining := accountable_look fun _ _ => ⟨_, rfl⟩

theorem accountable_fail_here (error : SyntaxError) :
    Accountable (failHere error : Rule Result) := by
  intro mark ahead outcome ran
  cases ran
  exact ⟨List.suffix_refl ahead, nofun⟩

theorem accountable_fail_next (error : SyntaxError) :
    Accountable (failNext error : Rule Result) := by
  intro mark ahead outcome ran
  cases ran
  exact ⟨List.suffix_refl ahead, nofun⟩

theorem accountable_advance : Accountable advance := by
  intro mark ahead outcome ran
  cases ran
  exact ⟨List.tail_suffix ahead, nofun⟩

theorem accountable_bind {rule : Rule Result} {next : Result → Rule Next}
    (first : Accountable rule) (second : ∀ result, Accountable (next result)) :
    Accountable (rule >>= next) := by
  intro mark ahead outcome ran
  rcases run_bind_cases ran with ⟨reports, rest, failed, rfl⟩ |
    ⟨result, reports, middle, final, ranFirst, ranFinal, rfl⟩
  · obtain ⟨within, reported⟩ := first mark ahead _ failed
    exact ⟨within, fun _ => reported rfl⟩
  · obtain ⟨within, reported⟩ := second result mark middle final ranFinal
    refine ⟨within.trans (first mark ahead _ ranFirst).1, fun fails => ?_⟩
    exact List.append_ne_nil_of_right_ne_nil _ (reported fails)

theorem accountable_attempt {rule : Rule Result} (inner : Accountable rule) :
    Accountable (attempt rule) := by
  intro mark ahead outcome ran
  obtain ⟨final, ranFinal, rfl⟩ := Option.map_eq_some_iff.mp ran
  exact ⟨(inner mark ahead final ranFinal).1, nofun⟩

end Accountable

def Answers (rule : Rule Result) (mark : EndMark) (ahead : List Token) : Prop :=
  ∃ outcome, rule mark ahead = some outcome

section Answers

variable {mark : EndMark} {ahead : List Token}

theorem answers_pure (result : Result) : Answers (pure result : Rule Result) mark ahead :=
  ⟨_, rfl⟩

theorem answers_fail_here (error : SyntaxError) :
    Answers (failHere error : Rule Result) mark ahead :=
  ⟨_, rfl⟩

theorem answers_bind {rule : Rule Result} {next : Result → Rule Next}
    (first : Answers rule mark ahead)
    (second : ∀ result reports rest, rule mark ahead = some ⟨some result, reports, rest⟩ →
      Answers (next result) mark rest) :
    Answers (rule >>= next) mark ahead := by
  obtain ⟨⟨result, reports, rest⟩, ran⟩ := first
  rw [Answers, bind_eq_and_then]
  cases result with
  | none => exact ⟨_, and_then_failed _ _ _ _ _ _ ran⟩
  | some result =>
      obtain ⟨final, ranFinal⟩ := second result reports rest ran
      rw [and_then_result _ _ _ _ _ _ _ ran, ranFinal]
      exact ⟨_, rfl⟩

theorem answers_of_bind {rule : Rule Result} {next : Result → Rule Next}
    (answers : Answers (rule >>= next) mark ahead) :
    Answers rule mark ahead ∧ ∀ result reports rest,
      rule mark ahead = some ⟨some result, reports, rest⟩ → Answers (next result) mark rest := by
  obtain ⟨outcome, ran⟩ := answers
  rcases run_bind_cases ran with ⟨reports, stop, failed, _⟩ |
    ⟨found, reports, stop, final, ranFirst, ranSecond, _⟩
  · refine ⟨⟨_, failed⟩, fun result reports rest ranAgain => ?_⟩
    rw [failed] at ranAgain
    cases ranAgain
  · refine ⟨⟨_, ranFirst⟩, fun result reports rest ranAgain => ?_⟩
    rw [ranFirst] at ranAgain
    cases ranAgain
    exact ⟨final, ranSecond⟩

theorem answers_attempt {rule : Rule Result} (inner : Answers rule mark ahead) :
    Answers (attempt rule) mark ahead := by
  obtain ⟨outcome, ran⟩ := inner
  exact ⟨_, by rw [attempt, ran, Option.map_some]⟩

theorem answers_current {next : Token → Rule Next}
    (second : Answers (next (ahead.headD mark.token)) mark ahead) :
    Answers (current >>= next) mark ahead := by
  rwa [Answers, run_current_bind]

theorem answers_peek {next : Token → Rule Next}
    (second : Answers (next (ahead.tail.headD mark.token)) mark ahead) :
    Answers (peek >>= next) mark ahead := by
  rwa [Answers, run_peek_bind]

theorem answers_remaining {next : List Token → Rule Next}
    (second : Answers (next ahead) mark ahead) : Answers (remaining >>= next) mark ahead := by
  rwa [Answers, run_remaining_bind]

theorem answers_advance {next : Unit → Rule Next} (second : Answers (next ()) mark ahead.tail) :
    Answers (advance >>= next) mark ahead := by
  rwa [Answers, run_advance_bind]

theorem answers_expect {kind : TokenKind} {next : Unit → Rule Next}
    (second : (ahead.tail.headD mark.token).kind = kind → Answers (next ()) mark ahead.tail) :
    Answers (expect kind >>= next) mark ahead := by
  by_cases found : (ahead.tail.headD mark.token).kind = kind
  · have ran : expect kind mark ahead = some ⟨some (), [], ahead.tail⟩ := by
      rw [run_expect, if_pos found]
    apply answers_bind ⟨_, ran⟩
    intro result reports rest ranAgain
    rw [ran] at ranAgain
    cases ranAgain
    exact second found
  · have ran := run_expect mark ahead kind
    rw [if_neg found] at ran
    apply answers_bind ⟨_, ran⟩
    intro result reports rest ranAgain
    rw [ran] at ranAgain
    cases ranAgain

theorem answers_skip {kind : TokenKind} {next : Unit → Rule Next}
    (second : ∀ rest, Answers (next ()) mark rest) :
    Answers (skip kind >>= next) mark ahead := by
  apply answers_bind
  · rw [Answers, run_skip]
    split <;> exact ⟨_, rfl⟩
  · intro _ _ rest _
    exact second rest

end Answers

/-- The rule succeeds with this result and without a report, and leaves these tokens ahead. -/
def Reads (rule : Rule Result) (mark : EndMark) (ahead : List Token) (result : Result)
    (rest : List Token) : Prop :=
  rule mark ahead = some ⟨some result, [], rest⟩

section Reads

variable {mark : EndMark} {ahead rest : List Token} {final : Next}

theorem reads_pure {result other : Next} :
    Reads (pure result) mark ahead other rest ↔ result = other ∧ ahead = rest := by
  constructor
  · intro ran
    cases ran
    exact ⟨rfl, rfl⟩
  · rintro ⟨rfl, rfl⟩
    rfl

theorem reads_fail_here {error : SyntaxError} :
    ¬Reads (failHere error) mark ahead final rest := nofun

theorem reads_bind {rule : Rule Result} {next : Result → Rule Next} :
    Reads (rule >>= next) mark ahead final rest ↔
      ∃ result middle, Reads rule mark ahead result middle ∧
        Reads (next result) mark middle final rest := by
  constructor
  · intro ran
    rcases run_bind_cases ran with ⟨reports, stop, failed, same⟩ |
      ⟨result, reports, middle, second, ranFirst, ranSecond, same⟩
    · cases same
    · obtain ⟨secondResult, secondReports, secondAhead⟩ := second
      simp only [Outcome.mk.injEq] at same
      obtain ⟨rfl, silent, rfl⟩ := same
      obtain ⟨rfl, rfl⟩ := List.append_eq_nil_iff.mp silent.symm
      exact ⟨result, middle, ranFirst, ranSecond⟩
  · rintro ⟨result, middle, ranFirst, ranSecond⟩
    rw [Reads, bind_eq_and_then, and_then_result _ _ _ _ _ _ _ ranFirst, ranSecond]
    rfl

theorem reads_current_bind {next : Token → Rule Next} :
    Reads (current >>= next) mark ahead final rest ↔
      Reads (next (ahead.headD mark.token)) mark ahead final rest := by
  rw [Reads, run_current_bind, Reads]

theorem reads_peek_bind {next : Token → Rule Next} :
    Reads (peek >>= next) mark ahead final rest ↔
      Reads (next (ahead.tail.headD mark.token)) mark ahead final rest := by
  rw [Reads, run_peek_bind, Reads]

theorem reads_advance_bind {next : Unit → Rule Next} :
    Reads (advance >>= next) mark ahead final rest ↔
      Reads (next ()) mark ahead.tail final rest := by
  rw [Reads, run_advance_bind, Reads]

theorem reads_remaining_bind {next : List Token → Rule Next} :
    Reads (remaining >>= next) mark ahead final rest ↔
      Reads (next ahead) mark ahead final rest := by
  rw [Reads, run_remaining_bind, Reads]

theorem reads_expect {kind : TokenKind} {result : Unit} :
    Reads (expect kind) mark ahead result rest ↔
      (ahead.tail.headD mark.token).kind = kind ∧ ahead.tail = rest := by
  rw [Reads, run_expect]
  by_cases found : (ahead.tail.headD mark.token).kind = kind
  · rw [if_pos found]
    exact ⟨fun ran => ⟨found, by cases ran; rfl⟩, fun ⟨_, same⟩ => by rw [same]⟩
  · rw [if_neg found]
    exact ⟨nofun, fun ⟨isFound, _⟩ => absurd isFound found⟩

theorem reads_expect_bind {kind : TokenKind} {next : Unit → Rule Next} :
    Reads (expect kind >>= next) mark ahead final rest ↔
      (ahead.tail.headD mark.token).kind = kind ∧
        Reads (next ()) mark ahead.tail final rest := by
  rw [reads_bind]
  constructor
  · rintro ⟨_, middle, expected, later⟩
    obtain ⟨found, rfl⟩ := reads_expect.mp expected
    exact ⟨found, later⟩
  · rintro ⟨found, later⟩
    exact ⟨(), ahead.tail, reads_expect.mpr ⟨found, rfl⟩, later⟩

theorem reads_skip_bind {kind : TokenKind} {next : Unit → Rule Next} :
    Reads (skip kind >>= next) mark ahead final rest ↔
      Reads (next ()) mark
        (if (ahead.tail.headD mark.token).kind = kind then ahead.tail else ahead) final rest := by
  rw [Reads, run_skip_bind, Reads]

/-- An accountable rule that is read over without a report has not failed. -/
theorem reads_attempt_bind {rule : Rule Result} {next : Option Result → Rule Next}
    (accountable : Accountable rule) :
    Reads (attempt rule >>= next) mark ahead final rest ↔
      ∃ result middle, Reads rule mark ahead result middle ∧
        Reads (next (some result)) mark middle final rest := by
  rw [reads_bind]
  constructor
  · rintro ⟨result, middle, attempted, later⟩
    obtain ⟨⟨inner, reports, stop⟩, ran, same⟩ := Option.map_eq_some_iff.mp attempted
    simp only [Outcome.mk.injEq, Option.some.injEq] at same
    obtain ⟨rfl, rfl, rfl⟩ := same
    cases inner with
    | none => exact absurd rfl ((accountable mark ahead _ ran).2 rfl)
    | some result => exact ⟨result, stop, ran, later⟩
  · rintro ⟨result, middle, ran, later⟩
    refine ⟨some result, middle, ?_, later⟩
    rw [Reads, attempt, ran]
    rfl

end Reads

end Scriptlet.Rule
