import Scriptlet.Proofs.Rule.Footing

/-!
End marks in the middle of the tokens. A rule is run on tokens with an end mark behind them, and on
the same tokens where more follows that mark. A rule that heeds end marks does the same in both
runs, unless it runs into the end of the first input and fails there; then it may have gone past the
mark in the second.
-/

namespace Scriptlet.Rule

variable {Result Next : Type}

/-- How a run up to an end mark compares with a run where these tokens stand behind the mark. -/
inductive Beyond (mark : EndMark) (behind : List Token) (outcome other : Outcome Result) :
    Prop where
  | short : other.result = outcome.result →
      other.reports.map Report.error = outcome.reports.map Report.error →
      other.ahead = outcome.ahead ++ mark.token :: behind → Beyond mark behind outcome other
  | past : outcome.result = none → outcome.ahead = [] → other.ahead <:+ behind →
      Beyond mark behind outcome other

/-- The rule goes past an end mark only where it runs into the end, and there it fails. -/
structure Heeds (footing : Footing) (rule : Rule Result) : Prop where
  accountable : Accountable rule
  lands {mark : EndMark} {ahead rest : List Token} {result : Result} {reports : List Report} :
    footing.Holds mark ahead → rule mark ahead = some ⟨some result, reports, rest⟩ → rest ≠ []
  beyond {mark otherMark : EndMark} {ahead behind : List Token} {outcome other : Outcome Result} :
    footing.Holds mark ahead → rule mark ahead = some outcome →
    rule otherMark (ahead ++ mark.token :: behind) = some other → Beyond mark behind outcome other

section Heeds

variable {footing start : Footing} {rule : Rule Result} {next : Result → Rule Next}
  {mark otherMark : EndMark} {ahead behind : List Token}

theorem head_beyond (mark otherMark : EndMark) (ahead behind : List Token) :
    (ahead ++ mark.token :: behind).headD otherMark.token = ahead.headD mark.token := by
  cases ahead <;> rfl

theorem tail_beyond (more : ahead ≠ []) (tokens : List Token) :
    (ahead ++ tokens).tail = ahead.tail ++ tokens := List.tail_append_of_ne_nil more

theorem heeds_mono (heeds : Heeds start rule)
    (stronger : ∀ mark ahead, footing.Holds mark ahead → start.Holds mark ahead) :
    Heeds footing rule where
  accountable := heeds.accountable
  lands holds := heeds.lands (stronger _ _ holds)
  beyond holds := heeds.beyond (stronger _ _ holds)

theorem heeds_too_deep (footing : Footing) : Heeds footing (tooDeep : Rule Result) where
  accountable := accountable_too_deep
  lands _ ran := by cases ran
  beyond _ ran := by cases ran

theorem heeds_pure (result : Result) : Heeds .used (pure result) where
  accountable := accountable_pure result
  lands more ran := by
    cases ran
    exact more
  beyond _ ran ranOther := by
    cases ran
    cases ranOther
    exact .short rfl rfl rfl

theorem heeds_fail_here (error : SyntaxError) : Heeds footing (failHere error : Rule Result) where
  accountable := accountable_fail_here error
  lands _ ran := by cases ran
  beyond _ ran ranOther := by
    cases ran
    cases ranOther
    exact .short rfl rfl rfl

theorem heeds_fail_next (error : SyntaxError) : Heeds footing (failNext error : Rule Result) where
  accountable := accountable_fail_next error
  lands _ ran := by cases ran
  beyond _ ran ranOther := by
    cases ran
    cases ranOther
    exact .short rfl rfl rfl

theorem heeds_bind (first : Heeds footing rule) (second : ∀ result, Heeds .used (next result)) :
    Heeds footing (rule >>= next) where
  accountable := accountable_bind first.accountable fun result => (second result).accountable
  lands holds ran := by
    rcases run_bind_cases ran with ⟨reports, rest, failed, same⟩ |
      ⟨result, reports, middle, final, ranFirst, ranSecond, same⟩
    · cases same
    · obtain ⟨_, _, _⟩ := final
      cases same
      exact (second result).lands (first.lands holds ranFirst) ranSecond
  beyond holds ran ranOther := by
    rcases run_bind_cases ran with ⟨reports, rest, failed, rfl⟩ |
      ⟨result, reports, middle, final, ranFirst, ranSecond, rfl⟩
    · rcases run_bind_cases ranOther with ⟨_, _, otherFailed, rfl⟩ |
        ⟨otherResult, _, _, otherFinal, otherFirst, otherSecond, rfl⟩
      · cases first.beyond holds failed otherFailed with
        | short _ sameErrors sameAhead => exact .short rfl sameErrors sameAhead
        | past _ ended within => exact .past rfl ended within
      · cases first.beyond holds failed otherFirst with
        | short sameResult => cases sameResult
        | past _ ended within =>
            have later := ((second otherResult).accountable _ _ _ otherSecond).1
            exact .past rfl ended (later.trans within)
    · rcases run_bind_cases ranOther with ⟨_, _, otherFailed, rfl⟩ |
        ⟨otherResult, _, _, otherFinal, otherFirst, otherSecond, rfl⟩
      · cases first.beyond holds ranFirst otherFailed with
        | short sameResult => cases sameResult
        | past failed => cases failed
      · cases first.beyond holds ranFirst otherFirst with
        | past failed => cases failed
        | short sameResult sameErrors sameAhead =>
            cases sameResult
            cases sameAhead
            have landed := first.lands holds ranFirst
            cases (second result).beyond landed ranSecond otherSecond with
            | past failed ended within => exact .past failed ended within
            | short sameLast sameMore sameEnd =>
                refine .short sameLast ?_ sameEnd
                rw [List.map_append, List.map_append, sameErrors, sameMore]

/-- Looking at a token that is the same in both runs gives a better footing. -/
theorem heeds_look {rule : Rule Next} {next : Token → Rule Next}
    {look : EndMark → List Token → Token}
    (seen : Token → Footing)
    (looks : ∀ mark ahead, rule mark ahead = next (look mark ahead) mark ahead)
    (settles : ∀ mark ahead, footing.Holds mark ahead → (seen (look mark ahead)).Holds mark ahead)
    (same : ∀ mark otherMark ahead behind, footing.Holds mark ahead →
      look otherMark (ahead ++ mark.token :: behind) = look mark ahead)
    (heeds : ∀ token, Heeds (seen token) (next token)) : Heeds footing rule where
  accountable mark ahead outcome ran := by
    rw [looks] at ran
    exact (heeds _).accountable mark ahead outcome ran
  lands holds ran := by
    rw [looks] at ran
    exact (heeds _).lands (settles _ _ holds) ran
  beyond holds ran ranOther := by
    rw [looks] at ran ranOther
    rw [same _ _ _ _ holds] at ranOther
    exact (heeds _).beyond (settles _ _ holds) ran ranOther

/-- Going on to the next token. -/
theorem heeds_step (start : Footing) {next : Unit → Rule Result}
    (moves : ∀ mark ahead, footing.Holds mark ahead → ahead ≠ [] ∧ start.Holds mark ahead.tail)
    (heeds : Heeds start (next ())) : Heeds footing (advance >>= next) where
  accountable := accountable_bind accountable_advance fun _ => heeds.accountable
  lands holds ran := by
    rw [run_advance_bind] at ran
    exact heeds.lands (moves _ _ holds).2 ran
  beyond holds ran ranOther := by
    obtain ⟨more, settled⟩ := moves _ _ holds
    rw [run_advance_bind] at ran ranOther
    rw [tail_beyond more] at ranOther
    exact heeds.beyond settled ran ranOther

theorem heeds_closed : Closed Heeds where
  tooDeep := heeds_too_deep
  pure := heeds_pure
  bind := heeds_bind
  current := heeds_look .facing (fun mark ahead => run_current_bind mark ahead _)
    (fun _ _ _ => rfl) fun mark otherMark ahead behind _ => head_beyond mark otherMark ahead behind
  currentUsed := heeds_look (fun _ => .used) (fun mark ahead => run_current_bind mark ahead _)
    (fun _ _ holds => holds)
    fun mark otherMark ahead behind _ => head_beyond mark otherMark ahead behind
  peek := heeds_look .beside (fun mark ahead => run_peek_bind mark ahead _)
    (fun _ _ holds => ⟨holds, rfl⟩) fun mark otherMark ahead behind holds => by
      rw [tail_beyond holds, head_beyond]
  advance := heeds_step .fresh fun _ _ more => ⟨more, trivial⟩
  advanceOnto := heeds_step (.facing _) fun _ _ holds => holds
  failHere _ := heeds_fail_here _
  failNext _ := heeds_fail_next _
  ofFresh heeds := heeds_mono heeds fun _ _ _ => trivial
  ofUsed inside heeds := heeds_mono heeds fun _ _ isToken => nonempty_of_facing inside isToken
  beside heeds := heeds_mono heeds fun _ _ holds => holds.1

end Heeds

end Scriptlet.Rule
