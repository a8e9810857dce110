import Scriptlet.Proofs.Grammar.Outcome
import Scriptlet.Proofs.Grammar.Progress
import Scriptlet.Proofs.Grammar.Sequence

/-!
What reports are about. Behind an error that a rule has recovered from, the tokens ahead may be any
of those that were ahead before, but they are no others. So every report, not only the first one,
is right about one of the tokens that are read or about the end mark; and as nothing is reported
again that lies behind, each report is about the token of the one before it or one further on.
-/

namespace Scriptlet

def Footing.Shows (mark : EndMark) (ahead : List Token) : Footing → Prop
  | fresh | used => True
  | facing token => ahead.headD mark.token = token
  | beside token => ahead.tail.headD mark.token = token

/-- The report is right about one of these tokens or about the end mark, and tells where it stands.
-/
def Report.TrueIn (mark : EndMark) (field : List Token) (report : Report) : Prop :=
  Stands mark field report.remaining fun token => report.error.TrueOf token

theorem Report.TrueIn.concerns {mark : EndMark} {field : List Token} {report : Report}
    (isTrue : report.TrueIn mark field) : report.Concerns mark field := by
  obtain ⟨token, behind, within, length, isSo⟩ := isTrue
  exact ⟨token, behind, within, length, isSo.names⟩

/-- The reports are right about tokens of the field, one after the other, and what is ahead behind
the current token has not been reported. -/
structure Outcome.Orderly {Result : Type} (mark : EndMark) (field : List Token)
    (outcome : Outcome Result) : Prop where
  truthful : ∀ report ∈ outcome.reports, report.TrueIn mark field
  passed : ∀ report ∈ outcome.reports, outcome.ahead.tail.length ≤ report.remaining
  sorted : outcome.reports.Pairwise fun earlier later => later.remaining ≤ earlier.remaining

namespace Rule

variable {Result Next Whole : Type} {footing : Footing} {rule : Rule Result} {mark : EndMark}
  {field : List Token}

section Orderly

variable {outcome : Outcome Result} {last : Outcome Next}

theorem orderly_silent (silent : outcome.reports = []) : outcome.Orderly mark field where
  truthful _ member := by
    rw [silent] at member
    exact absurd member List.not_mem_nil
  passed _ member := by
    rw [silent] at member
    exact absurd member List.not_mem_nil
  sorted := silent ▸ .nil

theorem orderly_fails {error : SyntaxError} {stop : List Token}
    (shorter : stop.tail.length ≤ field.length)
    (isTrue : error.TrueOf (field.headD mark.token)) :
    Outcome.Orderly mark field ⟨(none : Option Result), [⟨error, field.length⟩], stop⟩ where
  truthful := List.forall_mem_singleton.mpr (stands_here isTrue)
  passed := List.forall_mem_singleton.mpr shorter
  sorted := List.pairwise_singleton _ _

theorem orderly_of_suffix {wider : List Token} (orderly : outcome.Orderly mark field)
    (within : field <:+ wider) : outcome.Orderly mark wider where
  truthful report member := stands_of_suffix (orderly.truthful report member) within
  passed := orderly.passed
  sorted := orderly.sorted

/-- What follows reports on later tokens, since it starts behind those that were reported. -/
theorem orderly_then {result : Option Whole} (first : outcome.Orderly mark field)
    (second : last.Orderly mark outcome.ahead.tail) (within : outcome.ahead.tail <:+ field)
    (further : last.ahead <:+ outcome.ahead) :
    Outcome.Orderly mark field ⟨result, outcome.reports ++ last.reports, last.ahead⟩ where
  truthful := List.forall_mem_append.mpr
    ⟨first.truthful, (orderly_of_suffix second within).truthful⟩
  passed := by
    refine List.forall_mem_append.mpr ⟨fun report member => ?_, second.passed⟩
    exact Nat.le_trans (suffix_tail further).length_le (first.passed report member)
  sorted := by
    refine List.pairwise_append.mpr ⟨first.sorted, second.sorted, ?_⟩
    intro earlier before later behind
    exact Nat.le_trans (stands_le (second.truthful later behind)) (first.passed earlier before)

end Orderly

structure Tells (footing : Footing) (rule : Rule Result) : Prop where
  accountable : Accountable rule
  orderly {mark : EndMark} {ahead : List Token} {outcome : Outcome Result} :
    footing.Shows mark ahead → rule mark ahead = some outcome →
      outcome.Orderly mark (footing.field ahead)

theorem tells_silent (accountable : Accountable rule)
    (silent : ∀ mark ahead outcome, rule mark ahead = some outcome → outcome.reports = []) :
    Tells footing rule where
  accountable := accountable
  orderly _ ran := orderly_silent (silent _ _ _ ran)

theorem tells_too_deep (footing : Footing) : Tells footing (tooDeep : Rule Result) :=
  tells_silent accountable_too_deep nofun

theorem tells_pure (footing : Footing) (result : Result) :
    Tells footing (pure result : Rule Result) := by
  refine tells_silent (accountable_pure result) ?_
  intro mark ahead outcome ran
  cases ran
  rfl

theorem tells_fail_here {token : Token} {error : SyntaxError} (isTrue : error.TrueOf token) :
    Tells (.facing token) (failHere error : Rule Result) where
  accountable := accountable_fail_here error
  orderly {mark ahead outcome} shows ran := by
    cases ran
    rw [Footing.Shows] at shows
    exact orderly_fails (List.tail_sublist ahead).length_le (shows ▸ isTrue)

theorem tells_fail_next {token : Token} {error : SyntaxError} (isTrue : error.TrueOf token) :
    Tells (.beside token) (failNext error : Rule Result) where
  accountable := accountable_fail_next error
  orderly {mark ahead outcome} shows ran := by
    cases ran
    rw [Footing.Shows] at shows
    exact orderly_fails (Nat.le_refl _) (shows ▸ isTrue)

/-- What is behind the token where a rule stopped was open to reports when it started. -/
theorem tail_within_field {ahead middle : List Token} (footing : Footing)
    (within : middle <:+ ahead) : middle.tail <:+ footing.field ahead := by
  cases footing with
  | fresh | facing => exact (List.tail_suffix middle).trans within
  | used | beside => exact suffix_tail within

theorem tells_bind {next : Result → Rule Next} (first : Tells footing rule)
    (second : ∀ result, Tells .used (next result)) : Tells footing (rule >>= next) where
  accountable := accountable_bind first.accountable fun result => (second result).accountable
  orderly {mark ahead outcome} shows ran := by
    rcases run_bind_cases ran with ⟨reports, rest, failed, rfl⟩ |
      ⟨result, reports, middle, final, ranFirst, ranSecond, rfl⟩
    · have orderly := first.orderly shows failed
      exact ⟨orderly.truthful, orderly.passed, orderly.sorted⟩
    · have within := (first.accountable mark ahead _ ranFirst).1
      have further := ((second result).accountable mark middle _ ranSecond).1
      exact orderly_then (first.orderly shows ranFirst) ((second result).orderly trivial ranSecond)
        (tail_within_field footing within) further

/-- What is told on a weaker footing is told on a stronger one. -/
theorem tells_mono {start : Footing} (tells : Tells start rule)
    (stronger : ∀ mark ahead, footing.Shows mark ahead →
      start.Shows mark ahead ∧ start.field ahead <:+ footing.field ahead) :
    Tells footing rule where
  accountable := tells.accountable
  orderly shows ran :=
    orderly_of_suffix (tells.orderly (stronger _ _ shows).1 ran) (stronger _ _ shows).2

/-- A rule goes on as one that knows what it has looked at. -/
theorem tells_look {next : Token → Rule Result} {look : EndMark → List Token → Token}
    (seen : Token → Footing)
    (looks : ∀ mark ahead, rule mark ahead = next (look mark ahead) mark ahead)
    (settles : ∀ mark ahead, (seen (look mark ahead)).Shows mark ahead ∧
      (seen (look mark ahead)).field ahead = footing.field ahead)
    (tells : ∀ token, Tells (seen token) (next token)) : Tells footing rule where
  accountable := by
    intro mark ahead outcome ran
    rw [looks] at ran
    exact (tells _).accountable mark ahead outcome ran
  orderly {mark ahead outcome} _ ran := by
    obtain ⟨shows, sameField⟩ := settles mark ahead
    rw [looks] at ran
    exact sameField ▸ (tells _).orderly shows ran

theorem tells_current {next : Token → Rule Result}
    (tells : ∀ token, Tells (.facing token) (next token)) : Tells .fresh (current >>= next) :=
  tells_look .facing (fun mark ahead => run_current_bind mark ahead next)
    (fun _ _ => ⟨rfl, rfl⟩) tells

theorem tells_current_used {next : Token → Rule Result}
    (tells : ∀ token, Tells .used (next token)) : Tells .used (current >>= next) :=
  tells_look (fun _ => .used) (fun mark ahead => run_current_bind mark ahead next)
    (fun _ _ => ⟨trivial, rfl⟩) tells

theorem tells_peek {next : Token → Rule Result}
    (tells : ∀ token, Tells (.beside token) (next token)) : Tells .used (peek >>= next) :=
  tells_look .beside (fun mark ahead => run_peek_bind mark ahead next)
    (fun _ _ => ⟨rfl, rfl⟩) tells

theorem tells_step (start : Footing) {next : Unit → Rule Result}
    (moves : ∀ mark ahead, footing.Shows mark ahead →
      start.Shows mark ahead.tail ∧ start.field ahead.tail <:+ footing.field ahead)
    (tells : Tells start (next ())) : Tells footing (advance >>= next) where
  accountable := accountable_bind accountable_advance fun _ => tells.accountable
  orderly {mark ahead outcome} shows ran := by
    obtain ⟨settled, within⟩ := moves mark ahead shows
    rw [run_advance_bind] at ran
    exact orderly_of_suffix (tells.orderly settled ran) within

theorem tells_advance {next : Unit → Rule Result} (tells : Tells .fresh (next ())) :
    Tells .used (advance >>= next) :=
  tells_step .fresh (fun _ ahead _ => ⟨trivial, List.suffix_refl ahead.tail⟩) tells

theorem tells_closed : Closed Tells where
  tooDeep := tells_too_deep
  pure := tells_pure .used
  bind := tells_bind
  current := tells_current
  currentUsed := tells_current_used
  peek := tells_peek
  advance := tells_advance
  advanceOnto := tells_step _ fun _ ahead shows => ⟨shows, List.suffix_refl ahead.tail⟩
  failHere := tells_fail_here
  failNext := tells_fail_next
  ofFresh tells := tells_mono tells fun _ ahead _ => ⟨trivial, List.suffix_refl ahead⟩
  ofUsed _ tells := tells_mono tells fun _ ahead _ => ⟨trivial, List.tail_suffix ahead⟩
  beside tells := tells_mono tells fun _ ahead _ => ⟨trivial, List.suffix_refl ahead.tail⟩

theorem tells_attempt (tells : Tells footing rule) : Tells footing (attempt rule) where
  accountable := accountable_attempt tells.accountable
  orderly shows ran := by
    obtain ⟨outcome, ranInner, rfl⟩ := Option.map_eq_some_iff.mp ran
    have orderly := tells.orderly shows ranInner
    exact ⟨orderly.truthful, orderly.passed, orderly.sorted⟩

/-- The tokens ahead may be taken note of. -/
theorem tells_remaining {next : List Token → Rule Result}
    (tells : ∀ start, Tells footing (next start)) : Tells footing (remaining >>= next) where
  accountable := accountable_bind accountable_remaining fun start => (tells start).accountable
  orderly shows ran := by
    rw [run_remaining_bind] at ran
    exact (tells _).orderly shows ran

end Rule

namespace Grammar

open Rule

/-- Where recovery stops on the brace that closes the block, the list of statements ends there and
makes no report; else it goes on behind the token where recovery stopped. -/
theorem recovered_block_tells {depth : Nat} (list : Tells .fresh (blockStatements depth))
    (start : List Token) : Tells .used (recover start >>= fun closed =>
      if closed then blockStatements depth else advance >>= fun _ => blockStatements depth) where
  accountable := by
    refine accountable_bind (accountable_recover start) fun closed => ?_
    split
    · exact list.accountable
    · exact accountable_bind accountable_advance fun _ => list.accountable
  orderly {mark ahead outcome} _ ran := by
    rw [run_recover_bind] at ran
    split at ran
    · next closed =>
        cases depth with
        | zero => cases ran
        | succ depth =>
            rw [block_end depth (recovered_on_brace closed)] at ran
            cases ran
            exact orderly_silent rfl
    · rw [run_advance_bind] at ran
      exact orderly_of_suffix (list.orderly trivial ran)
        (suffix_tail (recovered_suffix start ahead))

theorem block_statements_tell {depth : Nat} (rules : JudgedAt Tells depth) :
    Tells .fresh (blockStatements (depth + 1)) := by
  rw [blockStatements]
  refine tells_current fun token => ?_
  split
  · exact tells_pure _ _
  · next open_ =>
      split
      · exact tells_fail_here ⟨rfl, open_⟩
      · refine tells_remaining fun start =>
          tells_bind (tells_attempt (tells_closed.ofFresh rules.statement)) fun read => ?_
        cases read with
        | some first =>
            exact tells_advance (tells_bind rules.blockStatements fun _ => tells_pure _ _)
        | none => exact recovered_block_tells rules.blockStatements start

theorem rules_tell (depth : Nat) : JudgedAt Tells depth :=
  rules_judged tells_closed (fun _ rules => block_statements_tell rules) depth

theorem program_tells (depth : Nat) : Tells .fresh (program depth) := by
  induction depth with
  | zero => exact tells_too_deep _
  | succ depth induction =>
      rw [program]
      refine tells_current fun token => ?_
      split
      · exact tells_pure _ _
      · refine tells_remaining fun start => tells_bind
          (tells_attempt (tells_closed.ofFresh (rules_tell depth).statement)) fun read => ?_
        cases read with
        | some first => exact tells_advance (tells_bind induction fun _ => tells_pure _ _)
        | none =>
            have silent : Tells .used (recover start) := by
              refine tells_silent (accountable_recover start) ?_
              intro mark ahead outcome ran
              cases ran
              rfl
            exact tells_bind silent fun _ => tells_advance induction

end Grammar

section Read

open Grammar

theorem reports_orderly (tokens : List Token) : ∃ outcome : Outcome Program,
    readTokens tokens = (outcome.result.getD [], outcome.reports) ∧
      outcome.Orderly (Reader.ofTokens tokens).endMark (Reader.ofTokens tokens).ahead := by
  obtain ⟨outcome, answered⟩ := program_answers _ (Reader.ofTokens tokens).endMark
    (Reader.ofTokens tokens).ahead (Nat.le_refl _)
  have orderly := (program_tells _).orderly trivial answered
  exact ⟨outcome, Reader.read_tokens_of_outcome answered, orderly⟩

/-- Every report is about one of the tokens that are read, or about the end mark. -/
theorem reports_concern (tokens : List Token) : ∀ report ∈ (readTokens tokens).2,
    report.Concerns (Reader.ofTokens tokens).endMark (Reader.ofTokens tokens).ahead := by
  obtain ⟨outcome, read, orderly⟩ := reports_orderly tokens
  rw [read]
  exact fun report member => (orderly.truthful report member).concerns

end Read

end Scriptlet
