import Scriptlet.Proofs.Grammar.Pieces
import Scriptlet.Proofs.Grammar.Whole

/-!
Reading terminates on every list of tokens. Each loop comes back to its head with fewer tokens ahead
than before, also where a statement failed on the token that it began with, and where recovery
stopped on a brace that the loop itself looks at next.
-/

namespace Scriptlet.Grammar

open Rule

/-- The loops of reading, with what they hold when they come to their heads. -/
inductive Loop where
  | program
  | block
  | links (least : Precedence) (left : Expr)
  | parameters
  | arguments
  | recovery (open_ : Int32)

namespace Loop

abbrev Result : Loop → Type
  | program => Program
  | block => Block
  | links _ _ => Expr
  | parameters => List String
  | arguments => List Expr
  | recovery _ => Bool

def rule : (loop : Loop) → Nat → Rule loop.Result
  | program => Grammar.program
  | block => blockStatements
  | links least left => Grammar.links least left
  | parameters => moreParameters
  | arguments => moreArguments
  | recovery open_ => fun _ _ ahead =>
      some ⟨some (Recovery.skipFrom open_ ahead).1, [], (Recovery.skipFrom open_ ahead).2⟩

end Loop

/-- What a loop comes to that has made these reports, and makes this of what it comes to later. -/
def grown {Result Next : Type} (reports : List Report) (build : Result → Next)
    (later : Outcome Result) : Outcome Next :=
  ⟨later.result.map build, reports ++ later.reports, later.ahead⟩

/-- One turn of a loop: from the tokens ahead at its head to those with which it is there again. The
turn makes reports, and what the loop comes to later is built into what it comes to. -/
inductive Turn (depth : Nat) (mark : EndMark) :
    (loop : Loop) → List Token → (next : Loop) → List Token →
      List Report → (next.Result → loop.Result) → Prop where
  | program {ahead : List Token} {read : Outcome Stmt} :
      (ahead.headD mark.token).kind ≠ .endMark → statement depth mark ahead = some read →
      Turn depth mark .program ahead .program (resume ahead read)
        read.reports (read.result.toList ++ ·)
  | block {ahead : List Token} {read : Outcome Stmt} :
      (ahead.headD mark.token).kind ≠ .rightBrace → (ahead.headD mark.token).kind ≠ .endMark →
      statement depth mark ahead = some read →
      Turn depth mark .block ahead .block (resumeInBlock ahead read)
        read.reports (read.result.toList ++ ·)
  | operator {least : Precedence} {left right : Expr} {op : BinaryOp} {ahead rest : List Token}
      {reports : List Report} :
      least < Precedence.ofKind (ahead.tail.headD mark.token).kind →
      BinaryOp.ofKind? (ahead.tail.headD mark.token).kind = some op →
      expression (Precedence.ofKind (ahead.tail.headD mark.token).kind) depth mark
        ahead.tail.tail = some ⟨some right, reports, rest⟩ →
      Turn depth mark (.links least left) ahead (.links least (.binary left op right)) rest
        reports id
  | call {least : Precedence} {left : Expr} {values : List Expr} {ahead rest : List Token}
      {reports : List Report} :
      least < Precedence.ofKind (ahead.tail.headD mark.token).kind →
      BinaryOp.ofKind? (ahead.tail.headD mark.token).kind = none →
      arguments depth mark ahead.tail = some ⟨some values, reports, rest⟩ →
      Turn depth mark (.links least left) ahead (.links least (.call left values)) rest
        reports id
  | parameter {ahead : List Token} :
      (ahead.tail.headD mark.token).kind = .comma →
      (ahead.tail.tail.headD mark.token).kind = .identifier →
      Turn depth mark .parameters ahead .parameters ahead.tail.tail
        [] ((ahead.tail.tail.headD mark.token).slice :: ·)
  | argument {value : Expr} {ahead rest : List Token} {reports : List Report} :
      (ahead.tail.headD mark.token).kind = .comma →
      expression .lowest depth mark ahead.tail.tail = some ⟨some value, reports, rest⟩ →
      Turn depth mark .arguments ahead .arguments rest reports (value :: ·)
  | recovery {open_ : Int32} {token : Token} {rest : List Token} :
      ¬(token.kind = .rightBrace ∧ open_ < 0) → token.kind ≠ .endMark →
      ¬(open_ ≤ 0 ∧ (token.kind = .semicolon ∨ Recovery.kindAt rest = .rightBrace ∨
        Recovery.kindAt rest = .endMark)) →
      Turn depth mark (.recovery open_) (token :: rest)
        (.recovery (Recovery.count open_ (Recovery.kindAt rest))) rest [] id

section Turns

variable {depth : Nat} {mark : EndMark} {ahead rest : List Token} {loop next : Loop}
  {reports : List Report} {build : next.Result → loop.Result}

theorem shorter_of_suffix_tail {stop : List Token} (inside : ahead ≠ []) (within : stop <:+ ahead) :
    stop.tail.length < ahead.length := by
  have positive := List.length_pos_iff.mpr inside
  have bounded := within.length_le
  rw [List.length_tail]
  omega

theorem nonempty_of_inside (inside : (ahead.headD mark.token).kind ≠ .endMark) : ahead ≠ [] := by
  rintro rfl
  exact inside rfl

/-- Where recovery in a block stops on a brace, the statement did not begin there. -/
theorem resume_in_block_shorter {read : Outcome Stmt}
    (noBrace : (ahead.headD mark.token).kind ≠ .rightBrace)
    (inside : (ahead.headD mark.token).kind ≠ .endMark)
    (ran : statement depth mark ahead = some read) :
    (resumeInBlock ahead read).length < ahead.length := by
  have nonempty := nonempty_of_inside inside
  have within := ((rules_account depth).statement mark ahead read ran).1
  rw [resumeInBlock]
  split
  · exact shorter_of_suffix_tail nonempty within
  · have stopWithin : (recovered ahead read.ahead).2 <:+ ahead :=
      (Recovery.skip_from_suffix _ read.ahead).trans within
    rw [passBrokenInBlock]
    split
    · next closed =>
        obtain ⟨brace, behind, stopped, isBrace⟩ := Recovery.skip_from_closed _ _ closed
        rw [recovered, stopped] at stopWithin ⊢
        refine Nat.lt_of_le_of_ne stopWithin.length_le fun sameLength => noBrace ?_
        rw [← stopWithin.eq_of_length sameLength]
        exact isBrace
    · exact shorter_of_suffix_tail nonempty stopWithin

/-- Every loop makes progress in each of its turns. -/
theorem turn_shortens (turn : Turn depth mark loop ahead next rest reports build) :
    rest.length < ahead.length := by
  cases turn with
  | program inside ran =>
      obtain ⟨stop, within, same⟩ := resume_suffix ran
      rw [same]
      exact shorter_of_suffix_tail (nonempty_of_inside inside) within
  | block noBrace inside ran => exact resume_in_block_shorter noBrace inside ran
  | operator links _ ran =>
      have long := two_ahead_of_link links
      have shorter := ahead_length_le ((rules_account depth).expression _) ran
      simp only [List.length_tail] at shorter
      omega
  | call links _ ran =>
      have long := two_ahead_of_link links
      have shorter := ahead_length_le (rules_account depth).arguments ran
      simp only [List.length_tail] at shorter
      omega
  | parameter comma =>
      have long : 2 ≤ ahead.length := two_ahead_of_next (by rw [comma]; decide)
      simp only [List.length_tail]
      omega
  | argument comma ran =>
      have long : 2 ≤ ahead.length := two_ahead_of_next (by rw [comma]; decide)
      have shorter := ahead_length_le ((rules_account depth).expression _) ran
      simp only [List.length_tail] at shorter
      omega
  | recovery => exact Nat.lt_succ_self _

theorem grown_id {Result : Type} (reports : List Report) :
    grown reports (id : Result → Result) = fun later =>
      ⟨later.result, reports ++ later.reports, later.ahead⟩ := by
  funext later
  rw [grown, Option.map_id, id]

/-- After a turn the loop runs on from its head, and what it comes to there is built into what it
comes to. -/
theorem turn_goes_on (turn : Turn depth mark loop ahead next rest reports build) :
    loop.rule (depth + 1) mark ahead =
      (next.rule depth mark rest).map (grown reports build) := by
  cases turn with
  | program inside ran =>
      rw [Loop.rule, program_step depth inside, ran, Option.bind_some]
      rfl
  | block noBrace inside ran =>
      rw [Loop.rule, block_step depth noBrace inside, ran, Option.bind_some]
      rfl
  | operator isLink isOp ran =>
      rw [Loop.rule, links, run_peek_bind, if_pos isLink, run_advance_bind, isOp]
      simp only [run_advance_bind]
      rw [bind_eq_and_then, and_then_result _ _ _ _ _ _ _ ran, ← grown_id]
      rfl
  | call isLink noOp ran =>
      rw [Loop.rule, links, run_peek_bind, if_pos isLink, run_advance_bind, noOp]
      simp only
      rw [bind_eq_and_then, and_then_result _ _ _ _ _ _ _ ran, ← grown_id]
      rfl
  | parameter comma isName =>
      have expected : expect .identifier mark ahead.tail = some ⟨some (), [], ahead.tail.tail⟩ := by
        rw [run_expect, if_pos isName]
      rw [Loop.rule, moreParameters, run_peek_bind, if_pos comma, run_advance_bind,
        bind_eq_and_then, and_then_result _ _ _ _ _ _ _ expected, run_current_bind,
        run_then_pure, Option.map_map]
      rfl
  | argument comma ran =>
      rw [Loop.rule, moreArguments, run_peek_bind, if_pos comma, run_advance_bind, run_advance_bind,
        bind_eq_and_then, and_then_result _ _ _ _ _ _ _ ran, run_then_pure, Option.map_map]
      rfl
  | recovery noBrace noEnd noBoundary =>
      rw [grown_id]
      simp only [Loop.rule]
      rw [Recovery.skipFrom, if_neg noBrace, if_neg noEnd, if_neg noBoundary]
      rfl

end Turns

theorem expression_extends (least : Precedence) {shallow deep : Nat} (deeper : shallow ≤ deep) :
    Extends (expression least shallow) (expression least deep) :=
  extends_deeper (fun depth => (rules_deepen depth).expression least) deeper

/-- A program is read up to an end mark. -/
theorem program_stops_at_end (depth : Nat) {mark : EndMark} {ahead : List Token}
    {outcome : Outcome Program} (ran : program depth mark ahead = some outcome) :
    (outcome.ahead.headD mark.token).kind = .endMark := by
  induction depth generalizing ahead outcome with
  | zero => cases ran
  | succ depth induction =>
      by_cases ended : (ahead.headD mark.token).kind = .endMark
      · rw [program_end depth ended] at ran
        cases ran
        exact ended
      · rw [program_step depth ended] at ran
        obtain ⟨read, later, _, ranLater, rfl⟩ := runs_of_step ran
        have ended := induction ranLater
        exact ended

/-- At whatever depth that suffices, a program is read to the same end. -/
theorem program_terminates (mark : EndMark) (ahead : List Token) : ∃ statements reports stop,
    (stop.headD mark.token).kind = .endMark ∧ ∀ depth, Reader.callDepth ahead.length ≤ depth →
      program depth mark ahead = some ⟨some statements, reports, stop⟩ := by
  obtain ⟨outcome, ran⟩ := program_answers _ mark ahead (Nat.le_refl _)
  obtain ⟨statements, result⟩ := program_succeeds _ ran
  refine ⟨statements, outcome.reports, outcome.ahead, program_stops_at_end _ ran, ?_⟩
  intro depth enough
  rw [program_extends enough mark ahead outcome ran, ← result]

theorem expression_terminates (least : Precedence) (mark : EndMark) (ahead : List Token) :
    ∃ outcome, ∀ depth, Reader.callDepth ahead.length ≤ depth →
      expression least depth mark ahead = some outcome := by
  have enough : 2 * ahead.length + 2 ≤ Reader.callDepth ahead.length := by
    rw [Reader.callDepth]
    omega
  obtain ⟨outcome, ran⟩ := (rules_suffice _).expression least mark ahead enough
  exact ⟨outcome, fun depth deeper => expression_extends least deeper mark ahead outcome ran⟩

end Scriptlet.Grammar

namespace Scriptlet

open Grammar Rule

/-- Reading ends with an outcome that no greater depth would change: reading a program from any list
of tokens, and reading an expression with any demand wherever a reader stands. Every turn of every
loop leaves fewer tokens ahead, and the loop builds on what it comes to from those. -/
theorem reading_terminates :
    (∀ tokens : List Token, ∃ statements reports stop,
      readTokens tokens = (statements, reports) ∧
      (stop.headD (Reader.ofTokens tokens).endMark.token).kind = .endMark ∧
      ∀ depth, Reader.callDepth (Reader.ofTokens tokens).ahead.length ≤ depth →
        program depth (Reader.ofTokens tokens).endMark (Reader.ofTokens tokens).ahead =
          some ⟨some statements, reports, stop⟩) ∧
    (∀ (reader : Reader) (least : Precedence), ∃ outcome,
      reader.expression least = (outcome.result,
        { reader with ahead := outcome.ahead, reports := reader.reports ++ outcome.reports }) ∧
      ∀ depth, Reader.callDepth reader.ahead.length ≤ depth →
        expression least depth reader.endMark reader.ahead = some outcome) ∧
    ∀ depth mark loop ahead next rest reports build,
      Turn depth mark loop ahead next rest reports build →
        rest.length < ahead.length ∧ loop.rule (depth + 1) mark ahead =
          (next.rule depth mark rest).map (grown reports build) := by
  refine ⟨fun tokens => ?_, fun reader least => ?_, fun _ _ _ _ _ _ _ _ turn =>
    ⟨turn_shortens turn, turn_goes_on turn⟩⟩
  · obtain ⟨statements, reports, stop, ended, terminates⟩ :=
      program_terminates (Reader.ofTokens tokens).endMark (Reader.ofTokens tokens).ahead
    refine ⟨statements, reports, stop, ?_, ended, terminates⟩
    exact Reader.read_tokens_of_outcome (terminates _ (Nat.le_refl _))
  · obtain ⟨outcome, terminates⟩ := expression_terminates least reader.endMark reader.ahead
    refine ⟨outcome, ?_, terminates⟩
    rw [Reader.expression, Reader.apply, terminates _ (Nat.le_refl _)]

/-- A block whose statement breaks on the closing brace comes back to that brace, and ends there
with nothing but the report. -/
theorem broken_return_shortens :
    let brace : Token := ⟨.rightBrace, "\x7d", ⟨6, 7⟩⟩
    let ahead := [⟨.returnWord, "return", ⟨0, 6⟩⟩, brace]
    Turn 3 ⟨"", ⟨7, 7⟩⟩ .block ahead .block [brace] [⟨.noRule brace, 1⟩] id ∧
      [brace].length < ahead.length ∧
      blockStatements 4 ⟨"", ⟨7, 7⟩⟩ ahead = some ⟨some [], [⟨.noRule brace, 1⟩], [brace]⟩ := by
  intro brace ahead
  have ran : statement 3 ⟨"", ⟨7, 7⟩⟩ ahead = some ⟨none, [⟨.noRule brace, 1⟩], [brace]⟩ := rfl
  have turn : Turn 3 ⟨"", ⟨7, 7⟩⟩ .block ahead .block [brace] [⟨.noRule brace, 1⟩] id :=
    .block (by decide) (by decide) ran
  have shortens := reading_terminates.2.2 _ _ _ _ _ _ _ _ turn
  exact ⟨turn, shortens.1, shortens.2⟩

end Scriptlet
