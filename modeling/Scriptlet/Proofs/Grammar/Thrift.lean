import Scriptlet.Program.Equality
import Scriptlet.Proofs.Grammar.Progress
import Scriptlet.Proofs.Grammar.Whole

/-!
Statements and reports are paid for with tokens. A rule that succeeds has used up a token for every
statement in what it read and for every report that it made; a rule that fails has spent one more.
Its report is paid for by the token that the broken statement begins with, as no statement is kept
for that token.
-/

namespace Scriptlet

mutual

/-- The number of statements in the blocks of an expression, at all depths. -/
def Expr.statementCount : Expr → Nat
  | .name _ | .int _ | .bool _ => 0
  | .unary _ operand => operand.statementCount
  | .binary left _ right => left.statementCount + right.statementCount
  | .ifThen condition consequence => condition.statementCount + statementsIn consequence
  | .ifElse condition consequence alternative =>
      condition.statementCount + statementsIn consequence + statementsIn alternative
  | .function _ body => statementsIn body
  | .call callee arguments => callee.statementCount + statementsInAll arguments

def Stmt.statementCount : Stmt → Nat
  | .bind _ value | .return value | .expr value => value.statementCount

def statementsInAll : List Expr → Nat
  | [] => 0
  | first :: rest => first.statementCount + statementsInAll rest

def statementsIn : List Stmt → Nat
  | [] => 0
  | first :: rest => first.statementCount + 1 + statementsIn rest

end

def Block.statementCount (block : Block) : Nat := statementsIn block

namespace Rule

variable {Result Next : Type}

/-- With so much weight carried along, the rule pays for the weight of its result and for its
reports with the tokens behind the current one. -/
structure Thrifty (weigh : Result → Nat) (carried : Nat) (rule : Rule Result) : Prop where
  kept {mark : EndMark} {ahead rest : List Token} {result : Result} {reports : List Report} :
    rule mark ahead = some ⟨some result, reports, rest⟩ →
      weigh result + reports.length + rest.tail.length ≤ carried + ahead.tail.length
  broken {mark : EndMark} {ahead stop : List Token} {reports : List Report} :
    rule mark ahead = some ⟨none, reports, stop⟩ →
      reports.length + stop.tail.length ≤ carried + ahead.tail.length + 1

section Thrifty

variable {weigh : Result → Nat} {weighNext : Next → Nat} {carried : Nat} {rule : Rule Result}

theorem thrifty_too_deep : Thrifty weigh carried tooDeep where
  kept := nofun
  broken := nofun

theorem thrifty_pure {result : Result} (light : weigh result ≤ carried) :
    Thrifty weigh carried (pure result) where
  kept ran := by
    cases ran
    exact Nat.add_le_add_right light _
  broken := nofun

theorem thrifty_fail_here (error : SyntaxError) : Thrifty weigh carried (failHere error) where
  kept := nofun
  broken {mark ahead stop reports} ran := by
    cases ran
    simp only [List.length_singleton]
    omega

theorem thrifty_fail_next (error : SyntaxError) : Thrifty weigh carried (failNext error) where
  kept := nofun
  broken {mark ahead stop reports} ran := by
    cases ran
    simp only [List.length_singleton]
    omega

theorem thrifty_bind {next : Result → Rule Next} (first : Thrifty weigh 0 rule)
    (second : ∀ result, Thrifty weighNext (carried + weigh result) (next result)) :
    Thrifty weighNext carried (rule >>= next) where
  kept ran := by
    rcases run_bind_cases ran with ⟨reports, rest, failed, same⟩ |
      ⟨result, reports, middle, ⟨final, later, rest⟩, ranFirst, ranSecond, same⟩
    · cases same
    · cases same
      have paid := first.kept ranFirst
      have paidLater := (second result).kept ranSecond
      simp only [List.length_append]
      omega
  broken ran := by
    rcases run_bind_cases ran with ⟨reports, stop, failed, same⟩ |
      ⟨result, reports, middle, ⟨final, later, stop⟩, ranFirst, ranSecond, same⟩
    · cases same
      have paid := first.broken failed
      omega
    · cases same
      have paid := first.kept ranFirst
      have paidLater := (second result).broken ranSecond
      simp only [List.length_append]
      omega

/-- What is not weighed is free of charge. -/
theorem thrifty_free {rule : Rule Result} {next : Result → Rule Next}
    (first : Thrifty (fun _ => 0) 0 rule)
    (second : ∀ result, Thrifty weighNext carried (next result)) :
    Thrifty weighNext carried (rule >>= next) := thrifty_bind first second

theorem thrifty_look {rule : Rule Result}
    (look : ∀ mark ahead, ∃ result, rule mark ahead = some ⟨some result, [], ahead⟩) :
    Thrifty (fun _ => 0) 0 rule where
  kept {mark ahead rest result reports} ran := by
    obtain ⟨found, looked⟩ := look mark ahead
    rw [looked] at ran
    cases ran
    simp
  broken {mark ahead stop reports} ran := by
    obtain ⟨found, looked⟩ := look mark ahead
    rw [looked] at ran
    cases ran

theorem thrifty_current : Thrifty (fun _ => 0) 0 current := thrifty_look fun _ _ => ⟨_, rfl⟩

theorem thrifty_peek : Thrifty (fun _ => 0) 0 peek := thrifty_look fun _ _ => ⟨_, rfl⟩

theorem thrifty_advance : Thrifty (fun _ => 0) 0 advance where
  kept {mark ahead rest result reports} ran := by
    cases ran
    simp only [List.length_tail, List.length_nil]
    omega
  broken := nofun

theorem thrifty_expect (kind : TokenKind) : Thrifty (fun _ => 0) 0 (expect kind) := by
  refine thrifty_free thrifty_peek fun token => ?_
  split
  · exact thrifty_advance
  · exact thrifty_fail_next _

theorem thrifty_skip (kind : TokenKind) : Thrifty (fun _ => 0) 0 (skip kind) := by
  refine thrifty_free thrifty_peek fun token => ?_
  split
  · exact thrifty_advance
  · exact thrifty_pure (Nat.le_refl 0)

end Thrifty

end Rule

namespace Grammar

open Rule

theorem more_parameters_thrifty (depth : Nat) :
    Thrifty (fun _ => 0) 0 (moreParameters depth) := by
  induction depth with
  | zero => exact thrifty_too_deep
  | succ depth induction =>
      refine thrifty_free thrifty_peek fun token => ?_
      split
      · exact thrifty_free thrifty_advance fun _ => thrifty_free (thrifty_expect _) fun _ =>
          thrifty_free thrifty_current fun _ => thrifty_free induction fun _ =>
            thrifty_pure (Nat.le_refl 0)
      · exact thrifty_free (thrifty_expect _) fun _ => thrifty_pure (Nat.le_refl 0)

theorem parameters_thrifty (depth : Nat) : Thrifty (fun _ => 0) 0 (parameters depth) := by
  refine thrifty_free thrifty_peek fun token => ?_
  split
  · exact thrifty_free thrifty_advance fun _ => thrifty_pure (Nat.le_refl 0)
  · exact thrifty_free (thrifty_expect _) fun _ => thrifty_free thrifty_current fun _ =>
      thrifty_free (more_parameters_thrifty depth) fun _ => thrifty_pure (Nat.le_refl 0)

/-- Of a list of statements that is read from here, each statement and each report is paid for with
a token; where the list fails, one report is not. -/
structure SpendsList (ahead : List Token) (outcome : Outcome (List Stmt)) : Prop where
  kept : ∀ statements ∈ outcome.result, Block.statementCount statements + outcome.reports.length +
    outcome.ahead.tail.length ≤ ahead.length
  broken : outcome.result = none →
    outcome.reports.length + outcome.ahead.tail.length ≤ ahead.length + 1

/-- The rules of this depth are thrifty. A statement is not weighed itself but with the list that it
is kept in. -/
structure ThriftyAt (depth : Nat) : Prop where
  expression (least : Precedence) : Thrifty Expr.statementCount 0 (expression least depth)
  operand : Thrifty Expr.statementCount 0 (operand depth)
  links (least : Precedence) (left : Expr) :
    Thrifty Expr.statementCount left.statementCount (links least left depth)
  arguments : Thrifty statementsInAll 0 (arguments depth)
  moreArguments : Thrifty statementsInAll 0 (moreArguments depth)
  conditional : Thrifty Expr.statementCount 0 (conditional depth)
  block : Thrifty Block.statementCount 0 (block depth)
  statement : Thrifty Stmt.statementCount 0 (statement depth)
  /-- The current token counts here, as it may be the first one of a statement. -/
  blockStatements {mark : EndMark} {ahead : List Token} {outcome : Outcome Block} :
    blockStatements depth mark ahead = some outcome → SpendsList ahead outcome

section ThriftyAt

variable {depth : Nat} (rules : ThriftyAt depth)

include rules

theorem operand_thrifty : Thrifty Expr.statementCount 0 (operand (depth + 1)) := by
  rw [operand]
  refine thrifty_free thrifty_current fun token => ?_
  split
  case h_1 | h_3 | h_4 => exact thrifty_pure (Nat.le_refl 0)
  case h_2 =>
    rw [integer]
    split
    · exact thrifty_pure (Nat.le_refl 0)
    · exact thrifty_fail_here _
  case h_5 | h_6 =>
    exact thrifty_free thrifty_advance fun _ => thrifty_bind (rules.expression _) fun inner =>
      thrifty_pure (by rw [Expr.statementCount, Nat.zero_add])
  case h_7 =>
    exact thrifty_free thrifty_advance fun _ => thrifty_bind (rules.expression _) fun inner =>
      thrifty_free (thrifty_expect _) fun _ => thrifty_pure (Nat.le_of_eq (Nat.zero_add _).symm)
  case h_8 => exact rules.conditional
  case h_9 =>
    exact thrifty_free (thrifty_expect _) fun _ => thrifty_free (parameters_thrifty depth) fun _ =>
      thrifty_free (thrifty_expect _) fun _ => thrifty_bind rules.block fun body =>
        thrifty_pure (by rw [Expr.statementCount, Nat.zero_add]; exact Nat.le_refl _)
  case h_10 => exact thrifty_fail_here _

theorem links_thrifty (least : Precedence) (left : Expr) :
    Thrifty Expr.statementCount left.statementCount (links least left (depth + 1)) := by
  rw [links]
  refine thrifty_free thrifty_peek fun token => ?_
  split
  · refine thrifty_free thrifty_advance fun _ => ?_
    split
    · exact thrifty_free thrifty_advance fun _ => thrifty_bind (rules.expression _) fun right =>
        rules.links least (.binary left _ right)
    · exact thrifty_bind rules.arguments fun values => rules.links least (.call left values)
  · exact thrifty_pure (Nat.le_refl _)

theorem arguments_thrifty : Thrifty statementsInAll 0 (arguments (depth + 1)) := by
  rw [arguments]
  refine thrifty_free thrifty_peek fun token => thrifty_free thrifty_advance fun _ => ?_
  split
  · exact thrifty_pure (Nat.le_refl 0)
  · exact thrifty_bind (rules.expression _) fun first =>
      thrifty_bind rules.moreArguments fun rest =>
        thrifty_pure (by rw [statementsInAll, Nat.zero_add])

theorem more_arguments_thrifty : Thrifty statementsInAll 0 (moreArguments (depth + 1)) := by
  rw [moreArguments]
  refine thrifty_free thrifty_peek fun token => ?_
  split
  · exact thrifty_free thrifty_advance fun _ => thrifty_free thrifty_advance fun _ =>
      thrifty_bind (rules.expression _) fun first => thrifty_bind rules.moreArguments fun rest =>
        thrifty_pure (by rw [statementsInAll, Nat.zero_add])
  · exact thrifty_free (thrifty_expect _) fun _ => thrifty_pure (Nat.le_refl 0)

theorem conditional_thrifty : Thrifty Expr.statementCount 0 (conditional (depth + 1)) := by
  rw [conditional]
  refine thrifty_free (thrifty_expect _) fun _ => thrifty_free thrifty_advance fun _ =>
    thrifty_bind (rules.expression _) fun condition => thrifty_free (thrifty_expect _) fun _ =>
    thrifty_free (thrifty_expect _) fun _ => thrifty_bind rules.block fun consequence =>
    thrifty_free thrifty_peek fun token => ?_
  split
  · exact thrifty_free thrifty_advance fun _ => thrifty_free (thrifty_expect _) fun _ =>
      thrifty_bind rules.block fun alternative =>
        thrifty_pure (by rw [Expr.statementCount, Nat.zero_add]; exact Nat.le_refl _)
  · exact thrifty_pure (by rw [Expr.statementCount, Nat.zero_add]; exact Nat.le_refl _)

theorem block_thrifty : Thrifty Block.statementCount 0 (block (depth + 1)) where
  kept {mark ahead rest statements reports} ran := by
    rw [block, run_advance_bind] at ran
    have paid := (rules.blockStatements ran).kept statements rfl
    rwa [Nat.zero_add]
  broken {mark ahead stop reports} ran := by
    rw [block, run_advance_bind] at ran
    have paid := (rules.blockStatements ran).broken rfl
    rwa [Nat.zero_add]

theorem statement_thrifty : Thrifty Stmt.statementCount 0 (statement (depth + 1)) := by
  have finish (make : Expr → Stmt) (same : ∀ value, (make value).statementCount =
      value.statementCount) : Thrifty Stmt.statementCount 0 (do
        let value ← expression .lowest depth
        skip .semicolon
        return make value) :=
    thrifty_bind (rules.expression _) fun value => thrifty_free (thrifty_skip _) fun _ =>
      thrifty_pure (by rw [same, Nat.zero_add])
  rw [statement]
  refine thrifty_free thrifty_current fun token => ?_
  split
  · exact thrifty_free (thrifty_expect _) fun _ => thrifty_free thrifty_current fun name =>
      thrifty_free (thrifty_expect _) fun _ => thrifty_free thrifty_advance fun _ =>
        finish (.bind name.slice) fun _ => rfl
  · exact thrifty_free thrifty_advance fun _ => finish .return fun _ => rfl
  · exact finish .expr fun _ => rfl

end ThriftyAt

section Lists

variable {mark : EndMark} {ahead next : List Token} {depth : Nat}

theorem statements_in_append (front back : List Stmt) :
    statementsIn (front ++ back) = statementsIn front + statementsIn back := by
  induction front with
  | nil => rw [List.nil_append, statementsIn, Nat.zero_add]
  | cons first rest induction =>
      simp only [List.cons_append, statementsIn, induction, Nat.add_assoc]

theorem spends_precede {read : Outcome Stmt} {more : Outcome (List Stmt)}
    (paid : statementsIn read.result.toList + read.reports.length + next.length ≤ ahead.length)
    (rest : SpendsList next more) : SpendsList ahead (precede read more) where
  kept statements isResult := by
    obtain ⟨others, isRest, rfl⟩ := Option.map_eq_some_iff.mp isResult
    have paidRest := rest.kept others isRest
    simp only [precede, Block.statementCount, statements_in_append, List.length_append]
      at paidRest ⊢
    omega
  broken fails := by
    have paidRest := rest.broken (Option.map_eq_none_iff.mp fails)
    simp only [precede, List.length_append]
    omega

/-- The first token of a statement pays for keeping it, or for the report that broke it. -/
theorem statement_paid (rules : ThriftyAt depth) (inside : (ahead.headD mark.token).kind ≠ .endMark)
    {read : Outcome Stmt} (ran : statement depth mark ahead = some read) :
    statementsIn read.result.toList + read.reports.length + read.ahead.tail.length ≤
      ahead.length := by
  have nonempty : ahead ≠ [] := by
    rintro rfl
    exact inside rfl
  have positive := List.length_pos_iff.mpr nonempty
  have tail := ahead.length_tail
  obtain ⟨result, reports, stop⟩ := read
  cases result with
  | some first =>
      have paid := rules.statement.kept ran
      simp only [Option.toList, statementsIn]
      omega
  | none =>
      have paid := rules.statement.broken ran
      simp only [Option.toList, statementsIn]
      omega

theorem recovered_length_le (start stop : List Token) :
    (recovered start stop).2.tail.length ≤ stop.tail.length :=
  (suffix_tail (recovered_suffix start stop)).length_le

theorem resume_length_le (start : List Token) (read : Outcome Stmt) :
    (resume start read).length ≤ read.ahead.tail.length := by
  rw [resume]
  split
  · exact Nat.le_refl _
  · exact recovered_length_le start read.ahead

/-- A block goes on behind what was read, unless recovery stopped on the brace that closes it. -/
theorem resume_in_block_cases (mark : EndMark) (start : List Token) (read : Outcome Stmt) :
    (resumeInBlock start read).length ≤ read.ahead.tail.length ∨
      read.result = none ∧ ((resumeInBlock start read).headD mark.token).kind = .rightBrace ∧
        (resumeInBlock start read).tail.length ≤ read.ahead.tail.length := by
  rw [resumeInBlock]
  split
  · exact .inl (Nat.le_refl _)
  · next failed =>
      rw [passBrokenInBlock]
      split
      · next closed =>
          exact .inr ⟨failed, recovered_on_brace closed, recovered_length_le start read.ahead⟩
      · exact .inl (recovered_length_le start read.ahead)

theorem spends_nothing : SpendsList ahead ⟨some [], [], ahead⟩ where
  kept statements isResult := by
    obtain rfl := Option.some.inj isResult
    simp [Block.statementCount, statementsIn]
  broken := nofun

theorem block_statements_thrifty (rules : ThriftyAt depth) {outcome : Outcome Block}
    (ran : blockStatements (depth + 1) mark ahead = some outcome) : SpendsList ahead outcome := by
  by_cases closes : (ahead.headD mark.token).kind = .rightBrace
  · rw [block_end depth closes] at ran
    cases ran
    exact spends_nothing
  · by_cases ended : (ahead.headD mark.token).kind = .endMark
    · rw [block_unclosed depth ended] at ran
      cases ran
      refine ⟨nofun, fun _ => ?_⟩
      simp only [List.length_singleton, List.length_tail]
      omega
    · rw [block_step depth closes ended] at ran
      obtain ⟨read, more, ranRead, ranMore, rfl⟩ := runs_of_step ran
      have paid := statement_paid rules ended ranRead
      rcases resume_in_block_cases mark ahead read with goesOn | ⟨failed, closes, stops⟩
      · exact spends_precede (Nat.le_trans (Nat.add_le_add_left goesOn _) paid)
          (rules.blockStatements ranMore)
      · -- The block ends on that brace, and reports nothing more.
        cases depth with
        | zero => cases ranMore
        | succ depth =>
            rw [block_end depth closes] at ranMore
            cases ranMore
            rw [failed] at paid
            refine ⟨fun statements isResult => ?_, nofun⟩
            obtain rfl := Option.some.inj isResult
            simp only [precede, failed, Option.toList, List.append_nil, Block.statementCount,
              statementsIn]
            omega

theorem rules_thrifty (depth : Nat) : ThriftyAt depth := by
  induction depth with
  | zero =>
      exact
        { expression := fun _ => thrifty_too_deep
          operand := thrifty_too_deep
          links := fun _ _ => thrifty_too_deep
          arguments := thrifty_too_deep
          moreArguments := thrifty_too_deep
          conditional := thrifty_too_deep
          block := thrifty_too_deep
          statement := thrifty_too_deep
          blockStatements := nofun }
  | succ depth rules =>
      exact
        { expression := fun least => thrifty_bind rules.operand fun left => by
            rw [Nat.zero_add]
            exact rules.links least left
          operand := operand_thrifty rules
          links := links_thrifty rules
          arguments := arguments_thrifty rules
          moreArguments := more_arguments_thrifty rules
          conditional := conditional_thrifty rules
          block := block_thrifty rules
          statement := statement_thrifty rules
          blockStatements := block_statements_thrifty rules }

theorem program_spends (depth : Nat) {outcome : Outcome Program}
    (ran : program depth mark ahead = some outcome) : SpendsList ahead outcome := by
  induction depth generalizing ahead outcome with
  | zero => cases ran
  | succ depth induction =>
      by_cases ended : (ahead.headD mark.token).kind = .endMark
      · rw [program_end depth ended] at ran
        cases ran
        exact spends_nothing
      · rw [program_step depth ended] at ran
        obtain ⟨read, more, ranRead, ranMore, rfl⟩ := runs_of_step ran
        have paid := statement_paid (rules_thrifty depth) ended ranRead
        have shorter := resume_length_le ahead read
        exact spends_precede (Nat.le_trans (Nat.add_le_add_left shorter _) paid)
          (induction ranMore)

end Lists

end Grammar

open Grammar

/-- One broken statement does not lead to many reports: with the statements that are read, counted
at all depths, there are at most as many reports as there are tokens in front of the end mark. -/
theorem reports_do_not_cascade (tokens : List Token) (ended : Token)
    (isMark : ended.kind = .endMark) :
    Block.statementCount (readTokens (tokens ++ [ended])).1 +
      (readTokens (tokens ++ [ended])).2.length ≤ tokens.length := by
  obtain ⟨outcome, ran⟩ := program_answers _ ⟨ended.slice, ended.span⟩ tokens (Nat.le_refl _)
  have spends := program_spends _ ran
  obtain ⟨statements, result⟩ := program_succeeds _ ran
  have paid := spends.kept statements result
  have sameReader := Reader.of_tokens_ended tokens ended isMark
  have read : readTokens (tokens ++ [ended]) = (outcome.result.getD [], outcome.reports) :=
    Reader.read_tokens_of_outcome (by rw [sameReader]; exact ran)
  rw [read, result, Option.getD_some]
  exact Nat.le_trans (Nat.le_add_right _ _) paid

def strayParenthesis : List Token :=
  [⟨.ifWord, "if", ⟨0, 2⟩⟩, ⟨.leftParen, "(", ⟨3, 4⟩⟩, ⟨.identifier, "x", ⟨4, 5⟩⟩,
    ⟨.rightParen, ")", ⟨5, 6⟩⟩, ⟨.leftBrace, "\x7b", ⟨7, 8⟩⟩, ⟨.rightParen, ")", ⟨9, 10⟩⟩,
    ⟨.semicolon, ";", ⟨10, 11⟩⟩, ⟨.identifier, "y", ⟨12, 13⟩⟩, ⟨.rightBrace, "\x7d", ⟨14, 15⟩⟩]

/-- The stray parenthesis is reported once, and both statements around it are kept. -/
theorem stray_parenthesis_is_reported_once :
    ∃ statements report,
      readTokens (strayParenthesis ++ [⟨.endMark, "", ⟨15, 15⟩⟩]) = (statements, [report]) ∧
      Block.statementCount statements = 2 ∧ 2 + [report].length ≤ strayParenthesis.length := by
  have read : readTokens (strayParenthesis ++ [⟨.endMark, "", ⟨15, 15⟩⟩]) =
      ([.expr (.ifThen (.name "x") [.expr (.name "y")])],
        [⟨.noRule ⟨.rightParen, ")", ⟨9, 10⟩⟩, 4⟩]) := by
    decide +kernel
  have bounded := reports_do_not_cascade strayParenthesis ⟨.endMark, "", ⟨15, 15⟩⟩ rfl
  rw [read] at bounded
  exact ⟨_, _, read, rfl, bounded⟩

end Scriptlet
