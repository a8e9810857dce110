import Scriptlet.Proofs.Grammar.Progress

/-!
Runs that succeed without a report, with the depth left open. Each rule of the grammar has a step
for each way in which it succeeds, so that such runs can be put together like derivations.
-/

namespace Scriptlet.Grammar

open Rule

/-- With enough depth the rule reads this result from the tokens, without a report. -/
def Runs {Result : Type} (rule : Nat → Rule Result) (mark : EndMark) (ahead : List Token)
    (result : Result) (rest : List Token) : Prop :=
  ∃ enough, ∀ depth, enough ≤ depth → Reads (rule depth) mark ahead result rest

theorem runs_of_next {Result : Type} {rule : Nat → Rule Result} {mark : EndMark}
    {ahead rest : List Token} {result : Result} (enough : Nat)
    (next : ∀ depth, enough ≤ depth → Reads (rule (depth + 1)) mark ahead result rest) :
    Runs rule mark ahead result rest := by
  refine ⟨enough + 1, fun depth deep => ?_⟩
  obtain ⟨depth, rfl⟩ := Nat.exists_eq_add_of_le' (Nat.le_of_add_left_le deep)
  exact next depth (Nat.le_of_add_le_add_right deep)

variable {mark : EndMark} {token next : Token} {ahead middle rest : List Token}

section Operand

theorem runs_name (kind : token.kind = .identifier) :
    Runs operand mark (token :: rest) (.name token.slice) (token :: rest) := by
  refine runs_of_next 0 fun depth _ => ?_
  simp only [operand, reads_current_bind, List.headD_cons, kind]
  rfl

theorem runs_integer {value : Int64} (kind : token.kind = .integer)
    (read : Text.Decimal.read? token.slice = some value) :
    Runs operand mark (token :: rest) (.int value) (token :: rest) := by
  refine runs_of_next 0 fun depth _ => ?_
  simp only [operand, reads_current_bind, List.headD_cons, kind, integer, read]
  rfl

theorem runs_true (kind : token.kind = .trueWord) :
    Runs operand mark (token :: rest) (.bool true) (token :: rest) := by
  refine runs_of_next 0 fun depth _ => ?_
  simp only [operand, reads_current_bind, List.headD_cons, kind]
  rfl

theorem runs_false (kind : token.kind = .falseWord) :
    Runs operand mark (token :: rest) (.bool false) (token :: rest) := by
  refine runs_of_next 0 fun depth _ => ?_
  simp only [operand, reads_current_bind, List.headD_cons, kind]
  rfl

theorem runs_not {inner : Expr} (kind : token.kind = .bang)
    (ran : Runs (expression .unary) mark ahead inner rest) :
    Runs operand mark (token :: ahead) (.unary .not inner) rest := by
  obtain ⟨enough, reads⟩ := ran
  refine runs_of_next enough fun depth deep => ?_
  simp only [operand, reads_current_bind, List.headD_cons, kind, reads_advance_bind,
    List.tail_cons]
  exact reads_bind.mpr ⟨inner, rest, reads depth deep, rfl⟩

theorem runs_negate {inner : Expr} (kind : token.kind = .minus)
    (ran : Runs (expression .unary) mark ahead inner rest) :
    Runs operand mark (token :: ahead) (.unary .negate inner) rest := by
  obtain ⟨enough, reads⟩ := ran
  refine runs_of_next enough fun depth deep => ?_
  simp only [operand, reads_current_bind, List.headD_cons, kind, reads_advance_bind,
    List.tail_cons]
  exact reads_bind.mpr ⟨inner, rest, reads depth deep, rfl⟩

theorem runs_group {inner : Expr} {closing : Token} (kind : token.kind = .leftParen)
    (ran : Runs (expression .lowest) mark ahead inner (next :: closing :: rest))
    (closes : closing.kind = .rightParen) :
    Runs operand mark (token :: ahead) inner (closing :: rest) := by
  obtain ⟨enough, reads⟩ := ran
  refine runs_of_next enough fun depth deep => ?_
  simp only [operand, reads_current_bind, List.headD_cons, kind, reads_advance_bind,
    List.tail_cons]
  exact reads_bind.mpr ⟨inner, _, reads depth deep, reads_expect_bind.mpr ⟨closes, rfl⟩⟩

theorem runs_function {names : List String} {body : Block} {opening closing brace : Token}
    (kind : token.kind = .fnWord) (opens : opening.kind = .leftParen)
    (ranNames : Runs parameters mark (opening :: ahead) names (closing :: brace :: middle))
    (bodyOpens : brace.kind = .leftBrace)
    (ranBody : Runs block mark (brace :: middle) body rest) :
    Runs operand mark (token :: opening :: ahead) (.function names body) rest := by
  obtain ⟨enoughNames, readsNames⟩ := ranNames
  obtain ⟨enoughBody, readsBody⟩ := ranBody
  refine runs_of_next (max enoughNames enoughBody) fun depth deep => ?_
  simp only [operand, reads_current_bind, List.headD_cons, kind]
  refine reads_expect_bind.mpr ⟨opens, ?_⟩
  refine reads_bind.mpr ⟨names, _, readsNames depth (by omega), ?_⟩
  refine reads_expect_bind.mpr ⟨bodyOpens, ?_⟩
  exact reads_bind.mpr ⟨body, _, readsBody depth (by omega), rfl⟩

theorem runs_conditional {condition : Expr} (kind : token.kind = .ifWord)
    (ran : Runs conditional mark (token :: ahead) condition rest) :
    Runs operand mark (token :: ahead) condition rest := by
  obtain ⟨enough, reads⟩ := ran
  refine runs_of_next enough fun depth deep => ?_
  simp only [operand, reads_current_bind, List.headD_cons, kind]
  exact reads depth deep

end Operand

section Conditional

variable {word opening closing brace : Token} {behind : List Token} {condition : Expr}
  {body : Block}

theorem runs_if_then (opens : opening.kind = .leftParen)
    (ranCondition : Runs (expression .lowest) mark ahead condition
      (next :: closing :: brace :: middle))
    (closes : closing.kind = .rightParen) (bodyOpens : brace.kind = .leftBrace)
    (ranBody : Runs block mark (brace :: middle) body (token :: rest))
    (alone : (rest.headD mark.token).kind ≠ .elseWord) :
    Runs conditional mark (word :: opening :: ahead) (.ifThen condition body) (token :: rest) := by
  obtain ⟨enoughCondition, readsCondition⟩ := ranCondition
  obtain ⟨enoughBody, readsBody⟩ := ranBody
  refine runs_of_next (max enoughCondition enoughBody) fun depth deep => ?_
  rw [conditional]
  refine reads_expect_bind.mpr ⟨opens, reads_advance_bind.mpr ?_⟩
  refine reads_bind.mpr ⟨condition, _, readsCondition depth (by omega), ?_⟩
  refine reads_expect_bind.mpr ⟨closes, reads_expect_bind.mpr ⟨bodyOpens, ?_⟩⟩
  refine reads_bind.mpr ⟨body, _, readsBody depth (by omega), ?_⟩
  rw [reads_peek_bind, List.tail_cons, if_neg alone]
  rfl

theorem runs_if_else {alternative : Block} {other otherBrace : Token}
    (opens : opening.kind = .leftParen)
    (ranCondition : Runs (expression .lowest) mark ahead condition
      (next :: closing :: brace :: middle))
    (closes : closing.kind = .rightParen) (bodyOpens : brace.kind = .leftBrace)
    (ranBody : Runs block mark (brace :: middle) body (token :: other :: otherBrace :: behind))
    (elseWord : other.kind = .elseWord) (otherOpens : otherBrace.kind = .leftBrace)
    (ranOther : Runs block mark (otherBrace :: behind) alternative rest) :
    Runs conditional mark (word :: opening :: ahead) (.ifElse condition body alternative) rest := by
  obtain ⟨enoughCondition, readsCondition⟩ := ranCondition
  obtain ⟨enoughBody, readsBody⟩ := ranBody
  obtain ⟨enoughOther, readsOther⟩ := ranOther
  refine runs_of_next (max enoughCondition (max enoughBody enoughOther)) fun depth deep => ?_
  rw [conditional]
  refine reads_expect_bind.mpr ⟨opens, reads_advance_bind.mpr ?_⟩
  refine reads_bind.mpr ⟨condition, _, readsCondition depth (by omega), ?_⟩
  refine reads_expect_bind.mpr ⟨closes, reads_expect_bind.mpr ⟨bodyOpens, ?_⟩⟩
  refine reads_bind.mpr ⟨body, _, readsBody depth (by omega), ?_⟩
  rw [reads_peek_bind, List.tail_cons, List.headD_cons, if_pos elseWord]
  refine reads_advance_bind.mpr (reads_expect_bind.mpr ⟨otherOpens, ?_⟩)
  exact reads_bind.mpr ⟨alternative, _, readsOther depth (by omega), rfl⟩

end Conditional

section Links

variable {least : Precedence} {left tree : Expr}

theorem runs_expression (ranOperand : Runs operand mark ahead left middle)
    (ranLinks : Runs (links least left) mark middle tree rest) :
    Runs (expression least) mark ahead tree rest := by
  obtain ⟨enoughOperand, readsOperand⟩ := ranOperand
  obtain ⟨enoughLinks, readsLinks⟩ := ranLinks
  refine runs_of_next (max enoughOperand enoughLinks) fun depth deep => ?_
  rw [expression]
  exact reads_bind.mpr ⟨left, _, readsOperand depth (by omega), readsLinks depth (by omega)⟩

theorem runs_links_stop
    (stops : ¬least < Precedence.ofKind (rest.headD mark.token).kind) :
    Runs (links least left) mark (token :: rest) left (token :: rest) := by
  refine runs_of_next 0 fun depth _ => ?_
  rw [links, reads_peek_bind, List.tail_cons, if_neg stops]
  rfl

theorem runs_links_binary {op : BinaryOp} {right : Expr}
    (linked : least < Precedence.ofKind next.kind) (isOp : BinaryOp.ofKind? next.kind = some op)
    (ranRight : Runs (expression (Precedence.ofKind next.kind)) mark ahead right middle)
    (ranLinks : Runs (links least (.binary left op right)) mark middle tree rest) :
    Runs (links least left) mark (token :: next :: ahead) tree rest := by
  obtain ⟨enoughRight, readsRight⟩ := ranRight
  obtain ⟨enoughLinks, readsLinks⟩ := ranLinks
  refine runs_of_next (max enoughRight enoughLinks) fun depth deep => ?_
  simp only [links, reads_peek_bind, List.tail_cons, List.headD_cons, linked, if_true, isOp,
    reads_advance_bind]
  exact reads_bind.mpr ⟨right, _, readsRight depth (by omega), readsLinks depth (by omega)⟩

theorem runs_links_call {values : List Expr}
    (linked : least < Precedence.call) (opens : next.kind = .leftParen)
    (ranArguments : Runs arguments mark (next :: ahead) values middle)
    (ranLinks : Runs (links least (.call left values)) mark middle tree rest) :
    Runs (links least left) mark (token :: next :: ahead) tree rest := by
  obtain ⟨enoughArguments, readsArguments⟩ := ranArguments
  obtain ⟨enoughLinks, readsLinks⟩ := ranLinks
  refine runs_of_next (max enoughArguments enoughLinks) fun depth deep => ?_
  simp only [links, reads_peek_bind, List.tail_cons, List.headD_cons, opens, Precedence.ofKind,
    linked, if_true, BinaryOp.ofKind?, reads_advance_bind]
  exact reads_bind.mpr ⟨values, _, readsArguments depth (by omega), readsLinks depth (by omega)⟩

theorem runs_no_arguments (closes : next.kind = .rightParen) :
    Runs arguments mark (token :: next :: rest) [] (next :: rest) := by
  refine runs_of_next 0 fun depth _ => ?_
  rw [arguments, reads_peek_bind, reads_advance_bind, List.tail_cons, List.headD_cons,
    if_pos closes]
  rfl

theorem runs_arguments {values : List Expr} (more : (ahead.headD mark.token).kind ≠ .rightParen)
    (ranFirst : Runs (expression .lowest) mark ahead left middle)
    (ranMore : Runs moreArguments mark middle values rest) :
    Runs arguments mark (token :: ahead) (left :: values) rest := by
  obtain ⟨enoughFirst, readsFirst⟩ := ranFirst
  obtain ⟨enoughMore, readsMore⟩ := ranMore
  refine runs_of_next (max enoughFirst enoughMore) fun depth deep => ?_
  rw [arguments, reads_peek_bind, reads_advance_bind, List.tail_cons, if_neg more]
  refine reads_bind.mpr ⟨left, _, readsFirst depth (by omega), ?_⟩
  exact reads_bind.mpr ⟨values, _, readsMore depth (by omega), rfl⟩

theorem runs_last_argument (closes : next.kind = .rightParen) :
    Runs moreArguments mark (token :: next :: rest) [] (next :: rest) := by
  refine runs_of_next 0 fun depth _ => ?_
  rw [moreArguments, reads_peek_bind, List.tail_cons, List.headD_cons,
    if_neg (by rw [closes]; decide)]
  exact reads_expect_bind.mpr ⟨closes, rfl⟩

theorem runs_more_arguments {values : List Expr} (comma : next.kind = .comma)
    (ranFirst : Runs (expression .lowest) mark ahead left middle)
    (ranMore : Runs moreArguments mark middle values rest) :
    Runs moreArguments mark (token :: next :: ahead) (left :: values) rest := by
  obtain ⟨enoughFirst, readsFirst⟩ := ranFirst
  obtain ⟨enoughMore, readsMore⟩ := ranMore
  refine runs_of_next (max enoughFirst enoughMore) fun depth deep => ?_
  rw [moreArguments, reads_peek_bind, List.tail_cons, List.headD_cons, if_pos comma,
    reads_advance_bind, reads_advance_bind]
  refine reads_bind.mpr ⟨left, _, readsFirst depth (by omega), ?_⟩
  exact reads_bind.mpr ⟨values, _, readsMore depth (by omega), rfl⟩

end Links

section Statements

variable {value : Expr} {first : Stmt} {statements : List Stmt}

theorem runs_block (ran : Runs blockStatements mark ahead statements rest) :
    Runs block mark (token :: ahead) statements rest := by
  obtain ⟨enough, reads⟩ := ran
  refine runs_of_next enough fun depth deep => ?_
  rw [block]
  exact reads_advance_bind.mpr (reads depth deep)

theorem runs_block_end (closes : token.kind = .rightBrace) :
    Runs blockStatements mark (token :: rest) [] (token :: rest) := by
  refine runs_of_next 0 fun depth _ => ?_
  rw [blockStatements, reads_current_bind, List.headD_cons, if_pos closes]
  rfl

theorem runs_block_statements (opens : token.kind ≠ .rightBrace) (inside : token.kind ≠ .endMark)
    (ranFirst : Runs statement mark (token :: ahead) first (next :: middle))
    (ranRest : Runs blockStatements mark middle statements rest) :
    Runs blockStatements mark (token :: ahead) (first :: statements) rest := by
  obtain ⟨enoughFirst, readsFirst⟩ := ranFirst
  obtain ⟨enoughRest, readsRest⟩ := ranRest
  refine runs_of_next (max enoughFirst enoughRest) fun depth deep => ?_
  rw [blockStatements, reads_current_bind, List.headD_cons, if_neg opens, if_neg inside,
    reads_remaining_bind, reads_attempt_bind (rules_account depth).statement]
  refine ⟨first, _, readsFirst depth (by omega), reads_advance_bind.mpr ?_⟩
  exact reads_bind.mpr ⟨statements, _, readsRest depth (by omega), rfl⟩

theorem runs_program_end : Runs program mark [] [] [] := by
  refine runs_of_next 0 fun depth _ => ?_
  have ended : mark.token.kind = .endMark := rfl
  rw [program, reads_current_bind, List.headD_nil, if_pos ended]
  rfl

theorem runs_program (inside : token.kind ≠ .endMark)
    (ranFirst : Runs statement mark (token :: ahead) first (next :: middle))
    (ranRest : Runs program mark middle statements rest) :
    Runs program mark (token :: ahead) (first :: statements) rest := by
  obtain ⟨enoughFirst, readsFirst⟩ := ranFirst
  obtain ⟨enoughRest, readsRest⟩ := ranRest
  refine runs_of_next (max enoughFirst enoughRest) fun depth deep => ?_
  rw [program, reads_current_bind, List.headD_cons, if_neg inside,
    reads_remaining_bind, reads_attempt_bind (rules_account depth).statement]
  refine ⟨first, _, readsFirst depth (by omega), reads_advance_bind.mpr ?_⟩
  exact reads_bind.mpr ⟨statements, _, readsRest depth (by omega), rfl⟩

def afterSemicolon (mark : EndMark) (ahead : List Token) : List Token :=
  if (ahead.tail.headD mark.token).kind = .semicolon then ahead.tail else ahead

theorem runs_bind {name sign : Token} (word : token.kind = .letWord)
    (isName : name.kind = .identifier) (isSign : sign.kind = .equal)
    (ran : Runs (expression .lowest) mark ahead value rest) :
    Runs statement mark (token :: name :: sign :: ahead) (.bind name.slice value)
      (afterSemicolon mark rest) := by
  obtain ⟨enough, reads⟩ := ran
  refine runs_of_next enough fun depth deep => ?_
  simp only [statement, reads_current_bind, List.headD_cons, word, reads_expect_bind, isName,
    List.tail_cons, isSign, reads_advance_bind, true_and]
  exact reads_bind.mpr ⟨value, _, reads depth deep, reads_skip_bind.mpr rfl⟩

theorem runs_return (word : token.kind = .returnWord)
    (ran : Runs (expression .lowest) mark ahead value rest) :
    Runs statement mark (token :: ahead) (.return value) (afterSemicolon mark rest) := by
  obtain ⟨enough, reads⟩ := ran
  refine runs_of_next enough fun depth deep => ?_
  simp only [statement, reads_current_bind, List.headD_cons, word, reads_advance_bind,
    List.tail_cons]
  exact reads_bind.mpr ⟨value, _, reads depth deep, reads_skip_bind.mpr rfl⟩

theorem runs_expr (notLet : token.kind ≠ .letWord) (notReturn : token.kind ≠ .returnWord)
    (ran : Runs (expression .lowest) mark (token :: ahead) value rest) :
    Runs statement mark (token :: ahead) (.expr value) (afterSemicolon mark rest) := by
  obtain ⟨enough, reads⟩ := ran
  refine runs_of_next enough fun depth deep => ?_
  rw [statement, reads_current_bind, List.headD_cons]
  split
  · next word => exact absurd word notLet
  · next word => exact absurd word notReturn
  · exact reads_bind.mpr ⟨value, _, reads depth deep, reads_skip_bind.mpr rfl⟩

end Statements

section Parameters

theorem runs_no_parameters (closes : next.kind = .rightParen) :
    Runs parameters mark (token :: next :: rest) [] (next :: rest) := by
  refine runs_of_next 0 fun depth _ => ?_
  rw [parameters, reads_peek_bind, List.tail_cons, List.headD_cons, if_pos closes]
  exact reads_advance_bind.mpr rfl

theorem runs_parameters {names : List String} (isName : next.kind = .identifier)
    (ran : Runs moreParameters mark (next :: ahead) names rest) :
    Runs parameters mark (token :: next :: ahead) (next.slice :: names) rest := by
  obtain ⟨enough, reads⟩ := ran
  refine ⟨enough, fun depth deep => ?_⟩
  rw [parameters, reads_peek_bind, List.tail_cons, List.headD_cons,
    if_neg (by rw [isName]; decide)]
  refine reads_expect_bind.mpr ⟨isName, reads_current_bind.mpr ?_⟩
  exact reads_bind.mpr ⟨names, _, reads depth deep, rfl⟩

theorem runs_last_parameter (closes : next.kind = .rightParen) :
    Runs moreParameters mark (token :: next :: rest) [] (next :: rest) := by
  refine runs_of_next 0 fun depth _ => ?_
  rw [moreParameters, reads_peek_bind, List.tail_cons, List.headD_cons,
    if_neg (by rw [closes]; decide)]
  exact reads_expect_bind.mpr ⟨closes, rfl⟩

theorem runs_more_parameters {names : List String} {comma : Token} (isComma : comma.kind = .comma)
    (isName : next.kind = .identifier)
    (ran : Runs moreParameters mark (next :: ahead) names rest) :
    Runs moreParameters mark (token :: comma :: next :: ahead) (next.slice :: names) rest := by
  obtain ⟨enough, reads⟩ := ran
  refine runs_of_next enough fun depth deep => ?_
  rw [moreParameters, reads_peek_bind, List.tail_cons, List.headD_cons, if_pos isComma,
    reads_advance_bind]
  refine reads_expect_bind.mpr ⟨isName, reads_current_bind.mpr ?_⟩
  exact reads_bind.mpr ⟨names, _, reads depth deep, rfl⟩

end Parameters

end Scriptlet.Grammar
