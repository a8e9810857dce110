import Mathlib.Order.Lattice
import Scriptlet.Proofs.Grammar.Depth
import Scriptlet.Proofs.Grammar.Progress
import Scriptlet.Reader

/-!
Reading always ends. The depth that a rule needs is counted in the tokens ahead of it: two calls
for each token, and a few more that depend on the rule. A reader grants what its loosest rule needs.
-/

namespace Scriptlet.Grammar

open Rule

/-- With this depth each rule has an outcome, if the tokens ahead are few enough for it. -/
structure Suffices (depth : Nat) : Prop where
  expression (least : Precedence) (mark : EndMark) (ahead : List Token)
    (enough : 2 * ahead.length + 2 ≤ depth) : Answers (expression least depth) mark ahead
  operand (mark : EndMark) (ahead : List Token) (enough : 2 * ahead.length + 1 ≤ depth) :
    Answers (operand depth) mark ahead
  links (least : Precedence) (left : Expr) (mark : EndMark) (ahead : List Token)
    (enough : 2 * ahead.length + 1 ≤ depth) : Answers (links least left depth) mark ahead
  arguments (mark : EndMark) (ahead : List Token) (enough : 2 * ahead.length + 1 ≤ depth)
    (positive : 3 ≤ depth) : Answers (arguments depth) mark ahead
  moreArguments (mark : EndMark) (ahead : List Token) (enough : 2 * ahead.length + 1 ≤ depth) :
    Answers (moreArguments depth) mark ahead
  conditional (mark : EndMark) (ahead : List Token) (enough : 2 * ahead.length ≤ depth)
    (positive : 1 ≤ depth) : Answers (conditional depth) mark ahead
  block (mark : EndMark) (ahead : List Token) (enough : 2 * ahead.length + 3 ≤ depth) :
    Answers (block depth) mark ahead
  blockStatements (mark : EndMark) (ahead : List Token)
    (enough : ahead ≠ [] → 2 * ahead.length + 4 ≤ depth) (positive : 1 ≤ depth) :
    Answers (blockStatements depth) mark ahead
  statement (mark : EndMark) (ahead : List Token) (enough : 2 * ahead.length + 3 ≤ depth) :
    Answers (statement depth) mark ahead

theorem ahead_length_le {Result : Type} {rule : Rule Result} (accountable : Accountable rule)
    {mark : EndMark} {ahead : List Token} {outcome : Outcome Result}
    (ran : rule mark ahead = some outcome) : outcome.ahead.length ≤ ahead.length :=
  (accountable mark ahead outcome ran).1.length_le

/-- A token that is not the end mark is one of those ahead. -/
theorem two_ahead_of_next {ahead : List Token} {mark : EndMark}
    (inside : (ahead.tail.headD mark.token).kind ≠ .endMark) : 2 ≤ ahead.length := by
  match ahead with
  | [] | [_] => exact absurd rfl inside
  | _ :: _ :: _ => simp

/-- What binds more strongly than anything is not the end mark. -/
theorem two_ahead_of_link {ahead : List Token} {mark : EndMark} {least : Precedence}
    (linked : least < Precedence.ofKind (ahead.tail.headD mark.token).kind) :
    2 ≤ ahead.length :=
  two_ahead_of_next (not_end_of_link linked)

theorem more_parameters_answer (depth : Nat) (mark : EndMark) (ahead : List Token)
    (enough : ahead.length + 1 ≤ depth) : Answers (moreParameters depth) mark ahead := by
  induction depth generalizing ahead with
  | zero => omega
  | succ depth induction =>
      rw [moreParameters]
      apply answers_peek
      split
      · next comma =>
          have long : 2 ≤ ahead.length := two_ahead_of_next (by rw [comma]; decide)
          apply answers_advance
          apply answers_expect
          intro _
          apply answers_current
          apply answers_bind
          · apply induction
            simp only [List.length_tail]
            omega
          · intro _ _ _ _
            exact answers_pure _
      · apply answers_expect
        intro _
        exact answers_pure _

theorem parameters_answer (depth : Nat) (mark : EndMark) (ahead : List Token)
    (enough : ahead.length + 1 ≤ depth) : Answers (parameters depth) mark ahead := by
  apply answers_peek
  split
  · apply answers_advance
    exact answers_pure _
  · apply answers_expect
    intro _
    apply answers_current
    apply answers_bind
    · apply more_parameters_answer
      simp only [List.length_tail]
      omega
    · intro _ _ _ _
      exact answers_pure _

section Suffices

variable {depth : Nat} (granted : Suffices depth) (mark : EndMark) (ahead : List Token)

include granted

theorem operand_answers (enough : 2 * ahead.length + 1 ≤ depth + 1) :
    Answers (operand (depth + 1)) mark ahead := by
  rw [operand]
  apply answers_current
  cases ahead with
  | nil => exact answers_fail_here _
  | cons token rest =>
      simp only [List.headD_cons, List.length_cons] at enough ⊢
      split
      case h_2 =>
        rw [integer]
        split
        · exact answers_pure _
        · exact answers_fail_here _
      case h_5 | h_6 =>
        apply answers_advance
        apply answers_bind (granted.expression _ _ _ (by simp only [List.tail_cons]; omega))
        intro _ _ _ _
        exact answers_pure _
      case h_7 =>
        apply answers_advance
        apply answers_bind (granted.expression _ _ _ (by simp only [List.tail_cons]; omega))
        intro _ _ _ _
        apply answers_expect
        intro _
        exact answers_pure _
      case h_8 => exact granted.conditional _ _ (by simp only [List.length_cons]; omega) (by omega)
      case h_9 =>
        apply answers_expect
        intro opened
        have long : 2 ≤ (token :: rest).length := two_ahead_of_next (by rw [opened]; decide)
        apply answers_bind (parameters_answer _ _ _ (by simp only [List.tail_cons]; omega))
        intro names reports afterNames ranNames
        have shorter := ahead_length_le (parameters_judged accountable_closed depth) ranNames
        apply answers_expect
        intro _
        simp only [List.tail_cons, List.length_cons] at shorter long
        apply answers_bind (granted.block _ _ (by simp only [List.length_tail]; omega))
        intro _ _ _ _
        exact answers_pure _
      case h_10 => exact answers_fail_here _
      all_goals exact answers_pure _

theorem links_answer (least : Precedence) (left : Expr)
    (enough : 2 * ahead.length + 1 ≤ depth + 1) :
    Answers (links least left (depth + 1)) mark ahead := by
  rw [links]
  apply answers_peek
  split
  · next linked =>
      have long := two_ahead_of_link linked
      apply answers_advance
      split
      · apply answers_advance
        apply answers_bind
          (granted.expression _ _ _ (by simp only [List.length_tail]; omega))
        intro right reports afterRight ranRight
        have shorter := ahead_length_le ((rules_account depth).expression _) ranRight
        simp only [List.length_tail] at shorter
        exact granted.links _ _ _ _ (by omega)
      · apply answers_bind
          (granted.arguments _ _ (by simp only [List.length_tail]; omega) (by omega))
        intro arguments reports afterArguments ranArguments
        have shorter := ahead_length_le (rules_account depth).arguments ranArguments
        simp only [List.length_tail] at shorter
        exact granted.links _ _ _ _ (by omega)
  · exact answers_pure _

theorem arguments_answer (enough : 2 * ahead.length + 1 ≤ depth + 1) (positive : 3 ≤ depth + 1) :
    Answers (arguments (depth + 1)) mark ahead := by
  rw [arguments]
  apply answers_peek
  apply answers_advance
  split
  · exact answers_pure _
  · apply answers_bind (granted.expression _ _ _ (by simp only [List.length_tail]; omega))
    intro first reports afterFirst ranFirst
    have shorter := ahead_length_le ((rules_account depth).expression _) ranFirst
    simp only [List.length_tail] at shorter
    apply answers_bind (granted.moreArguments _ _ (by omega))
    intro _ _ _ _
    exact answers_pure _

theorem more_arguments_answer (enough : 2 * ahead.length + 1 ≤ depth + 1) :
    Answers (moreArguments (depth + 1)) mark ahead := by
  rw [moreArguments]
  apply answers_peek
  split
  · next comma =>
      have long : 2 ≤ ahead.length := two_ahead_of_next (by rw [comma]; decide)
      apply answers_advance
      apply answers_advance
      apply answers_bind (granted.expression _ _ _ (by simp only [List.length_tail]; omega))
      intro first reports afterFirst ranFirst
      have shorter := ahead_length_le ((rules_account depth).expression _) ranFirst
      simp only [List.length_tail] at shorter
      apply answers_bind (granted.moreArguments _ _ (by omega))
      intro _ _ _ _
      exact answers_pure _
  · apply answers_expect
    intro _
    exact answers_pure _

theorem conditional_answers (enough : 2 * ahead.length ≤ depth + 1) :
    Answers (conditional (depth + 1)) mark ahead := by
  rw [conditional]
  apply answers_expect
  intro opened
  have long : 2 ≤ ahead.length := two_ahead_of_next (by rw [opened]; decide)
  apply answers_advance
  apply answers_bind (granted.expression _ _ _ (by simp only [List.length_tail]; omega))
  intro condition reports afterCondition ranCondition
  have shorter := ahead_length_le ((rules_account depth).expression _) ranCondition
  simp only [List.length_tail] at shorter
  apply answers_expect
  intro closed
  have inside : 2 ≤ afterCondition.length := two_ahead_of_next (by rw [closed]; decide)
  apply answers_expect
  intro _
  apply answers_bind (granted.block _ _ (by simp only [List.length_tail]; omega))
  intro consequence reports afterConsequence ranConsequence
  have shorterYet := ahead_length_le (rules_account depth).block ranConsequence
  simp only [List.length_tail] at shorterYet
  apply answers_peek
  split
  · apply answers_advance
    apply answers_expect
    intro _
    apply answers_bind (granted.block _ _ (by simp only [List.length_tail]; omega))
    intro _ _ _ _
    exact answers_pure _
  · exact answers_pure _

theorem block_answers (enough : 2 * ahead.length + 3 ≤ depth + 1) :
    Answers (block (depth + 1)) mark ahead := by
  rw [block]
  apply answers_advance
  apply granted.blockStatements
  · intro more
    have long := List.length_pos_iff.mpr more
    simp only [List.length_tail] at long ⊢
    omega
  · omega

theorem statement_answers (enough : 2 * ahead.length + 3 ≤ depth + 1) :
    Answers (statement (depth + 1)) mark ahead := by
  have finish (value : Expr) (make : Expr → Stmt) (rest : List Token) :
      Answers (do skip .semicolon; return make value) mark rest :=
    answers_skip fun _ => answers_pure _
  rw [statement]
  apply answers_current
  split
  · apply answers_expect
    intro _
    apply answers_current
    apply answers_expect
    intro _
    apply answers_advance
    apply answers_bind (granted.expression _ _ _ (by simp only [List.length_tail]; omega))
    intro value _ rest _
    exact finish value _ rest
  · apply answers_advance
    apply answers_bind (granted.expression _ _ _ (by simp only [List.length_tail]; omega))
    intro value _ rest _
    exact finish value _ rest
  · apply answers_bind (granted.expression _ _ _ (by omega))
    intro value _ rest _
    exact finish value _ rest

end Suffices

/-- On the brace that closes it a block needs no depth to speak of. -/
theorem closed_block_answers (depth : Nat) (mark : EndMark) (close : Token) (rest : List Token)
    (brace : close.kind = .rightBrace) (positive : 1 ≤ depth) :
    Answers (blockStatements depth) mark (close :: rest) := by
  obtain ⟨depth, rfl⟩ := Nat.exists_eq_add_of_le' positive
  rw [blockStatements]
  apply answers_current
  rw [List.headD_cons, if_pos brace]
  exact answers_pure _

theorem block_statements_answer {depth : Nat} (granted : Suffices depth) (mark : EndMark)
    (ahead : List Token) (enough : ahead ≠ [] → 2 * ahead.length + 4 ≤ depth + 1) :
    Answers (blockStatements (depth + 1)) mark ahead := by
  rw [blockStatements]
  apply answers_current
  cases ahead with
  | nil => exact answers_fail_here _
  | cons token rest =>
      have roomy := enough (List.cons_ne_nil token rest)
      simp only [List.length_cons] at roomy
      have later (after : List Token) (bounded : after.length ≤ rest.length + 1) :
          Answers (blockStatements depth) mark after.tail := by
        refine granted.blockStatements _ _ (fun more => ?_) (by omega)
        have long := List.length_pos_iff.mpr more
        simp only [List.length_tail] at long ⊢
        omega
      split
      · exact answers_pure _
      · split
        · exact answers_fail_here _
        · apply answers_remaining
          apply answers_bind
            (answers_attempt (granted.statement _ _ (by simp only [List.length_cons]; omega)))
          intro read reports after ranStatement
          have shorter :=
            ahead_length_le (accountable_attempt (rules_account depth).statement) ranStatement
          simp only [List.length_cons] at shorter
          cases read with
          | some first =>
              apply answers_advance
              apply answers_bind (later after shorter)
              intro _ _ _ _
              exact answers_pure _
          | none =>
              apply answers_bind ⟨_, rfl⟩
              intro closed _ stop ranRecover
              have stopShorter :=
                ahead_length_le (accountable_recover (token :: rest)) ranRecover
              cases ranRecover
              split
              · next isClosed =>
                  obtain ⟨close, behind, stopped, brace⟩ :=
                    Recovery.skip_from_closed _ _ isClosed
                  rw [stopped]
                  exact closed_block_answers depth mark close behind brace (by omega)
              · apply answers_advance
                exact later _ (Nat.le_trans stopShorter shorter)

theorem rules_suffice (depth : Nat) : Suffices depth := by
  induction depth with
  | zero => constructor <;> intros <;> omega
  | succ depth granted =>
      refine
        { expression := fun least mark ahead enough => ?_
          operand := operand_answers granted
          links := fun least left mark ahead => links_answer granted mark ahead least left
          arguments := arguments_answer granted
          moreArguments := more_arguments_answer granted
          conditional := fun mark ahead enough _ => conditional_answers granted mark ahead enough
          block := block_answers granted
          blockStatements := fun mark ahead enough _ =>
            block_statements_answer granted mark ahead enough
          statement := statement_answers granted }
      rw [expression]
      apply answers_bind (granted.operand _ _ (by omega))
      intro left reports rest ranOperand
      have shorter := ahead_length_le (rules_account depth).operand ranOperand
      exact granted.links _ _ _ _ (by simp only at shorter; omega)

theorem program_answers (depth : Nat) (mark : EndMark) (ahead : List Token)
    (enough : 2 * ahead.length + 4 ≤ depth) : Answers (program depth) mark ahead := by
  induction depth generalizing ahead with
  | zero => omega
  | succ depth induction =>
      rw [program]
      apply answers_current
      cases ahead with
      | nil => exact answers_pure _
      | cons token rest =>
          simp only [List.length_cons] at enough
          split
          · exact answers_pure _
          · apply answers_remaining
            apply answers_bind
              (answers_attempt ((rules_suffice depth).statement _ _
                (by simp only [List.length_cons]; omega)))
            intro read reports after ranStatement
            have shorter :=
              ahead_length_le (accountable_attempt (rules_account depth).statement) ranStatement
            simp only [List.length_cons] at shorter
            cases read with
            | some first =>
                apply answers_advance
                apply answers_bind (induction _ (by simp only [List.length_tail]; omega))
                intro _ _ _ _
                exact answers_pure _
            | none =>
                apply answers_bind ⟨_, rfl⟩
                intro closed _ stop ranRecover
                have stopShorter :=
                  ahead_length_le (accountable_recover (token :: rest)) ranRecover
                cases ranRecover
                apply answers_advance
                exact induction _ (by simp only [List.length_tail] at stopShorter ⊢; omega)

theorem program_extends {shallow deep : Nat} (deeper : shallow ≤ deep) :
    Extends (program shallow) (program deep) := extends_deeper program_deepens deeper

/-- A program read with any depth is read with the depth that a reader grants. -/
theorem program_at_call_depth {depth : Nat} {mark : EndMark} {ahead : List Token}
    {outcome : Outcome Program} (ran : program depth mark ahead = some outcome) :
    program (Reader.callDepth ahead.length) mark ahead = some outcome := by
  obtain ⟨other, answered⟩ :=
    program_answers (Reader.callDepth ahead.length) mark ahead (Nat.le_refl _)
  rw [answered, outcome_unique program_deepens ran answered]

end Scriptlet.Grammar

namespace Scriptlet.Reader

theorem of_tokens_ended (tokens : List Token) (ended : Token) (isMark : ended.kind = .endMark) :
    ofTokens (tokens ++ [ended]) = ⟨⟨ended.slice, ended.span⟩, tokens, []⟩ := by
  simp [ofTokens, isMark]

theorem of_tokens_fresh (tokens : List Token) : (ofTokens tokens).reports = [] := by
  rw [ofTokens]
  split
  · rfl
  · split <;> rfl

/-- What is read from a list of tokens is the outcome of reading a program at any depth. -/
theorem read_tokens_of_outcome {tokens : List Token} {depth : Nat} {outcome : Outcome Program}
    (ran : Grammar.program depth (ofTokens tokens).endMark (ofTokens tokens).ahead =
      some outcome) :
    readTokens tokens = (outcome.result.getD [], outcome.reports) := by
  have granted := Grammar.program_at_call_depth ran
  simp only [readTokens, program, apply, granted, of_tokens_fresh, List.nil_append]

end Scriptlet.Reader
