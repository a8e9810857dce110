import Scriptlet.Proofs.Rule.Run

/-!
Scripts of rules. A script says what a rule does, one action after another: what it looks at, where
it moves on, which reports it makes and which other rules it calls. Every rule of the grammar runs
as its script does, so what is shown of scripts, action by action, is shown of the rules.
-/

namespace Scriptlet.Grammar

open Rule

inductive Call where
  | moreParameters
  | expression (least : Precedence)
  | operand
  | links (least : Precedence) (left : Expr)
  | arguments
  | moreArguments
  | conditional
  | block
  | blockStatements
  | statement
  | program

namespace Call

abbrev Result : Call → Type
  | moreParameters => List String
  | expression _ | operand | links _ _ | conditional => Expr
  | arguments | moreArguments => List Expr
  | block | blockStatements => Block
  | statement => Stmt
  | program => Program

def rule : (call : Call) → Nat → Rule call.Result
  | moreParameters => Grammar.moreParameters
  | expression least => Grammar.expression least
  | operand => Grammar.operand
  | links least left => Grammar.links least left
  | arguments => Grammar.arguments
  | moreArguments => Grammar.moreArguments
  | conditional => Grammar.conditional
  | block => Grammar.block
  | blockStatements => Grammar.blockStatements
  | statement => Grammar.statement
  | program => Grammar.program

end Call

inductive Script (Result : Type) where
  | done (result : Result)
  | failHere (error : SyntaxError)
  | failNext (error : SyntaxError)
  | current (next : Token → Script Result)
  | peek (next : Token → Script Result)
  | advance (next : Script Result)
  | remaining (next : List Token → Script Result)
  | recover (start : List Token) (next : Bool → Script Result)
  | call (callee : Call) (next : callee.Result → Script Result)
  /-- Goes on whether or not a statement can be read. -/
  | attempt (next : Option Stmt → Script Result)

namespace Script

variable {Result : Type}

def expect (kind : TokenKind) (next : Script Result) : Script Result :=
  .peek fun token =>
    if token.kind = kind then .advance next else .failNext (.unexpected kind token)

def skip (kind : TokenKind) (next : Script Result) : Script Result :=
  .peek fun token => if token.kind = kind then .advance next else next

def parameters (next : List String → Script Result) : Script Result :=
  .peek fun token =>
    if token.kind = .rightParen then .advance (next [])
    else expect .identifier <| .current fun name =>
      .call .moreParameters fun names => next (name.slice :: names)

def value (make : Expr → Stmt) : Script Stmt :=
  .call (.expression .lowest) fun value => skip .semicolon (.done (make value))

def prefixed (op : UnaryOp) : Script Expr :=
  .advance (.call (.expression .unary) fun inner => .done (.unary op inner))

/-- What a rule does whose calls are carried out by these rules. -/
@[simp]
def run (rules : (call : Call) → Rule call.Result) : Script Result → Rule Result
  | done result => pure result
  | failHere error => Rule.failHere error
  | failNext error => Rule.failNext error
  | current next => do
      let token ← Rule.current
      (next token).run rules
  | peek next => do
      let token ← Rule.peek
      (next token).run rules
  | advance next => do
      Rule.advance
      next.run rules
  | remaining next => do
      let ahead ← Rule.remaining
      (next ahead).run rules
  | recover start next => do
      let closed ← Scriptlet.recover start
      (next closed).run rules
  | call callee next => do
      let result ← rules callee
      (next result).run rules
  | attempt next => do
      let read ← Rule.attempt (rules .statement)
      (next read).run rules

end Script

open Script in
@[simp]
def Call.script : (call : Call) → Script call.Result
  | moreParameters =>
      .peek fun token =>
        if token.kind = .comma then
          .advance <| expect .identifier <| .current fun name =>
            .call moreParameters fun names => .done (name.slice :: names)
        else expect .rightParen (.done [])
  | expression least => .call operand fun left => .call (links least left) .done
  | operand =>
      .current fun token =>
        match token.kind with
        | .identifier => .done (.name token.slice)
        | .integer =>
            match Text.Decimal.read? token.slice with
            | some value => .done (.int value)
            | none => .failHere (.badInteger token.slice)
        | .trueWord => .done (.bool true)
        | .falseWord => .done (.bool false)
        | .bang => prefixed .not
        | .minus => prefixed .negate
        | .leftParen =>
            .advance <| .call (expression .lowest) fun inner =>
              expect .rightParen (.done inner)
        | .ifWord => .call conditional .done
        | .fnWord =>
            expect .leftParen <| Script.parameters fun names => expect .leftBrace <|
              .call block fun body => .done (.function names body)
        | _ => .failHere (.noRule token)
  | links least left =>
      .peek fun token =>
        if least < Precedence.ofKind token.kind then
          .advance <|
            match BinaryOp.ofKind? token.kind with
            | some op =>
                .advance <| .call (expression (Precedence.ofKind token.kind)) fun right =>
                  .call (links least (.binary left op right)) .done
            | none =>
                .call arguments fun values => .call (links least (.call left values)) .done
        else .done left
  | arguments =>
      .peek fun token => .advance <|
        if token.kind = .rightParen then .done []
        else .call (expression .lowest) fun first =>
          .call moreArguments fun rest => .done (first :: rest)
  | moreArguments =>
      .peek fun token =>
        if token.kind = .comma then
          .advance <| .advance <| .call (expression .lowest) fun first =>
            .call moreArguments fun rest => .done (first :: rest)
        else expect .rightParen (.done [])
  | conditional =>
      expect .leftParen <| .advance <| .call (expression .lowest) fun condition =>
        expect .rightParen <| expect .leftBrace <| .call block fun consequence =>
          .peek fun token =>
            if token.kind = .elseWord then
              .advance <| expect .leftBrace <| .call block fun alternative =>
                .done (.ifElse condition consequence alternative)
            else .done (.ifThen condition consequence)
  | block => .advance (.call blockStatements .done)
  | blockStatements =>
      .current fun token =>
        if token.kind = .rightBrace then .done []
        else if token.kind = .endMark then .failHere (.unexpected .rightBrace token)
        else .remaining fun start => .attempt fun
          | some first => .advance <| .call blockStatements fun rest => .done (first :: rest)
          | none => .recover start fun closed =>
              if closed then .call blockStatements .done
              else .advance (.call blockStatements .done)
  | statement =>
      .current fun token =>
        match token.kind with
        | .letWord =>
            expect .identifier <| .current fun name => expect .equal <| .advance <|
              value (.bind name.slice)
        | .returnWord => .advance (value .return)
        | _ => value .expr
  | program =>
      .current fun token =>
        if token.kind = .endMark then .done []
        else .remaining fun start => .attempt fun
          | some first => .advance <| .call program fun rest => .done (first :: rest)
          | none => .recover start fun _ => .advance (.call program .done)

section Runs

variable {Result Next : Type} (rules : (call : Call) → Rule call.Result)

theorem run_ite (condition : Prop) [Decidable condition] (script other : Script Result) :
    (if condition then script else other).run rules =
      if condition then script.run rules else other.run rules := by
  split <;> rfl

theorem run_expect_script (kind : TokenKind) (next : Script Result) :
    (Script.expect kind next).run rules = Rule.expect kind >>= fun _ => next.run rules := by
  rw [Script.expect, Script.run, Rule.expect, then_assoc]
  congr 1
  funext token
  split
  · rfl
  · funext mark ahead
    exact (and_then_failed _ _ _ _ _ _ rfl).symm

theorem run_skip_script (kind : TokenKind) (next : Script Result) :
    (Script.skip kind next).run rules = Rule.skip kind >>= fun _ => next.run rules := by
  rw [Script.skip, Script.run, Rule.skip, then_assoc]
  congr 1
  funext token
  split
  · rfl
  · rw [← pure_eq_succeed, pure_then]

end Runs

section Depth

variable {Result : Type} (depth : Nat)

theorem run_parameters_script (next : List String → Script Result) :
    (Script.parameters next).run (fun callee => callee.rule depth) =
      parameters depth >>= fun names => (next names).run fun callee => callee.rule depth := by
  rw [Script.parameters, Script.run, parameters, then_assoc]
  congr 1
  funext token
  rw [run_ite, run_expect_script]
  split
  · simp only [Script.run, then_assoc, pure_then]
  · simp only [Script.run, then_assoc, pure_then]
    rfl

theorem run_value_script (make : Expr → Stmt) :
    (Script.value make).run (fun callee => callee.rule depth) = do
      let value ← expression .lowest depth
      Rule.skip .semicolon
      return make value := by
  simp only [Script.value, Script.run, run_skip_script]
  rfl

theorem run_operand_script :
    Call.operand.script.run (fun callee => callee.rule depth) = operand (depth + 1) := by
  rw [operand, Call.script, Script.run]
  congr 1
  funext token
  cases token.kind <;> simp only [Script.run, run_expect_script, run_parameters_script, then_pure]
  case integer =>
    rw [integer.eq_def]
    cases Text.Decimal.read? token.slice <;> rfl
  all_goals rfl

theorem run_links_script (least : Precedence) (left : Expr) :
    (Call.links least left).script.run (fun callee => callee.rule depth) =
      links least left (depth + 1) := by
  rw [links, Call.script, Script.run]
  congr 1
  funext token
  rw [run_ite, Script.run]
  cases BinaryOp.ofKind? token.kind <;> simp only [Script.run, then_pure] <;> rfl

/-- What follows a statement is told apart by whether one was read, in scripts as in rules. -/
theorem run_attempt_script {Result : Type} {kept : Stmt → Script Result} {left : Script Result}
    {rule : Option Stmt → Rule Result}
    (some : ∀ first, (kept first).run (fun callee => callee.rule depth) = rule (some first))
    (none : left.run (fun callee => callee.rule depth) = rule none) :
    (Script.attempt fun
      | .some first => kept first
      | .none => left).run (fun callee => callee.rule depth) =
      attempt (statement depth) >>= rule := by
  rw [Script.run]
  refine congrArg _ (funext fun read => ?_)
  cases read with
  | some first => exact some first
  | none => exact none

theorem run_block_statements_script :
    Call.blockStatements.script.run (fun callee => callee.rule depth) =
      blockStatements (depth + 1) := by
  rw [blockStatements, Call.script, Script.run]
  congr 1
  funext token
  rw [run_ite, run_ite, Script.run]
  congr 2
  refine congrArg _ (funext fun start => run_attempt_script depth (fun first => rfl) ?_)
  simp only [Script.run, run_ite, then_pure]
  rfl

theorem run_statement_script :
    Call.statement.script.run (fun callee => callee.rule depth) = statement (depth + 1) := by
  rw [statement, Call.script, Script.run]
  congr 1
  funext token
  cases token.kind <;> simp only [Script.run, run_expect_script, run_value_script]

theorem run_program_script :
    Call.program.script.run (fun callee => callee.rule depth) = program (depth + 1) := by
  rw [program, Call.script, Script.run]
  congr 1
  funext token
  rw [run_ite, Script.run]
  congr 1
  refine congrArg _ (funext fun start => run_attempt_script depth (fun first => rfl) ?_)
  simp only [Script.run, then_pure]
  rfl

end Depth

/-- A rule runs as its script does, the rules that it calls having one level of depth less. -/
theorem script_runs (call : Call) (depth : Nat) :
    call.script.run (fun callee => callee.rule depth) = call.rule (depth + 1) := by
  cases call with
  | operand => exact run_operand_script depth
  | links least left => exact run_links_script depth least left
  | blockStatements => exact run_block_statements_script depth
  | statement => exact run_statement_script depth
  | program => exact run_program_script depth
  | _ =>
      simp only [Call.script, Script.run, run_ite, run_expect_script, then_pure]
      rfl

end Scriptlet.Grammar
