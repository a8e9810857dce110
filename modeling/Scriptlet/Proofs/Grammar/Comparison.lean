import Scriptlet.Proofs.Rule.Run

/-!
Comparing two runs over the grammar, at two depths and with two views of the same tokens. A
comparison that is kept by the ways in which rules are put together goes from the rules of two
depths to the rules of the next two.
-/

namespace Scriptlet.Grammar

open Rule

/-- The comparison is kept when rules are put together. The second of two rules sees each token as
`view` shows it, with its kind and its slice. -/
structure Compares (related : {Result : Type} → Rule Result → Rule Result → Prop)
    (view : Token → Token) : Prop where
  kind (token : Token) : (view token).kind = token.kind
  slice (token : Token) : (view token).slice = token.slice
  pure {Result : Type} (result : Result) : related (pure result) (pure result)
  bind {Result Next : Type} {rule other : Rule Result} {next otherNext : Result → Rule Next} :
    related rule other → (∀ result, related (next result) (otherNext result)) →
      related (rule >>= next) (other >>= otherNext)
  attempt {Result : Type} {rule other : Rule Result} : related rule other →
    related (attempt rule) (attempt other)
  current {Result : Type} {next otherNext : Token → Rule Result} :
    (∀ token, related (next token) (otherNext (view token))) →
      related (current >>= next) (current >>= otherNext)
  peek {Result : Type} {next otherNext : Token → Rule Result} :
    (∀ token, related (next token) (otherNext (view token))) →
      related (peek >>= next) (peek >>= otherNext)
  remaining {Result : Type} {next otherNext : List Token → Rule Result} :
    (∀ tokens, related (next tokens) (otherNext (tokens.map view))) →
      related (remaining >>= next) (remaining >>= otherNext)
  advance : related advance advance
  recover (start : List Token) : related (recover start) (recover (start.map view))
  unexpectedNext (kind : TokenKind) (token : Token) :
    related (failNext (.unexpected kind token) : Rule Unit)
      (failNext (.unexpected kind (view token)))
  unexpectedHere (kind : TokenKind) (token : Token) :
    related (failHere (.unexpected kind token) : Rule Block)
      (failHere (.unexpected kind (view token)))
  noRule (token : Token) :
    related (failHere (.noRule token) : Rule Expr) (failHere (.noRule (view token)))
  badInteger (literal : String) :
    related (failHere (.badInteger literal) : Rule Expr) (failHere (.badInteger literal))

structure ComparedAt (related : {Result : Type} → Rule Result → Rule Result → Prop)
    (depth other : Nat) : Prop where
  moreParameters : related (moreParameters depth) (moreParameters other)
  expression (least : Precedence) : related (expression least depth) (expression least other)
  operand : related (operand depth) (operand other)
  links (least : Precedence) (left : Expr) :
    related (links least left depth) (links least left other)
  arguments : related (arguments depth) (arguments other)
  moreArguments : related (moreArguments depth) (moreArguments other)
  conditional : related (conditional depth) (conditional other)
  block : related (block depth) (block other)
  blockStatements : related (blockStatements depth) (blockStatements other)
  statement : related (statement depth) (statement other)
  program : related (program depth) (program other)

section Compares

variable {related : {Result : Type} → Rule Result → Rule Result → Prop} {view : Token → Token}
  (compares : Compares related view)

include compares

theorem expect_compares (kind : TokenKind) : related (expect kind) (expect kind) := by
  refine compares.peek fun token => ?_
  rw [compares.kind]
  split
  · exact compares.advance
  · exact compares.unexpectedNext kind token

theorem skip_compares (kind : TokenKind) : related (skip kind) (skip kind) := by
  refine compares.peek fun token => ?_
  rw [compares.kind]
  split
  · exact compares.advance
  · exact compares.pure ()

theorem integer_compares (token : Token) : related (integer token) (integer (view token)) := by
  rw [integer, integer, compares.slice]
  split
  · exact compares.pure _
  · exact compares.badInteger token.slice

section ComparedAt

variable {depth other : Nat} (rules : ComparedAt related depth other)

include rules

theorem more_parameters_compare :
    related (moreParameters (depth + 1)) (moreParameters (other + 1)) := by
  rw [moreParameters, moreParameters]
  refine compares.peek fun token => ?_
  rw [compares.kind]
  split
  · refine compares.bind compares.advance fun _ =>
      compares.bind (expect_compares compares _) fun _ => compares.current fun token => ?_
    rw [compares.slice]
    exact compares.bind rules.moreParameters fun _ => compares.pure _
  · exact compares.bind (expect_compares compares _) fun _ => compares.pure _

theorem parameters_compare : related (parameters depth) (parameters other) := by
  refine compares.peek fun token => ?_
  rw [compares.kind]
  split
  · exact compares.bind compares.advance fun _ => compares.pure _
  · refine compares.bind (expect_compares compares _) fun _ => compares.current fun token => ?_
    rw [compares.slice]
    exact compares.bind rules.moreParameters fun _ => compares.pure _

theorem operand_compares : related (operand (depth + 1)) (operand (other + 1)) := by
  have unary (op : UnaryOp) : related
      (do advance; let inner ← expression .unary depth; return Expr.unary op inner)
      (do advance; let inner ← expression .unary other; return Expr.unary op inner) :=
    compares.bind compares.advance fun _ =>
      compares.bind (rules.expression _) fun _ => compares.pure _
  rw [operand, operand]
  refine compares.current fun token => ?_
  rw [compares.kind, compares.slice]
  cases token.kind with
  | identifier | trueWord | falseWord => exact compares.pure _
  | integer => exact integer_compares compares token
  | bang => exact unary .not
  | minus => exact unary .negate
  | leftParen =>
      exact compares.bind compares.advance fun _ => compares.bind (rules.expression _) fun _ =>
        compares.bind (expect_compares compares _) fun _ => compares.pure _
  | ifWord => exact rules.conditional
  | fnWord =>
      exact compares.bind (expect_compares compares _) fun _ =>
        compares.bind (parameters_compare compares rules) fun _ =>
        compares.bind (expect_compares compares _) fun _ => compares.bind rules.block fun _ =>
        compares.pure _
  | _ => exact compares.noRule token

theorem links_compare (least : Precedence) (left : Expr) :
    related (links least left (depth + 1)) (links least left (other + 1)) := by
  rw [links, links]
  refine compares.peek fun token => ?_
  rw [compares.kind]
  split
  · refine compares.bind compares.advance fun _ => ?_
    split
    · exact compares.bind compares.advance fun _ =>
        compares.bind (rules.expression _) fun _ => rules.links _ _
    · exact compares.bind rules.arguments fun _ => rules.links _ _
  · exact compares.pure _

theorem arguments_compare : related (arguments (depth + 1)) (arguments (other + 1)) := by
  rw [arguments, arguments]
  refine compares.peek fun token => compares.bind compares.advance fun _ => ?_
  rw [compares.kind]
  split
  · exact compares.pure _
  · exact compares.bind (rules.expression _) fun _ =>
      compares.bind rules.moreArguments fun _ => compares.pure _

theorem more_arguments_compare :
    related (moreArguments (depth + 1)) (moreArguments (other + 1)) := by
  rw [moreArguments, moreArguments]
  refine compares.peek fun token => ?_
  rw [compares.kind]
  split
  · exact compares.bind compares.advance fun _ => compares.bind compares.advance fun _ =>
      compares.bind (rules.expression _) fun _ =>
      compares.bind rules.moreArguments fun _ => compares.pure _
  · exact compares.bind (expect_compares compares _) fun _ => compares.pure _

theorem conditional_compares : related (conditional (depth + 1)) (conditional (other + 1)) := by
  rw [conditional, conditional]
  refine compares.bind (expect_compares compares _) fun _ =>
    compares.bind compares.advance fun _ => compares.bind (rules.expression _) fun _ =>
    compares.bind (expect_compares compares _) fun _ =>
    compares.bind (expect_compares compares _) fun _ => compares.bind rules.block fun _ =>
    compares.peek fun token => ?_
  rw [compares.kind]
  split
  · exact compares.bind compares.advance fun _ =>
      compares.bind (expect_compares compares _) fun _ =>
      compares.bind rules.block fun _ => compares.pure _
  · exact compares.pure _

theorem block_statements_compare :
    related (blockStatements (depth + 1)) (blockStatements (other + 1)) := by
  rw [blockStatements, blockStatements]
  refine compares.current fun token => ?_
  rw [compares.kind]
  split
  · exact compares.pure _
  · split
    · exact compares.unexpectedHere _ token
    · refine compares.remaining fun start =>
        compares.bind (compares.attempt rules.statement) fun read => ?_
      cases read with
      | some first =>
          exact compares.bind compares.advance fun _ =>
            compares.bind rules.blockStatements fun _ => compares.pure _
      | none =>
          refine compares.bind (compares.recover start) fun closed => ?_
          split
          · exact rules.blockStatements
          · exact compares.bind compares.advance fun _ => rules.blockStatements

theorem statement_compares : related (statement (depth + 1)) (statement (other + 1)) := by
  have finish (make : Expr → Stmt) : related
      (do let value ← expression .lowest depth; skip .semicolon; return make value)
      (do let value ← expression .lowest other; skip .semicolon; return make value) :=
    compares.bind (rules.expression _) fun _ =>
      compares.bind (skip_compares compares _) fun _ => compares.pure _
  rw [statement, statement]
  refine compares.current fun token => ?_
  rw [compares.kind]
  cases token.kind with
  | letWord =>
      refine compares.bind (expect_compares compares _) fun _ => compares.current fun name => ?_
      rw [compares.slice]
      exact compares.bind (expect_compares compares _) fun _ =>
        compares.bind compares.advance fun _ => finish (.bind name.slice)
  | returnWord => exact compares.bind compares.advance fun _ => finish .return
  | _ => exact finish .expr

theorem program_compares : related (program (depth + 1)) (program (other + 1)) := by
  rw [program, program]
  refine compares.current fun token => ?_
  rw [compares.kind]
  split
  · exact compares.pure _
  · refine compares.remaining fun start =>
      compares.bind (compares.attempt rules.statement) fun read => ?_
    cases read with
    | some first =>
        exact compares.bind compares.advance fun _ =>
          compares.bind rules.program fun _ => compares.pure _
    | none =>
        exact compares.bind (compares.recover start) fun _ =>
          compares.bind compares.advance fun _ => rules.program

theorem rules_compare : ComparedAt related (depth + 1) (other + 1) where
  moreParameters := more_parameters_compare compares rules
  expression least := compares.bind rules.operand fun left => rules.links least left
  operand := operand_compares compares rules
  links := links_compare compares rules
  arguments := arguments_compare compares rules
  moreArguments := more_arguments_compare compares rules
  conditional := conditional_compares compares rules
  block := compares.bind compares.advance fun _ => rules.blockStatements
  blockStatements := block_statements_compare compares rules
  statement := statement_compares compares rules
  program := program_compares compares rules

end ComparedAt

end Compares

end Scriptlet.Grammar
