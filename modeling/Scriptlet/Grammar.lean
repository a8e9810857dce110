import Scriptlet.Grammar.Precedence
import Scriptlet.Grammar.Recovery
import Scriptlet.Text.Decimal

/-!
The rules of the grammar. An expression is an operand followed by links that bind at least as
strongly as its place demands: operators with a right operand, and calls. Statements that fail
inside a program or a block are recovered from and left out; everything else that fails fails as a
whole.
-/

namespace Scriptlet

open Text Rule

namespace Grammar

def moreParameters : Nat → Rule (List String)
  | 0 => tooDeep
  | depth + 1 => do
      let next ← peek
      if next.kind = .comma then
        advance
        expect .identifier
        let name ← current
        let names ← moreParameters depth
        return name.slice :: names
      else
        expect .rightParen
        return []

def parameters (depth : Nat) : Rule (List String) := do
  let next ← peek
  if next.kind = .rightParen then
    advance
    return []
  else
    expect .identifier
    let name ← current
    let names ← moreParameters depth
    return name.slice :: names

def integer (token : Token) : Rule Expr :=
  match Decimal.read? token.slice with
  | some value => succeed (.int value)
  | none => failHere (.badInteger token.slice)

mutual

/-- An expression whose links all bind more strongly than `least`. -/
def expression (least : Precedence) : Nat → Rule Expr
  | 0 => tooDeep
  | depth + 1 => do
      let left ← operand depth
      links least left depth

def operand : Nat → Rule Expr
  | 0 => tooDeep
  | depth + 1 => do
      let token ← current
      match token.kind with
      | .identifier => return .name token.slice
      | .integer => integer token
      | .trueWord => return .bool true
      | .falseWord => return .bool false
      | .bang =>
          advance
          let inner ← expression .unary depth
          return .unary .not inner
      | .minus =>
          advance
          let inner ← expression .unary depth
          return .unary .negate inner
      | .leftParen =>
          advance
          let inner ← expression .lowest depth
          expect .rightParen
          return inner
      | .ifWord => conditional depth
      | .fnWord =>
          expect .leftParen
          let names ← parameters depth
          expect .leftBrace
          let body ← block depth
          return .function names body
      | _ => failHere (.noRule token)

def links (least : Precedence) (left : Expr) : Nat → Rule Expr
  | 0 => tooDeep
  | depth + 1 => do
      let next ← peek
      if least < Precedence.ofKind next.kind then
        advance
        match BinaryOp.ofKind? next.kind with
        | some op =>
            advance
            let right ← expression (Precedence.ofKind next.kind) depth
            links least (.binary left op right) depth
        | none =>
            let arguments ← arguments depth
            links least (.call left arguments) depth
      else
        return left

def arguments : Nat → Rule (List Expr)
  | 0 => tooDeep
  | depth + 1 => do
      let next ← peek
      advance
      if next.kind = .rightParen then
        return []
      else
        let first ← expression .lowest depth
        let rest ← moreArguments depth
        return first :: rest

def moreArguments : Nat → Rule (List Expr)
  | 0 => tooDeep
  | depth + 1 => do
      let next ← peek
      if next.kind = .comma then
        advance
        advance
        let first ← expression .lowest depth
        let rest ← moreArguments depth
        return first :: rest
      else
        expect .rightParen
        return []

def conditional : Nat → Rule Expr
  | 0 => tooDeep
  | depth + 1 => do
      expect .leftParen
      advance
      let condition ← expression .lowest depth
      expect .rightParen
      expect .leftBrace
      let consequence ← block depth
      let next ← peek
      if next.kind = .elseWord then
        advance
        expect .leftBrace
        let alternative ← block depth
        return .ifElse condition consequence alternative
      else
        return .ifThen condition consequence

def block : Nat → Rule Block
  | 0 => tooDeep
  | depth + 1 => do
      advance
      blockStatements depth

def blockStatements : Nat → Rule Block
  | 0 => tooDeep
  | depth + 1 => do
      let token ← current
      if token.kind = .rightBrace then
        return []
      else if token.kind = .endMark then
        failHere (.unexpected .rightBrace token)
      else
        let start ← remaining
        let read ← attempt (statement depth)
        match read with
        | some first =>
            advance
            let rest ← blockStatements depth
            return first :: rest
        | none =>
            let closed ← recover start
            if closed then
              blockStatements depth
            else
              advance
              blockStatements depth

def statement : Nat → Rule Stmt
  | 0 => tooDeep
  | depth + 1 => do
      let token ← current
      match token.kind with
      | .letWord =>
          expect .identifier
          let name ← current
          expect .equal
          advance
          let value ← expression .lowest depth
          skip .semicolon
          return .bind name.slice value
      | .returnWord =>
          advance
          let value ← expression .lowest depth
          skip .semicolon
          return .return value
      | _ =>
          let value ← expression .lowest depth
          skip .semicolon
          return .expr value

end

def program : Nat → Rule Program
  | 0 => tooDeep
  | depth + 1 => do
      let token ← current
      if token.kind = .endMark then
        return []
      else
        let start ← remaining
        let read ← attempt (statement depth)
        match read with
        | some first =>
            advance
            let rest ← program depth
            return first :: rest
        | none =>
            let _ ← recover start
            advance
            program depth

end Grammar

end Scriptlet
