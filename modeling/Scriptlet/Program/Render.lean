import Scriptlet.Program
import Scriptlet.Text.Decimal

/-!
The canonical text of a program. Operators stand in parentheses of their own, so the text shows how
the tree was built; a condition and a callee stand bare.
-/

namespace Scriptlet

open Text

def renderBraces (statements : List String) : String :=
  if statements.isEmpty then "\x7b \x7d" else "\x7b " ++ " ".intercalate statements ++ " \x7d"

mutual

def Expr.render : Expr → String
  | .name name => name
  | .int value => Decimal.write value
  | .bool value => if value then "true" else "false"
  | .unary op operand => "(" ++ op.symbol ++ operand.render ++ ")"
  | .binary left op right => "(" ++ left.render ++ " " ++ op.symbol ++ " " ++ right.render ++ ")"
  | .ifThen condition consequence =>
      "if " ++ condition.render ++ " " ++ renderBraces (renderStatements consequence)
  | .ifElse condition consequence alternative =>
      "if " ++ condition.render ++ " " ++ renderBraces (renderStatements consequence) ++
        " else " ++ renderBraces (renderStatements alternative)
  | .function parameters body =>
      "fn(" ++ ", ".intercalate parameters ++ ") " ++ renderBraces (renderStatements body)
  | .call callee arguments =>
      callee.render ++ "(" ++ ", ".intercalate (renderExpressions arguments) ++ ")"

def Stmt.render : Stmt → String
  | .bind name value => "let " ++ name ++ " = " ++ value.render ++ ";"
  | .return value => "return " ++ value.render ++ ";"
  | .expr value => value.render

def renderExpressions : List Expr → List String
  | [] => []
  | first :: rest => first.render :: renderExpressions rest

def renderStatements : List Stmt → List String
  | [] => []
  | first :: rest => first.render :: renderStatements rest

end

def renderBlock (block : Block) : String := renderBraces (renderStatements block)

/-- A program's statements are written one behind the other with nothing between them. -/
def renderProgram (program : Program) : String := "".intercalate (renderStatements program)

end Scriptlet
