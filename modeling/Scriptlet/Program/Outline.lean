import Scriptlet.Program
import Scriptlet.Text.Decimal

/-!
The outline of a program spells its tree out, each node by name. Names hold letters, digits and
underscores only, so they are quoted as they are.
-/

namespace Scriptlet

open Text

def outlineNode (name : String) (parts : List (String × String)) : String :=
  name ++ " \x7b " ++ ", ".intercalate (parts.map fun (label, part) => label ++ ": " ++ part) ++
    " \x7d"

def outlineList (items : List String) : String := "[" ++ ", ".intercalate items ++ "]"

def outlineQuoted (text : String) : String := "\"" ++ text ++ "\""

def outlineName (name : String) : String := "Identifier(" ++ outlineQuoted name ++ ")"

def outlineNames (names : List String) : String := outlineList (names.map outlineName)

def UnaryOp.outline : UnaryOp → String
  | .not => "Not"
  | .negate => "Negate"

def BinaryOp.outline : BinaryOp → String
  | .add => "Add"
  | .subtract => "Subtract"
  | .multiply => "Multiply"
  | .divide => "Divide"
  | .less => "Less"
  | .greater => "Greater"
  | .equal => "Equal"
  | .notEqual => "NotEqual"

def outlineStatementList (statements : List String) : String :=
  outlineNode "BlockStatement" [("statements", outlineList statements)]

mutual

def Expr.outline : Expr → String
  | .name name => "Identifier(" ++ outlineName name ++ ")"
  | .int value => "Integer(" ++ Decimal.write value ++ ")"
  | .bool value => "Boolean(" ++ (if value then "true" else "false") ++ ")"
  | .unary op operand =>
      outlineNode "Prefix" [("operator", op.outline), ("operand", operand.outline)]
  | .binary left op right =>
      outlineNode "Infix"
        [("left", left.outline), ("operator", op.outline), ("right", right.outline)]
  | .ifThen condition consequence =>
      outlineNode "If"
        [("condition", condition.outline),
          ("consequence", outlineStatementList (outlineStatements consequence)),
          ("alternative", "None")]
  | .ifElse condition consequence alternative =>
      outlineNode "If"
        [("condition", condition.outline),
          ("consequence", outlineStatementList (outlineStatements consequence)),
          ("alternative",
            "Some(" ++ outlineStatementList (outlineStatements alternative) ++ ")")]
  | .function parameters body =>
      outlineNode "Function"
        [("parameters", outlineNames parameters),
          ("body", outlineStatementList (outlineStatements body))]
  | .call callee arguments =>
      outlineNode "Call"
        [("function", callee.outline),
          ("arguments", outlineList (outlineExpressions arguments))]

def Stmt.outline : Stmt → String
  | .bind name value =>
      outlineNode "Let" [("name", outlineName name), ("value", value.outline)]
  | .return value => "Return(" ++ value.outline ++ ")"
  | .expr value => "Expression(" ++ value.outline ++ ")"

def outlineExpressions : List Expr → List String
  | [] => []
  | first :: rest => first.outline :: outlineExpressions rest

def outlineStatements : List Stmt → List String
  | [] => []
  | first :: rest => first.outline :: outlineStatements rest

end

def outlineBlock (block : Block) : String := outlineStatementList (outlineStatements block)

end Scriptlet
