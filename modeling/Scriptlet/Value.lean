import Scriptlet.Program.Equality
import Scriptlet.Program.Outline
import Scriptlet.Text.Decimal

/-!
What expressions yield. Errors and returned values are values as well: they are signals, which end
the evaluation of everything around them up to a call or the whole program.
-/

namespace Scriptlet

open Text

abbrev Handle := Nat

inductive Value where
  | int (value : Int64)
  | bool (value : Bool)
  | null
  /-- A value on its way from a return statement to the call that it ends. -/
  | returned (value : Value)
  | error (message : String)
  /-- A function and the scope it was written in. -/
  | function (parameters : List String) (body : Block) (home : Handle)
deriving DecidableEq

inductive ValueType where
  | int | bool | null | returned | error | function
deriving DecidableEq, Repr

def ValueType.name : ValueType → String
  | int => "INTEGER"
  | bool => "BOOLEAN"
  | null => "NULL"
  | returned => "RETURN_VALUE"
  | error => "ERROR"
  | function => "FUNCTION"

namespace Value

def type : Value → ValueType
  | int _ => .int
  | bool _ => .bool
  | null => .null
  | returned _ => .returned
  | error _ => .error
  | function _ _ _ => .function

/-- Only `false` and null are not truthy. -/
def truthy : Value → Bool
  | bool value => value
  | null => false
  | _ => true

def isSignal : Value → Bool
  | returned _ | error _ => true
  | _ => false

def unwrap : Value → Value
  | returned value => value
  | value => value

def render : Value → String
  | int value => Decimal.write value
  | bool value => if value then "true" else "false"
  | null => "null"
  | returned value => value.render
  | error message => "ERROR: " ++ message
  | function parameters _ _ => "fn(" ++ ", ".intercalate parameters ++ ") \x7b...\x7d"

/-- The outline of a value. A function's scope may hold the function itself and is left out. -/
def outline : Value → String
  | int value => "Integer(" ++ Decimal.write value ++ ")"
  | bool value => "Boolean(" ++ (if value then "true" else "false") ++ ")"
  | null => "Null"
  | returned value => "ReturnValue(" ++ value.outline ++ ")"
  | error message => "Error(" ++ outlineQuoted message ++ ")"
  | function parameters body _ =>
      "Function(Function \x7b parameters: " ++ outlineNames parameters ++ ", body: " ++
        outlineBlock body ++ ", .. \x7d)"

def outlineResult : Option Value → String
  | none => "None"
  | some value => "Some(" ++ value.outline ++ ")"

end Value

inductive Fault where
  | unbound (name : String)
  | divisionByZero
  | notFunction (type : ValueType)
  | unaryMismatch (op : UnaryOp) (operand : ValueType)
  /-- Two operands of one type, which does not have this operator. -/
  | noOperator (op : BinaryOp) (operands : ValueType)
  /-- Two operands of different types. -/
  | typeMismatch (left : ValueType) (op : BinaryOp) (right : ValueType)
deriving DecidableEq, Repr

def Fault.message : Fault → String
  | unbound name => "identifier not found: " ++ name
  | divisionByZero => "division by zero"
  | notFunction type => "not a function: " ++ type.name
  | unaryMismatch op operand => "unknown operator: " ++ op.symbol ++ operand.name
  | noOperator op operands =>
      "unknown operator: " ++ operands.name ++ " " ++ op.symbol ++ " " ++ operands.name
  | typeMismatch left op right =>
      "type mismatch: " ++ left.name ++ " " ++ op.symbol ++ " " ++ right.name

def Fault.value (fault : Fault) : Value := .error fault.message

end Scriptlet
