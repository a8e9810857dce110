/-!
Programs as trees. A program and a block are both lists of statements; integers have the width the
language computes with, so a tree holds no numeral that the language cannot hold.
-/

namespace Scriptlet

inductive UnaryOp where
  | not | negate
deriving DecidableEq, Repr

inductive BinaryOp where
  | add | subtract | multiply | divide | less | greater | equal | notEqual
deriving DecidableEq, Repr

mutual

inductive Expr where
  | name (name : String)
  | int (value : Int64)
  | bool (value : Bool)
  | unary (op : UnaryOp) (operand : Expr)
  | binary (left : Expr) (op : BinaryOp) (right : Expr)
  | ifThen (condition : Expr) (consequence : List Stmt)
  | ifElse (condition : Expr) (consequence alternative : List Stmt)
  | function (parameters : List String) (body : List Stmt)
  | call (callee : Expr) (arguments : List Expr)

inductive Stmt where
  | bind (name : String) (value : Expr)
  | return (value : Expr)
  | expr (value : Expr)

end

abbrev Block := List Stmt

abbrev Program := List Stmt

namespace UnaryOp

def symbol : UnaryOp → String
  | not => "!"
  | negate => "-"

end UnaryOp

namespace BinaryOp

def symbol : BinaryOp → String
  | add => "+"
  | subtract => "-"
  | multiply => "*"
  | divide => "/"
  | less => "<"
  | greater => ">"
  | equal => "=="
  | notEqual => "!="

end BinaryOp

end Scriptlet
