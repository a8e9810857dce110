import Scriptlet.Program

/-!
Trees with at most one hole, for the body of one block. Filling the hole changes the tree nowhere
else.
-/

namespace Scriptlet

inductive Shape where
  | expression | expressions | statement | block | statements

abbrev Shape.Tree : Shape → Type
  | expression => Expr
  | expressions => List Expr
  | statement => Stmt
  | block => Block
  | statements => List Stmt

/-- A tree in which the body of at most one block is left open. -/
inductive Context : Shape → Type where
  | whole {shape : Shape} (tree : shape.Tree) : Context shape
  | hole : Context .block
  | inBlock (statements : Context .statements) : Context .block
  | unary (op : UnaryOp) (operand : Context .expression) : Context .expression
  | left (left : Context .expression) (op : BinaryOp) (right : Expr) : Context .expression
  | right (left : Expr) (op : BinaryOp) (right : Context .expression) : Context .expression
  | ifTest (test : Context .expression) (consequence : Block) : Context .expression
  | ifBody (test : Expr) (consequence : Context .block) : Context .expression
  | elseTest (test : Context .expression) (consequence alternative : Block) : Context .expression
  | elseBody (test : Expr) (consequence : Context .block) (alternative : Block) :
      Context .expression
  | elseOther (test : Expr) (consequence : Block) (alternative : Context .block) :
      Context .expression
  | function (parameters : List String) (body : Context .block) : Context .expression
  | callee (callee : Context .expression) (arguments : List Expr) : Context .expression
  | arguments (callee : Expr) (arguments : Context .expressions) : Context .expression
  | first (first : Context .expression) (rest : List Expr) : Context .expressions
  | later (first : Expr) (rest : Context .expressions) : Context .expressions
  | bind (name : String) (value : Context .expression) : Context .statement
  | return (value : Context .expression) : Context .statement
  | expr (value : Context .expression) : Context .statement
  | firstStatement (first : Context .statement) (rest : List Stmt) : Context .statements
  | laterStatements (first : Stmt) (rest : Context .statements) : Context .statements

def Context.fill {shape : Shape} (context : Context shape) (body : Block) : shape.Tree :=
  match context with
  | whole tree => tree
  | hole => body
  | inBlock statements => statements.fill body
  | unary op operand => Expr.unary op (operand.fill body)
  | left before op behind => Expr.binary (before.fill body) op behind
  | right before op behind => Expr.binary before op (behind.fill body)
  | ifTest test consequence => Expr.ifThen (test.fill body) consequence
  | ifBody test consequence => Expr.ifThen test (consequence.fill body)
  | elseTest test consequence alternative => Expr.ifElse (test.fill body) consequence alternative
  | elseBody test consequence alternative => Expr.ifElse test (consequence.fill body) alternative
  | elseOther test consequence alternative => Expr.ifElse test consequence (alternative.fill body)
  | function parameters inner => Expr.function parameters (inner.fill body)
  | callee before values => Expr.call (before.fill body) values
  | arguments before values => Expr.call before (values.fill body)
  | first start rest => start.fill body :: rest
  | later start rest => start :: rest.fill body
  | bind name value => Stmt.bind name (value.fill body)
  | «return» value => Stmt.return (value.fill body)
  | expr value => Stmt.expr (value.fill body)
  | firstStatement start rest => start.fill body :: rest
  | laterStatements start rest => start :: rest.fill body

end Scriptlet
