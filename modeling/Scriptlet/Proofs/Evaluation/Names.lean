import Scriptlet.Store

/-!
The names that a program reads. A name is read where it stands as an expression, also inside of a
function; names that are bound and names of parameters are not read. A function value reads what its
body reads.
-/

namespace Scriptlet

mutual

def Expr.names : Expr → List String
  | .name name => [name]
  | .int _ | .bool _ => []
  | .unary _ operand => operand.names
  | .binary left _ right => left.names ++ right.names
  | .ifThen condition consequence => condition.names ++ statementNames consequence
  | .ifElse condition consequence alternative =>
      condition.names ++ (statementNames consequence ++ statementNames alternative)
  | .function _ body => statementNames body
  | .call callee arguments => callee.names ++ expressionNames arguments

def Stmt.names : Stmt → List String
  | .bind _ value | .return value | .expr value => value.names

def expressionNames : List Expr → List String
  | [] => []
  | first :: rest => first.names ++ expressionNames rest

def statementNames : List Stmt → List String
  | [] => []
  | first :: rest => first.names ++ statementNames rest

end

def Block.names (block : Block) : List String := statementNames block

/-- The name is read by a function that some scope of the store binds. -/
def Store.Reads (store : Store) (name : String) : Prop :=
  ∃ handle scope bound parameters body home,
    store.scope? handle = some scope ∧
      scope.own bound = some (.function parameters body home) ∧ name ∈ Block.names body

end Scriptlet
