import Scriptlet.Grammar

/-!
The grammar as a relation between tokens and the trees that they spell, with no rules of reading in
it. Expressions come in strata, one for each binding strength, and every operator groups to the
left. Parentheses and semicolons leave no trace in a tree.
-/

namespace Scriptlet

open Text

/-- The strata of expressions from the loosest operators to single operands. -/
inductive Stratum where
  | equality | comparison | sum | product | unary | applied | atom
deriving DecidableEq, Repr

namespace Stratum

def tighter : Stratum → Stratum
  | equality => comparison
  | comparison => sum
  | sum => product
  | product => unary
  | unary => applied
  | applied => atom
  | atom => atom

def ofOp : BinaryOp → Stratum
  | .equal | .notEqual => equality
  | .less | .greater => comparison
  | .add | .subtract => sum
  | .multiply | .divide => product

end Stratum

inductive SpellsNames : List Token → List String → Prop where
  | one (name : Token) : name.kind = .identifier → SpellsNames [name] [name.slice]
  | more (name comma : Token) {tokens : List Token} {names : List String} :
      name.kind = .identifier → comma.kind = .comma → SpellsNames tokens names →
      SpellsNames (name :: comma :: tokens) (name.slice :: names)

def SpellsParameters (tokens : List Token) (names : List String) : Prop :=
  tokens = [] ∧ names = [] ∨ SpellsNames tokens names

inductive Phrase where
  | expression (stratum : Stratum)
  /-- One expression or several with commas between them. -/
  | expressions
  | arguments
  | block
  | statement
  | statements

abbrev Phrase.Tree : Phrase → Type
  | expression _ => Expr
  | expressions | arguments => List Expr
  | block => Block
  | statement => Stmt
  | statements => List Stmt

/-- No token follows that would link to an expression before it. -/
def Unlinked (behind : List Token) : Prop :=
  ∀ next ∈ behind.head?, next.kind ≠ .minus ∧ next.kind ≠ .leftParen

/-- The tokens spell the tree. A statement is counted without the semicolon behind it, and one
without a semicolon must not run into the next statement of its list. -/
inductive Spells : (phrase : Phrase) → List Token → phrase.Tree → Prop where
  | name (token : Token) : token.kind = .identifier →
      Spells (.expression .atom) [token] (.name token.slice)
  | integer (token : Token) (value : Int64) : token.kind = .integer →
      Decimal.read? token.slice = some value → Spells (.expression .atom) [token] (.int value)
  | yes (token : Token) : token.kind = .trueWord →
      Spells (.expression .atom) [token] (.bool true)
  | no (token : Token) : token.kind = .falseWord →
      Spells (.expression .atom) [token] (.bool false)
  | group (opening closing : Token) {tokens : List Token} {tree : Expr} :
      opening.kind = .leftParen → Spells (.expression .equality) tokens tree →
      closing.kind = .rightParen →
      Spells (.expression .atom) (opening :: tokens ++ [closing]) tree
  | ifThen (word opening closing : Token) {condition consequence : List Token} {test : Expr}
      {body : Block} : word.kind = .ifWord → opening.kind = .leftParen →
      Spells (.expression .equality) condition test → closing.kind = .rightParen →
      Spells .block consequence body →
      Spells (.expression .atom) (word :: opening :: condition ++ closing :: consequence)
        (.ifThen test body)
  | ifElse (word opening closing other : Token) {condition consequence alternative : List Token}
      {test : Expr} {body otherBody : Block} : word.kind = .ifWord → opening.kind = .leftParen →
      Spells (.expression .equality) condition test → closing.kind = .rightParen →
      Spells .block consequence body → other.kind = .elseWord →
      Spells .block alternative otherBody →
      Spells (.expression .atom)
        (word :: opening :: condition ++ closing :: consequence ++ other :: alternative)
        (.ifElse test body otherBody)
  | function (word opening closing : Token) {parameters tokens : List Token}
      {names : List String} {body : Block} : word.kind = .fnWord → opening.kind = .leftParen →
      SpellsParameters parameters names → closing.kind = .rightParen → Spells .block tokens body →
      Spells (.expression .atom) (word :: opening :: parameters ++ closing :: tokens)
        (.function names body)
  | call (opening closing : Token) {tokens inner : List Token} {callee : Expr}
      {values : List Expr} : Spells (.expression .applied) tokens callee →
      opening.kind = .leftParen → Spells .arguments inner values →
      closing.kind = .rightParen →
      Spells (.expression .applied) (tokens ++ opening :: inner ++ [closing])
        (.call callee values)
  | not (token : Token) {tokens : List Token} {operand : Expr} : token.kind = .bang →
      Spells (.expression .unary) tokens operand →
      Spells (.expression .unary) (token :: tokens) (.unary .not operand)
  | negate (token : Token) {tokens : List Token} {operand : Expr} : token.kind = .minus →
      Spells (.expression .unary) tokens operand →
      Spells (.expression .unary) (token :: tokens) (.unary .negate operand)
  | binary (token : Token) (op : BinaryOp) {before behind : List Token} {left right : Expr} :
      Spells (.expression (.ofOp op)) before left → BinaryOp.ofKind? token.kind = some op →
      Spells (.expression (Stratum.ofOp op).tighter) behind right →
      Spells (.expression (.ofOp op)) (before ++ token :: behind) (.binary left op right)
  | looser (stratum : Stratum) {tokens : List Token} {tree : Expr} : stratum ≠ .atom →
      Spells (.expression stratum.tighter) tokens tree → Spells (.expression stratum) tokens tree
  | lastExpression {tokens : List Token} {tree : Expr} :
      Spells (.expression .equality) tokens tree → Spells .expressions tokens [tree]
  | moreExpressions (comma : Token) {tokens behind : List Token} {tree : Expr}
      {trees : List Expr} : Spells (.expression .equality) tokens tree → comma.kind = .comma →
      Spells .expressions behind trees →
      Spells .expressions (tokens ++ comma :: behind) (tree :: trees)
  | noArguments : Spells .arguments [] []
  | someArguments {tokens : List Token} {trees : List Expr} : Spells .expressions tokens trees →
      Spells .arguments tokens trees
  | block (opening closing : Token) {tokens : List Token} {body : List Stmt} :
      opening.kind = .leftBrace → Spells .statements tokens body → closing.kind = .rightBrace →
      Spells .block (opening :: tokens ++ [closing]) body
  | bind (word name sign : Token) {tokens : List Token} {value : Expr} : word.kind = .letWord →
      name.kind = .identifier → sign.kind = .equal → Spells (.expression .equality) tokens value →
      Spells .statement (word :: name :: sign :: tokens) (.bind name.slice value)
  | return (word : Token) {tokens : List Token} {value : Expr} : word.kind = .returnWord →
      Spells (.expression .equality) tokens value →
      Spells .statement (word :: tokens) (.return value)
  | expr {tokens : List Token} {value : Expr} : Spells (.expression .equality) tokens value →
      Spells .statement tokens (.expr value)
  | noStatements : Spells .statements [] []
  | ended (semicolon : Token) {tokens behind : List Token} {first : Stmt} {rest : List Stmt} :
      Spells .statement tokens first → semicolon.kind = .semicolon →
      Spells .statements behind rest →
      Spells .statements (tokens ++ semicolon :: behind) (first :: rest)
  | unended {tokens behind : List Token} {first : Stmt} {rest : List Stmt} :
      Spells .statement tokens first → Unlinked behind → Spells .statements behind rest →
      Spells .statements (tokens ++ behind) (first :: rest)

theorem names_inside {tokens : List Token} {names : List String}
    (spelled : SpellsNames tokens names) : ∀ token ∈ tokens, token.kind ≠ .endMark := by
  induction spelled with
  | one name isName => simp [isName]
  | more name comma isName isComma _ induction => simpa [isName, isComma] using induction

theorem parameters_inside {tokens : List Token} {names : List String}
    (spelled : SpellsParameters tokens names) : ∀ token ∈ tokens, token.kind ≠ .endMark := by
  rcases spelled with ⟨rfl, _⟩ | spelled
  · exact nofun
  · exact names_inside spelled

theorem operator_inside {kind : TokenKind} {op : BinaryOp}
    (isOp : BinaryOp.ofKind? kind = some op) : kind ≠ .endMark := by
  rintro rfl
  cases isOp

/-- An expression by itself spells a program. -/
theorem spells_alone {tokens : List Token} {value : Expr}
    (spelled : Spells (.expression .equality) tokens value) :
    Spells .statements tokens [.expr value] := by
  have unlinked : Unlinked [] := by simp [Unlinked]
  have alone := Spells.unended (.expr spelled) unlinked .noStatements
  rw [List.append_nil] at alone
  exact alone

/-- Nothing is spelled with an end mark. -/
theorem spells_inside {phrase : Phrase} {tokens : List Token} {tree : phrase.Tree}
    (spelled : Spells phrase tokens tree) : ∀ token ∈ tokens, token.kind ≠ .endMark := by
  induction spelled with
  | binary token op _ isOp => grind [operator_inside isOp]
  | function word opening closing isFn opens parameters => grind [parameters_inside parameters]
  | _ => grind

end Scriptlet
