import Scriptlet.Proofs.Grammar.Outcome
import Scriptlet.Proofs.Grammar.Steps
import Scriptlet.Proofs.Grammar.Stratum

/-!
Whatever the grammar derives is read as it was derived. The comparison of binding strengths realises
the strata: an expression of a stratum is read as the left operand of the links behind it, at every
place that admits the stratum and whatever follows, as long as that binds no more strongly than the
stratum does.
-/

namespace Scriptlet

namespace Phrase

def starts : Phrase → List TokenKind
  | expression _ | expressions | arguments => expressionStarts
  | block => [.leftBrace]
  | statement | statements => .letWord :: .returnWord :: expressionStarts

def mayBeEmpty : Phrase → Bool
  | arguments | statements => true
  | _ => false

end Phrase

def Begins (kinds : List TokenKind) (tokens : List Token) : Prop :=
  ∃ first rest, tokens = first :: rest ∧ first.kind ∈ kinds

theorem begins_append {kinds : List TokenKind} {tokens : List Token}
    (begins : Begins kinds tokens) (behind : List Token) : Begins kinds (tokens ++ behind) := by
  obtain ⟨first, rest, rfl, isKind⟩ := begins
  exact ⟨first, rest ++ behind, rfl, isKind⟩

theorem begins_mono {kinds others : List TokenKind} {tokens : List Token}
    (begins : Begins kinds tokens) (within : kinds ⊆ others) : Begins others tokens := by
  obtain ⟨first, rest, same, isKind⟩ := begins
  exact ⟨first, rest, same, within isKind⟩

theorem begins_cons {kinds : List TokenKind} {kind : TokenKind} {first : Token}
    (isKind : first.kind = kind) (member : kind ∈ kinds) (rest : List Token) :
    Begins kinds (first :: rest) :=
  ⟨first, rest, rfl, isKind ▸ member⟩

/-- What a phrase starts with is seen from its first token, unless the phrase is empty. -/
theorem begins_of_spells {phrase : Phrase} {tokens : List Token} {tree : phrase.Tree}
    (spelled : Spells phrase tokens tree) :
    Begins phrase.starts tokens ∨ tokens = [] ∧ phrase.mayBeEmpty = true := by
  induction spelled with
  | name _ kind | integer _ _ kind | yes _ kind | no _ kind | group _ _ kind
  | ifThen _ _ _ kind | ifElse _ _ _ _ kind | function _ _ _ kind | not _ kind
  | negate _ kind | block _ _ kind | bind _ _ _ kind | «return» _ kind =>
      exact Or.inl (begins_cons kind (by decide) _)
  | call _ _ _ _ _ _ callee =>
      rcases callee with begins | ⟨_, empty⟩
      · exact Or.inl (begins_append (begins_append begins _) _)
      · cases empty
  | binary _ _ _ _ _ first | moreExpressions _ _ _ _ first =>
      rcases first with begins | ⟨_, empty⟩
      · exact Or.inl (begins_append begins _)
      · cases empty
  | looser _ _ _ inner => exact inner
  | lastExpression _ inner => exact inner
  | noArguments | noStatements => exact Or.inr ⟨rfl, rfl⟩
  | someArguments _ inner =>
      rcases inner with begins | ⟨_, empty⟩
      · exact Or.inl begins
      · cases empty
  | expr _ inner =>
      rcases inner with begins | ⟨_, empty⟩
      · exact Or.inl (begins_mono begins (by decide))
      · cases empty
  | ended _ _ _ _ first | unended _ _ _ first =>
      rcases first with begins | ⟨_, empty⟩
      · exact Or.inl (begins_append begins _)
      · cases empty

theorem begins_of_nonempty {phrase : Phrase} {tokens : List Token} {tree : phrase.Tree}
    (spelled : Spells phrase tokens tree) (nonempty : phrase.mayBeEmpty = false) :
    Begins phrase.starts tokens := by
  rcases begins_of_spells spelled with begins | ⟨_, empty⟩
  · exact begins
  · rw [nonempty] at empty
    cases empty

namespace Grammar

/-- What stands behind binds no more strongly than the stratum, and continues no condition. -/
structure Follows (stratum : Stratum) (mark : EndMark) (behind : List Token) : Prop where
  weaker : Precedence.ofKind (behind.headD mark.token).kind ≤ stratum.strength
  alone : (behind.headD mark.token).kind ≠ .elseWord

structure Ends (mark : EndMark) (behind : List Token) : Prop where
  unlinked : Precedence.ofKind (behind.headD mark.token).kind = .lowest
  alone : (behind.headD mark.token).kind ≠ .elseWord

theorem ends_follows {mark : EndMark} {behind : List Token} (ends : Ends mark behind)
    (stratum : Stratum) : Follows stratum mark behind := by
  refine ⟨?_, ends.alone⟩
  rw [ends.unlinked]
  exact Nat.zero_le _

theorem ends_of_kind {mark : EndMark} {next : Token} {kind : TokenKind} (isKind : next.kind = kind)
    (unlinked : Precedence.ofKind kind = .lowest) (alone : kind ≠ .elseWord)
    (behind : List Token) : Ends mark (next :: behind) := by
  subst isKind
  exact ⟨unlinked, alone⟩

/-- An expression of the stratum is read as the left side of the links behind it. -/
def ReadsExpression (stratum : Stratum) (tokens : List Token) (tree : Expr) : Prop :=
  ∃ front last, tokens = front ++ [last] ∧
    ∀ least mark behind result rest, least ≤ stratum.demand → Follows stratum mark behind →
      Runs (links least tree) mark (last :: behind) result rest →
      Runs (expression least) mark (tokens ++ behind) result rest

section ReadsExpression

variable {stratum : Stratum} {tokens : List Token} {tree : Expr}

/-- Where nothing binds on, an expression is read by itself. -/
theorem runs_whole (reads : ReadsExpression .equality tokens tree) :
    ∃ front last, tokens = front ++ [last] ∧ ∀ mark behind, Ends mark behind →
      Runs (expression .lowest) mark (tokens ++ behind) tree (last :: behind) := by
  obtain ⟨front, last, same, reads⟩ := reads
  refine ⟨front, last, same, fun mark behind ends => ?_⟩
  apply reads .lowest mark behind tree (last :: behind) (Nat.le_refl _) (ends_follows ends _)
  apply runs_links_stop
  rw [ends.unlinked]
  exact Nat.lt_irrefl _

theorem reads_operand (front : List Token) (last : Token) (same : tokens = front ++ [last])
    (ran : ∀ mark behind, (behind.headD mark.token).kind ≠ .elseWord →
      Runs operand mark (tokens ++ behind) tree (last :: behind)) :
    ReadsExpression stratum tokens tree :=
  ⟨front, last, same, fun _ mark behind _ _ _ follows ranLinks =>
    runs_expression (ran mark behind follows.alone) ranLinks⟩

theorem reads_looser (reads : ReadsExpression stratum.tighter tokens tree) :
    ReadsExpression stratum tokens tree := by
  obtain ⟨front, last, same, reads⟩ := reads
  refine ⟨front, last, same, fun least mark behind result rest fits follows => ?_⟩
  apply reads
  · exact Nat.le_trans fits stratum.demand_le_tighter
  · exact ⟨Nat.le_trans follows.weaker stratum.strength_le_tighter, follows.alone⟩

theorem reads_unary {token : Token} (op : UnaryOp)
    (ran : ∀ mark ahead inner rest, Runs (expression .unary) mark ahead inner rest →
      Runs operand mark (token :: ahead) (.unary op inner) rest)
    (reads : ReadsExpression .unary tokens tree) :
    ReadsExpression .unary (token :: tokens) (.unary op tree) := by
  obtain ⟨front, last, same, reads⟩ := reads
  refine ⟨token :: front, last, by rw [same]; rfl, ?_⟩
  intro least mark behind result rest _ follows ranLinks
  refine runs_expression (ran mark (tokens ++ behind) tree (last :: behind) ?_) ranLinks
  apply reads .unary mark behind tree _ (Nat.le_refl _) follows
  exact runs_links_stop (Nat.not_lt.mpr follows.weaker)

theorem reads_binary {token : Token} {op : BinaryOp} {before behind : List Token}
    {left right : Expr} (readsLeft : ReadsExpression (.ofOp op) before left)
    (isOp : BinaryOp.ofKind? token.kind = some op)
    (readsRight : ReadsExpression (Stratum.ofOp op).tighter behind right) :
    ReadsExpression (.ofOp op) (before ++ token :: behind) (.binary left op right) := by
  obtain ⟨front, last, rfl, readsLeft⟩ := readsLeft
  obtain ⟨frontRight, lastRight, rfl, readsRight⟩ := readsRight
  have strength := Stratum.strength_of_operator isOp
  refine ⟨front ++ last :: token :: frontRight, lastRight, by simp, ?_⟩
  intro least mark after result rest fits follows ranLinks
  rw [List.append_assoc]
  apply readsLeft least mark _ result rest fits
  · refine ⟨Nat.le_of_eq (congrArg Precedence.rank strength), fun other => ?_⟩
    rw [List.cons_append, List.headD_cons] at other
    rw [other] at isOp
    cases isOp
  · refine runs_links_binary ?_ isOp (readsRight _ mark after right (lastRight :: after) ?_ ?_ ?_)
      ranLinks
    · rw [strength]
      exact Nat.lt_of_le_of_lt fits (Stratum.demand_of_operator op)
    · rw [strength]
      exact Stratum.demand_of_operand op
    · exact ⟨Nat.le_trans follows.weaker (Stratum.strength_le_tighter _), follows.alone⟩
    · apply runs_links_stop
      rw [strength]
      exact Nat.not_lt.mpr follows.weaker

theorem reads_call {opening closing : Token} {inner : List Token} {values : List Expr}
    (readsCallee : ReadsExpression .applied tokens tree) (opens : opening.kind = .leftParen)
    (ranArguments : ∀ mark behind, Runs arguments mark (opening :: inner ++ closing :: behind)
      values (closing :: behind)) :
    ReadsExpression .applied (tokens ++ opening :: inner ++ [closing]) (.call tree values) := by
  obtain ⟨front, last, rfl, reads⟩ := readsCallee
  refine ⟨front ++ last :: opening :: inner, closing, by simp, ?_⟩
  intro least mark behind result rest fits follows ranLinks
  rw [List.append_assoc, List.append_assoc]
  apply reads least mark _ result rest fits
  · refine ⟨?_, ?_⟩ <;> rw [List.cons_append, List.headD_cons, opens] <;> decide
  · refine runs_links_call (Nat.lt_of_le_of_lt fits (by decide)) opens ?_ ranLinks
    simpa using ranArguments mark behind

end ReadsExpression

def Complete : (phrase : Phrase) → List Token → phrase.Tree → Prop
  | .expression stratum, tokens, tree => ReadsExpression stratum tokens tree
  | .expressions, tokens, trees => ∀ mark closing behind, closing.kind = .rightParen →
      ∃ first more middle, trees = first :: more ∧
        Runs (expression .lowest) mark (tokens ++ closing :: behind) first middle ∧
        Runs moreArguments mark middle more (closing :: behind)
  | .arguments, tokens, trees => ∀ mark opening closing behind, closing.kind = .rightParen →
      Runs arguments mark (opening :: tokens ++ closing :: behind) trees (closing :: behind)
  | .block, tokens, body => ∃ opening inner closing, tokens = opening :: inner ++ [closing] ∧
      opening.kind = .leftBrace ∧
        ∀ mark behind, Runs block mark (tokens ++ behind) body (closing :: behind)
  | .statement, tokens, tree => ∃ front last, tokens = front ++ [last] ∧
      ∀ mark behind, Ends mark behind →
        Runs statement mark (tokens ++ behind) tree (afterSemicolon mark (last :: behind))
  | .statements, tokens, trees =>
      (∀ mark closing behind, closing.kind = .rightBrace →
        Runs blockStatements mark (tokens ++ closing :: behind) trees (closing :: behind)) ∧
      ∀ mark, Runs program mark tokens trees []

section Complete

variable {tokens behind : List Token} {tree : Expr} {trees : List Expr}

theorem runs_more_names {names : List String} (spelled : SpellsNames tokens names)
    (mark : EndMark) {closing : Token} (closes : closing.kind = .rightParen)
    (after : List Token) :
    ∃ name rest, tokens = name :: rest ∧ name.kind = .identifier ∧
      ∃ more, names = name.slice :: more ∧
        Runs moreParameters mark (tokens ++ closing :: after) more (closing :: after) := by
  induction spelled with
  | one name isName => exact ⟨name, [], rfl, isName, [], rfl, runs_last_parameter closes⟩
  | more name comma isName isComma _ induction =>
      obtain ⟨next, rest, rfl, isNext, more, rfl, ran⟩ := induction
      exact ⟨name, _, rfl, isName, _, rfl, runs_more_parameters isComma isNext ran⟩

theorem runs_names {names : List String} (spelled : SpellsParameters tokens names)
    (mark : EndMark) (opening : Token) {closing : Token} (closes : closing.kind = .rightParen)
    (after : List Token) :
    Runs parameters mark (opening :: tokens ++ closing :: after) names (closing :: after) := by
  rcases spelled with ⟨rfl, rfl⟩ | spelled
  · exact runs_no_parameters closes
  · obtain ⟨name, rest, rfl, isName, more, rfl, ran⟩ := runs_more_names spelled mark closes after
    exact runs_parameters isName ran

theorem runs_some_arguments (spelled : Spells .expressions tokens trees)
    (complete : Complete .expressions tokens trees) : Complete .arguments tokens trees := by
  intro mark opening closing after closes
  obtain ⟨first, more, middle, rfl, ranFirst, ranMore⟩ := complete mark closing after closes
  refine runs_arguments (fun isClosing => ?_) ranFirst ranMore
  rcases begins_of_spells spelled with ⟨start, rest, rfl, isStart⟩ | ⟨_, empty⟩
  · have startCloses : start.kind = .rightParen := isClosing
    rw [startCloses] at isStart
    exact absurd isStart (by decide)
  · cases empty

theorem runs_expressions {comma : Token} (reads : ReadsExpression .equality tokens tree)
    (isComma : comma.kind = .comma) (complete : Complete .expressions behind trees) :
    Complete .expressions (tokens ++ comma :: behind) (tree :: trees) := by
  intro mark closing after closes
  obtain ⟨front, last, same, ran⟩ := runs_whole reads
  obtain ⟨first, more, middle, rfl, ranFirst, ranMore⟩ := complete mark closing after closes
  refine ⟨tree, first :: more, last :: comma :: (behind ++ closing :: after), rfl, ?_, ?_⟩
  · rw [List.append_assoc]
    exact ran mark _ (ends_of_kind isComma rfl (by decide) _)
  · exact runs_more_arguments isComma ranFirst ranMore

theorem start_ends_before {kind : TokenKind} (isStart : kind ∈ Phrase.statements.starts)
    (notMinus : kind ≠ .minus) (notParen : kind ≠ .leftParen) :
    Precedence.ofKind kind = .lowest ∧ kind ≠ .elseWord ∧ kind ≠ .semicolon := by
  revert isStart notMinus notParen
  cases kind <;> decide

/-- A statement list runs into nothing that would link to the statement before it. -/
theorem ends_of_statements {after : List Token} {statements : List Stmt} {mark : EndMark}
    (spelled : Spells .statements behind statements) (unlinked : Unlinked behind)
    (ends : Ends mark after) (unended : (after.headD mark.token).kind ≠ .semicolon) :
    Ends mark (behind ++ after) ∧ ((behind ++ after).headD mark.token).kind ≠ .semicolon := by
  rcases begins_of_spells spelled with ⟨first, rest, rfl, isStart⟩ | ⟨rfl, _⟩
  · obtain ⟨notMinus, notParen⟩ := unlinked first rfl
    obtain ⟨weak, alone, notSemicolon⟩ := start_ends_before isStart notMinus notParen
    exact ⟨⟨weak, alone⟩, notSemicolon⟩
  · exact ⟨ends, unended⟩

section Blocks

variable {word opening closing : Token} {condition consequence : List Token} {test : Expr}
  {body : Block}

theorem reads_if_then (isIf : word.kind = .ifWord) (opens : opening.kind = .leftParen)
    (reads : ReadsExpression .equality condition test) (closes : closing.kind = .rightParen)
    (complete : Complete .block consequence body) :
    ReadsExpression .atom (word :: opening :: condition ++ closing :: consequence)
      (.ifThen test body) := by
  obtain ⟨front, last, rfl, ranTest⟩ := runs_whole reads
  obtain ⟨brace, inner, close, rfl, bodyOpens, ranBody⟩ := complete
  refine reads_operand (word :: opening :: (front ++ [last]) ++ closing :: brace :: inner) close
    (by simp) fun mark behind alone => ?_
  have ends : Ends mark (closing :: (brace :: inner ++ [close] ++ behind)) :=
    ends_of_kind closes rfl (by decide) _
  have ran := runs_conditional isIf
    (runs_if_then opens (ranTest mark _ ends) closes bodyOpens (ranBody mark behind) alone)
  simpa using ran

theorem reads_if_else {other : Token} {alternative : List Token} {otherBody : Block}
    (isIf : word.kind = .ifWord) (opens : opening.kind = .leftParen)
    (reads : ReadsExpression .equality condition test) (closes : closing.kind = .rightParen)
    (complete : Complete .block consequence body) (isElse : other.kind = .elseWord)
    (completeOther : Complete .block alternative otherBody) :
    ReadsExpression .atom
      (word :: opening :: condition ++ closing :: consequence ++ other :: alternative)
      (.ifElse test body otherBody) := by
  obtain ⟨front, last, rfl, ranTest⟩ := runs_whole reads
  obtain ⟨brace, inner, close, rfl, bodyOpens, ranBody⟩ := complete
  obtain ⟨otherBrace, otherInner, otherClose, rfl, otherOpens, ranOther⟩ := completeOther
  refine reads_operand
    (word :: opening :: (front ++ [last]) ++ closing :: (brace :: inner ++ [close]) ++
      other :: otherBrace :: otherInner) otherClose (by simp) fun mark behind _ => ?_
  have ends : Ends mark (closing :: (brace :: inner ++ [close] ++
      other :: (otherBrace :: otherInner ++ [otherClose] ++ behind))) :=
    ends_of_kind closes rfl (by decide) _
  have ran := runs_conditional isIf (runs_if_else opens (ranTest mark _ ends) closes bodyOpens
    (ranBody mark _) isElse otherOpens (ranOther mark behind))
  simpa using ran

theorem reads_function {parameters : List Token} {names : List String}
    (isFn : word.kind = .fnWord) (opens : opening.kind = .leftParen)
    (spelled : SpellsParameters parameters names) (closes : closing.kind = .rightParen)
    (complete : Complete .block consequence body) :
    ReadsExpression .atom (word :: opening :: parameters ++ closing :: consequence)
      (.function names body) := by
  obtain ⟨brace, inner, close, rfl, bodyOpens, ranBody⟩ := complete
  refine reads_operand (word :: opening :: parameters ++ closing :: brace :: inner) close
    (by simp) fun mark behind _ => ?_
  have ranNames := runs_names spelled mark opening closes (brace :: inner ++ [close] ++ behind)
  simpa using runs_function isFn opens ranNames bodyOpens (ranBody mark behind)

end Blocks

section Statements

variable {first : Stmt} {statements : List Stmt}

theorem runs_bind_statement {word name sign : Token} (isLet : word.kind = .letWord)
    (isName : name.kind = .identifier) (isSign : sign.kind = .equal)
    (reads : ReadsExpression .equality tokens tree) :
    Complete .statement (word :: name :: sign :: tokens) (.bind name.slice tree) := by
  obtain ⟨front, last, same, ran⟩ := runs_whole reads
  refine ⟨word :: name :: sign :: front, last, by rw [same]; rfl, fun mark after ends => ?_⟩
  exact runs_bind isLet isName isSign (ran mark after ends)

theorem runs_return_statement {word : Token} (isReturn : word.kind = .returnWord)
    (reads : ReadsExpression .equality tokens tree) :
    Complete .statement (word :: tokens) (.return tree) := by
  obtain ⟨front, last, same, ran⟩ := runs_whole reads
  refine ⟨word :: front, last, by rw [same]; rfl, fun mark after ends => ?_⟩
  exact runs_return isReturn (ran mark after ends)

theorem runs_expression_statement (begins : Begins Phrase.expressionStarts tokens)
    (reads : ReadsExpression .equality tokens tree) : Complete .statement tokens (.expr tree) := by
  obtain ⟨front, last, same, ran⟩ := runs_whole reads
  refine ⟨front, last, same, fun mark after ends => ?_⟩
  obtain ⟨start, rest, rfl, isStart⟩ := begins
  apply runs_expr
  · intro isLet
    rw [isLet] at isStart
    exact absurd isStart (by decide)
  · intro isReturn
    rw [isReturn] at isStart
    exact absurd isStart (by decide)
  · exact ran mark after ends

/-- A statement that is read is the first of those read from its place on. -/
theorem runs_first {mark : EndMark} {next : Token} {middle rest : List Token}
    (begins : Begins Phrase.statement.starts tokens)
    (ran : Runs statement mark (tokens ++ behind) first (next :: middle)) :
    (Runs blockStatements mark middle statements rest →
      Runs blockStatements mark (tokens ++ behind) (first :: statements) rest) ∧
    (Runs program mark middle statements rest →
      Runs program mark (tokens ++ behind) (first :: statements) rest) := by
  obtain ⟨start, others, rfl, isStart⟩ := begins
  have open_ : start.kind ≠ .rightBrace := by
    intro closes
    rw [closes] at isStart
    exact absurd isStart (by decide)
  have inside : start.kind ≠ .endMark := by
    intro ended
    rw [ended] at isStart
    exact absurd isStart (by decide)
  exact ⟨runs_block_statements open_ inside ran, runs_program inside ran⟩

theorem runs_ended {semicolon : Token} (begins : Begins Phrase.statement.starts tokens)
    (complete : Complete .statement tokens first) (isSemicolon : semicolon.kind = .semicolon)
    (rest : Complete .statements behind statements) :
    Complete .statements (tokens ++ semicolon :: behind) (first :: statements) := by
  obtain ⟨front, last, same, ran⟩ := complete
  have step (mark : EndMark) (after : List Token) :
      Runs statement mark (tokens ++ semicolon :: after) first (semicolon :: after) := by
    have stopped : afterSemicolon mark (last :: semicolon :: after) = semicolon :: after :=
      if_pos isSemicolon
    have ranHere := ran mark _ (ends_of_kind isSemicolon rfl (by decide) after)
    rwa [stopped] at ranHere
  refine ⟨fun mark closing after closes => ?_, fun mark => ?_⟩
  · rw [List.append_assoc]
    exact (runs_first begins (step mark _)).1 (rest.1 mark closing after closes)
  · exact (runs_first begins (step mark _)).2 (rest.2 mark)

theorem runs_unended (begins : Begins Phrase.statement.starts tokens)
    (complete : Complete .statement tokens first) (unlinked : Unlinked behind)
    (spelled : Spells .statements behind statements)
    (rest : Complete .statements behind statements) :
    Complete .statements (tokens ++ behind) (first :: statements) := by
  obtain ⟨front, last, same, ran⟩ := complete
  have step (mark : EndMark) (after : List Token) (ends : Ends mark after)
      (unended : (after.headD mark.token).kind ≠ .semicolon) :
      Runs statement mark (tokens ++ (behind ++ after)) first (last :: (behind ++ after)) := by
    obtain ⟨endsHere, notSemicolon⟩ := ends_of_statements spelled unlinked ends unended
    have stopped : afterSemicolon mark (last :: (behind ++ after)) = last :: (behind ++ after) :=
      if_neg notSemicolon
    have ranHere := ran mark _ endsHere
    rwa [stopped] at ranHere
  refine ⟨fun mark closing after closes => ?_, fun mark => ?_⟩
  · rw [List.append_assoc]
    refine (runs_first begins (step mark _ ?_ ?_)).1 (rest.1 mark closing after closes)
    · exact ends_of_kind closes rfl (by decide) after
    · rw [List.headD_cons, closes]
      decide
  · have ran := step mark [] ⟨rfl, nofun⟩ nofun
    rw [List.append_nil] at ran
    exact (runs_first begins ran).2 (rest.2 mark)

end Statements

/-- Everything that the grammar derives is read as derived. -/
theorem complete_of_spells {phrase : Phrase} {tokens : List Token} {tree : phrase.Tree}
    (spelled : Spells phrase tokens tree) : Complete phrase tokens tree := by
  induction spelled with
  | name token kind => exact reads_operand [] token rfl fun _ _ _ => runs_name kind
  | integer token value kind read =>
      exact reads_operand [] token rfl fun _ _ _ => runs_integer kind read
  | yes token kind => exact reads_operand [] token rfl fun _ _ _ => runs_true kind
  | no token kind => exact reads_operand [] token rfl fun _ _ _ => runs_false kind
  | group opening closing opens _ closes inner =>
      obtain ⟨front, last, rfl, ran⟩ := runs_whole inner
      refine reads_operand (opening :: (front ++ [last])) closing rfl fun mark behind _ => ?_
      have ends : Ends mark (closing :: behind) := ends_of_kind closes rfl (by decide) behind
      simpa using runs_group opens (ran mark _ ends) closes
  | ifThen word opening closing isIf opens _ closes _ condition consequence =>
      exact reads_if_then isIf opens condition closes consequence
  | ifElse word opening closing other isIf opens _ closes _ isElse _ condition consequence
      alternative =>
      exact reads_if_else isIf opens condition closes consequence isElse alternative
  | function word opening closing isFn opens names closes _ body =>
      exact reads_function isFn opens names closes body
  | call opening closing _ opens _ closes callee arguments =>
      exact reads_call callee opens fun mark behind => arguments mark opening closing behind closes
  | not token kind _ operand => exact reads_unary .not (fun _ _ _ _ => runs_not kind) operand
  | negate token kind _ operand =>
      exact reads_unary .negate (fun _ _ _ _ => runs_negate kind) operand
  | binary token op _ isOp _ left right => exact reads_binary left isOp right
  | looser stratum _ _ inner => exact reads_looser inner
  | lastExpression _ inner =>
      intro mark closing behind closes
      obtain ⟨front, last, same, ran⟩ := runs_whole inner
      exact ⟨_, [], last :: closing :: behind, rfl,
        ran mark _ (ends_of_kind closes rfl (by decide) behind), runs_last_argument closes⟩
  | moreExpressions comma _ isComma _ inner rest => exact runs_expressions inner isComma rest
  | noArguments => exact fun _ _ _ _ closes => runs_no_arguments closes
  | someArguments spelled inner => exact runs_some_arguments spelled inner
  | block opening closing opens _ closes inner =>
      refine ⟨opening, _, closing, rfl, opens, fun mark behind => ?_⟩
      simpa using runs_block (inner.1 mark closing behind closes)
  | bind word name sign isLet isName isSign _ inner =>
      exact runs_bind_statement isLet isName isSign inner
  | «return» word isReturn _ inner => exact runs_return_statement isReturn inner
  | expr spelled inner => exact runs_expression_statement (begins_of_nonempty spelled rfl) inner
  | noStatements => exact ⟨fun _ _ _ closes => runs_block_end closes, fun _ => runs_program_end⟩
  | ended semicolon spelled isSemicolon _ first rest =>
      exact runs_ended (begins_of_nonempty spelled rfl) first isSemicolon rest
  | unended spelled unlinked spelledRest first rest =>
      exact runs_unended (begins_of_nonempty spelled rfl) first unlinked spelledRest rest

end Complete

end Grammar

theorem read_of_spells {tokens : List Token} {program : Program}
    (spelled : Spells .statements tokens program) {ended : Token}
    (isMark : ended.kind = .endMark) : readTokens (tokens ++ [ended]) = (program, []) := by
  obtain ⟨enough, reads⟩ := (Grammar.complete_of_spells spelled).2 ⟨ended.slice, ended.span⟩
  have reader := Reader.of_tokens_ended tokens ended isMark
  have ran : Grammar.program enough (Reader.ofTokens (tokens ++ [ended])).endMark
      (Reader.ofTokens (tokens ++ [ended])).ahead = some ⟨some program, [], []⟩ := by
    rw [reader]
    exact reads enough (Nat.le_refl enough)
  exact Reader.read_tokens_of_outcome ran

/-- Every derivation of a program is read as it stands, without a report. So no list of tokens
spells two programs. -/
theorem read_derived_program {tokens : List Token} {program : Program}
    (spelled : Spells .statements tokens program) :
    (∀ ended : Token, ended.kind = .endMark → readTokens (tokens ++ [ended]) = (program, [])) ∧
      ∀ other, Spells .statements tokens other → other = program := by
  refine ⟨fun _ isMark => read_of_spells spelled isMark, fun other spelledOther => ?_⟩
  have isMark : (Token.endAt 0).kind = .endMark := rfl
  have first := read_of_spells spelled isMark
  have second := read_of_spells spelledOther isMark
  rw [first] at second
  exact (congrArg Prod.fst second).symm

/-- `-a*(b)` is the product of `-a` and `b`. -/
theorem negated_factor_is_read :
    readTokens [⟨.minus, "-", ⟨0, 1⟩⟩, ⟨.identifier, "a", ⟨1, 2⟩⟩, ⟨.star, "*", ⟨2, 3⟩⟩,
        ⟨.leftParen, "(", ⟨3, 4⟩⟩, ⟨.identifier, "b", ⟨4, 5⟩⟩, ⟨.rightParen, ")", ⟨5, 6⟩⟩,
        ⟨.endMark, "", ⟨6, 6⟩⟩] =
      ([.expr (.binary (.unary .negate (.name "a")) .multiply (.name "b"))], []) := by
  have name (slice : String) (span : Span) (stratum : Stratum) :
      Spells (.expression stratum) [⟨.identifier, slice, span⟩] (.name slice) :=
    spells_looser (by cases stratum <;> decide) (.name _ rfl)
  have negated := Spells.negate ⟨.minus, "-", ⟨0, 1⟩⟩ rfl (name "a" ⟨1, 2⟩ .unary)
  have grouped := Spells.group ⟨.leftParen, "(", ⟨3, 4⟩⟩ ⟨.rightParen, ")", ⟨5, 6⟩⟩ rfl
    (name "b" ⟨4, 5⟩ .equality) rfl
  have product := Spells.binary ⟨.star, "*", ⟨2, 3⟩⟩ .multiply (spells_looser (by decide) negated)
    rfl (spells_looser (by decide) grouped)
  have statement := Spells.expr (spells_looser (by decide) product)
  have unlinked : Unlinked [] := fun _ none => by cases none
  exact (read_derived_program (.unended statement unlinked .noStatements)).1 (Token.endAt 6) rfl

end Scriptlet
