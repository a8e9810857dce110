import Scriptlet.Proofs.Grammar.Progress
import Scriptlet.Proofs.Grammar.Sequence
import Scriptlet.Proofs.Grammar.Terrain

/-!
The rules for expressions and statements take the same way through every terrain, as long as the
rule for blocks does. They look at no token of the part in which the inputs differ, so nothing here
depends on what that part is or how it is read.
-/

namespace Scriptlet

open Rule Grammar

variable {Case : Type} {terrain : Terrain Case}

section Varied

variable {earlier now later : Stage}

theorem varied_one {inner outer : Shape} {value : Case → inner.Tree}
    (make : inner.Tree → outer.Tree) (grow : Context inner → Context outer)
    (filled : ∀ context body, (grow context).fill body = make (context.fill body))
    (varied : terrain.Varied inner earlier later value) :
    terrain.Varied outer earlier later fun case => make (value case) := by
  rcases varied with ⟨tree, rfl⟩ | ⟨spans, context, rfl⟩
  · exact Or.inl ⟨make tree, rfl⟩
  · refine Or.inr ⟨spans, grow context, ?_⟩
    funext case
    exact (filled context _).symm

theorem varied_later {shape : Shape} {value : Case → shape.Tree}
    (varied : terrain.Varied shape earlier now value) (reaches : now.Reaches later) :
    terrain.Varied shape earlier later value := by
  rcases varied with fixed | ⟨spans, context⟩
  · exact Or.inl fixed
  · exact Or.inr ⟨(Stage.spans_first spans reaches).1, context⟩

theorem varied_earlier {shape : Shape} {value : Case → shape.Tree}
    (reaches : earlier.Reaches now) (varied : terrain.Varied shape now later value) :
    terrain.Varied shape earlier later value := by
  rcases varied with fixed | ⟨spans, context⟩
  · exact Or.inl fixed
  · exact Or.inr ⟨(Stage.spans_second reaches spans).1, context⟩

/-- Of two parts read one after the other at most one depends on the case. -/
theorem varied_two {first second outer : Shape} {value : Case → first.Tree}
    {behind : Case → second.Tree} (make : first.Tree → second.Tree → outer.Tree)
    (growFirst : Context first → second.Tree → Context outer)
    (growSecond : first.Tree → Context second → Context outer)
    (filledFirst : ∀ context tree body,
      (growFirst context tree).fill body = make (context.fill body) tree)
    (filledSecond : ∀ tree context body,
      (growSecond tree context).fill body = make tree (context.fill body))
    (reaches : earlier.Reaches now) (reachesLater : now.Reaches later)
    (varied : terrain.Varied first earlier now value)
    (variedBehind : terrain.Varied second now later behind) :
    terrain.Varied outer earlier later fun case => make (value case) (behind case) := by
  rcases varied with ⟨tree, rfl⟩ | ⟨spans, context, rfl⟩
  · rcases variedBehind with ⟨other, rfl⟩ | ⟨spans, context, rfl⟩
    · exact Or.inl ⟨make tree other, rfl⟩
    · refine Or.inr ⟨(Stage.spans_second reaches spans).1, growSecond tree context, ?_⟩
      funext case
      exact (filledSecond tree context _).symm
  · have further := Stage.spans_first spans reachesLater
    rcases variedBehind with ⟨other, rfl⟩ | ⟨again, _⟩
    · refine Or.inr ⟨further.1, growFirst context other, ?_⟩
      funext case
      exact (filledFirst context other _).symm
    · exact absurd again further.2

theorem varied_if_else {read last : Stage} {test : Case → Expr} {body other : Case → Block}
    (reaches : earlier.Reaches now) (reachesRead : now.Reaches read)
    (reachesLast : read.Reaches last) (varied : terrain.Varied .expression earlier now test)
    (variedBody : terrain.Varied .block now read body)
    (variedOther : terrain.Varied .block read last other) :
    terrain.Varied .expression earlier last fun case =>
      Expr.ifElse (test case) (body case) (other case) := by
  rcases variedOther with ⟨alternative, rfl⟩ | ⟨spans, context, rfl⟩
  · exact varied_later (varied_two (fun test body => Expr.ifElse test body alternative)
      (fun context body => Context.elseTest context body alternative)
      (fun test context => Context.elseBody test context alternative) (fun _ _ _ => rfl)
      (fun _ _ _ => rfl) reaches reachesRead varied variedBody) reachesLast
  · have earlierSpans := Stage.spans_second reachesRead spans
    rcases varied with ⟨tested, rfl⟩ | ⟨again, _⟩
    · rcases variedBody with ⟨consequence, rfl⟩ | ⟨again, _⟩
      · exact Or.inr ⟨(Stage.spans_second reaches earlierSpans.1).1,
          Context.elseOther tested consequence context, rfl⟩
      · exact absurd again earlierSpans.2
    · exact absurd earlierSpans.1
        (Stage.spans_first again (Stage.reaches_trans reachesRead reachesLast)).2

theorem reported_fixed (stage : Stage) (errors : List SyntaxError) :
    terrain.Reported stage stage fun _ => errors :=
  Or.inl ⟨Stage.not_spans_refl stage, errors, rfl⟩

theorem reported_append {errors more : Case → List SyntaxError} (reaches : earlier.Reaches now)
    (reachesLater : now.Reaches later) (reported : terrain.Reported earlier now errors)
    (reportedMore : terrain.Reported now later more) :
    terrain.Reported earlier later fun case => errors case ++ more case := by
  rcases reported with ⟨none, all, rfl⟩ | ⟨spans, front, back, rfl⟩
  · rcases reportedMore with ⟨noneMore, allMore, rfl⟩ | ⟨spans, front, back, rfl⟩
    · refine Or.inl ⟨fun spans => ?_, all ++ allMore, rfl⟩
      rcases Stage.spans_either reaches reachesLater spans with first | second
      · exact none first
      · exact noneMore second
    · refine Or.inr ⟨(Stage.spans_second reaches spans).1, all ++ front, back, ?_⟩
      funext case
      simp only [List.append_assoc]
  · have further := Stage.spans_first spans reachesLater
    rcases reportedMore with ⟨_, all, rfl⟩ | ⟨again, _⟩
    · refine Or.inr ⟨further.1, front, back ++ all, ?_⟩
      funext case
      simp only [List.append_assoc]
    · exact absurd again further.2

end Varied

def Fixed {Value : Type} (_ : Stage) (value : Case → Value) : Prop := ∃ same, value = fun _ => same

/-- The rule takes the same way in all cases, from this stage on. -/
def Terrain.Passes {Value : Type} (terrain : Terrain Case) (depth : Nat)
    (Fits : Stage → (Case → Value) → Prop) (now : Stage) (rule : Case → Nat → Rule Value)
    (ahead : Case → List Token) (Place : Stage → (Case → List Token) → Prop) : Prop :=
  terrain.Settles depth rule ahead (terrain.Arrives Fits now Place) (terrain.Fails now)

section Passes

variable {Value Next : Type} {depth : Nat} {now : Stage} {ahead : Case → List Token}
  {rule : Case → Nat → Rule Value} {next : Case → Value → Nat → Rule Next}
  {First : Stage → (Case → Value) → Prop} {Fits : Stage → (Case → Next) → Prop}
  {Middle Place : Stage → (Case → List Token) → Prop}

theorem passes_then (first : terrain.Passes depth First now rule ahead Middle)
    (second : ∀ later value rest, now.Reaches later → First later value → Middle later rest →
      terrain.Passes depth Fits later (fun case => next case (value case)) rest Place) :
    terrain.Passes depth Fits now
      (fun case depth => rule case depth >>= fun value => next case value depth) ahead Place := by
  refine settles_bind first (fun _ _ failed => failed) fun value errors rest arrives => ?_
  obtain ⟨later, reaches, fits, reported, place⟩ := arrives
  intro answers
  rcases second later value rest reaches fits place answers with
    ⟨final, more, last, ⟨end_, reachesEnd, fitsEnd, reportedEnd, placeEnd⟩, always⟩ |
    ⟨more, last, ⟨end_, reachesEnd, reportedEnd, placeEnd⟩, always⟩
  · exact Or.inl ⟨final, more, last, ⟨end_, Stage.reaches_trans reaches reachesEnd, fitsEnd,
      reported_append reaches reachesEnd reported reportedEnd, placeEnd⟩, always⟩
  · exact Or.inr ⟨more, last, ⟨end_, Stage.reaches_trans reaches reachesEnd,
      reported_append reaches reachesEnd reported reportedEnd, placeEnd⟩, always⟩

theorem passes_pure {value : Case → Next} (fits : Fits now value) (place : Place now ahead) :
    terrain.Passes depth Fits now (fun case _ => pure (value case)) ahead Place :=
  settles_pure ⟨now, Stage.reaches_refl now, fits, reported_fixed now [], place⟩

theorem passes_fail_here {error : SyntaxError}
    (place : terrain.Ready now ahead ∨ terrain.Onto now ahead) :
    terrain.Passes depth Fits now (fun _ _ => failHere error) ahead Place :=
  settles_fail_here ⟨now, Stage.reaches_refl now, reported_fixed now [error], place⟩

/-- What is seen behind a token that was used. -/
theorem onto_next (onto : terrain.Onto now ahead) : ∃ next rest, terrain.Ready now rest ∧
    (fun case => (ahead case).tail) = rest ∧
    (∀ case, (ahead case).tail.headD (terrain.mark case).token = next) ∧
    (next.kind.Plain → terrain.Onto now rest) := by
  obtain ⟨token, rest, ready, rfl⟩ := terrain.used onto
  obtain ⟨next, looked, plain⟩ := terrain.look ready
  exact ⟨next, rest, ready, rfl, looked, plain⟩

theorem passes_expect {kind : TokenKind} {next : Case → Unit → Nat → Rule Next}
    (onto : terrain.Onto now ahead)
    (second : ∀ rest, terrain.Ready now rest →
      (∀ case, ((rest case).headD (terrain.mark case).token).kind = kind) →
      (kind.Plain → terrain.Onto now rest) →
      terrain.Passes depth Fits now (fun case => next case ()) rest Place) :
    terrain.Passes depth Fits now
      (fun case depth => expect kind >>= fun done => next case done depth) ahead Place := by
  obtain ⟨token, rest, ready, same, looked, plain⟩ := onto_next onto
  have failed : terrain.Fails now (fun _ => [.unexpected kind token]) ahead :=
    ⟨now, Stage.reaches_refl now, reported_fixed now _, Or.inr onto⟩
  refine settles_expect looked failed fun found => ?_
  rw [same]
  subst same
  exact second _ ready (fun case => by rw [looked, found]) (found ▸ plain)

end Passes

section Parameters

variable {now : Stage} {ahead : Case → List Token}

theorem more_parameters_pass (depth : Nat) (onto : terrain.Onto now ahead) :
    terrain.Passes depth Fixed now (fun _ => moreParameters) ahead terrain.Onto := by
  induction depth generalizing ahead with
  | zero => exact settles_bottom moreParameters.eq_1
  | succ depth induction =>
      refine settles_deeper (fun _ => moreParameters.eq_1) (fun _ => moreParameters.eq_2) ?_
      obtain ⟨next, rest, _, same, looked, plain⟩ := onto_next onto
      refine settles_peek looked ?_
      by_cases comma : next.kind = .comma
      · simp only [if_pos comma]
        refine settles_advance ?_
        rw [same]
        refine passes_expect (plain (by rw [comma]; decide)) fun named _ _ plainName => ?_
        have ontoName := plainName (by decide)
        obtain ⟨name, behind, _, rfl⟩ := terrain.used ontoName
        refine settles_current (fun _ => rfl) ?_
        refine passes_then (induction ontoName)
          fun later names rest _ fixed onto => ?_
        obtain ⟨names, rfl⟩ := fixed
        exact passes_pure ⟨name.slice :: names, rfl⟩ onto
      · simp only [if_neg comma]
        exact passes_expect onto fun _ _ _ plainClosing =>
          passes_pure ⟨[], rfl⟩ (plainClosing (by decide))

theorem parameters_pass (depth : Nat) (onto : terrain.Onto now ahead) :
    terrain.Passes depth Fixed now (fun _ => parameters) ahead terrain.Onto := by
  obtain ⟨next, rest, _, same, looked, plain⟩ := onto_next onto
  refine settles_peek looked ?_
  by_cases closes : next.kind = .rightParen
  · simp only [if_pos closes]
    refine settles_advance ?_
    rw [same]
    exact passes_pure ⟨[], rfl⟩ (plain (by rw [closes]; decide))
  · simp only [if_neg closes]
    refine passes_expect onto fun named _ _ plainName => ?_
    have ontoName := plainName (by decide)
    obtain ⟨name, behind, _, rfl⟩ := terrain.used ontoName
    refine settles_current (fun _ => rfl) ?_
    refine passes_then (more_parameters_pass depth ontoName)
      fun later names rest _ fixed onto => ?_
    obtain ⟨names, rfl⟩ := fixed
    exact passes_pure ⟨name.slice :: names, rfl⟩ onto

end Parameters

def Terrain.ReadyAt (terrain : Terrain Case) (kind : TokenKind) (stage : Stage)
    (ahead : Case → List Token) : Prop :=
  terrain.Ready stage ahead ∧ ∀ case, ((ahead case).headD (terrain.mark case).token).kind = kind

def Terrain.Ended (terrain : Terrain Case) (stage : Stage) (ahead : Case → List Token) : Prop :=
  terrain.Onto stage ahead ∨ terrain.ReadyAt .semicolon stage ahead

structure Terrain.Uniform (terrain : Terrain Case) (depth : Nat) : Prop where
  expression (least : Precedence) {now : Stage} {ahead : Case → List Token}
    (ready : terrain.Ready now ahead) :
    terrain.Passes depth (terrain.Varied .expression now) now (fun _ => expression least) ahead
      terrain.Onto
  operand {now : Stage} {ahead : Case → List Token} (ready : terrain.Ready now ahead) :
    terrain.Passes depth (terrain.Varied .expression now) now (fun _ => operand) ahead terrain.Onto
  links (least : Precedence) {earlier now : Stage} {ahead : Case → List Token} {left : Case → Expr}
    (reaches : earlier.Reaches now) (varied : terrain.Varied .expression earlier now left)
    (onto : terrain.Onto now ahead) :
    terrain.Passes depth (terrain.Varied .expression earlier) now
      (fun case => links least (left case)) ahead terrain.Onto
  arguments {now : Stage} {ahead : Case → List Token} (onto : terrain.Onto now ahead) :
    terrain.Passes depth (terrain.Varied .expressions now) now (fun _ => arguments) ahead
      terrain.Onto
  moreArguments {now : Stage} {ahead : Case → List Token} (onto : terrain.Onto now ahead) :
    terrain.Passes depth (terrain.Varied .expressions now) now (fun _ => moreArguments) ahead
      terrain.Onto
  conditional {now : Stage} {ahead : Case → List Token} (onto : terrain.Onto now ahead) :
    terrain.Passes depth (terrain.Varied .expression now) now (fun _ => conditional) ahead
      terrain.Onto
  block {now : Stage} {ahead : Case → List Token} (ready : terrain.ReadyAt .leftBrace now ahead) :
    terrain.Passes depth (terrain.Varied .block now) now (fun _ => block) ahead terrain.Onto
  statement {now : Stage} {ahead : Case → List Token} (ready : terrain.Ready now ahead) :
    terrain.Passes depth (terrain.Varied .statement now) now (fun _ => statement) ahead
      terrain.Ended

section Uniform

variable {depth : Nat} (uniform : terrain.Uniform depth) {earlier now : Stage}
  {ahead : Case → List Token}

include uniform

theorem operand_passes (ready : terrain.Ready now ahead) :
    terrain.Passes (depth + 1) (terrain.Varied .expression now) now (fun _ => operand) ahead
      terrain.Onto := by
  refine settles_deeper (fun _ => operand.eq_1) (fun _ => operand.eq_2) ?_
  obtain ⟨token, looked, plain⟩ := terrain.look ready
  refine settles_current looked ?_
  have inner (op : UnaryOp) (isPlain : token.kind.Plain) :
      terrain.Passes depth (terrain.Varied .expression now) now (fun _ depth => do
        advance
        let inner ← expression .unary depth
        return .unary op inner) ahead terrain.Onto := by
    obtain ⟨_, rest, readyRest, rfl⟩ := terrain.used (plain isPlain)
    refine settles_advance (passes_then (uniform.expression .unary readyRest)
      fun later value rest _ varied onto => ?_)
    exact passes_pure (varied_one (Expr.unary op) (Context.unary op) (fun _ _ => rfl) varied) onto
  cases kind : token.kind <;> simp only [kind] at plain inner ⊢
  case identifier => exact passes_pure (Or.inl ⟨_, rfl⟩) (plain (by decide))
  case integer =>
    cases read : Text.Decimal.read? token.slice with
    | none =>
        simp only [integer, read]
        exact passes_fail_here (Or.inl ready)
    | some value =>
        simp only [integer, read]
        exact passes_pure (Or.inl ⟨_, rfl⟩) (plain (by decide))
  case trueWord | falseWord => exact passes_pure (Or.inl ⟨_, rfl⟩) (plain (by decide))
  case bang => exact inner .not (by decide)
  case minus => exact inner .negate (by decide)
  case leftParen =>
    obtain ⟨_, rest, readyRest, rfl⟩ := terrain.used (plain (by decide))
    refine settles_advance (passes_then (uniform.expression .lowest readyRest)
      fun later value rest _ varied onto => ?_)
    exact passes_expect onto fun _ _ _ plainClosing =>
      passes_pure varied (plainClosing (by decide))
  case ifWord => exact uniform.conditional (plain (by decide))
  case fnWord =>
    refine passes_expect (plain (by decide)) fun _ _ _ plainOpening => ?_
    refine passes_then (parameters_pass depth (plainOpening (by decide)))
      fun later names rest reaches fixed onto => ?_
    obtain ⟨names, rfl⟩ := fixed
    refine passes_expect onto fun _ readyBrace isBrace _ => ?_
    refine passes_then (uniform.block ⟨readyBrace, isBrace⟩) fun last body rest _ varied onto => ?_
    refine passes_pure (varied_one (Expr.function names) (Context.function names) (fun _ _ => rfl)
      (varied_earlier reaches varied)) onto
  all_goals exact passes_fail_here (Or.inl ready)

theorem expression_passes (least : Precedence) (ready : terrain.Ready now ahead) :
    terrain.Passes (depth + 1) (terrain.Varied .expression now) now (fun _ => expression least)
      ahead terrain.Onto := by
  refine settles_deeper (fun _ => expression.eq_1 least) (fun _ => expression.eq_2 least) ?_
  exact passes_then (uniform.operand ready) fun later left rest reaches varied onto =>
    uniform.links least reaches varied onto

theorem links_pass (least : Precedence) {left : Case → Expr} (reaches : earlier.Reaches now)
    (varied : terrain.Varied .expression earlier now left) (onto : terrain.Onto now ahead) :
    terrain.Passes (depth + 1) (terrain.Varied .expression earlier) now
      (fun case => links least (left case)) ahead terrain.Onto := by
  refine settles_deeper (fun case => links.eq_1 least (left case))
    (fun case => links.eq_2 least (left case)) ?_
  obtain ⟨next, rest, _, same, looked, plain⟩ := onto_next onto
  refine settles_peek looked ?_
  by_cases linked : least < Precedence.ofKind next.kind
  · simp only [if_pos linked]
    refine settles_advance ?_
    rw [same]
    have isPlain : next.kind.Plain := by
      rcases (link_is_operator_or_call next.kind).mp (lowest_lt_of_link linked) with isOp | isCall
      · revert isOp
        cases next.kind <;> decide
      · rw [isCall]
        decide
    have ontoNext := plain isPlain
    cases isOp : BinaryOp.ofKind? next.kind with
    | some op =>
        simp only
        obtain ⟨_, behind, readyBehind, rfl⟩ := terrain.used ontoNext
        refine settles_advance ?_
        refine passes_then (uniform.expression (Precedence.ofKind next.kind) readyBehind)
          fun later right after reachesLater variedRight ontoAfter => ?_
        have both := varied_two (fun before behind => Expr.binary before op behind)
          (fun context tree => Context.left context op tree)
          (fun tree context => Context.right tree op context) (fun _ _ _ => rfl) (fun _ _ _ => rfl)
          reaches reachesLater varied variedRight
        exact uniform.links least (Stage.reaches_trans reaches reachesLater) both ontoAfter
    | none =>
        simp only
        refine passes_then (uniform.arguments ontoNext)
          fun later values after reachesLater variedValues ontoAfter => ?_
        have both := varied_two Expr.call Context.callee Context.arguments (fun _ _ _ => rfl)
          (fun _ _ _ => rfl) reaches reachesLater varied variedValues
        exact uniform.links least (Stage.reaches_trans reaches reachesLater) both ontoAfter
  · simp only [if_neg linked]
    exact passes_pure varied onto

/-- The first expression of a list and then the others. -/
theorem first_passes (ready : terrain.Ready now ahead) :
    terrain.Passes depth (terrain.Varied .expressions now) now (fun _ depth => do
      let first ← expression .lowest depth
      let rest ← moreArguments depth
      return first :: rest) ahead terrain.Onto := by
  refine passes_then (uniform.expression .lowest ready)
    fun later first after reaches varied onto => ?_
  refine passes_then (uniform.moreArguments onto)
    fun last rest after reachesLast variedRest onto => ?_
  exact passes_pure (varied_two List.cons Context.first Context.later (fun _ _ _ => rfl)
    (fun _ _ _ => rfl) reaches reachesLast varied variedRest) onto

theorem arguments_pass (onto : terrain.Onto now ahead) :
    terrain.Passes (depth + 1) (terrain.Varied .expressions now) now (fun _ => arguments) ahead
      terrain.Onto := by
  refine settles_deeper (fun _ => arguments.eq_1) (fun _ => arguments.eq_2) ?_
  obtain ⟨next, rest, ready, same, looked, plain⟩ := onto_next onto
  refine settles_peek looked (settles_advance ?_)
  rw [same]
  by_cases closes : next.kind = .rightParen
  · simp only [if_pos closes]
    exact passes_pure (Or.inl ⟨[], rfl⟩) (plain (by rw [closes]; decide))
  · simp only [if_neg closes]
    exact first_passes uniform ready

theorem more_arguments_pass (onto : terrain.Onto now ahead) :
    terrain.Passes (depth + 1) (terrain.Varied .expressions now) now (fun _ => moreArguments) ahead
      terrain.Onto := by
  refine settles_deeper (fun _ => moreArguments.eq_1) (fun _ => moreArguments.eq_2) ?_
  obtain ⟨next, rest, _, same, looked, plain⟩ := onto_next onto
  refine settles_peek looked ?_
  by_cases comma : next.kind = .comma
  · simp only [if_pos comma]
    refine settles_advance ?_
    rw [same]
    obtain ⟨_, behind, readyBehind, rfl⟩ := terrain.used (plain (by rw [comma]; decide))
    exact settles_advance (first_passes uniform readyBehind)
  · simp only [if_neg comma]
    exact passes_expect onto fun _ _ _ plainClosing =>
      passes_pure (Or.inl ⟨[], rfl⟩) (plainClosing (by decide))

/-- A block that is read where one must open. -/
theorem expected_block_passes {Next : Type} {next : Case → Block → Nat → Rule Next}
    {Fits : Stage → (Case → Next) → Prop} {Place : Stage → (Case → List Token) → Prop}
    (onto : terrain.Onto now ahead)
    (second : ∀ later body rest, now.Reaches later → terrain.Varied .block now later body →
      terrain.Onto later rest →
      terrain.Passes depth Fits later (fun case => next case (body case)) rest Place) :
    terrain.Passes depth Fits now (fun case depth => do
      expect .leftBrace
      let body ← block depth
      next case body depth) ahead Place :=
  passes_expect onto fun _ ready isBrace _ => passes_then (uniform.block ⟨ready, isBrace⟩) second

theorem conditional_passes (onto : terrain.Onto now ahead) :
    terrain.Passes (depth + 1) (terrain.Varied .expression now) now (fun _ => conditional) ahead
      terrain.Onto := by
  refine settles_deeper (fun _ => conditional.eq_1) (fun _ => conditional.eq_2) ?_
  refine passes_expect onto fun _ _ _ plainOpening => ?_
  obtain ⟨_, behind, ready, rfl⟩ := terrain.used (plainOpening (by decide))
  refine settles_advance ?_
  refine passes_then (uniform.expression .lowest ready)
    fun tested test _ reaches varied ontoTest => ?_
  refine passes_expect ontoTest fun _ _ _ plainClosing => ?_
  refine expected_block_passes uniform (plainClosing (by decide))
    fun closed body afterBody reachesBody variedBody ontoBody => ?_
  have variedThen := varied_two Expr.ifThen Context.ifTest Context.ifBody (fun _ _ _ => rfl)
    (fun _ _ _ => rfl) reaches reachesBody varied variedBody
  obtain ⟨next, rest, _, same, looked, plain⟩ := onto_next ontoBody
  refine settles_peek looked ?_
  by_cases isElse : next.kind = .elseWord
  · simp only [if_pos isElse]
    refine settles_advance ?_
    rw [same]
    refine expected_block_passes uniform (plain (by rw [isElse]; decide))
      fun last other _ reachesOther variedOther ontoOther => ?_
    have variedAll := varied_if_else reaches reachesBody reachesOther varied variedBody variedOther
    exact passes_pure variedAll ontoOther
  · simp only [if_neg isElse]
    exact passes_pure variedThen ontoBody

/-- The end of a statement from its expression on. -/
theorem value_passes (make : Expr → Stmt) (grow : Context .expression → Context .statement)
    (filled : ∀ context body, (grow context).fill body = make (context.fill body))
    (ready : terrain.Ready now ahead) :
    terrain.Passes depth (terrain.Varied .statement now) now (fun _ depth => do
      let value ← expression .lowest depth
      skip .semicolon
      return make value) ahead terrain.Ended := by
  refine passes_then (uniform.expression .lowest ready) fun later value _ _ varied onto => ?_
  have variedStatement := varied_one make grow filled varied
  obtain ⟨next, rest, ready, same, looked, _⟩ := onto_next onto
  by_cases isSemicolon : next.kind = .semicolon
  · have ended : terrain.ReadyAt .semicolon later rest := by
      refine ⟨ready, fun case => ?_⟩
      rw [← same, looked, isSemicolon]
    refine settles_same (fun case depth => ?_) (passes_pure variedStatement (Or.inr ended))
    rw [run_skip_bind, looked, if_pos isSemicolon, ← same]
  · refine settles_same (fun case depth => ?_) (passes_pure variedStatement (Or.inl onto))
    rw [run_skip_bind, looked, if_neg isSemicolon]

theorem statement_passes (ready : terrain.Ready now ahead) :
    terrain.Passes (depth + 1) (terrain.Varied .statement now) now (fun _ => statement) ahead
      terrain.Ended := by
  refine settles_deeper (fun _ => statement.eq_1) (fun _ => statement.eq_2) ?_
  obtain ⟨token, looked, plain⟩ := terrain.look ready
  refine settles_current looked ?_
  cases kind : token.kind <;> simp only [kind] at plain ⊢
  case letWord =>
    refine passes_expect (plain (by decide)) fun _ _ _ plainName => ?_
    have ontoName := plainName (by decide)
    obtain ⟨name, _, _, rfl⟩ := terrain.used ontoName
    refine settles_current (fun _ => rfl) ?_
    refine passes_expect ontoName fun _ _ _ plainSign => ?_
    obtain ⟨_, after, readyAfter, rfl⟩ := terrain.used (plainSign (by decide))
    refine settles_advance ?_
    exact value_passes uniform (Stmt.bind name.slice) (Context.bind name.slice) (fun _ _ => rfl)
      readyAfter
  case returnWord =>
    obtain ⟨_, rest, readyRest, rfl⟩ := terrain.used (plain (by decide))
    refine settles_advance ?_
    exact value_passes uniform Stmt.return Context.return (fun _ _ => rfl) readyRest
  all_goals exact value_passes uniform Stmt.expr Context.expr (fun _ _ => rfl) ready

end Uniform

/-- The rules pass a terrain one level deeper if the rule for blocks does. -/
theorem uniform_deeper {depth : Nat} (uniform : terrain.Uniform depth)
    (block : ∀ {now ahead}, terrain.ReadyAt .leftBrace now ahead →
      terrain.Passes (depth + 1) (terrain.Varied .block now) now (fun _ => block) ahead
        terrain.Onto) : terrain.Uniform (depth + 1) where
  expression least := expression_passes uniform least
  operand := operand_passes uniform
  links least := links_pass uniform least
  arguments := arguments_pass uniform
  moreArguments := more_arguments_pass uniform
  conditional := conditional_passes uniform
  block := block
  statement := statement_passes uniform

theorem uniform_bottom (terrain : Terrain Case) : terrain.Uniform 0 where
  expression least _ _ _ := settles_bottom (expression.eq_1 least)
  operand _ := settles_bottom operand.eq_1
  links least _ _ _ _ _ _ _ := settles_bottom (links.eq_1 least _)
  arguments _ := settles_bottom arguments.eq_1
  moreArguments _ := settles_bottom moreArguments.eq_1
  conditional _ := settles_bottom conditional.eq_1
  block _ := settles_bottom block.eq_1
  statement _ := settles_bottom statement.eq_1

section Step

variable {list : Nat → Rule (List Stmt)} {go : List Token → Outcome Stmt → List Token}

/-- One statement and then the rest of a list, where reading goes on as `go` says. -/
theorem always_step {mark : EndMark} {start stop after rest : List Token} {found : Option Stmt}
    {result : Option (List Stmt)} {errors more : List SyntaxError} (bottom : list 0 = tooDeep)
    (step : ∀ depth, list (depth + 1) mark start = (statement depth mark start).bind fun read =>
      (list depth mark (go start read)).map (precede read))
    (first : Always statement mark start found errors stop)
    (goes : ∀ reports, go start ⟨found, reports, stop⟩ = after)
    (second : Always list mark after result more rest) :
    Always list mark start (result.map (found.toList ++ ·)) (errors ++ more) rest := by
  intro depth outcome ran
  cases depth with
  | zero =>
      rw [bottom] at ran
      cases ran
  | succ depth =>
      rw [step] at ran
      obtain ⟨⟨read, reports, ahead⟩, later, ranRead, ranLater, rfl⟩ := runs_of_step ran
      obtain ⟨sameRead, sameErrors, sameStop⟩ := first depth _ ranRead
      cases sameRead
      cases sameStop
      rw [goes] at ranLater
      obtain ⟨sameResult, sameMore, sameRest⟩ := second depth _ ranLater
      refine ⟨?_, ?_, sameRest⟩
      · simp only [precede, sameResult]
      · simp only [precede, List.map_append, sameMore]
        rw [← sameErrors]

theorem always_block_end {mark : EndMark} {ahead : List Token}
    (closes : (ahead.headD mark.token).kind = .rightBrace) :
    Always blockStatements mark ahead (some []) [] ahead := by
  intro depth outcome ran
  cases depth with
  | zero => cases ran
  | succ depth =>
      rw [block_end depth closes] at ran
      cases ran
      exact ⟨rfl, rfl, rfl⟩

theorem always_program_end {mark : EndMark} {ahead : List Token}
    (ended : (ahead.headD mark.token).kind = .endMark) :
    Always program mark ahead (some []) [] ahead := by
  intro depth outcome ran
  cases depth with
  | zero => cases ran
  | succ depth =>
      rw [program_end depth ended] at ran
      cases ran
      exact ⟨rfl, rfl, rfl⟩

theorem always_unclosed {mark : EndMark} {ahead : List Token}
    (ended : (ahead.headD mark.token).kind = .endMark) :
    Always blockStatements mark ahead none [.unexpected .rightBrace (ahead.headD mark.token)]
      ahead := by
  intro depth outcome ran
  cases depth with
  | zero => cases ran
  | succ depth =>
      rw [block_unclosed depth ended] at ran
      cases ran
      exact ⟨rfl, rfl, rfl⟩

theorem settles_step {depth : Nat} {start : Case → List Token}
    (gone : List Token → List Token → List Token)
    {First : (Case → Stmt) → (Case → List SyntaxError) → (Case → List Token) → Prop}
    {Good : (Case → List Stmt) → (Case → List SyntaxError) → (Case → List Token) → Prop}
    {Failed Bad : (Case → List SyntaxError) → (Case → List Token) → Prop}
    (bottom : list 0 = tooDeep)
    (step : ∀ case depth, list (depth + 1) (terrain.mark case) (start case) =
      (statement depth (terrain.mark case) (start case)).bind fun read =>
        (list depth (terrain.mark case) (go (start case) read)).map (precede read))
    (kept : ∀ start value reports ahead, go start ⟨some value, reports, ahead⟩ = ahead.tail)
    (left : ∀ start reports ahead, go start ⟨none, reports, ahead⟩ = gone start ahead)
    (first : terrain.Settles depth (fun _ => statement) start First Failed)
    (read : ∀ value errors stop, First value errors stop →
      terrain.Settles depth (fun _ => list) (fun case => (stop case).tail)
        (fun more e => Good (fun case => value case :: more case) fun case => errors case ++ e case)
        (fun e => Bad fun case => errors case ++ e case))
    (failed : ∀ errors stop, Failed errors stop →
      stop terrain.sample <:+ start terrain.sample →
      terrain.Settles depth (fun _ => list) (fun case => gone (start case) (stop case))
        (fun more e => Good more fun case => errors case ++ e case)
        (fun e => Bad fun case => errors case ++ e case)) :
    terrain.Settles (depth + 1) (fun _ => list) start Good Bad := by
  rintro ⟨outcome, ran⟩
  have ran : list (depth + 1) (terrain.mark terrain.sample) (start terrain.sample) = some outcome :=
    ran
  rw [step] at ran
  obtain ⟨⟨found, reports, ahead⟩, later, ranRead, ranLater, rfl⟩ := runs_of_step ran
  have within := ((rules_account depth).statement _ _ _ ranRead).1
  rcases first ⟨_, ranRead⟩ with ⟨value, errors, stop, good, always⟩ | ⟨errors, stop, bad, always⟩
  · obtain ⟨sameFound, _, sameStop⟩ := always terrain.sample depth _ ranRead
    cases sameFound
    cases sameStop
    rw [kept] at ranLater
    rcases read value errors stop good ⟨later, ranLater⟩ with
      ⟨more, e, rest, goodAll, each⟩ | ⟨e, rest, badAll, each⟩
    · exact Or.inl ⟨_, _, rest, goodAll, fun case =>
        always_step bottom (step case) (always case) (fun _ => kept _ _ _ _) (each case)⟩
    · exact Or.inr ⟨_, rest, badAll, fun case =>
        always_step bottom (step case) (always case) (fun _ => kept _ _ _ _) (each case)⟩
  · obtain ⟨sameFound, _, sameStop⟩ := always terrain.sample depth _ ranRead
    cases sameFound
    cases sameStop
    rw [left] at ranLater
    rcases failed errors stop bad within ⟨later, ranLater⟩ with
      ⟨more, e, rest, goodAll, each⟩ | ⟨e, rest, badAll, each⟩
    · exact Or.inl ⟨more, _, rest, goodAll, fun case =>
        always_step bottom (step case) (always case) (fun _ => left _ _ _) (each case)⟩
    · exact Or.inr ⟨_, rest, badAll, fun case =>
        always_step bottom (step case) (always case) (fun _ => left _ _ _) (each case)⟩

end Step

/-- A list of statements is read in all cases, to such a place, or reading gets stuck in all of
them. -/
def Terrain.Lists (terrain : Terrain Case) (depth : Nat) (list : Nat → Rule (List Stmt))
    (now : Stage) (ahead : Case → List Token)
    (Place Stuck : Stage → (Case → List Token) → Prop) : Prop :=
  terrain.Settles depth (fun _ => list) ahead
    (terrain.Arrives (terrain.Varied .statements now) now Place)
    fun errors rest => ∃ later, now.Reaches later ∧ terrain.Reported now later errors ∧
      Stuck later rest

section Lists

variable {depth : Nat} {list : Nat → Rule (List Stmt)} {now later : Stage}
  {ahead : Case → List Token} {errors : Case → List SyntaxError}
  {Place Stuck : Stage → (Case → List Token) → Prop}

/-- A list goes on behind its first statement. -/
theorem lists_behind {value : Case → Stmt} (reaches : now.Reaches later)
    (varied : terrain.Varied .statement now later value)
    (reported : terrain.Reported now later errors)
    (lists : terrain.Lists depth list later ahead Place Stuck) :
    terrain.Settles depth (fun _ => list) ahead
      (fun more e => terrain.Arrives (terrain.Varied .statements now) now Place
        (fun case => value case :: more case) fun case => errors case ++ e case)
      fun e rest => ∃ last, now.Reaches last ∧
        terrain.Reported now last (fun case => errors case ++ e case) ∧ Stuck last rest := by
  refine settles_mono lists ?_ ?_
  · rintro more e rest ⟨last, reachesLast, variedMore, reportedMore, place⟩
    have both := varied_two List.cons Context.firstStatement Context.laterStatements
      (fun _ _ _ => rfl) (fun _ _ _ => rfl) reaches reachesLast varied variedMore
    exact ⟨last, Stage.reaches_trans reaches reachesLast, both,
      reported_append reaches reachesLast reported reportedMore, place⟩
  · rintro e rest ⟨last, reachesLast, reportedMore, stuck⟩
    exact ⟨last, Stage.reaches_trans reaches reachesLast,
      reported_append reaches reachesLast reported reportedMore, stuck⟩

/-- A list goes on where a broken statement was passed. -/
theorem lists_past (reaches : now.Reaches later) (reported : terrain.Reported now later errors)
    (lists : terrain.Lists depth list later ahead Place Stuck) :
    terrain.Settles depth (fun _ => list) ahead
      (fun more e => terrain.Arrives (terrain.Varied .statements now) now Place more
        fun case => errors case ++ e case)
      fun e rest => ∃ last, now.Reaches last ∧
        terrain.Reported now last (fun case => errors case ++ e case) ∧ Stuck last rest := by
  refine settles_mono lists ?_ ?_
  · rintro more e rest ⟨last, reachesLast, variedMore, reportedMore, place⟩
    exact ⟨last, Stage.reaches_trans reaches reachesLast, varied_earlier reaches variedMore,
      reported_append reaches reachesLast reported reportedMore, place⟩
  · rintro e rest ⟨last, reachesLast, reportedMore, stuck⟩
    exact ⟨last, Stage.reaches_trans reaches reachesLast,
      reported_append reaches reachesLast reported reportedMore, stuck⟩

end Lists

end Scriptlet
