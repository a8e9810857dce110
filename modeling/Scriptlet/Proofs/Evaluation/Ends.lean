import Scriptlet.Proofs.Evaluation.Depth

/-!
Outcomes of evaluation, without the depth of calls that they are reached with. There is at most
one outcome, and for each form of the tree it is determined by the outcomes of the parts that are
evaluated.
-/

namespace Scriptlet

open Evaluation

def Stmt.evaluate (stmt : Stmt) (depth : Nat) : Evaluation (Option Value) :=
  statement (callWithin depth) stmt

def evaluateAll (exprs : List Expr) (depth : Nat) : Evaluation (Except Value (List Value)) :=
  expressions (callWithin depth) exprs

/-- What a block yields if `last` is what was yielded before it, with calls nested at most `depth`
deep. -/
def Block.evaluateAfter (last : Option Value) (block : Block) (depth : Nat) :
    Evaluation (Option Value) :=
  Evaluation.block (callWithin depth) last block

def Value.call (callee : Value) (values : List Value) (depth : Nat) : Evaluation Value :=
  callWithin depth callee values

namespace Evaluation

variable {Result Next : Type}

def Deepens (evaluation : (depth : Nat) → Evaluation Result) : Prop :=
  ∀ depth, Extends (evaluation depth) (evaluation (depth + 1))

theorem pure_deepens (result : Result) :
    Deepens fun _ => (pure result : Evaluation Result) := fun _ => extends_refl _

theorem bind_deepens {evaluation : (depth : Nat) → Evaluation Result}
    {next : Result → (depth : Nat) → Evaluation Next} (first : Deepens evaluation)
    (second : ∀ result, Deepens (next result)) :
    Deepens fun depth => evaluation depth >>= fun result => next result depth :=
  fun depth => bind_extends (first depth) fun result => second result depth

theorem call_deepens (callee : Value) (values : List Value) : Deepens (callee.call values) :=
  fun depth => call_within_extends depth callee values

theorem expression_deepens (expr : Expr) : Deepens expr.evaluate :=
  fun depth => expression_extends (call_within_extends depth) expr

theorem expressions_deepen (exprs : List Expr) : Deepens (evaluateAll exprs) :=
  fun depth => expressions_extend (call_within_extends depth) exprs

theorem statement_deepens (stmt : Stmt) : Deepens stmt.evaluate :=
  fun depth => statement_extends (call_within_extends depth) stmt

theorem block_deepens (last : Option Value) (block : Block) :
    Deepens (Block.evaluateAfter last block) :=
  fun depth => block_extends (call_within_extends depth) last block

/-- With calls nested deep enough, an evaluation has this result and leaves this evaluator. -/
def Ends (evaluation : (depth : Nat) → Evaluation Result) (start : Evaluator) (result : Result)
    (final : Evaluator) : Prop :=
  ∃ depth, evaluation depth start = some (result, final)

def Terminates (evaluation : (depth : Nat) → Evaluation Result) (start : Evaluator) : Prop :=
  ∃ result final, Ends evaluation start result final

section Ends

variable {evaluation : (depth : Nat) → Evaluation Result} {start final : Evaluator}

theorem ends_of_run {depth : Nat} {result : Result}
    (came : (evaluation depth start).map Prod.fst = some result) :
    ∃ final, Ends evaluation start result final := by
  obtain ⟨⟨_, final⟩, ran, rfl⟩ := Option.map_eq_some_iff.mp came
  exact ⟨final, depth, ran⟩

theorem outcome_deeper (deepens : Deepens evaluation) {depth deeper : Nat}
    (more : depth ≤ deeper) : Extends (evaluation depth) (evaluation deeper) := by
  induction more with
  | refl => exact extends_refl _
  | step _ induction => exact fun _ _ ran => deepens _ _ _ (induction _ _ ran)

theorem ends_unique (deepens : Deepens evaluation) {result other : Result}
    {final final' : Evaluator} (ended : Ends evaluation start result final)
    (ended' : Ends evaluation start other final') : result = other ∧ final = final' := by
  obtain ⟨depth, ran⟩ := ended
  obtain ⟨depth', ran'⟩ := ended'
  -- Each run keeps its outcome at the greater of the two depths, where there is only one.
  have deep := outcome_deeper deepens (Nat.le_max_left depth depth') _ _ ran
  have deep' := outcome_deeper deepens (Nat.le_max_right depth depth') _ _ ran'
  rw [deep] at deep'
  exact Prod.mk.inj (Option.some.inj deep')

theorem ends_pure_iff {value result : Result} :
    Ends (fun _ => pure value) start result final ↔ result = value ∧ final = start := by
  constructor
  · rintro ⟨depth, ran⟩
    obtain ⟨rfl, rfl⟩ := Prod.mk.inj (Option.some.inj ran)
    exact ⟨rfl, rfl⟩
  · rintro ⟨rfl, rfl⟩
    exact ⟨0, rfl⟩

theorem ends_bind_iff {next : Result → (depth : Nat) → Evaluation Next}
    (deepens : Deepens evaluation) (nextDeepens : ∀ result, Deepens (next result))
    {result : Next} :
    Ends (fun depth => evaluation depth >>= fun first => next first depth) start result final ↔
      ∃ first middle, Ends evaluation start first middle ∧
        Ends (next first) middle result final := by
  constructor
  · rintro ⟨depth, ran⟩
    obtain ⟨⟨first, middle⟩, ranFirst, ranNext⟩ := Option.bind_eq_some_iff.mp ran
    exact ⟨first, middle, ⟨depth, ranFirst⟩, ⟨depth, ranNext⟩⟩
  · rintro ⟨first, middle, ⟨depth, ranFirst⟩, ⟨depth', ranNext⟩⟩
    have deep := outcome_deeper deepens (Nat.le_max_left depth depth') _ _ ranFirst
    have deep' := outcome_deeper (nextDeepens first) (Nat.le_max_right depth depth') _ _ ranNext
    exact ⟨max depth depth', Option.bind_eq_some_iff.mpr ⟨_, deep, deep'⟩⟩

theorem ends_map_iff {map : Result → Next} {result : Next} :
    Ends (fun depth => evaluation depth >>= fun first => pure (map first)) start result final ↔
      ∃ first, Ends evaluation start first final ∧ result = map first := by
  constructor
  · rintro ⟨depth, ran⟩
    obtain ⟨⟨first, middle⟩, ranFirst, ranNext⟩ := Option.bind_eq_some_iff.mp ran
    obtain ⟨rfl, rfl⟩ := Prod.mk.inj (Option.some.inj ranNext)
    exact ⟨first, ⟨depth, ranFirst⟩, rfl⟩
  · rintro ⟨first, ⟨depth, ranFirst⟩, rfl⟩
    exact ⟨depth, Option.bind_eq_some_iff.mpr ⟨_, ranFirst, rfl⟩⟩

end Ends

section AndThen

variable {evaluation : (depth : Nat) → Evaluation Value} {start final : Evaluator} {value : Value}

theorem ends_and_then_iff {next : Value → (depth : Nat) → Evaluation Value}
    (deepens : Deepens evaluation) (nextDeepens : ∀ value, Deepens (next value)) :
    Ends (fun depth => (evaluation depth).andThen fun first => next first depth) start value
        final ↔
      ∃ first middle, Ends evaluation start first middle ∧
        if first.isSignal then value = first ∧ final = middle
        else Ends (next first) middle value final := by
  have split (first : Value) : Deepens fun depth =>
      (if first.isSignal then pure first else next first depth : Evaluation Value) := by
    split
    · exact pure_deepens first
    · exact nextDeepens first
  refine (ends_bind_iff deepens split).trans ?_
  refine exists_congr fun first => exists_congr fun middle => and_congr_right fun _ => ?_
  split
  · exact ends_pure_iff
  · rfl

theorem ends_branch_iff {body : (depth : Nat) → Evaluation (Option Value)} :
    Ends (fun depth => branch (body depth)) start value final ↔
      ∃ result inner,
        Ends body ⟨(start.store.addChild start.current).2, start.store.size⟩ result inner ∧
          value = result.getD .null ∧ final = ⟨inner.store, start.current⟩ := by
  constructor
  · rintro ⟨depth, ran⟩
    have ran := (run_branch start (body depth)).symm.trans ran
    obtain ⟨⟨result, inner⟩, ranBody, same⟩ := Option.map_eq_some_iff.mp ran
    obtain ⟨rfl, rfl⟩ := Prod.mk.inj same
    exact ⟨result, inner, ⟨depth, ranBody⟩, rfl, rfl⟩
  · rintro ⟨result, inner, ⟨depth, ranBody⟩, rfl, rfl⟩
    exact ⟨depth, (run_branch start _).trans (by rw [ranBody]; rfl)⟩

theorem branch_deepens {body : (depth : Nat) → Evaluation (Option Value)} (deepens : Deepens body) :
    Deepens fun depth => branch (body depth) := fun depth => branch_extends (deepens depth)

end AndThen

section Forms

variable {start final : Evaluator} {value : Value}

theorem name_ends_iff {name : String} :
    Ends (Expr.name name).evaluate start value final ↔
      value = (start.store.lookup start.current name).getD (Fault.unbound name).value ∧
        final = start := by
  constructor
  · rintro ⟨depth, ran⟩
    obtain ⟨rfl, rfl⟩ := Prod.mk.inj (Option.some.inj ran)
    exact ⟨rfl, rfl⟩
  · rintro ⟨rfl, rfl⟩
    exact ⟨0, rfl⟩

theorem int_ends_iff {literal : Int64} :
    Ends (Expr.int literal).evaluate start value final ↔ value = .int literal ∧ final = start :=
  ends_pure_iff

theorem bool_ends_iff {literal : Bool} :
    Ends (Expr.bool literal).evaluate start value final ↔ value = .bool literal ∧ final = start :=
  ends_pure_iff

theorem function_ends_iff {parameters : List String} {body : Block} :
    Ends (Expr.function parameters body).evaluate start value final ↔
      value = .function parameters body start.current ∧ final = start := by
  constructor
  · rintro ⟨depth, ran⟩
    obtain ⟨rfl, rfl⟩ := Prod.mk.inj (Option.some.inj ran)
    exact ⟨rfl, rfl⟩
  · rintro ⟨rfl, rfl⟩
    exact ⟨0, rfl⟩

theorem unary_ends_iff {op : UnaryOp} {operand : Expr} :
    Ends (Expr.unary op operand).evaluate start value final ↔
      ∃ inner middle, Ends operand.evaluate start inner middle ∧
        if inner.isSignal then value = inner ∧ final = middle
        else value = op.apply inner ∧ final = middle := by
  refine (ends_and_then_iff (expression_deepens operand)
    fun inner => pure_deepens (op.apply inner)).trans ?_
  simp only [ends_pure_iff]

theorem binary_ends_iff {left right : Expr} {op : BinaryOp} :
    Ends (Expr.binary left op right).evaluate start value final ↔
      ∃ first middle, Ends left.evaluate start first middle ∧
        if first.isSignal then value = first ∧ final = middle
        else ∃ second last, Ends right.evaluate middle second last ∧
          if second.isSignal then value = second ∧ final = last
          else value = op.apply first second ∧ final = last := by
  refine (ends_and_then_iff (expression_deepens left) fun first depth =>
    and_then_extends (expression_deepens right depth) fun _ => extends_refl _).trans ?_
  refine exists_congr fun first => exists_congr fun middle => and_congr_right fun _ => ?_
  split
  · rfl
  · refine (ends_and_then_iff (expression_deepens right)
      fun second => pure_deepens (op.apply first second)).trans ?_
    simp only [ends_pure_iff]

theorem if_then_ends_iff {condition : Expr} {consequence : Block} :
    Ends (Expr.ifThen condition consequence).evaluate start value final ↔
      ∃ chosen middle, Ends condition.evaluate start chosen middle ∧
        if chosen.isSignal then value = chosen ∧ final = middle
        else if chosen.truthy then
          Ends (fun depth => branch (consequence.evaluate depth)) middle value final
        else value = .null ∧ final = middle := by
  have either (chosen : Value) : Deepens fun depth =>
      (if chosen.truthy then branch (consequence.evaluate depth) else pure .null :
        Evaluation Value) := by
    split
    · exact branch_deepens (block_deepens none consequence)
    · exact pure_deepens Value.null
  refine (ends_and_then_iff (expression_deepens condition) either).trans ?_
  refine exists_congr fun chosen => exists_congr fun middle => and_congr_right fun _ => ?_
  split
  · rfl
  · split
    · rfl
    · exact ends_pure_iff

theorem if_else_ends_iff {condition : Expr} {consequence alternative : Block} :
    Ends (Expr.ifElse condition consequence alternative).evaluate start value final ↔
      ∃ chosen middle, Ends condition.evaluate start chosen middle ∧
        if chosen.isSignal then value = chosen ∧ final = middle
        else if chosen.truthy then
          Ends (fun depth => branch (consequence.evaluate depth)) middle value final
        else Ends (fun depth => branch (alternative.evaluate depth)) middle value final := by
  have either (chosen : Value) : Deepens fun depth =>
      (if chosen.truthy then branch (consequence.evaluate depth)
        else branch (alternative.evaluate depth) : Evaluation Value) := by
    split
    · exact branch_deepens (block_deepens none consequence)
    · exact branch_deepens (block_deepens none alternative)
  refine (ends_and_then_iff (expression_deepens condition) either).trans ?_
  refine exists_congr fun chosen => exists_congr fun middle => and_congr_right fun _ => ?_
  split
  · rfl
  · split <;> rfl

theorem call_ends_iff {callee : Expr} {arguments : List Expr} :
    Ends (Expr.call callee arguments).evaluate start value final ↔
      ∃ function middle, Ends callee.evaluate start function middle ∧
        if function.isSignal then value = function ∧ final = middle
        else ∃ values last, Ends (evaluateAll arguments) middle values last ∧
          match values with
          | .error signal => value = signal ∧ final = last
          | .ok values => Ends (function.call values) last value final := by
  have goOn (function : Value) (values : Except Value (List Value)) : Deepens fun depth =>
      (match values with
      | .error signal => pure signal
      | .ok values => function.call values depth : Evaluation Value) := by
    cases values with
    | error signal => exact pure_deepens signal
    | ok values => exact call_deepens function values
  refine (ends_and_then_iff (expression_deepens callee) fun function =>
    bind_deepens (expressions_deepen arguments) (goOn function)).trans ?_
  refine exists_congr fun function => exists_congr fun middle => and_congr_right fun _ => ?_
  split
  · rfl
  · refine (ends_bind_iff (expressions_deepen arguments) (goOn function)).trans ?_
    refine exists_congr fun values => exists_congr fun last => and_congr_right fun _ => ?_
    cases values with
    | error signal => exact ends_pure_iff
    | ok values => rfl

end Forms

section Lists

variable {start final : Evaluator}

theorem no_expressions_end_iff {values : Except Value (List Value)} :
    Ends (evaluateAll []) start values final ↔ values = .ok [] ∧ final = start := ends_pure_iff

theorem expressions_end_iff {first : Expr} {rest : List Expr}
    {values : Except Value (List Value)} :
    Ends (evaluateAll (first :: rest)) start values final ↔
      ∃ value middle, Ends first.evaluate start value middle ∧
        if value.isSignal then values = .error value ∧ final = middle
        else ∃ others, Ends (evaluateAll rest) middle others final ∧
          values = others.map (value :: ·) := by
  have goOn (value : Value) : Deepens fun depth =>
      (if value.isSignal then pure (.error value)
        else evaluateAll rest depth >>= fun values => pure (values.map (value :: ·)) :
        Evaluation (Except Value (List Value))) := by
    split
    · exact pure_deepens _
    · exact bind_deepens (expressions_deepen rest) fun _ => pure_deepens _
  refine (ends_bind_iff (expression_deepens first) goOn).trans ?_
  refine exists_congr fun value => exists_congr fun middle => and_congr_right fun _ => ?_
  split
  · exact ends_pure_iff
  · exact ends_map_iff

theorem empty_block_ends_iff {last result : Option Value} :
    Ends (Block.evaluateAfter last []) start result final ↔ result = last ∧ final = start :=
  ends_pure_iff

theorem block_ends_iff {first : Stmt} {rest : Block} {last result : Option Value} :
    Ends (Block.evaluateAfter last (first :: rest)) start result final ↔
      ∃ value middle, Ends first.evaluate start value middle ∧
        if value.any Value.isSignal then result = value ∧ final = middle
        else Ends (Block.evaluateAfter value rest) middle result final := by
  have goOn (value : Option Value) : Deepens fun depth =>
      (if value.any Value.isSignal then pure value
        else Block.evaluateAfter value rest depth : Evaluation (Option Value)) := by
    split
    · exact pure_deepens _
    · exact block_deepens value rest
  refine (ends_bind_iff (statement_deepens first) goOn).trans ?_
  refine exists_congr fun value => exists_congr fun middle => and_congr_right fun _ => ?_
  split
  · exact ends_pure_iff
  · rfl

end Lists

section Statements

variable {start final : Evaluator} {result : Option Value}

theorem bind_ends_iff {name : String} {expr : Expr} :
    Ends (Stmt.bind name expr).evaluate start result final ↔
      ∃ value middle, Ends expr.evaluate start value middle ∧
        if value.isSignal then result = some value ∧ final = middle
        else result = none ∧
          final = ⟨middle.store.bind middle.current name value, middle.current⟩ := by
  have goOn (value : Value) : Deepens fun _ =>
      (if value.isSignal then pure (some value)
        else bindName name value >>= fun _ => pure none : Evaluation (Option Value)) :=
    fun _ => extends_refl _
  refine (ends_bind_iff (expression_deepens expr) goOn).trans ?_
  refine exists_congr fun value => exists_congr fun middle => and_congr_right fun _ => ?_
  split
  · exact ends_pure_iff
  · constructor
    · rintro ⟨_, ran⟩
      obtain ⟨rfl, rfl⟩ := Prod.mk.inj (Option.some.inj ran)
      exact ⟨rfl, rfl⟩
    · rintro ⟨rfl, rfl⟩
      exact ⟨0, rfl⟩

theorem return_ends_iff {expr : Expr} :
    Ends (Stmt.return expr).evaluate start result final ↔
      ∃ value, Ends expr.evaluate start value final ∧
        result = some (if value.isSignal then value else .returned value) := ends_map_iff

theorem expr_ends_iff {expr : Expr} :
    Ends (Stmt.expr expr).evaluate start result final ↔
      ∃ value, Ends expr.evaluate start value final ∧ result = some value := ends_map_iff

theorem program_ends_iff {program : Program} :
    Ends program.evaluate start result final ↔
      ∃ value, Ends (Block.evaluate program) start value final ∧ result = value.map Value.unwrap :=
  ends_map_iff

def entered (start : Evaluator) (parameters : List String) (home : Handle)
    (values : List Value) : Evaluator :=
  ⟨(start.store.add ((Scope.empty (some home)).bindAll parameters values)).2, start.store.size⟩

theorem function_call_ends_iff {parameters : List String} {body : Block} {home : Handle}
    {values : List Value} {value : Value} :
    Ends ((Value.function parameters body home).call values) start value final ↔
      ∃ result inner, Ends body.evaluate (entered start parameters home values) result inner ∧
        value = (result.getD .null).unwrap ∧ final = ⟨inner.store, start.current⟩ := by
  constructor
  · rintro ⟨depth, ran⟩
    cases depth with
    | zero => cases ran
    | succ depth =>
        obtain ⟨⟨result, middle⟩, ranWithin, same⟩ := Option.bind_eq_some_iff.mp ran
        obtain ⟨rfl, rfl⟩ := Prod.mk.inj (Option.some.inj same)
        have ranWithin := (run_within _ _ _).symm.trans ranWithin
        obtain ⟨⟨reached, inner⟩, ranBody, same⟩ := Option.map_eq_some_iff.mp ranWithin
        obtain ⟨rfl, rfl⟩ := Prod.mk.inj same
        exact ⟨reached, inner, ⟨depth, ranBody⟩, rfl, rfl⟩
  · rintro ⟨result, inner, ⟨depth, ranBody⟩, rfl, rfl⟩
    refine ⟨depth + 1,
      Option.bind_eq_some_iff.mpr ⟨(result, ⟨inner.store, start.current⟩), ?_, rfl⟩⟩
    exact (run_within _ _ _).trans (Option.map_eq_some_iff.mpr ⟨_, ranBody, rfl⟩)

theorem other_call_ends_iff {callee value : Value} {values : List Value}
    (other : callee.type ≠ .function) :
    Ends (callee.call values) start value final ↔
      value = (Fault.notFunction callee.type).value ∧ final = start := by
  have called (depth : Nat) :
      callee.call values (depth + 1) = pure (Fault.notFunction callee.type).value := by
    cases callee <;> first | rfl | exact absurd rfl other
  constructor
  · rintro ⟨depth, ran⟩
    cases depth with
    | zero => cases ran
    | succ depth =>
        rw [called] at ran
        obtain ⟨rfl, rfl⟩ := Prod.mk.inj (Option.some.inj ran)
        exact ⟨rfl, rfl⟩
  · rintro ⟨rfl, rfl⟩
    exact ⟨1, by rw [called]; rfl⟩

end Statements

end Evaluation

end Scriptlet
