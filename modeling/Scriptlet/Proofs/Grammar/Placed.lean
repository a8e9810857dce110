import Mathlib.Data.List.Infix
import Mathlib.Tactic.SplitIfs
import Scriptlet.Proofs.Grammar.Machine

/-!
Where reading stands at each moment. Steps move on in the tokens and add reports at the end. When
recovery begins, the current token is none before the start of the broken statement; and where a
block is called for, its opening brace is current.
-/

namespace Scriptlet.Grammar

section Scripts

variable (mark : EndMark) (origin : List Token) {Result : Type}

/-- The actions of the script are in place if it goes on at these tokens, wherever its calls leave
reading: recovery looks back on tokens from the origin on, and blocks begin on their braces. -/
@[simp]
def Script.Placed : Script Result → List Token → Prop
  | .done _, _ | .failHere _, _ | .failNext _, _ => True
  | .current next, ahead => (next (ahead.headD mark.token)).Placed ahead
  | .peek next, ahead => (next (ahead.tail.headD mark.token)).Placed ahead
  | .advance next, ahead => next.Placed ahead.tail
  | .remaining next, ahead => (next ahead).Placed ahead
  | .recover start next, ahead =>
      ahead <:+ start ∧ start <:+ origin ∧
        ∀ closed rest, rest <:+ ahead → (next closed).Placed rest
  | .call callee next, ahead =>
      (callee = .block → (ahead.headD mark.token).kind = .leftBrace) ∧
        ∀ result rest, rest <:+ ahead → (next result).Placed rest
  | .attempt next, ahead => ∀ read rest, rest <:+ ahead → (next read).Placed rest

variable {mark origin} {ahead : List Token}

theorem placed_expect {kind : TokenKind} {next : Script Result}
    (placed : (ahead.tail.headD mark.token).kind = kind → next.Placed mark origin ahead.tail) :
    (Script.expect kind next).Placed mark origin ahead := by
  rw [Script.expect, Script.Placed]
  split
  · next found => exact placed found
  · trivial

theorem placed_ite {condition : Prop} [Decidable condition] {script other : Script Result}
    (holds : condition → script.Placed mark origin ahead)
    (fails : ¬condition → other.Placed mark origin ahead) :
    (if condition then script else other).Placed mark origin ahead := by
  split
  · next held => exact holds held
  · next failed => exact fails failed

/-- A call of a rule that needs no brace. -/
theorem placed_call {callee : Call} {next : callee.Result → Script Result} (other : callee ≠ .block)
    (placed : ∀ result rest, rest <:+ ahead → (next result).Placed mark origin rest) :
    (Script.call callee next).Placed mark origin ahead :=
  ⟨fun isBlock => absurd isBlock other, placed⟩

/-- A block is called for where an opening brace has been found. -/
theorem placed_block {next : Block → Script Result}
    (placed : ∀ body rest, (next body).Placed mark origin rest) :
    (Script.expect .leftBrace (.call .block next)).Placed mark origin ahead :=
  placed_expect fun found => ⟨fun _ => found, fun body rest _ => placed body rest⟩

theorem placed_parameters {next : List String → Script Result}
    (placed : ∀ names rest, (next names).Placed mark origin rest) :
    (Script.parameters next).Placed mark origin ahead :=
  placed_ite (fun _ => placed [] _) fun _ => placed_expect fun _ =>
    placed_call nofun fun _ _ _ => placed _ _

theorem placed_value (make : Expr → Stmt) : (Script.value make).Placed mark origin ahead :=
  placed_call nofun fun _ _ _ => placed_ite (fun _ => trivial) fun _ => trivial

theorem placed_prefixed (op : UnaryOp) : (Script.prefixed op).Placed mark origin ahead :=
  placed_call nofun fun _ _ _ => trivial

theorem placed_operand : Call.operand.script.Placed mark origin ahead := by
  rw [Call.script, Script.Placed]
  cases (ahead.headD mark.token).kind
  case integer => cases Text.Decimal.read? (ahead.headD mark.token).slice <;> trivial
  case bang => exact placed_prefixed .not
  case minus => exact placed_prefixed .negate
  case leftParen =>
    exact placed_call nofun fun _ _ _ => placed_expect fun _ => trivial
  case ifWord => exact placed_call nofun fun _ _ _ => trivial
  case fnWord =>
    refine placed_expect fun _ => placed_parameters fun _ _ => ?_
    exact placed_block fun _ _ => trivial
  all_goals trivial

theorem placed_links (least : Precedence) (left : Expr) :
    (Call.links least left).script.Placed mark origin ahead := by
  refine placed_ite (fun _ => ?_) fun _ => trivial
  rw [Script.Placed]
  cases BinaryOp.ofKind? (ahead.tail.headD mark.token).kind with
  | some op => exact placed_call nofun fun _ _ _ => placed_call nofun fun _ _ _ => trivial
  | none => exact placed_call nofun fun _ _ _ => placed_call nofun fun _ _ _ => trivial

theorem placed_statement : Call.statement.script.Placed mark origin ahead := by
  rw [Call.script, Script.Placed]
  cases (ahead.headD mark.token).kind
  case letWord => exact placed_expect fun _ => placed_expect fun _ => placed_value _
  case returnWord => exact placed_value .return
  all_goals exact placed_value .expr

/-- A statement is attempted where a list goes on, and recovery looks back to that place. -/
theorem placed_attempt {kept : Stmt → Script Result} {left : Bool → Script Result}
    (within : ahead <:+ origin) (placedKept : ∀ first rest, (kept first).Placed mark origin rest)
    (placedLeft : ∀ closed rest, (left closed).Placed mark origin rest) :
    (Script.remaining fun start => .attempt fun
      | some first => kept first
      | none => .recover start left).Placed mark origin ahead := by
  intro read rest isRest
  cases read with
  | some first => exact placedKept first rest
  | none => exact ⟨isRest, within, fun closed rest _ => placedLeft closed rest⟩

/-- The script of every rule is in place, wherever it is begun. -/
theorem script_placed (call : Call) (within : ahead <:+ origin) :
    call.script.Placed mark origin ahead := by
  cases call with
  | moreParameters =>
      refine placed_ite (fun _ => placed_expect fun _ => ?_) fun _ => placed_expect fun _ => trivial
      exact placed_call nofun fun _ _ _ => trivial
  | expression least =>
      exact placed_call nofun fun _ _ _ => placed_call nofun fun _ _ _ => trivial
  | operand => exact placed_operand
  | links least left => exact placed_links least left
  | arguments =>
      refine placed_ite (fun _ => trivial) fun _ => placed_call nofun fun _ _ _ => ?_
      exact placed_call nofun fun _ _ _ => trivial
  | moreArguments =>
      refine placed_ite (fun _ => placed_call nofun fun _ _ _ => ?_) fun _ =>
        placed_expect fun _ => trivial
      exact placed_call nofun fun _ _ _ => trivial
  | conditional =>
      refine placed_expect fun _ => placed_call nofun fun _ _ _ => placed_expect fun _ => ?_
      refine placed_block fun _ _ => placed_ite (fun _ => ?_) fun _ => trivial
      exact placed_block fun _ _ => trivial
  | block => exact placed_call nofun fun _ _ _ => trivial
  | blockStatements =>
      refine placed_ite (fun _ => trivial) fun _ => placed_ite (fun _ => trivial) fun _ => ?_
      refine placed_attempt within (fun _ _ => placed_call nofun fun _ _ _ => trivial) ?_
      exact fun _ _ => placed_ite (fun _ => placed_call nofun fun _ _ _ => trivial)
        fun _ => placed_call nofun fun _ _ _ => trivial
  | statement => exact placed_statement
  | program =>
      refine placed_ite (fun _ => trivial) fun _ => placed_attempt within ?_ ?_
      · exact fun _ _ => placed_call nofun fun _ _ _ => trivial
      · exact fun _ _ => placed_call nofun fun _ _ _ => trivial

end Scripts

section Moments

variable {mark : EndMark} {origin : List Token} {first : Call}

variable (mark origin) in
def Pending.Placed {call : Call} : Pending first call → List Token → Prop
  | .finish, _ => True
  | .call next rest, ahead =>
      (∀ result stop, stop <:+ ahead → (next result).Placed mark origin stop) ∧ rest.Placed ahead
  | .attempt next rest, ahead =>
      (∀ read stop, stop <:+ ahead → (next read).Placed mark origin stop) ∧ rest.Placed ahead

theorem Pending.Placed.later {call : Call} {pending : Pending first call} {ahead stop : List Token}
    (within : stop <:+ ahead) (placed : pending.Placed mark origin ahead) :
    pending.Placed mark origin stop := by
  induction pending with
  | finish => trivial
  | call next rest induction | attempt next rest induction =>
      exact ⟨fun result final isFinal => placed.1 result final (isFinal.trans within),
        induction placed.2⟩

variable (mark origin) in
def Control.Placed : Control first → List Token → Prop
  | .run script pending, ahead =>
      script.Placed mark origin ahead ∧ pending.Placed mark origin ahead
  | .skipping _ next pending, ahead =>
      (∀ closed rest, rest <:+ ahead → (next closed).Placed mark origin rest) ∧
        pending.Placed mark origin ahead
  | .back _ pending, ahead => pending.Placed mark origin ahead

variable (mark origin) in
structure Moment.Placed (moment : Moment first) : Prop where
  within : moment.ahead <:+ origin
  control : moment.control.Placed mark origin moment.ahead

/-- What a step in recovery leads to: the token is skipped, or the script goes on. -/
theorem skipping_cases {call : Call} {open_ : Int32} {next : Bool → Script call.Result}
    {pending : Pending first call} {ahead : List Token} {reports : List Report}
    {later : Moment first}
    (stepped : Moment.step mark ⟨.skipping open_ next pending, ahead, reports⟩ = some later) :
    (∃ closed, later = ⟨.run (next closed) pending, ahead, reports⟩) ∨
      ∃ counted, later = ⟨.skipping counted next pending, ahead.tail, reports⟩ := by
  cases ahead with
  | nil => exact .inl ⟨false, (Option.some.inj stepped).symm⟩
  | cons token rest =>
      rw [Moment.step] at stepped
      split_ifs at stepped
      · exact .inl ⟨true, (Option.some.inj stepped).symm⟩
      · exact .inl ⟨false, (Option.some.inj stepped).symm⟩
      · exact .inl ⟨false, (Option.some.inj stepped).symm⟩
      · exact .inr ⟨_, (Option.some.inj stepped).symm⟩

/-- When a call comes back, what waits for it goes on or comes back as well. -/
theorem back_cases {call : Call} {result : Option call.Result} {pending : Pending first call}
    {ahead : List Token} {reports : List Report} {later : Moment first}
    (placed : pending.Placed mark origin ahead)
    (stepped : Moment.step mark ⟨.back result pending, ahead, reports⟩ = some later) :
    later.ahead = ahead ∧ later.reports = reports ∧ later.control.Placed mark origin ahead := by
  cases pending with
  | finish => cases stepped
  | call next rest =>
      cases result with
      | none =>
          obtain rfl := Option.some.inj stepped
          exact ⟨rfl, rfl, placed.2⟩
      | some result =>
          obtain rfl := Option.some.inj stepped
          exact ⟨rfl, rfl, placed.1 result ahead (List.suffix_refl ahead), placed.2⟩
  | attempt next rest =>
      obtain rfl := Option.some.inj stepped
      exact ⟨rfl, rfl, placed.1 result ahead (List.suffix_refl ahead), placed.2⟩

/-- A step from a moment in place leads to such a moment. It moves on or stays, and adds reports
behind those made before. -/
theorem step_placed {moment later : Moment first} (placed : moment.Placed mark origin)
    (stepped : moment.step mark = some later) :
    later.Placed mark origin ∧ later.ahead <:+ moment.ahead ∧
      moment.reports <+: later.reports := by
  obtain ⟨control, ahead, reports⟩ := moment
  obtain ⟨within, inPlace⟩ := placed
  have here := List.suffix_refl ahead
  have same := List.prefix_refl reports
  have moved : ahead.tail <:+ ahead := List.tail_suffix ahead
  cases control with
  | run script pending =>
      obtain ⟨placed, waiting⟩ := inPlace
      cases script with
      | done result =>
          obtain rfl := Option.some.inj stepped
          exact ⟨⟨within, waiting⟩, here, same⟩
      | failHere error | failNext error =>
          obtain rfl := Option.some.inj stepped
          exact ⟨⟨within, waiting⟩, here, List.prefix_append _ _⟩
      | current next | peek next | remaining next =>
          obtain rfl := Option.some.inj stepped
          exact ⟨⟨within, placed, waiting⟩, here, same⟩
      | advance next =>
          obtain rfl := Option.some.inj stepped
          exact ⟨⟨moved.trans within, placed, waiting.later moved⟩, moved, same⟩
      | recover start next =>
          obtain rfl := Option.some.inj stepped
          exact ⟨⟨within, placed.2.2, waiting⟩, here, same⟩
      | call callee next =>
          obtain rfl := Option.some.inj stepped
          exact ⟨⟨within, script_placed callee within, placed.2, waiting⟩, here, same⟩
      | attempt next =>
          obtain rfl := Option.some.inj stepped
          exact ⟨⟨within, placed_statement, placed, waiting⟩, here, same⟩
  | skipping open_ next pending =>
      obtain ⟨placed, waiting⟩ := inPlace
      rcases skipping_cases stepped with ⟨closed, rfl⟩ | ⟨counted, rfl⟩
      · exact ⟨⟨within, placed closed ahead here, waiting⟩, here, same⟩
      · refine ⟨⟨moved.trans within, ?_, waiting.later moved⟩, moved, same⟩
        exact fun closed rest isRest => placed closed rest (isRest.trans moved)
  | back result pending =>
      obtain ⟨control, stop, made⟩ := later
      obtain ⟨rfl, rfl, placed⟩ := back_cases inPlace stepped
      exact ⟨⟨within, placed⟩, here, same⟩

theorem reaches_placed {moment later : Moment first} (placed : moment.Placed mark origin)
    (reaches : Moment.Reaches mark moment later) : later.Placed mark origin := by
  induction reaches with
  | refl => exact placed
  | tail _ stepped induction => exact (step_placed induction stepped).1

end Moments

end Scriptlet.Grammar
