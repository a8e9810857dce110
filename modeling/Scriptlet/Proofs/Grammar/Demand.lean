import Scriptlet.Program.Equality
import Scriptlet.Proofs.Grammar.Termination

/-!
Expressions read from one place with different demands. Reading with the weaker demand is reading
with the stronger one and then going on with links from where that stopped, the expression read so
far being on their left.
-/

namespace Scriptlet

/-- The expression stands at the far left of another: that is the expression itself, or has it at
the far left of its left operand or of its callee. -/
inductive Expr.AtLeft (part : Expr) : Expr → Prop where
  | here : part.AtLeft part
  | operand {left right : Expr} {op : BinaryOp} :
      part.AtLeft left → part.AtLeft (.binary left op right)
  | callee {callee : Expr} {values : List Expr} :
      part.AtLeft callee → part.AtLeft (.call callee values)

theorem Expr.at_left_trans {part middle whole : Expr} (inner : part.AtLeft middle)
    (outer : middle.AtLeft whole) : part.AtLeft whole := by
  induction outer with
  | here => exact inner
  | operand _ induction => exact .operand induction
  | callee _ induction => exact .callee induction

namespace Grammar

open Rule

def link (next : Token) (left : Expr) (depth : Nat) : Rule Expr :=
  match BinaryOp.ofKind? next.kind with
  | some op => do
      advance
      let right ← expression (Precedence.ofKind next.kind) depth
      return .binary left op right
  | none => do
      let values ← arguments depth
      return .call left values

theorem link_extends (next : Token) (left : Expr) {shallow deep : Nat} (deeper : shallow ≤ deep) :
    Extends (link next left shallow) (link next left deep) := by
  unfold link
  cases BinaryOp.ofKind? next.kind with
  | some op =>
      exact bind_extends (extends_refl _) fun _ =>
        bind_extends (expression_extends _ deeper) fun _ => extends_refl _
  | none =>
      exact bind_extends (extends_deeper (fun depth => (rules_deepen depth).arguments) deeper)
        fun _ => extends_refl _

theorem link_at_left {next : Token} {left longer : Expr} {depth : Nat} {mark : EndMark}
    {ahead rest : List Token} {reports : List Report}
    (ran : link next left depth mark ahead = some ⟨some longer, reports, rest⟩) :
    left.AtLeft longer := by
  unfold link at ran
  cases operator : BinaryOp.ofKind? next.kind with
  | some op =>
      simp only [operator] at ran
      rw [run_advance_bind, run_then_pure] at ran
      obtain ⟨last, _, same⟩ := Option.map_eq_some_iff.mp ran
      obtain ⟨right, _, rfl⟩ := Option.map_eq_some_iff.mp (congrArg Outcome.result same)
      exact .operand .here
  | none =>
      simp only [operator] at ran
      rw [run_then_pure] at ran
      obtain ⟨last, _, same⟩ := Option.map_eq_some_iff.mp ran
      obtain ⟨values, _, rfl⟩ := Option.map_eq_some_iff.mp (congrArg Outcome.result same)
      exact .callee .here

section Links

variable {least most : Precedence} {mark : EndMark} {ahead : List Token}

/-- Where a link binds strongly enough, it is read and links go on behind it. -/
theorem links_linked (left : Expr) (depth : Nat)
    (linked : least < Precedence.ofKind (ahead.tail.headD mark.token).kind) :
    links least left (depth + 1) mark ahead =
      (link (ahead.tail.headD mark.token) left depth >>= fun whole => links least whole depth)
        mark ahead.tail := by
  rw [links, run_peek_bind, if_pos linked, run_advance_bind, link]
  cases BinaryOp.ofKind? (ahead.tail.headD mark.token).kind <;> simp only [then_assoc, pure_then]

/-- Where none does, the expression ends. -/
theorem links_unlinked (left : Expr) (depth : Nat)
    (unlinked : ¬least < Precedence.ofKind (ahead.tail.headD mark.token).kind) :
    links least left (depth + 1) mark ahead = (pure left : Rule Expr) mark ahead := by
  rw [links, run_peek_bind, if_neg unlinked]

theorem links_extends (least : Precedence) (left : Expr) {shallow deep : Nat}
    (deeper : shallow ≤ deep) : Extends (links least left shallow) (links least left deep) :=
  extends_deeper (fun depth => (rules_deepen depth).links least left) deeper

/-- Links with a weaker demand are those with the stronger one, and then more of their own. -/
theorem links_read_on (weaker : least ≤ most) (left : Expr) (depth more : Nat) :
    Extends (links most left depth >>= fun tree => links least tree more)
      (links least left (depth + more)) := by
  induction depth generalizing left with
  | zero => exact too_deep_extends _
  | succ depth induction =>
      intro mark ahead outcome ran
      -- As long as the stronger demand takes a link, the weaker one takes the same.
      by_cases linked : most < Precedence.ofKind (ahead.tail.headD mark.token).kind
      · rw [run_then_congr (links_linked left depth linked), then_assoc] at ran
        rw [Nat.succ_add, links_linked left _ (Nat.lt_of_le_of_lt weaker linked)]
        exact bind_extends (link_extends _ left (Nat.le_add_right depth more)) induction
          mark ahead.tail outcome ran
      · rw [run_then_congr (links_unlinked left depth linked), pure_then] at ran
        exact links_extends least left (Nat.le_add_left more _) mark ahead outcome ran

/-- What links come to begins with what was on their left, and no further link follows. -/
theorem links_end {left whole : Expr} {depth : Nat} {outcome : Outcome Expr}
    (ran : links least left depth mark ahead = some outcome) (read : outcome.result = some whole) :
    left.AtLeft whole ∧
      ¬least < Precedence.ofKind (outcome.ahead.tail.headD mark.token).kind := by
  induction depth generalizing left ahead outcome with
  | zero => cases ran
  | succ depth induction =>
      by_cases linked : least < Precedence.ofKind (ahead.tail.headD mark.token).kind
      · rw [links_linked left depth linked] at ran
        rcases run_bind_cases ran with ⟨_, _, _, rfl⟩ |
          ⟨longer, reports, middle, final, ranLink, ranLinks, rfl⟩
        · cases read
        · obtain ⟨atLeft, last⟩ := induction ranLinks read
          exact ⟨Expr.at_left_trans (link_at_left ranLink) atLeft, last⟩
      · rw [links_unlinked left depth linked] at ran
        cases ran
        cases read
        exact ⟨.here, linked⟩

end Links

theorem expression_read_on {least most : Precedence} (weaker : least ≤ most) (depth more : Nat) :
    Extends (expression most depth >>= fun tree => links least tree more)
      (expression least (depth + more)) := by
  cases depth with
  | zero => exact too_deep_extends _
  | succ depth =>
      rw [Nat.succ_add, expression, expression, then_assoc]
      have operands := extends_deeper (fun depth => (rules_deepen depth).operand)
        (Nat.le_add_right depth more)
      exact bind_extends operands fun left => links_read_on weaker left depth more

end Grammar

namespace Reader

open Grammar Rule

def next (reader : Reader) : Token := reader.ahead.tail.headD reader.endMark.token

def continued (reader : Reader) (least : Precedence) (left : Expr) : Option Expr × Reader :=
  reader.apply (links least left)

/-- What a reader yields is the outcome of reading at any depth that has one. -/
theorem apply_of_outcome {Result : Type} {rule : Nat → Rule Result} {reader : Reader} {depth : Nat}
    {outcome : Outcome Result} (deepens : ∀ depth, Extends (rule depth) (rule (depth + 1)))
    (answers : Answers (rule (callDepth reader.ahead.length)) reader.endMark reader.ahead)
    (ran : rule depth reader.endMark reader.ahead = some outcome) :
    reader.apply rule = (outcome.result,
      { reader with ahead := outcome.ahead, reports := reader.reports ++ outcome.reports }) := by
  obtain ⟨granted, ranGranted⟩ := answers
  rw [apply, ranGranted, outcome_unique deepens ran ranGranted]

theorem expression_of_outcome {reader : Reader} {least : Precedence} {depth : Nat}
    {outcome : Outcome Expr}
    (ran : Grammar.expression least depth reader.endMark reader.ahead = some outcome) :
    reader.expression least = (outcome.result,
      { reader with ahead := outcome.ahead, reports := reader.reports ++ outcome.reports }) := by
  obtain ⟨granted, terminates⟩ := expression_terminates least reader.endMark reader.ahead
  exact apply_of_outcome (fun depth => (rules_deepen depth).expression least)
    ⟨granted, terminates _ (Nat.le_refl _)⟩ ran

/-- The outcome that going on with links has, at the depth that a reader grants. -/
theorem links_answer_reader (reader : Reader) (least : Precedence) (left : Expr) :
    Answers (links least left (callDepth reader.ahead.length)) reader.endMark reader.ahead :=
  (rules_suffice _).links least left _ _ (by rw [callDepth]; omega)

section Demands

variable {least most : Precedence} {reader : Reader}

/-- Where the stronger demand is not met, the weaker one fails in the same way. -/
theorem expression_fails_weaker (weaker : least ≤ most)
    (fails : (reader.expression most).1 = none) :
    reader.expression least = reader.expression most := by
  obtain ⟨⟨result, reports, rest⟩, terminates⟩ :=
    expression_terminates most reader.endMark reader.ahead
  have ran := terminates _ (Nat.le_refl _)
  rw [expression_of_outcome ran] at fails ⊢
  obtain rfl : result = none := fails
  exact expression_of_outcome (expression_read_on weaker _ 0 _ _ _
    (and_then_failed _ _ _ _ _ _ ran))

/-- Where the stronger demand is met, the weaker one goes on with links from there. -/
theorem expression_continues_weaker (weaker : least ≤ most) {tree : Expr}
    (read : (reader.expression most).1 = some tree) :
    reader.expression least = (reader.expression most).2.continued least tree := by
  obtain ⟨⟨result, reports, rest⟩, terminates⟩ :=
    expression_terminates most reader.endMark reader.ahead
  have ran := terminates _ (Nat.le_refl _)
  rw [expression_of_outcome ran] at read ⊢
  obtain rfl : result = some tree := read
  obtain ⟨more, ranMore⟩ := links_answer_reader
    { reader with ahead := rest, reports := reader.reports ++ reports } least tree
  have both := (and_then_result _ (fun tree => links least tree _) _ _ _ _ _ ran).trans
    (congrArg _ ranMore)
  rw [expression_of_outcome (expression_read_on weaker _ _ _ _ _ both), continued, apply, ranMore]
  simp [List.append_assoc]

/-- Going on with links moves on, keeps what it began with on the far left, and stops before a
token that binds no more strongly than is demanded. -/
theorem continued_end {left whole : Expr} (read : (reader.continued least left).1 = some whole) :
    (reader.continued least left).2.ahead <:+ reader.ahead ∧ left.AtLeft whole ∧
      Precedence.ofKind (reader.continued least left).2.next.kind ≤ least := by
  obtain ⟨outcome, ran⟩ := links_answer_reader reader least left
  rw [continued, apply, ran] at read ⊢
  obtain ⟨atLeft, last⟩ := links_end ran read
  exact ⟨((rules_account _).links least left _ _ _ ran).1, atLeft, Nat.le_of_not_lt last⟩

end Demands

/-- Reading from one place with two demands. Where the stronger demand fails, the weaker one fails
there with the same reports. Where the stronger one reads a tree, the weaker one does what going on
with links from there does, with this tree on their left: if that succeeds, it has moved no less far
and the tree is at the far left of what was read. Whatever expression is read, the token after it
binds no more strongly than was demanded. -/
theorem weaker_demand_reads_on {least most : Precedence} (weaker : least ≤ most) (reader : Reader) :
    ((reader.expression most).1 = none → reader.expression least = reader.expression most) ∧
    (∀ tree, (reader.expression most).1 = some tree →
      reader.expression least = (reader.expression most).2.continued least tree ∧
      ∀ whole, (reader.expression least).1 = some whole →
        (reader.expression least).2.ahead <:+ (reader.expression most).2.ahead ∧
        tree.AtLeft whole) ∧
    ∀ whole, (reader.expression least).1 = some whole →
      Precedence.ofKind (reader.expression least).2.next.kind ≤ least := by
  refine ⟨expression_fails_weaker weaker, fun tree read => ?_, fun whole read => ?_⟩
  · have continues := expression_continues_weaker weaker read
    refine ⟨continues, fun whole => ?_⟩
    rw [continues]
    exact fun readWhole => ⟨(continued_end readWhole).1, (continued_end readWhole).2.1⟩
  · have continues := expression_continues_weaker (Nat.le_refl least.rank) read
    have readAgain := read
    rw [continues] at readAgain
    exact continues ▸ (continued_end readAgain).2.2

/-- In `a * b + c` the product is read first, and is then the left operand of the sum. -/
theorem product_read_before_sum :
    let reader := ofTokens (Token.scan "a * b + c")
    let product := Expr.binary (.name "a") .multiply (.name "b")
    let sum := Expr.binary product .add (.name "c")
    (reader.expression .sum).1 = some product ∧ (reader.expression .lowest).1 = some sum ∧
    product.AtLeft sum ∧ (reader.expression .lowest).2.ahead <:+ (reader.expression .sum).2.ahead ∧
    reader.expression .lowest = (reader.expression .sum).2.continued .lowest product := by
  intro reader product sum
  have readProduct : (reader.expression .sum).1 = some product := by decide +kernel
  have readSum : (reader.expression .lowest).1 = some sum := by decide +kernel
  have weaker : Precedence.lowest ≤ Precedence.sum := by decide
  obtain ⟨continues, ends⟩ := (weaker_demand_reads_on weaker reader).2.1 product readProduct
  obtain ⟨within, atLeft⟩ := ends sum readSum
  exact ⟨readProduct, readSum, atLeft, within, continues⟩

end Reader

end Scriptlet
