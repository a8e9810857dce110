import Scriptlet.Proofs.Grammar.Sequence
import Scriptlet.Proofs.Grammar.Soundness

/-!
What was read before the first report can be read on. Up to the token that a rule reports first, the
tokens begin something that the grammar derives: whatever is open there, from a half-read binding to
any nesting of parentheses and blocks, can be closed by tokens of its own.
-/

namespace Scriptlet

namespace Rule

variable {Result Next : Type} {mark : EndMark} {ahead : List Token} {remaining : Nat}

/-- The rule makes reports, and the first is about the token with so many tokens behind it. -/
def Faults (rule : Rule Result) (mark : EndMark) (ahead : List Token) (remaining : Nat) : Prop :=
  ∃ outcome report, rule mark ahead = some outcome ∧ report ∈ outcome.reports.head? ∧
    report.remaining = remaining

theorem faults_too_deep : ¬Faults (tooDeep : Rule Result) mark ahead remaining := by
  rintro ⟨_, _, ran, _⟩
  cases ran

theorem faults_pure {result : Result} : ¬Faults (pure result) mark ahead remaining := by
  rintro ⟨_, _, ran, isFirst, _⟩
  cases ran
  cases isFirst

theorem faults_fail_here {error : SyntaxError}
    (faults : Faults (failHere error : Rule Result) mark ahead remaining) :
    ahead.length = remaining := by
  obtain ⟨_, _, ran, isFirst, same⟩ := faults
  cases ran
  cases isFirst
  exact same

theorem faults_bind {rule : Rule Result} {next : Result → Rule Next}
    (faults : Faults (rule >>= next) mark ahead remaining) :
    Faults rule mark ahead remaining ∨ ∃ result middle, Reads rule mark ahead result middle ∧
      Faults (next result) mark middle remaining := by
  obtain ⟨outcome, report, ran, isFirst, same⟩ := faults
  rcases run_bind_cases ran with ⟨reports, rest, failed, rfl⟩ |
    ⟨result, reports, middle, final, ranFirst, ranSecond, rfl⟩
  · exact Or.inl ⟨_, report, failed, isFirst, same⟩
  · cases reports with
    | nil => exact Or.inr ⟨result, middle, ranFirst, final, report, ranSecond, isFirst, same⟩
    | cons earlier more => exact Or.inl ⟨_, report, ranFirst, isFirst, same⟩

theorem faults_current {next : Token → Rule Next}
    (faults : Faults (current >>= next) mark ahead remaining) :
    Faults (next (ahead.headD mark.token)) mark ahead remaining := by
  rwa [Faults, run_current_bind] at faults

theorem faults_peek {next : Token → Rule Next}
    (faults : Faults (peek >>= next) mark ahead remaining) :
    Faults (next (ahead.tail.headD mark.token)) mark ahead remaining := by
  rwa [Faults, run_peek_bind] at faults

theorem faults_advance {next : Unit → Rule Next}
    (faults : Faults (advance >>= next) mark ahead remaining) :
    Faults (next ()) mark ahead.tail remaining := by
  rwa [Faults, run_advance_bind] at faults

theorem faults_expect {kind : TokenKind} {next : Unit → Rule Next}
    (faults : Faults (expect kind >>= next) mark ahead remaining) :
    ahead.tail.length = remaining ∨ (ahead.tail.headD mark.token).kind = kind ∧
      Faults (next ()) mark ahead.tail remaining := by
  rcases faults_bind faults with stuck | ⟨_, middle, expected, later⟩
  · obtain ⟨outcome, report, ran, isFirst, same⟩ := stuck
    rw [run_expect] at ran
    split at ran
    · cases ran
      cases isFirst
    · cases ran
      cases isFirst
      exact Or.inl same
  · obtain ⟨found, rfl⟩ := reads_expect.mp expected
    exact Or.inr ⟨found, later⟩

theorem skip_never_faults {kind : TokenKind} : ¬Faults (skip kind) mark ahead remaining := by
  rintro ⟨outcome, report, ran, isFirst, _⟩
  rw [run_skip] at ran
  split at ran <;>
  · cases ran
    cases isFirst

end Rule

/-- The tokens ahead, up to the one with so many behind it, begin tokens as they are wanted. -/
def Viable (ahead : List Token) (remaining : Nat) (wanted : List Token → Prop) : Prop :=
  ∃ passed behind completion, ahead = passed ++ behind ∧ behind.length = remaining ∧
    wanted (passed ++ completion)

def Spelled (phrase : Phrase) (tokens : List Token) : Prop := ∃ tree, Spells phrase tokens tree

def SpelledAbove (least : Precedence) (tokens : List Token) : Prop :=
  ∃ stratum tree, Spells (.expression stratum) tokens tree ∧ stratum.Admitted least

def Closed (kind : TokenKind) (wanted : List Token → Prop) (tokens : List Token) : Prop :=
  ∃ inner closing, tokens = inner ++ [closing] ∧ closing.kind = kind ∧ wanted inner

def sample (kind : TokenKind) : Token := ⟨kind, kind.text, ⟨0, 0⟩⟩

section Viable

variable {ahead rest : List Token} {remaining : Nat} {wanted inner : List Token → Prop}

theorem viable_here (here : ahead.length = remaining) (completion : List Token)
    (complete : wanted completion) : Viable ahead remaining wanted :=
  ⟨[], ahead, completion, rfl, here, complete⟩

/-- What is viable further on is so from the start, if what is wanted there can be made up to what
is wanted from the start. -/
theorem viable_grow (front : List Token) (viable : Viable rest remaining inner)
    (same : ahead = front ++ rest)
    (grow : ∀ tokens, inner tokens → ∃ more, wanted (front ++ tokens ++ more)) :
    Viable ahead remaining wanted := by
  obtain ⟨passed, behind, completion, rfl, here, complete⟩ := viable
  obtain ⟨more, all⟩ := grow _ complete
  refine ⟨front ++ passed, behind, completion ++ more, by rw [same, List.append_assoc], here, ?_⟩
  simpa only [List.append_assoc] using all

theorem viable_behind (front : List Token) (viable : Viable rest remaining inner)
    (same : ahead = front ++ rest)
    (grow : ∀ tokens, inner tokens → wanted (front ++ tokens)) : Viable ahead remaining wanted :=
  viable_grow front viable same fun tokens complete =>
    ⟨[], by simpa only [List.append_nil] using grow tokens complete⟩

theorem viable_mono (viable : Viable ahead remaining inner)
    (grow : ∀ tokens, inner tokens → wanted tokens) : Viable ahead remaining wanted :=
  viable_behind [] viable rfl grow

/-- The tokens at hand are all used, and the token behind them is the one reported. -/
theorem viable_after (front : List Token) (here : rest.length = remaining)
    (same : ahead = front ++ rest)
    (completion : List Token) (complete : wanted (front ++ completion)) :
    Viable ahead remaining wanted :=
  ⟨front, rest, completion, same, here, complete⟩

theorem ahead_of_covers {tokens : List Token} (covers : Covers ahead rest tokens) :
    ahead = tokens ++ rest.tail := by
  obtain ⟨before, last, behind, rfl, rfl, rfl⟩ := covers
  simp

theorem spelled_lowest {tokens : List Token} (spelled : SpelledAbove .lowest tokens) :
    Spelled (.expression .equality) tokens := by
  obtain ⟨stratum, tree, spelled, _⟩ := spelled
  exact ⟨tree, spells_looser (Nat.zero_le _) spelled⟩

theorem spelled_unary {tokens : List Token} (spelled : SpelledAbove .unary tokens) :
    Spelled (.expression .unary) tokens := by
  obtain ⟨stratum, tree, spelled, admitted⟩ := spelled
  exact ⟨tree, spells_of_admitted admitted spelled⟩

theorem spelled_name (stratum : Stratum) :
    Spells (.expression stratum) [sample .identifier] (.name "identifier") :=
  spells_looser (by cases stratum <;> decide) (.name _ rfl)

theorem spelled_empty_block :
    Spells .block [sample .leftBrace, sample .rightBrace] [] :=
  .block _ _ rfl .noStatements rfl

end Viable

namespace Grammar

open Rule

structure Advances (depth : Nat) : Prop where
  expression {least : Precedence} {mark : EndMark} {ahead : List Token} {remaining : Nat}
    (faults : Faults (expression least depth) mark ahead remaining) :
    Viable ahead remaining (SpelledAbove least)
  operand {mark : EndMark} {ahead : List Token} {remaining : Nat}
    (faults : Faults (operand depth) mark ahead remaining) :
    Viable ahead remaining (Spelled (.expression .unary))
  links {least : Precedence} {mark : EndMark} {start ahead : List Token} {left : Expr}
    {remaining : Nat} (faults : Faults (links least left depth) mark ahead remaining)
    (reaches : Reaches least mark start ahead left) : Viable start remaining (SpelledAbove least)
  arguments {mark : EndMark} {ahead : List Token} {remaining : Nat}
    (faults : Faults (arguments depth) mark ahead remaining) :
    Viable ahead.tail remaining (Closed .rightParen (Spelled .arguments))
  moreArguments {mark : EndMark} {ahead : List Token} {remaining : Nat}
    (faults : Faults (moreArguments depth) mark ahead remaining) :
    Viable ahead.tail remaining (Closed .rightParen fun inner => ∃ values, ∀ tokens tree,
      Spells (.expression .equality) tokens tree →
        Spells .expressions (tokens ++ inner) (tree :: values))
  conditional {mark : EndMark} {word : Token} {ahead : List Token} {remaining : Nat}
    (faults : Faults (conditional depth) mark (word :: ahead) remaining)
    (isIf : word.kind = .ifWord) :
    Viable (word :: ahead) remaining (Spelled (.expression .atom))
  block {mark : EndMark} {opening : Token} {ahead : List Token} {remaining : Nat}
    (faults : Faults (block depth) mark (opening :: ahead) remaining)
    (opens : opening.kind = .leftBrace) : Viable (opening :: ahead) remaining (Spelled .block)
  blockStatements {mark : EndMark} {ahead : List Token} {remaining : Nat}
    (faults : Faults (blockStatements depth) mark ahead remaining) :
    Viable ahead remaining (Closed .rightBrace (Spelled .statements))
  statement {mark : EndMark} {ahead : List Token} {remaining : Nat}
    (faults : Faults (statement depth) mark ahead remaining) :
    Viable ahead remaining (Spelled .statement)

theorem more_parameters_advance (depth : Nat) {mark : EndMark} {ahead : List Token}
    {remaining : Nat} (faults : Faults (moreParameters depth) mark ahead remaining) :
    Viable ahead.tail remaining (Closed .rightParen fun inner => ∃ names, ∀ name : Token,
      name.kind = .identifier → SpellsNames (name :: inner) (name.slice :: names)) := by
  induction depth generalizing ahead with
  | zero => exact absurd faults faults_too_deep
  | succ depth induction =>
      rw [moreParameters] at faults
      have faults := faults_peek faults
      split at faults
      · next isComma =>
          obtain ⟨comma, behind, same, isComma⟩ := ahead_of_current isComma (by decide)
          have faults := faults_advance faults
          rw [same] at faults ⊢
          rcases faults_expect faults with here | ⟨isName, faults⟩
          · refine viable_after [comma] here rfl
              [sample .identifier, sample .rightParen] ?_
            exact ⟨[comma, sample .identifier], _, rfl, rfl, _, fun first isFirst =>
              .more first comma isFirst isComma (.one _ rfl)⟩
          · obtain ⟨name, later, sameName, isName⟩ := ahead_of_current isName (by decide)
            rw [List.tail_cons] at sameName
            subst sameName
            have faults := faults_current faults
            rcases faults_bind faults with inside | ⟨_, _, _, done⟩
            · refine viable_behind [comma, name] (induction inside) rfl ?_
              rintro _ ⟨inner, closing, rfl, closes, names, spelled⟩
              exact ⟨comma :: name :: inner, closing, rfl, closes, _, fun first isFirst =>
                .more first comma isFirst isComma (spelled name isName)⟩
            · exact absurd done faults_pure
      · rcases faults_expect faults with here | ⟨_, done⟩
        · exact viable_here here [sample .rightParen]
            ⟨[], _, rfl, rfl, [], fun name isName => .one name isName⟩
        · exact absurd done faults_pure

theorem parameters_advance {depth : Nat} {mark : EndMark} {ahead : List Token} {remaining : Nat}
    (faults : Faults (parameters depth) mark ahead remaining) :
    Viable ahead.tail remaining
      (Closed .rightParen fun inner => ∃ names, SpellsParameters inner names) := by
  rw [parameters] at faults
  have faults := faults_peek faults
  split at faults
  · exact absurd (faults_advance faults) faults_pure
  · rcases faults_expect faults with here | ⟨isName, faults⟩
    · exact viable_here here [sample .rightParen]
        ⟨[], _, rfl, rfl, [], Or.inl ⟨rfl, rfl⟩⟩
    · obtain ⟨name, later, same, isName⟩ := ahead_of_current isName (by decide)
      have faults := faults_current faults
      rcases faults_bind faults with inside | ⟨_, _, _, done⟩
      · rw [same] at inside ⊢
        refine viable_behind [name] (more_parameters_advance depth inside) rfl ?_
        rintro _ ⟨inner, closing, rfl, closes, names, spelled⟩
        exact ⟨name :: inner, closing, rfl, closes, _, Or.inr (spelled name isName)⟩
      · exact absurd done faults_pure

section Advances

variable {depth : Nat} (advances : Advances depth) {mark : EndMark} {ahead : List Token}
  {remaining : Nat}

include advances

/-- A block that is read where one must open is viable, or was read. -/
theorem expected_block_advances {next : Block → Rule Expr}
    (faults : Faults (do
      expect .leftBrace
      let body ← block depth
      next body) mark ahead remaining) :
    Viable ahead.tail remaining (Spelled .block) ∨ ∃ body last tokens,
      Covers ahead.tail last tokens ∧ Spells .block tokens body ∧
        Faults (next body) mark last remaining := by
  rcases faults_expect faults with here | ⟨opens, faults⟩
  · exact Or.inl (viable_here here _ ⟨_, spelled_empty_block⟩)
  · obtain ⟨opening, behind, same, opens⟩ := ahead_of_current opens (by decide)
    rcases faults_bind faults with inside | ⟨body, last, reads, later⟩
    · rw [same] at inside ⊢
      exact Or.inl (advances.block inside opens)
    · rw [same] at reads ⊢
      obtain ⟨tokens, covers, spelled⟩ := (rules_sound depth).block reads opens
      exact Or.inr ⟨body, last, tokens, covers, spelled, later⟩

theorem group_advances {opening : Token} {inside : List Token} (opens : opening.kind = .leftParen)
    (faults : Faults (do
      advance
      let inner ← expression .lowest depth
      expect .rightParen
      return inner) mark (opening :: inside) remaining) :
    Viable (opening :: inside) remaining (Spelled (.expression .atom)) := by
  have faults := faults_advance faults
  rw [List.tail_cons] at faults
  rcases faults_bind faults with inner | ⟨tree, middle, reads, later⟩
  · refine viable_grow [opening] (advances.expression inner) rfl fun tokens spelled => ?_
    obtain ⟨tree, spelled⟩ := spelled_lowest spelled
    exact ⟨[sample .rightParen], tree, .group opening _ opens spelled rfl⟩
  · obtain ⟨tokens, covers, spelled⟩ := reaches_equality ((rules_sound depth).expression reads).1
    rcases faults_expect later with here | ⟨_, done⟩
    · refine viable_after (opening :: tokens) here ?_ [sample .rightParen] ?_
      · rw [ahead_of_covers covers, List.cons_append]
      · exact ⟨tree, .group opening _ opens spelled rfl⟩
    · exact absurd done faults_pure

theorem function_advances {word : Token} {ahead : List Token} (isFn : word.kind = .fnWord)
    (faults : Faults (do
      expect .leftParen
      let names ← parameters depth
      expect .leftBrace
      let body ← block depth
      return Expr.function names body) mark (word :: ahead) remaining) :
    Viable (word :: ahead) remaining (Spelled (.expression .atom)) := by
  rcases faults_expect faults with here | ⟨opens, faults⟩
  · exact viable_after [word] here rfl _
      ⟨_, .function word (sample .leftParen) (sample .rightParen) isFn rfl (Or.inl ⟨rfl, rfl⟩) rfl
        spelled_empty_block⟩
  · obtain ⟨opening, inside, same, opens⟩ := ahead_of_current opens (by decide)
    rw [List.tail_cons] at same faults
    subst same
    rcases faults_bind faults with inner | ⟨names, middle, reads, later⟩
    · refine viable_grow [word, opening] (parameters_advance inner) rfl ?_
      rintro _ ⟨inner, closing, rfl, closes, names, spelled⟩
      refine ⟨[sample .leftBrace, sample .rightBrace], .function names [], ?_⟩
      simpa using Spells.function word opening closing isFn opens spelled closes spelled_empty_block
    · obtain ⟨inner, ⟨closing, closes, covers⟩, spelled⟩ := parameters_sound reads
      rw [List.tail_cons] at covers
      have same := ahead_of_covers covers
      have spells {tokens : List Token} {body : Block} (spelledBody : Spells .block tokens body) :
          Spells (.expression .atom) (word :: opening :: (inner ++ [closing]) ++ tokens)
            (.function names body) := by
        simpa using Spells.function word opening closing isFn opens spelled closes spelledBody
      rcases expected_block_advances advances later with viable | ⟨_, _, _, _, _, done⟩
      · refine viable_behind (word :: opening :: (inner ++ [closing])) viable ?_ ?_
        · rw [same]
          simp
        · rintro tokens ⟨body, spelledBody⟩
          exact ⟨_, spells spelledBody⟩
      · exact absurd done faults_pure

/-- The branches of a conditional, behind the parenthesis that closes its condition. -/
theorem branches_advance (front : List Token) {start : List Token} {test : Expr}
    (same : start = front ++ ahead.tail)
    (spellsThen : ∀ {tokens body}, Spells .block tokens body →
      Spells (.expression .atom) (front ++ tokens) (.ifThen test body))
    (spellsElse : ∀ {tokens others body otherBody} {word : Token}, Spells .block tokens body →
      word.kind = .elseWord → Spells .block others otherBody →
      Spells (.expression .atom) (front ++ tokens ++ word :: others) (.ifElse test body otherBody))
    (faults : Faults (do
      expect .leftBrace
      let consequence ← block depth
      let next ← peek
      if next.kind = .elseWord then
        advance
        expect .leftBrace
        let alternative ← block depth
        return Expr.ifElse test consequence alternative
      else
        return .ifThen test consequence) mark ahead remaining) :
    Viable start remaining (Spelled (.expression .atom)) := by
  rcases expected_block_advances advances faults with viable |
    ⟨body, last, tokens, covers, spelled, later⟩
  · refine viable_behind front viable same ?_
    rintro tokens ⟨body, spelled⟩
    exact ⟨_, spellsThen spelled⟩
  · have sameBody := ahead_of_covers covers
    have later := faults_peek later
    split at later
    · next isElse =>
        obtain ⟨word, behind, sameElse, isElse⟩ := ahead_of_current isElse (by decide)
        rcases expected_block_advances advances (faults_advance later) with viable |
          ⟨_, _, _, _, _, done⟩
        · refine viable_behind (front ++ tokens ++ [word]) viable ?_ ?_
          · rw [same, sameBody, sameElse]
            simp
          · rintro others ⟨otherBody, spelledOther⟩
            refine ⟨.ifElse test body otherBody, ?_⟩
            simpa using spellsElse spelled isElse spelledOther
        · exact absurd done faults_pure
    · exact absurd later faults_pure

theorem conditional_advances {word : Token} (isIf : word.kind = .ifWord)
    (faults : Faults (conditional (depth + 1)) mark (word :: ahead) remaining) :
    Viable (word :: ahead) remaining (Spelled (.expression .atom)) := by
  rw [conditional] at faults
  rcases faults_expect faults with here | ⟨opens, faults⟩
  · exact viable_after [word] here rfl _
      ⟨_, .ifThen word (sample .leftParen) (sample .rightParen) isIf rfl (spelled_name .equality)
        rfl spelled_empty_block⟩
  · obtain ⟨opening, inside, same, opens⟩ := ahead_of_current opens (by decide)
    rw [List.tail_cons] at same faults
    subst same
    have faults := faults_advance faults
    rw [List.tail_cons] at faults
    rcases faults_bind faults with inner | ⟨test, middle, reads, later⟩
    · refine viable_grow [word, opening] (advances.expression inner) rfl fun tokens spelled => ?_
      obtain ⟨test, spelled⟩ := spelled_lowest spelled
      exact ⟨sample .rightParen :: [sample .leftBrace, sample .rightBrace], _,
        .ifThen word opening (sample .rightParen) isIf opens spelled rfl spelled_empty_block⟩
    · obtain ⟨condition, covers, spelled⟩ :=
        reaches_equality ((rules_sound depth).expression reads).1
      have same := ahead_of_covers covers
      rcases faults_expect later with here | ⟨closes, later⟩
      · refine viable_after (word :: opening :: condition) here (by rw [same]; rfl) _
          ⟨_, .ifThen word opening (sample .rightParen) isIf opens spelled rfl spelled_empty_block⟩
      · obtain ⟨closing, behind, sameClosing, closes⟩ := ahead_of_current closes (by decide)
        refine branches_advance advances (word :: opening :: condition ++ [closing]) ?_ ?_ ?_ later
        · rw [same, sameClosing]
          simp
        · intro tokens body spelledBody
          simpa using Spells.ifThen word opening closing isIf opens spelled closes spelledBody
        · intro tokens others body otherBody other spelledBody isElse spelledOther
          simpa using Spells.ifElse word opening closing other isIf opens spelled closes
            spelledBody isElse spelledOther

theorem unary_advances {token : Token} {inside : List Token} {op : UnaryOp}
    (apply_op : ∀ {tokens tree}, Spells (.expression .unary) tokens tree →
      Spells (.expression .unary) (token :: tokens) (.unary op tree))
    (faults : Faults (do
      advance
      let inner ← expression .unary depth
      return Expr.unary op inner) mark (token :: inside) remaining) :
    Viable (token :: inside) remaining (Spelled (.expression .unary)) := by
  rcases faults_bind (faults_advance faults) with inner | ⟨_, _, _, done⟩
  · refine viable_behind [token] (advances.expression inner) rfl fun tokens spelled => ?_
    obtain ⟨tree, spelled⟩ := spelled_unary spelled
    exact ⟨_, apply_op spelled⟩
  · exact absurd done faults_pure

theorem operand_advances (faults : Faults (operand (depth + 1)) mark ahead remaining) :
    Viable ahead remaining (Spelled (.expression .unary)) := by
  rw [operand] at faults
  have faults := faults_current faults
  have atom (viable : Viable ahead remaining (Spelled (.expression .atom))) :
      Viable ahead remaining (Spelled (.expression .unary)) := by
    refine viable_mono viable ?_
    rintro tokens ⟨tree, spelled⟩
    exact ⟨tree, spells_looser (by decide) spelled⟩
  have here {kind : TokenKind} (isKind : (ahead.headD mark.token).kind = kind)
      (inside : kind ≠ .endMark) : ∃ token behind, ahead = token :: behind ∧ token.kind = kind :=
    ahead_of_current isKind inside
  have stuck (here : ahead.length = remaining) :
      Viable ahead remaining (Spelled (.expression .unary)) :=
    viable_here here _ ⟨_, spelled_name .unary⟩
  split at faults
  case h_1 | h_3 | h_4 => exact absurd faults faults_pure
  case h_2 =>
    rw [integer] at faults
    split at faults
    · exact absurd faults faults_pure
    · exact stuck (faults_fail_here faults)
  case h_5 kind =>
    obtain ⟨token, behind, rfl, kind⟩ := here kind (by decide)
    exact unary_advances advances (.not token kind) faults
  case h_6 kind =>
    obtain ⟨token, behind, rfl, kind⟩ := here kind (by decide)
    exact unary_advances advances (.negate token kind) faults
  case h_7 kind =>
    obtain ⟨token, behind, rfl, kind⟩ := here kind (by decide)
    exact atom (group_advances advances kind faults)
  case h_8 kind =>
    obtain ⟨token, behind, rfl, kind⟩ := here kind (by decide)
    exact atom (advances.conditional faults kind)
  case h_9 kind =>
    obtain ⟨token, behind, rfl, kind⟩ := here kind (by decide)
    exact atom (function_advances advances kind faults)
  case h_10 => exact stuck (faults_fail_here faults)

theorem links_advance {least : Precedence} {start : List Token} {left : Expr}
    (faults : Faults (links least left (depth + 1)) mark ahead remaining)
    (reaches : Reaches least mark start ahead left) :
    Viable start remaining (SpelledAbove least) := by
  rw [links] at faults
  have faults := faults_peek faults
  split at faults
  · next linked =>
      obtain ⟨next, behind, same, _⟩ := ahead_of_current rfl (not_end_of_link linked)
      rw [same, List.headD_cons] at linked faults
      have faults := faults_advance faults
      rw [same] at faults
      -- What was read so far is needed twice: here, to complete it with a right operand or with
      -- arguments, and whole, where these are read too and reading goes on behind them.
      obtain ⟨stratum, tokens, covers, spelled, _, weaker⟩ := id reaches
      have sameStart := ahead_of_covers covers
      rw [same] at sameStart
      rw [bindingBehind, same, List.headD_cons] at weaker
      split at faults
      · next op isOp =>
          have faults := faults_advance faults
          rw [List.tail_cons] at faults
          rcases faults_bind faults with inner | ⟨right, middle, reads, later⟩
          · refine viable_behind (tokens ++ [next]) (advances.expression inner) ?_ ?_
            · rw [sameStart]
              simp
            · rintro others ⟨stratumRight, right, spelledRight, admitted⟩
              have binary := spells_binary isOp spelled weaker spelledRight admitted
              rw [Stratum.strength_of_operator isOp] at linked
              refine ⟨.ofOp op, .binary left op right, ?_, Or.inl linked⟩
              rwa [List.append_assoc]
          · obtain ⟨reachesRight, stops⟩ := (rules_sound depth).expression reads
            exact advances.links later (reaches_binary reaches same isOp linked reachesRight stops)
      · next noOp =>
          have opens := opens_of_link linked noOp
          rw [opens] at weaker
          have callee := spells_callee weaker spelled
          rcases faults_bind faults with inner | ⟨values, middle, reads, later⟩
          · refine viable_behind (tokens ++ [next]) (advances.arguments inner) ?_ ?_
            · rw [sameStart]
              simp
            · rintro _ ⟨inner, closing, rfl, closes, values, spelledValues⟩
              refine ⟨.applied, .call left values, ?_, Or.inr (by decide)⟩
              simpa using Spells.call next closing callee opens spelledValues closes
          · obtain ⟨inner, encloses, spelledValues⟩ := (rules_sound depth).arguments reads
            exact advances.links later (reaches_call reaches same opens encloses spelledValues)
  · exact absurd faults faults_pure

theorem arguments_advance (faults : Faults (arguments (depth + 1)) mark ahead remaining) :
    Viable ahead.tail remaining (Closed .rightParen (Spelled .arguments)) := by
  rw [arguments] at faults
  have faults := faults_advance (faults_peek faults)
  split at faults
  · exact absurd faults faults_pure
  · rcases faults_bind faults with inner | ⟨first, middle, reads, later⟩
    · refine viable_grow [] (advances.expression inner) rfl fun tokens spelled => ?_
      obtain ⟨tree, spelled⟩ := spelled_lowest spelled
      exact ⟨[sample .rightParen], tokens, _, rfl, rfl, _,
        .someArguments (.lastExpression spelled)⟩
    · obtain ⟨tokens, covers, spelled⟩ := reaches_equality ((rules_sound depth).expression reads).1
      rcases faults_bind later with more | ⟨_, _, _, done⟩
      · refine viable_behind tokens (advances.moreArguments more) (ahead_of_covers covers) ?_
        rintro _ ⟨inner, closing, rfl, closes, values, spelledMore⟩
        exact ⟨tokens ++ inner, closing, (List.append_assoc _ _ _).symm, closes, _,
          .someArguments (spelledMore tokens first spelled)⟩
      · exact absurd done faults_pure

theorem more_arguments_advance
    (faults : Faults (moreArguments (depth + 1)) mark ahead remaining) :
    Viable ahead.tail remaining (Closed .rightParen fun inner => ∃ values, ∀ tokens tree,
      Spells (.expression .equality) tokens tree →
        Spells .expressions (tokens ++ inner) (tree :: values)) := by
  rw [moreArguments] at faults
  have faults := faults_peek faults
  split at faults
  · next isComma =>
      obtain ⟨comma, behind, same, isComma⟩ := ahead_of_current isComma (by decide)
      have faults := faults_advance (faults_advance faults)
      rw [same, List.tail_cons] at faults
      rw [same]
      rcases faults_bind faults with inner | ⟨first, middle, reads, later⟩
      · refine viable_grow [comma] (advances.expression inner) rfl fun tokens spelled => ?_
        obtain ⟨tree, spelled⟩ := spelled_lowest spelled
        refine ⟨[sample .rightParen], comma :: tokens, _, rfl, rfl, [tree], ?_⟩
        exact fun front other spelledOther =>
          .moreExpressions comma spelledOther isComma (.lastExpression spelled)
      · obtain ⟨tokens, covers, spelled⟩ :=
          reaches_equality ((rules_sound depth).expression reads).1
        rcases faults_bind later with more | ⟨_, _, _, done⟩
        · refine viable_behind (comma :: tokens) (advances.moreArguments more) ?_ ?_
          · rw [ahead_of_covers covers]
            rfl
          · rintro _ ⟨inner, closing, rfl, closes, values, spelledMore⟩
            refine ⟨comma :: tokens ++ inner, closing, (List.append_assoc _ _ _).symm, closes,
              first :: values, fun front other spelledOther => ?_⟩
            exact .moreExpressions comma spelledOther isComma (spelledMore tokens first spelled)
        · exact absurd done faults_pure
  · rcases faults_expect faults with here | ⟨_, done⟩
    · refine viable_here here [sample .rightParen]
        ⟨[], _, rfl, rfl, [], fun tokens tree spelled => ?_⟩
      rw [List.append_nil]
      exact .lastExpression spelled
    · exact absurd done faults_pure

theorem block_advances {opening : Token} {inside : List Token} (opens : opening.kind = .leftBrace)
    (faults : Faults (block (depth + 1)) mark (opening :: inside) remaining) :
    Viable (opening :: inside) remaining (Spelled .block) := by
  rw [block] at faults
  refine viable_behind [opening] (advances.blockStatements (faults_advance faults)) rfl ?_
  rintro _ ⟨inner, closing, rfl, closes, body, spelled⟩
  exact ⟨body, .block opening closing opens spelled closes⟩

/-- The end of a statement from its expression on. -/
theorem value_advances (front : List Token) {make : Expr → Stmt} {start : List Token}
    (same : start = front ++ ahead)
    (spells : ∀ {tokens value}, Spells (.expression .equality) tokens value →
      Spells .statement (front ++ tokens) (make value))
    (faults : Faults (do
      let value ← expression .lowest depth
      skip .semicolon
      return make value) mark ahead remaining) : Viable start remaining (Spelled .statement) := by
  rcases faults_bind faults with inner | ⟨value, middle, _, later⟩
  · refine viable_behind front (advances.expression inner) same fun tokens spelled => ?_
    obtain ⟨tree, spelled⟩ := spelled_lowest spelled
    exact ⟨_, spells spelled⟩
  · rcases faults_bind later with skipped | ⟨_, _, _, done⟩
    · exact absurd skipped skip_never_faults
    · exact absurd done faults_pure

theorem statement_advances (faults : Faults (statement (depth + 1)) mark ahead remaining) :
    Viable ahead remaining (Spelled .statement) := by
  rw [statement] at faults
  have faults := faults_current faults
  split at faults
  · next isLet =>
      obtain ⟨word, behind, rfl, isLet⟩ := ahead_of_current isLet (by decide)
      rcases faults_expect faults with here | ⟨isName, faults⟩
      · exact viable_after [word] here rfl [sample .identifier, sample .equal, sample .identifier]
          ⟨_, .bind word _ _ isLet rfl rfl (spelled_name .equality)⟩
      · obtain ⟨name, afterName, same, isName⟩ := ahead_of_current isName (by decide)
        rw [List.tail_cons] at same
        subst same
        rcases faults_expect (faults_current faults) with here | ⟨isSign, faults⟩
        · exact viable_after [word, name] here rfl [sample .equal, sample .identifier]
            ⟨_, .bind word name _ isLet isName rfl (spelled_name .equality)⟩
        · obtain ⟨sign, afterSign, same, isSign⟩ := ahead_of_current isSign (by decide)
          rw [List.tail_cons, List.tail_cons] at same
          subst same
          exact value_advances advances [word, name, sign] rfl
            (.bind word name sign isLet isName isSign) (faults_advance faults)
  · next isReturn =>
      obtain ⟨word, behind, rfl, isReturn⟩ := ahead_of_current isReturn (by decide)
      exact value_advances advances [word] rfl (.return word isReturn) (faults_advance faults)
  · exact value_advances advances [] rfl .expr faults

end Advances

def Listed (closes : List Token → Prop) (tokens : List Token) : Prop :=
  ∃ inner close, tokens = inner ++ close ∧ closes close ∧ Spelled .statements inner

section Lists

variable {depth : Nat} {mark : EndMark} {ahead middle close : List Token} {remaining : Nat}
  {closes : List Token → Prop}

/-- A viable statement can be the last one of a list. -/
theorem listed_last (closed : closes close)
    (viable : Viable ahead remaining (Spelled .statement)) :
    Viable ahead remaining (Listed closes) := by
  refine viable_grow [] viable rfl fun tokens ⟨tree, spelled⟩ =>
    ⟨close, tokens, close, rfl, closed, ?_⟩
  have list := Spells.unended spelled (fun next none => by cases none) .noStatements
  rw [List.append_nil] at list
  exact ⟨_, list⟩

/-- Behind a statement a list goes on as it is viable there. -/
theorem listed_behind {tree : Stmt} (closed : closes close)
    (reads : Reads (statement depth) mark ahead tree middle)
    (viable : Viable middle.tail remaining (Listed closes)) :
    Viable ahead remaining (Listed closes) := by
  obtain ⟨tokens, covers, ends⟩ := (rules_sound depth).statement reads
  have same := ahead_of_covers covers
  obtain ⟨passed, behind, completion, sameTail, here, inner, last, all, isClose, list, spelled⟩ :=
    viable
  cases passed with
  | nil =>
      -- The completion is dropped here: nothing ties its first token to what stopped the statement.
      refine viable_after tokens ?_ same close ⟨tokens, close, rfl, closed, [tree], ?_⟩
      · rw [sameTail, ← here, List.nil_append]
      · have alone := spells_first ends (Or.inl rfl) .noStatements
        rwa [List.append_nil] at alone
  | cons next passed =>
      have head : inner = [] ∨ inner.head? = middle.tail.head? := by
        cases inner with
        | nil => exact Or.inl rfl
        | cons first inner =>
            right
            rw [List.cons_append, List.cons_append] at all
            rw [sameTail, List.cons_append, List.head?_cons, List.head?_cons, (List.cons.inj all).1]
      refine ⟨tokens ++ next :: passed, behind, completion, ?_, here, tokens ++ inner, last, ?_,
        isClose, tree :: list, spells_first ends head spelled⟩
      · rw [same, sameTail, List.append_assoc]
      · rw [List.append_assoc, all, List.append_assoc]

/-- A list that makes a report makes it in its first statement, or behind it. -/
theorem faults_step {list : Rule (List Stmt)} {go : List Token → Outcome Stmt → List Token}
    {rule : Rule (List Stmt)}
    (step : rule mark ahead = (statement depth mark ahead).bind fun read =>
      (list mark (go ahead read)).map (precede read))
    (kept : ∀ statement reports stop, go ahead ⟨some statement, reports, stop⟩ = stop.tail)
    (faults : Faults rule mark ahead remaining) :
    Faults (statement depth) mark ahead remaining ∨ ∃ tree middle,
      Reads (statement depth) mark ahead tree middle ∧ Faults list mark middle.tail remaining := by
  obtain ⟨outcome, report, ran, isFirst, here⟩ := faults
  rw [step] at ran
  obtain ⟨⟨result, reports, stop⟩, more, ranRead, ranMore, rfl⟩ := runs_of_step ran
  cases reports with
  | cons earlier later => exact Or.inl ⟨_, report, ranRead, isFirst, here⟩
  | nil =>
      cases result with
      | none => exact absurd rfl (((rules_account depth).statement mark ahead _ ranRead).2 rfl)
      | some tree =>
          rw [kept] at ranMore
          exact Or.inr ⟨tree, stop, ranRead, more, report, ranMore, isFirst, here⟩

theorem block_statements_advance (advances : Advances depth)
    (faults : Faults (blockStatements (depth + 1)) mark ahead remaining) :
    Viable ahead remaining (Closed .rightBrace (Spelled .statements)) := by
  have closed : ∃ closing : Token, [sample .rightBrace] = [closing] ∧ closing.kind = .rightBrace :=
    ⟨_, rfl, rfl⟩
  have unlist (viable : Viable ahead remaining
      (Listed fun close => ∃ closing : Token, close = [closing] ∧ closing.kind = .rightBrace)) :
      Viable ahead remaining (Closed .rightBrace (Spelled .statements)) :=
    viable_mono viable fun _ ⟨inner, _, all, ⟨closing, same, isClosing⟩, spelled⟩ =>
      ⟨inner, closing, same ▸ all, isClosing, spelled⟩
  by_cases closes : (ahead.headD mark.token).kind = .rightBrace
  · obtain ⟨_, _, ran, isFirst, _⟩ := faults
    rw [block_end depth closes] at ran
    cases ran
    cases isFirst
  · by_cases ended : (ahead.headD mark.token).kind = .endMark
    · obtain ⟨_, _, ran, isFirst, here⟩ := faults
      rw [block_unclosed depth ended] at ran
      cases ran
      cases isFirst
      exact viable_here here [sample .rightBrace] ⟨[], _, rfl, rfl, [], .noStatements⟩
    · rcases faults_step (block_step depth closes ended) (fun _ _ _ => rfl) faults with first |
        ⟨tree, middle, reads, more⟩
      · exact unlist (listed_last closed (advances.statement first))
      · refine unlist (listed_behind closed reads ?_)
        refine viable_mono (advances.blockStatements more) ?_
        rintro _ ⟨inner, closing, rfl, isClosing, spelled⟩
        exact ⟨inner, _, rfl, ⟨closing, rfl, isClosing⟩, spelled⟩

end Lists

theorem rules_advance (depth : Nat) : Advances depth := by
  induction depth with
  | zero => constructor <;> intros <;> exact absurd ‹Faults _ _ _ _› faults_too_deep
  | succ depth advances =>
      refine
        { expression := fun faults => ?_
          operand := operand_advances advances
          links := links_advance advances
          arguments := arguments_advance advances
          moreArguments := more_arguments_advance advances
          conditional := fun faults isIf => conditional_advances advances isIf faults
          block := fun faults opens => block_advances advances opens faults
          blockStatements := block_statements_advance advances
          statement := statement_advances advances }
      rw [expression] at faults
      rcases faults_bind faults with inner | ⟨left, middle, reads, later⟩
      · refine viable_mono (advances.operand inner) ?_
        rintro tokens ⟨tree, spelled⟩
        exact ⟨.unary, tree, spelled, Or.inr (Nat.le_refl _)⟩
      · exact advances.links later ((rules_sound depth).operand reads)

/-- Up to its first report a program is the front of one that the grammar derives. -/
theorem program_advances (depth : Nat) {mark : EndMark} {ahead : List Token} {remaining : Nat}
    (faults : Faults (program depth) mark ahead remaining) :
    Viable ahead remaining (Spelled .statements) := by
  suffices listed : Viable ahead remaining (Listed fun close => close = []) by
    refine viable_mono listed ?_
    rintro _ ⟨inner, _, rfl, rfl, spelled⟩
    rwa [List.append_nil]
  induction depth generalizing ahead with
  | zero => exact absurd faults faults_too_deep
  | succ depth induction =>
      by_cases ended : (ahead.headD mark.token).kind = .endMark
      · obtain ⟨_, _, ran, isFirst, _⟩ := faults
        rw [program_end depth ended] at ran
        cases ran
        cases isFirst
      · rcases faults_step (program_step depth ended) (fun _ _ _ => rfl) faults with first |
          ⟨tree, middle, reads, more⟩
        · exact listed_last rfl ((rules_advance depth).statement first)
        · exact listed_behind rfl reads (induction more)

end Grammar

end Scriptlet
