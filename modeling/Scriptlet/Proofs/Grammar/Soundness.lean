import Mathlib.Order.Lattice
import Scriptlet.Proofs.Grammar.Outcome
import Scriptlet.Proofs.Grammar.Stratum

/-!
What is read without a report is derived by the grammar, token for token. A rule that succeeds
covers the tokens from the one that was current when it began to the one that is current when it
ends, both counted. Nothing is said here about the runs that make reports.
-/

namespace Scriptlet

def Covers (ahead rest tokens : List Token) : Prop :=
  ∃ front last behind, tokens = front ++ [last] ∧ ahead = front ++ last :: behind ∧
    rest = last :: behind

section Covers

variable {ahead middle rest tokens more : List Token}

theorem covers_one (token : Token) (behind : List Token) :
    Covers (token :: behind) (token :: behind) [token] :=
  ⟨[], token, behind, rfl, rfl, rfl⟩

theorem covers_cons (token : Token) (covers : Covers ahead rest tokens) :
    Covers (token :: ahead) rest (token :: tokens) := by
  obtain ⟨front, last, behind, rfl, rfl, rfl⟩ := covers
  exact ⟨token :: front, last, behind, rfl, rfl, rfl⟩

/-- Goes on behind the last token that was covered. -/
theorem covers_advance (first : Covers ahead middle tokens)
    (second : Covers middle.tail rest more) : Covers ahead rest (tokens ++ more) := by
  obtain ⟨front, last, behind, rfl, rfl, rfl⟩ := first
  obtain ⟨frontMore, lastMore, behindMore, rfl, same, rfl⟩ := second
  rw [List.tail_cons] at same
  subst same
  exact ⟨front ++ last :: frontMore, lastMore, behindMore, by simp, by simp, rfl⟩

theorem covers_head {first : Token} (covers : Covers ahead rest (first :: more)) :
    ahead.head? = some first := by
  obtain ⟨front, last, behind, same, rfl, rfl⟩ := covers
  cases front with
  | nil =>
      simp only [List.nil_append, List.cons.injEq] at same
      rw [same.1]
      rfl
  | cons start front =>
      simp only [List.cons_append, List.cons.injEq] at same
      rw [same.1]
      rfl

/-- A token that is not the end mark is one of those ahead. -/
theorem ahead_of_current {mark : EndMark} {kind : TokenKind}
    (isKind : (ahead.headD mark.token).kind = kind) (inside : kind ≠ .endMark) :
    ∃ token behind, ahead = token :: behind ∧ token.kind = kind := by
  cases ahead with
  | nil =>
      have ended : mark.token.kind = .endMark := rfl
      rw [List.headD_nil, ended] at isKind
      exact absurd isKind.symm inside
  | cons token behind => exact ⟨token, behind, rfl, isKind⟩

end Covers

def bindingBehind (mark : EndMark) (ahead : List Token) : Precedence :=
  Precedence.ofKind (ahead.tail.headD mark.token).kind

/-- The links of the stratum all bind more strongly than `least`, or there are only calls. -/
def Stratum.Admitted (least : Precedence) (stratum : Stratum) : Prop :=
  least < stratum.strength ∨ Precedence.unary ≤ stratum.strength

/-- The tokens from `ahead` up to `rest` spell the tree, and nothing behind them binds more strongly
than the links of the tree. -/
def Reaches (least : Precedence) (mark : EndMark) (ahead rest : List Token) (tree : Expr) : Prop :=
  ∃ stratum tokens, Covers ahead rest tokens ∧ Spells (.expression stratum) tokens tree ∧
    stratum.Admitted least ∧ bindingBehind mark rest ≤ stratum.strength

def Encloses (kind : TokenKind) (ahead rest inner : List Token) : Prop :=
  ∃ closing, closing.kind = kind ∧ Covers ahead rest (inner ++ [closing])

section Operands

variable {stratum stratumRight : Stratum} {tokens others : List Token} {left right : Expr}

theorem spells_of_admitted (admitted : stratum.Admitted .unary)
    (spelled : Spells (.expression stratum) tokens left) :
    Spells (.expression .unary) tokens left := by
  have tight : Stratum.unary.strength ≤ stratum.strength := by
    rcases admitted with stronger | unary
    · exact Nat.le_of_lt stronger
    · exact unary
  exact spells_looser (Stratum.rank_le_of_strength_le (by decide) tight) spelled

/-- What binds at least as strongly as a call is called without parentheses. -/
theorem spells_callee (weaker : Precedence.call ≤ stratum.strength)
    (spelled : Spells (.expression stratum) tokens left) :
    Spells (.expression .applied) tokens left :=
  spells_looser (@Stratum.rank_le_of_strength_le .applied _ (by decide) weaker) spelled

/-- An operator takes what binds no more weakly on its left, and what it admits on its right. -/
theorem spells_binary {token : Token} {op : BinaryOp}
    (isOp : BinaryOp.ofKind? token.kind = some op)
    (spelled : Spells (.expression stratum) tokens left)
    (weaker : Precedence.ofKind token.kind ≤ stratum.strength)
    (spelledRight : Spells (.expression stratumRight) others right)
    (admitted : stratumRight.Admitted (Precedence.ofKind token.kind)) :
    Spells (.expression (.ofOp op)) (tokens ++ token :: others) (.binary left op right) := by
  rw [Stratum.strength_of_operator isOp] at weaker admitted
  have notAtom : Stratum.ofOp op ≠ .atom := by cases op <;> decide
  have before := spells_looser (Stratum.rank_le_of_strength_le notAtom weaker) spelled
  have after := spells_looser (Stratum.operand_rank_le admitted) spelledRight
  exact .binary token op before isOp after

end Operands

section Reaches

variable {least : Precedence} {mark : EndMark} {ahead middle rest tokens : List Token} {tree : Expr}

theorem le_call (precedence : Precedence) : precedence ≤ .call := by
  cases precedence <;> decide

theorem weakest_of_not_lt {precedence : Precedence} (weak : ¬Precedence.lowest < precedence) :
    precedence = .lowest := by
  revert weak
  cases precedence <;> decide

theorem reaches_atom (covers : Covers ahead rest tokens)
    (spelled : Spells (.expression .atom) tokens tree) : Reaches least mark ahead rest tree :=
  ⟨.atom, tokens, covers, spelled, Or.inr (by decide), le_call _⟩

theorem reaches_equality (reaches : Reaches least mark ahead rest tree) :
    ∃ tokens, Covers ahead rest tokens ∧ Spells (.expression .equality) tokens tree := by
  obtain ⟨stratum, tokens, covers, spelled, _, _⟩ := reaches
  exact ⟨tokens, covers, spells_looser (Nat.zero_le _) spelled⟩

theorem reaches_unary {token : Token} {op : UnaryOp}
    (apply_op : ∀ {tokens}, Spells (.expression .unary) tokens tree →
      Spells (.expression .unary) (token :: tokens) (.unary op tree))
    (reaches : Reaches .unary mark ahead rest tree)
    (stops : ¬Precedence.unary < bindingBehind mark rest) :
    Reaches least mark (token :: ahead) rest (.unary op tree) := by
  obtain ⟨stratum, tokens, covers, spelled, admitted, _⟩ := reaches
  exact ⟨.unary, token :: tokens, covers_cons token covers,
    apply_op (spells_of_admitted admitted spelled), Or.inr (Nat.le_refl _), Nat.not_lt.mp stops⟩

theorem reaches_binary {token : Token} {op : BinaryOp} {behind : List Token} {left right : Expr}
    (reachesLeft : Reaches least mark ahead middle left)
    (same : middle.tail = token :: behind) (isOp : BinaryOp.ofKind? token.kind = some op)
    (linked : least < Precedence.ofKind token.kind)
    (reachesRight : Reaches (Precedence.ofKind token.kind) mark behind rest right)
    (stops : ¬Precedence.ofKind token.kind < bindingBehind mark rest) :
    Reaches least mark ahead rest (.binary left op right) := by
  obtain ⟨stratumLeft, tokensLeft, coversLeft, spelledLeft, _, weaker⟩ := reachesLeft
  obtain ⟨stratumRight, tokensRight, coversRight, spelledRight, admitted, _⟩ := reachesRight
  rw [bindingBehind, same, List.headD_cons] at weaker
  have spelled := spells_binary isOp spelledLeft weaker spelledRight admitted
  rw [Stratum.strength_of_operator isOp] at linked stops
  have coversBehind : Covers middle.tail rest (token :: tokensRight) := by
    rw [same]
    exact covers_cons token coversRight
  exact ⟨.ofOp op, tokensLeft ++ token :: tokensRight, covers_advance coversLeft coversBehind,
    spelled, Or.inl linked, Nat.not_lt.mp stops⟩

theorem reaches_call {opening : Token} {behind inner : List Token} {values : List Expr}
    (reaches : Reaches least mark ahead middle tree) (same : middle.tail = opening :: behind)
    (opens : opening.kind = .leftParen) (encloses : Encloses .rightParen behind rest inner)
    (spelledArguments : Spells .arguments inner values) :
    Reaches least mark ahead rest (.call tree values) := by
  obtain ⟨stratum, tokens, covers, spelled, _, weaker⟩ := reaches
  obtain ⟨closing, closes, coversInner⟩ := encloses
  rw [bindingBehind, same, List.headD_cons, opens] at weaker
  have coversArguments : Covers middle.tail rest (opening :: inner ++ [closing]) := by
    rw [same]
    exact covers_cons opening coversInner
  have coversCall := covers_advance covers coversArguments
  rw [← List.append_assoc] at coversCall
  exact ⟨.applied, _, coversCall,
    .call opening closing (spells_callee weaker spelled) opens spelledArguments closes,
    Or.inr (by decide), le_call _⟩

end Reaches

section Encloses

variable {kind : TokenKind} {mark : EndMark} {ahead middle rest tokens inner : List Token}

theorem encloses_nothing (isKind : (ahead.headD mark.token).kind = kind)
    (inside : kind ≠ .endMark) : Encloses kind ahead ahead [] := by
  obtain ⟨closing, behind, rfl, closes⟩ := ahead_of_current isKind inside
  exact ⟨closing, closes, covers_one closing behind⟩

theorem encloses_after (covers : Covers ahead middle tokens)
    (encloses : Encloses kind middle.tail rest inner) :
    Encloses kind ahead rest (tokens ++ inner) := by
  obtain ⟨closing, closes, coversInner⟩ := encloses
  have coversAll := covers_advance covers coversInner
  rw [← List.append_assoc] at coversAll
  exact ⟨closing, closes, coversAll⟩

end Encloses

def SpellsEnded (tokens : List Token) (statement : Stmt) : Prop :=
  Spells .statement tokens statement ∨
    ∃ front semicolon, tokens = front ++ [semicolon] ∧ semicolon.kind = .semicolon ∧
      Spells .statement front statement

/-- The tokens spell the statement, and where it has no semicolon nothing behind it binds. -/
def SpellsBefore (mark : EndMark) (rest tokens : List Token) (statement : Stmt) : Prop :=
  (∃ front semicolon, tokens = front ++ [semicolon] ∧ semicolon.kind = .semicolon ∧
      Spells .statement front statement) ∨
    Spells .statement tokens statement ∧ bindingBehind mark rest = .lowest

section Statements

variable {mark : EndMark} {ahead middle rest inner : List Token} {first : Stmt}
  {statements : List Stmt}

theorem unlinked_of_weak (weak : Precedence.ofKind (ahead.headD mark.token).kind = .lowest)
    (head : inner = [] ∨ inner.head? = ahead.head?) : Unlinked inner := by
  intro next isNext
  rcases head with rfl | same
  · cases isNext
  · rw [same] at isNext
    cases ahead with
    | nil => cases isNext
    | cons token behind =>
        cases isNext
        constructor <;> intro isLink <;> rw [List.headD_cons, isLink] at weak <;> cases weak

/-- A statement and those behind it are the statements of one list. -/
theorem spells_first {tokens : List Token} (ends : SpellsBefore mark middle tokens first)
    (head : inner = [] ∨ inner.head? = middle.tail.head?)
    (spelled : Spells .statements inner statements) :
    Spells .statements (tokens ++ inner) (first :: statements) := by
  rcases ends with ⟨front, semicolon, rfl, isSemicolon, spelledFirst⟩ | ⟨spelledFirst, weak⟩
  · rw [List.append_assoc]
    exact .ended semicolon spelledFirst isSemicolon spelled
  · exact .unended spelledFirst (unlinked_of_weak weak head) spelled

theorem encloses_head {kind : TokenKind} (encloses : Encloses kind ahead rest inner) :
    inner = [] ∨ inner.head? = ahead.head? := by
  obtain ⟨closing, _, covers⟩ := encloses
  cases inner with
  | nil => exact Or.inl rfl
  | cons first more => exact Or.inr (covers_head covers).symm

end Statements

namespace Grammar

open Rule

structure Sound (depth : Nat) : Prop where
  expression {least : Precedence} {mark : EndMark} {ahead rest : List Token} {tree : Expr}
    (reads : Reads (expression least depth) mark ahead tree rest) :
    Reaches least mark ahead rest tree ∧ ¬least < bindingBehind mark rest
  operand {least : Precedence} {mark : EndMark} {ahead rest : List Token} {tree : Expr}
    (reads : Reads (operand depth) mark ahead tree rest) : Reaches least mark ahead rest tree
  links {least : Precedence} {mark : EndMark} {start ahead rest : List Token} {left tree : Expr}
    (reads : Reads (links least left depth) mark ahead tree rest)
    (reaches : Reaches least mark start ahead left) :
    Reaches least mark start rest tree ∧ ¬least < bindingBehind mark rest
  arguments {mark : EndMark} {ahead rest : List Token} {values : List Expr}
    (reads : Reads (arguments depth) mark ahead values rest) :
    ∃ inner, Encloses .rightParen ahead.tail rest inner ∧ Spells .arguments inner values
  moreArguments {mark : EndMark} {ahead rest : List Token} {values : List Expr}
    (reads : Reads (moreArguments depth) mark ahead values rest) :
    ∃ inner, Encloses .rightParen ahead.tail rest inner ∧
      ∀ tokens tree, Spells (.expression .equality) tokens tree →
        Spells .expressions (tokens ++ inner) (tree :: values)
  conditional {mark : EndMark} {word : Token} {ahead rest : List Token} {tree : Expr}
    (reads : Reads (conditional depth) mark (word :: ahead) tree rest)
    (isIf : word.kind = .ifWord) :
    ∃ tokens, Covers (word :: ahead) rest tokens ∧ Spells (.expression .atom) tokens tree
  block {mark : EndMark} {opening : Token} {ahead rest : List Token} {body : Block}
    (reads : Reads (block depth) mark (opening :: ahead) body rest)
    (opens : opening.kind = .leftBrace) :
    ∃ tokens, Covers (opening :: ahead) rest tokens ∧ Spells .block tokens body
  blockStatements {mark : EndMark} {ahead rest : List Token} {body : Block}
    (reads : Reads (blockStatements depth) mark ahead body rest) :
    ∃ inner, Encloses .rightBrace ahead rest inner ∧ Spells .statements inner body
  statement {mark : EndMark} {ahead rest : List Token} {tree : Stmt}
    (reads : Reads (statement depth) mark ahead tree rest) :
    ∃ tokens, Covers ahead rest tokens ∧ SpellsBefore mark rest tokens tree

theorem more_parameters_sound (depth : Nat) {mark : EndMark} {ahead rest : List Token}
    {names : List String} (reads : Reads (moreParameters depth) mark ahead names rest) :
    ∃ inner, Encloses .rightParen ahead.tail rest inner ∧
      ∀ name : Token, name.kind = .identifier →
        SpellsNames (name :: inner) (name.slice :: names) := by
  induction depth generalizing ahead names with
  | zero => cases reads
  | succ depth induction =>
      rw [moreParameters, reads_peek_bind] at reads
      split at reads
      · next isComma =>
          obtain ⟨comma, behind, same, isComma⟩ := ahead_of_current isComma (by decide)
          rw [reads_advance_bind, reads_expect_bind, reads_current_bind, reads_bind, same,
            List.tail_cons] at reads
          obtain ⟨isName, names, middle, readsMore, done⟩ := reads
          obtain ⟨rfl, rfl⟩ := reads_pure.mp done
          obtain ⟨name, later, rfl, isName⟩ := ahead_of_current isName (by decide)
          obtain ⟨inner, ⟨closing, closes, covers⟩, spelled⟩ := induction readsMore
          refine ⟨comma :: name :: inner, ⟨closing, closes, ?_⟩, fun first isFirst => ?_⟩
          · rw [same]
            exact covers_cons comma (covers_cons name covers)
          · exact .more first comma isFirst isComma (spelled name isName)
      · rw [reads_expect_bind] at reads
        obtain ⟨closes, done⟩ := reads
        obtain ⟨rfl, rfl⟩ := reads_pure.mp done
        exact ⟨[], encloses_nothing closes (by decide), fun name isName => .one name isName⟩

theorem parameters_sound {depth : Nat} {mark : EndMark} {ahead rest : List Token}
    {names : List String} (reads : Reads (parameters depth) mark ahead names rest) :
    ∃ inner, Encloses .rightParen ahead.tail rest inner ∧ SpellsParameters inner names := by
  rw [parameters, reads_peek_bind] at reads
  split at reads
  · next closes =>
      rw [reads_advance_bind, reads_pure] at reads
      obtain ⟨rfl, rfl⟩ := reads
      exact ⟨[], encloses_nothing closes (by decide), Or.inl ⟨rfl, rfl⟩⟩
  · rw [reads_expect_bind, reads_current_bind, reads_bind] at reads
    obtain ⟨isName, names, middle, readsMore, done⟩ := reads
    obtain ⟨rfl, rfl⟩ := reads_pure.mp done
    obtain ⟨name, later, same, isName⟩ := ahead_of_current isName (by decide)
    obtain ⟨inner, ⟨closing, closes, covers⟩, spelled⟩ := more_parameters_sound depth readsMore
    rw [same] at covers ⊢
    exact ⟨name :: inner, ⟨closing, closes, covers_cons name covers⟩, Or.inr (spelled name isName)⟩

section Sound

variable {depth : Nat} (sound : Sound depth) {mark : EndMark} {ahead rest : List Token}

include sound

theorem unary_sound {least : Precedence} {op : UnaryOp} {token : Token} {behind : List Token}
    {tree : Expr} (apply_op : ∀ {tokens inner}, Spells (.expression .unary) tokens inner →
      Spells (.expression .unary) (token :: tokens) (.unary op inner))
    (reads : Reads (do
      advance
      let inner ← expression .unary depth
      return .unary op inner) mark (token :: behind) tree rest) :
    Reaches least mark (token :: behind) rest tree := by
  rw [reads_advance_bind, reads_bind] at reads
  obtain ⟨inner, middle, readsInner, done⟩ := reads
  obtain ⟨rfl, rfl⟩ := reads_pure.mp done
  obtain ⟨reaches, stops⟩ := sound.expression readsInner
  exact reaches_unary apply_op reaches stops

theorem group_sound {least : Precedence} {opening : Token} {behind : List Token} {tree : Expr}
    (opens : opening.kind = .leftParen)
    (reads : Reads (do
      advance
      let inner ← expression .lowest depth
      expect .rightParen
      return inner) mark (opening :: behind) tree rest) :
    Reaches least mark (opening :: behind) rest tree := by
  rw [reads_advance_bind, reads_bind] at reads
  obtain ⟨inner, middle, readsInner, later⟩ := reads
  rw [reads_expect_bind, reads_pure] at later
  obtain ⟨closes, rfl, rfl⟩ := later
  obtain ⟨tokens, covers, spelled⟩ := reaches_equality (sound.expression readsInner).1
  obtain ⟨closing, after, same, closes⟩ := ahead_of_current closes (by decide)
  have coversClosing : Covers middle.tail middle.tail [closing] := by
    rw [same]
    exact covers_one closing after
  exact reaches_atom (covers_cons opening (covers_advance covers coversClosing))
    (.group opening closing opens spelled closes)

theorem function_sound {least : Precedence} {word : Token} {behind : List Token} {tree : Expr}
    (isFn : word.kind = .fnWord)
    (reads : Reads (do
      expect .leftParen
      let names ← parameters depth
      expect .leftBrace
      let body ← block depth
      return .function names body) mark (word :: behind) tree rest) :
    Reaches least mark (word :: behind) rest tree := by
  rw [reads_expect_bind, reads_bind] at reads
  obtain ⟨opens, names, middle, readsNames, later⟩ := reads
  rw [reads_expect_bind, reads_bind] at later
  obtain ⟨bodyOpens, body, last, readsBody, done⟩ := later
  obtain ⟨rfl, rfl⟩ := reads_pure.mp done
  obtain ⟨opening, inside, rfl, opens⟩ := ahead_of_current opens (by decide)
  obtain ⟨inner, ⟨closing, closes, covers⟩, spelledNames⟩ := parameters_sound readsNames
  obtain ⟨brace, behindBrace, same, bodyOpens⟩ := ahead_of_current bodyOpens (by decide)
  rw [same] at readsBody
  obtain ⟨tokens, coversBody, spelledBody⟩ := sound.block readsBody bodyOpens
  rw [← same] at coversBody
  have coversAll := covers_cons word (covers_cons opening (covers_advance covers coversBody))
  rw [List.append_assoc] at coversAll
  exact reaches_atom coversAll
    (.function word opening closing isFn opens spelledNames closes spelledBody)

theorem operand_sound {least : Precedence} {tree : Expr}
    (reads : Reads (operand (depth + 1)) mark ahead tree rest) :
    Reaches least mark ahead rest tree := by
  rw [operand, reads_current_bind] at reads
  have here {kind : TokenKind} (isKind : (ahead.headD mark.token).kind = kind)
      (inside : kind ≠ .endMark) : ∃ token behind, ahead = token :: behind ∧ token.kind = kind :=
    ahead_of_current isKind inside
  split at reads
  case h_1 kind =>
    obtain ⟨token, behind, rfl, kind⟩ := here kind (by decide)
    obtain ⟨rfl, rfl⟩ := reads_pure.mp reads
    exact reaches_atom (covers_one token behind) (.name token kind)
  case h_2 kind =>
    obtain ⟨token, behind, rfl, kind⟩ := here kind (by decide)
    rw [integer] at reads
    split at reads
    · next value read =>
        obtain ⟨rfl, rfl⟩ := reads_pure.mp reads
        exact reaches_atom (covers_one token behind) (.integer token value kind read)
    · exact absurd reads reads_fail_here
  case h_3 kind =>
    obtain ⟨token, behind, rfl, kind⟩ := here kind (by decide)
    obtain ⟨rfl, rfl⟩ := reads_pure.mp reads
    exact reaches_atom (covers_one token behind) (.yes token kind)
  case h_4 kind =>
    obtain ⟨token, behind, rfl, kind⟩ := here kind (by decide)
    obtain ⟨rfl, rfl⟩ := reads_pure.mp reads
    exact reaches_atom (covers_one token behind) (.no token kind)
  case h_5 kind =>
    obtain ⟨token, behind, rfl, kind⟩ := here kind (by decide)
    exact unary_sound sound (.not token kind) reads
  case h_6 kind =>
    obtain ⟨token, behind, rfl, kind⟩ := here kind (by decide)
    exact unary_sound sound (.negate token kind) reads
  case h_7 kind =>
    obtain ⟨token, behind, rfl, kind⟩ := here kind (by decide)
    exact group_sound sound kind reads
  case h_8 kind =>
    obtain ⟨token, behind, rfl, kind⟩ := here kind (by decide)
    obtain ⟨tokens, covers, spelled⟩ := sound.conditional reads kind
    exact reaches_atom covers spelled
  case h_9 kind =>
    obtain ⟨token, behind, rfl, kind⟩ := here kind (by decide)
    exact function_sound sound kind reads
  case h_10 => exact absurd reads reads_fail_here

theorem links_sound {least : Precedence} {start : List Token} {left tree : Expr}
    (reads : Reads (links least left (depth + 1)) mark ahead tree rest)
    (reaches : Reaches least mark start ahead left) :
    Reaches least mark start rest tree ∧ ¬least < bindingBehind mark rest := by
  rw [links, reads_peek_bind] at reads
  split at reads
  · next linked =>
      obtain ⟨next, behind, same, _⟩ := ahead_of_current rfl (not_end_of_link linked)
      rw [same, List.headD_cons] at linked reads
      rw [reads_advance_bind, same] at reads
      split at reads
      · next op isOp =>
          rw [reads_advance_bind, List.tail_cons, reads_bind] at reads
          obtain ⟨right, middle, readsRight, readsLinks⟩ := reads
          obtain ⟨reachesRight, stops⟩ := sound.expression readsRight
          exact sound.links readsLinks (reaches_binary reaches same isOp linked reachesRight stops)
      · next noOp =>
          rw [reads_bind] at reads
          obtain ⟨values, middle, readsArguments, readsLinks⟩ := reads
          obtain ⟨inner, encloses, spelled⟩ := sound.arguments readsArguments
          exact sound.links readsLinks
            (reaches_call reaches same (opens_of_link linked noOp) encloses spelled)
  · next stops =>
      obtain ⟨rfl, rfl⟩ := reads_pure.mp reads
      exact ⟨reaches, stops⟩

theorem arguments_sound {values : List Expr}
    (reads : Reads (arguments (depth + 1)) mark ahead values rest) :
    ∃ inner, Encloses .rightParen ahead.tail rest inner ∧ Spells .arguments inner values := by
  rw [arguments, reads_peek_bind, reads_advance_bind] at reads
  split at reads
  · next closes =>
      obtain ⟨rfl, rfl⟩ := reads_pure.mp reads
      exact ⟨[], encloses_nothing closes (by decide), .noArguments⟩
  · rw [reads_bind] at reads
    obtain ⟨first, middle, readsFirst, later⟩ := reads
    rw [reads_bind] at later
    obtain ⟨more, last, readsMore, done⟩ := later
    obtain ⟨rfl, rfl⟩ := reads_pure.mp done
    obtain ⟨tokens, covers, spelled⟩ := reaches_equality (sound.expression readsFirst).1
    obtain ⟨inner, encloses, spelledAll⟩ := sound.moreArguments readsMore
    exact ⟨tokens ++ inner, encloses_after covers encloses,
      .someArguments (spelledAll tokens first spelled)⟩

theorem more_arguments_sound {values : List Expr}
    (reads : Reads (moreArguments (depth + 1)) mark ahead values rest) :
    ∃ inner, Encloses .rightParen ahead.tail rest inner ∧
      ∀ tokens tree, Spells (.expression .equality) tokens tree →
        Spells .expressions (tokens ++ inner) (tree :: values) := by
  rw [moreArguments, reads_peek_bind] at reads
  split at reads
  · next isComma =>
      obtain ⟨comma, behind, same, isComma⟩ := ahead_of_current isComma (by decide)
      rw [reads_advance_bind, reads_advance_bind, reads_bind, same, List.tail_cons] at reads
      obtain ⟨first, middle, readsFirst, later⟩ := reads
      rw [reads_bind] at later
      obtain ⟨more, last, readsMore, done⟩ := later
      obtain ⟨rfl, rfl⟩ := reads_pure.mp done
      obtain ⟨tokensFirst, covers, spelled⟩ := reaches_equality (sound.expression readsFirst).1
      obtain ⟨inner, encloses, spelledAll⟩ := sound.moreArguments readsMore
      refine ⟨comma :: tokensFirst ++ inner, ?_, fun tokens tree spelledTree => ?_⟩
      · rw [same]
        exact encloses_after (covers_cons comma covers) encloses
      · exact .moreExpressions comma spelledTree isComma (spelledAll tokensFirst first spelled)
  · rw [reads_expect_bind, reads_pure] at reads
    obtain ⟨closes, rfl, rfl⟩ := reads
    refine ⟨[], encloses_nothing closes (by decide), fun tokens tree spelled => ?_⟩
    rw [List.append_nil]
    exact .lastExpression spelled

theorem block_from_brace {opening : Token} {behind : List Token} {body : Block}
    (opens : opening.kind = .leftBrace)
    (reads : Reads (block (depth + 1)) mark (opening :: behind) body rest) :
    ∃ tokens, Covers (opening :: behind) rest tokens ∧ Spells .block tokens body := by
  rw [block, reads_advance_bind, List.tail_cons] at reads
  obtain ⟨inner, ⟨closing, closes, covers⟩, spelled⟩ := sound.blockStatements reads
  exact ⟨_, covers_cons opening covers, .block opening closing opens spelled closes⟩

/-- A block that is read where one must open. -/
theorem expected_block {next : Block → Rule Expr} {middle : List Token} {tree : Expr}
    (reads : Reads (do
      expect .leftBrace
      let body ← block depth
      next body) mark middle tree rest) :
    ∃ body last tokens, Covers middle.tail last tokens ∧ Spells .block tokens body ∧
      Reads (next body) mark last tree rest := by
  rw [reads_expect_bind, reads_bind] at reads
  obtain ⟨opens, body, last, readsBody, later⟩ := reads
  obtain ⟨opening, behind, same, opens⟩ := ahead_of_current opens (by decide)
  rw [same] at readsBody
  obtain ⟨tokens, covers, spelled⟩ := sound.block readsBody opens
  rw [← same] at covers
  exact ⟨body, last, tokens, covers, spelled, later⟩

theorem conditional_sound {word : Token} {behind : List Token} {tree : Expr}
    (reads : Reads (conditional (depth + 1)) mark (word :: behind) tree rest)
    (isIf : word.kind = .ifWord) :
    ∃ tokens, Covers (word :: behind) rest tokens ∧ Spells (.expression .atom) tokens tree := by
  rw [conditional, reads_expect_bind, reads_advance_bind, reads_bind] at reads
  obtain ⟨opens, test, middle, readsTest, later⟩ := reads
  obtain ⟨opening, inside, rfl, opens⟩ := ahead_of_current opens (by decide)
  obtain ⟨condition, coversTest, spelledTest⟩ := reaches_equality (sound.expression readsTest).1
  rw [reads_expect_bind] at later
  obtain ⟨closes, later⟩ := later
  obtain ⟨closing, afterClosing, same, closes⟩ := ahead_of_current closes (by decide)
  obtain ⟨body, last, consequence, coversBody, spelledBody, later⟩ := expected_block sound later
  have coversThen : Covers (word :: opening :: inside) last
      (word :: opening :: condition ++ closing :: consequence) := by
    refine covers_cons word (covers_cons opening (covers_advance coversTest ?_))
    rw [same, List.tail_cons] at coversBody
    rw [same]
    exact covers_cons closing coversBody
  rw [reads_peek_bind] at later
  split at later
  · next isElse =>
      rw [reads_advance_bind] at later
      obtain ⟨other, afterOther, sameOther, isElse⟩ := ahead_of_current isElse (by decide)
      obtain ⟨otherBody, final, alternative, coversOther, spelledOther, done⟩ :=
        expected_block sound later
      obtain ⟨rfl, rfl⟩ := reads_pure.mp done
      rw [sameOther, List.tail_cons] at coversOther
      have coversElse : Covers last.tail final (other :: alternative) := by
        rw [sameOther]
        exact covers_cons other coversOther
      exact ⟨_, covers_advance coversThen coversElse,
        .ifElse word opening closing other isIf opens spelledTest closes spelledBody isElse
          spelledOther⟩
  · obtain ⟨rfl, rfl⟩ := reads_pure.mp later
    exact ⟨_, coversThen, .ifThen word opening closing isIf opens spelledTest closes spelledBody⟩

theorem block_statements_sound {body : Block}
    (reads : Reads (blockStatements (depth + 1)) mark ahead body rest) :
    ∃ inner, Encloses .rightBrace ahead rest inner ∧ Spells .statements inner body := by
  rw [blockStatements, reads_current_bind] at reads
  split at reads
  · next closes =>
      obtain ⟨rfl, rfl⟩ := reads_pure.mp reads
      exact ⟨[], encloses_nothing closes (by decide), .noStatements⟩
  · split at reads
    · exact absurd reads reads_fail_here
    · rw [reads_remaining_bind, reads_attempt_bind (rules_account depth).statement] at reads
      obtain ⟨first, middle, readsFirst, later⟩ := reads
      rw [reads_advance_bind, reads_bind] at later
      obtain ⟨statements, last, readsRest, done⟩ := later
      obtain ⟨rfl, rfl⟩ := reads_pure.mp done
      obtain ⟨tokens, covers, ends⟩ := sound.statement readsFirst
      obtain ⟨inner, encloses, spelled⟩ := sound.blockStatements readsRest
      exact ⟨tokens ++ inner, encloses_after covers encloses,
        spells_first ends (encloses_head encloses) spelled⟩

theorem statement_ends {make : Expr → Stmt} {start : List Token} {tree : Stmt}
    {spell : List Token → List Token}
    (append : ∀ front back, spell (front ++ back) = spell front ++ back)
    (spells : ∀ {tokens value}, Spells (.expression .equality) tokens value →
      Spells .statement (spell tokens) (make value))
    (covers : ∀ {middle tokens}, Covers ahead middle tokens → Covers start middle (spell tokens))
    (reads : Reads (do
      let value ← expression .lowest depth
      skip .semicolon
      return make value) mark ahead tree rest) :
    ∃ tokens, Covers start rest tokens ∧ SpellsBefore mark rest tokens tree := by
  rw [reads_bind] at reads
  obtain ⟨value, middle, readsValue, later⟩ := reads
  rw [reads_skip_bind, reads_pure] at later
  obtain ⟨rfl, ended⟩ := later
  obtain ⟨reaches, stops⟩ := sound.expression readsValue
  obtain ⟨tokens, coversValue, spelled⟩ := reaches_equality reaches
  split at ended
  · next isSemicolon =>
      subst ended
      obtain ⟨semicolon, behind, same, isSemicolon⟩ := ahead_of_current isSemicolon (by decide)
      have coversSemicolon : Covers middle.tail middle.tail [semicolon] := by
        rw [same]
        exact covers_one semicolon behind
      refine ⟨_, covers (covers_advance coversValue coversSemicolon), Or.inl ?_⟩
      exact ⟨spell tokens, semicolon, append tokens [semicolon], isSemicolon, spells spelled⟩
  · subst ended
    refine ⟨_, covers coversValue, Or.inr ⟨spells spelled, ?_⟩⟩
    exact weakest_of_not_lt stops

theorem statement_sound {tree : Stmt}
    (reads : Reads (statement (depth + 1)) mark ahead tree rest) :
    ∃ tokens, Covers ahead rest tokens ∧ SpellsBefore mark rest tokens tree := by
  rw [statement, reads_current_bind] at reads
  split at reads
  · next isLet =>
      obtain ⟨word, behind, rfl, isLet⟩ := ahead_of_current isLet (by decide)
      rw [reads_expect_bind, reads_current_bind, reads_expect_bind, reads_advance_bind] at reads
      obtain ⟨isName, isSign, later⟩ := reads
      obtain ⟨name, afterName, rfl, isName⟩ := ahead_of_current isName (by decide)
      obtain ⟨sign, afterSign, rfl, isSign⟩ := ahead_of_current isSign (by decide)
      exact statement_ends sound (fun _ _ => rfl) (.bind word name sign isLet isName isSign)
        (fun covers => covers_cons word (covers_cons name (covers_cons sign covers))) later
  · next isReturn =>
      obtain ⟨word, behind, rfl, isReturn⟩ := ahead_of_current isReturn (by decide)
      rw [reads_advance_bind] at reads
      exact statement_ends sound (fun _ _ => rfl) (.return word isReturn) (covers_cons word) reads
  · exact statement_ends sound (fun _ _ => rfl) .expr id reads

end Sound

theorem rules_sound (depth : Nat) : Sound depth := by
  induction depth with
  | zero => constructor <;> intros <;> contradiction
  | succ depth sound =>
      refine
        { expression := fun reads => ?_
          operand := operand_sound sound
          links := links_sound sound
          arguments := arguments_sound sound
          moreArguments := more_arguments_sound sound
          conditional := conditional_sound sound
          block := fun reads opens => block_from_brace sound opens reads
          blockStatements := block_statements_sound sound
          statement := statement_sound sound }
      rw [expression, reads_bind] at reads
      obtain ⟨left, middle, readsOperand, readsLinks⟩ := reads
      exact sound.links readsLinks (sound.operand readsOperand)

end Grammar

end Scriptlet
