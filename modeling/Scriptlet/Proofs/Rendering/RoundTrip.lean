import Mathlib.Data.List.Chain
import Scriptlet.Proofs.Grammar.Completeness
import Scriptlet.Proofs.Rendering.Unambiguous
import Scriptlet.Proofs.Token.Tokenization

/-!
The text of an unambiguous program is read as the program. A text is followed piece by piece: each
piece is scanned as tokens of its own as long as nothing behind it belongs to its last token, and
the tokens of the pieces together spell what the text was written from.
-/

namespace Scriptlet

open Text Lexeme TokenKind

section Pieces

variable {stop offset : Nat} {rest text : List Char} {tokens : List Token}

theorem scans_append {middle : Nat} {between : List Char} {others : List Token}
    (first : Scans middle between offset text tokens)
    (second : Scans stop rest middle between others) :
    Scans stop rest offset text (tokens ++ others) := by
  induction first with
  | done => exact second
  | blank blank _ induction => exact .blank blank induction
  | token fits maximal _ induction => exact .token fits maximal induction

/-- A visible character at the front is the first one of a token. -/
theorem scans_opening {char : Char} (scans : Scans stop rest offset (char :: text) tokens)
    (visible : isBlank char = false) :
    ∀ first ∈ tokens.head?, ∃ more, first.kind.Fits (char :: more) := by
  generalize same : char :: text = whole at scans
  cases scans with
  | done => exact nofun
  | blank blank _ =>
      cases same
      rw [visible] at blank
      cases blank
  | token fits maximal _ =>
      obtain ⟨first, more, rfl, _⟩ := cut_of_fits fits maximal
      cases (List.cons.inj same).1
      rintro _ ⟨⟩
      exact ⟨more, fits⟩

end Pieces

/-- Wherever the text stands with something behind it that is admitted there, it is scanned as
tokens that are as described. -/
def Scanned (admitted : List Char → Prop) (text : List Char) (described : List Token → Prop) :
    Prop :=
  ∀ offset rest, admitted rest →
    ∃ stop tokens, Scans stop rest offset (text ++ rest) tokens ∧ described tokens

def Anything (_ : List Char) : Prop := True

def Breaks (rest : List Char) : Prop := ∀ char ∈ rest.head?, continuesWord char = false

def Bounds (kind : TokenKind) (rest : List Char) : Prop :=
  ∀ char ∈ rest.head?, kind.grows char = false

def Heads (kind : TokenKind) (text : List Char) (described : List Token → Prop)
    (tokens : List Token) : Prop :=
  ∃ token behind, tokens = token :: behind ∧ token.kind = kind ∧ token.slice = String.ofList text ∧
    described behind

def Parts (first second : List Token → Prop) (tokens : List Token) : Prop :=
  ∃ before behind, tokens = before ++ behind ∧ first before ∧ second behind

def Written (phrase : Phrase) (text : String) (tree : phrase.Tree) : Prop :=
  Scanned Breaks text.toList fun tokens => Spells phrase tokens tree

section Scanned

variable {admitted admittedFirst : List Char → Prop} {front back text : List Char}
  {first second described : List Token → Prop} {kind : TokenKind}

theorem bounds_of_breaks (word : kind ≠ .equal ∧ kind ≠ .bang) (rest : List Char)
    (breaks : Breaks rest) : Bounds kind rest := by
  intro char behind
  have broken := breaks char behind
  cases kind <;> first
    | exact absurd rfl word.1
    | exact absurd rfl word.2
    | rfl
    | exact broken
    | skip
  rw [continuesWord, Char.isAlphanum, Bool.or_eq_false_iff, Bool.or_eq_false_iff] at broken
  exact broken.1.2

theorem scanned_imp (scanned : Scanned admitted text first)
    (implies : ∀ tokens, first tokens → described tokens) : Scanned admitted text described := by
  intro offset rest isAdmitted
  obtain ⟨stop, tokens, scans, isFirst⟩ := scanned offset rest isAdmitted
  exact ⟨stop, tokens, scans, implies tokens isFirst⟩

theorem scanned_of_admitted (scanned : Scanned admittedFirst text described)
    (admits : ∀ rest, admitted rest → admittedFirst rest) : Scanned admitted text described :=
  fun offset rest isAdmitted => scanned offset rest (admits rest isAdmitted)

theorem scanned_nothing : Scanned admitted [] (· = []) :=
  fun _ _ _ => ⟨_, [], .done, rfl⟩

theorem scanned_blank {char : Char} (blank : isBlank char = true)
    (scanned : Scanned admitted text described) : Scanned admitted (char :: text) described := by
  intro offset rest isAdmitted
  obtain ⟨stop, tokens, scans, isDescribed⟩ := scanned (offset + char.utf8Size) rest isAdmitted
  exact ⟨stop, tokens, .blank blank scans, isDescribed⟩

theorem scanned_heads (fits : kind.Fits front) (scanned : Scanned admitted back described)
    (apart : ∀ rest, admitted rest → Bounds kind (back ++ rest)) :
    Scanned admitted (front ++ back) (Heads kind front described) := by
  intro offset rest isAdmitted
  obtain ⟨stop, tokens, scans, isDescribed⟩ :=
    scanned (offset + Token.byteSize front) rest isAdmitted
  rw [List.append_assoc]
  exact ⟨stop, _, .token fits (apart rest isAdmitted) scans, _, _, rfl, rfl, rfl, isDescribed⟩

theorem scanned_parts (scannedFront : Scanned admittedFirst front first)
    (scannedBack : Scanned admitted back second)
    (apart : ∀ rest, admitted rest → admittedFirst (back ++ rest)) :
    Scanned admitted (front ++ back) (Parts first second) := by
  intro offset rest isAdmitted
  obtain ⟨middle, before, scansFront, isFirst⟩ :=
    scannedFront offset (back ++ rest) (apart rest isAdmitted)
  obtain ⟨stop, behind, scansBack, isSecond⟩ := scannedBack middle rest isAdmitted
  rw [List.append_assoc]
  exact ⟨stop, _, scans_append scansFront scansBack, before, behind, rfl, isFirst, isSecond⟩

theorem scanned_token (fits : kind.Fits text) :
    Scanned (Bounds kind) text (Heads kind text (· = [])) := by
  have scanned := scanned_heads fits (@scanned_nothing (Bounds kind)) (fun _ bounds => bounds)
  rwa [List.append_nil] at scanned

/-- A mark of punctuation is no part of a longer token. -/
theorem scanned_mark (kind : TokenKind) (isOperator : kind ∈ operators)
    (alone : kind ≠ .equal ∧ kind ≠ .bang) (scanned : Scanned admitted text described) :
    Scanned admitted (kind.text.toList ++ text) (Heads kind kind.text.toList described) := by
  refine scanned_heads (.operator isOperator) scanned fun rest _ char _ => ?_
  rw [Bool.eq_false_iff]
  intro grows
  rcases (operator_grows isOperator grows).1 with same | same
  · exact alone.1 same
  · exact alone.2 same

theorem scanned_keyword (kind : TokenKind) (isKeyword : kind ∈ keywords)
    (scanned : Scanned admitted text described)
    (apart : ∀ rest, admitted rest → Breaks (text ++ rest)) :
    Scanned admitted (kind.text.toList ++ text) (Heads kind kind.text.toList described) := by
  refine scanned_heads (.keyword isKeyword) scanned fun rest isAdmitted => ?_
  refine bounds_of_breaks ?_ _ (apart rest isAdmitted)
  revert isKeyword
  revert kind
  decide

theorem breaks_cons {char : Char} (rest : List Char) (ends : continuesWord char = false) :
    Breaks (char :: rest) := by
  rintro _ ⟨⟩
  exact ends

theorem bounds_space (kind : TokenKind) (rest : List Char) : Bounds kind (' ' :: rest) := by
  rintro _ ⟨⟩
  cases kind <;> rfl

theorem scanned_space (scanned : Scanned admitted text described) :
    Scanned admitted (' ' :: text) described :=
  scanned_blank (by decide) scanned

theorem scanned_closing :
    Scanned admitted ")".toList (Heads .rightParen ")".toList (· = [])) :=
  scanned_mark .rightParen (by decide) (by decide) scanned_nothing

end Scanned

section Expressions

variable {text left right blockText otherText : String} {tree other : Expr}
  {body otherBody : Block}

theorem written_looser (loose : Stratum) (notAtom : loose ≠ .atom)
    (written : Written (.expression .applied) text tree) :
    Written (.expression loose) text tree := by
  refine scanned_imp written fun tokens spelled => spells_looser ?_ spelled
  revert notAtom
  cases loose <;> decide

theorem written_atom (scanned : Scanned Breaks text.toList fun tokens =>
    Spells (.expression .atom) tokens tree) : Written (.expression .applied) text tree :=
  scanned_imp scanned fun _ spelled => spells_looser (by decide) spelled

theorem written_group (written : Written (.expression .equality) text tree) :
    Written (.expression .applied) ("(" ++ text ++ ")") tree := by
  have inner := scanned_parts written (@scanned_closing Breaks) fun rest _ => breaks_cons _ rfl
  have whole := scanned_mark .leftParen (by decide) (by decide) inner
  refine written_atom ?_
  simp only [String.toList_append, List.append_assoc]
  refine scanned_imp whole ?_
  rintro _ ⟨opening, _, rfl, opens, _, tokens, _, rfl, spelled, closing, _, rfl, closes, _, rfl⟩
  exact .group opening closing opens spelled closes

theorem written_sign (op : UnaryOp) (written : Written (.expression .applied) right tree)
    (opens : Opens right.toList) :
    Written (.expression .equality) (op.symbol ++ right) (.unary op tree) := by
  have operand := written_looser .unary (by decide) written
  rw [Written, String.toList_append]
  cases op with
  | not =>
      have single (rest : List Char) (_ : Breaks rest) : Bounds .bang (right.toList ++ rest) := by
        intro first head
        have noEqual := (opening_visible (opens_append opens rest) first head).2.1
        simpa [grows] using noEqual
      refine scanned_imp (scanned_heads (@Fits.operator .bang (by decide)) operand single) ?_
      rintro _ ⟨token, _, rfl, isSign, _, spelled⟩
      exact spells_looser (by decide) (.not token isSign spelled)
  | negate =>
      refine scanned_imp (scanned_mark .minus (by decide) (by decide) operand) ?_
      rintro _ ⟨token, _, rfl, isSign, _, spelled⟩
      exact spells_looser (by decide) (.negate token isSign spelled)

theorem operator_of_symbol (op : BinaryOp) :
    ∃ kind ∈ operators, kind.text = op.symbol ∧ BinaryOp.ofKind? kind = some op := by
  cases op <;> decide

theorem written_between (op : BinaryOp) (writtenLeft : Written (.expression .applied) left tree)
    (writtenRight : Written (.expression .applied) right other) :
    Written (.expression .equality) (left ++ " " ++ op.symbol ++ " " ++ right)
      (.binary tree op other) := by
  obtain ⟨kind, isOperator, symbol, isOp⟩ := operator_of_symbol op
  have first := written_looser (.ofOp op) (by cases op <;> decide) writtenLeft
  have second := written_looser (Stratum.ofOp op).tighter (by cases op <;> decide) writtenRight
  have behind := scanned_heads (.operator isOperator) (scanned_space second)
    fun rest _ => bounds_space kind _
  have whole := scanned_parts first (scanned_space behind)
    fun _ _ => breaks_cons _ rfl
  rw [symbol] at whole
  simp only [Written, String.toList_append, List.append_assoc]
  refine scanned_imp whole ?_
  rintro _ ⟨before, _, rfl, spelledLeft, token, behind, rfl, isSign, _, spelledRight⟩
  rw [← isSign] at isOp
  refine spells_looser ?_ (.binary token op spelledLeft isOp spelledRight)
  cases op <;> decide

/-- An operation is spelled in parentheses where it stands like a single operand. -/
theorem spells_grouped {tokens : List Token} {tight : Stratum}
    (isTight : Stratum.applied.rank ≤ tight.rank) (operation : tree.isOperation = true)
    (spelled : Spells (.expression tight) tokens tree) :
    ∃ opening inner closing, tokens = opening :: inner ++ [closing] ∧ opening.kind = .leftParen ∧
      Spells (.expression .equality) inner tree ∧ closing.kind = .rightParen := by
  cases spelled with
  | group opening closing opens inner closes =>
      exact ⟨opening, _, closing, rfl, opens, inner, closes⟩
  | looser _ notAtom inner =>
      have tighter : tight.rank ≤ tight.tighter.rank := by cases tight <;> decide
      exact spells_grouped (Nat.le_trans isTight tighter) operation inner
  | binary _ op => exact absurd isTight (by cases op <;> decide)
  | not | negate => exact absurd isTight (by decide)
  | _ => cases operation
termination_by Stratum.atom.rank - tight.rank
decreasing_by cases tight <;> first | decide | exact absurd rfl notAtom

/-- The text of a condition, down to the parentheses that it brings itself. -/
theorem written_condition (operation : tree.isOperation = true)
    (written : Written (.expression .applied) text tree) :
    Scanned Breaks text.toList fun tokens => ∃ opening inner closing,
      tokens = opening :: inner ++ [closing] ∧ opening.kind = .leftParen ∧
        Spells (.expression .equality) inner tree ∧ closing.kind = .rightParen :=
  scanned_imp written fun _ => spells_grouped (by decide) operation

theorem written_if_then (operation : tree.isOperation = true)
    (condition : Written (.expression .applied) text tree)
    (consequence : Written .block blockText body) :
    Written (.expression .applied) ("if " ++ text ++ " " ++ blockText) (.ifThen tree body) := by
  have test := scanned_parts (written_condition operation condition) (scanned_space consequence)
    fun _ _ => breaks_cons _ rfl
  have whole := scanned_keyword .ifWord (by decide) (scanned_space test)
    fun _ _ => breaks_cons _ rfl
  refine written_atom ?_
  simp only [String.toList_append, List.append_assoc]
  refine scanned_imp whole ?_
  rintro _ ⟨word, _, rfl, isIf, _, _, block, rfl, ⟨opening, inner, closing, rfl, opens, spelled,
    closes⟩, spelledBlock⟩
  have spelledIf := Spells.ifThen word opening closing isIf opens spelled closes spelledBlock
  simpa only [List.cons_append, List.append_assoc, List.nil_append] using spelledIf

theorem written_if_else (operation : tree.isOperation = true)
    (condition : Written (.expression .applied) text tree)
    (consequence : Written .block blockText body)
    (alternative : Written .block otherText otherBody) :
    Written (.expression .applied) ("if " ++ text ++ " " ++ blockText ++ " else " ++ otherText)
      (.ifElse tree body otherBody) := by
  have other := scanned_keyword .elseWord (by decide) (scanned_space alternative)
    fun _ _ => breaks_cons _ rfl
  have blocks := scanned_parts consequence (scanned_space other) fun _ _ => breaks_cons _ rfl
  have test := scanned_parts (written_condition operation condition) (scanned_space blocks)
    fun _ _ => breaks_cons _ rfl
  have whole := scanned_keyword .ifWord (by decide) (scanned_space test)
    fun _ _ => breaks_cons _ rfl
  refine written_atom ?_
  simp only [String.toList_append, List.append_assoc]
  refine scanned_imp whole ?_
  rintro _ ⟨word, _, rfl, isIf, _, _, _, rfl, ⟨opening, inner, closing, rfl, opens, spelled,
    closes⟩, block, _, rfl, spelledBlock, elseToken, _, rfl, isElse, _, spelledOther⟩
  have spelledIf := Spells.ifElse word opening closing elseToken isIf opens spelled closes
    spelledBlock isElse spelledOther
  simpa only [List.cons_append, List.append_assoc, List.nil_append] using spelledIf

end Expressions

section Lists

variable {text : String} {name : String} {names : List String} {tree : Expr} {trees : List Expr}

theorem scanned_name (named : isName name = true) :
    Scanned Breaks name.toList (Heads .identifier name.toList (· = [])) :=
  scanned_of_admitted (scanned_token (.identifier (name_is_word named) (name_is_no_keyword named)))
    (bounds_of_breaks (by decide))

theorem scanned_names (first : String) (rest : List String)
    (named : ∀ name ∈ first :: rest, isName name = true) :
    Scanned Breaks (", ".intercalate (first :: rest)).toList fun tokens =>
      SpellsNames tokens (first :: rest) := by
  have isFirst := scanned_name (named first List.mem_cons_self)
  induction rest generalizing first with
  | nil =>
      rw [String.intercalate_singleton]
      refine scanned_imp isFirst ?_
      rintro _ ⟨token, _, rfl, isName, slice, rfl⟩
      rw [String.ofList_toList] at slice
      rw [← slice]
      exact .one token isName
  | cons second rest induction =>
      have namedRest := fun name member => named name (List.mem_cons_of_mem first member)
      have others := induction second namedRest (scanned_name (namedRest second List.mem_cons_self))
      have behind := scanned_mark .comma (by decide) (by decide) (scanned_space others)
      have whole := scanned_parts isFirst behind fun _ _ => breaks_cons _ rfl
      simp only [String.intercalate_cons_cons, String.toList_append, List.append_assoc]
      refine scanned_imp whole ?_
      rintro _ ⟨_, _, rfl, ⟨token, _, rfl, isName, slice, rfl⟩, comma, _, rfl, isComma, _, spelled⟩
      rw [String.ofList_toList] at slice
      rw [← slice]
      exact .more token comma isName isComma spelled

theorem scanned_parameters (named : ∀ name ∈ names, isName name = true) :
    Scanned Breaks (", ".intercalate names).toList fun tokens => SpellsParameters tokens names := by
  cases names with
  | nil =>
      refine scanned_imp scanned_nothing ?_
      rintro _ rfl
      exact Or.inl ⟨rfl, rfl⟩
  | cons first rest =>
      exact scanned_imp (scanned_names first rest named) fun _ => Or.inr

theorem written_expressions (first : Expr) (rest : List Expr)
    (written : ∀ tree ∈ first :: rest, Written (.expression .applied) tree.render tree) :
    Written .expressions (", ".intercalate (renderExpressions (first :: rest)))
      (first :: rest) := by
  have isFirst := written_looser .equality (by decide) (written first List.mem_cons_self)
  induction rest generalizing first with
  | nil =>
      rw [renderExpressions, renderExpressions, String.intercalate_singleton]
      exact scanned_imp isFirst fun _ => .lastExpression
  | cons second rest induction =>
      have writtenRest := fun tree member => written tree (List.mem_cons_of_mem first member)
      have others := induction second writtenRest
        (written_looser .equality (by decide) (writtenRest second List.mem_cons_self))
      have behind := scanned_mark .comma (by decide) (by decide) (scanned_space others)
      have whole := scanned_parts isFirst behind fun _ _ => breaks_cons _ rfl
      simp only [Written, renderExpressions, String.intercalate_cons_cons, String.toList_append,
        List.append_assoc]
      refine scanned_imp whole ?_
      rintro _ ⟨_, _, rfl, spelledFirst, comma, _, rfl, isComma, _, spelled⟩
      exact .moreExpressions comma spelledFirst isComma spelled

theorem written_arguments
    (written : ∀ tree ∈ trees, Written (.expression .applied) tree.render tree) :
    Written .arguments (", ".intercalate (renderExpressions trees)) trees := by
  cases trees with
  | nil =>
      refine scanned_imp scanned_nothing ?_
      rintro _ rfl
      exact .noArguments
  | cons first rest =>
      exact scanned_imp (written_expressions first rest written)
        fun _ => .someArguments

theorem written_call (callee : Written (.expression .applied) text tree)
    (written : ∀ tree ∈ trees, Written (.expression .applied) tree.render tree) :
    Written (.expression .applied)
      (text ++ "(" ++ ", ".intercalate (renderExpressions trees) ++ ")") (.call tree trees) := by
  have inner := scanned_parts (written_arguments written) (@scanned_closing Breaks)
    fun _ _ => breaks_cons _ rfl
  have behind := scanned_mark .leftParen (by decide) (by decide) inner
  have whole := scanned_parts callee behind fun _ _ => breaks_cons _ rfl
  simp only [Written, String.toList_append, List.append_assoc]
  refine scanned_imp whole ?_
  rintro _ ⟨before, _, rfl, spelledCallee, opening, _, rfl, opens, _, arguments, _, rfl, spelled,
    closing, _, rfl, closes, _, rfl⟩
  have spelledCall := Spells.call opening closing spelledCallee opens spelled closes
  simpa only [List.cons_append, List.append_assoc] using spelledCall

theorem written_function {body : Block} (named : ∀ name ∈ names, isName name = true)
    (block : Written .block text body) :
    Written (.expression .applied) ("fn(" ++ ", ".intercalate names ++ ") " ++ text)
      (.function names body) := by
  have closing := scanned_mark .rightParen (by decide) (by decide) (scanned_space block)
  have inner := scanned_parts (scanned_parameters named) closing fun _ _ => breaks_cons _ rfl
  have opening := scanned_mark .leftParen (by decide) (by decide) inner
  have whole := scanned_keyword .fnWord (by decide) opening fun _ _ => breaks_cons _ rfl
  refine written_atom ?_
  simp only [String.toList_append, List.append_assoc]
  refine scanned_imp whole ?_
  rintro _ ⟨word, _, rfl, isFn, _, opening, _, rfl, opens, _, parameters, _, rfl, spelled, closing,
    _, rfl, closes, _, spelledBlock⟩
  have function := Spells.function word opening closing isFn opens spelled closes spelledBlock
  simpa only [List.cons_append, List.append_assoc] using function

end Lists

/-- A statement's tokens spell it. A semicolon that stands in its text is the last of them. -/
inductive StatementWritten : Stmt → Prop where
  | ended {statement : Stmt} : statement.isExpression = false →
      Scanned Anything statement.render.toList
        (Parts (Spells .statement · statement) (Heads .semicolon ";".toList (· = []))) →
      StatementWritten statement
  | unended {value : Expr} : Written (.expression .equality) value.render value →
      StatementWritten (.expr value)

/-- A statement without a semicolon has a gap behind it and does not run on into the next one. -/
def Joins (gap : String) (first next : Stmt) : Prop :=
  first.isExpression = true → gap = " " ∧ next.render.toList.head? ≠ some '('

section Statements

variable {text gap name : String} {value : Expr} {first : Stmt} {statements rest : List Stmt}

theorem scanned_semicolon :
    Scanned Anything ";".toList (Heads .semicolon ";".toList (· = [])) :=
  scanned_mark .semicolon (by decide) (by decide) scanned_nothing

theorem bind_written (named : isName name = true)
    (written : Written (.expression .applied) value.render value) :
    StatementWritten (.bind name value) := by
  have inner := scanned_parts (written_looser .equality (by decide) written) scanned_semicolon
    fun _ _ => breaks_cons _ rfl
  have signed := scanned_heads (@Fits.operator .equal (by decide)) (scanned_space inner)
    fun _ _ => bounds_space _ _
  have behind := scanned_parts (scanned_name named) (scanned_space signed)
    fun _ _ => breaks_cons _ rfl
  have whole := scanned_keyword .letWord (by decide) (scanned_space behind)
    fun _ _ => breaks_cons _ rfl
  refine .ended rfl ?_
  simp only [Stmt.render, String.toList_append, List.append_assoc]
  refine scanned_imp whole ?_
  rintro _ ⟨word, _, rfl, isLet, _, _, _, rfl, ⟨token, _, rfl, isName, slice, rfl⟩, sign, _, rfl,
    isSign, _, tokens, ending, rfl, spelled, semicolon⟩
  rw [String.ofList_toList] at slice
  rw [← slice]
  exact ⟨_, ending, rfl, .bind word token sign isLet isName isSign spelled, semicolon⟩

theorem return_written (written : Written (.expression .applied) value.render value) :
    StatementWritten (.return value) := by
  have inner := scanned_parts (written_looser .equality (by decide) written) scanned_semicolon
    fun _ _ => breaks_cons _ rfl
  have whole := scanned_keyword .returnWord (by decide) (scanned_space inner)
    fun _ _ => breaks_cons _ rfl
  refine .ended rfl ?_
  simp only [Stmt.render, String.toList_append, List.append_assoc]
  refine scanned_imp whole ?_
  rintro _ ⟨word, _, rfl, isReturn, _, tokens, ending, rfl, spelled, semicolon⟩
  exact ⟨_, ending, rfl, .return word isReturn spelled, semicolon⟩

/-- What does not start with a sign or a parenthesis links to nothing before it. -/
theorem scanned_unlinked {admitted : List Char → Prop} {described : List Token → Prop}
    {text : List Char} (scanned : Scanned admitted text described) (opens : Opens text)
    (noParen : text.head? ≠ some '(') :
    Scanned admitted text fun tokens => described tokens ∧ Unlinked tokens := by
  intro offset rest isAdmitted
  obtain ⟨stop, tokens, scans, isDescribed⟩ := scanned offset rest isAdmitted
  refine ⟨stop, tokens, scans, isDescribed, fun next isNext => ?_⟩
  have opening := opening_visible opens
  obtain ⟨char, more, rfl, _⟩ := opens
  obtain ⟨visible, _, noMinus⟩ := opening char rfl
  obtain ⟨others, fits⟩ := scans_opening scans visible next isNext
  constructor <;> intro isLink <;> rw [isLink] at fits
  · generalize same : char :: others = whole at fits
    cases fits with
    | keyword isKeyword => exact absurd isKeyword (by decide)
    | operator _ => exact noMinus (List.cons.inj same).1
  · generalize same : char :: others = whole at fits
    cases fits with
    | keyword isKeyword => exact absurd isKeyword (by decide)
    | operator _ => exact noParen (congrArg some (List.cons.inj same).1)

theorem written_first {behind : List Char} (written : StatementWritten first)
    (scanned : Scanned Breaks behind fun tokens =>
      Spells .statements tokens rest ∧ (first.isExpression = true → Unlinked tokens))
    (apart : first.isExpression = true → ∀ rest, Breaks rest → Breaks (behind ++ rest)) :
    Scanned Breaks (first.render.toList ++ behind) fun tokens =>
      Spells .statements tokens (first :: rest) := by
  cases written with
  | ended _ isEnded =>
      refine scanned_imp (scanned_parts isEnded scanned fun _ _ => trivial) ?_
      rintro _ ⟨_, others, rfl, ⟨tokens, _, rfl, spelled, semicolon, _, rfl, isSemicolon, _, rfl⟩,
        spelledRest, _⟩
      rw [List.append_assoc]
      exact .ended semicolon spelled isSemicolon spelledRest
  | unended isUnended =>
      refine scanned_imp (scanned_parts isUnended scanned (apart rfl)) ?_
      rintro _ ⟨tokens, others, rfl, spelled, spelledRest, unlinked⟩
      exact .unended (.expr spelled) (unlinked rfl) spelledRest

theorem rendered_first (gap : String) (first : Stmt) (rest : List Stmt) :
    ∃ behind, (gap.intercalate (renderStatements (first :: rest))).toList =
      first.render.toList ++ behind := by
  cases rest with
  | nil =>
      rw [renderStatements, renderStatements, String.intercalate_singleton]
      exact ⟨[], (List.append_nil _).symm⟩
  | cons second rest =>
      simp only [renderStatements, String.intercalate_cons_cons, String.toList_append,
        List.append_assoc]
      exact ⟨_, rfl⟩

/-- Behind the gap after a statement the others are scanned so that the statement is left as it
is. -/
theorem scanned_others {second : Stmt} {more : List Stmt} {behind : List Char}
    (isGap : gap = "" ∨ gap = " ") (join : Joins gap first second)
    (opens : Opens second.render.toList)
    (others : Scanned Breaks (second.render.toList ++ behind)
      (Spells .statements · (second :: more))) :
    Scanned Breaks (gap.toList ++ (second.render.toList ++ behind)) fun tokens =>
      Spells .statements tokens (second :: more) ∧
        (first.isExpression = true → Unlinked tokens) := by
  have sameHead : (second.render.toList ++ behind).head? = second.render.toList.head? := by
    obtain ⟨char, text, same, _⟩ := opens
    rw [same, List.cons_append, List.head?_cons, List.head?_cons]
  have unlinked : Scanned Breaks (second.render.toList ++ behind) fun tokens =>
      Spells .statements tokens (second :: more) ∧
        (first.isExpression = true → Unlinked tokens) := by
    by_cases runs : first.isExpression = true
    -- Only a statement without a semicolon could take up what follows it.
    · refine scanned_imp (scanned_unlinked others (opens_append opens behind) ?_) fun _ both =>
        ⟨both.1, fun _ => both.2⟩
      rw [sameHead]
      exact (join runs).2
    · exact scanned_imp others fun _ spelled => ⟨spelled, fun runsOn => absurd runsOn runs⟩
  rcases isGap with rfl | rfl
  · exact unlinked
  · exact scanned_space unlinked

theorem written_statements (isGap : gap = "" ∨ gap = " ")
    (written : ∀ statement ∈ statements,
      StatementWritten statement ∧ Opens statement.render.toList)
    (joined : statements.IsChain (Joins gap)) :
    Written .statements (gap.intercalate (renderStatements statements)) statements := by
  induction statements with
  | nil =>
      refine scanned_imp scanned_nothing ?_
      rintro _ rfl
      exact .noStatements
  | cons first rest induction =>
      have isFirst := (written first List.mem_cons_self).1
      have others := induction (fun statement member => written statement
        (List.mem_cons_of_mem first member)) joined.tail
      cases rest with
      | nil =>
          have nothing : Scanned Breaks [] fun tokens =>
              Spells .statements tokens [] ∧ (first.isExpression = true → Unlinked tokens) := by
            refine scanned_imp scanned_nothing ?_
            rintro _ rfl
            exact ⟨.noStatements, fun _ => nofun⟩
          have whole := written_first isFirst nothing fun _ _ breaks => breaks
          rw [List.append_nil] at whole
          rwa [Written, renderStatements, renderStatements, String.intercalate_singleton]
      | cons second more =>
          have join := (List.isChain_cons_cons.mp joined).1
          have opens := (written second (List.mem_cons_of_mem first List.mem_cons_self)).2
          obtain ⟨behind, rendered⟩ := rendered_first gap second more
          rw [Written, rendered] at others
          have spaced := scanned_others isGap join opens others
          have whole := written_first isFirst spaced fun runs _ _ => by
            rw [(join runs).1]
            exact breaks_cons _ rfl
          rw [renderStatements] at rendered
          simp only [Written, renderStatements, String.intercalate_cons_cons, String.toList_append,
            List.append_assoc, rendered]
          exact whole

end Statements

section Blocks

variable {statements : List Stmt}

theorem joins_of_stand_apart (apart : standApart statements = true) :
    statements.IsChain (Joins " ") := by
  induction statements with
  | nil => exact .nil
  | cons first rest induction =>
      cases rest with
      | nil => exact .singleton first
      | cons second more =>
          rw [standApart, Bool.and_eq_true, Bool.not_eq_true', Stmt.runsInto] at apart
          refine .cons_cons (fun runs => ⟨rfl, fun paren => ?_⟩) (induction apart.2)
          simp [runs, paren] at apart

theorem joins_of_last (last : ∀ statement ∈ statements.dropLast, statement.isExpression = false) :
    statements.IsChain (Joins "") := by
  induction statements with
  | nil => exact .nil
  | cons first rest induction =>
      cases rest with
      | nil => exact .singleton first
      | cons second more =>
          rw [List.dropLast_cons_cons] at last
          refine .cons_cons (fun runs => ?_)
            (induction fun statement member => last statement (List.mem_cons_of_mem first member))
          rw [last first List.mem_cons_self] at runs
          cases runs

theorem block_written (apart : standApart statements = true)
    (written : ∀ statement ∈ statements,
      StatementWritten statement ∧ Opens statement.render.toList) :
    Written .block (renderBraces (renderStatements statements)) statements := by
  have closing : Scanned Breaks " \x7d".toList (Heads .rightBrace "\x7d".toList (· = [])) :=
    scanned_space (scanned_mark .rightBrace (by decide) (by decide) scanned_nothing)
  have inner : Scanned Breaks
      ((" ".intercalate (renderStatements statements)).toList ++ " \x7d".toList)
      (Parts (Spells .statements · statements) (Heads .rightBrace "\x7d".toList (· = []))) :=
    scanned_parts (written_statements (Or.inr rfl) written (joins_of_stand_apart apart)) closing
      fun _ _ => breaks_cons _ rfl
  have spelled (tokens : List Token)
      (parts : Heads .leftBrace "\x7b".toList
        (Parts (Spells .statements · statements) (Heads .rightBrace "\x7d".toList (· = [])))
        tokens) :
      Spells .block tokens statements := by
    obtain ⟨opening, _, rfl, opens, _, _, _, rfl, spelled, closing, _, rfl, closes, _, rfl⟩ := parts
    exact .block opening closing opens spelled closes
  cases statements with
  | nil => exact scanned_imp (scanned_mark .leftBrace (by decide) (by decide) inner) spelled
  | cons first rest =>
      have whole := scanned_mark .leftBrace (by decide) (by decide) (scanned_space inner)
      rw [renderBraces, if_neg (by simp [renderStatements])]
      simp only [Written, String.toList_append, List.append_assoc]
      exact scanned_imp whole spelled

end Blocks

mutual

theorem Expr.written :
    (tree : Expr) → tree.isUnambiguous = true → Written (.expression .applied) tree.render tree
  | .name name, unambiguous => by
      refine written_atom (scanned_imp (scanned_name unambiguous) ?_)
      rintro _ ⟨token, _, rfl, isName, slice, rfl⟩
      rw [String.ofList_toList] at slice
      subst slice
      exact .name token isName
  | .int value, unambiguous => by
      have nonnegative : 0 ≤ value.toInt := of_decide_eq_true unambiguous
      obtain ⟨nonempty, digits⟩ := digits_are_digits value.toInt.natAbs
      rw [← write_of_nonnegative nonnegative] at nonempty digits
      have scanned := scanned_of_admitted (scanned_token (.integer nonempty digits))
        (bounds_of_breaks (by decide))
      refine written_atom (scanned_imp scanned ?_)
      rintro _ ⟨token, _, rfl, isInteger, slice, rfl⟩
      refine .integer token value isInteger ?_
      rw [slice, String.ofList_toList, read_of_write nonnegative]
  | .bool true, _ => by
      refine written_atom (scanned_imp (scanned_keyword .trueWord (by decide) scanned_nothing
        fun _ breaks => breaks) ?_)
      rintro _ ⟨token, _, rfl, isTrue, _, rfl⟩
      exact .yes token isTrue
  | .bool false, _ => by
      refine written_atom (scanned_imp (scanned_keyword .falseWord (by decide) scanned_nothing
        fun _ breaks => breaks) ?_)
      rintro _ ⟨token, _, rfl, isFalse, _, rfl⟩
      exact .no token isFalse
  | .unary op operand, unambiguous => by
      have written := written_group
        (written_sign op (operand.written unambiguous) (operand.render_opens unambiguous))
      simpa only [Expr.render, Written, String.toList_append, List.append_assoc] using written
  | .binary left op right, unambiguous => by
      rw [Expr.isUnambiguous, Bool.and_eq_true] at unambiguous
      have written := written_group
        (written_between op (left.written unambiguous.1) (right.written unambiguous.2))
      simpa only [Expr.render, Written, String.toList_append, List.append_assoc] using written
  | .ifThen condition consequence, unambiguous => by
      simp only [Expr.isUnambiguous, Bool.and_eq_true] at unambiguous
      obtain ⟨⟨operation, test⟩, apart, block⟩ := unambiguous
      exact written_if_then operation (condition.written test)
        (block_written apart (statements_written consequence block))
  | .ifElse condition consequence alternative, unambiguous => by
      simp only [Expr.isUnambiguous, Bool.and_eq_true] at unambiguous
      obtain ⟨⟨⟨operation, test⟩, apart, block⟩, apartOther, other⟩ := unambiguous
      exact written_if_else operation (condition.written test)
        (block_written apart (statements_written consequence block))
        (block_written apartOther (statements_written alternative other))
  | .function parameters body, unambiguous => by
      simp only [Expr.isUnambiguous, Bool.and_eq_true, List.all_eq_true] at unambiguous
      obtain ⟨named, apart, block⟩ := unambiguous
      exact written_function named (block_written apart (statements_written body block))
  | .call callee arguments, unambiguous => by
      rw [Expr.isUnambiguous, Bool.and_eq_true] at unambiguous
      exact written_call (callee.written unambiguous.1) (arguments_written arguments unambiguous.2)

theorem Stmt.written :
    (statement : Stmt) → statement.isUnambiguous = true → StatementWritten statement
  | .bind _ value, unambiguous => by
      rw [Stmt.isUnambiguous, Bool.and_eq_true] at unambiguous
      exact bind_written unambiguous.1 (value.written unambiguous.2)
  | .return value, unambiguous => return_written (value.written unambiguous)
  | .expr value, unambiguous =>
      .unended (written_looser .equality (by decide) (value.written unambiguous))

theorem arguments_written : (trees : List Expr) → areUnambiguousArguments trees = true →
    ∀ tree ∈ trees, Written (.expression .applied) tree.render tree
  | [], _ => nofun
  | first :: rest, unambiguous => by
      rw [areUnambiguousArguments, Bool.and_eq_true] at unambiguous
      exact List.forall_mem_cons.mpr
        ⟨first.written unambiguous.1, arguments_written rest unambiguous.2⟩

theorem statements_written : (statements : List Stmt) → areUnambiguous statements = true →
    ∀ statement ∈ statements, StatementWritten statement ∧ Opens statement.render.toList
  | [], _ => nofun
  | first :: rest, unambiguous => by
      rw [areUnambiguous, Bool.and_eq_true] at unambiguous
      exact List.forall_mem_cons.mpr
        ⟨⟨first.written unambiguous.1, first.render_opens unambiguous.1⟩,
          statements_written rest unambiguous.2⟩

end

/-- The text of an unambiguous program is read as that program, without a report. -/
theorem read_rendered_program (program : Program)
    (unambiguous : isUnambiguousProgram program = true) :
    readSource (renderProgram program) = (program, []) := by
  rw [isUnambiguousProgram, Bool.and_eq_true, List.all_eq_true] at unambiguous
  obtain ⟨last, all⟩ := unambiguous
  have written := written_statements (Or.inl rfl) (statements_written program all)
    (joins_of_last fun statement member => by simpa using last statement member)
  obtain ⟨stop, tokens, scans, spelled⟩ := written 0 [] nofun
  have scanned : Token.scan (renderProgram program) = tokens ++ [Token.endAt stop] := by
    rw [List.append_nil] at scans
    rw [Token.scan, renderProgram, scan_of_scans scans, Token.scanFrom]
  rw [readSource, scanned]
  exact read_of_spells spelled rfl

/-- An operation that is called, and a function that is called where it stands. -/
theorem called_operation_is_read : ∃ program, isUnambiguousProgram program = true ∧
    renderProgram program = "let f = fn(x, y) \x7b if (x < (-y)) \x7b x 3 \x7d \x7d;return f;" ++
      "(!f)(7)(fn() \x7b \x7d())" ∧
    readSource (renderProgram program) = (program, []) :=
  ⟨[.bind "f" (.function ["x", "y"]
      [.expr (.ifThen (.binary (.name "x") .less (.unary .negate (.name "y")))
        [.expr (.name "x"), .expr (.int 3)])]),
    .return (.name "f"),
    .expr (.call (.call (.unary .not (.name "f")) [.int 7]) [.call (.function [] []) []])],
    by decide, by decide, read_rendered_program _ (by decide)⟩

end Scriptlet
