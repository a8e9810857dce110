import Scriptlet.Program.Render
import Scriptlet.Proofs.Token.Lexeme

/-!
The programs whose text says all about them. A negative numeral would read as a negated one, a bare
condition has no parentheses to stand between, and an expression without a semicolon runs on into a
parenthesis behind it, or, at the top level, into any text behind it.
-/

namespace Scriptlet

open Text Lexeme

/-- Letters, digits and underscores, the first of them no digit, that are no keyword. -/
def isName (name : String) : Bool :=
  match name.toList with
  | [] => false
  | first :: rest =>
      startsWord first && rest.all continuesWord && (TokenKind.ofKeyword? name).isNone

def Expr.isOperation : Expr → Bool
  | .unary _ _ | .binary _ _ _ => true
  | _ => false

def Stmt.isExpression : Stmt → Bool
  | .expr _ => true
  | _ => false

/-- Whether the text of a statement would be read as going on into the text of the next one. -/
def Stmt.runsInto (first next : Stmt) : Bool :=
  first.isExpression && next.render.toList.head? == some '('

def standApart : List Stmt → Bool
  | first :: next :: rest => !first.runsInto next && standApart (next :: rest)
  | _ => true

mutual

def Expr.isUnambiguous : Expr → Bool
  | .name name => isName name
  | .int value => decide (0 ≤ value.toInt)
  | .bool _ => true
  | .unary _ operand => operand.isUnambiguous
  | .binary left _ right => left.isUnambiguous && right.isUnambiguous
  | .ifThen condition consequence =>
      condition.isOperation && condition.isUnambiguous &&
        (standApart consequence && areUnambiguous consequence)
  | .ifElse condition consequence alternative =>
      condition.isOperation && condition.isUnambiguous &&
        (standApart consequence && areUnambiguous consequence) &&
          (standApart alternative && areUnambiguous alternative)
  | .function parameters body =>
      parameters.all isName && (standApart body && areUnambiguous body)
  | .call callee arguments => callee.isUnambiguous && areUnambiguousArguments arguments

def Stmt.isUnambiguous : Stmt → Bool
  | .bind name value => isName name && value.isUnambiguous
  | .return value => value.isUnambiguous
  | .expr value => value.isUnambiguous

def areUnambiguousArguments : List Expr → Bool
  | [] => true
  | first :: rest => first.isUnambiguous && areUnambiguousArguments rest

def areUnambiguous : List Stmt → Bool
  | [] => true
  | first :: rest => first.isUnambiguous && areUnambiguous rest

end

/-- At the top level only the last statement may be an expression. -/
def isUnambiguousProgram (program : Program) : Bool :=
  program.dropLast.all (fun statement => !statement.isExpression) && areUnambiguous program

def Opens (text : List Char) : Prop :=
  ∃ first rest, text = first :: rest ∧ (continuesWord first = true ∨ first = '(')

section Openings

theorem opens_append {front : List Char} (opens : Opens front) (back : List Char) :
    Opens (front ++ back) := by
  obtain ⟨first, rest, rfl, start⟩ := opens
  exact ⟨first, rest ++ back, rfl, start⟩

theorem opening_visible {text : List Char} (opens : Opens text) :
    ∀ first ∈ text.head?, isBlank first = false ∧ first ≠ '=' ∧ first ≠ '-' := by
  obtain ⟨first, rest, rfl, start⟩ := opens
  intro char same
  cases Option.some.inj same
  rcases start with word | rfl
  · refine ⟨not_blank_of_word word, ?_, ?_⟩ <;>
    · rintro rfl
      exact absurd word (by decide)
  · decide

variable {name : String}

theorem name_is_word (named : isName name = true) : IsWord name.toList := by
  unfold isName at named
  split at named
  · cases named
  · rename_i first rest same
    simp only [Bool.and_eq_true, List.all_eq_true] at named
    exact ⟨first, rest, same, named.1.1, named.1.2⟩

theorem name_is_no_keyword (named : isName name = true) :
    ∀ kind ∈ TokenKind.keywords, name.toList ≠ kind.text.toList := by
  unfold isName at named
  split at named
  · cases named
  · simp only [Bool.and_eq_true, Option.isNone_iff_eq_none, TokenKind.ofKeyword?,
      List.find?_eq_none, beq_iff_eq] at named
    intro kind isKeyword same
    exact named.2 kind isKeyword (String.toList_inj.mp same.symm)

theorem name_opens (named : isName name = true) : Opens name.toList := by
  obtain ⟨first, rest, same, starts, _⟩ := name_is_word named
  exact ⟨first, rest, same, Or.inl (continues_word_iff.mpr (Or.inl starts))⟩

end Openings

section Numerals

variable {value : Int64}

theorem write_of_nonnegative (nonnegative : 0 ≤ value.toInt) :
    (Decimal.write value).toList = Decimal.digits value.toInt.natAbs := by
  rw [Decimal.write, String.toList_ofList, Decimal.writeChars, if_neg (by omega)]

theorem digits_are_digits (number : Nat) :
    Decimal.digits number ≠ [] ∧ ∀ char ∈ Decimal.digits number, char.isDigit = true :=
  ⟨Nat.toDigits_ne_nil, fun _ member => Nat.isDigit_of_mem_toDigits (by decide) (by decide) member⟩

/-- A run of digits without a sign denotes its magnitude, if that fits the width. -/
theorem read_of_digits {run : List Char} (nonempty : run ≠ [])
    (digits : ∀ char ∈ run, char.isDigit = true) :
    Decimal.readChars? run = Decimal.fit? (Decimal.valueOf run) := by
  have magnitude : Decimal.magnitude? run = some (Decimal.valueOf run) :=
    if_pos ⟨nonempty, List.all_eq_true.mpr digits⟩
  unfold Decimal.readChars?
  split
  · exact absurd (digits _ List.mem_cons_self) (by decide)
  · exact absurd (digits _ List.mem_cons_self) (by decide)
  · rw [magnitude, Option.bind_some]

/-- The numeral of a value that is not negative denotes it. -/
theorem read_of_write (nonnegative : 0 ≤ value.toInt) :
    Decimal.read? (Decimal.write value) = some value := by
  obtain ⟨nonempty, digits⟩ := digits_are_digits value.toInt.natAbs
  have whole :
      ((Decimal.valueOf (Decimal.digits value.toInt.natAbs) : Nat) : Int) = value.toInt := by
    rw [Decimal.valueOf, Decimal.digits, Nat.ofDigitChars_ten_toDigits,
      Int.natAbs_of_nonneg nonnegative]
  rw [Decimal.read?, write_of_nonnegative nonnegative, read_of_digits nonempty digits, whole,
    Decimal.fit?, if_pos ⟨value.minValue_le_toInt, value.toInt_le⟩, Int64.ofInt_toInt]

end Numerals

/-- No unambiguous expression starts with a sign. -/
theorem Expr.render_opens :
    (tree : Expr) → tree.isUnambiguous = true → Opens tree.render.toList
  | .name _, unambiguous => name_opens unambiguous
  | .int value, unambiguous => by
      have nonnegative : 0 ≤ value.toInt := of_decide_eq_true unambiguous
      obtain ⟨nonempty, digits⟩ := digits_are_digits value.toInt.natAbs
      rw [Expr.render, write_of_nonnegative nonnegative]
      obtain ⟨first, rest, same⟩ := List.exists_cons_of_ne_nil nonempty
      rw [same] at digits
      exact ⟨first, rest, same,
        Or.inl (continues_word_iff.mpr (Or.inr (digits first List.mem_cons_self)))⟩
  | .bool true, _ => ⟨'t', _, rfl, Or.inl (by decide)⟩
  | .bool false, _ => ⟨'f', _, rfl, Or.inl (by decide)⟩
  | .unary _ _, _ => by
      simp only [Expr.render, String.toList_append, List.append_assoc]
      exact ⟨'(', _, rfl, Or.inr rfl⟩
  | .binary _ _ _, _ => by
      simp only [Expr.render, String.toList_append, List.append_assoc]
      exact ⟨'(', _, rfl, Or.inr rfl⟩
  | .ifThen _ _, _ => by
      simp only [Expr.render, String.toList_append, List.append_assoc]
      exact ⟨'i', _, rfl, Or.inl (by decide)⟩
  | .ifElse _ _ _, _ => by
      simp only [Expr.render, String.toList_append, List.append_assoc]
      exact ⟨'i', _, rfl, Or.inl (by decide)⟩
  | .function _ _, _ => by
      simp only [Expr.render, String.toList_append, List.append_assoc]
      exact ⟨'f', _, rfl, Or.inl (by decide)⟩
  | .call callee _, unambiguous => by
      rw [Expr.isUnambiguous, Bool.and_eq_true] at unambiguous
      simp only [Expr.render, String.toList_append, List.append_assoc]
      exact opens_append (callee.render_opens unambiguous.1) _

theorem Stmt.render_opens (statement : Stmt) (unambiguous : statement.isUnambiguous = true) :
    Opens statement.render.toList := by
  cases statement with
  | bind _ _ =>
      simp only [Stmt.render, String.toList_append, List.append_assoc]
      exact ⟨'l', _, rfl, Or.inl (by decide)⟩
  | «return» _ =>
      simp only [Stmt.render, String.toList_append, List.append_assoc]
      exact ⟨'r', _, rfl, Or.inl (by decide)⟩
  | expr value => exact value.render_opens unambiguous

end Scriptlet
