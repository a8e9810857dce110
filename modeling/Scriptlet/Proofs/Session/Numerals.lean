import Mathlib.Data.Nat.Digits.Defs
import Scriptlet.Proofs.Evaluation.Ends
import Scriptlet.Proofs.Grammar.Numeral
import Scriptlet.Proofs.Rendering.RoundTrip
import Scriptlet.Proofs.Session.Parts

/-!
Integers as texts. A run of digits of any length is the number that it denotes, with a sign for each
minus in front of it, or else it is too great for an integer, and then this is the only error. The
text of an integer comes to the integer, but for the lowest one, whose digits without the sign are
too great.
-/

namespace Scriptlet

open Text Evaluation Lexeme TokenKind

def decimalValue (digits : String) : Nat :=
  Nat.ofDigits 10 (digits.toList.reverse.map fun char => char.toNat - '0'.toNat)

def signedText (signs : Nat) (digits : String) : String :=
  String.ofList (List.replicate signs '-') ++ digits

structure IsNumeral (digits : String) : Prop where
  nonempty : digits ≠ ""
  digits : ∀ char ∈ digits.toList, char.isDigit = true

section Digits

variable {digits : String}

theorem value_of_digits (run : List Char) (start : Nat) :
    Nat.ofDigitChars 10 run start =
      Nat.ofDigits 10 (run.reverse.map fun char => char.toNat - '0'.toNat) +
        10 ^ run.length * start := by
  induction run generalizing start with
  | nil => simp [Nat.ofDigitChars]
  | cons char run induction =>
      rw [Nat.ofDigitChars_cons, induction, List.reverse_cons, List.map_append,
        Nat.ofDigits_append, List.length_map, List.length_reverse, List.length_cons, pow_succ]
      simp only [List.map_cons, List.map_nil, Nat.ofDigits_singleton]
      ring

theorem decimal_value_eq (digits : String) :
    decimalValue digits = Decimal.valueOf digits.toList := by
  rw [Decimal.valueOf, value_of_digits, Nat.mul_zero, Nat.add_zero]
  rfl

theorem numeral_of_number (number : Nat) : IsNumeral (String.ofList (Decimal.digits number)) ∧
    decimalValue (String.ofList (Decimal.digits number)) = number := by
  rcases digits_are_digits number with ⟨nonempty, digits⟩
  rw [decimal_value_eq, String.toList_ofList]
  refine ⟨⟨?_, ?_⟩, Nat.ofDigitChars_ten_toDigits⟩
  · intro empty
    apply nonempty
    rw [← String.toList_ofList (l := Decimal.digits number), empty]
    rfl
  · rw [String.toList_ofList]
    exact digits

theorem nonempty_digits (numeral : IsNumeral digits) : digits.toList ≠ [] := by
  intro empty
  exact numeral.nonempty (String.toList_eq_nil_iff.mp empty)

theorem read_of_numeral (numeral : IsNumeral digits) :
    Decimal.read? digits =
      if decimalValue digits ≤ 2 ^ 63 - 1 then some (Int64.ofInt (decimalValue digits))
      else none := by
  rw [Decimal.read?, read_of_digits (nonempty_digits numeral) numeral.digits, Decimal.fit?,
    ← decimal_value_eq]
  have lowest : Int64.minValue.toInt = -2 ^ 63 := rfl
  have highest : Int64.maxValue.toInt = 2 ^ 63 - 1 := rfl
  have fits : Int64.minValue.toInt ≤ decimalValue digits ∧
      (decimalValue digits : Int) ≤ Int64.maxValue.toInt ↔ decimalValue digits ≤ 2 ^ 63 - 1 := by
    rw [lowest, highest]
    omega
  simp only [fits]

end Digits

section Reading

variable {digits : String} {signs : Nat}

theorem signed_scanned (numeral : IsNumeral digits) (signs : Nat) :
    Scanned Breaks (List.replicate signs '-' ++ digits.toList) (SignedNumeral digits signs) := by
  induction signs with
  | zero =>
      have scanned := scanned_token (Fits.integer (nonempty_digits numeral) numeral.digits)
      apply scanned_imp (scanned_of_admitted scanned (bounds_of_breaks (by decide)))
      intro tokens heads
      rcases heads with ⟨token, _, rfl, isInteger, slice, rfl⟩
      rw [String.ofList_toList] at slice
      exact .numeral isInteger slice
  | succ signs induction =>
      apply scanned_imp (scanned_mark .minus (by decide) (by decide) induction)
      intro tokens heads
      rcases heads with ⟨token, _, rfl, isMinus, _, signed⟩
      exact .sign isMinus signed

theorem scan_signed (numeral : IsNumeral digits) (signs : Nat) : ∃ stop tokens,
    Token.scan (signedText signs digits) = tokens ++ [Token.endAt stop] ∧
      SignedNumeral digits signs tokens := by
  rcases signed_scanned numeral signs 0 [] nofun with ⟨stop, tokens, scans, signed⟩
  refine ⟨stop, tokens, ?_, signed⟩
  rw [List.append_nil] at scans
  rw [Token.scan, signedText, String.toList_append, String.toList_ofList, scan_of_scans scans,
    Token.scanFrom]

theorem read_of_fitting (numeral : IsNumeral digits) (signs : Nat)
    (fits : decimalValue digits ≤ 2 ^ 63 - 1) :
    readSource (signedText signs digits) =
      ([.expr ((Expr.int (.ofInt (decimalValue digits))).negated signs)], []) := by
  rcases scan_signed numeral signs with ⟨stop, tokens, scanned, signed⟩
  have readable := read_of_numeral numeral
  rw [if_pos fits] at readable
  have value : Spells (.expression .equality) tokens
      ((Expr.int (.ofInt (decimalValue digits))).negated signs) :=
    spells_looser (by decide) (spells_of_signed readable signed)
  rw [readSource, scanned]
  exact read_of_spells (spells_alone value) rfl

theorem read_of_too_great (numeral : IsNumeral digits) (signs : Nat)
    (tooGreat : 2 ^ 63 - 1 < decimalValue digits) :
    (readSource (signedText signs digits)).2.map Report.error = [.badInteger digits] := by
  rcases scan_signed numeral signs with ⟨stop, tokens, scanned, signed⟩
  have unreadable := read_of_numeral numeral
  rw [if_neg (Nat.not_le_of_lt tooGreat)] at unreadable
  have read := read_tokens_eq (tokens ++ [Token.endAt stop])
  rw [Reader.of_tokens_ended tokens (Token.endAt stop) rfl,
    read_of_unreadable unreadable signed] at read
  rw [readSource, scanned]
  exact congrArg Prod.snd read

end Reading

section Running

/-- Each sign multiplies by minus one. -/
theorem negated_run (number : Int) (signs depth : Nat) (start : Evaluator) :
    ((Expr.int (.ofInt number)).negated signs).evaluate depth start =
      some (.int (.ofInt ((-1) ^ signs * number)), start) := by
  induction signs with
  | zero =>
      rw [pow_zero, one_mul]
      rfl
  | succ signs induction =>
      have opposite : (-1) ^ (signs + 1) * number = -((-1) ^ signs * number) := by ring
      rw [Expr.evaluate] at induction
      rw [Expr.negated, Expr.evaluate, expression, andThen, run_bind, induction, opposite,
        Int64.ofInt_neg]
      rfl

theorem signed_in_range {magnitude : Nat} (fits : magnitude ≤ 2 ^ 63 - 1) (signs : Nat) :
    (Int64.ofInt ((-1) ^ signs * magnitude)).toInt = (-1) ^ signs * magnitude := by
  rcases neg_one_pow_eq_or Int signs with even | odd
  · rw [even, one_mul]
    exact Int64.toInt_ofInt_of_le (by omega) (by omega)
  · rw [odd, neg_one_mul]
    exact Int64.toInt_ofInt_of_le (by omega) (by omega)

end Running

theorem interpret_numeral {digits : String} (numeral : IsNumeral digits)
    (fits : decimalValue digits ≤ 2 ^ 63 - 1) (signs depth : Nat) (scope : Handle)
    (store : Store) :
    interpret depth scope (signedText signs digits) store =
      some (.ok (some (.int (.ofInt ((-1) ^ signs * decimalValue digits)))), store) := by
  let value : Value := .int (.ofInt ((-1) ^ signs * decimalValue digits))
  let expr := (Expr.int (.ofInt (decimalValue digits))).negated signs
  have ran : (Stmt.expr expr).evaluate depth ⟨store, scope⟩ =
      some (some value, ⟨store, scope⟩) := by
    have evaluated := negated_run (decimalValue digits) signs depth ⟨store, scope⟩
    rw [Expr.evaluate] at evaluated
    rw [Stmt.evaluate, statement, run_bind, evaluated]
    rfl
  have read : readSource (signedText signs digits) = ([.expr expr], []) :=
    read_of_fitting numeral signs fits
  rw [interpret_clean read, program_run, block_run, ran]
  rfl

/-- The text of an integer is the digits of its magnitude, behind a sign if it is negative. -/
theorem text_of_integer (value : Int64) : ∃ signs : Nat,
    (Value.int value).render =
      signedText signs (String.ofList (Decimal.digits value.toInt.natAbs)) ∧
      (-1) ^ signs * (value.toInt.natAbs : Int) = value.toInt := by
  by_cases negative : value.toInt < 0
  · refine ⟨1, ?_, by omega⟩
    rw [Value.render, Decimal.write, Decimal.writeChars, if_pos negative, signedText,
      ← String.ofList_append]
    rfl
  · refine ⟨0, ?_, by omega⟩
    rw [Value.render, Decimal.write, Decimal.writeChars, if_neg negative, signedText,
      ← String.ofList_append]
    rfl

/-- Digits behind signs come to the number that they stand for, or to one error if it is too great.
So the text of every integer but the lowest one comes to this integer. -/
theorem numerals_are_exact (depth : Nat) (scope : Handle) (store : Store) :
    (∀ (digits : String) (signs : Nat), IsNumeral digits →
      (decimalValue digits ≤ 2 ^ 63 - 1 → ∃ number : Int64,
        number.toInt = (-1) ^ signs * decimalValue digits ∧
          interpret depth scope (signedText signs digits) store =
            some (.ok (some (.int number)), store)) ∧
      (2 ^ 63 - 1 < decimalValue digits →
        interpret depth scope (signedText signs digits) store =
          some (.error [.badInteger digits], store))) ∧
    ∀ value : Int64, value ≠ Int64.minValue →
      interpret depth scope (Value.int value).render store =
        some (.ok (some (.int value)), store) := by
  constructor
  · intro digits signs numeral
    constructor
    · intro fits
      exact ⟨_, signed_in_range fits signs, interpret_numeral numeral fits signs depth scope store⟩
    · intro tooGreat
      have errors := read_of_too_great numeral signs tooGreat
      have broken : (readSource (signedText signs digits)).2 ≠ [] := by
        intro none
        rw [none] at errors
        cases errors
      rw [interpret_broken broken, errors]
  · intro value notLowest
    rcases text_of_integer value with ⟨signs, text, same⟩
    rcases numeral_of_number value.toInt.natAbs with ⟨numeral, isValue⟩
    have above : -2 ^ 63 < value.toInt := by
      apply lt_of_le_of_ne value.le_toInt
      intro lowest
      exact notLowest (Int64.toInt_inj.mp lowest.symm)
    have below : value.toInt < 2 ^ 63 := value.toInt_lt
    have fits : decimalValue (String.ofList (Decimal.digits value.toInt.natAbs)) ≤ 2 ^ 63 - 1 := by
      rw [isValue]
      omega
    rw [text, interpret_numeral numeral fits signs depth scope store, isValue, same,
      Int64.ofInt_toInt]

/-- Zeros in front do not count and two signs cancel. The digits of the lowest integer are too great
by one, so that its own text has an error in it. -/
theorem lowest_text_is_too_great :
    let highest := "009223372036854775807"
    let digits := "9223372036854775808"
    let store := Store.empty.addRoot.2
    IsNumeral highest ∧ decimalValue highest = 2 ^ 63 - 1 ∧
      interpret 0 0 (signedText 2 highest) store =
        some (.ok (some (.int Int64.maxValue)), store) ∧
      IsNumeral digits ∧ 2 ^ 63 - 1 < decimalValue digits ∧
      (Value.int Int64.minValue).render = signedText 1 digits ∧
      interpret 0 0 (signedText 1 digits) store =
        some (.error [.badInteger digits], store) ∧
      interpret 0 0 (Value.int (-7)).render store = some (.ok (some (.int (-7))), store) := by
  intro highest digits store
  have exact := numerals_are_exact 0 0 store
  have numeral : IsNumeral highest := ⟨by decide, List.all_eq_true.mp (by decide +kernel)⟩
  have value : decimalValue highest = 2 ^ 63 - 1 := by decide +kernel
  have numeralAbove : IsNumeral digits := ⟨by decide, List.all_eq_true.mp (by decide +kernel)⟩
  have tooGreat : 2 ^ 63 - 1 < decimalValue digits := by decide +kernel
  have text : (Value.int Int64.minValue).render = signedText 1 digits := by decide +kernel
  rcases (exact.1 highest 2 numeral).1 (Nat.le_of_eq value) with ⟨number, same, ran⟩
  have isHighest : number = Int64.maxValue := by
    rw [value] at same
    exact Int64.toInt_inj.mp same
  subst isHighest
  exact ⟨numeral, value, ran, numeralAbove, tooGreat, text,
    (exact.1 digits 1 numeralAbove).2 tooGreat, exact.2 (-7) (by decide)⟩

end Scriptlet
