import Mathlib.Data.List.TakeWhile
import Scriptlet.Token.Scan

/-!
What the text of each kind of token is, said kind by kind and without a place in a source, and which
characters behind a token would have belonged to it. A lexeme is cut from the front of a text
exactly where its text fits its kind and nothing behind it belongs to it.
-/

namespace Scriptlet

open Text Lexeme

/-- Letters, digits and underscores, the first of them no digit. -/
def IsWord (text : List Char) : Prop :=
  ∃ first rest, text = first :: rest ∧ startsWord first = true ∧
    ∀ char ∈ rest, continuesWord char = true

namespace TokenKind

def operators : List TokenKind :=
  [leftParen, rightParen, leftBrace, rightBrace, comma, semicolon, equal, equalEqual, bang,
    bangEqual, greater, less, plus, minus, star, slash]

structure StartsNothing (char : Char) : Prop where
  visible : isBlank char = false
  noDigit : char.isDigit = false
  noWord : startsWord char = false
  noOperator : ∀ kind ∈ operators, kind.text.toList.head? ≠ some char

inductive Fits : TokenKind → List Char → Prop where
  | integer {text : List Char} : text ≠ [] → (∀ char ∈ text, char.isDigit = true) →
      Fits integer text
  | keyword {kind : TokenKind} : kind ∈ keywords → Fits kind kind.text.toList
  | identifier {text : List Char} : IsWord text → (∀ kind ∈ keywords, text ≠ kind.text.toList) →
      Fits identifier text
  | operator {kind : TokenKind} : kind ∈ operators → Fits kind kind.text.toList
  | illegal {char : Char} : StartsNothing char → Fits illegal [char]

/-- Whether a character right behind a token of this kind would have belonged to the token. -/
def grows (kind : TokenKind) (char : Char) : Bool :=
  match kind with
  | integer => char.isDigit
  | equal | bang => char == '='
  | kind => (kind == identifier || keywords.contains kind) && continuesWord char

end TokenKind

open TokenKind

section Characters

variable {char : Char}

theorem digit_iff_code : char.isDigit = true ↔ 48 ≤ char.toNat ∧ char.toNat ≤ 57 := by
  simp only [Char.isDigit, Bool.and_eq_true, decide_eq_true_eq, ge_iff_le, UInt32.le_iff_toNat_le]
  rfl

theorem starts_word_iff_code : startsWord char = true ↔
    (65 ≤ char.toNat ∧ char.toNat ≤ 90) ∨ (97 ≤ char.toNat ∧ char.toNat ≤ 122) ∨
      char.toNat = 95 := by
  have underscore : char = '_' ↔ char.toNat = 95 := Char.toNat_inj.symm
  unfold startsWord Char.isAlpha Char.isUpper Char.isLower
  simp only [Bool.or_eq_true, Bool.and_eq_true, decide_eq_true_eq, beq_iff_eq, ge_iff_le,
    UInt32.le_iff_toNat_le, underscore, or_assoc]
  rfl

theorem continues_word_iff :
    continuesWord char = true ↔ startsWord char = true ∨ char.isDigit = true := by
  simp only [continuesWord, startsWord, Char.isAlphanum, Bool.or_eq_true]
  exact or_right_comm

theorem starts_word_of_digit (digit : char.isDigit = true) : startsWord char = false := by
  rw [Bool.eq_false_iff, ne_eq, starts_word_iff_code]
  rw [digit_iff_code] at digit
  omega

/-- No character that is printed in ASCII is blank. -/
theorem not_blank_of_code (printed : 32 < char.toNat) (ascii : char.toNat < 128) :
    isBlank char = false := by
  rw [isBlank, List.any_eq_false]
  intro range member
  have outside : range.2 ≤ 32 ∨ 128 ≤ range.1 := by
    revert range
    decide
  simp only [Bool.and_eq_true, decide_eq_true_eq]
  omega

theorem not_blank_of_word (word : continuesWord char = true) : isBlank char = false := by
  rw [continues_word_iff, starts_word_iff_code, digit_iff_code] at word
  apply not_blank_of_code <;> omega

end Characters

section Operators

variable {kind : TokenKind} {char : Char}

theorem operator_text_printed (isOperator : kind ∈ operators) :
    ∀ char ∈ kind.text.toList, isBlank char = false := by
  have checked : ∀ kind ∈ operators,
      kind.text.toList.all (fun char => !isBlank char) = true := by decide
  simpa using checked kind isOperator

theorem operator_starts (isOperator : kind ∈ operators)
    (first : kind.text.toList.head? = some char) :
    char.isDigit = false ∧ startsWord char = false := by
  have checked : ∀ kind ∈ operators, kind.text.toList.head?.all
      (fun char => !char.isDigit && !startsWord char) = true := by decide
  simpa [first] using checked kind isOperator

theorem operator_of_char (found : operatorKind? char = some kind) :
    kind ∈ operators ∧ kind.text.toList = [char] := by
  unfold operatorKind? at found
  split at found <;> first | (cases found; decide) | cases found

theorem no_operator_of_char (missing : operatorKind? char = none) :
    ∀ kind ∈ operators, kind.text.toList.head? ≠ some char := by
  have checked : ∀ kind ∈ operators, kind.text.toList.head?.all
      (fun char => (operatorKind? char).isSome) = true := by decide
  intro kind isOperator first
  have known := checked kind isOperator
  rw [first, Option.all_some, missing] at known
  cases known

/-- An operator is doubled, or it is the character that it stands for. -/
theorem operator_cases (isOperator : kind ∈ operators) :
    kind = equalEqual ∨ kind = bangEqual ∨
      ∃ char, kind.text.toList = [char] ∧ operatorKind? char = some kind := by
  have checked : ∀ kind ∈ operators, kind = equalEqual ∨ kind = bangEqual ∨
      kind.text.toList.head?.any (fun char => decide (kind.text.toList = [char]) &&
        operatorKind? char == some kind) = true := by decide
  rcases checked kind isOperator with doubled | doubled | single
  · exact Or.inl doubled
  · exact Or.inr (Or.inl doubled)
  · obtain ⟨char, _, same⟩ := (Option.any_eq_true _ _).mp single
    rw [Bool.and_eq_true, decide_eq_true_eq, beq_iff_eq] at same
    exact Or.inr (Or.inr ⟨char, same⟩)

theorem operator_grows (isOperator : kind ∈ operators) (grows : kind.grows char = true) :
    (kind = equal ∨ kind = bang) ∧ char = '=' := by
  revert isOperator grows
  cases kind <;> intro isOperator grows <;> first
    | exact ⟨by decide, beq_iff_eq.mp grows⟩
    | cases grows
    | exact absurd isOperator (by decide)

end Operators

section Words

variable {kind : TokenKind} {text : List Char}

theorem keyword_text_is_word (isKeyword : kind ∈ keywords) : IsWord kind.text.toList := by
  have checked : ∀ kind ∈ keywords, kind.text.toList.head?.any startsWord = true ∧
      kind.text.toList.tail.all continuesWord = true := by decide
  obtain ⟨starts, continues⟩ := checked kind isKeyword
  cases same : kind.text.toList with
  | nil =>
      rw [same] at starts
      cases starts
  | cons first rest =>
      rw [same] at starts continues
      exact ⟨first, rest, rfl, starts, List.all_eq_true.mp continues⟩

theorem word_kind_of_keyword (isKeyword : kind ∈ keywords) : wordKind kind.text.toList = kind := by
  have found : ∀ kind ∈ keywords, ofKeyword? kind.text = some kind := by decide
  rw [wordKind, String.ofList_toList, found kind isKeyword, Option.getD_some]

theorem word_kind_of_name (other : ∀ kind ∈ keywords, text ≠ kind.text.toList) :
    wordKind text = identifier := by
  have missing : ofKeyword? (String.ofList text) = none := by
    rw [ofKeyword?, List.find?_eq_none]
    intro kind isKeyword same
    rw [beq_iff_eq] at same
    exact other kind isKeyword (by rw [same, String.toList_ofList])
  rw [wordKind, missing, Option.getD_none]

/-- A word is a keyword or a name. -/
theorem word_kind_fits (word : IsWord text) : (wordKind text).Fits text := by
  by_cases isKeyword : ∃ kind ∈ keywords, text = kind.text.toList
  · obtain ⟨kind, member, rfl⟩ := isKeyword
    rw [word_kind_of_keyword member]
    exact .keyword member
  · have other : ∀ kind ∈ keywords, text ≠ kind.text.toList :=
      fun kind member same => isKeyword ⟨kind, member, same⟩
    rw [word_kind_of_name other]
    exact .identifier word other

theorem word_kind_grows (text : List Char) (char : Char) :
    (wordKind text).grows char = continuesWord char := by
  have isWordKind : wordKind text ∈ identifier :: keywords := by
    rw [wordKind]
    cases found : ofKeyword? (String.ofList text) with
    | none => exact List.mem_cons_self
    | some kind => exact List.mem_cons_of_mem _ (List.mem_of_find?_eq_some found)
  revert isWordKind
  cases wordKind text <;> intro isWordKind <;> first | rfl | exact absurd isWordKind (by decide)

end Words

theorem word_visible {text : List Char} (word : IsWord text) :
    ∀ char ∈ text, isBlank char = false := by
  obtain ⟨first, rest, rfl, starts, continues⟩ := word
  intro char member
  apply not_blank_of_word
  rcases List.mem_cons.mp member with rfl | later
  · exact continues_word_iff.mpr (Or.inl starts)
  · exact continues char later

section Fits

variable {kind : TokenKind} {text : List Char} (fits : kind.Fits text)

include fits

theorem fits_inside : kind ≠ .endMark := by
  cases fits with
  | integer | identifier | illegal => decide
  | keyword isKeyword =>
      rintro rfl
      exact absurd isKeyword (by decide)
  | operator isOperator =>
      rintro rfl
      exact absurd isOperator (by decide)

theorem fits_visible : ∀ char ∈ text, isBlank char = false := by
  cases fits with
  | integer _ digits =>
      exact fun char member =>
        not_blank_of_word (continues_word_iff.mpr (Or.inr (digits char member)))
  | keyword isKeyword => exact word_visible (keyword_text_is_word isKeyword)
  | identifier word _ => exact word_visible word
  | operator isOperator => exact operator_text_printed isOperator
  | illegal nothing =>
      intro char member
      rw [List.mem_singleton.mp member]
      exact nothing.visible

end Fits

theorem blank_grows_nothing (kind : TokenKind) {char : Char} (blank : isBlank char = true) :
    kind.grows char = false := by
  have noWord : continuesWord char = false := by
    rw [Bool.eq_false_iff]
    intro word
    rw [not_blank_of_word word] at blank
    cases blank
  have noDigit : char.isDigit = false := by
    rw [Bool.eq_false_iff]
    intro digit
    rw [continues_word_iff.mpr (Or.inr digit)] at noWord
    cases noWord
  have noSign : (char == '=') = false := by
    rw [beq_eq_false_iff_ne]
    rintro rfl
    exact absurd blank (by decide)
  cases kind <;> first | exact noDigit | exact noSign | exact noWord | rfl

/-- The characters of a class, and what stands behind them from the first other character on. -/
theorem run_of_class {belongs : Char → Bool} {run rest : List Char}
    (inside : ∀ char ∈ run, belongs char = true)
    (outside : ∀ char ∈ rest.head?, belongs char = false) :
    (run ++ rest).takeWhile belongs = run ∧ (run ++ rest).dropWhile belongs = rest := by
  rw [List.takeWhile_append_of_pos inside, List.dropWhile_append_of_pos inside]
  cases rest with
  | nil => simp
  | cons first rest => simp [outside first rfl]

theorem not_in_class_behind (belongs : Char → Bool) (text : List Char) :
    ∀ char ∈ (text.dropWhile belongs).head?, belongs char = false := by
  intro char first
  have behind := List.head?_dropWhile_not belongs text
  rwa [first] at behind

namespace Lexeme

variable {first : Char} {rest text : List Char} {kind : TokenKind}

theorem cut_digits (digit : first.isDigit = true) :
    cut first rest =
      ⟨.integer, first :: rest.takeWhile Char.isDigit, rest.dropWhile Char.isDigit⟩ := by
  unfold cut
  rw [if_pos digit]

theorem cut_word (word : startsWord first = true) :
    cut first rest = ⟨wordKind (first :: rest.takeWhile continuesWord),
      first :: rest.takeWhile continuesWord, rest.dropWhile continuesWord⟩ := by
  have noDigit : ¬first.isDigit = true := by
    intro digit
    rw [starts_word_of_digit digit] at word
    cases word
  unfold cut
  rw [if_neg noDigit, if_pos word]

theorem cut_single (noDigit : first.isDigit = false) (noWord : startsWord first = false)
    (single : first = '=' ∨ first = '!' → rest.head? ≠ some '=') :
    cut first rest = ⟨(operatorKind? first).getD .illegal, [first], rest⟩ := by
  unfold cut
  rw [if_neg (by simp [noDigit]), if_neg (by simp [noWord])]
  split
  · exact absurd rfl (single (Or.inl rfl))
  · exact absurd rfl (single (Or.inr rfl))
  · rfl

/-- The ways in which a lexeme is cut. -/
theorem cut_cases (first : Char) (rest : List Char) :
    first.isDigit = true ∨ startsWord first = true ∨
      (∃ more, (first = '=' ∨ first = '!') ∧ rest = '=' :: more) ∨
        first.isDigit = false ∧ startsWord first = false ∧
          (first = '=' ∨ first = '!' → rest.head? ≠ some '=') := by
  by_cases digit : first.isDigit = true
  · exact Or.inl digit
  · by_cases word : startsWord first = true
    · exact Or.inr (Or.inl word)
    · by_cases doubled : (first = '=' ∨ first = '!') ∧ rest.head? = some '='
      · obtain ⟨more, same⟩ := List.head?_eq_some_iff.mp doubled.2
        exact Or.inr (Or.inr (Or.inl ⟨more, doubled.1, same⟩))
      · refine Or.inr (Or.inr (Or.inr ⟨?_, ?_, fun sign behind => doubled ⟨sign, behind⟩⟩))
        · simpa using digit
        · simpa using word

theorem cut_fits (visible : isBlank first = false) :
    (cut first rest).kind.Fits (cut first rest).text := by
  rcases cut_cases first rest with digit | word | ⟨more, rfl | rfl, rfl⟩ |
    ⟨noDigit, noWord, single⟩
  · rw [cut_digits digit]
    refine .integer (List.cons_ne_nil _ _) fun char member => ?_
    rcases List.mem_cons.mp member with rfl | later
    · exact digit
    · exact List.mem_takeWhile_imp later
  · rw [cut_word word]
    exact word_kind_fits ⟨first, _, rfl, word, fun _ member => List.mem_takeWhile_imp member⟩
  · exact @Fits.operator .equalEqual (by decide)
  · exact @Fits.operator .bangEqual (by decide)
  · rw [cut_single noDigit noWord single]
    cases found : operatorKind? first with
    | none => exact .illegal ⟨visible, noDigit, noWord, no_operator_of_char found⟩
    | some kind =>
        obtain ⟨isOperator, text⟩ := operator_of_char found
        rw [Option.getD_some, ← text]
        exact .operator isOperator

/-- A lexeme is the longest of its kind. -/
theorem cut_maximal (first : Char) (rest : List Char) :
    ∀ char ∈ (cut first rest).rest.head?, (cut first rest).kind.grows char = false := by
  rcases cut_cases first rest with digit | word | ⟨more, rfl | rfl, rfl⟩ |
    ⟨noDigit, noWord, single⟩
  · rw [cut_digits digit]
    exact not_in_class_behind Char.isDigit rest
  · rw [cut_word word]
    intro char behind
    rw [word_kind_grows]
    exact not_in_class_behind continuesWord rest char behind
  · exact fun _ _ => rfl
  · exact fun _ _ => rfl
  · rw [cut_single noDigit noWord single]
    intro char behind
    cases found : operatorKind? first with
    | none => rfl
    | some kind =>
        obtain ⟨isOperator, text⟩ := operator_of_char found
        rw [Option.getD_some, Bool.eq_false_iff]
        intro grows
        obtain ⟨sign, rfl⟩ := operator_grows isOperator grows
        refine single ?_ behind
        rcases sign with rfl | rfl
        · exact Or.inl (List.singleton_inj.mp text.symm)
        · exact Or.inr (List.singleton_inj.mp text.symm)

theorem cut_of_word (word : IsWord text)
    (maximal : ∀ char ∈ rest.head?, (wordKind text).grows char = false) :
    ∃ first more, text = first :: more ∧ isBlank first = false ∧
      cut first (more ++ rest) = ⟨wordKind text, text, rest⟩ := by
  simp only [word_kind_grows] at maximal
  obtain ⟨first, more, rfl, starts, continues⟩ := word
  obtain ⟨taken, dropped⟩ := run_of_class continues maximal
  refine ⟨first, more, rfl, not_blank_of_word (continues_word_iff.mpr (Or.inl starts)), ?_⟩
  rw [cut_word starts, taken, dropped]

theorem cut_of_operator (isOperator : kind ∈ operators)
    (maximal : ∀ char ∈ rest.head?, kind.grows char = false) :
    ∃ first more, kind.text.toList = first :: more ∧ isBlank first = false ∧
      cut first (more ++ rest) = ⟨kind, kind.text.toList, rest⟩ := by
  have visible := operator_text_printed isOperator
  rcases operator_cases isOperator with rfl | rfl | ⟨char, text, found⟩
  · exact ⟨'=', ['='], rfl, by decide, rfl⟩
  · exact ⟨'!', ['='], rfl, by decide, rfl⟩
  · obtain ⟨noDigit, noWord⟩ := operator_starts isOperator (by rw [text]; rfl)
    rw [text] at visible ⊢
    refine ⟨char, [], rfl, visible char List.mem_cons_self, ?_⟩
    rw [List.nil_append, cut_single noDigit noWord, found, Option.getD_some]
    intro sign behind
    have short := maximal '=' behind
    rcases sign with rfl | rfl <;> cases found <;> cases short

/-- A text that fits a kind is cut where nothing behind it belongs to it. -/
theorem cut_of_fits (fits : kind.Fits text)
    (maximal : ∀ char ∈ rest.head?, kind.grows char = false) :
    ∃ first more, text = first :: more ∧ isBlank first = false ∧
      cut first (more ++ rest) = ⟨kind, text, rest⟩ := by
  cases fits with
  | integer nonempty digits =>
      obtain ⟨first, more, rfl⟩ := List.exists_cons_of_ne_nil nonempty
      have digit := digits first List.mem_cons_self
      obtain ⟨taken, dropped⟩ :=
        run_of_class (fun char member => digits char (List.mem_cons_of_mem _ member)) maximal
      refine ⟨first, more, rfl, not_blank_of_word (continues_word_iff.mpr (Or.inr digit)), ?_⟩
      rw [cut_digits digit, taken, dropped]
  | keyword isKeyword =>
      have kind := word_kind_of_keyword isKeyword
      have cutWord := @cut_of_word rest _ (keyword_text_is_word isKeyword)
      rw [kind] at cutWord
      exact cutWord maximal
  | identifier word other =>
      have cutWord := @cut_of_word rest _ word
      rw [word_kind_of_name other] at cutWord
      exact cutWord maximal
  | operator isOperator => exact cut_of_operator isOperator maximal
  | @illegal char nothing =>
      have missing : operatorKind? char = none := by
        cases found : operatorKind? char with
        | none => rfl
        | some kind =>
            obtain ⟨isOperator, text⟩ := operator_of_char found
            exact absurd (by rw [text]; rfl) (nothing.noOperator kind isOperator)
      refine ⟨char, [], rfl, nothing.visible, ?_⟩
      rw [List.nil_append, cut_single nothing.noDigit nothing.noWord, missing, Option.getD_none]
      rintro (rfl | rfl) <;> cases missing

/-- The text of a token starts with a character that is not blank. -/
theorem opens_of_fits (fits : kind.Fits text) :
    ∃ first more, text = first :: more ∧ isBlank first = false := by
  rcases @cut_of_fits [] _ _ fits nofun with ⟨first, more, same, visible, _⟩
  exact ⟨first, more, same, visible⟩

end Lexeme

end Scriptlet
