import Mathlib.Data.List.Chain
import Scriptlet.Proofs.Token.Layout

/-!
Which tokens may touch. Tokens are written one behind the other, with blanks between them or with
nothing. A scan gives the tokens back exactly where none of them touches one whose first character
would have belonged to it, and that is decided by the kinds of the two. A token that has run on is
not made up for by anything behind it, since the scan has already found another token in its place.
-/

namespace Scriptlet

open Text Lexeme TokenKind

namespace TokenKind

def isWord (kind : TokenKind) : Bool := kind == identifier || keywords.contains kind

/-- Whether a token of the first kind runs on into one of the second that touches it: a word into a
word or a numeral, a numeral into a numeral, and `=` or `!` into `=` or `==`. -/
def clashes (left right : TokenKind) : Bool :=
  (left.isWord && (right.isWord || right == integer)) || (left == integer && right == integer) ||
    ((left == equal || left == bang) && (right == equal || right == equalEqual))

structure Opens (kind : TokenKind) (char : Char) : Prop where
  digit : char.isDigit = (kind == integer)
  word : continuesWord char = (kind.isWord || kind == integer)
  sign : (char == '=') = (kind == equal || kind == equalEqual)

section Opens

variable {left kind : TokenKind} {char : Char} {more : List Char}

theorem grows_of_opens (opens : kind.Opens char) : left.grows char = left.clashes kind := by
  cases left <;>
    simp [grows, clashes, isWord, keywords, opens.digit, opens.word, opens.sign, beq_eq_decide]

theorem digit_opens (digit : char.isDigit = true) : integer.Opens char where
  digit := digit
  word := continues_word_iff.mpr (Or.inr digit)
  sign := by
    have notSign : (char == '=') = false := by
      rw [beq_eq_false_iff_ne]
      rintro rfl
      cases digit
    exact notSign

theorem word_opens (isWord : kind.isWord = true) (starts : startsWord char = true) :
    kind.Opens char := by
  have noDigit : char.isDigit = false := by
    rw [Bool.eq_false_iff]
    intro digit
    rw [starts_word_of_digit digit] at starts
    cases starts
  have noSign : (char == '=') = false := by
    rw [beq_eq_false_iff_ne]
    rintro rfl
    cases starts
  have continues : continuesWord char = true := continues_word_iff.mpr (Or.inl starts)
  revert isWord
  cases kind <;> intro isWord <;> first
    | exact ⟨noDigit, continues, noSign⟩
    | cases isWord

theorem operator_opens (isOperator : kind ∈ operators)
    (first : kind.text.toList.head? = some char) : kind.Opens char := by
  obtain ⟨noDigit, noWord⟩ := operator_starts isOperator first
  have noMore : continuesWord char = false := by
    rw [Bool.eq_false_iff, ne_eq, continues_word_iff, noDigit, noWord]
    simp
  have others : ∀ kind ∈ operators, (kind == integer) = false ∧ kind.isWord = false ∧
      kind.text.toList.head?.all
        (fun char => (char == '=') == (kind == equal || kind == equalEqual)) = true := by
    decide
  obtain ⟨notInteger, notWord, sign⟩ := others kind isOperator
  rw [first, Option.all_some, beq_iff_eq] at sign
  exact ⟨by rw [noDigit, notInteger], by rw [noMore, notWord, notInteger]; rfl, sign⟩

theorem illegal_opens (nothing : StartsNothing char) : illegal.Opens char where
  digit := nothing.noDigit
  word := by
    have noMore : ¬continuesWord char = true := by
      rw [continues_word_iff, nothing.noDigit, nothing.noWord]
      simp
    exact eq_false_of_ne_true noMore
  sign := by
    have notSign : (char == '=') = false := by
      rw [beq_eq_false_iff_ne]
      rintro rfl
      exact nothing.noOperator equal (by decide) rfl
    exact notSign

/-- The kind of a token says to which tokens in front its first character would belong. -/
theorem first_opens (fits : kind.Fits (char :: more)) : kind.Opens char := by
  generalize whole : char :: more = text at fits
  cases fits with
  | integer _ digits =>
      subst whole
      exact digit_opens (digits char List.mem_cons_self)
  | identifier word _ =>
      obtain ⟨first, rest, rfl, starts, _⟩ := word
      cases whole
      exact word_opens (by decide) starts
  | keyword isKeyword =>
      obtain ⟨first, rest, same, starts, _⟩ := keyword_text_is_word isKeyword
      rw [same] at whole
      cases whole
      refine word_opens ?_ starts
      simp [isWord, isKeyword]
  | operator isOperator => exact operator_opens isOperator (by rw [← whole]; rfl)
  | illegal nothing =>
      cases whole
      exact illegal_opens nothing

end Opens

end TokenKind

/-- A token to be written, by its kind and its slice, and what is written behind it. -/
structure SpacedToken where
  kind : TokenKind
  slice : String
  gap : List Char

namespace SpacedToken

structure Sound (piece : SpacedToken) : Prop where
  fits : piece.kind.Fits piece.slice.toList
  blanks : Blanks piece.gap

def text (piece : SpacedToken) : List Char := piece.slice.toList ++ piece.gap

/-- No two pieces touch that clash. -/
def Apart (pieces : List SpacedToken) : Prop :=
  pieces.IsChain fun piece next => piece.gap = [] → piece.kind.clashes next.kind = false

end SpacedToken

open SpacedToken Token

section SpacedTokens

variable {offset : Nat} {kind : TokenKind} {slice : String} {text : List Char}
  {piece next : SpacedToken} {pieces : List SpacedToken}

/-- What a scan finds at the front is the token written there exactly where nothing behind the
token belongs to it. -/
theorem front_found_iff (fits : kind.Fits slice.toList) :
    (scanFrom offset (slice.toList ++ text)).head?.map (fun token => (token.kind, token.slice)) =
      some (kind, slice) ↔ ∀ char ∈ text.head?, kind.grows char = false := by
  constructor
  · intro found
    obtain ⟨first, more, same, visible⟩ := Lexeme.opens_of_fits fits
    rw [same, List.cons_append, scanFrom, if_neg (by simp [visible])] at found
    simp only [List.head?_cons, Option.map_some, Option.some.injEq, Prod.mk.injEq] at found
    obtain ⟨sameKind, sameSlice⟩ := found
    -- The lexeme has the text of the token, so what it leaves is what is written behind the token.
    have whole := Lexeme.cut_text_append_rest first (more ++ text)
    have sameText : (Lexeme.cut first (more ++ text)).text = first :: more := by
      rw [← same, ← sameSlice, String.toList_ofList]
    rw [sameText, ← List.cons_append] at whole
    have maximal := Lexeme.cut_maximal first (more ++ text)
    rwa [List.append_cancel_left whole, sameKind] at maximal
  · intro maximal
    rw [scan_from_token fits maximal, List.head?_cons, Option.map_some, String.ofList_toList]

/-- Nothing behind a piece belongs to its token, unless the next piece touches it and clashes. -/
theorem nothing_grows_iff (sound : piece.Sound) (soundNext : next.Sound) (behind : List Char) :
    (∀ char ∈ (piece.gap ++ (next.text ++ behind)).head?, piece.kind.grows char = false) ↔
      (piece.gap = [] → piece.kind.clashes next.kind = false) := by
  obtain ⟨first, more, same, _⟩ := Lexeme.opens_of_fits soundNext.fits
  have opens : next.kind.Opens first := first_opens (same ▸ soundNext.fits)
  cases gap : piece.gap with
  | nil =>
      simp only [SpacedToken.text, same, List.nil_append, List.cons_append, List.head?_cons,
        Option.mem_some_iff, forall_eq', true_imp_iff]
      rw [grows_of_opens opens]
  | cons blank gap' =>
      have isBlank := sound.blanks blank (by rw [gap]; exact List.mem_cons_self)
      simp [blank_grows_nothing piece.kind isBlank]

theorem scan_pieces_iff (sound : ∀ piece ∈ pieces, piece.Sound) (offset : Nat) :
    (scanFrom offset (pieces.flatMap SpacedToken.text)).map
          (fun token => (token.kind, token.slice)) =
        pieces.map (fun piece => (piece.kind, piece.slice)) ++ [(.endMark, "")] ↔
      Apart pieces := by
  induction pieces generalizing offset with
  | nil => simp [Apart, scanFrom, endAt]
  | cons piece pieces induction =>
      obtain ⟨soundFirst, soundRest⟩ := List.forall_mem_cons.mp sound
      -- Where the first token is found, what is scanned behind it are the other pieces.
      have goesOn (maximal : ∀ char ∈ (piece.gap ++ pieces.flatMap SpacedToken.text).head?,
          piece.kind.grows char = false) := by
        have scanned := @scan_from_token offset _ _ _ soundFirst.fits maximal
        rw [scan_past_blanks soundFirst.blanks, String.ofList_toList] at scanned
        exact scanned
      have apart : Apart (piece :: pieces) ↔
          (∀ char ∈ (piece.gap ++ pieces.flatMap SpacedToken.text).head?,
            piece.kind.grows char = false) ∧ Apart pieces := by
        cases pieces with
        | nil =>
            have blanks : ∀ char ∈ piece.gap.head?, piece.kind.grows char = false :=
              fun char first =>
                blank_grows_nothing _ (soundFirst.blanks char (List.mem_of_head? first))
            simpa [Apart] using blanks
        | cons next pieces =>
            rw [List.flatMap_cons,
              nothing_grows_iff soundFirst (soundRest next List.mem_cons_self)]
            exact List.isChain_cons_cons
      rw [apart, List.flatMap_cons, SpacedToken.text, List.append_assoc]
      constructor
      · intro found
        have front := congrArg List.head? found
        rw [List.head?_map] at front
        have maximal := (front_found_iff soundFirst.fits).mp front
        rw [goesOn maximal] at found
        exact ⟨maximal, (induction soundRest _).mp (List.cons.inj found).2⟩
      · rintro ⟨maximal, apartRest⟩
        rw [goesOn maximal, List.map_cons, (induction soundRest _).mpr apartRest]
        rfl

end SpacedTokens

/-- Tokens that are written with blanks around them or with nothing are scanned as they were
written, kind by kind and slice by slice, exactly where no two of them touch that clash. -/
theorem scan_gives_back_iff {lead : List Char} {pieces : List SpacedToken} (blanks : Blanks lead)
    (sound : ∀ piece ∈ pieces, piece.Sound) :
    (Token.scan (String.ofList (lead ++ pieces.flatMap SpacedToken.text))).map
        (fun token => (token.kind, token.slice)) =
      pieces.map (fun piece => (piece.kind, piece.slice)) ++ [(.endMark, "")] ↔
    Apart pieces := by
  rw [Token.scan, String.toList_ofList, scan_past_blanks blanks]
  exact scan_pieces_iff sound _

/-- Three equal signs behind a blank are scanned as the doubled one and then the single one, and not
the other way round. -/
theorem equal_signs_are_doubled_first :
    let doubled : SpacedToken := ⟨.equalEqual, "==", []⟩
    let single : SpacedToken := ⟨.equal, "=", []⟩
    (Blanks ['\u2003'] ∧ ∀ piece ∈ [doubled, single], piece.Sound) ∧
      (Token.scan "\u2003===").map (fun token => (token.kind, token.slice)) =
        [(.equalEqual, "=="), (.equal, "="), (.endMark, "")] ∧
      (Token.scan "\u2003===").map (fun token => (token.kind, token.slice)) ≠
        [(.equal, "="), (.equalEqual, "=="), (.endMark, "")] := by
  intro doubled single
  have blanks : Blanks ['\u2003'] := List.all_eq_true.mp rfl
  have soundDoubled : doubled.Sound := ⟨@Fits.operator .equalEqual (by decide), nofun⟩
  have soundSingle : single.Sound := ⟨@Fits.operator .equal (by decide), nofun⟩
  have sound : ∀ piece ∈ [doubled, single], piece.Sound := by
    simp [soundDoubled, soundSingle]
  have swapped : ∀ piece ∈ [single, doubled], piece.Sound := by
    simp [soundDoubled, soundSingle]
  have given := scan_gives_back_iff blanks sound
  have givenSwapped := scan_gives_back_iff blanks swapped
  have text :
      String.ofList (['\u2003'] ++ [doubled, single].flatMap SpacedToken.text) = "\u2003===" := by
    decide
  have textSwapped :
      String.ofList (['\u2003'] ++ [single, doubled].flatMap SpacedToken.text) = "\u2003===" := by
    decide
  rw [text] at given
  rw [textSwapped] at givenSwapped
  refine ⟨⟨blanks, sound⟩, given.mpr ?_, fun found => ?_⟩
  · exact List.isChain_cons_cons.mpr ⟨fun _ => rfl, List.isChain_singleton _⟩
  · have clash := (List.isChain_cons_cons.mp (givenSwapped.mp found)).1 rfl
    cases clash

end Scriptlet
