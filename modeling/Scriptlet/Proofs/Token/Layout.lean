import Scriptlet.Proofs.Rule.Places
import Scriptlet.Proofs.Token.Tokenization

/-!
What blanks around tokens do to a scan. Scanning finds the same tokens, up to their places, wherever
a text starts and however the tokens in it are spaced, as long as tokens that were kept apart by
blanks still are. Tokens that touch may be moved apart.
-/

namespace Scriptlet

open Text Token

def Blanks (text : List Char) : Prop := ∀ char ∈ text, isBlank char = true

/-- Two texts of these tokens, each token with blanks behind it. Blanks between two tokens may be
exchanged but not removed; blanks behind the last one may be both. -/
inductive Respaced : List Token → List Char → List Char → Prop where
  | nothing : Respaced [] [] []
  | last {token : Token} {gap other : List Char} : Blanks gap → Blanks other →
      Respaced [token] (token.slice.toList ++ gap) (token.slice.toList ++ other)
  | more {token next : Token} {tokens : List Token} {gap other text more : List Char} :
      Blanks gap → Blanks other → (gap ≠ [] → other ≠ []) → Respaced (next :: tokens) text more →
      Respaced (token :: next :: tokens) (token.slice.toList ++ (gap ++ text))
        (token.slice.toList ++ (other ++ more))

/-- The tokens of the one source stand in the other as well, and differ in the blanks around them
only. -/
def SameButLayout (source other : String) : Prop :=
  ∃ lead first text more, Blanks lead ∧ Blanks first ∧ source.toList = lead ++ text ∧
    other.toList = first ++ more ∧ Respaced (Token.scan source).dropLast text more

section Scans

variable {stop offset : Nat} {rest text gap : List Char} {token : Token} {tokens : List Token}

theorem scan_past_blanks (blanks : Blanks gap) (offset : Nat) (text : List Char) :
    scanFrom offset (gap ++ text) = scanFrom (offset + byteSize gap) text := by
  induction gap generalizing offset with
  | nil => rfl
  | cons char gap induction =>
      obtain ⟨blank, blanks⟩ := List.forall_mem_cons.mp blanks
      rw [List.cons_append, scan_from_blank blank, induction blanks, byte_size_cons, Nat.add_assoc]

/-- What a scan finds does not depend on where the text starts, but for the places. -/
theorem scan_anywhere (offset other : Nat) (text : List Char) :
    (scanFrom offset text).map Token.bare = (scanFrom other text).map Token.bare := by
  induction offset, text using scanFrom.induct generalizing other with
  | case1 offset => rw [scanFrom, scanFrom]; rfl
  | case2 offset first rest blank induction =>
      rw [scan_from_blank blank, scan_from_blank blank, induction]
  | case3 offset first rest visible lexeme stop induction =>
      rw [scanFrom, scanFrom, if_neg visible, if_neg visible, List.map_cons, List.map_cons]
      exact congrArg _ (induction _)

/-- A blank behind a text ends whatever token stands there. -/
theorem scans_before_blank {char : Char} (blank : isBlank char = true) (more : List Char)
    (scans : Scans stop [] offset text tokens) :
    Scans stop (char :: more) offset (text ++ char :: more) tokens := by
  induction scans with
  | done => exact .done
  | blank first _ induction => exact .blank first induction
  | @token offset kind part text tokens fits maximal _ induction =>
      rw [List.append_assoc]
      refine .token fits (fun next behind => ?_) induction
      cases text with
      | nil =>
          cases behind
          exact blank_grows_nothing kind blank
      | cons first text => exact maximal next behind

theorem scans_uncons (fits : token.kind.Fits token.slice.toList)
    (scans : Scans stop [] offset (token.slice.toList ++ text) (token :: tokens)) :
    (∀ char ∈ text.head?, token.kind.grows char = false) ∧
      Scans stop [] (offset + byteSize token.slice.toList) text tokens := by
  generalize whole : token.slice.toList ++ text = front at scans
  generalize listed : token :: tokens = found at scans
  cases scans with
  | done => cases listed
  | @blank _ char _ _ blank _ =>
      obtain ⟨first, more, slice, visible⟩ := Lexeme.opens_of_fits fits
      rw [slice] at whole
      cases whole
      rw [visible] at blank
      cases blank
  | token _ maximal behind =>
      cases listed
      rw [String.toList_ofList] at whole ⊢
      cases List.append_cancel_left whole
      exact ⟨maximal, behind⟩

theorem scans_uncons_blanks (blanks : Blanks gap)
    (scans : Scans stop [] offset (gap ++ text) tokens) :
    Scans stop [] (offset + byteSize gap) text tokens := by
  induction gap generalizing offset with
  | nil => exact scans
  | cons char gap induction =>
      obtain ⟨isBlank, blanks⟩ := List.forall_mem_cons.mp blanks
      rw [byte_size_cons, ← Nat.add_assoc]
      apply induction blanks
      generalize whole : char :: gap ++ text = front at scans
      cases scans with
      | done => cases whole
      | blank _ behind =>
          cases whole
          exact behind
      | token fits =>
          obtain ⟨first, more, rfl, visible⟩ := Lexeme.opens_of_fits fits
          cases (List.cons.inj whole).1
          rw [visible] at isBlank
          cases isBlank

end Scans

section Respaced

variable {tokens : List Token} {text more : List Char}

theorem respaced_opens (respaced : Respaced tokens text more)
    (fit : ∀ token ∈ tokens, token.kind.Fits token.slice.toList) : text.head? = more.head? := by
  have opens {token : Token} (fits : token.kind.Fits token.slice.toList)
      (behind others : List Char) : (token.slice.toList ++ behind).head? =
        (token.slice.toList ++ others).head? := by
    obtain ⟨first, more, slice, _⟩ := Lexeme.opens_of_fits fits
    rw [slice]
    rfl
  cases respaced with
  | nothing => rfl
  | last | more => exact opens (fit _ List.mem_cons_self) _ _

theorem scan_respaced {stop offset : Nat} (respaced : Respaced tokens text more)
    (scans : Scans stop [] offset text tokens) (other : Nat) :
    (scanFrom other more).map Token.bare = (tokens ++ [endAt stop]).map Token.bare := by
  have fit := (tokenization_of_scans scans).fits
  induction respaced generalizing offset other with
  | nothing => rw [scanFrom]; rfl
  | @last token gap others blanks otherBlanks =>
      have maximal : ∀ char ∈ others.head?, token.kind.grows char = false := fun char first =>
        blank_grows_nothing token.kind (otherBlanks char (List.mem_of_head? first))
      rw [scan_from_token (fit _ List.mem_cons_self) maximal, ← List.append_nil others,
        scan_past_blanks otherBlanks, scanFrom, String.ofList_toList]
      rfl
  | @more token next tokens gap others text more blanks otherBlanks apart respaced induction =>
      obtain ⟨fits, fitLater⟩ := List.forall_mem_cons.mp fit
      obtain ⟨maximal, behind⟩ := scans_uncons fits scans
      have otherMaximal : ∀ char ∈ (others ++ more).head?, token.kind.grows char = false := by
        cases others with
        | cons first others =>
            rintro _ ⟨⟩
            exact blank_grows_nothing token.kind (otherBlanks first List.mem_cons_self)
        | nil =>
            have touching : gap = [] := Classical.byContradiction fun gapped => apart gapped rfl
            rw [touching, List.nil_append, respaced_opens respaced fitLater] at maximal
            exact maximal
      rw [scan_from_token fits otherMaximal, scan_past_blanks otherBlanks, String.ofList_toList,
        List.map_cons, induction (scans_uncons_blanks blanks behind) _ fitLater]
      rfl

end Respaced

theorem scan_same_but_layout {source other : String} (same : SameButLayout source other) :
    (Token.scan other).map Token.bare = (Token.scan source).map Token.bare := by
  obtain ⟨lead, first, text, more, blanks, firstBlanks, sourceText, otherText, respaced⟩ := same
  obtain ⟨tokens, scans⟩ := scans_whole 0 source.toList
  have scanned : Token.scan source = tokens ++ [endAt (0 + byteSize source.toList)] := by
    rw [Token.scan, scan_of_scans scans, scanFrom]
  rw [scanned, List.dropLast_concat] at respaced
  rw [scanned, Token.scan, otherText, scan_past_blanks firstBlanks]
  rw [sourceText] at scans ⊢
  exact scan_respaced respaced (scans_uncons_blanks blanks scans) _

/-- Blanks behind a source change nothing but the place of the end mark. -/
theorem scan_before_blanks {gap : String} (blanks : Blanks gap.toList) (source : String) :
    (Token.scan (source ++ gap)).map Token.bare = (Token.scan source).map Token.bare := by
  obtain ⟨tokens, scans⟩ := scans_whole 0 source.toList
  have scanned := scan_of_scans scans
  rw [Token.scan, Token.scan, String.toList_append]
  generalize gap.toList = gap at blanks
  have scannedGap : scanFrom 0 (source.toList ++ gap) =
      tokens ++ scanFrom (0 + byteSize source.toList) gap := by
    cases gap with
    | nil => rwa [List.append_nil]
    | cons char more =>
        exact scan_of_scans (scans_before_blank (blanks char List.mem_cons_self) more scans)
  rw [scanned, scannedGap, ← List.append_nil gap, scan_past_blanks blanks, scanFrom, scanFrom,
    List.map_append, List.map_append]
  rfl
end Scriptlet
