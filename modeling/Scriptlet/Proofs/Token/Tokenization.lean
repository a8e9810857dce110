import Scriptlet.Proofs.Token.Lexeme

/-!
Scanning finds the one way to cut a source into tokens. The cut is described by where its tokens
stand, what they are and what is left between them, all of it at once and for the source as a whole;
from that the scan is recovered piece by piece, from the front of the source to its end.
-/

namespace Scriptlet

open Text Token TokenKind

def StandsAt (offset : Nat) (text : List Char) (span : Span) (part : List Char) : Prop :=
  ∃ before behind, text = before ++ part ++ behind ∧ span.start = offset + byteSize before ∧
    span.stop = span.start + byteSize part

/-- A cut of a text that starts `offset` bytes into its source, without the end mark. -/
structure Tokenization (offset : Nat) (text : List Char) (tokens : List Token) : Prop where
  inside : ∀ token ∈ tokens, token.kind ≠ .endMark
  nonempty : ∀ token ∈ tokens, token.span.start < token.span.stop
  stands : ∀ token ∈ tokens, StandsAt offset text token.span token.slice.toList
  apart : tokens.Pairwise fun earlier later => earlier.span.stop ≤ later.span.start
  /-- What stands in no token is blank. -/
  covers : ∀ before char behind, text = before ++ char :: behind →
    (∀ token ∈ tokens, offset + byteSize before < token.span.start ∨
      token.span.stop ≤ offset + byteSize before) → isBlank char = true
  visible : ∀ token ∈ tokens, ∀ char ∈ token.slice.toList, isBlank char = false
  fits : ∀ token ∈ tokens, token.kind.Fits token.slice.toList
  /-- No token could be longer. -/
  maximal : ∀ token ∈ tokens, ∀ before char behind, text = before ++ char :: behind →
    token.span.stop = offset + byteSize before → token.kind.grows char = false

/-- Scanning from `offset` on passes these tokens and comes to `stop`, where `rest` is left. -/
inductive Scans (stop : Nat) (rest : List Char) : Nat → List Char → List Token → Prop where
  | done : Scans stop rest stop rest []
  | blank {offset : Nat} {char : Char} {text : List Char} {tokens : List Token} :
      isBlank char = true → Scans stop rest (offset + char.utf8Size) text tokens →
      Scans stop rest offset (char :: text) tokens
  | token {offset : Nat} {kind : TokenKind} {part text : List Char} {tokens : List Token} :
      kind.Fits part → (∀ char ∈ text.head?, kind.grows char = false) →
      Scans stop rest (offset + byteSize part) text tokens →
      Scans stop rest offset (part ++ text)
        (⟨kind, String.ofList part, ⟨offset, offset + byteSize part⟩⟩ :: tokens)

section Sizes

theorem byte_size_append (front back : List Char) :
    byteSize (front ++ back) = byteSize front + byteSize back := by
  induction front with
  | nil => exact (Nat.zero_add _).symm
  | cons char front induction =>
      simp only [byteSize, List.cons_append, List.foldr_cons] at induction ⊢
      rw [induction, Nat.add_assoc]

theorem byte_size_cons (char : Char) (text : List Char) :
    byteSize (char :: text) = char.utf8Size + byteSize text := rfl

theorem byte_size_eq_zero {text : List Char} (empty : byteSize text = 0) : text = [] := by
  cases text with
  | nil => rfl
  | cons char text =>
      have positive := char.utf8Size_pos
      rw [byte_size_cons] at empty
      omega

theorem byte_size_of_list (text : List Char) :
    byteSize text = (String.ofList text).utf8ByteSize := by
  induction text with
  | nil => rfl
  | cons char text induction =>
      have split : String.ofList (char :: text) = String.singleton char ++ String.ofList text := by
        rw [String.singleton_eq_ofList, ← String.ofList_append]
        rfl
      rw [byte_size_cons, induction, split, String.utf8ByteSize_append,
        String.utf8ByteSize_singleton]

theorem byte_size_of_string (source : String) : byteSize source.toList = source.utf8ByteSize := by
  rw [byte_size_of_list, String.ofList_toList]

/-- Of two ways to cut a text in two, the later one is a cut of what the earlier leaves. -/
theorem cut_later {front rest before behind : List Char}
    (same : front ++ rest = before ++ behind) (later : byteSize front ≤ byteSize before) :
    ∃ between, before = front ++ between ∧ rest = between ++ behind := by
  rcases List.append_eq_append_iff.mp same with ⟨between, rfl, rfl⟩ | ⟨between, rfl, rfl⟩
  · exact ⟨between, rfl, rfl⟩
  · have empty : byteSize between = 0 := by
      rw [byte_size_append] at later
      omega
    rw [byte_size_eq_zero empty]
    exact ⟨[], by simp, by simp⟩

end Sizes

namespace Token

theorem scan_from_blank {offset : Nat} {char : Char} (blank : isBlank char = true)
    (text : List Char) :
    scanFrom offset (char :: text) = scanFrom (offset + char.utf8Size) text := by
  rw [scanFrom, if_pos blank]

theorem scan_from_token {offset : Nat} {kind : TokenKind} {part text : List Char}
    (fits : kind.Fits part) (maximal : ∀ char ∈ text.head?, kind.grows char = false) :
    scanFrom offset (part ++ text) =
      ⟨kind, String.ofList part, ⟨offset, offset + byteSize part⟩⟩ ::
        scanFrom (offset + byteSize part) text := by
  obtain ⟨first, more, rfl, visible, cut⟩ := Lexeme.cut_of_fits fits maximal
  rw [List.cons_append, scanFrom, if_neg (by simp [visible]), cut]

end Token

section Scans

variable {stop offset : Nat} {rest text : List Char} {tokens : List Token}

theorem scan_of_scans (scans : Scans stop rest offset text tokens) :
    scanFrom offset text = tokens ++ scanFrom stop rest := by
  induction scans with
  | done => rfl
  | blank blank _ induction => rw [scan_from_blank blank, induction]
  | token fits maximal _ induction => rw [scan_from_token fits maximal, induction]; rfl

theorem scans_whole (offset : Nat) (text : List Char) :
    ∃ tokens, Scans (offset + byteSize text) [] offset text tokens := by
  induction offset, text using scanFrom.induct with
  | case1 offset => exact ⟨[], .done⟩
  | case2 offset first rest blank induction =>
      obtain ⟨tokens, scans⟩ := induction
      rw [Nat.add_assoc, ← byte_size_cons] at scans
      exact ⟨tokens, .blank blank scans⟩
  | case3 offset first rest visible lexeme stop induction =>
      obtain ⟨tokens, scans⟩ := induction
      have whole := Lexeme.cut_text_append_rest first rest
      have fits := @Lexeme.cut_fits first rest (by simpa using visible)
      rw [Nat.add_assoc, ← byte_size_append, whole] at scans
      have scansAll := Scans.token fits (Lexeme.cut_maximal first rest) scans
      rw [whole] at scansAll
      exact ⟨_, scansAll⟩

end Scans

section Tokenization

variable {stop offset : Nat} {rest part text : List Char} {token : Token} {tokens : List Token}
  {span : Span} {slice : List Char}

theorem stands_at_later (stands : StandsAt (offset + byteSize part) text span slice) :
    StandsAt offset (part ++ text) span slice := by
  obtain ⟨before, behind, rfl, start, stop⟩ := stands
  refine ⟨part ++ before, behind, by simp, ?_, stop⟩
  rw [byte_size_append, start, Nat.add_assoc]

theorem stands_at_earlier (stands : StandsAt offset (part ++ text) span slice)
    (behind : offset + byteSize part ≤ span.start) :
    StandsAt (offset + byteSize part) text span slice := by
  obtain ⟨before, after, same, start, stop⟩ := stands
  rw [List.append_assoc] at same
  obtain ⟨between, rfl, rfl⟩ := cut_later same (by omega)
  rw [byte_size_append] at start
  exact ⟨between, after, by simp, by omega, stop⟩

theorem start_of_stands (stands : StandsAt offset text span slice) : offset ≤ span.start := by
  obtain ⟨before, _, _, start, _⟩ := stands
  omega

/-- A cut of a text is one of what stands behind a part that no token reaches across. -/
theorem tokenization_behind {passed : List Token}
    (cut : Tokenization offset (part ++ text) (passed ++ tokens))
    (ended : ∀ token ∈ passed, token.span.stop ≤ offset + byteSize part)
    (behind : ∀ token ∈ tokens, offset + byteSize part ≤ token.span.start) :
    Tokenization (offset + byteSize part) text tokens := by
  have later (token : Token) (member : token ∈ tokens) : token ∈ passed ++ tokens :=
    List.mem_append_right passed member
  exact
    { inside := fun token member => cut.inside token (later token member)
      nonempty := fun token member => cut.nonempty token (later token member)
      stands := fun token member =>
        stands_at_earlier (cut.stands token (later token member)) (behind token member)
      apart := (List.pairwise_append.mp cut.apart).2.1
      covers := by
        intro before char after same outside
        refine cut.covers (part ++ before) char after (by simp [same]) fun token member => ?_
        rw [byte_size_append, ← Nat.add_assoc]
        rcases List.mem_append.mp member with isPassed | isLater
        · exact Or.inr (Nat.le_trans (ended token isPassed) (Nat.le_add_right _ _))
        · exact outside token isLater
      visible := fun token member => cut.visible token (later token member)
      fits := fun token member => cut.fits token (later token member)
      maximal := by
        intro token member before char after same stop
        refine cut.maximal token (later token member) (part ++ before) char after
          (by simp [same]) ?_
        rw [byte_size_append, ← Nat.add_assoc]
        exact stop }

theorem tokenization_nil (offset : Nat) : Tokenization offset [] [] where
  inside := nofun
  nonempty := nofun
  stands := nofun
  apart := .nil
  covers before char behind same := by simp at same
  visible := nofun
  fits := nofun
  maximal := nofun

section Behind

variable {before behind : List Char} {char : Char}

theorem covers_behind (cut : Tokenization (offset + byteSize part) text tokens)
    (same : part ++ text = before ++ char :: behind) (later : byteSize part ≤ byteSize before)
    (outside : ∀ token ∈ tokens, offset + byteSize before < token.span.start ∨
      token.span.stop ≤ offset + byteSize before) : isBlank char = true := by
  obtain ⟨between, rfl, rfl⟩ := cut_later same later
  refine cut.covers between char behind rfl fun token member => ?_
  have here := outside token member
  rw [byte_size_append, ← Nat.add_assoc] at here
  exact here

theorem maximal_behind (cut : Tokenization (offset + byteSize part) text tokens)
    (member : token ∈ tokens) (same : part ++ text = before ++ char :: behind)
    (stop : token.span.stop = offset + byteSize before) : token.kind.grows char = false := by
  have start := start_of_stands (cut.stands token member)
  have nonempty := cut.nonempty token member
  obtain ⟨between, rfl, rfl⟩ := cut_later same (by omega)
  refine cut.maximal token member between char behind rfl ?_
  rw [stop, byte_size_append, Nat.add_assoc]

end Behind

/-- A blank character in front belongs to no token. -/
theorem tokenization_blank {char : Char} (blank : isBlank char = true)
    (cut : Tokenization (offset + byteSize [char]) text tokens) :
    Tokenization offset ([char] ++ text) tokens where
  inside := cut.inside
  nonempty := cut.nonempty
  stands token member := stands_at_later (cut.stands token member)
  apart := cut.apart
  covers before other behind same outside := by
    cases before with
    | nil =>
        cases same
        exact blank
    | cons first before =>
        cases same
        refine covers_behind cut rfl ?_ outside
        exact Nat.le_add_right _ _
  visible := cut.visible
  fits := cut.fits
  maximal _ member _ _ _ same stop := maximal_behind cut member same stop

theorem part_nonempty {kind : TokenKind} (fits : kind.Fits part) : 0 < byteSize part := by
  obtain ⟨first, more, rfl, _⟩ := Lexeme.opens_of_fits fits
  have positive := first.utf8Size_pos
  rw [byte_size_cons]
  omega

theorem tokenization_cons {kind : TokenKind} (fits : kind.Fits part)
    (maximal : ∀ char ∈ text.head?, kind.grows char = false)
    (cut : Tokenization (offset + byteSize part) text tokens) :
    Tokenization offset (part ++ text)
      (⟨kind, String.ofList part, ⟨offset, offset + byteSize part⟩⟩ :: tokens) where
  inside := List.forall_mem_cons.mpr ⟨fits_inside fits, cut.inside⟩
  nonempty := List.forall_mem_cons.mpr
    ⟨Nat.lt_add_of_pos_right (part_nonempty fits), cut.nonempty⟩
  stands := by
    refine List.forall_mem_cons.mpr ⟨⟨[], text, ?_, rfl, ?_⟩, fun token member => ?_⟩
    · rw [String.toList_ofList, List.nil_append]
    · rw [String.toList_ofList]
    · exact stands_at_later (cut.stands token member)
  apart := List.pairwise_cons.mpr
    ⟨fun token member => start_of_stands (cut.stands token member), cut.apart⟩
  covers before char behind same outside := by
    obtain ⟨outsideFirst, outsideLater⟩ := List.forall_mem_cons.mp outside
    refine covers_behind cut same ?_ outsideLater
    simp only at outsideFirst
    omega
  visible := by
    refine List.forall_mem_cons.mpr ⟨?_, cut.visible⟩
    rw [String.toList_ofList]
    exact fits_visible fits
  fits := by
    refine List.forall_mem_cons.mpr ⟨?_, cut.fits⟩
    rw [String.toList_ofList]
    exact fits
  maximal := by
    refine List.forall_mem_cons.mpr ⟨fun before char behind same stop => ?_,
      fun token member before char behind => maximal_behind cut member⟩
    obtain ⟨between, rfl, rfl⟩ := cut_later same (by simp only at stop; omega)
    have empty : byteSize between = 0 := by
      simp only [byte_size_append] at stop
      omega
    rw [byte_size_eq_zero empty] at maximal
    exact maximal char rfl

theorem tokenization_of_scans (scans : Scans stop [] offset text tokens) :
    Tokenization offset text tokens := by
  induction scans with
  | done => exact tokenization_nil stop
  | blank blank _ induction => exact tokenization_blank blank induction
  | token fits maximal _ induction => exact tokenization_cons fits maximal induction

theorem start_past_first {char : Char} (stands : StandsAt offset (char :: text) span slice)
    (later : offset < span.start) : offset + byteSize [char] ≤ span.start := by
  obtain ⟨before, behind, same, start, _⟩ := stands
  cases before with
  | nil => exact absurd start (Nat.ne_of_gt later)
  | cons first before =>
      cases same
      rw [start, byte_size_cons, byte_size_cons]
      exact Nat.add_le_add_left (Nat.le_add_right _ _) offset

/-- At the front of a text stands a token, or a blank character that belongs to none. -/
theorem tokenization_front {char : Char} (cut : Tokenization offset (char :: text) tokens) :
    (isBlank char = true ∧ ∀ token ∈ tokens, offset + byteSize [char] ≤ token.span.start) ∨
      ∃ token later, tokens = token :: later ∧ token.span.start = offset := by
  by_cases front : ∃ token later, tokens = token :: later ∧ token.span.start = offset
  · exact Or.inr front
  · have past : ∀ token ∈ tokens, offset < token.span.start := by
      cases tokens with
      | nil => exact nofun
      | cons first later =>
          have start := start_of_stands (cut.stands first List.mem_cons_self)
          have notFront : first.span.start ≠ offset := fun same => front ⟨first, later, rfl, same⟩
          have nonempty := cut.nonempty first List.mem_cons_self
          refine List.forall_mem_cons.mpr ⟨by omega, fun token member => ?_⟩
          have apart := (List.pairwise_cons.mp cut.apart).1 token member
          omega
    refine Or.inl ⟨cut.covers [] char text rfl fun token member => Or.inl (past token member), ?_⟩
    exact fun token member => start_past_first (cut.stands token member) (past token member)

/-- A token at the front is cut off, and the others are a cut of what it leaves. -/
theorem tokenization_uncons {later : List Token}
    (cut : Tokenization offset text (token :: later)) (start : token.span.start = offset) :
    ∃ behind, text = token.slice.toList ++ behind ∧ behind.length < text.length ∧
      token.span.stop = offset + byteSize token.slice.toList ∧
      (∀ char ∈ behind.head?, token.kind.grows char = false) ∧
      Tokenization (offset + byteSize token.slice.toList) behind later := by
  have member : token ∈ token :: later := List.mem_cons_self
  obtain ⟨before, behind, same, startAt, stop⟩ := cut.stands token member
  have front : before = [] := byte_size_eq_zero (by omega)
  rw [front, List.nil_append] at same
  subst same
  rw [start] at stop
  have nonempty := cut.nonempty token member
  refine ⟨behind, rfl, ?_, stop, ?_, ?_⟩
  · cases slice : token.slice.toList with
    | nil =>
        rw [slice] at stop
        exact absurd (start.trans stop.symm) (Nat.ne_of_lt nonempty)
    | cons first more =>
        simp only [List.length_append, List.length_cons]
        omega
  · intro char first
    obtain ⟨rest, rfl⟩ := List.head?_eq_some_iff.mp first
    exact cut.maximal token member token.slice.toList char rest rfl stop
  · refine @tokenization_behind offset _ behind later [token] cut ?_ fun other isLater => ?_
    · intro passed isPassed
      rw [List.mem_singleton.mp isPassed, stop]
    · rw [← stop]
      exact (List.pairwise_cons.mp cut.apart).1 other isLater

/-- Every cut is the one that scanning makes, from the front of the text to its end. -/
theorem scans_of_tokenization (cut : Tokenization offset text tokens) :
    Scans (offset + byteSize text) [] offset text tokens := by
  -- A token takes any number of characters, so the induction is on how many are left.
  induction length : text.length using Nat.strong_induction_on generalizing offset text tokens with
  | _ length induction =>
      subst length
      cases text with
      | nil =>
          cases tokens with
          | nil => exact .done
          | cons token later =>
              obtain ⟨before, behind, same, _, stop⟩ := cut.stands token List.mem_cons_self
              have empty : token.slice.toList = [] := by simp_all
              have nonempty := cut.nonempty token List.mem_cons_self
              rw [empty] at stop
              exact absurd stop (Nat.ne_of_gt nonempty)
      | cons char rest =>
          rcases tokenization_front cut with ⟨blank, behind⟩ | ⟨token, later, rfl, start⟩
          · have cutRest := @tokenization_behind offset [char] rest tokens [] cut nofun behind
            have scans := induction rest.length (Nat.lt_succ_self _) cutRest rfl
            rw [Nat.add_assoc, ← byte_size_append] at scans
            exact .blank blank scans
          · have fits := cut.fits token List.mem_cons_self
            obtain ⟨behind, same, shorter, stop, maximal, cutLater⟩ := tokenization_uncons cut start
            have scans := induction behind.length shorter cutLater rfl
            rw [Nat.add_assoc, ← byte_size_append, ← same] at scans
            have scansAll := Scans.token fits maximal scans
            have whole :
                (⟨token.kind, token.slice, ⟨offset, token.span.stop⟩⟩ : Token) = token := by
              rw [← start]
            rwa [← same, String.ofList_toList, ← stop, whole] at scansAll

end Tokenization

/-- A source is cut into tokens in one way only, and scanning finds it and marks its end. -/
theorem scan_is_only_tokenization (source : String) (tokens : List Token) :
    Token.scan source = tokens ↔ ∃ front,
      tokens = front ++ [Token.endAt source.utf8ByteSize] ∧
        Tokenization 0 source.toList front := by
  have scanned {front : List Token}
      (scans : Scans (0 + byteSize source.toList) [] 0 source.toList front) :
      Token.scan source = front ++ [Token.endAt source.utf8ByteSize] := by
    rw [Token.scan, scan_of_scans scans, Nat.zero_add, byte_size_of_string, Token.scanFrom]
  constructor
  · rintro rfl
    obtain ⟨front, scans⟩ := scans_whole 0 source.toList
    exact ⟨front, scanned scans, tokenization_of_scans scans⟩
  · rintro ⟨front, rfl, cut⟩
    exact scanned (scans_of_tokenization cut)

end Scriptlet
