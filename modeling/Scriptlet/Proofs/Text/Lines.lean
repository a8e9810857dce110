import Scriptlet.Text.Bytes

/-!
The lines of byte streams. Two streams with a line end between them have the lines of the one and
then those of the other. A stream that is a text has lines that are texts: in UTF-8 no byte of a
line end is part of another character. A text without a line feed is the one line of itself, but for
a carriage return at its end.
-/

namespace Scriptlet.Text

theorem lines_cons (byte : UInt8) (rest : Bytes) :
    lines (byte :: rest) =
      if byte = lineFeed then [] :: lines rest
      else if byte = carriageReturn ∧ rest.head? = some lineFeed then lines rest
      else pushByte byte (lines rest) := by
  cases rest with
  | nil => simp [lines, pushByte]
  | cons second rest => simp [lines]

theorem lines_ne_nil {bytes : Bytes} (more : bytes ≠ []) : lines bytes ≠ [] := by
  induction bytes with
  | nil => exact absurd rfl more
  | cons byte rest induction =>
      rw [lines_cons]
      split
      · exact List.cons_ne_nil _ _
      · split
        · rename_i ended
          apply induction
          rintro rfl
          cases ended.2
        · cases lines rest <;> exact List.cons_ne_nil _ _

theorem push_byte_append (byte : UInt8) {front : List Bytes} (more : front ≠ [])
    (behind : List Bytes) : pushByte byte (front ++ behind) = pushByte byte front ++ behind := by
  cases front with
  | nil => exact absurd rfl more
  | cons line front => rfl

/-- Where a stream begins or a line has ended, the lines behind are as they are by themselves. -/
theorem lines_append {front : Bytes} (ended : ∀ last ∈ front.getLast?, last = lineFeed)
    (behind : Bytes) : lines (front ++ behind) = lines front ++ lines behind := by
  induction front with
  | nil => rfl
  | cons byte rest induction =>
      cases rest with
      | nil =>
          obtain rfl := ended byte rfl
          rw [List.singleton_append, lines_cons, if_pos rfl]
          rfl
      | cons second rest =>
          have more : lines (second :: rest) ≠ [] := lines_ne_nil (List.cons_ne_nil _ _)
          have lines_rest := induction ended
          rw [List.cons_append, lines_cons, lines_cons byte (second :: rest), lines_rest,
            push_byte_append byte more, List.cons_append, List.head?_cons, List.head?_cons]
          split
          · rfl
          · split <;> rfl

/-- A single line loses its end and one carriage return before it. -/
theorem lines_of_single {run : Bytes} (noFeed : ∀ byte ∈ run, byte ≠ lineFeed) :
    ∃ line, lines (run ++ [lineFeed]) = [line] ∧ (run = line ∨ run = line ++ [carriageReturn]) := by
  induction run with
  | nil => exact ⟨[], rfl, .inl rfl⟩
  | cons byte rest induction =>
      rcases List.forall_mem_cons.mp noFeed with ⟨noFeed, noFeedBehind⟩
      rw [List.cons_append, lines_cons, if_neg noFeed]
      cases rest with
      | nil =>
          by_cases isReturn : byte = carriageReturn
          · subst isReturn
            exact ⟨[], rfl, .inr rfl⟩
          · rw [if_neg (fun ended => isReturn ended.1)]
            exact ⟨[byte], rfl, .inl rfl⟩
      | cons second rest =>
          have notEnded : ¬(byte = carriageReturn ∧
              (second :: rest ++ [lineFeed]).head? = some lineFeed) := by
            intro ended
            exact noFeedBehind second List.mem_cons_self (Option.some.inj ended.2)
          rcases induction noFeedBehind with ⟨line, same, whole⟩
          rw [if_neg notEnded, same]
          refine ⟨byte :: line, rfl, ?_⟩
          rcases whole with whole | whole
          · exact .inl (congrArg (byte :: ·) whole)
          · exact .inr (congrArg (byte :: ·) whole)

section Texts

theorem encode_eq (text : String) : encode text = text.toList.flatMap String.utf8EncodeChar := by
  rw [encode, String.toUTF8_eq_toByteArray, ← String.utf8Encode_toList, List.utf8Encode,
    List.toList_data_toByteArray]

theorem encode_of_decode {bytes : Bytes} {text : String} (decoded : decode? bytes = some text) :
    bytes = encode text := by
  rw [decode?, String.fromUTF8?] at decoded
  split at decoded
  · cases decoded
    rfl
  · cases decoded

/-- A byte below 128 is the whole of a character. -/
theorem alone_of_ascii {char : Char} {byte : UInt8} (member : byte ∈ String.utf8EncodeChar char)
    (ascii : byte.toNat < 128) : char.toNat = byte.toNat := by
  revert member
  fun_cases String.utf8EncodeChar char <;> intro member <;>
    simp only [List.mem_cons, List.not_mem_nil, or_false] at member
  · subst member
    rename_i small
    change char.toNat ≤ 127 at small
    change char.toNat = char.toNat % 256
    omega
  all_goals
    rcases member with rfl | rfl | rfl | rfl <;>
    simp only [UInt8.toNat_ofNat'] at ascii <;> omega

theorem push_all (run line : Bytes) (lines : List Bytes) :
    run.foldr pushByte (line :: lines) = (run ++ line) :: lines := by
  induction run with
  | nil => rfl
  | cons byte run induction => rw [List.foldr_cons, induction]; rfl

theorem push_all_alone {run : Bytes} (more : run ≠ []) : run.foldr pushByte [] = [run] := by
  obtain ⟨front, last, rfl⟩ := (List.eq_nil_or_concat run).resolve_left more
  rw [List.concat_eq_append, List.foldr_append]
  exact push_all front [last] []

theorem lines_of_plain {run : Bytes}
    (plain : ∀ byte ∈ run, byte ≠ lineFeed ∧ byte ≠ carriageReturn) (rest : Bytes) :
    lines (run ++ rest) = run.foldr pushByte (lines rest) := by
  induction run with
  | nil => rfl
  | cons byte run induction =>
      obtain ⟨⟨noFeed, noReturn⟩, plain⟩ := List.forall_mem_cons.mp plain
      rw [List.cons_append, lines_cons, if_neg noFeed, if_neg (fun ended => noReturn ended.1),
        induction plain, List.foldr_cons]

def AreTexts (lines : List Bytes) : Prop :=
  ∃ texts : List (List Char), lines = texts.map (List.flatMap String.utf8EncodeChar)

theorem push_char {lines : List Bytes} (areTexts : AreTexts lines) (char : Char) :
    AreTexts ((String.utf8EncodeChar char).foldr pushByte lines) := by
  obtain ⟨texts, rfl⟩ := areTexts
  cases texts with
  | nil => exact ⟨[[char]], by simp [push_all_alone]⟩
  | cons text texts => exact ⟨(char :: text) :: texts, push_all _ _ _⟩

theorem lines_of_chars (chars : List Char) :
    AreTexts (lines (chars.flatMap String.utf8EncodeChar)) := by
  induction chars with
  | nil => exact ⟨[], rfl⟩
  | cons char chars induction =>
      rw [List.flatMap_cons]
      by_cases feed : char = '\n'
      · subst feed
        obtain ⟨texts, same⟩ := induction
        refine ⟨[] :: texts, ?_⟩
        change lines (lineFeed :: chars.flatMap String.utf8EncodeChar) = _
        rw [lines_cons, if_pos rfl, same]
        rfl
      · by_cases back : char = '\r'
        · subst back
          change AreTexts (lines (carriageReturn :: chars.flatMap String.utf8EncodeChar))
          rw [lines_cons, if_neg (by decide)]
          split
          · exact induction
          · exact push_char induction '\r'
        · have plain : ∀ byte ∈ String.utf8EncodeChar char,
              byte ≠ lineFeed ∧ byte ≠ carriageReturn := by
            intro byte member
            constructor
            · rintro rfl
              exact feed (Char.toNat_inj.mp (alone_of_ascii member (by decide)))
            · rintro rfl
              exact back (Char.toNat_inj.mp (alone_of_ascii member (by decide)))
          rw [lines_of_plain plain]
          exact push_char induction char

/-- Every line of a text is a text. -/
theorem lines_of_text (text : String) : ∃ texts : List String,
    lines (encode text) = texts.map encode := by
  obtain ⟨texts, same⟩ := lines_of_chars text.toList
  refine ⟨texts.map String.ofList, ?_⟩
  rw [encode_eq, same, List.map_map]
  exact List.map_congr_left fun chars _ => by
    rw [Function.comp_apply, encode_eq, String.toList_ofList]

theorem encode_append (front back : String) :
    encode (front ++ back) = encode front ++ encode back := by
  simp only [encode_eq, String.toList_append, List.flatMap_append]

theorem encode_injective {text other : String} (same : encode text = encode other) :
    text = other := by
  have decoded := congrArg decode? same
  rw [decode_encode, decode_encode] at decoded
  exact Option.some.inj decoded

/-- The line of a text is the text without one carriage return at its end. -/
theorem lines_of_line {text : String} (oneLine : '\n' ∉ text.toList) :
    ∃ line, lines (encode (text ++ "\n")) = [encode line] ∧
      (text = line ∨ text = line ++ "\r") := by
  have noFeed : ∀ byte ∈ encode text, byte ≠ lineFeed := by
    intro byte member same
    rw [encode_eq] at member
    rcases List.mem_flatMap.mp member with ⟨char, inText, inChar⟩
    subst same
    have feed : char = '\n' := Char.toNat_inj.mp (alone_of_ascii inChar (by decide))
    exact oneLine (feed ▸ inText)
  rcases lines_of_single noFeed with ⟨line, same, whole⟩
  rcases lines_of_text (text ++ "\n") with ⟨texts, areTexts⟩
  rw [encode_append] at areTexts
  rw [encode_append]
  have isText : [line] = texts.map encode := by
    rw [← areTexts]
    exact same.symm
  match texts, isText with
  | [only], isText =>
      cases isText
      refine ⟨only, same, ?_⟩
      rcases whole with whole | whole
      · exact .inl (encode_injective whole)
      · refine .inr (encode_injective ?_)
        rw [encode_append]
        exact whole

end Texts

end Scriptlet.Text
