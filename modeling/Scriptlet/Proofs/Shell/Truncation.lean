import Scriptlet.Proofs.Shell.Transcript

/-!
Sessions with a writer that gets full. Such a session writes the front of what it would have written
otherwise, as much of it as there is room for. If all of it fits, the session ends as it would have
ended otherwise, and if not, it is the writer that ends it.
-/

namespace Scriptlet

open Text

namespace Writer

def writeAll : Writer → List Bytes → Bool × Writer
  | writer, [] => (true, writer)
  | writer, piece :: rest =>
      match writer.write piece with
      | (true, writer) => writer.writeAll rest
      | (false, writer) => (false, writer)

/-- What was written if there had been room for so many bytes from the start. -/
def cutTo (room : Nat) (writer : Writer) : Writer :=
  ⟨writer.written.take room, some (room - writer.written.length)⟩

theorem write_append (writer : Writer) (front back : Bytes) :
    writer.write (front ++ back) =
      match writer.write front with
      | (true, writer) => writer.write back
      | (false, writer) => (false, writer) := by
  rcases writer with ⟨written, room⟩
  cases room with
  | none => simp [write]
  | some room =>
      by_cases fits : front.length ≤ room
      · have whole : front.take room = front := List.take_of_length_le fits
        have left : front.length + back.length ≤ room ↔ back.length ≤ room - front.length := by
          omega
        simp [write, fits, whole, left, List.take_append, Nat.sub_sub]
      · have noMore : room - front.length = 0 := by omega
        have tooMuch : ¬front.length + back.length ≤ room := by omega
        have full : room - (front.length + back.length) = 0 := by omega
        simp [write, fits, noMore, tooMuch, full, List.take_append]

/-- Bytes that are written in pieces are written like the whole of them at once. -/
theorem write_all_eq (writer : Writer) (pieces : List Bytes) :
    writer.writeAll pieces = writer.write pieces.flatten := by
  induction pieces generalizing writer with
  | nil =>
      rcases writer with ⟨written, room⟩
      cases room with
      | none => simp [writeAll, write]
      | some room => simp [writeAll, write]
  | cons piece rest induction =>
      rw [List.flatten_cons, write_append, writeAll]
      split
      · apply induction
      · rfl

section Cut

variable {room : Nat} {written : Bytes}

theorem cut_write (fits : written.length ≤ room) (bytes : Bytes) :
    (cutTo room ⟨written, none⟩).write bytes =
      (decide ((written ++ bytes).length ≤ room), cutTo room ⟨written ++ bytes, none⟩) := by
  have whole : written.take room = written := List.take_of_length_le fits
  have left : bytes.length ≤ room - written.length ↔ (written ++ bytes).length ≤ room := by
    rw [List.length_append]
    omega
  simp [write, cutTo, whole, left, List.take_append, Nat.sub_sub]

theorem cut_unlimited (room : Nat) : cutTo room unlimited = withRoom room := by
  simp [cutTo, unlimited, withRoom]

/-- A full writer takes no more. -/
theorem cut_full (full : room ≤ written.length) {writer : Writer}
    (begins : written <+: writer.written) : cutTo room ⟨written, none⟩ = writer.cutTo room := by
  rcases writer with ⟨whole, _⟩
  rcases begins with ⟨more, rfl⟩
  have noMore : room - written.length = 0 := by omega
  have stillFull : room - (written ++ more).length = 0 := by
    rw [List.length_append]
    omega
  simp only [cutTo, List.take_append, noMore, stillFull, List.take_zero, List.append_nil]

end Cut

end Writer

namespace Shell

/-- How a session ends with room for so many bytes, when it would have ended like this and written
so much otherwise. -/
structure CutOff (room : Nat) (ending : Ending) (last : Store) (written : Bytes)
    (cutEnding : Ending) (cutLast : Store) : Prop where
  full : room < written.length → cutEnding = .full
  whole : written.length ≤ room → cutEnding = ending ∧ cutLast = last

variable {depth : Nat} {scope : Handle} {prompt : String}

section Session

variable {room : Nat} {lines : List Bytes} {store last : Store} {written : Bytes} {ending : Ending}
  {writer : Writer}

theorem cut_off_full (begins : written <+: writer.written) (full : room < written.length)
    (store : Store) : CutOff room ending last writer.written .full store := by
  constructor
  · intro _
    rfl
  · intro fits
    have shorter := begins.length_le
    omega

theorem cut_off_whole (fits : written.length ≤ room) :
    CutOff room ending last written ending last := by
  constructor
  · intro tooMuch
    omega
  · intro _
    exact ⟨rfl, rfl⟩

/-- What is written before a session, and its first prompt, is what its writer begins with. -/
theorem session_begins
    (ended : session depth scope prompt lines store ⟨written, none⟩ = some (ending, last, writer)) :
    written ++ encode prompt <+: writer.written := by
  rcases session_prompts ended with ⟨-, more, rfl⟩
  rw [← List.append_assoc]
  exact List.prefix_append _ more

/-- The induction is on the lines. As long as everything fits, the writer is where it would have
been without a limit, and once something does not, it is full whatever comes behind. -/
theorem session_cut_off (fits : written.length ≤ room)
    (ended : session depth scope prompt lines store ⟨written, none⟩ = some (ending, last, writer)) :
    ∃ cutEnding cutLast, session depth scope prompt lines store (.cutTo room ⟨written, none⟩) =
        some (cutEnding, cutLast, writer.cutTo room) ∧
      CutOff room ending last writer.written cutEnding cutLast := by
  induction lines generalizing store written with
  | nil =>
      have begins := session_begins ended
      rw [session_end] at ended
      rw [session, Writer.cut_write fits]
      by_cases prompted : (written ++ encode prompt).length ≤ room
      · rw [decide_eq_true prompted]
        cases ended
        exact ⟨_, _, rfl, cut_off_whole prompted⟩
      · have full := Nat.lt_of_not_le prompted
        rw [decide_eq_false prompted, Writer.cut_full (Nat.le_of_lt full) begins]
        exact ⟨_, _, rfl, cut_off_full begins full store⟩
  | cons line rest induction =>
      have begins := session_begins ended
      rw [session, Writer.cut_write fits]
      by_cases prompted : (written ++ encode prompt).length ≤ room
      · rw [decide_eq_true prompted]
        cases read : decode? line with
        | none =>
            rw [session_undecodable read] at ended
            cases ended
            exact ⟨_, _, by simp only [step, read, Option.bind_some], cut_off_whole prompted⟩
        | some text =>
            rw [session_line read] at ended
            rcases Option.bind_eq_some_iff.mp ended with ⟨⟨reply, middle⟩, answered, ended⟩
            simp only [← List.append_assoc] at ended
            simp only [step, read, answered, Option.map_some, Option.bind_some,
              Writer.cut_write prompted]
            by_cases replied : (written ++ encode prompt ++ encode reply).length ≤ room
            · rw [decide_eq_true replied]
              exact induction replied ended
            -- What is written later in the session comes too late for a writer that is full.
            · have full := Nat.lt_of_not_le replied
              have begins := (List.prefix_append _ _).trans (session_begins ended)
              rw [decide_eq_false replied, Writer.cut_full (Nat.le_of_lt full) begins]
              exact ⟨_, _, rfl, cut_off_full begins full middle⟩
      · have full := Nat.lt_of_not_le prompted
        rw [decide_eq_false prompted, Writer.cut_full (Nat.le_of_lt full) begins]
        exact ⟨_, _, rfl, cut_off_full begins full store⟩

/-- The lines are texts up to the end, or up to one that is none. -/
theorem texts_up_to (lines : List Bytes) :
    ∃ (texts : List String) (behind : List Bytes), lines = texts.map encode ++ behind ∧
      ∀ line ∈ behind.head?, decode? line = none := by
  induction lines with
  | nil => exact ⟨[], [], rfl, by simp⟩
  | cons line rest induction =>
      cases read : decode? line with
      | none => exact ⟨[], line :: rest, rfl, by simp [read]⟩
      | some text =>
          rcases induction with ⟨texts, behind, same, unreadable⟩
          refine ⟨text :: texts, behind, ?_, unreadable⟩
          rw [same, encode_of_decode read, List.map_cons, List.cons_append]

/-- Without a limit, each line up to one that is no text is replied behind a prompt of its own. -/
theorem session_in_full
    (ended : session depth scope prompt lines store .unlimited = some (ending, last, writer)) :
    ∃ texts replies behind, lines = texts.map encode ++ behind ∧
      Replied depth scope texts store replies last ∧
      writer = ⟨transcript prompt replies ++ encode prompt, none⟩ ∧
      (ending = .finished ∧ behind = [] ∨
        ending = .undecodable ∧ ∃ line rest, behind = line :: rest ∧ decode? line = none) := by
  rcases texts_up_to lines with ⟨texts, behind, same, unreadable⟩
  subst same
  rcases replied_or_unfinished texts store with ⟨replies, middle, replied⟩ | unfinished
  · rw [Writer.unlimited, session_replied replied, List.nil_append] at ended
    cases behind with
    | nil =>
        rw [session_end] at ended
        cases ended
        exact ⟨texts, replies, [], rfl, replied, rfl, .inl ⟨rfl, rfl⟩⟩
    | cons line rest =>
        have isNone : decode? line = none := unreadable line rfl
        rw [session_undecodable isNone] at ended
        cases ended
        exact ⟨texts, replies, line :: rest, rfl, replied, rfl,
          .inr ⟨rfl, line, rest, rfl, isNone⟩⟩
  · rw [Writer.unlimited, unfinished] at ended
    cases ended

end Session

/-- A writer that gets full only cuts off. The session writes the front of what it would have
written, is stopped by the writer exactly when something does not fit, and ends as it would have
ended when everything does. The pieces that something is written in make no difference. -/
theorem full_writer_cuts_off {input : Bytes} {ending : Ending} {last : Store} {writer : Writer}
    (ended : run depth prompt input .unlimited = some (ending, last, writer)) :
    (∃ texts replies behind, lines input = texts.map encode ++ behind ∧
      Replied depth Store.empty.addRoot.1 texts Store.empty.addRoot.2 replies last ∧
      writer = ⟨transcript prompt replies ++ encode prompt, none⟩ ∧
      (ending = .finished ∧ behind = [] ∨
        ending = .undecodable ∧ ∃ line rest, behind = line :: rest ∧ decode? line = none)) ∧
    (∀ room, ∃ cutEnding cutLast, run depth prompt input (.withRoom room) =
        some (cutEnding, cutLast,
          ⟨writer.written.take room, some (room - writer.written.length)⟩) ∧
      CutOff room ending last writer.written cutEnding cutLast) ∧
    ∀ (writer : Writer) (pieces : List Bytes),
      writer.writeAll pieces = writer.write pieces.flatten := by
  refine ⟨session_in_full ended, ?_, Writer.write_all_eq⟩
  intro room
  have cut := session_cut_off (Nat.zero_le room) ended
  rw [← Writer.unlimited, Writer.cut_unlimited] at cut
  exact cut

/-- The writer is full in the middle of a report of errors, so that the session does not get to the
line behind it, which is no text. With room for just the whole output, it does. -/
theorem report_is_cut_off :
    let input := encode "x+\n" ++ [0xFF]
    let output := encode ">> parser errors:\n\tno parse rule for end of input\n>> "
    ∃ last, run 0 ">> " input .unlimited = some (.undecodable, last, ⟨output, none⟩) ∧
      run 0 ">> " input (.withRoom 53) =
        some (.undecodable, last, ⟨output, some 0⟩) ∧
      ∃ middle, run 0 ">> " input (.withRoom 24) =
        some (.full, middle, ⟨encode ">> parser errors:\n\tno pa", some 0⟩) := by
  intro input output
  have ran : (run 0 ">> " input .unlimited).map
      (fun outcome => (outcome.1, outcome.2.2.written, outcome.2.2.room)) =
        some (.undecodable, output, none) := by decide +kernel
  rcases Option.map_eq_some_iff.mp ran with ⟨⟨ending, last, ⟨written, room⟩⟩, ended, same⟩
  simp only [Prod.mk.injEq] at same
  rcases same with ⟨rfl, rfl, rfl⟩
  have cut := (full_writer_cuts_off ended).2.1
  have size : output.length = 53 := by decide +kernel
  have whole : output.take 53 = output := List.take_of_length_le (Nat.le_of_eq size)
  have front : output.take 24 = encode ">> parser errors:\n\tno pa" := by decide +kernel
  rcases cut 53 with ⟨endingWhole, lastWhole, ended53, cutOff53⟩
  rcases cut 24 with ⟨endingFull, middle, ended24, cutOff24⟩
  rcases cutOff53.whole (Nat.le_of_eq size) with ⟨rfl, rfl⟩
  have isFull : endingFull = .full := cutOff24.full (by rw [size]; decide)
  subst isFull
  simp only [whole, size] at ended53
  simp only [front, size] at ended24
  exact ⟨_, ended, ended53, _, ended24⟩

end Shell

end Scriptlet
