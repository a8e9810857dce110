import Scriptlet.Proofs.Session.Answer
import Scriptlet.Proofs.Text.Lines
import Scriptlet.Shell

/-!
What a shell session writes, when nothing stops its writer: a prompt and a reply for each line, and
a prompt at the end. A session over two streams, the first of which ends its last line, is a session
over the one and then a session over the other from the store that is left.
-/

namespace Scriptlet.Shell

open Text

/-- What a line is replied, and the store after it. Lines that are blank or have errors in them
leave the store as it was. -/
inductive Reply (depth : Nat) (scope : Handle) (store : Store) (text : String) :
    String → Store → Prop where
  | blank : allBlank text = true → Reply depth scope store text "" store
  | broken : allBlank text = false → (readSource text).2 ≠ [] →
      Reply depth scope store text
        (SyntaxError.listing ((readSource text).2.map Report.error)) store
  | silent {program : Program} {after : Store} : allBlank text = false →
      readSource text = (program, []) → Program.run depth scope program store = some (none, after) →
      Reply depth scope store text "" after
  | value {program : Program} {value : Value} {after : Store} : allBlank text = false →
      readSource text = (program, []) →
      Program.run depth scope program store = some (some value, after) →
      Reply depth scope store text (value.render ++ "\n") after

inductive Replied (depth : Nat) (scope : Handle) :
    List String → Store → List String → Store → Prop where
  | done {store : Store} : Replied depth scope [] store [] store
  | line {text reply : String} {texts replies : List String} {store middle last : Store} :
      Reply depth scope store text reply middle → Replied depth scope texts middle replies last →
      Replied depth scope (text :: texts) store (reply :: replies) last

def transcript (prompt : String) (replies : List String) : Bytes :=
  replies.flatMap fun reply => encode prompt ++ encode reply

/-- What is written by a session and by another one that goes on where it has ended. The prompt that
the second begins with has been written already. -/
def joined (prompt : String) (first second : Writer) : Writer :=
  ⟨first.written ++ second.written.drop (encode prompt).length, none⟩

variable {depth : Nat} {scope : Handle} {prompt : String}

section Reply

variable {store after : Store} {text reply : String}

theorem answer_visible (visible : allBlank text = false) :
    answer depth scope text store =
      (interpret depth scope text store).map fun (outcome, after) => (replyTo outcome, after) := by
  rw [answer, visible]
  change (interpret depth scope text store).bind _ = _
  cases interpret depth scope text store <;> rfl

theorem answer_of_reply (replied : Reply depth scope store text reply after) :
    answer depth scope text store = some (reply, after) := by
  cases replied with
  | blank blank =>
      rw [answer, if_pos blank]
      rfl
  | broken visible broken =>
      rw [answer_visible visible, interpret_broken broken]
      rfl
  | silent visible read ran | value visible read ran =>
      rw [answer_visible visible, interpret_clean read, ran]
      rfl

/-- A line is replied, unless the program in it has no outcome at this depth of calls. -/
theorem replied_or_endless (depth : Nat) (scope : Handle) (store : Store) (text : String) :
    (∃ reply after, Reply depth scope store text reply after) ∨
      answer depth scope text store = none ∧ ∃ program, readSource text = (program, []) ∧
        Program.run depth scope program store = none := by
  cases visible : allBlank text with
  | true => exact Or.inl ⟨_, _, .blank visible⟩
  | false =>
      rcases read_clean_or_broken text with ⟨program, read⟩ | broken
      · cases ran : Program.run depth scope program store with
        | none =>
            refine Or.inr ⟨?_, program, read, ran⟩
            rw [answer_visible visible, interpret_clean read, ran]
            rfl
        | some outcome =>
            obtain ⟨value, after⟩ := outcome
            cases value with
            | none => exact Or.inl ⟨_, _, .silent visible read ran⟩
            | some value => exact Or.inl ⟨_, _, .value visible read ran⟩
      · exact Or.inl ⟨_, _, .broken visible broken⟩

end Reply

section Session

variable {store last : Store} {texts replies : List String} {written : Bytes}

theorem session_end (store : Store) (written : Bytes) :
    session depth scope prompt [] store ⟨written, none⟩ =
      some (.finished, store, ⟨written ++ encode prompt, none⟩) := rfl

theorem session_undecodable {line : Bytes} (unreadable : decode? line = none) (rest : List Bytes)
    (store : Store) (written : Bytes) :
    session depth scope prompt (line :: rest) store ⟨written, none⟩ =
      some (.undecodable, store, ⟨written ++ encode prompt, none⟩) := by
  rw [session]
  simp only [Writer.write, step, unreadable, Option.bind_some]

theorem session_line {line : Bytes} {text : String} (readable : decode? line = some text)
    (rest : List Bytes) (store : Store) (written : Bytes) :
    session depth scope prompt (line :: rest) store ⟨written, none⟩ =
      (answer depth scope text store).bind fun (reply, middle) =>
        session depth scope prompt rest middle
          ⟨written ++ (encode prompt ++ encode reply), none⟩ := by
  rw [session]
  simp only [Writer.write, step, readable, Option.bind_map, List.append_assoc]
  rfl

/-- What was written before stays in front, and makes no other difference. -/
theorem session_behind (lines : List Bytes) (store : Store) (before written : Bytes) :
    session depth scope prompt lines store ⟨before ++ written, none⟩ =
      (session depth scope prompt lines store ⟨written, none⟩).map fun (ending, last, writer) =>
        (ending, last, ⟨before ++ writer.written, none⟩) := by
  induction lines generalizing store written with
  | nil => rw [session_end, session_end, List.append_assoc]; rfl
  | cons line rest induction =>
      cases read : decode? line with
      | none =>
          rw [session_undecodable read, session_undecodable read, List.append_assoc]
          rfl
      | some text =>
          rw [session_line read, session_line read, Option.map_bind]
          congr 1
          funext ⟨reply, middle⟩
          simp only [Function.comp_apply, List.append_assoc, induction]

/-- Every session begins with a prompt, and nothing but a line that is no text stops it. -/
theorem session_prompts {lines : List Bytes} {ending : Ending} {writer : Writer}
    (ended : session depth scope prompt lines store ⟨written, none⟩ = some (ending, last, writer)) :
    ending ≠ .full ∧ ∃ more, writer = ⟨written ++ (encode prompt ++ more), none⟩ := by
  induction lines generalizing store written with
  | nil =>
      rw [session_end] at ended
      cases ended
      exact ⟨nofun, [], by simp⟩
  | cons line rest induction =>
      cases read : decode? line with
      | none =>
          rw [session_undecodable read] at ended
          cases ended
          exact ⟨nofun, [], by simp⟩
      | some text =>
          rw [session_line read] at ended
          obtain ⟨⟨reply, middle⟩, _, ended⟩ := Option.bind_eq_some_iff.mp ended
          obtain ⟨notFull, more, rfl⟩ := induction ended
          exact ⟨notFull, encode reply ++ (encode prompt ++ more), by simp⟩

theorem session_replied (replied : Replied depth scope texts store replies last)
    (behind : List Bytes) (written : Bytes) :
    session depth scope prompt (texts.map encode ++ behind) store ⟨written, none⟩ =
      session depth scope prompt behind last ⟨written ++ transcript prompt replies, none⟩ := by
  induction replied generalizing written with
  | done => simp [transcript]
  | line reply _ induction =>
      rw [List.map_cons, List.cons_append, session_line (decode_encode _), answer_of_reply reply]
      simp [transcript, induction]

/-- The lines are replied, or one of them is endless and so is every session over them. -/
theorem replied_or_unfinished (texts : List String) (store : Store) :
    (∃ replies last, Replied depth scope texts store replies last) ∨
      ∀ behind written, session depth scope prompt (texts.map encode ++ behind) store
        ⟨written, none⟩ = none := by
  induction texts generalizing store with
  | nil => exact Or.inl ⟨_, _, .done⟩
  | cons text texts induction =>
      rcases replied_or_endless depth scope store text with
        ⟨reply, middle, replied⟩ | ⟨unanswered, _⟩
      · rcases induction middle with ⟨_, _, others⟩ | unfinished
        · exact Or.inl ⟨_, _, .line replied others⟩
        · refine Or.inr fun behind written => ?_
          rw [List.map_cons, List.cons_append, session_line (decode_encode _),
            answer_of_reply replied]
          exact unfinished _ _
      · refine Or.inr fun behind written => ?_
        rw [List.map_cons, List.cons_append, session_line (decode_encode _), unanswered]
        rfl

theorem session_of_replied (replied : Replied depth scope texts store replies last) :
    session depth scope prompt (texts.map encode) store .unlimited =
      some (.finished, last, ⟨transcript prompt replies ++ encode prompt, none⟩) := by
  have ran := @session_replied depth scope prompt _ _ _ _ replied [] []
  rwa [List.append_nil, session_end] at ran

theorem session_of_texts_iff {outcome : Ending × Store × Writer} :
    session depth scope prompt (texts.map encode) store .unlimited = some outcome ↔
      ∃ replies last, Replied depth scope texts store replies last ∧
        outcome = (.finished, last, ⟨transcript prompt replies ++ encode prompt, none⟩) := by
  constructor
  · intro ended
    rcases replied_or_unfinished texts store with ⟨replies, last, replied⟩ | unfinished
    · rw [session_of_replied replied] at ended
      exact ⟨replies, last, replied, (Option.some.inj ended).symm⟩
    · have none := unfinished [] []
      rw [List.append_nil] at none
      cases none.symm.trans ended
  · rintro ⟨replies, last, replied, rfl⟩
    exact session_of_replied replied

theorem session_of_texts (texts : List String) (store : Store) (behind : List Bytes) :
    session depth scope prompt (texts.map encode ++ behind) store .unlimited =
      (session depth scope prompt (texts.map encode) store .unlimited).bind
        fun (_, middle, writer) =>
          (session depth scope prompt behind middle .unlimited).map fun (ending, last, more) =>
            (ending, last, joined prompt writer more) := by
  rcases replied_or_unfinished texts store with ⟨replies, middle, replied⟩ | unfinished
  · have later := @session_behind depth scope prompt behind middle (transcript prompt replies) []
    rw [List.append_nil] at later
    rw [session_of_replied replied, Writer.unlimited, session_replied replied, List.nil_append,
      later, Option.bind_some]
    apply Option.map_congr
    intro (ending, last, writer) ran
    obtain ⟨_, more, rfl⟩ := session_prompts ran
    simp [joined]
  · have alone := unfinished [] []
    rw [List.append_nil] at alone
    rw [Writer.unlimited, unfinished, alone]
    rfl

end Session

/-- A stream is a text, and it is empty or its last line is ended. -/
structure WholeLines (stream : Bytes) : Prop where
  text : ∃ text, decode? stream = some text
  ended : ∀ last ∈ stream.getLast?, last = lineFeed

/-- Behind whole lines a shell goes on as if it was started there, in the store that the lines have
left, and as if its first prompt was already written. The lines never end a session: as long as the
programs in them have outcomes, each line is replied behind a prompt of its own, and blank lines and
errors change nothing. -/
theorem sessions_compose {front : Bytes} (whole : WholeLines front) (depth : Nat)
    (prompt : String) :
    (∀ behind, run depth prompt (front ++ behind) .unlimited =
      (run depth prompt front .unlimited).bind fun (_, middle, writer) =>
        (session depth Store.empty.addRoot.1 prompt (lines behind) middle .unlimited).map
          fun (ending, last, more) => (ending, last, joined prompt writer more)) ∧
    (∀ scope store behind,
      session depth scope prompt (lines (front ++ behind)) store .unlimited =
        (session depth scope prompt (lines front) store .unlimited).bind
          fun (_, middle, writer) =>
            (session depth scope prompt (lines behind) middle .unlimited).map
              fun (ending, last, more) => (ending, last, joined prompt writer more)) ∧
    (∀ scope store lines ending last writer,
      session depth scope prompt lines store .unlimited = some (ending, last, writer) →
        ending ≠ .full ∧ encode prompt <+: writer.written) ∧
    (∃ texts : List String, lines front = texts.map encode ∧
      ∀ scope store outcome,
        session depth scope prompt (lines front) store .unlimited = some outcome ↔
          ∃ replies last, Replied depth scope texts store replies last ∧
            outcome =
              (.finished, last, ⟨transcript prompt replies ++ encode prompt, none⟩)) ∧
    ∀ scope store text, (∃ reply after, Reply depth scope store text reply after) ∨
      ∃ program, readSource text = (program, []) ∧
        Program.run depth scope program store = none := by
  obtain ⟨⟨text, isText⟩, ended⟩ := whole
  obtain ⟨texts, same⟩ := lines_of_text text
  rw [← encode_of_decode isText] at same
  have compose (scope : Handle) (store : Store) (behind : Bytes) :
      session depth scope prompt (lines (front ++ behind)) store .unlimited =
        (session depth scope prompt (lines front) store .unlimited).bind
          fun (_, middle, writer) =>
            (session depth scope prompt (lines behind) middle .unlimited).map
              fun (ending, last, more) => (ending, last, joined prompt writer more) := by
    rw [lines_append ended, same]
    exact session_of_texts texts store (lines behind)
  refine ⟨compose _ _, compose, fun scope store lines ending last writer ran => ?_,
    ⟨texts, same, fun scope store outcome => ?_⟩,
    fun scope store text => (replied_or_endless depth scope store text).imp_right And.right⟩
  · obtain ⟨notFull, more, rfl⟩ := session_prompts ran
    exact ⟨notFull, more, rfl⟩
  · rw [same]
    exact session_of_texts_iff

/-- Behind a line that binds a name, any stream is answered as by a shell that knows the name. -/
theorem bound_name_is_known_behind :
    WholeLines (encode "let x=2\n") ∧ ∀ behind,
      run 0 ">> " (encode "let x=2\n" ++ behind) .unlimited =
        (session 0 0 ">> " (lines behind) (Store.empty.addRoot.2.bind 0 "x" (.int 2))
          .unlimited).map fun (ending, last, more) =>
            (ending, last, joined ">> " ⟨encode ">> >> ", none⟩ more) := by
  have whole : WholeLines (encode "let x=2\n") := ⟨⟨_, decode_encode _⟩, by decide +kernel⟩
  have read : readSource "let x=2" = ([.bind "x" (.int 2)], []) := by decide +kernel
  have visible : allBlank "let x=2" = false := by decide
  have line : lines (encode "let x=2\n") = ["let x=2"].map encode := by decide +kernel
  have replied : Replied 0 0 ["let x=2"] Store.empty.addRoot.2 [""]
      (Store.empty.addRoot.2.bind 0 "x" (.int 2)) :=
    .line (.silent visible read rfl) .done
  have ran : run 0 ">> " (encode "let x=2\n") .unlimited = some (.finished,
      Store.empty.addRoot.2.bind 0 "x" (.int 2), ⟨encode ">> >> ", none⟩) := by
    change session 0 0 ">> " (lines (encode "let x=2\n")) Store.empty.addRoot.2 .unlimited = _
    rw [line]
    exact session_of_texts_iff.mpr ⟨_, _, replied, rfl⟩
  refine ⟨whole, fun behind => ?_⟩
  rw [(sessions_compose whole 0 ">> ").1 behind, ran]
  rfl

end Scriptlet.Shell
