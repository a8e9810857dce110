import Scriptlet.CommandLine
import Scriptlet.Proofs.Grammar.Reported
import Scriptlet.Proofs.Session.Layout
import Scriptlet.Proofs.Shell.Transcript
import Scriptlet.Proofs.Text.Margins

/-!
A source in one line comes to the same on the command line and in the shell. The command writes
what the shell replies, and of the text about errors it takes nothing off but the line end that it
puts back: no message ends in a blank, since no token does.
-/

namespace Scriptlet

open Text

section Messages

variable {source : String}

/-- What is told about a token ends in the token, or in a word. -/
theorem message_ends_visibly {error : SyntaxError} {token : Token} (names : error.Names token)
    (visible : EndsVisibly token.text) : EndsVisibly error.message := by
  cases error with
  | unexpected expected found =>
      exact ends_visibly_append _ ⟨" instea".toList, 'd', by decide, by decide⟩
  | noRule found =>
      cases names
      exact ends_visibly_append _ visible
  | badInteger literal =>
      exact ends_visibly_append _ ⟨" as intege".toList, 'r', by decide, by decide⟩

theorem scanned_token_ends_visibly {token : Token} (scanned : token ∈ Token.scan source) :
    EndsVisibly token.text := by
  rcases scans_whole 0 source.toList with ⟨tokens, scans⟩
  rw [Token.scan, scan_of_scans scans, Token.scanFrom] at scanned
  rw [Token.text]
  split
  · exact ⟨"end of inpu".toList, 't', by decide, by decide⟩
  · rename_i inside
    rcases List.mem_append.mp scanned with member | last
    · have cut := tokenization_of_scans scans
      rcases Lexeme.opens_of_fits (cut.fits token member) with ⟨first, more, slice, _⟩
      refine ends_visibly_of_all ?_ (cut.visible token member)
      rw [slice]
      exact List.cons_ne_nil first more
    · rw [List.mem_singleton.mp last] at inside
      exact absurd rfl inside

theorem reported_message_ends_visibly {report : Report}
    (reported : report ∈ (readSource source).2) : EndsVisibly report.error.message := by
  rcases scans_whole 0 source.toList with ⟨tokens, scans⟩
  have scanned : Token.scan source =
      tokens ++ [Token.endAt (0 + Token.byteSize source.toList)] := by
    rw [Token.scan, scan_of_scans scans, Token.scanFrom]
  rcases reports_concern (Token.scan source) report reported with
    ⟨token, behind, ⟨front, stands⟩, _, names⟩
  rw [scanned, Reader.of_tokens_ended tokens _ rfl] at stands
  have member : token ∈ Token.scan source := by
    rw [scanned]
    exact stands ▸ List.mem_append_right front List.mem_cons_self
  exact message_ends_visibly names (scanned_token_ends_visibly member)

theorem listing_lines {errors : List SyntaxError} (some_ : errors ≠ [])
    (visible : ∀ error ∈ errors, EndsVisibly error.message) :
    ∃ body, EndsVisibly body ∧
      "".intercalate (errors.map fun error => "\t" ++ error.message ++ "\n") = body ++ "\n" := by
  induction errors with
  | nil => exact absurd rfl some_
  | cons first rest induction =>
      rcases List.forall_mem_cons.mp visible with ⟨visibleFirst, visibleRest⟩
      cases rest with
      | nil =>
          refine ⟨"\t" ++ first.message, ends_visibly_append _ visibleFirst, ?_⟩
          rw [List.map_singleton, String.intercalate_singleton]
      | cons second rest =>
          rcases induction (List.cons_ne_nil second rest) visibleRest with ⟨body, visible, same⟩
          refine ⟨_, ends_visibly_append ("\t" ++ first.message ++ "\n" ++ "") visible, ?_⟩
          rw [List.map_cons] at same ⊢
          rw [List.map_cons, String.intercalate_cons_cons, same, ← String.append_assoc]

/-- The text about errors is written as it is. -/
theorem listing_is_written_whole (broken : (readSource source).2 ≠ []) :
    CommandLine.errorText (SyntaxError.listing ((readSource source).2.map Report.error)) =
      SyntaxError.listing ((readSource source).2.map Report.error) := by
  have some_ : (readSource source).2.map Report.error ≠ [] := by
    rw [ne_eq, List.map_eq_nil_iff]
    exact broken
  have visible : ∀ error ∈ (readSource source).2.map Report.error,
      EndsVisibly error.message := by
    intro error member
    rcases List.mem_map.mp member with ⟨report, reported, rfl⟩
    exact reported_message_ends_visibly reported
  rcases listing_lines some_ visible with ⟨body, visible, same⟩
  have whole := ends_visibly_append "parser errors:\n" visible
  rw [CommandLine.errorText, SyntaxError.listing, same, ← String.append_assoc,
    trim_end_line whole]

end Messages

section Answers

variable {source line : String} {depth : Nat} {scope : Handle} {store : Store}

theorem read_same_scan
    (same : (Token.scan line).map Token.bare = (Token.scan source).map Token.bare) :
    (readSource line).1 = (readSource source).1 ∧
      (readSource line).2.map Report.bare = (readSource source).2.map Report.bare :=
  read_alike same

/-- Sources with the same tokens are replied alike. -/
theorem interpret_same_scan
    (same : (Token.scan line).map Token.bare = (Token.scan source).map Token.bare) :
    (interpret depth scope line store).map (fun (outcome, _) => Shell.replyTo outcome) =
      (interpret depth scope source store).map (fun (outcome, _) => Shell.replyTo outcome) := by
  rcases read_same_scan same with ⟨program, reports⟩
  rcases read_clean_or_broken source with ⟨given, read⟩ | broken
  · rw [read] at program reports
    have readLine : readSource line = (given, []) :=
      Prod.ext program (List.map_eq_nil_iff.mp reports)
    rw [interpret_clean read, interpret_clean readLine]
  · have brokenLine : (readSource line).2 ≠ [] := by
      intro clean
      rw [clean, List.map_nil, eq_comm, List.map_eq_nil_iff] at reports
      exact broken reports
    rw [interpret_broken broken, interpret_broken brokenLine]
    exact congrArg some (listing_alike reports)

theorem interpret_blank (blank : allBlank line = true) :
    interpret depth scope line store = some (.ok none, store) := by
  have blanks : Blanks line.toList := List.all_eq_true.mp blank
  have scanned := scan_before_blanks blanks ""
  rw [String.empty_append] at scanned
  rcases read_same_scan scanned with ⟨program, reports⟩
  have empty : readSource "" = ([], []) := by decide +kernel
  rw [empty] at program reports
  have read : readSource line = ([], []) := Prod.ext program (List.map_eq_nil_iff.mp reports)
  rw [interpret_clean read]
  rfl

/-- The shell passes over blank lines, which it would have nothing to reply to either. -/
theorem answer_eq : Shell.answer depth scope line store =
    (interpret depth scope line store).map fun (outcome, after) =>
      (Shell.replyTo outcome, after) := by
  cases visible : allBlank line with
  | true =>
      rw [interpret_blank visible, Shell.answer, if_pos visible]
      rfl
  | false => rw [Shell.answer_visible visible]

end Answers

namespace CommandLine

variable {source : String} {depth : Nat}

/-- Whatever comes of a source text, the command writes the reply to it, and its status tells
whether there are errors in the text. -/
theorem completed_reply {scope : Handle} {store after : Store}
    {outcome : Except (List SyntaxError) (Option Value)}
    (came : interpret depth scope source store = some (outcome, after)) :
    (completed outcome).output ++ (completed outcome).errors = encode (Shell.replyTo outcome) ∧
      (completed outcome).status = if (readSource source).2 = [] then 0 else 1 := by
  rcases read_clean_or_broken source with ⟨program, read⟩ | broken
  · rw [interpret_clean read] at came
    rcases Option.map_eq_some_iff.mp came with ⟨⟨value, last⟩, _, same⟩
    cases same
    rw [read, if_pos rfl]
    cases value <;> exact ⟨List.append_nil _, rfl⟩
  · rw [interpret_broken broken] at came
    cases came
    rw [if_neg broken]
    refine ⟨?_, rfl⟩
    simp only [completed, failed, Shell.replyTo, List.nil_append, listing_is_written_whole broken]

/-- A shell that is given one line writes its reply between two prompts. -/
theorem shell_run_line (oneLine : '\n' ∉ source.toList) (depth : Nat) (prompt : String) :
    (Shell.run depth prompt (encode (source ++ "\n")) .unlimited).map
        (fun (ending, _, writer) => (ending, writer.written)) =
      (interpret depth Store.empty.addRoot.1 source Store.empty.addRoot.2).map
        fun (outcome, _) => (.finished,
          encode prompt ++ encode (Shell.replyTo outcome) ++ encode prompt) := by
  rcases lines_of_line oneLine with ⟨line, sameLines, whole⟩
  have sameScan : (Token.scan line).map Token.bare = (Token.scan source).map Token.bare := by
    rcases whole with whole | whole
    · rw [whole]
    · have blanks : Blanks "\r".toList := List.all_eq_true.mp rfl
      rw [whole, scan_before_blanks blanks]
  have replied := @interpret_same_scan source line depth Store.empty.addRoot.1
    Store.empty.addRoot.2 sameScan
  have around := congrArg
    (Option.map fun reply => (Ending.finished, encode prompt ++ encode reply ++ encode prompt))
    replied
  rw [Option.map_map, Option.map_map] at around
  change (Shell.session depth Store.empty.addRoot.1 prompt (lines (encode (source ++ "\n")))
    Store.empty.addRoot.2 .unlimited).map _ = _
  rw [sameLines, Writer.unlimited, Shell.session_line (decode_encode line), answer_eq]
  refine Eq.trans ?_ around
  cases interpret depth Store.empty.addRoot.1 line Store.empty.addRoot.2 <;> rfl

end CommandLine

open CommandLine in
/-- A source text in one line is replied in the shell, between two prompts, with what the command
writes to its output and for errors when it is given the text, whatever else it is given; so the one
has an outcome where the other has, and that is where the program read from the text has one or
there are errors in the text. The command fails exactly on texts with errors, and then no character
of their messages is taken off. -/
theorem shell_replies_what_command_writes {source : String} (oneLine : '\n' ∉ source.toList)
    {options : Options} (given : options.source = some source) (depth : Nat) (prompt : String)
    (input : Bytes) (readFile : String → Except SystemError Bytes) :
    (Shell.run depth prompt (encode (source ++ "\n")) .unlimited).map
        (fun (ending, _, writer) => (ending, writer.written)) =
      (CommandLine.run depth options input readFile).map (fun completion =>
        (.finished, encode prompt ++ (completion.output ++ completion.errors) ++ encode prompt)) ∧
    (∀ completion, CommandLine.run depth options input readFile = some completion →
      completion.status = if (readSource source).2 = [] then 0 else 1) ∧
    (CommandLine.run depth options input readFile = none ↔
      (readSource source).2 = [] ∧
        Program.run depth Store.empty.addRoot.1 (readSource source).1 Store.empty.addRoot.2 =
          none) ∧
    ((readSource source).2 ≠ [] →
      errorText (SyntaxError.listing ((readSource source).2.map Report.error)) =
        SyntaxError.listing ((readSource source).2.map Report.error)) := by
  have ran : CommandLine.run depth options input readFile =
      (interpret depth Store.empty.addRoot.1 source Store.empty.addRoot.2).map
        fun (outcome, _) => completed outcome := by
    rw [CommandLine.run, given]
    rfl
  rw [ran]
  refine ⟨?_, ?_, ?_, listing_is_written_whole⟩
  · rw [shell_run_line oneLine, Option.map_map]
    apply Option.map_congr
    intro reached came
    rcases reached with ⟨outcome, after⟩
    exact congrArg (fun bytes => (Ending.finished, encode prompt ++ bytes ++ encode prompt))
      (completed_reply came).1.symm
  · intro completion same
    rcases Option.map_eq_some_iff.mp same with ⟨⟨outcome, after⟩, came, rfl⟩
    exact (completed_reply came).2
  · rw [Option.map_eq_none_iff]
    rcases read_clean_or_broken source with ⟨program, read⟩ | broken
    · rw [interpret_clean read, Option.map_eq_none_iff, read]
      exact ⟨fun none => ⟨rfl, none⟩, fun both => both.2⟩
    · rw [interpret_broken broken]
      exact ⟨nofun, fun both => absurd both.1 broken⟩

/-- A character that starts no token, with a carriage return behind it: the shell shows the same
message that the command ends with, up to its last character. -/
theorem stray_character_is_told_alike :
    let options : CommandLine.Options := ⟨some "unread", some "1 @\r", "> "⟩
    '\n' ∉ "1 @\r".toList ∧ options.source = some "1 @\r" ∧
      (Shell.run 0 ">> " (encode ("1 @\r" ++ "\n")) .unlimited).map
          (fun (ending, _, writer) => (ending, writer.written)) =
        some (.finished, encode ">> parser errors:\n\tno parse rule for @\n>> ") ∧
      CommandLine.run 0 options [] (fun _ => .error .noSuchFile) =
        some ⟨1, [], encode "parser errors:\n\tno parse rule for @\n"⟩ := by
  intro options
  have oneLine : '\n' ∉ "1 @\r".toList := by decide
  have written : CommandLine.run 0 options [] (fun _ => .error .noSuchFile) =
      some ⟨1, [], encode "parser errors:\n\tno parse rule for @\n"⟩ := by
    decide +kernel
  have given : options.source = some "1 @\r" := rfl
  have same := (shell_replies_what_command_writes oneLine given 0 ">> " []
    fun _ => .error .noSuchFile).1
  rw [written] at same
  refine ⟨oneLine, given, same.trans ?_, written⟩
  decide +kernel

end Scriptlet
