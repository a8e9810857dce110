import Scriptlet.Proofs.Grammar.FirstEnd
import Scriptlet.Proofs.Grammar.Placed

/-!
Any use of a reader. However often a reader is asked for expressions and programs, and in whatever
order, its place stays one in the tokens that it was made for, with the end mark behind them, and
never moves back; reports are only ever added behind those made before.
-/

namespace Scriptlet

open Grammar Rule

/-- The tokens with an end mark put behind them, if the last one is not an end mark. -/
def Token.ended (tokens : List Token) : List Token :=
  match tokens.getLast? with
  | none => [Token.endAt 0]
  | some last =>
      if last.kind = .endMark then tokens else tokens ++ [Token.endAt last.span.stop]

/-- The place of the current token, when these tokens are ahead. -/
def cursor (tokens ahead : List Token) : Nat := (Token.ended tokens).length - 1 - ahead.length

inductive Request where
  | expression (least : Precedence)
  | program

namespace Request

def call : Request → Call
  | expression least => .expression least
  | program => .program

end Request

namespace Reader

def after (reader : Reader) : Request → Reader
  | .expression least => (reader.expression least).2
  | .program => reader.program.2

def answer (reader : Reader) : (request : Request) → Option request.call.Result
  | .expression least => (reader.expression least).1
  | .program => some reader.program.1

def begin (reader : Reader) (request : Request) : Moment request.call :=
  ⟨.run request.call.script .finish, reader.ahead, reader.reports⟩

def finished (reader : Reader) (request : Request) : Moment request.call :=
  ⟨.back (reader.answer request) .finish, (reader.after request).ahead,
    (reader.after request).reports⟩

/-- A reader answers with the outcome of the rule that it was asked for. -/
theorem serves (reader : Reader) (request : Request) : ∃ outcome,
    request.call.rule (callDepth reader.ahead.length) reader.endMark reader.ahead = some outcome ∧
      reader.answer request = outcome.result ∧
      reader.after request =
        ⟨reader.endMark, outcome.ahead, reader.reports ++ outcome.reports⟩ := by
  cases request with
  | expression least =>
      obtain ⟨outcome, terminates⟩ := expression_terminates least reader.endMark reader.ahead
      have ran := terminates _ (Nat.le_refl _)
      refine ⟨outcome, ran, ?_, ?_⟩
      · simp only [answer, expression, apply, ran]
        rfl
      · simp only [after, expression, apply, ran]
  | program =>
      obtain ⟨statements, reports, stop, _, terminates⟩ :=
        program_terminates reader.endMark reader.ahead
      have ran := terminates _ (Nat.le_refl _)
      refine ⟨_, ran, ?_, ?_⟩
      · simp only [answer, program, apply, ran, Option.getD_some]
        rfl
      · simp only [after, program, apply, ran]

theorem request_accounts (request : Request) (depth : Nat) :
    Accountable (request.call.rule depth) := by
  cases request with
  | expression least => exact (rules_account depth).expression least
  | program => exact program_accounts depth

section After

variable (reader : Reader) (request : Request)

theorem end_mark_after : (reader.after request).endMark = reader.endMark := by
  obtain ⟨outcome, _, _, same⟩ := reader.serves request
  rw [same]

theorem ahead_after : (reader.after request).ahead <:+ reader.ahead := by
  obtain ⟨outcome, ran, _, same⟩ := reader.serves request
  rw [same]
  exact (request_accounts request _ _ _ _ ran).1

/-- Steps lead from the moment at which a reader starts on a request to the one at which it has
answered. -/
theorem reaches_finished :
    Moment.Reaches reader.endMark (reader.begin request) (reader.finished request) := by
  obtain ⟨outcome, ran, answered, same⟩ := reader.serves request
  rw [begin, finished, answered, same]
  exact Moment.reaches_outcome ran

/-- A request that fails has been reported on. -/
theorem reports_after_failure (fails : reader.answer request = none) :
    ∃ made, made ≠ [] ∧ (reader.after request).reports = reader.reports ++ made := by
  obtain ⟨outcome, ran, answered, same⟩ := reader.serves request
  rw [same]
  exact ⟨outcome.reports, (request_accounts request _ _ _ _ ran).2 (answered ▸ fails), rfl⟩

theorem begin_placed {origin : List Token} (within : reader.ahead <:+ origin) :
    (reader.begin request).Placed reader.endMark origin :=
  ⟨within, script_placed request.call within, trivial⟩

/-- Where no end mark is among the tokens ahead, a program is read to their end. -/
theorem ahead_after_program (inside : ∀ token ∈ reader.ahead, token.kind ≠ .endMark) :
    (reader.after .program).ahead = [] := by
  obtain ⟨outcome, ran, _, same⟩ := reader.serves .program
  rw [same]
  exact program_reads_all inside ran

/-- At the end there is no statement left to read. -/
theorem program_at_end (nothing : reader.ahead = []) : reader.program = ([], reader) := by
  obtain ⟨mark, ahead, reports⟩ := reader
  obtain rfl : ahead = [] := nothing
  have ended : ([].headD mark.token).kind = .endMark := rfl
  simp [program, apply, callDepth, program_end 3 ended]

end After

section Requests

variable (reader : Reader) (requests : List Request)

theorem end_mark_after_all : (requests.foldl after reader).endMark = reader.endMark := by
  induction requests generalizing reader with
  | nil => rfl
  | cons request requests induction =>
      rw [List.foldl_cons, induction, end_mark_after]

theorem ahead_after_all : (requests.foldl after reader).ahead <:+ reader.ahead := by
  induction requests generalizing reader with
  | nil => exact List.suffix_refl _
  | cons request requests induction =>
      exact (induction _).trans (ahead_after reader request)

/-- Once a program has been read to the end, nothing is ahead any more. -/
theorem ahead_after_programs (inside : ∀ token ∈ reader.ahead, token.kind ≠ .endMark)
    (asked : .program ∈ requests) : (requests.foldl after reader).ahead = [] := by
  induction requests generalizing reader with
  | nil => cases asked
  | cons request requests induction =>
      rcases List.mem_cons.mp asked with rfl | later
      · have within := ahead_after_all (reader.after .program) requests
        rw [ahead_after_program reader inside] at within
        exact List.suffix_nil.mp within
      · exact induction _ (fun token member =>
          inside token ((ahead_after reader request).subset member)) later

end Requests

end Reader

section Places

variable (tokens : List Token)

/-- A reader is made for the tokens up to the end mark that comes last. -/
theorem ended_eq : Token.ended tokens =
    (Reader.ofTokens tokens).ahead ++ [(Reader.ofTokens tokens).endMark.token] := by
  rw [Token.ended, Reader.ofTokens]
  cases last : tokens.getLast? with
  | none => rfl
  | some token =>
      by_cases ended : token.kind = .endMark
      · have isLast : (⟨.endMark, token.slice, token.span⟩ : Token) = token := by rw [← ended]
        simp only [if_pos ended, EndMark.token, isLast]
        exact (List.dropLast_append_getLast? token last).symm
      · simp only [if_neg ended]
        rfl

variable {tokens} {ahead stop : List Token}

theorem cursor_mono (within : stop <:+ ahead) : cursor tokens ahead ≤ cursor tokens stop :=
  Nat.sub_le_sub_left within.length_le _

/-- Tokens that are ahead stand at the cursor, with the end mark behind them. -/
theorem drop_cursor (within : ahead <:+ (Reader.ofTokens tokens).ahead) :
    cursor tokens ahead < (Token.ended tokens).length ∧
      (Token.ended tokens).drop (cursor tokens ahead) =
        ahead ++ [(Reader.ofTokens tokens).endMark.token] := by
  obtain ⟨passed, same⟩ := within
  have counted : cursor tokens ahead = passed.length := by
    rw [cursor, ended_eq, ← same]
    simp only [List.length_append, List.length_singleton]
    omega
  rw [counted, ended_eq, ← same, List.append_assoc]
  exact ⟨by simp, List.drop_left⟩

end Places

/-- Reading keeps its place at this moment: the cursor is a place among the tokens, where those
ahead stand with the end mark behind them; no step from here moves it back or takes a report away;
and if recovery begins, then it looks back on tokens from a place that is no further on. -/
structure Grammar.Moment.KeepsPlace {first : Call} (tokens : List Token) (mark : EndMark)
    (moment : Moment first) : Prop where
  valid : cursor tokens moment.ahead < (Token.ended tokens).length
  here : (Token.ended tokens).drop (cursor tokens moment.ahead) = moment.ahead ++ [mark.token]
  onward : ∀ later, moment.step mark = some later →
    cursor tokens moment.ahead ≤ cursor tokens later.ahead
  reports : ∀ later, moment.step mark = some later → moment.reports <+: later.reports
  recovery : ∀ call start next (pending : Pending first call),
    moment.control = .run (.recover start next) pending →
      cursor tokens start ≤ cursor tokens moment.ahead ∧
        (Token.ended tokens).drop (cursor tokens start) = start ++ [mark.token]

theorem placed_keeps_place {first : Call} {tokens : List Token} {moment : Moment first}
    (placed : moment.Placed (Reader.ofTokens tokens).endMark (Reader.ofTokens tokens).ahead) :
    moment.KeepsPlace tokens (Reader.ofTokens tokens).endMark where
  valid := (drop_cursor placed.within).1
  here := (drop_cursor placed.within).2
  onward later stepped := cursor_mono (step_placed placed stepped).2.1
  reports later stepped := (step_placed placed stepped).2.2
  recovery call start next pending recovers := by
    have inPlace := placed.control
    rw [recovers] at inPlace
    obtain ⟨⟨behind, within, _⟩, _⟩ := inPlace
    exact ⟨cursor_mono behind, (drop_cursor within).2⟩

/-- Whatever tokens a reader is made for, and whatever it was asked for before, in whatever order:
the last of its tokens is the end mark, and while it reads for the next request, up to its answer,
it keeps its place at every moment. It gives no expression only after a new report. And once it has
read a program from tokens without an end mark among them, it reads the empty program from then on
and reports nothing. -/
theorem reader_keeps_its_place (tokens : List Token) (requests : List Request) :
    let reader := requests.foldl Reader.after (Reader.ofTokens tokens)
    (Token.ended tokens).getLast? = some reader.endMark.token ∧
    (∀ request, Moment.Reaches reader.endMark (reader.begin request) (reader.finished request) ∧
      ∀ moment, Moment.Reaches reader.endMark (reader.begin request) moment →
        moment.KeepsPlace tokens reader.endMark) ∧
    (∀ least, (reader.expression least).1 = none →
      ∃ made, made ≠ [] ∧ (reader.expression least).2.reports = reader.reports ++ made) ∧
    ((∀ token ∈ (Token.ended tokens).dropLast, token.kind ≠ .endMark) → .program ∈ requests →
      reader.program = ([], reader)) := by
  intro reader
  have sameMark : reader.endMark = (Reader.ofTokens tokens).endMark :=
    Reader.end_mark_after_all _ requests
  have within : reader.ahead <:+ (Reader.ofTokens tokens).ahead :=
    Reader.ahead_after_all _ requests
  refine ⟨?_, fun request => ⟨reader.reaches_finished request, fun moment reaches => ?_⟩,
    fun least fails => reader.reports_after_failure (.expression least) fails,
    fun inside asked => ?_⟩
  · rw [sameMark, ended_eq, List.getLast?_concat]
  · have placed := reaches_placed (reader.begin_placed request within) reaches
    rw [sameMark] at placed ⊢
    exact placed_keeps_place placed
  · rw [ended_eq, List.dropLast_concat] at inside
    exact reader.program_at_end (Reader.ahead_after_programs _ requests inside asked)

/-- The word `return` alone is no expression, and recovery from it as a statement begins on the end
mark, one place behind the start of the statement. A second program is empty. -/
theorem return_alone_keeps_its_place :
    let tokens : List Token := [⟨.returnWord, "return", ⟨0, 6⟩⟩]
    let reader := (Reader.ofTokens tokens).after (.expression .lowest)
    let later := reader.after .program
    (∃ moment, Moment.Reaches reader.endMark (reader.begin .program) moment ∧
      moment.KeepsPlace tokens reader.endMark ∧ cursor tokens moment.ahead = 1 ∧
      ∃ (call : Call) (start : List Token) (next : Bool → Script call.Result)
        (pending : Pending .program call), moment.control = .run (.recover start next) pending ∧
          cursor tokens start = 0) ∧
    (∃ made, made ≠ [] ∧ reader.reports = made) ∧ later.program = ([], later) := by
  intro tokens reader later
  have recovers : ∃ (call : Call) (start : List Token) (next : Bool → Script call.Result)
      (pending : Pending .program call) (ahead : List Token) (reports : List Report),
      (reader.begin .program).steps reader.endMark 12 =
        some ⟨.run (.recover start next) pending, ahead, reports⟩ ∧
      cursor tokens ahead = 1 ∧ cursor tokens start = 0 := ⟨_, _, _, _, _, _, rfl, rfl, rfl⟩
  obtain ⟨call, start, next, pending, ahead, reports, ran, here, began⟩ := recovers
  have reaches := Moment.reaches_of_steps ran
  obtain ⟨_, keeps, _, _⟩ := reader_keeps_its_place tokens [.expression .lowest]
  obtain ⟨_, _, fails, _⟩ := reader_keeps_its_place tokens []
  obtain ⟨_, _, _, empty⟩ := reader_keeps_its_place tokens [.expression .lowest, .program]
  refine ⟨⟨_, reaches, (keeps .program).2 _ reaches, here, call, start, next, pending, rfl, began⟩,
    fails .lowest rfl, ?_⟩
  exact empty (by decide) (by simp)

end Scriptlet
