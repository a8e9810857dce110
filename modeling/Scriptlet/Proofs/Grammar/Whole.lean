import Scriptlet.Proofs.Grammar.Outcome
import Scriptlet.Proofs.Grammar.Sequence
import Scriptlet.Proofs.Grammar.Terrain

/-!
Reading a whole list of tokens. It never fails as a whole, and what is read depends on the tokens
ahead and on the end mark alone, not on the depth that is granted.
-/

namespace Scriptlet

open Rule Grammar

def readFrom (mark : EndMark) (ahead : List Token) : Program × List SyntaxError :=
  let (program, reader) := Reader.program ⟨mark, ahead, []⟩
  (program, reader.errors)

theorem program_succeeds (depth : Nat) {mark : EndMark} {ahead : List Token}
    {outcome : Outcome Program} (ran : program depth mark ahead = some outcome) :
    ∃ statements, outcome.result = some statements := by
  induction depth generalizing ahead outcome with
  | zero => cases ran
  | succ depth induction =>
      by_cases ended : (ahead.headD mark.token).kind = .endMark
      · rw [program_end depth ended] at ran
        cases ran
        exact ⟨[], rfl⟩
      · rw [program_step depth ended] at ran
        obtain ⟨read, later, _, ranLater, rfl⟩ := runs_of_step ran
        obtain ⟨statements, result⟩ := induction ranLater
        exact ⟨_, by rw [precede, result, Option.map_some]⟩

theorem read_from_of_outcome {depth : Nat} {mark : EndMark} {ahead : List Token}
    {outcome : Outcome Program} (ran : program depth mark ahead = some outcome) :
    outcome.result = some (readFrom mark ahead).1 ∧
      outcome.reports.map Report.error = (readFrom mark ahead).2 := by
  obtain ⟨statements, result⟩ := program_succeeds depth ran
  have granted := program_at_call_depth ran
  simp only [readFrom, Reader.program, Reader.apply, granted, result, Reader.errors,
    List.nil_append, Option.getD_some, and_self]

theorem reads_from (mark : EndMark) (ahead : List Token) : ∃ rest, Always program mark ahead
    (some (readFrom mark ahead).1) (readFrom mark ahead).2 rest := by
  obtain ⟨outcome, answered⟩ := program_answers _ mark ahead (Nat.le_refl _)
  refine ⟨outcome.ahead, fun depth other ran => ?_⟩
  obtain ⟨sameResult, sameErrors⟩ := read_from_of_outcome ran
  refine ⟨sameResult, sameErrors, ?_⟩
  have granted := program_at_call_depth ran
  rw [program_at_call_depth answered] at granted
  rw [Option.some.inj granted]

/-- What all outcomes agree on is what is read. -/
theorem read_from_of_always {mark : EndMark} {ahead rest : List Token} {statements : Program}
    {errors : List SyntaxError} (always : Always program mark ahead (some statements) errors rest) :
    readFrom mark ahead = (statements, errors) := by
  obtain ⟨outcome, answered⟩ := program_answers _ mark ahead (Nat.le_refl _)
  obtain ⟨result, sameErrors, _⟩ := always _ outcome answered
  obtain ⟨result', sameErrors'⟩ := read_from_of_outcome answered
  rw [result] at result'
  rw [sameErrors] at sameErrors'
  exact Prod.ext (Option.some.inj result').symm sameErrors'.symm

theorem read_from_end (mark : EndMark) : readFrom mark [] = ([], []) := by
  have ended : Always program mark [] (some []) [] [] := by
    intro depth outcome ran
    cases depth with
    | zero => cases ran
    | succ depth =>
        rw [program_end depth rfl] at ran
        cases ran
        exact ⟨rfl, rfl, rfl⟩
  exact read_from_of_always ended

namespace Reader

/-- The end mark of a list is that of its last part. -/
theorem of_tokens_append (front : List Token) {tokens : List Token} (more : tokens ≠ []) :
    ofTokens (front ++ tokens) =
      ⟨(ofTokens tokens).endMark, front ++ (ofTokens tokens).ahead, []⟩ := by
  have last : (front ++ tokens).getLast? = tokens.getLast? := by
    rw [List.getLast?_append, List.getLast?_eq_some_getLast more]
    rfl
  rw [ofTokens, last, ofTokens, List.getLast?_eq_some_getLast more]
  dsimp only
  split
  · rw [List.dropLast_append_of_ne_nil more]
  · rfl

/-- A first token that is no end mark is ahead, whatever stands behind it. -/
theorem of_tokens_cons {token : Token} (inside : token.kind ≠ .endMark) (behind : List Token) :
    ∃ rest, (ofTokens (token :: behind)).ahead = token :: rest := by
  cases behind with
  | nil => exact ⟨[], by simp [ofTokens, inside]⟩
  | cons next behind =>
      have appended := of_tokens_append [token] (List.cons_ne_nil next behind)
      rw [List.singleton_append] at appended
      exact ⟨_, by rw [appended, List.singleton_append]⟩

end Reader

theorem read_tokens_eq (tokens : List Token) :
    ((readTokens tokens).1, (readTokens tokens).2.map Report.error) =
      readFrom (Reader.ofTokens tokens).endMark (Reader.ofTokens tokens).ahead := by
  have fresh := Reader.of_tokens_fresh tokens
  have same : (⟨(Reader.ofTokens tokens).endMark, (Reader.ofTokens tokens).ahead, []⟩ : Reader) =
      Reader.ofTokens tokens := by
    rw [← fresh]
  rw [readFrom, same]
  rfl

end Scriptlet
