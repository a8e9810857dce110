import Scriptlet.Proofs.Grammar.Completeness
import Scriptlet.Proofs.Grammar.Lookahead
import Scriptlet.Proofs.Grammar.Viability

/-!
The first report is about the first token that cannot stand where it stands. The tokens before it
are the front of a list that is read without a report, and every list that has this token behind
them gets the same error there.
-/

namespace Scriptlet

open Rule Grammar

/-- A list of tokens is what a reader of it has ahead, with an end mark behind it at most. -/
theorem of_tokens_view (tokens : List Token) : tokens <+:
    (Reader.ofTokens tokens).ahead ++ [(Reader.ofTokens tokens).endMark.token] := by
  rcases List.eq_nil_or_concat tokens with rfl | ⟨front, last, rfl⟩
  · exact List.nil_prefix
  · by_cases isMark : last.kind = .endMark
    · have same : (⟨last.slice, last.span⟩ : EndMark).token = last := by
        rw [EndMark.token, ← isMark]
      refine ⟨[], ?_⟩
      rw [List.append_nil, List.concat_eq_append, Reader.of_tokens_ended front last isMark, same]
    · simp [Reader.ofTokens, isMark]

section FirstError

variable {tokens : List Token} {mark : EndMark} {report : Report} {outcome : Outcome Program}
  {depth : Nat}

theorem concerned_token (concerns : report.Concerns mark tokens) :
    ∃ token, (tokens ++ [mark.token])[tokens.length - report.remaining]? = some token ∧
      report.error.Names token := token_of_stands concerns

/-- The tokens before the one that the first report is about can be completed. -/
theorem front_is_accepted (ended : Token) (isMark : ended.kind = .endMark)
    (faults : Faults (program depth) mark tokens report.remaining) :
    ∃ completion, (∀ token ∈ completion, token.kind ≠ .endMark) ∧ (readTokens
      (tokens.take (tokens.length - report.remaining) ++ completion ++ [ended])).2 = [] := by
  obtain ⟨passed, behind, completion, rfl, here, statements, spelled⟩ :=
    program_advances depth faults
  have place : (passed ++ behind).length - report.remaining = passed.length := by
    rw [List.length_append]
    omega
  refine ⟨completion, fun token member => ?_, ?_⟩
  · exact spells_inside spelled token (List.mem_append_right passed member)
  · rw [place, List.take_left, read_of_spells spelled isMark]

/-- What begins with the same tokens up to the one that the first report is about is read with the
same first error. -/
theorem same_first_error {otherMark : EndMark} {other : List Token} {otherOutcome : Outcome Program}
    (ran : program depth mark tokens = some outcome) (isFirst : report ∈ outcome.reports.head?)
    (ranOther : program depth otherMark other = some otherOutcome)
    (alike : Alike ((tokens ++ [mark.token]).take (tokens.length - report.remaining + 1)) mark
      tokens otherMark other) :
    otherOutcome.reports.head?.map Report.error = some report.error := by
  have sighted := program_sighted depth
  have bounded := remaining_le (sighted.concerns trivial ran isFirst)
  simp only [Footing.field] at bounded
  cases sighted.together trivial alike ran ranOther with
  | same silent =>
      rw [silent] at isFirst
      cases isFirst
  | fault isReport isOther sameError =>
      cases Option.some.inj (isFirst.symm.trans isReport)
      rw [isOther, Option.map_some, sameError]
  | lost lost =>
      have beyond := lost.1 report isFirst
      simp only [List.length_take, List.length_append, List.length_cons, List.length_nil] at beyond
      omega

end FirstError

/-- The first report is about a token of the list, or about its end mark, that cannot stand there:
the tokens before it can be completed to a list that is read without a report, and every list that
goes on with this token is read with the same first error. -/
theorem first_error_is_at_first_impossible_token {tokens : List Token} {ended : Token}
    {report : Report} {more : List Report} (isMark : ended.kind = .endMark)
    (reported : (readTokens (tokens ++ [ended])).2 = report :: more) :
    report.remaining ≤ tokens.length ∧
    (∃ token, (tokens ++ [ended])[tokens.length - report.remaining]? = some token ∧
      report.error.Names token) ∧
    (∃ completion, (∀ token ∈ completion, token.kind ≠ .endMark) ∧ (readTokens
      (tokens.take (tokens.length - report.remaining) ++ completion ++ [ended])).2 = []) ∧
    ∀ others, (tokens ++ [ended]).take (tokens.length - report.remaining + 1) <+: others →
      (readTokens others).2.head?.map Report.error = some report.error := by
  have same : (⟨ended.slice, ended.span⟩ : EndMark).token = ended := by
    rw [EndMark.token, ← isMark]
  obtain ⟨outcome, answered⟩ :=
    program_answers _ ⟨ended.slice, ended.span⟩ tokens (Nat.le_refl _)
  have ofEnded := Reader.of_tokens_ended tokens ended isMark
  have read := @Reader.read_tokens_of_outcome (tokens ++ [ended]) _ _
    (by rw [ofEnded]; exact answered)
  have reported : outcome.reports = report :: more := by
    rw [read] at reported
    exact reported
  have isFirst : report ∈ outcome.reports.head? := by
    rw [reported]
    rfl
  have concerns := (program_sighted _).concerns trivial answered isFirst
  have token := concerned_token concerns
  rw [same] at token
  refine ⟨remaining_le concerns, token, ?_, fun others begins => ?_⟩
  · exact front_is_accepted ended isMark ⟨outcome, report, answered, isFirst, rfl⟩
  · obtain ⟨otherOutcome, otherAnswered⟩ := program_answers _ (Reader.ofTokens others).endMark
      (Reader.ofTokens others).ahead (Nat.le_refl _)
    rw [Reader.read_tokens_of_outcome otherAnswered]
    have alike : Alike ((tokens ++ [ended]).take (tokens.length - report.remaining + 1))
        ⟨ended.slice, ended.span⟩ tokens (Reader.ofTokens others).endMark
        (Reader.ofTokens others).ahead := by
      refine ⟨?_, begins.trans (of_tokens_view others)⟩
      rw [same]
      exact List.take_prefix _ _
    rw [← same] at alike
    exact same_first_error
      (program_extends (Nat.le_max_left _ _) _ _ _ answered) isFirst
      (program_extends (Nat.le_max_right _ _) _ _ _ otherAnswered) alike

/-- A let that goes without its equals sign fails at the value: `let x` can be completed, and
whatever goes on from `let x 5` has this error. -/
theorem missing_equal_sign_is_first_error :
    (readTokens ([⟨.letWord, "let", ⟨0, 3⟩⟩, ⟨.identifier, "x", ⟨4, 5⟩⟩,
      ⟨.integer, "5", ⟨6, 7⟩⟩, ⟨.semicolon, ";", ⟨7, 8⟩⟩] ++ [⟨.endMark, "", ⟨8, 8⟩⟩])).2 =
        [⟨.unexpected .equal ⟨.integer, "5", ⟨6, 7⟩⟩, 2⟩] ∧
    (∃ completion, (∀ token ∈ completion, token.kind ≠ .endMark) ∧
      (readTokens ([⟨.letWord, "let", ⟨0, 3⟩⟩, ⟨.identifier, "x", ⟨4, 5⟩⟩] ++ completion ++
        [⟨.endMark, "", ⟨8, 8⟩⟩])).2 = []) ∧
    ∀ others, [⟨.letWord, "let", ⟨0, 3⟩⟩, ⟨.identifier, "x", ⟨4, 5⟩⟩,
      ⟨.integer, "5", ⟨6, 7⟩⟩] <+: others →
      (readTokens others).2.head?.map Report.error =
        some (.unexpected .equal ⟨.integer, "5", ⟨6, 7⟩⟩) := by
  have reported : (readTokens ([⟨.letWord, "let", ⟨0, 3⟩⟩, ⟨.identifier, "x", ⟨4, 5⟩⟩,
      ⟨.integer, "5", ⟨6, 7⟩⟩, ⟨.semicolon, ";", ⟨7, 8⟩⟩] ++ [⟨.endMark, "", ⟨8, 8⟩⟩])).2 =
      [⟨.unexpected .equal ⟨.integer, "5", ⟨6, 7⟩⟩, 2⟩] := rfl
  obtain ⟨_, _, accepted, alike⟩ := first_error_is_at_first_impossible_token rfl reported
  exact ⟨reported, accepted, alike⟩

end Scriptlet
