import Scriptlet.Proofs.Grammar.Reported
import Scriptlet.Proofs.Token.Tokenization

/-!
Reports in the order of the source. What a report says is the case for the token that it is about,
and the reports of a whole list of tokens are about one token after the other, so the tokens that
they carry start one after the other in the source.
-/

namespace Scriptlet

open Rule Grammar Token

/-- The token that an error shows; of a numeral it shows the text only. -/
def SyntaxError.token? : SyntaxError → Option Token
  | .unexpected _ found => some found
  | .noRule token => some token
  | .badInteger _ => none

theorem SyntaxError.TrueOf.shown {error : SyntaxError} {token found : Token}
    (isTrue : error.TrueOf token) (shows : error.token? = some found) : token = found := by
  cases error with
  | unexpected | noRule => exact isTrue.1.symm.trans (Option.some.inj shows)
  | badInteger => cases shows

/-- The tokens of a source start one after the other, and the end mark behind all of them. -/
theorem scan_in_order (source : String) : ∃ tokens stop,
    Token.scan source = tokens ++ [endAt stop] ∧ (tokens ++ [endAt stop]).Pairwise
      fun earlier later => earlier.span.start ≤ later.span.start := by
  obtain ⟨tokens, scans⟩ := scans_whole 0 source.toList
  have cut := tokenization_of_scans scans
  refine ⟨tokens, 0 + byteSize source.toList, by rw [Token.scan, scan_of_scans scans, scanFrom], ?_⟩
  refine List.pairwise_append.mpr ⟨?_, List.pairwise_singleton _ _, ?_⟩
  · refine cut.apart.imp_of_mem fun member _ apart => ?_
    exact Nat.le_trans (Nat.le_of_lt (cut.nonempty _ member)) apart
  · intro token member ended isLast
    obtain rfl := List.mem_singleton.mp isLast
    obtain ⟨before, behind, whole, start, _⟩ := cut.stands token member
    rw [start, whole, byte_size_append, byte_size_append, endAt]
    dsimp only
    omega

section Ended

variable {tokens : List Token} {ended : Token}

theorem ended_reports_orderly (tokens : List Token) (isMark : ended.kind = .endMark) :
    ∃ outcome : Outcome Program, (readTokens (tokens ++ [ended])).2 = outcome.reports ∧
      outcome.Orderly ⟨ended.slice, ended.span⟩ tokens := by
  obtain ⟨outcome, read, orderly⟩ := reports_orderly (tokens ++ [ended])
  rw [Reader.of_tokens_ended tokens ended isMark] at orderly
  exact ⟨outcome, by rw [read], orderly⟩

theorem report_true_of_token (isMark : ended.kind = .endMark) {report : Report}
    (isTrue : report.TrueIn ⟨ended.slice, ended.span⟩ tokens) :
    report.remaining ≤ tokens.length ∧
      ∃ token, (tokens ++ [ended])[tokens.length - report.remaining]? = some token ∧
        report.error.TrueOf token := by
  have same : (⟨ended.slice, ended.span⟩ : EndMark).token = ended := by
    rw [EndMark.token, ← isMark]
  have token := token_of_stands isTrue
  rw [same] at token
  exact ⟨stands_le isTrue, token⟩

/-- Reports in order show tokens in order. -/
theorem shown_in_order (isMark : ended.kind = .endMark)
    (inOrder : (tokens ++ [ended]).Pairwise fun earlier later =>
      earlier.span.start ≤ later.span.start) :
    ((readTokens (tokens ++ [ended])).2.filterMap fun report => report.error.token?).Pairwise
      fun earlier later => earlier.span.start ≤ later.span.start := by
  obtain ⟨outcome, read, orderly⟩ := ended_reports_orderly tokens isMark
  rw [read, List.pairwise_filterMap]
  refine orderly.sorted.imp_of_mem fun {earlier later} member member' sorted => ?_
  intro token shows token' shows'
  obtain ⟨_, _, place, isTrue⟩ := report_true_of_token isMark (orderly.truthful earlier member)
  obtain ⟨_, _, place', isTrue'⟩ := report_true_of_token isMark (orderly.truthful later member')
  obtain rfl := isTrue.shown shows
  obtain rfl := isTrue'.shown shows'
  rcases Nat.lt_or_eq_of_le (Nat.sub_le_sub_left sorted tokens.length) with before | same
  · obtain ⟨inside, rfl⟩ := List.getElem?_eq_some_iff.mp place
    obtain ⟨inside', rfl⟩ := List.getElem?_eq_some_iff.mp place'
    exact List.pairwise_iff_getElem.mp inOrder _ _ inside inside' before
  · rw [same, place'] at place
    obtain rfl := Option.some.inj place
    exact Nat.le_refl _

end Ended

/-- The reports on a list of tokens are about one token after the other, and each is right about its
token: that one is not of the kind that is expected, or starts no expression, or is a numeral that
does not fit. The tokens that are shown in reports on a source therefore start one after the other.
-/
theorem reports_are_true_and_in_order :
    (∀ (tokens : List Token) (ended : Token), ended.kind = .endMark →
      ((readTokens (tokens ++ [ended])).2.Pairwise
        fun earlier later => later.remaining ≤ earlier.remaining) ∧
      ∀ report ∈ (readTokens (tokens ++ [ended])).2, report.remaining ≤ tokens.length ∧
        ∃ token, (tokens ++ [ended])[tokens.length - report.remaining]? = some token ∧
          report.error.TrueOf token) ∧
    ∀ source : String, ((readSource source).2.filterMap fun report => report.error.token?).Pairwise
      fun earlier later => earlier.span.start ≤ later.span.start := by
  refine ⟨fun tokens ended isMark => ?_, fun source => ?_⟩
  · obtain ⟨outcome, read, orderly⟩ := ended_reports_orderly tokens isMark
    rw [read]
    exact ⟨orderly.sorted, fun report member =>
      report_true_of_token isMark (orderly.truthful report member)⟩
  · obtain ⟨tokens, stop, scanned, inOrder⟩ := scan_in_order source
    rw [readSource, scanned]
    exact shown_in_order rfl inOrder

def danglingLet : List Token :=
  [⟨.fnWord, "fn", ⟨0, 2⟩⟩, ⟨.leftParen, "(", ⟨2, 3⟩⟩, ⟨.rightParen, ")", ⟨3, 4⟩⟩,
    ⟨.leftBrace, "\x7b", ⟨5, 6⟩⟩, ⟨.letWord, "let", ⟨7, 10⟩⟩]

/-- The end is reported twice, since it is no name and then no brace. -/
theorem end_is_reported_twice :
    let ended : Token := ⟨.endMark, "", ⟨10, 10⟩⟩
    ∃ first second, (readTokens (danglingLet ++ [ended])).2 = [first, second] ∧
      second.remaining ≤ first.remaining ∧ first.error.TrueOf ended ∧
      second.error.TrueOf ended := by
  intro ended
  have read : (readTokens (danglingLet ++ [ended])).2 =
      [⟨.unexpected .identifier ended, 0⟩, ⟨.unexpected .rightBrace ended, 0⟩] := by
    decide +kernel
  obtain ⟨sorted, isTrue⟩ := reports_are_true_and_in_order.1 danglingLet ended rfl
  rw [read] at sorted isTrue
  obtain ⟨_, _, here, first⟩ := isTrue _ List.mem_cons_self
  obtain ⟨_, _, there, second⟩ := isTrue _ (List.mem_cons_of_mem _ List.mem_cons_self)
  obtain rfl := Option.some.inj here
  obtain rfl := Option.some.inj there
  have ordered := List.rel_of_pairwise_cons sorted List.mem_cons_self
  exact ⟨_, _, read, ordered, first, second⟩

end Scriptlet
