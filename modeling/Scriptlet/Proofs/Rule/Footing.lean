import Mathlib.Data.List.Basic
import Scriptlet.Proofs.Rule.Run

/-!
How far a rule has looked when it makes its first report. A rule starts on a footing: it has seen
nothing of what is ahead, or the current token, or it has used the current token and perhaps seen
the next one. Up to its first report a sighted rule looks at no token behind the one that the report
is about, so every other input that begins with the same tokens gives the same error there.
-/

namespace Scriptlet

/-- What has been seen of the tokens ahead where a rule starts. -/
inductive Footing where
  | fresh
  /-- The current token has been seen, and it is this one. -/
  | facing (token : Token)
  /-- The current token has been used. -/
  | used
  /-- The current token has been used, and the next one is this. -/
  | beside (token : Token)

namespace Footing

def Holds (mark : EndMark) (ahead : List Token) : Footing → Prop
  | fresh => True
  | facing token => ahead.headD mark.token = token
  | used => ahead ≠ []
  | beside token => ahead ≠ [] ∧ ahead.tail.headD mark.token = token

def field (ahead : List Token) : Footing → List Token
  | fresh | facing _ => ahead
  | used | beside _ => ahead.tail

end Footing

def SyntaxError.Names (token : Token) : SyntaxError → Prop
  | .unexpected _ found => found = token
  | .noRule found => found = token
  | .badInteger literal => token.slice = literal

def Phrase.expressionStarts : List TokenKind :=
  [.identifier, .integer, .trueWord, .falseWord, .leftParen, .ifWord, .fnWord, .bang, .minus]

/-- What the error says of this token is the case. -/
def SyntaxError.TrueOf (token : Token) : SyntaxError → Prop
  | .unexpected expected found => found = token ∧ token.kind ≠ expected
  | .noRule found => found = token ∧ token.kind ∉ Phrase.expressionStarts
  | .badInteger literal =>
      token.slice = literal ∧ token.kind = .integer ∧ Text.Decimal.read? literal = none

theorem SyntaxError.TrueOf.names {error : SyntaxError} {token : Token}
    (isTrue : error.TrueOf token) : error.Names token := by
  cases error <;> exact isTrue.1

/-- Among these tokens or at the end mark, so far in front of it, stands a token of which this
holds. -/
def Stands (mark : EndMark) (field : List Token) (remaining : Nat) (holds : Token → Prop) : Prop :=
  ∃ token behind, token :: behind <:+ field ++ [mark.token] ∧ behind.length = remaining ∧
    holds token

def Report.Concerns (mark : EndMark) (field : List Token) (report : Report) : Prop :=
  ∃ token behind, token :: behind <:+ field ++ [mark.token] ∧ behind.length = report.remaining ∧
    report.error.Names token

def Alike (known : List Token) (mark : EndMark) (ahead : List Token) (otherMark : EndMark)
    (other : List Token) : Prop :=
  known <+: ahead ++ [mark.token] ∧ known <+: other ++ [otherMark.token]

namespace Rule

variable {Result Next : Type}

def Lost (known ahead : List Token) (outcome : Outcome Result) : Prop :=
  (∀ report ∈ outcome.reports.head?, report.remaining + known.length ≤ ahead.length) ∧
    (outcome.reports = [] → outcome.ahead.tail.length + known.length ≤ ahead.length)

/-- How two runs of a rule compare that start alike. -/
inductive Together (known : List Token) (mark : EndMark) (ahead : List Token)
    (otherMark : EndMark) (outcome other : Outcome Result) : Prop where
  | same {result : Result} {rest otherRest later : List Token} :
      outcome = ⟨some result, [], rest⟩ → other = ⟨some result, [], otherRest⟩ →
      Alike later mark rest otherMark otherRest →
      known.length + rest.length ≤ later.length + ahead.length →
      Together known mark ahead otherMark outcome other
  | fault {report otherReport : Report} : report ∈ outcome.reports.head? →
      otherReport ∈ other.reports.head? → otherReport.error = report.error →
      Together known mark ahead otherMark outcome other
  | lost : Lost known ahead outcome → Together known mark ahead otherMark outcome other

/-- What the rule does up to its first report depends on the tokens up to the one that this report
is about. -/
structure Sighted (footing : Footing) (rule : Rule Result) : Prop where
  accountable : Accountable rule
  concerns {mark : EndMark} {ahead : List Token} {outcome : Outcome Result} {report : Report} :
    footing.Holds mark ahead → rule mark ahead = some outcome → report ∈ outcome.reports.head? →
    report.Concerns mark (footing.field ahead)
  together {known : List Token} {mark otherMark : EndMark} {ahead otherAhead : List Token}
    {outcome other : Outcome Result} : footing.Holds mark ahead →
    Alike known mark ahead otherMark otherAhead → rule mark ahead = some outcome →
    rule otherMark otherAhead = some other →
    Together known mark ahead otherMark outcome other

structure Steady (footing : Footing) (rule : Rule Result) : Prop extends Sighted footing rule where
  lands {mark : EndMark} {ahead rest : List Token} {result : Result} :
    footing.Holds mark ahead → Reads rule mark ahead result rest → rest ≠ []

section Inputs

variable {known : List Token} {mark otherMark : EndMark} {ahead other : List Token}
  {report : Report}

theorem head_of_known {first : Token} {more : List Token}
    (begins : first :: more <+: ahead ++ [mark.token]) : ahead.headD mark.token = first := by
  obtain ⟨behind, same⟩ := begins
  cases ahead with
  | nil => exact (List.cons.inj same).1.symm
  | cons token rest => exact (List.cons.inj same).1.symm

theorem alike_head (alike : Alike known mark ahead otherMark other) (some_ : known ≠ []) :
    other.headD otherMark.token = ahead.headD mark.token := by
  obtain ⟨first, more, rfl⟩ := List.exists_cons_of_ne_nil some_
  rw [head_of_known alike.1, head_of_known alike.2]

theorem known_tail {tokens : List Token} (some_ : ahead ≠ [] ∨ known.length ≤ 1)
    (begins : known <+: ahead ++ tokens) : known.tail <+: ahead.tail ++ tokens := by
  cases known with
  | nil => exact List.nil_prefix
  | cons first more =>
      cases ahead with
      | nil =>
          have short : more = [] := by
            rcases some_ with noToken | short
            · exact absurd rfl noToken
            · exact List.length_eq_zero_iff.mp (by simpa using short)
          rw [short]
          exact List.nil_prefix
      | cons token rest => exact (List.cons_prefix_cons.mp begins).2

/-- Two inputs that begin alike go on alike behind the first token. -/
theorem alike_tail (alike : Alike known mark ahead otherMark other) (more : ahead ≠ []) :
    Alike known.tail mark ahead.tail otherMark other.tail := by
  refine ⟨known_tail (Or.inl more) alike.1, known_tail ?_ alike.2⟩
  by_cases none : other = []
  · right
    have bounded := alike.2.length_le
    rw [none] at bounded
    exact bounded
  · exact Or.inl none

theorem suffix_tail {front back : List Token} (within : front <:+ back) :
    front.tail <:+ back.tail := by
  obtain ⟨before, rfl⟩ := within
  cases before with
  | nil => exact List.suffix_refl _
  | cons first before => exact (List.tail_suffix front).trans (List.suffix_append before front)

section Stands

variable {field wider : List Token} {remaining : Nat} {holds : Token → Prop}

theorem stands_of_suffix (stands : Stands mark field remaining holds) (within : field <:+ wider) :
    Stands mark wider remaining holds := by
  obtain ⟨token, behind, isSuffix, length, isSo⟩ := stands
  obtain ⟨front, rfl⟩ := within
  refine ⟨token, behind, isSuffix.trans ?_, length, isSo⟩
  rw [List.append_assoc]
  exact List.suffix_append front _

theorem stands_here (isSo : holds (ahead.headD mark.token)) :
    Stands mark ahead ahead.length holds := by
  cases ahead with
  | nil => exact ⟨mark.token, [], List.suffix_refl _, rfl, isSo⟩
  | cons token rest =>
      exact ⟨token, rest ++ [mark.token], List.suffix_refl _, by simp, isSo⟩

theorem stands_le (stands : Stands mark field remaining holds) : remaining ≤ field.length := by
  obtain ⟨token, behind, isSuffix, length, _⟩ := stands
  have bounded := isSuffix.length_le
  simp only [List.length_cons, List.length_append, List.length_nil] at bounded
  omega

theorem token_of_stands (stands : Stands mark field remaining holds) :
    ∃ token, (field ++ [mark.token])[field.length - remaining]? = some token ∧ holds token := by
  obtain ⟨token, behind, ⟨front, same⟩, here, isSo⟩ := stands
  refine ⟨token, ?_, isSo⟩
  have lengths := congrArg List.length same
  simp only [List.length_append, List.length_cons, List.length_nil] at lengths
  have place : field.length - remaining = front.length := by omega
  rw [place, ← same, List.getElem?_append_right (Nat.le_refl _), Nat.sub_self]
  rfl

end Stands

theorem concerns_of_suffix {field wider : List Token} (concerns : report.Concerns mark field)
    (within : field <:+ wider) : report.Concerns mark wider := stands_of_suffix concerns within

theorem concerns_here {error : SyntaxError} (names : error.Names (ahead.headD mark.token)) :
    Report.Concerns mark ahead ⟨error, ahead.length⟩ := stands_here names

theorem remaining_le {field : List Token} (concerns : report.Concerns mark field) :
    report.remaining ≤ field.length := stands_le concerns

end Inputs

section Together

variable {known later : List Token} {mark otherMark : EndMark}
  {ahead middle otherAhead : List Token} {outcome other : Outcome Result}

/-- Runs from further on compare as runs from the start. -/
theorem together_from_start (further : known.length + middle.length ≤ later.length + ahead.length)
    (together : Together later mark middle otherMark outcome other) :
    Together known mark ahead otherMark outcome other := by
  cases together with
  | same same otherSame alike counted => exact .same same otherSame alike (by omega)
  | fault isFirst isOther sameError => exact .fault isFirst isOther sameError
  | lost lost =>
      refine .lost ⟨fun report isFirst => ?_, fun silent => ?_⟩
      · have bounded := lost.1 report isFirst
        omega
      · have bounded := lost.2 silent
        omega

theorem tail_le_field (footing : Footing) (ahead : List Token) :
    ahead.tail.length ≤ (footing.field ahead).length := by
  cases footing <;> simp [Footing.field]

/-- A run is lost that starts behind all known tokens. -/
theorem lost_of_unknown (footing : Footing) {rule : Rule Result} (accountable : Accountable rule)
    (concerns : ∀ report ∈ outcome.reports.head?, report.Concerns mark (footing.field ahead))
    (unknown : (footing.field ahead).length + known.length ≤ ahead.length)
    (ran : rule mark ahead = some outcome) : Lost known ahead outcome := by
  constructor
  · intro report isFirst
    have bounded := remaining_le (concerns report isFirst)
    omega
  · intro _
    have shorter := (suffix_tail (accountable mark ahead outcome ran).1).length_le
    have bounded := tail_le_field footing ahead
    omega

/-- A run stays lost in what follows it, since that lies further on. -/
theorem lost_then {Whole : Type} {last : Outcome Next} {result : Option Whole}
    (lost : Lost known ahead outcome)
    (further : outcome.reports = [] →
      (∀ report ∈ last.reports.head?, report.remaining ≤ outcome.ahead.tail.length) ∧
        last.ahead.tail.length ≤ outcome.ahead.tail.length) :
    Lost known ahead ⟨result, outcome.reports ++ last.reports, last.ahead⟩ := by
  obtain ⟨_, reports, middle⟩ := outcome
  cases reports with
  | cons earlier more => exact ⟨lost.1, nofun⟩
  | nil =>
      obtain ⟨reported, shorter⟩ := further rfl
      have bounded := lost.2 rfl
      refine ⟨fun report isFirst => ?_, fun _ => ?_⟩
      · exact Nat.le_trans (Nat.add_le_add_right (reported report isFirst) _) bounded
      · exact Nat.le_trans (Nat.add_le_add_right shorter _) bounded

end Together

section Steady

variable {footing start : Footing} {rule : Rule Result} {next : Result → Rule Next}

theorem Steady.further {mark : EndMark} {ahead : List Token} {outcome : Outcome Result}
    (steady : Steady .used rule) (more : ahead ≠ []) (ran : rule mark ahead = some outcome) :
    (∀ report ∈ outcome.reports.head?, report.remaining ≤ ahead.tail.length) ∧
      outcome.ahead.tail.length ≤ ahead.tail.length :=
  ⟨fun _ isFirst => remaining_le (steady.concerns more ran isFirst),
    (suffix_tail (steady.accountable mark ahead outcome ran).1).length_le⟩

/-- What is steady on a weaker footing is so on a stronger one. -/
theorem steady_mono (steady : Steady start rule)
    (stronger : ∀ mark ahead, footing.Holds mark ahead →
      start.Holds mark ahead ∧ start.field ahead <:+ footing.field ahead) :
    Steady footing rule where
  accountable := steady.accountable
  lands holds := steady.lands (stronger _ _ holds).1
  concerns holds ran isFirst :=
    concerns_of_suffix (steady.concerns (stronger _ _ holds).1 ran isFirst) (stronger _ _ holds).2
  together holds := steady.together (stronger _ _ holds).1

theorem nonempty_of_facing {mark : EndMark} {ahead : List Token} {token : Token}
    (inside : token.kind ≠ .endMark) (isToken : ahead.headD mark.token = token) : ahead ≠ [] := by
  rintro rfl
  rw [← isToken] at inside
  exact inside rfl

theorem steady_of_fresh {token : Token} (steady : Steady .fresh rule) :
    Steady (.facing token) rule :=
  steady_mono steady fun _ ahead _ => ⟨trivial, List.suffix_refl ahead⟩

theorem steady_of_used {token : Token} (inside : token.kind ≠ .endMark)
    (steady : Steady .used rule) : Steady (.facing token) rule :=
  steady_mono steady fun _ ahead isToken =>
    ⟨nonempty_of_facing inside isToken, List.tail_suffix ahead⟩

theorem steady_beside {token : Token} (steady : Steady .used rule) :
    Steady (.beside token) rule :=
  steady_mono steady fun _ ahead holds => ⟨holds.1, List.suffix_refl ahead.tail⟩

theorem together_bind (first : Steady footing rule)
    (second : ∀ result, Steady .used (next result)) {known : List Token}
    {mark otherMark : EndMark} {ahead otherAhead : List Token} {outcome other : Outcome Next}
    (holds : footing.Holds mark ahead) (alike : Alike known mark ahead otherMark otherAhead)
    (ran : (rule >>= next) mark ahead = some outcome)
    (ranOther : (rule >>= next) otherMark otherAhead = some other) :
    Together known mark ahead otherMark outcome other := by
  rcases run_bind_cases ran with ⟨reports, rest, failed, rfl⟩ |
    ⟨result, reports, middle, final, ranFirst, ranSecond, rfl⟩
  · rcases run_bind_cases ranOther with ⟨otherReports, otherRest, otherFailed, rfl⟩ |
      ⟨otherResult, otherReports, otherMiddle, otherFinal, otherFirst, otherSecond, rfl⟩
    · cases first.together holds alike failed otherFailed with
      | same same => cases same
      | fault isFirst isOther sameError => exact .fault isFirst isOther sameError
      | lost lost => exact .lost lost
    · cases first.together holds alike failed otherFirst with
      | same same => cases same
      | fault isFirst isOther sameError =>
          exact .fault isFirst (List.mem_head?_append_of_mem_head? isOther) sameError
      | lost lost => exact .lost lost
  · have further (silent : reports = []) :=
      (second result).further (first.lands holds (silent ▸ ranFirst)) ranSecond
    rcases run_bind_cases ranOther with ⟨otherReports, otherRest, otherFailed, rfl⟩ |
      ⟨otherResult, otherReports, otherMiddle, otherFinal, otherFirst, otherSecond, rfl⟩
    · cases first.together holds alike ranFirst otherFailed with
      | same _ otherSame => cases otherSame
      | fault isFirst isOther sameError =>
          exact .fault (List.mem_head?_append_of_mem_head? isFirst) isOther sameError
      | lost lost => exact .lost (lost_then lost further)
    · cases first.together holds alike ranFirst otherFirst with
      | same same otherSame alikeLater counted =>
          cases same
          cases otherSame
          exact together_from_start counted
            ((second result).together (first.lands holds ranFirst) alikeLater ranSecond
              otherSecond)
      | fault isFirst isOther sameError =>
          exact .fault (List.mem_head?_append_of_mem_head? isFirst)
            (List.mem_head?_append_of_mem_head? isOther) sameError
      | lost lost => exact .lost (lost_then lost further)

theorem steady_bind (first : Steady footing rule) (second : ∀ result, Steady .used (next result)) :
    Steady footing (rule >>= next) where
  accountable := accountable_bind first.accountable fun result => (second result).accountable
  lands := by
    intro mark ahead rest final holds reads
    obtain ⟨result, middle, readsFirst, readsSecond⟩ := reads_bind.mp reads
    exact (second result).lands (first.lands holds readsFirst) readsSecond
  concerns := by
    intro mark ahead outcome report holds ran isFirst
    rcases run_bind_cases ran with ⟨reports, rest, failed, rfl⟩ |
      ⟨result, reports, middle, final, ranFirst, ranSecond, rfl⟩
    · exact first.concerns holds failed isFirst
    · cases reports with
      | cons earlier more => exact first.concerns holds ranFirst isFirst
      | nil =>
          have concerns := (second result).concerns (first.lands holds ranFirst) ranSecond isFirst
          refine concerns_of_suffix concerns ?_
          have within := (first.accountable mark ahead _ ranFirst).1
          cases footing with
          | fresh | facing => exact (List.tail_suffix middle).trans within
          | used | beside => exact suffix_tail within
  together := together_bind first second

/-- Looking at a token gives a better footing, if the token looked at is a known one. -/
theorem steady_look {next : Token → Rule Result} {look : EndMark → List Token → Token}
    (seen : Token → Footing)
    (looks : ∀ mark ahead, rule mark ahead = next (look mark ahead) mark ahead)
    (settles : ∀ mark ahead, footing.Holds mark ahead →
      (seen (look mark ahead)).Holds mark ahead ∧
        (seen (look mark ahead)).field ahead = footing.field ahead)
    (known : ∀ {known mark ahead otherMark other}, footing.Holds mark ahead →
      Alike known mark ahead otherMark other → look otherMark other = look mark ahead ∨
        (footing.field ahead).length + known.length ≤ ahead.length)
    (steady : ∀ token, Steady (seen token) (next token)) : Steady footing rule := by
  have accountable : Accountable rule := by
    intro mark ahead outcome ran
    rw [looks] at ran
    exact (steady _).accountable mark ahead outcome ran
  have concerns {mark : EndMark} {ahead : List Token} {outcome : Outcome Result} {report : Report}
      (holds : footing.Holds mark ahead) (ran : rule mark ahead = some outcome)
      (isFirst : report ∈ outcome.reports.head?) :
      report.Concerns mark (footing.field ahead) := by
    obtain ⟨settled, sameField⟩ := settles mark ahead holds
    rw [looks] at ran
    rw [← sameField]
    exact (steady _).concerns settled ran isFirst
  refine ⟨⟨accountable, concerns, fun holds alike ran ranOther => ?_⟩, fun holds reads => ?_⟩
  · rcases known holds alike with same | unknown
    · rw [looks] at ran ranOther
      rw [same] at ranOther
      exact (steady _).together (settles _ _ holds).1 alike ran ranOther
    · exact .lost (lost_of_unknown footing accountable
        (fun _ isFirst => concerns holds ran isFirst) unknown ran)
  · rw [Reads, looks] at reads
    exact (steady _).lands (settles _ _ holds).1 reads

theorem steady_current {next : Token → Rule Result}
    (steady : ∀ token, Steady (.facing token) (next token)) :
    Steady .fresh (current >>= next) := by
  refine steady_look .facing (fun mark ahead => run_current_bind mark ahead next)
    (fun _ _ _ => ⟨rfl, rfl⟩) (fun {known _ ahead _ _} _ alike => ?_) steady
  by_cases none : known = []
  · rw [none]
    exact Or.inr (Nat.le_refl _)
  · exact Or.inl (alike_head alike none)

/-- The token that was used can be looked at again. -/
theorem steady_current_used {next : Token → Rule Result}
    (steady : ∀ token, Steady .used (next token)) : Steady .used (current >>= next) := by
  refine steady_look (fun _ => .used) (fun mark ahead => run_current_bind mark ahead next)
    (fun _ _ holds => ⟨holds, rfl⟩) (fun {known _ ahead _ _} _ alike => ?_) steady
  by_cases none : known = []
  · rw [none]
    exact Or.inr (List.tail_sublist ahead).length_le
  · exact Or.inl (alike_head alike none)

theorem steady_peek {next : Token → Rule Result}
    (steady : ∀ token, Steady (.beside token) (next token)) : Steady .used (peek >>= next) := by
  refine steady_look .beside (fun mark ahead => run_peek_bind mark ahead next)
    (fun _ _ holds => ⟨⟨holds, rfl⟩, rfl⟩) (fun {known _ ahead _ _} holds alike => ?_) steady
  by_cases none : known.tail = []
  · right
    have positive := List.length_pos_iff.mpr holds
    have short := List.length_eq_zero_iff.mpr none
    simp only [Footing.field, List.length_tail] at short ⊢
    omega
  · exact Or.inl (alike_head (alike_tail alike holds) none)

/-- Going on to the next token. -/
theorem steady_step (start : Footing) {next : Unit → Rule Result}
    (moves : ∀ mark ahead, footing.Holds mark ahead → ahead ≠ [] ∧ start.Holds mark ahead.tail ∧
      start.field ahead.tail <:+ footing.field ahead) (steady : Steady start (next ())) :
    Steady footing (advance >>= next) where
  accountable := by
    intro mark ahead outcome ran
    rw [run_advance_bind] at ran
    obtain ⟨within, reported⟩ := steady.accountable mark ahead.tail outcome ran
    exact ⟨within.trans (List.tail_suffix ahead), reported⟩
  lands holds reads := steady.lands (moves _ _ holds).2.1 (reads_advance_bind.mp reads)
  concerns holds ran isFirst := by
    rw [run_advance_bind] at ran
    obtain ⟨_, settled, within⟩ := moves _ _ holds
    exact concerns_of_suffix (steady.concerns settled ran isFirst) within
  together := by
    intro known mark otherMark ahead otherAhead outcome other holds alike ran ranOther
    obtain ⟨more, settled, _⟩ := moves mark ahead holds
    rw [run_advance_bind] at ran ranOther
    refine together_from_start ?_ (steady.together settled (alike_tail alike more) ran ranOther)
    have positive := List.length_pos_iff.mpr more
    simp only [List.length_tail]
    omega

theorem steady_advance {next : Unit → Rule Result} (steady : Steady .fresh (next ())) :
    Steady .used (advance >>= next) :=
  steady_step .fresh (fun _ ahead more => ⟨more, trivial, List.suffix_refl ahead.tail⟩) steady

theorem steady_advance_onto {token : Token} {next : Unit → Rule Result}
    (steady : Steady (.facing token) (next ())) : Steady (.beside token) (advance >>= next) :=
  steady_step (.facing token)
    (fun _ ahead holds => ⟨holds.1, holds.2, List.suffix_refl ahead.tail⟩) steady

theorem steady_pure (result : Result) : Steady .used (pure result) where
  accountable := accountable_pure result
  lands more reads := by
    obtain ⟨_, rfl⟩ := reads_pure.mp reads
    exact more
  concerns _ ran isFirst := by
    cases ran
    cases isFirst
  together _ alike ran ranOther := by
    cases ran
    cases ranOther
    exact .same rfl rfl alike (Nat.le_refl _)

theorem steady_fail_here {token : Token} {error : SyntaxError} (names : error.Names token) :
    Steady (.facing token) (failHere error : Rule Result) where
  accountable := accountable_fail_here error
  lands _ reads := absurd reads reads_fail_here
  concerns holds ran isFirst := by
    cases ran
    cases isFirst
    have isToken := holds
    rw [Footing.Holds] at isToken
    exact concerns_here (isToken ▸ names)
  together _ _ ran ranOther := by
    cases ran
    cases ranOther
    exact .fault rfl rfl rfl

theorem steady_fail_next {token : Token} {error : SyntaxError} (names : error.Names token) :
    Steady (.beside token) (failNext error : Rule Result) where
  accountable := accountable_fail_next error
  lands _ reads := by cases reads
  concerns holds ran isFirst := by
    cases ran
    cases isFirst
    have isToken := holds.2
    exact concerns_here (isToken ▸ names)
  together _ _ ran ranOther := by
    cases ran
    cases ranOther
    exact .fault rfl rfl rfl

theorem steady_too_deep : Steady footing (tooDeep : Rule Result) where
  accountable := accountable_too_deep
  lands _ reads := by cases reads
  concerns _ ran := by cases ran
  together _ _ ran := by cases ran

end Steady

/-- A judgement about rules on footings that is closed under the ways in which rules are put
together. -/
structure Closed (judged : {Result : Type} → Footing → Rule Result → Prop) : Prop where
  tooDeep {Result : Type} (footing : Footing) : judged footing (tooDeep : Rule Result)
  pure {Result : Type} (result : Result) : judged .used (pure result)
  bind {Result Next : Type} {footing : Footing} {rule : Rule Result} {next : Result → Rule Next} :
    judged footing rule → (∀ result, judged .used (next result)) → judged footing (rule >>= next)
  current {Result : Type} {next : Token → Rule Result} :
    (∀ token, judged (.facing token) (next token)) → judged .fresh (current >>= next)
  /-- The token that was used can be looked at again. -/
  currentUsed {Result : Type} {next : Token → Rule Result} :
    (∀ token, judged .used (next token)) → judged .used (Rule.current >>= next)
  peek {Result : Type} {next : Token → Rule Result} :
    (∀ token, judged (.beside token) (next token)) → judged .used (peek >>= next)
  advance {Result : Type} {next : Unit → Rule Result} :
    judged .fresh (next ()) → judged .used (advance >>= next)
  advanceOnto {Result : Type} {token : Token} {next : Unit → Rule Result} :
    judged (.facing token) (next ()) → judged (.beside token) (Rule.advance >>= next)
  failHere {Result : Type} {token : Token} {error : SyntaxError} : error.TrueOf token →
    judged (.facing token) (failHere error : Rule Result)
  failNext {Result : Type} {token : Token} {error : SyntaxError} : error.TrueOf token →
    judged (.beside token) (failNext error : Rule Result)
  ofFresh {Result : Type} {token : Token} {rule : Rule Result} :
    judged .fresh rule → judged (.facing token) rule
  ofUsed {Result : Type} {token : Token} {rule : Rule Result} : token.kind ≠ .endMark →
    judged .used rule → judged (.facing token) rule
  beside {Result : Type} {token : Token} {rule : Rule Result} :
    judged .used rule → judged (.beside token) rule

theorem steady_closed : Closed Steady where
  tooDeep _ := steady_too_deep
  pure := steady_pure
  bind := steady_bind
  current := steady_current
  currentUsed := steady_current_used
  peek := steady_peek
  advance := steady_advance
  advanceOnto := steady_advance_onto
  failHere isTrue := steady_fail_here isTrue.names
  failNext isTrue := steady_fail_next isTrue.names
  ofFresh := steady_of_fresh
  ofUsed := steady_of_used
  beside := steady_beside

theorem accountable_closed : Closed fun _ rule => Accountable rule where
  tooDeep _ := accountable_too_deep
  pure := accountable_pure
  bind := accountable_bind
  current := accountable_bind accountable_current
  currentUsed := accountable_bind accountable_current
  peek := accountable_bind accountable_peek
  advance next := accountable_bind accountable_advance fun _ => next
  advanceOnto next := accountable_bind accountable_advance fun _ => next
  failHere _ := accountable_fail_here _
  failNext _ := accountable_fail_next _
  ofFresh rule := rule
  ofUsed _ rule := rule
  beside rule := rule

section Closed

variable {judged : {Result : Type} → Footing → Rule Result → Prop} (closed : Closed judged)

include closed

/-- Going on to a token that has been seen and is no end mark uses it. -/
theorem advance_last_judged {token : Token} (inside : token.kind ≠ .endMark) :
    judged (.beside token) advance := by
  have same : advance = (advance >>= fun _ => pure () : Rule Unit) := by
    funext mark ahead
    rw [run_advance_bind]
    rfl
  rw [same]
  exact closed.advanceOnto (closed.ofUsed inside (closed.pure ()))

theorem expect_judged {kind : TokenKind} (inside : kind ≠ .endMark) :
    judged .used (expect kind) := by
  refine closed.peek fun token => ?_
  split
  · next found => exact advance_last_judged closed (found ▸ inside)
  · next other => exact closed.failNext ⟨rfl, other⟩

theorem skip_judged {kind : TokenKind} (inside : kind ≠ .endMark) : judged .used (skip kind) := by
  refine closed.peek fun token => ?_
  split
  · next found => exact advance_last_judged closed (found ▸ inside)
  · exact closed.beside (closed.pure ())

end Closed

end Rule

end Scriptlet
