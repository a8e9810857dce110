import Scriptlet.Proofs.Grammar.Context
import Scriptlet.Proofs.Rule.Run

/-!
Many inputs read at once. The inputs are the cases of a family and differ in one part only: a rule
takes the same way through all of them, makes the same reports, and yields one tree in which the
body of at most one block depends on the case. How the differing part is read, or passed over, is
what a particular terrain has to say.
-/

namespace Scriptlet

open Rule

/-- How far reading has come: it stands before the part in which the inputs differ, or has passed
over that part, or has read it. -/
inductive Stage where
  | before | skipped | through
deriving DecidableEq

namespace Stage

def Reaches (earlier later : Stage) : Prop := earlier = later ∨ earlier = before

def Spans (earlier later : Stage) : Prop := earlier = before ∧ later = through

variable {earlier now later : Stage}

theorem reaches_refl (stage : Stage) : stage.Reaches stage := Or.inl rfl

theorem reaches_trans (first : earlier.Reaches now) (second : now.Reaches later) :
    earlier.Reaches later := by
  rcases first with rfl | start
  · exact second
  · exact Or.inr start

theorem not_spans_refl (stage : Stage) : ¬stage.Spans stage := by
  rintro ⟨rfl, through⟩
  cases through

/-- What spans the first part of a way spans the whole, and nothing the second. -/
theorem spans_first (first : earlier.Spans now) (second : now.Reaches later) :
    earlier.Spans later ∧ ¬now.Spans later := by
  obtain ⟨rfl, rfl⟩ := first
  rcases second with rfl | start
  · exact ⟨⟨rfl, rfl⟩, not_spans_refl _⟩
  · cases start

theorem spans_second (first : earlier.Reaches now) (second : now.Spans later) :
    earlier.Spans later ∧ ¬earlier.Spans now := by
  obtain ⟨rfl, rfl⟩ := second
  rcases first with rfl | start
  · exact ⟨⟨rfl, rfl⟩, not_spans_refl _⟩
  · exact ⟨⟨start, rfl⟩, fun spans => by cases spans.2⟩

theorem spans_either (first : earlier.Reaches now) (second : now.Reaches later)
    (spans : earlier.Spans later) : earlier.Spans now ∨ now.Spans later := by
  obtain ⟨rfl, rfl⟩ := spans
  rcases second with rfl | start
  · exact Or.inl ⟨rfl, rfl⟩
  · exact Or.inr ⟨start, rfl⟩

end Stage

abbrev TokenKind.Plain (kind : TokenKind) : Prop :=
  kind ∉ [TokenKind.leftBrace, .rightBrace, .semicolon, .endMark]

/-- A family of inputs, the block body and the errors that each has in the part where they differ,
and the places in all of them at once from which reading may start, or where a token was used. -/
structure Terrain (Case : Type) where
  mark : Case → EndMark
  sample : Case
  body : Case → Block
  errors : Case → List SyntaxError
  Ready : Stage → (Case → List Token) → Prop
  Onto : Stage → (Case → List Token) → Prop
  /-- The current token is the same in all cases, and a plain one can be used in all of them. -/
  look {stage : Stage} {ahead : Case → List Token} : Ready stage ahead →
    ∃ token, (∀ case, (ahead case).headD (mark case).token = token) ∧
      (token.kind.Plain → Onto stage ahead)
  /-- Behind a token that was used reading may start again. -/
  used {stage : Stage} {ahead : Case → List Token} : Onto stage ahead →
    ∃ token rest, Ready stage rest ∧ ahead = fun case => token :: rest case

namespace Terrain

variable {Case : Type} (terrain : Terrain Case)

/-- A tree that depends on the case in the body of one block at most, and only if that was read. -/
def Varied (shape : Shape) (earlier later : Stage) (value : Case → shape.Tree) : Prop :=
  (∃ tree, value = fun _ => tree) ∨ earlier.Spans later ∧
    ∃ context : Context shape, value = fun case => context.fill (terrain.body case)

def Reported (earlier later : Stage) (errors : Case → List SyntaxError) : Prop :=
  (¬earlier.Spans later ∧ ∃ all, errors = fun _ => all) ∨
    earlier.Spans later ∧ ∃ front back, errors = fun case => front ++ terrain.errors case ++ back

def Arrives {Value : Type} (Fits : Stage → (Case → Value) → Prop) (now : Stage)
    (Place : Stage → (Case → List Token) → Prop) (value : Case → Value)
    (errors : Case → List SyntaxError) (rest : Case → List Token) : Prop :=
  ∃ later, now.Reaches later ∧ Fits later value ∧ terrain.Reported now later errors ∧
    Place later rest

def Fails (now : Stage) (errors : Case → List SyntaxError) (rest : Case → List Token) : Prop :=
  ∃ later, now.Reaches later ∧ terrain.Reported now later errors ∧
    (terrain.Ready later rest ∨ terrain.Onto later rest)

end Terrain

def Rule.Always {Value : Type} (rule : Nat → Rule Value) (mark : EndMark) (ahead : List Token)
    (result : Option Value) (errors : List SyntaxError) (rest : List Token) : Prop :=
  ∀ depth outcome, rule depth mark ahead = some outcome → outcome.result = result ∧
    outcome.reports.map Report.error = errors ∧ outcome.ahead = rest

section Always

variable {Value Next : Type} {rule : Nat → Rule Value} {next : Value → Nat → Rule Next}
  {mark : EndMark} {ahead middle rest : List Token} {errors more : List SyntaxError}

theorem always_bind {value : Value} {result : Option Next}
    (first : Always rule mark ahead (some value) errors middle)
    (second : Always (next value) mark middle result more rest) :
    Always (fun depth => rule depth >>= fun value => next value depth) mark ahead result
      (errors ++ more) rest := by
  intro depth outcome ran
  rcases run_bind_cases ran with ⟨reports, stop, failed, rfl⟩ |
    ⟨found, reports, stop, final, ranFirst, ranSecond, rfl⟩
  · cases (first depth _ failed).1
  · obtain ⟨same, sameErrors, sameStop⟩ := first depth _ ranFirst
    cases same
    cases sameStop
    obtain ⟨sameResult, sameMore, sameRest⟩ := second depth _ ranSecond
    refine ⟨sameResult, ?_, sameRest⟩
    rw [List.map_append, sameErrors, sameMore]

theorem always_bind_failed (first : Always rule mark ahead none errors rest) :
    Always (fun depth => rule depth >>= fun value => next value depth) mark ahead none errors
      rest := by
  intro depth outcome ran
  rcases run_bind_cases ran with ⟨reports, stop, failed, rfl⟩ |
    ⟨found, reports, stop, final, ranFirst, ranSecond, rfl⟩
  · exact ⟨rfl, (first depth _ failed).2⟩
  · cases (first depth _ ranFirst).1

end Always

/-- If the rule has an outcome of this depth in the sample case, then it succeeds in all cases and
`Good` holds of what they yield, or it fails in all cases and `Bad` holds of that. -/
def Terrain.Settles {Case Value : Type} (terrain : Terrain Case) (depth : Nat)
    (rule : Case → Nat → Rule Value) (ahead : Case → List Token)
    (Good : (Case → Value) → (Case → List SyntaxError) → (Case → List Token) → Prop)
    (Bad : (Case → List SyntaxError) → (Case → List Token) → Prop) : Prop :=
  Answers (rule terrain.sample depth) (terrain.mark terrain.sample) (ahead terrain.sample) →
    (∃ value errors rest, Good value errors rest ∧ ∀ case, Always (rule case) (terrain.mark case)
        (ahead case) (some (value case)) (errors case) (rest case)) ∨
      ∃ errors rest, Bad errors rest ∧ ∀ case, Always (rule case) (terrain.mark case) (ahead case)
        none (errors case) (rest case)

section Settles

variable {Case Value Next : Type} {terrain : Terrain Case} {depth : Nat}
  {rule : Case → Nat → Rule Value} {next : Case → Value → Nat → Rule Next}
  {ahead : Case → List Token}
  {Good : (Case → Value) → (Case → List SyntaxError) → (Case → List Token) → Prop}
  {Bad : (Case → List SyntaxError) → (Case → List Token) → Prop}

/-- A rule runs like another one from another place. -/
theorem settles_same {other : Case → Nat → Rule Value} {start : Case → List Token}
    (same : ∀ case depth, rule case depth (terrain.mark case) (ahead case) =
      other case depth (terrain.mark case) (start case))
    (settles : terrain.Settles depth other start Good Bad) :
    terrain.Settles depth rule ahead Good Bad := by
  intro answers
  rw [Answers, same] at answers
  rcases settles answers with ⟨value, errors, rest, good, always⟩ | ⟨errors, rest, bad, always⟩
  · refine Or.inl ⟨value, errors, rest, good, fun case deep outcome ran => ?_⟩
    rw [same] at ran
    exact always case deep outcome ran
  · refine Or.inr ⟨errors, rest, bad, fun case deep outcome ran => ?_⟩
    rw [same] at ran
    exact always case deep outcome ran

theorem settles_mono
    {Better : (Case → Value) → (Case → List SyntaxError) → (Case → List Token) → Prop}
    {Worse : (Case → List SyntaxError) → (Case → List Token) → Prop}
    (settles : terrain.Settles depth rule ahead Better Worse)
    (good : ∀ value errors rest, Better value errors rest → Good value errors rest)
    (bad : ∀ errors rest, Worse errors rest → Bad errors rest) :
    terrain.Settles depth rule ahead Good Bad := by
  intro answers
  rcases settles answers with ⟨value, errors, rest, better, always⟩ | ⟨errors, rest, worse, always⟩
  · exact Or.inl ⟨value, errors, rest, good value errors rest better, always⟩
  · exact Or.inr ⟨errors, rest, bad errors rest worse, always⟩

/-- A rule settles when the one that it runs one level deeper does. -/
theorem settles_deeper {inner : Case → Nat → Rule Value}
    (bottom : ∀ case, rule case 0 = tooDeep) (step : ∀ case depth, rule case (depth + 1) =
      inner case depth) (settles : terrain.Settles depth inner ahead Good Bad) :
    terrain.Settles (depth + 1) rule ahead Good Bad := by
  have always {case : Case} {result : Option Value} {errors : List SyntaxError}
      {rest : List Token}
      (always : Always (inner case) (terrain.mark case) (ahead case) result errors rest) :
      Always (rule case) (terrain.mark case) (ahead case) result errors rest := by
    intro deep outcome ran
    cases deep with
    | zero =>
        rw [bottom] at ran
        cases ran
    | succ deep =>
        rw [step] at ran
        exact always deep outcome ran
  intro answers
  rw [step] at answers
  rcases settles answers with ⟨value, errors, rest, good, each⟩ | ⟨errors, rest, bad, each⟩
  · exact Or.inl ⟨value, errors, rest, good, fun case => always (each case)⟩
  · exact Or.inr ⟨errors, rest, bad, fun case => always (each case)⟩

theorem settles_bottom (bottom : rule terrain.sample 0 = tooDeep) :
    terrain.Settles 0 rule ahead Good Bad := by
  intro answers
  rw [bottom] at answers
  obtain ⟨_, ran⟩ := answers
  cases ran

theorem settles_bind
    {First : (Case → Value) → (Case → List SyntaxError) → (Case → List Token) → Prop}
    {Failed : (Case → List SyntaxError) → (Case → List Token) → Prop}
    {Good : (Case → Next) → (Case → List SyntaxError) → (Case → List Token) → Prop}
    (first : terrain.Settles depth rule ahead First Failed)
    (failed : ∀ errors rest, Failed errors rest → Bad errors rest)
    (second : ∀ value errors rest, First value errors rest →
      terrain.Settles depth (fun case => next case (value case)) rest
        (fun final more => Good final fun case => errors case ++ more case)
        (fun more => Bad fun case => errors case ++ more case)) :
    terrain.Settles depth (fun case depth => rule case depth >>= fun value => next case value depth)
      ahead Good Bad := by
  intro answers
  obtain ⟨answersFirst, answersSecond⟩ := answers_of_bind answers
  rcases first answersFirst with ⟨value, errors, rest, good, always⟩ | ⟨errors, rest, bad, always⟩
  · obtain ⟨⟨result, reports, stop⟩, ran⟩ := answersFirst
    obtain ⟨sameResult, _, sameStop⟩ := always terrain.sample depth _ ran
    cases sameResult
    cases sameStop
    rcases second value errors rest good (answersSecond _ _ _ ran) with
      ⟨final, more, last, goodFinal, later⟩ | ⟨more, last, badFinal, later⟩
    · exact Or.inl ⟨final, _, last, goodFinal, fun case => always_bind (always case) (later case)⟩
    · exact Or.inr ⟨_, last, badFinal, fun case => always_bind (always case) (later case)⟩
  · exact Or.inr ⟨errors, rest, failed errors rest bad,
      fun case => always_bind_failed (always case)⟩

theorem settles_current {next : Case → Token → Nat → Rule Value} {token : Token}
    (looked : ∀ case, (ahead case).headD (terrain.mark case).token = token)
    (settles : terrain.Settles depth (fun case => next case token) ahead Good Bad) :
    terrain.Settles depth (fun case depth => current >>= fun token => next case token depth) ahead
      Good Bad :=
  settles_same (fun case depth => by rw [run_current_bind, looked]) settles

theorem settles_peek {next : Case → Token → Nat → Rule Value} {token : Token}
    (looked : ∀ case, (ahead case).tail.headD (terrain.mark case).token = token)
    (settles : terrain.Settles depth (fun case => next case token) ahead Good Bad) :
    terrain.Settles depth (fun case depth => peek >>= fun token => next case token depth) ahead
      Good Bad :=
  settles_same (fun case depth => by rw [run_peek_bind, looked]) settles

theorem settles_advance {next : Case → Unit → Nat → Rule Value}
    (settles : terrain.Settles depth (fun case => next case ()) (fun case => (ahead case).tail)
      Good Bad) :
    terrain.Settles depth (fun case depth => advance >>= fun done => next case done depth) ahead
      Good Bad :=
  settles_same (fun case depth => by rw [run_advance_bind]) settles

theorem settles_pure {value : Case → Value} (good : Good value (fun _ => []) ahead) :
    terrain.Settles depth (fun case _ => pure (value case)) ahead Good Bad := by
  intro _
  refine Or.inl ⟨value, fun _ => [], ahead, good, fun case depth outcome ran => ?_⟩
  cases ran
  exact ⟨rfl, rfl, rfl⟩

theorem settles_fail_here {error : SyntaxError} (bad : Bad (fun _ => [error]) ahead) :
    terrain.Settles depth (fun _ _ => (failHere error : Rule Value)) ahead Good Bad := by
  intro _
  refine Or.inr ⟨fun _ => [error], ahead, bad, fun case depth outcome ran => ?_⟩
  cases ran
  exact ⟨rfl, rfl, rfl⟩

theorem settles_expect {kind : TokenKind} {next : Case → Unit → Nat → Rule Value} {token : Token}
    (looked : ∀ case, (ahead case).tail.headD (terrain.mark case).token = token)
    (bad : Bad (fun _ => [.unexpected kind token]) ahead)
    (settles : token.kind = kind →
      terrain.Settles depth (fun case => next case ()) (fun case => (ahead case).tail) Good Bad) :
    terrain.Settles depth (fun case depth => expect kind >>= fun done => next case done depth) ahead
      Good Bad := by
  by_cases found : token.kind = kind
  · refine settles_same (fun case depth => ?_) (settles found)
    have ran : expect kind (terrain.mark case) (ahead case) =
        some ⟨some (), [], (ahead case).tail⟩ := by
      rw [run_expect, looked, if_pos found]
    rw [bind_eq_and_then, and_then_result _ _ _ _ _ _ _ ran]
    simp
  · intro _
    have failed (case : Case) : Always (fun _ => expect kind) (terrain.mark case) (ahead case) none
        [.unexpected kind token] (ahead case) := by
      intro depth outcome ran
      have stuck := run_expect (terrain.mark case) (ahead case) kind
      rw [looked, if_neg found] at stuck
      cases stuck.symm.trans ran
      exact ⟨rfl, rfl, rfl⟩
    exact Or.inr ⟨_, ahead, bad, fun case => always_bind_failed (failed case)⟩

end Settles

end Scriptlet
