import Scriptlet.Proofs.Rule.Run

/-!
Rules and the places of tokens. A bare token has lost its place in the source. Rules that take no
notice of places come to the same on bare tokens, except that what they report and leave ahead is
bare as well.
-/

namespace Scriptlet

def Token.bare (token : Token) : Token := { token with span := ⟨0, 0⟩ }

@[simp] theorem Token.bare_kind (token : Token) : token.bare.kind = token.kind := rfl

@[simp] theorem Token.bare_slice (token : Token) : token.bare.slice = token.slice := rfl

def EndMark.bare (mark : EndMark) : EndMark := { mark with span := ⟨0, 0⟩ }

def SyntaxError.bare : SyntaxError → SyntaxError
  | .unexpected expected found => .unexpected expected found.bare
  | .noRule token => .noRule token.bare
  | .badInteger literal => .badInteger literal

def Report.bare (report : Report) : Report := { report with error := report.error.bare }

def Outcome.bare {Result : Type} (outcome : Outcome Result) : Outcome Result :=
  ⟨outcome.result, outcome.reports.map Report.bare, outcome.ahead.map Token.bare⟩

/-- An error is told to the user without its place. -/
theorem SyntaxError.message_bare (error : SyntaxError) : error.bare.message = error.message := by
  cases error <;> rfl

section Heads

variable (mark : EndMark) (ahead : List Token)

theorem head_bare :
    (ahead.map Token.bare).headD mark.bare.token = (ahead.headD mark.token).bare := by
  cases ahead <;> rfl

theorem next_bare :
    (ahead.map Token.bare).tail.headD mark.bare.token = (ahead.tail.headD mark.token).bare := by
  rw [← List.map_tail, head_bare]

end Heads

namespace Recovery

theorem kind_at_bare (tokens : List Token) : kindAt (tokens.map Token.bare) = kindAt tokens := by
  cases tokens <;> rfl

theorem count_all_bare (tokens : List Token) :
    countAll (tokens.map Token.bare) = countAll tokens :=
  List.foldl_map

theorem skip_from_bare (open_ : Int32) (ahead : List Token) :
    skipFrom open_ (ahead.map Token.bare) =
      ((skipFrom open_ ahead).1, (skipFrom open_ ahead).2.map Token.bare) := by
  induction ahead generalizing open_ with
  | nil => rfl
  | cons token rest induction =>
      rw [List.map_cons, skipFrom, skipFrom, Token.bare_kind, kind_at_bare, induction]
      split
      · rfl
      · split
        · rfl
        · split <;> rfl

end Recovery

namespace Rule

variable {Result Next : Type}

/-- On bare tokens the one rule comes to what the other comes to on tokens with their places. -/
def Bares (rule bare : Rule Result) : Prop :=
  ∀ mark ahead, bare mark.bare (ahead.map Token.bare) = (rule mark ahead).map Outcome.bare

section Bares

variable {rule bare : Rule Result}

theorem bares_too_deep : Bares (tooDeep : Rule Result) tooDeep := fun _ _ => rfl

theorem bares_pure (result : Result) : Bares (pure result) (pure result) := fun _ _ => rfl

theorem bares_fail_here (error : SyntaxError) :
    Bares (failHere error : Rule Result) (failHere error.bare) := by
  intro mark ahead
  simp [failHere, Outcome.bare, Report.bare]

theorem bares_fail_next (error : SyntaxError) :
    Bares (failNext error : Rule Result) (failNext error.bare) := by
  intro mark ahead
  simp [failNext, Outcome.bare, Report.bare]

theorem bares_advance : Bares advance advance := by
  intro mark ahead
  simp [advance, Outcome.bare, List.map_tail]

theorem bares_bind {next bareNext : Result → Rule Next} (first : Bares rule bare)
    (second : ∀ result, Bares (next result) (bareNext result)) :
    Bares (rule >>= next) (bare >>= bareNext) := by
  intro mark ahead
  rw [bind_eq_and_then, bind_eq_and_then, andThen, andThen, first]
  cases rule mark ahead with
  | none => rfl
  | some outcome =>
      obtain ⟨result, reports, rest⟩ := outcome
      cases result with
      | none => rfl
      | some result =>
          simp only [Option.map_some, Option.bind_some, Outcome.bare]
          rw [second, Option.map_map, Option.map_map]
          congr 1
          funext last
          simp [Outcome.bare]

theorem bares_attempt (inner : Bares rule bare) : Bares (attempt rule) (attempt bare) := by
  intro mark ahead
  rw [attempt, attempt, inner, Option.map_map, Option.map_map]
  rfl

theorem bares_current {next bareNext : Token → Rule Result}
    (second : ∀ token, Bares (next token) (bareNext token.bare)) :
    Bares (current >>= next) (current >>= bareNext) := by
  intro mark ahead
  rw [run_current_bind, run_current_bind, head_bare]
  exact second _ mark ahead

theorem bares_peek {next bareNext : Token → Rule Result}
    (second : ∀ token, Bares (next token) (bareNext token.bare)) :
    Bares (peek >>= next) (peek >>= bareNext) := by
  intro mark ahead
  rw [run_peek_bind, run_peek_bind, next_bare]
  exact second _ mark ahead

theorem bares_remaining {next bareNext : List Token → Rule Result}
    (second : ∀ tokens, Bares (next tokens) (bareNext (tokens.map Token.bare))) :
    Bares (remaining >>= next) (remaining >>= bareNext) := by
  intro mark ahead
  rw [run_remaining_bind, run_remaining_bind]
  exact second ahead mark ahead

theorem bares_recover (start : List Token) :
    Bares (recover start) (recover (start.map Token.bare)) := by
  intro mark ahead
  have sameFront : Recovery.upTo (start.map Token.bare) (ahead.map Token.bare) =
      (Recovery.upTo start ahead).map Token.bare := by
    simp [Recovery.upTo, List.map_take]
  rw [recover, recover, sameFront, Recovery.count_all_bare, Recovery.skip_from_bare]
  rfl

end Bares

end Rule

end Scriptlet
