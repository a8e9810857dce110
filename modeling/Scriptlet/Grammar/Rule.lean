import Scriptlet.Grammar.Report

/-!
Rules read tokens one after another. The tokens ahead begin with the current one; when none are left
the current token is the end mark, and stays so. A rule that succeeds leaves the last token it used
current, a rule that fails leaves the token where it gave up, and either may have made reports.
Rules that call each other count the depth of their calls, and have no outcome beyond a given depth.
-/

namespace Scriptlet

structure EndMark where
  slice : String
  span : Span
deriving DecidableEq, Repr

def EndMark.token (mark : EndMark) : Token := ⟨.endMark, mark.slice, mark.span⟩

/-- What a rule ends with. No result means that it failed. -/
structure Outcome (Result : Type) where
  result : Option Result
  reports : List Report
  ahead : List Token

/-- A rule has no outcome when its calls go deeper than they may. -/
def Rule (Result : Type) : Type := EndMark → List Token → Option (Outcome Result)

namespace Rule

variable {Result Next : Type}

def succeed (result : Result) : Rule Result := fun _ ahead => some ⟨some result, [], ahead⟩

def andThen (rule : Rule Result) (next : Result → Rule Next) : Rule Next := fun mark ahead =>
  (rule mark ahead).bind fun first =>
    match first.result with
    | none => some ⟨none, first.reports, first.ahead⟩
    | some result =>
        (next result mark first.ahead).map fun second =>
          ⟨second.result, first.reports ++ second.reports, second.ahead⟩

instance : Monad Rule where
  pure := succeed
  bind := andThen

theorem pure_eq_succeed (result : Result) : (pure result : Rule Result) = succeed result := rfl

theorem bind_eq_and_then (rule : Rule Result) (next : Result → Rule Next) :
    rule >>= next = rule.andThen next := rfl

theorem and_then_failed (rule : Rule Result) (next : Result → Rule Next) (mark : EndMark)
    (ahead rest : List Token) (reports : List Report)
    (failed : rule mark ahead = some ⟨none, reports, rest⟩) :
    rule.andThen next mark ahead = some ⟨none, reports, rest⟩ := by
  simp [andThen, failed]

theorem and_then_result (rule : Rule Result) (next : Result → Rule Next) (mark : EndMark)
    (ahead rest : List Token) (reports : List Report) (result : Result)
    (ran : rule mark ahead = some ⟨some result, reports, rest⟩) :
    rule.andThen next mark ahead = (next result mark rest).map fun second =>
      ⟨second.result, reports ++ second.reports, second.ahead⟩ := by
  simp [andThen, ran]

def tooDeep : Rule Result := fun _ _ => none

def attempt (rule : Rule Result) : Rule (Option Result) := fun mark ahead =>
  (rule mark ahead).map fun outcome => ⟨some outcome.result, outcome.reports, outcome.ahead⟩

def remaining : Rule (List Token) := fun _ ahead => some ⟨some ahead, [], ahead⟩

def current : Rule Token := fun mark ahead => some ⟨some (ahead.headD mark.token), [], ahead⟩

def peek : Rule Token := fun mark ahead => some ⟨some (ahead.tail.headD mark.token), [], ahead⟩

def advance : Rule Unit := fun _ ahead => some ⟨some (), [], ahead.tail⟩

def failHere (error : SyntaxError) : Rule Result := fun _ ahead =>
  some ⟨none, [⟨error, ahead.length⟩], ahead⟩

def failNext (error : SyntaxError) : Rule Result := fun _ ahead =>
  some ⟨none, [⟨error, ahead.tail.length⟩], ahead⟩

def expect (kind : TokenKind) : Rule Unit := do
  let next ← peek
  if next.kind = kind then advance else failNext (.unexpected kind next)

def skip (kind : TokenKind) : Rule Unit := do
  let next ← peek
  if next.kind = kind then advance else succeed ()

end Rule

end Scriptlet
