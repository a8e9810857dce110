import Scriptlet.Proofs.Grammar.Comparison
import Scriptlet.Proofs.Grammar.Outcome
import Scriptlet.Proofs.Rule.Places

/-!
No rule of the grammar takes notice of places: what is read, and what is told about errors, depends
on the kinds and the slices of the tokens alone.
-/

namespace Scriptlet.Grammar

open Rule

theorem bares_compares : Compares Bares Token.bare where
  kind := Token.bare_kind
  slice := Token.bare_slice
  pure := bares_pure
  bind := bares_bind
  attempt := bares_attempt
  current := bares_current
  peek := bares_peek
  remaining := bares_remaining
  advance := bares_advance
  recover := bares_recover
  unexpectedNext _ _ := bares_fail_next _
  unexpectedHere _ _ := bares_fail_here _
  noRule _ := bares_fail_here _
  badInteger _ := bares_fail_here _

/-- The rules of every depth take no notice of places. -/
theorem rules_blind (depth : Nat) : ComparedAt Bares depth depth := by
  induction depth with
  | zero => constructor <;> intros <;> exact bares_too_deep
  | succ depth rules => exact rules_compare bares_compares rules

end Scriptlet.Grammar

namespace Scriptlet

open Grammar

theorem Reader.of_tokens_bare (tokens : List Token) :
    (ofTokens (tokens.map Token.bare)).endMark = (ofTokens tokens).endMark.bare ∧
      (ofTokens (tokens.map Token.bare)).ahead = (ofTokens tokens).ahead.map Token.bare := by
  simp only [ofTokens, List.getLast?_map]
  cases tokens.getLast? with
  | none => exact ⟨rfl, rfl⟩
  | some last =>
      simp only [Option.map_some]
      rw [Token.bare_kind]
      split
      · exact ⟨rfl, List.map_dropLast.symm⟩
      · exact ⟨rfl, rfl⟩

theorem read_tokens_bare (tokens : List Token) :
    readTokens (tokens.map Token.bare) =
      ((readTokens tokens).1, (readTokens tokens).2.map Report.bare) := by
  obtain ⟨outcome, answered⟩ := program_answers
    (Reader.callDepth (Reader.ofTokens tokens).ahead.length) (Reader.ofTokens tokens).endMark
    (Reader.ofTokens tokens).ahead (Nat.le_refl _)
  have blind := (rules_blind (Reader.callDepth (Reader.ofTokens tokens).ahead.length)).program
    (Reader.ofTokens tokens).endMark (Reader.ofTokens tokens).ahead
  obtain ⟨sameMark, sameAhead⟩ := Reader.of_tokens_bare tokens
  rw [answered, ← sameMark, ← sameAhead] at blind
  rw [Reader.read_tokens_of_outcome blind, Reader.read_tokens_of_outcome answered]
  rfl

/-- Tokens that differ in their places only are read as the same program, and the errors in them
are told in the same words. -/
theorem read_alike {tokens others : List Token}
    (same : tokens.map Token.bare = others.map Token.bare) :
    (readTokens tokens).1 = (readTokens others).1 ∧
      (readTokens tokens).2.map Report.bare = (readTokens others).2.map Report.bare := by
  have read := read_tokens_bare tokens
  rw [same, read_tokens_bare others] at read
  obtain ⟨program, reports⟩ := Prod.mk.inj read
  exact ⟨program.symm, reports.symm⟩

end Scriptlet
