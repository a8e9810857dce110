import Scriptlet.Session

/-!
What a session answers to a source text: the value of the program that is read from it, or the
errors in it, and then the store is left as it was.
-/

namespace Scriptlet

variable {source : String}

theorem read_clean_or_broken (source : String) :
    (∃ program, readSource source = (program, [])) ∨ (readSource source).2 ≠ [] := by
  by_cases clean : (readSource source).2 = []
  · exact Or.inl ⟨_, Prod.ext rfl clean⟩
  · exact Or.inr clean

theorem interpret_clean {program : Program} (clean : readSource source = (program, []))
    (depth : Nat) (scope : Handle) (store : Store) :
    interpret depth scope source store =
      (Program.run depth scope program store).map (Prod.map .ok id) := by
  rw [interpret, clean]
  change (Program.run depth scope program store).bind _ = _
  cases Program.run depth scope program store <;> rfl

theorem interpret_broken (broken : (readSource source).2 ≠ []) (depth : Nat) (scope : Handle)
    (store : Store) : interpret depth scope source store =
      some (.error ((readSource source).2.map Report.error), store) := by
  rw [interpret]
  cases read : readSource source with
  | mk program reports =>
      rw [read] at broken
      cases reports with
      | nil => exact absurd rfl broken
      | cons report reports => rfl

end Scriptlet
