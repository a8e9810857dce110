import Scriptlet.Proofs.Grammar.Places
import Scriptlet.Proofs.Session.Answer
import Scriptlet.Proofs.Token.Layout

/-!
The layout of a source does not matter: a session goes on in the same way after sources that differ
in the blanks around their tokens only. Errors are held apart by their places, but the text that
tells a user about them has no places in it.
-/

namespace Scriptlet

open Text

theorem listing_alike {reports others : List Report}
    (same : reports.map Report.bare = others.map Report.bare) :
    SyntaxError.listing (reports.map Report.error) =
      SyntaxError.listing (others.map Report.error) := by
  have told (reports : List Report) : reports.map (fun report => report.error.message) =
      (reports.map Report.bare).map (fun report => report.error.message) := by
    rw [List.map_map]
    exact List.map_congr_left fun report _ => (SyntaxError.message_bare report.error).symm
  have messages : reports.map (fun report => report.error.message) =
      others.map (fun report => report.error.message) := by
    rw [told, same, ← told]
  have lines := congrArg (List.map fun message => "\t" ++ message ++ "\n") messages
  simp only [List.map_map] at lines
  simp only [SyntaxError.listing, List.map_map]
  exact congrArg (fun lines => "parser errors:\n" ++ "".intercalate lines) lines

/-- Sources that differ in layout only are refused with the same text and leave every store as it
was, or they are read as the same program and run alike in every scope over every store. -/
theorem layout_does_not_matter {source other : String} (same : SameButLayout source other) :
    (∃ errors others, SyntaxError.listing errors = SyntaxError.listing others ∧
        ∀ depth scope store, interpret depth scope source store = some (.error errors, store) ∧
          interpret depth scope other store = some (.error others, store)) ∨
      ∃ program, readSource source = (program, []) ∧ readSource other = (program, []) ∧
        ∀ depth scope store,
          interpret depth scope other store = interpret depth scope source store := by
  obtain ⟨program, reports⟩ := read_alike (scan_same_but_layout same)
  change (readSource other).1 = (readSource source).1 at program
  change (readSource other).2.map Report.bare = (readSource source).2.map Report.bare at reports
  rcases read_clean_or_broken source with ⟨_, read⟩ | broken
  · rw [read, List.map_nil, List.map_eq_nil_iff] at reports
    rw [read] at program
    have readOther := Prod.ext program reports
    refine Or.inr ⟨_, read, readOther, fun depth scope store => ?_⟩
    rw [interpret_clean readOther, interpret_clean read]
  · have otherBroken : (readSource other).2 ≠ [] := by
      intro otherClean
      rw [otherClean, List.map_nil, eq_comm, List.map_eq_nil_iff] at reports
      exact broken reports
    exact Or.inl ⟨_, _, listing_alike reports.symm, fun depth scope store =>
      ⟨interpret_broken broken depth scope store, interpret_broken otherBroken depth scope store⟩⟩

/-- A binding in one line, and with lines and an ideographic space between its tokens. -/
theorem spread_binding_runs_alike :
    SameButLayout "let x=-7 " "\n let\tx\u3000=\n- 7" ∧ ∀ depth scope store,
      interpret depth scope "\n let\tx\u3000=\n- 7" store =
        interpret depth scope "let x=-7 " store := by
  have scanned : (Token.scan "let x=-7 ").dropLast =
      [⟨.letWord, "let", ⟨0, 3⟩⟩, ⟨.identifier, "x", ⟨4, 5⟩⟩, ⟨.equal, "=", ⟨5, 6⟩⟩,
        ⟨.minus, "-", ⟨6, 7⟩⟩, ⟨.integer, "7", ⟨7, 8⟩⟩] := by
    decide +kernel
  have blanks (gap : List Char) (checked : gap.all isBlank = true) : Blanks gap :=
    List.all_eq_true.mp checked
  have same : SameButLayout "let x=-7 " "\n let\tx\u3000=\n- 7" := by
    refine ⟨[], ['\n', ' '], "let x=-7 ".toList, "let\tx\u3000=\n- 7".toList,
      blanks _ rfl, blanks _ rfl, rfl, by decide, ?_⟩
    rw [scanned]
    exact @Respaced.more _ _ _ [' '] ['\t'] _ _ (blanks _ rfl) (blanks _ rfl) nofun
      (@Respaced.more _ _ _ [] ['\u3000'] _ _ (blanks _ rfl) (blanks _ rfl) nofun
      (@Respaced.more _ _ _ [] ['\n'] _ _ (blanks _ rfl) (blanks _ rfl) nofun
      (@Respaced.more _ _ _ [] [' '] _ _ (blanks _ rfl) (blanks _ rfl) nofun
      (@Respaced.last _ [' '] [] (blanks _ rfl) (blanks _ rfl)))))
  refine ⟨same, ?_⟩
  rcases layout_does_not_matter same with ⟨errors, others, _, refused⟩ | ⟨_, _, _, alike⟩
  · have clean : readSource "let x=-7 " = ([.bind "x" (.unary .negate (.int 7))], []) := by
      decide +kernel
    have ran := (refused 0 0 Store.empty).1
    rw [interpret_clean clean] at ran
    cases ran
  · exact alike

end Scriptlet
