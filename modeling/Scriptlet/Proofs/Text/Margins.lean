import Scriptlet.Text.Blank

/-!
Texts that end visibly, so that no character of theirs is taken off when the blanks at their end
are.
-/

namespace Scriptlet.Text

def EndsVisibly (text : String) : Prop :=
  ∃ front last, text.toList = front ++ [last] ∧ isBlank last = false

theorem ends_visibly_append (front : String) {text : String} (visible : EndsVisibly text) :
    EndsVisibly (front ++ text) := by
  rcases visible with ⟨before, last, whole, notBlank⟩
  refine ⟨front.toList ++ before, last, ?_, notBlank⟩
  rw [String.toList_append, whole, List.append_assoc]

theorem ends_visibly_of_all {text : String} (some_ : text.toList ≠ [])
    (visible : ∀ char ∈ text.toList, isBlank char = false) : EndsVisibly text := by
  rcases List.eq_nil_or_concat text.toList with none | ⟨front, last, whole⟩
  · exact absurd none some_
  · rw [List.concat_eq_append] at whole
    refine ⟨front, last, whole, visible last ?_⟩
    rw [whole]
    exact List.mem_append_right front List.mem_cons_self

/-- Of a line that ends visibly only its end is taken off. -/
theorem trim_end_line {text : String} (visible : EndsVisibly text) :
    trimEnd (text ++ "\n") = text := by
  rcases visible with ⟨front, last, whole, notBlank⟩
  have backwards : (text ++ "\n").toList.reverse = '\n' :: last :: front.reverse := by
    rw [String.toList_append, whole]
    simp
  have feed : isBlank '\n' = true := by decide
  rw [trimEnd, backwards, List.dropWhile_cons_of_pos feed, List.dropWhile_cons_of_neg,
    List.reverse_cons, List.reverse_reverse, ← whole, String.ofList_toList]
  rw [notBlank]
  exact Bool.false_ne_true

end Scriptlet.Text
