import Mathlib.Data.List.Basic

/-!
# Texts around a separator

A separator that does not occur in a text tells where the text ends.
-/

namespace SeparatedTexts

variable {α : Type*} {separator : α} {first second rest others : List α}

theorem append_cons_inj (firstFree : separator ∉ first) (secondFree : separator ∉ second) :
    first ++ separator :: rest = second ++ separator :: others ↔
      first = second ∧ rest = others := by
  induction first generalizing second with
  | nil =>
    cases second with
    | nil => simp
    | cons letter second => simp [List.ne_of_not_mem_cons secondFree]
  | cons letter first ih =>
    rw [List.mem_cons, not_or] at firstFree
    cases second with
    | nil => simp [Ne.symm firstFree.1]
    | cons other second =>
      simp [ih firstFree.2 (List.not_mem_of_not_mem_cons secondFree), and_assoc]

end SeparatedTexts
