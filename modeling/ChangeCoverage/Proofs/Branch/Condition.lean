import ChangeCoverage.Branch.Condition
import ChangeCoverage.Source.Mask
import ChangeCoverage.Proofs.Source.Nesting
import ChangeCoverage.Proofs.Text.Offset

/-!
Reading the conditions and labels of lines that are written as expected: a
condition ends at its own closing parenthesis, and a label at its only colon.
-/

namespace ChangeCoverage.Branch

theorem closingFrom_nested {depth : Nat} {masked : Text} (offset : Nat) (back : Text)
    (nested : Source.nested '(' ')' depth masked = true) :
    closingFrom (depth + 1) offset (masked ++ ')' :: back) =
      some (offset + Text.byteSize masked) := by
  induction masked generalizing depth offset with
  | nil =>
      simp only [Source.nested, decide_eq_true_eq] at nested
      subst nested
      rfl
  | cons character rest inductionHypothesis =>
      rw [Source.nested] at nested
      rw [List.cons_append, closingFrom, Text.byteSize_cons, ← Nat.add_assoc]
      by_cases opens : character = '('
      · rw [if_pos opens] at nested ⊢
        exact inductionHypothesis _ nested
      · rw [if_neg opens] at nested ⊢
        by_cases closes : character = ')'
        · rw [if_pos closes, Bool.and_eq_true, decide_eq_true_eq] at nested
          obtain ⟨positive, later⟩ := nested
          obtain ⟨outer, rfl⟩ : ∃ outer, depth = outer + 1 := ⟨depth - 1, by omega⟩
          rw [if_pos closes, if_neg (by omega)]
          exact inductionHypothesis _ later
        · rw [if_neg closes] at nested ⊢
          exact inductionHypothesis _ nested

/-- A condition with nested parentheses is read up to its closing one. -/
theorem readCondition?_nested (front back : Text) {text masked : Text}
    (nested : Source.nested '(' ')' 0 masked = true)
    (sameSize : Text.byteSize masked = Text.byteSize text) :
    readCondition? (front ++ '(' :: (masked ++ ')' :: back)) (front ++ '(' :: (text ++ ')' :: back))
        (Text.byteSize front) =
      some (Text.trim text, Text.byteSize front + 1 + Text.byteSize masked) := by
  have parenthesis : ('(' : Char).utf8Size = 1 := by decide
  have size : Text.byteSize (front ++ ['(']) = Text.byteSize front + 1 := by
    simp [parenthesis]
  have closing : closingFrom 0 (Text.byteSize front) ('(' :: (masked ++ ')' :: back)) =
      some (Text.byteSize front + 1 + Text.byteSize masked) := by
    rw [closingFrom, if_pos rfl, parenthesis]
    exact closingFrom_nested _ back nested
  have inner : Text.slice? (Text.byteSize front + 1)
      (Text.byteSize front + 1 + Text.byteSize masked) (front ++ '(' :: (text ++ ')' :: back)) =
        some text := by
    have sliced := Text.slice?_append (front ++ ['(']) text (')' :: back)
    rw [size, List.append_assoc, ← sameSize] at sliced
    exact sliced
  have equalSizes : Text.byteSize (front ++ '(' :: (masked ++ ')' :: back)) =
      Text.byteSize (front ++ '(' :: (text ++ ')' :: back)) := by
    simp [sameSize]
  rw [readCondition?, Text.dropBytes?_append]
  simp [equalSizes, closing, inner]

theorem colonFrom_append {masked : Text} (absent : ':' ∉ masked) (offset : Nat) :
    colonFrom offset (masked ++ [':']) = some (offset + Text.byteSize masked) := by
  induction masked generalizing offset with
  | nil => rfl
  | cons character rest inductionHypothesis =>
      rw [List.mem_cons, not_or] at absent
      obtain ⟨other, later⟩ := absent
      have passed : colonFrom offset (character :: (rest ++ [':'])) =
          colonFrom (offset + character.utf8Size) (rest ++ [':']) :=
        colonFrom.eq_4 offset character (rest ++ [':'])
          (fun _ equality _ => other equality.symm) (fun equality => other equality.symm)
      rw [List.cons_append, passed, inductionHypothesis later, Text.byteSize_cons, Nat.add_assoc]

/-- A label that fills the rest of its line is read as it is. -/
theorem readLabel_whole (front : Text) {first : Char} {masked text : Text}
    (absent : ':' ∉ first :: masked) (solid : Text.isBlank first = false)
    (sameSize : Text.byteSize masked = Text.byteSize text) :
    readLabel (front ++ first :: (masked ++ [':'])) (front ++ first :: (text ++ [':']))
        (Text.byteSize front) =
      first :: (text ++ [':']) := by
  have colon : (':' : Char).utf8Size = 1 := by decide
  have found : colonFrom (Text.byteSize front) (first :: (masked ++ [':'])) =
      some (Text.byteSize front + Text.byteSize (first :: masked)) := colonFrom_append absent _
  have whole : Text.slice? (Text.byteSize front)
      (Text.byteSize front + Text.byteSize (first :: masked) + 1)
      (front ++ first :: (text ++ [':'])) = some (first :: (text ++ [':'])) := by
    have size : Text.byteSize front + Text.byteSize (first :: masked) + 1 =
        Text.byteSize front + Text.byteSize (first :: (text ++ [':'])) := by
      simp [sameSize, colon, Nat.add_assoc]
    have sliced := Text.slice?_append front (first :: (text ++ [':'])) []
    rw [List.append_nil] at sliced
    rw [size]
    exact sliced
  simp only [readLabel, Text.dropTo_append, Nat.add_zero, found, whole, Option.getD_some]
  exact Text.trim_eq_self text solid (by decide)

end ChangeCoverage.Branch
