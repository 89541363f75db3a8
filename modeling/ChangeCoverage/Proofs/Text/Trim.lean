import ChangeCoverage.Text.Search

/-!
Texts of blanks, and blanks at the end of a text.
-/

namespace ChangeCoverage.Text

def IsBlankText (text : Text) : Prop :=
  ∀ character ∈ text, isBlank character = true

instance (text : Text) : Decidable (IsBlankText text) :=
  List.decidableBAll (fun character => isBlank character = true) text

theorem IsBlankText.cons {character : Char} {rest : Text}
    (blank : IsBlankText (character :: rest)) :
    isBlank character = true ∧ IsBlankText rest :=
  List.forall_mem_cons.mp blank

theorem blanks_append_dropWhile (text : Text) :
    ∃ blanks, IsBlankText blanks ∧ blanks ++ text.dropWhile isBlank = text :=
  ⟨text.takeWhile isBlank, fun character membership =>
    List.all_eq_true.mp List.all_takeWhile character membership,
    List.takeWhile_append_dropWhile⟩

theorem ne_of_isBlank {character solid : Char} (blank : isBlank character = true)
    (isSolid : isBlank solid = false) : character ≠ solid := fun same => by
  rw [same, isSolid] at blank
  exact Bool.false_ne_true blank

/-- No marker that starts with something else starts at a blank. -/
theorem after?_blank {first character : Char} (blank : isBlank character = true)
    (solid : isBlank first = false) (marker rest : Text) :
    after? (first :: marker) (character :: rest) = none :=
  if_neg (ne_of_isBlank blank solid).symm

theorem trimEnd_append {blanks : Text} (areBlank : IsBlankText blanks)
    (text : Text) : trimEnd (text ++ blanks) = trimEnd text := by
  rw [trimEnd, trimEnd, List.reverse_append,
    List.dropWhile_append_of_pos fun character membership =>
      areBlank character (List.mem_reverse.mp membership)]

theorem trimStart_eq_self {text : Text}
    (solid : ∀ first ∈ text.head?, isBlank first = false) : trimStart text = text := by
  cases text with
  | nil => rfl
  | cons first rest => simp [trimStart, solid first rfl]

theorem trimEnd_eq_self {text : Text}
    (solid : ∀ last ∈ text.getLast?, isBlank last = false) : trimEnd text = text := by
  rcases List.eq_nil_or_concat text with rfl | ⟨front, last, rfl⟩
  · rfl
  · simp [trimEnd, solid last (by simp)]

/-- Only blanks at the very end are cut off. -/
theorem trimEnd_append_of_ne_nil {back : Text} (front : Text) (kept : trimEnd back ≠ []) :
    trimEnd (front ++ back) = front ++ trimEnd back := by
  have solid : (back.reverse.dropWhile isBlank).isEmpty = false := by simpa [trimEnd] using kept
  rw [trimEnd, List.reverse_append, List.dropWhile_append, solid]
  simp [trimEnd]

theorem isBlankText_of_trimEnd_eq_nil {text : Text} (trimmed : trimEnd text = []) :
    IsBlankText text := by
  have nothing : text.reverse.dropWhile isBlank = [] := by simpa [trimEnd] using trimmed
  have whole := @List.takeWhile_append_dropWhile _ isBlank text.reverse
  rw [nothing, List.append_nil] at whole
  intro character membership
  rw [← List.mem_reverse, ← whole] at membership
  exact List.all_eq_true.mp List.all_takeWhile character membership

theorem trimEnd_cons {first : Char} (solid : isBlank first = false) (rest : Text) :
    trimEnd (first :: rest) = first :: trimEnd rest := by
  by_cases trimmed : trimEnd rest = []
  · have alone : trimEnd [first] = [first] := trimEnd_eq_self (by simpa using solid)
    calc trimEnd ([first] ++ rest)
        = trimEnd [first] := trimEnd_append (isBlankText_of_trimEnd_eq_nil trimmed) [first]
      _ = first :: trimEnd rest := by rw [alone, trimmed]
  · exact trimEnd_append_of_ne_nil [first] trimmed

theorem trimEnd_prefix (text : Text) : trimEnd text <+: text := by
  rw [trimEnd, ← List.reverse_suffix, List.reverse_reverse]
  exact List.dropWhile_suffix _

theorem isBlank_getLast?_trimEnd {text : Text} {last : Char}
    (isLast : (trimEnd text).getLast? = some last) : isBlank last = false := by
  rw [trimEnd, List.getLast?_reverse] at isLast
  have solid := List.head?_dropWhile_not isBlank text.reverse
  rw [isLast] at solid
  exact solid

/-- Whether a text ends in something that is not blank. -/
def EndsSolid (text : Text) : Prop :=
  text.getLast?.any (!isBlank ·) = true

instance (text : Text) : Decidable (EndsSolid text) :=
  inferInstanceAs (Decidable (_ = true))

section Ending

variable {text back : Text}

theorem EndsSolid.ne_nil (ends : EndsSolid text) : text ≠ [] := by
  rintro rfl
  cases ends

theorem EndsSolid.append (ends : EndsSolid back) (front : Text) : EndsSolid (front ++ back) := by
  have isLast := List.getLast?_eq_some_getLast ends.ne_nil
  rw [EndsSolid, List.getLast?_append, isLast, Option.some_or, ← isLast]
  exact ends

theorem EndsSolid.isBlank_getLast? (ends : EndsSolid text) :
    ∀ last ∈ text.getLast?, isBlank last = false := by
  intro last isLast
  rw [EndsSolid, isLast] at ends
  exact (Bool.not_eq_true' _).mp ends

theorem endsSolid_trimEnd (kept : trimEnd text ≠ []) : EndsSolid (trimEnd text) := by
  rw [EndsSolid, List.getLast?_eq_some_getLast kept, Option.any_some, Bool.not_eq_true']
  exact isBlank_getLast?_trimEnd (List.getLast?_eq_some_getLast kept)

theorem endsSolid_trim {first : Char} (solid : isBlank first = false) (rest : Text) :
    EndsSolid (trim (first :: rest)) := by
  have trimmed : trim (first :: rest) = first :: trimEnd rest := by
    rw [trim, trimStart_eq_self (by simpa using solid), trimEnd_cons solid]
  have kept : trimEnd (first :: rest) ≠ [] := by
    rw [trimEnd_cons solid]
    exact List.cons_ne_nil first _
  rw [trimmed, ← trimEnd_cons solid]
  exact endsSolid_trimEnd kept

end Ending

end ChangeCoverage.Text
