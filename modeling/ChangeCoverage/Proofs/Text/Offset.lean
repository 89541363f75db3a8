import ChangeCoverage.Text.Offset
import ChangeCoverage.Text.Blank

/-!
Cutting a text at the offset where one of its parts ends.
-/

namespace ChangeCoverage.Text

theorem splitAt?_append (front back : Text) :
    splitAt? (byteSize front) (front ++ back) = some (front, back) := by
  induction front with
  | nil => rw [byteSize_nil, splitAt?.eq_def, List.nil_append]
  | cons character rest inductionHypothesis =>
      have positive := character.utf8Size_pos
      obtain ⟨offset, offsetEq⟩ : ∃ offset, byteSize (character :: rest) = offset + 1 :=
        ⟨character.utf8Size - 1 + byteSize rest, by rw [byteSize_cons]; omega⟩
      have within : character.utf8Size ≤ offset + 1 := by
        rw [← offsetEq, byteSize_cons]
        omega
      have left : offset + 1 - character.utf8Size = byteSize rest := by
        rw [← offsetEq, byteSize_cons]
        omega
      rw [offsetEq, List.cons_append, splitAt?, if_pos within, left, inductionHypothesis]
      rfl

theorem dropBytes?_append (front back : Text) :
    dropBytes? (byteSize front) (front ++ back) = some back := by
  rw [dropBytes?, splitAt?_append]
  rfl

theorem dropTo_append (front back : Text) :
    dropTo (byteSize front) (front ++ back) = (0, back) := by
  induction front with
  | nil => rw [byteSize_nil, dropTo.eq_def, List.nil_append]
  | cons character rest inductionHypothesis =>
      have positive := character.utf8Size_pos
      obtain ⟨offset, offsetEq⟩ : ∃ offset, byteSize (character :: rest) = offset + 1 :=
        ⟨character.utf8Size - 1 + byteSize rest, by rw [byteSize_cons]; omega⟩
      have within : character.utf8Size ≤ offset + 1 := by
        rw [← offsetEq, byteSize_cons]
        omega
      have left : offset + 1 - character.utf8Size = byteSize rest := by
        rw [← offsetEq, byteSize_cons]
        omega
      rw [offsetEq, List.cons_append, dropTo, if_pos within, left, inductionHypothesis]

theorem slice?_append (front middle back : Text) :
    slice? (byteSize front) (byteSize front + byteSize middle) (front ++ (middle ++ back)) =
      some middle := by
  rw [slice?, if_pos (Nat.le_add_right _ _), dropBytes?_append, Option.bind_some,
    Nat.add_sub_cancel_left, splitAt?_append]
  rfl

/-- A text is cut in one way only at an offset. -/
theorem append_inj_of_byteSize {front back otherFront otherBack : Text}
    (whole : front ++ back = otherFront ++ otherBack)
    (sameSize : byteSize front = byteSize otherFront) : front = otherFront ∧ back = otherBack := by
  have split := splitAt?_append front back
  rw [whole, sameSize, splitAt?_append] at split
  obtain ⟨frontEq, backEq⟩ := Prod.mk.inj (Option.some.inj split)
  exact ⟨frontEq.symm, backEq.symm⟩

theorem dropBytes?_eq_some_iff {offset : Nat} {text back : Text} :
    dropBytes? offset text = some back ↔
      ∃ front, text = front ++ back ∧ byteSize front = offset := by
  constructor
  · intro dropped
    obtain ⟨⟨front, _⟩, split, rfl⟩ := Option.map_eq_some_iff.mp dropped
    exact ⟨front, splitAt?_sound split⟩
  · rintro ⟨front, rfl, rfl⟩
    exact dropBytes?_append front back

theorem dropTo_of_dropBytes? {offset : Nat} {text back : Text}
    (dropped : dropBytes? offset text = some back) : dropTo offset text = (0, back) := by
  obtain ⟨front, rfl, rfl⟩ := dropBytes?_eq_some_iff.mp dropped
  exact dropTo_append front back

theorem slice?_eq_some_iff {start stop : Nat} {text middle : Text} :
    slice? start stop text = some middle ↔
      ∃ front back, text = front ++ (middle ++ back) ∧ byteSize front = start ∧
        start + byteSize middle = stop := by
  constructor
  · intro sliced
    unfold slice? at sliced
    split at sliced
    next ordered =>
      obtain ⟨rest, dropped, cut⟩ := Option.bind_eq_some_iff.mp sliced
      obtain ⟨front, rfl, frontSize⟩ := dropBytes?_eq_some_iff.mp dropped
      obtain ⟨⟨_, back⟩, split, rfl⟩ := Option.map_eq_some_iff.mp cut
      obtain ⟨rfl, middleSize⟩ := splitAt?_sound split
      refine ⟨front, back, rfl, frontSize, ?_⟩
      rw [middleSize]
      omega
    next => cases sliced
  · rintro ⟨front, back, rfl, rfl, rfl⟩
    exact slice?_append front middle back

/-- Whether an offset is a position of a text. -/
def IsPosition (text : Text) (offset : Nat) : Prop :=
  ∃ front back, text = front ++ back ∧ byteSize front = offset

/-- Whether a character of a text starts at an offset. -/
def HasAt (character : Char) (text : Text) (offset : Nat) : Prop :=
  ∃ front back, text = front ++ character :: back ∧ byteSize front = offset

section Position

variable {text : Text} {character : Char} {offset : Nat}

theorem HasAt.isPosition (held : HasAt character text offset) : IsPosition text offset := by
  obtain ⟨front, back, textEq, size⟩ := held
  exact ⟨front, character :: back, textEq, size⟩

theorem HasAt.isPosition_behind (held : HasAt character text offset) :
    IsPosition text (offset + character.utf8Size) := by
  obtain ⟨front, back, rfl, rfl⟩ := held
  exact ⟨front ++ [character], back, by simp, by simp⟩

theorem hasAt_of_dropBytes? {middle back : Text}
    (dropped : dropBytes? offset text = some (middle ++ character :: back)) :
    HasAt character text (offset + byteSize middle) := by
  obtain ⟨front, rfl, rfl⟩ := dropBytes?_eq_some_iff.mp dropped
  exact ⟨front ++ middle, back, (List.append_assoc _ _ _).symm, byteSize_append front middle⟩

/-- What is cut from a text at a character begins with it. -/
theorem HasAt.eq_cons_of_dropBytes? {back : Text} (held : HasAt character text offset)
    (cut : Text.dropBytes? offset text = some back) : ∃ rest, back = character :: rest := by
  obtain ⟨front, others, rfl, rfl⟩ := held
  rw [dropBytes?_append] at cut
  exact ⟨others, (Option.some.inj cut).symm⟩

theorem HasAt.eq_cons_of_slice? {stop : Nat} {middle : Text} (held : HasAt character text offset)
    (longer : offset < stop) (cut : Text.slice? offset stop text = some middle) :
    ∃ rest, middle = character :: rest := by
  obtain ⟨front, others, rfl, rfl⟩ := held
  obtain ⟨otherFront, back, whole, sameSize, stopEq⟩ := slice?_eq_some_iff.mp cut
  have same := (append_inj_of_byteSize whole sameSize.symm).2
  cases middle with
  | nil => exact absurd stopEq (Nat.ne_of_lt longer)
  | cons first rest =>
      obtain ⟨rfl, -⟩ := List.cons.inj same
      exact ⟨rest, rfl⟩

theorem isPosition_iff : IsPosition text offset ↔ ∃ back, dropBytes? offset text = some back := by
  constructor
  · rintro ⟨front, back, split⟩
    exact ⟨back, dropBytes?_eq_some_iff.mpr ⟨front, split⟩⟩
  · rintro ⟨back, dropped⟩
    obtain ⟨front, split⟩ := dropBytes?_eq_some_iff.mp dropped
    exact ⟨front, back, split⟩

theorem IsPosition.exists_slice? {start stop : Nat} (isStart : IsPosition text start)
    (isStop : IsPosition text stop) (ordered : start ≤ stop) :
    ∃ middle, slice? start stop text = some middle := by
  obtain ⟨front, rest, rfl, rfl⟩ := isStart
  obtain ⟨longer, back, whole, rfl⟩ := isStop
  rcases List.append_eq_append_iff.mp whole with ⟨middle, rfl, rfl⟩ | ⟨more, rfl, rfl⟩
  · refine ⟨middle, slice?_eq_some_iff.mpr ⟨front, back, rfl, rfl, ?_⟩⟩
    rw [byteSize_append]
  · refine ⟨[], slice?_eq_some_iff.mpr ⟨longer ++ more, rest, rfl, rfl, ?_⟩⟩
    rw [byteSize_append] at ordered ⊢
    rw [byteSize_nil]
    omega

end Position

theorem trim_eq_self {first last : Char} (middle : Text) (firstSolid : isBlank first = false)
    (lastSolid : isBlank last = false) :
    trim (first :: (middle ++ [last])) = first :: (middle ++ [last]) := by
  have start : trimStart (first :: (middle ++ [last])) = first :: (middle ++ [last]) := by
    rw [trimStart, List.dropWhile_cons_of_neg (by simp [firstSolid])]
  have reversed : (first :: (middle ++ [last])).reverse = last :: (middle.reverse ++ [first]) := by
    simp
  rw [trim, start, trimEnd, reversed, List.dropWhile_cons_of_neg (by simp [lastSolid]), ← reversed,
    List.reverse_reverse]

end ChangeCoverage.Text
