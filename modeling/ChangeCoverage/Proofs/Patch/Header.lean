import ChangeCoverage.Proofs.Patch.HeaderForm

/-!
Writing hunk headers and reading them back.
-/

namespace ChangeCoverage.Patch

/-- A range as a header gives it.  In brief form a length of one is left out. -/
def rangeText (brief : Bool) (start length : Nat) : Text :=
  Text.decimal start ++ if brief && length == 1 then [] else ',' :: Text.decimal length

namespace Header

/-- The header of a hunk as a line, with a heading after it. -/
def render (brief : Bool) (header : Header) (heading : Text) : Text :=
  ['@', '@', ' ', '-'] ++ rangeText brief header.oldStart header.oldLength ++
    [' ', '+'] ++ rangeText brief header.newStart header.newLength ++ [' ', '@', '@'] ++ heading

structure Fits (header : Header) : Prop where
  oldStart : header.oldStart < Text.limit64
  oldLength : header.oldLength < Text.limit64
  newStart : header.newStart < Text.limit64
  newLength : header.newLength < Text.limit64

theorem isNumber_decimal {number : Nat} (fits : number < Text.limit64) :
    IsNumber false (Text.decimal number) number :=
  ⟨fits, _, .inl rfl, Text.isDecimal_decimal number⟩

theorem isRange_rangeText (brief : Bool) {start length : Nat} (startFits : start < Text.limit64)
    (lengthFits : length < Text.limit64) :
    IsRange false (rangeText brief start length) start length := by
  unfold rangeText
  split
  next leftOut =>
    obtain rfl : length = 1 := by simp_all
    rw [List.append_nil]
    exact .start (isNumber_decimal startFits)
  next => exact .both (isNumber_decimal startFits) (isNumber_decimal lengthFits)

theorem mem_rangeText {brief : Bool} {start length : Nat} {character : Char}
    (membership : character ∈ rangeText brief start length) :
    character.isDigit = true ∨ character = ',' := by
  unfold rangeText at membership
  rcases List.mem_append.mp membership with inStart | inLength
  · exact .inl (Text.isDigit_of_mem_decimal inStart)
  · split at inLength
    · simp at inLength
    · rcases List.mem_cons.mp inLength with comma | inDigits
      · exact .inr comma
      · exact .inl (Text.isDigit_of_mem_decimal inDigits)

theorem not_mem_rangeText {brief : Bool} {start length : Nat} {character : Char}
    (noDigit : character.isDigit = false) (noComma : character ≠ ',') :
    character ∉ rangeText brief start length := by
  intro membership
  rcases mem_rangeText membership with isDigit | isComma
  · exact Text.ne_of_isDigit isDigit noDigit rfl
  · exact noComma isComma

theorem solid_of_mem_rangeText {brief : Bool} {start length : Nat} {character : Char}
    (membership : character ∈ rangeText brief start length) :
    Text.isBlank character = false := by
  rcases mem_rangeText membership with isDigit | rfl
  · simp only [Char.isDigit, ge_iff_le, Bool.and_eq_true, decide_eq_true_eq,
      UInt32.le_iff_toNat_le] at isDigit
    obtain ⟨atLeast, atMost⟩ := isDigit
    have atLeast : 48 ≤ character.toNat := atLeast
    have atMost : character.toNat ≤ 57 := atMost
    have notSpace : character ≠ ' ' := by
      rintro rfl
      exact absurd atLeast (by decide)
    simp only [Text.isBlank, Bool.or_eq_false_iff, Bool.and_eq_false_iff, beq_eq_false_iff_ne,
      decide_eq_false_iff_not]
    exact ⟨⟨notSpace, by omega⟩, by omega⟩
  · decide

/-- The ranges of a rendered header end at its first closing marker. -/
theorem splitFirst?_ranges {old new : Text} (oldSolid : ' ' ∉ old) (newSolid : ' ' ∉ new)
    (heading : Text) :
    Text.splitFirst? (' ' :: marker) (old ++ [' ', '+'] ++ new ++ [' ', '@', '@'] ++ heading) =
      some (old ++ ' ' :: '+' :: new, heading) := by
  have newSplit := Text.splitFirst?_append marker newSolid
    ([' ', '@', '@'] ++ heading)
  have closing : Text.splitFirst? (' ' :: marker) ([' ', '@', '@'] ++ heading) =
      some ([], heading) := by
    simp [Text.splitFirst?, Text.after?, marker]
  rw [closing] at newSplit
  have oldSplit := Text.splitFirst?_append marker oldSolid
    ([' ', '+'] ++ (new ++ ([' ', '@', '@'] ++ heading)))
  have between : Text.splitFirst? (' ' :: marker)
      ([' ', '+'] ++ (new ++ ([' ', '@', '@'] ++ heading))) =
        some (' ' :: '+' :: new, heading) := by
    simp only [List.cons_append, List.nil_append] at newSplit ⊢
    simp [Text.splitFirst?, Text.after?, marker] at newSplit ⊢
    simp [newSplit]
  rw [between] at oldSplit
  simpa using oldSplit

/-- A range with its sign is a word. -/
theorem isWord_rangeText {sign : Char} (solid : Text.isBlank sign = false) (brief : Bool)
    (start length : Nat) : Text.IsWord (sign :: rangeText brief start length) where
  filled := List.cons_ne_nil _ _
  solid := by
    rw [List.forall_mem_cons]
    exact ⟨solid, fun _ => solid_of_mem_rangeText⟩

theorem hasForm_render (brief : Bool) {header : Header} (fits : header.Fits) (heading : Text) :
    HasForm false (header.render brief heading) header := by
  have oldWord : Text.IsWord ('-' :: rangeText brief header.oldStart header.oldLength) :=
    isWord_rangeText (by decide) brief _ _
  have newWord : Text.IsWord ('+' :: rangeText brief header.newStart header.newLength) :=
    isWord_rangeText (by decide) brief _ _
  have noSpace {word : Text} (isWord : Text.IsWord word) : ' ' ∉ word := fun membership =>
    absurd (isWord.solid ' ' membership) (by decide)
  have newSolid : ' ' ∉ rangeText brief header.newStart header.newLength := fun membership =>
    noSpace newWord (List.mem_cons_of_mem _ membership)
  have cut := Text.splitFirst?_eq_some_iff.mp
    (splitFirst?_ranges (noSpace oldWord) newSolid heading)
  have pair : Text.HoldsPair ('-' :: rangeText brief header.oldStart header.oldLength ++
      ' ' :: '+' :: rangeText brief header.newStart header.newLength)
        ('-' :: rangeText brief header.oldStart header.oldLength)
        ('+' :: rangeText brief header.newStart header.newLength) :=
    ⟨oldWord, newWord, [], [' '], [], by decide, by decide, by decide, by decide, by simp⟩
  refine .ranges ?_ cut pair (isRange_rangeText brief fits.oldStart fits.oldLength)
    (isRange_rangeText brief fits.newStart fits.newLength)
  simp [render, marker]

theorem parse?_render (brief : Bool) {header : Header} (fits : header.Fits) (heading : Text) :
    parse? (header.render brief heading) = some header :=
  parse?_eq_some_iff.mpr (hasForm_render brief fits heading).admitSigns

end Header

end ChangeCoverage.Patch
