import ChangeCoverage.Text.Number

/-!
Writing numbers and words and reading them back.
-/

namespace ChangeCoverage.Text

theorem isDigit_of_mem_decimal {number : Nat} {character : Char}
    (membership : character ∈ decimal number) : character.isDigit = true :=
  Nat.isDigit_of_mem_toDigits (by decide) (by decide) membership

theorem decimal_ne_nil (number : Nat) : decimal number ≠ [] :=
  Nat.toDigits_ne_nil

theorem ne_of_isDigit {character other : Char} (isDigit : character.isDigit = true)
    (noDigit : other.isDigit = false) : character ≠ other := by
  rintro rfl
  simp [isDigit] at noDigit

/-- A number as its decimal digits, which may begin with zeros. -/
structure IsDecimal (digits : Text) (value : Nat) : Prop where
  filled : digits ≠ []
  solid : ∀ character ∈ digits, character.isDigit = true
  value : Nat.ofDigitChars 10 digits 0 = value

theorem isDecimal_decimal (number : Nat) : IsDecimal (decimal number) number where
  filled := decimal_ne_nil number
  solid _ := isDigit_of_mem_decimal
  value := Nat.ofDigitChars_ten_toDigits

theorem IsDecimal.not_mem {digits : Text} {value : Nat} (isDecimal : IsDecimal digits value)
    {character : Char} (noDigit : character.isDigit = false) : character ∉ digits :=
  fun membership => ne_of_isDigit (isDecimal.solid character membership) noDigit rfl

/-- A number is read from its digits and, just as well, from a plus sign and its digits. -/
theorem number?_eq_some_iff {limit value : Nat} {text : Text} :
    number? limit text = some value ↔
      value < limit ∧ ∃ digits, (text = digits ∨ text = '+' :: digits) ∧
        IsDecimal digits value := by
  constructor
  · intro read
    refine ⟨number?_lt read, (after? ['+'] text).getD text, ?_, ?_⟩
    · cases signed : after? ['+'] text with
      | none => exact .inl rfl
      | some digits => exact .inr (after?_eq_some_iff.mp signed)
    · simp only [number?] at read
      split at read
      next => cases read
      next readable =>
        rw [Bool.not_eq_true, Bool.or_eq_false_iff, Bool.not_eq_false', List.all_eq_true]
          at readable
        split at read
        next => exact ⟨by simpa using readable.1, readable.2, Option.some.inj read⟩
        next => cases read
  · rintro ⟨fits, digits, written, isDecimal⟩
    have read : (after? ['+'] text).getD text = digits := by
      rcases written with rfl | rfl
      · have unsigned : after? ['+'] text = none := by
          rw [Option.eq_none_iff_forall_ne_some]
          intro rest found
          have plus : '+' ∈ text := by
            rw [after?_eq_some_iff.mp found]
            exact List.mem_cons_self
          exact isDecimal.not_mem (by decide) plus
        rw [unsigned]
        rfl
      · rfl
    have readable : (digits.isEmpty || !digits.all Char.isDigit) = false := by
      simpa [isDecimal.filled] using isDecimal.solid
    simp only [number?, read, readable, Bool.false_eq_true, if_false]
    rw [isDecimal.value, if_pos fits]

/-- The first occurrence of a single character splits the text at it. -/
theorem splitFirst?_single {marker : Char} {front : Text} (absent : marker ∉ front)
    (back : Text) : splitFirst? [marker] (front ++ marker :: back) = some (front, back) := by
  induction front with
  | nil => simp [splitFirst?, after?]
  | cons character rest inductionHypothesis =>
      simp only [List.mem_cons, not_or] at absent
      simp [splitFirst?, after?, absent.1, inductionHypothesis absent.2]

/-- A marker is not found before its first character occurs. -/
theorem splitFirst?_append {first : Char} (marker : Text) {front : Text} (absent : first ∉ front)
    (text : Text) :
    splitFirst? (first :: marker) (front ++ text) =
      (splitFirst? (first :: marker) text).map fun parts => (front ++ parts.1, parts.2) := by
  induction front with
  | nil => simp
  | cons character rest inductionHypothesis =>
      simp only [List.mem_cons, not_or] at absent
      simp [splitFirst?, after?, absent.1, inductionHypothesis absent.2, Function.comp_def]

/-- The characters before a blank are collected into the current word. -/
theorem wordsFrom_append {front : Text} (solid : ∀ character ∈ front, isBlank character = false)
    (word rest : Text) :
    wordsFrom word (front ++ rest) = wordsFrom (front.reverse ++ word) rest := by
  induction front generalizing word with
  | nil => rfl
  | cons character following inductionHypothesis =>
      have first := solid character (by simp)
      have later := inductionHypothesis fun other membership =>
        solid other (List.mem_cons_of_mem _ membership)
      simp [wordsFrom, first, later]

theorem words_append_blank {front : Text} (nonempty : front ≠ [])
    (solid : ∀ character ∈ front, isBlank character = false) {blank : Char}
    (isBlank : isBlank blank = true) (rest : Text) :
    words (front ++ blank :: rest) = front :: words rest := by
  simp [words, wordsFrom_append solid, wordsFrom, isBlank, nonempty]

theorem words_of_solid {text : Text} (nonempty : text ≠ [])
    (solid : ∀ character ∈ text, isBlank character = false) : words text = [text] := by
  have collected := wordsFrom_append solid [] []
  simp only [List.append_nil] at collected
  simp [words, collected, wordsFrom, nonempty]

end ChangeCoverage.Text
