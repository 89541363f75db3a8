import ChangeCoverage.Patch.Header
import ChangeCoverage.Proofs.Text.Cutting

/-!
The form of hunk headers.  Behind the opening marker stand the ranges of the two
files, up to the first closing marker, and a line is read as a header exactly if it
has this form.  A range begins with the sign of its file.  Each of its numbers is
also read with a plus sign of its own, which no written header has.
-/

namespace ChangeCoverage.Patch.Header

/-- A 64-bit number as its digits, behind a plus sign if signs are admitted. -/
def IsNumber (signed : Bool) (text : Text) (number : Nat) : Prop :=
  number < Text.limit64 ∧
    ∃ digits, (text = digits ∨ signed = true ∧ text = '+' :: digits) ∧
      Text.IsDecimal digits number

/-- A range behind the sign of its file: a start, and a length unless it is one. -/
inductive IsRange (signed : Bool) : Text → Nat → Nat → Prop where
  | start {text : Text} {start : Nat} :
      IsNumber signed text start → IsRange signed text start 1
  | both {startText lengthText : Text} {start length : Nat} :
      IsNumber signed startText start →
      IsNumber signed lengthText length →
      IsRange signed (startText ++ ',' :: lengthText) start length

/-- A line that gives the ranges of a header between two markers. -/
inductive HasForm (signed : Bool) (line : Text) (header : Header) : Prop where
  | ranges {rest ranges heading old new : Text} :
      line = marker ++ [' '] ++ rest →
      Text.CutsFirst (' ' :: marker) rest ranges heading →
      Text.HoldsPair ranges ('-' :: old) ('+' :: new) →
      IsRange signed old header.oldStart header.oldLength →
      IsRange signed new header.newStart header.newLength →
      HasForm signed line header

section Reading

variable {line text : Text} {number start length : Nat} {header : Header}

theorem number?_eq_some_iff :
    Text.number? Text.limit64 text = some number ↔ IsNumber true text number := by
  simp only [Text.number?_eq_some_iff, IsNumber, true_and]

theorem IsNumber.not_mem_comma {signed : Bool} (isNumber : IsNumber signed text number) :
    ',' ∉ text := by
  obtain ⟨-, digits, written, isDecimal⟩ := isNumber
  have absent : ',' ∉ digits := isDecimal.not_mem (by decide)
  rcases written with rfl | ⟨-, rfl⟩
  · exact absent
  · rw [List.mem_cons, not_or]
    exact ⟨by decide, absent⟩

theorem splitFirst?_comma_eq_none (absent : ',' ∉ text) :
    Text.splitFirst? [','] text = none := by
  rw [Option.eq_none_iff_forall_ne_some]
  intro parts found
  apply absent
  rw [(Text.splitFirst?_eq_some_iff.mp found).whole]
  simp

theorem range?_eq_some_iff :
    range? text = some (start, length) ↔ IsRange true text start length := by
  constructor
  · intro read
    unfold range? at read
    split at read
    next startText lengthText split =>
      obtain ⟨startNumber, startRead, read⟩ := Option.bind_eq_some_iff.mp read
      obtain ⟨lengthNumber, lengthRead, read⟩ := Option.bind_eq_some_iff.mp read
      obtain ⟨rfl, rfl⟩ := Prod.mk.inj (Option.some.inj read)
      have whole := (Text.splitFirst?_eq_some_iff.mp split).whole
      rw [List.append_assoc] at whole
      rw [whole]
      exact .both (number?_eq_some_iff.mp startRead) (number?_eq_some_iff.mp lengthRead)
    next =>
      obtain ⟨startNumber, startRead, read⟩ := Option.map_eq_some_iff.mp read
      obtain ⟨rfl, rfl⟩ := Prod.mk.inj read
      exact .start (number?_eq_some_iff.mp startRead)
  · intro isRange
    cases isRange with
    | start isNumber =>
        have unsplit := splitFirst?_comma_eq_none isNumber.not_mem_comma
        simp only [range?, unsplit, number?_eq_some_iff.mpr isNumber, Option.map_some]
    | both isStart isLength =>
        have split := Text.splitFirst?_single isStart.not_mem_comma
        simp only [range?, split, number?_eq_some_iff.mpr isStart,
          number?_eq_some_iff.mpr isLength, Option.bind_eq_bind, Option.bind_some]

theorem parse?_eq_some_iff : parse? line = some header ↔ HasForm true line header := by
  constructor
  · intro read
    obtain ⟨rest, opened, read⟩ := Option.bind_eq_some_iff.mp read
    obtain ⟨⟨ranges, heading⟩, cut, read⟩ := Option.bind_eq_some_iff.mp read
    simp only at read
    split at read
    next old new pair =>
      obtain ⟨oldRange, oldSigned, read⟩ := Option.bind_eq_some_iff.mp read
      obtain ⟨newRange, newSigned, read⟩ := Option.bind_eq_some_iff.mp read
      obtain ⟨⟨oldStart, oldLength⟩, oldRead, read⟩ := Option.bind_eq_some_iff.mp read
      obtain ⟨⟨newStart, newLength⟩, newRead, read⟩ := Option.bind_eq_some_iff.mp read
      obtain rfl := Option.some.inj read
      rw [Text.after?_eq_some_iff.mp oldSigned, Text.after?_eq_some_iff.mp newSigned] at pair
      exact .ranges (Text.after?_eq_some_iff.mp opened) (Text.splitFirst?_eq_some_iff.mp cut)
        (Text.words_eq_pair_iff.mp pair) (range?_eq_some_iff.mp oldRead)
        (range?_eq_some_iff.mp newRead)
    next => cases read
  · rintro ⟨opened, cut, pair, oldRange, newRange⟩
    simp only [parse?, Text.after?_eq_some_iff.mpr opened, Text.splitFirst?_eq_some_iff.mpr cut,
      Text.words_eq_pair_iff.mpr pair, Text.after?, if_true, range?_eq_some_iff.mpr oldRange,
      range?_eq_some_iff.mpr newRange, Option.bind_eq_bind, Option.bind_some]

end Reading

section Signs

variable {signed : Bool} {line text : Text} {number start length : Nat} {header : Header}

theorem IsNumber.admitSigns (isNumber : IsNumber signed text number) :
    IsNumber true text number := by
  obtain ⟨fits, digits, written, isDecimal⟩ := isNumber
  refine ⟨fits, digits, ?_, isDecimal⟩
  rcases written with unsigned | ⟨-, plus⟩
  · exact .inl unsigned
  · exact .inr ⟨rfl, plus⟩

theorem IsRange.admitSigns (isRange : IsRange signed text start length) :
    IsRange true text start length := by
  cases isRange with
  | start isNumber => exact .start isNumber.admitSigns
  | both isStart isLength => exact .both isStart.admitSigns isLength.admitSigns

theorem HasForm.admitSigns (hasForm : HasForm signed line header) : HasForm true line header := by
  obtain ⟨opened, cut, pair, oldRange, newRange⟩ := hasForm
  exact .ranges opened cut pair oldRange.admitSigns newRange.admitSigns

/-- A range whose numbers have no signs begins with a digit. -/
theorem IsRange.isDigit_head (isRange : IsRange false text start length) :
    ∀ first ∈ text.head?, first.isDigit = true := by
  have digitFirst {text : Text} {number : Nat} (isNumber : IsNumber false text number)
      (rest : Text) : ∀ first ∈ (text ++ rest).head?, first.isDigit = true := by
    obtain ⟨-, digits, rfl | ⟨isSigned, -⟩, isDecimal⟩ := isNumber
    · obtain ⟨digit, others, rfl⟩ := List.exists_cons_of_ne_nil isDecimal.filled
      intro first isFirst
      obtain rfl := Option.some.inj isFirst
      exact isDecimal.solid _ List.mem_cons_self
    · cases isSigned
  cases isRange with
  | start isNumber => simpa using digitFirst isNumber []
  | both isStart _ => exact digitFirst isStart _

end Signs

/-- A line is read as a header exactly if it has the form of one in which each number may
have a plus sign, so that every header without such signs is read, and any other line is
given back as malformed. -/
theorem parse_eq_ok_iff_and_eq_error_iff (line : Text) :
    (∀ header, parse line = .ok header ↔ HasForm true line header) ∧
      (∀ failure, parse line = .error failure ↔
        failure = .malformedHunkHeader line ∧ ∀ header, ¬HasForm true line header) ∧
      ∀ header, HasForm false line header → parse line = .ok header := by
  have accepted (header : Header) : parse line = .ok header ↔ HasForm true line header := by
    rw [← parse?_eq_some_iff, parse]
    cases parse? line <;> simp
  refine ⟨accepted, ?_, ?_⟩
  · intro failure
    have formless : (∀ header, ¬HasForm true line header) ↔ parse? line = none := by
      rw [Option.eq_none_iff_forall_ne_some]
      exact forall_congr' fun header => not_congr parse?_eq_some_iff.symm
    rw [formless, parse]
    cases parse? line <;> simp [eq_comm]
  · intro header hasForm
    exact (accepted header).mpr hasForm.admitSigns

/-- A header with leading zeros, a tab between its ranges and a heading that holds the
marker once more. -/
def sampleHeader : Text := "@@ -007,010\t+1 @@ @@ -9 @@".toList

theorem parse_eq_ok_iff_and_eq_error_iff_sample :
    HasForm false sampleHeader ⟨7, 10, 1, 1⟩ ∧ parse sampleHeader = .ok ⟨7, 10, 1, 1⟩ := by
  have cut : Text.CutsFirst (' ' :: marker) "-007,010\t+1 @@ @@ -9 @@".toList
      "-007,010\t+1".toList " @@ -9 @@".toList :=
    Text.splitFirst?_eq_some_iff.mp (by decide +kernel)
  have pair : Text.HoldsPair "-007,010\t+1".toList "-007,010".toList "+1".toList :=
    Text.words_eq_pair_iff.mp (by decide +kernel)
  have start : IsNumber false "007".toList 7 :=
    ⟨by decide, _, .inl rfl, by decide, List.all_eq_true.mp (by decide), by decide⟩
  have length : IsNumber false "010".toList 10 :=
    ⟨by decide, _, .inl rfl, by decide, List.all_eq_true.mp (by decide), by decide⟩
  have one : IsNumber false "1".toList 1 :=
    ⟨by decide, _, .inl rfl, by decide, List.all_eq_true.mp (by decide), by decide⟩
  have hasForm : HasForm false sampleHeader ⟨7, 10, 1, 1⟩ :=
    .ranges rfl cut pair (.both start length) (.start one)
  exact ⟨hasForm, (parse_eq_ok_iff_and_eq_error_iff sampleHeader).2.2 _ hasForm⟩

/-- A header is read although its first start has a sign of its own. -/
theorem not_parse_eq_ok_iff_unsigned :
    ¬∀ line header, parse line = .ok header ↔ HasForm false line header := by
  intro unsigned
  have read : parse? "@@ -+1 +1 @@".toList = some ⟨1, 1, 1, 1⟩ := by decide +kernel
  have parsed : parse "@@ -+1 +1 @@".toList = .ok ⟨1, 1, 1, 1⟩ := by rw [parse, read]
  obtain @⟨rest, ranges, heading, old, new, opened, cut, pair, oldRange, -⟩ :=
    (unsigned _ _).mp parsed
  have opens : "@@ -+1 +1 @@".toList = marker ++ [' '] ++ "-+1 +1 @@".toList := rfl
  obtain rfl := List.append_cancel_left (opens.symm.trans opened)
  have found : Text.splitFirst? (' ' :: marker) "-+1 +1 @@".toList =
      some ("-+1 +1".toList, []) := by decide +kernel
  obtain ⟨rfl, -⟩ := (Text.splitFirst?_eq_some_iff.mp found).unique cut
  have words : Text.words "-+1 +1".toList = ["-+1".toList, "+1".toList] := by decide +kernel
  have oldWord := (List.cons.inj (words.symm.trans (Text.words_eq_pair_iff.mpr pair))).1
  obtain rfl := (List.cons.inj oldWord).2
  have isDigit := oldRange.isDigit_head '+' rfl
  cases isDigit

end ChangeCoverage.Patch.Header
