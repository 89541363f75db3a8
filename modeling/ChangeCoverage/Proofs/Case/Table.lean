import ChangeCoverage.Case.Table
import ChangeCoverage.Proofs.Branch.HeaderText
import ChangeCoverage.Proofs.Case.FirstSeen

/-!
Reading a table of cases back.  A column ends behind its word, however long that is, and
a blank column repeats the name above it, so that a row gives its case to a reader who
knows the case above.  The cases of every source can be read back in this way.
-/

namespace ChangeCoverage.Case

open Source.Declaration (names names_le_words)
open Source.Pattern (startingWith)

section Reading

/-- The word in the column at the front of a text, and what stands behind the column.
A word that is longer than the column is wide moves the end of the column. -/
def readColumn (width : Nat) (text : Text) : Text × Text :=
  let word := text.takeWhile (!Text.isBlank ·)
  (word, text.drop (max width word.length + 1))

/-- The name that the word in a column stands for. -/
def readName (above : Option Text) (word : Text) : Option Text :=
  if word = [] then above else if word = ['-'] then none else some word

def readRow (above : Option Case) (text : Text) : Case :=
  let (typeWord, behindType) := readColumn 20 text
  let (methodWord, condition) := readColumn 20 behindType
  { scope :=
      { typeName := readName (above.bind (·.scope.typeName)) typeWord
        methodName := readName (above.bind (·.scope.methodName)) methodWord }
    condition }

def readRowsBelow (above : Option Case) : List Text → List Case
  | [] => []
  | text :: rest =>
      let case := readRow above text
      case :: readRowsBelow (some case) rest

def readRows (table : List Text) : List Case :=
  readRowsBelow none table

end Reading

/-- Whether the names of a case are missing or identifiers, and its condition ends in
something that is not blank. -/
structure Legible (case : Case) : Prop where
  typeName : ∀ name ∈ case.scope.typeName, name ∈ names
  methodName : ∀ name ∈ case.scope.methodName, name ∈ names
  condition : case.condition ≠ []
  ending : ∀ last ∈ case.condition.getLast?, Text.isBlank last = false

instance (name : Text) : Decidable (name ∈ names) :=
  inferInstanceAs (Decidable (name ∈ startingWith Text.isNameStart Text.isWordCharacter))

instance (case : Case) : Decidable case.Legible :=
  have : Decidable (∀ name ∈ case.scope.typeName, name ∈ names) :=
    Option.decidableForallMem _
  have : Decidable (∀ name ∈ case.scope.methodName, name ∈ names) :=
    Option.decidableForallMem _
  have : Decidable (∀ last ∈ case.condition.getLast?, Text.isBlank last = false) :=
    Option.decidableForallMem _
  decidable_of_iff (_ ∧ _ ∧ case.condition ≠ [] ∧ _)
    ⟨fun ⟨typeName, methodName, condition, ending⟩ => ⟨typeName, methodName, condition, ending⟩,
      fun legible => ⟨legible.typeName, legible.methodName, legible.condition, legible.ending⟩⟩

variable {above : Option Case} {case : Case} {cases others : List Case}

section Columns

variable {name repeated : Option Text} {blank : Bool}

theorem readColumn_padRight {word : Text}
    (solid : ∀ character ∈ word, Text.isBlank character = false) (width : Nat) (rest : Text) :
    readColumn width (Text.padRight width word ++ ' ' :: rest) = (word, rest) := by
  have padded : Text.padRight width word = word ++ List.replicate (width - word.length) ' ' := rfl
  have isSolid : ∀ character ∈ word, (!Text.isBlank character) = true := by
    intro character membership
    rw [solid character membership, Bool.not_false]
  have stops : (List.replicate (width - word.length) ' ' ++ ' ' :: rest).takeWhile
      (!Text.isBlank ·) = [] := by
    cases width - word.length <;> rfl
  have taken : (Text.padRight width word ++ ' ' :: rest).takeWhile (!Text.isBlank ·) = word := by
    rw [padded, List.append_assoc, List.takeWhile_append_of_pos isSolid, stops, List.append_nil]
  have ends : (Text.padRight width word).length = max width word.length := List.length_rightpad
  rw [readColumn, taken, ← ends, List.drop_length_add_append, List.drop_one, List.tail_cons]

theorem readName_nameOrDash (named : ∀ given ∈ name, given ∈ names)
    (repeats : blank = true → repeated = name) :
    readName repeated (if blank then [] else nameOrDash name) = name := by
  cases blank with
  | true => exact repeats rfl
  | false =>
      cases name with
      | none => rfl
      | some given =>
          obtain ⟨first, later, rfl, starts, -⟩ := named given rfl
          have noDash : first :: later ≠ ['-'] := by
            rintro ⟨rfl, -⟩
            exact absurd starts (by decide)
          rw [if_neg Bool.false_ne_true, nameOrDash, Option.getD_some, readName,
            if_neg (List.cons_ne_nil first later), if_neg noDash]

theorem solid_nameOrDash (named : ∀ given ∈ name, given ∈ names) :
    ∀ character ∈ (if blank then [] else nameOrDash name), Text.isBlank character = false := by
  cases blank with
  | true => exact fun character membership => absurd membership List.not_mem_nil
  | false =>
      cases name with
      | none =>
          intro character membership
          obtain rfl := List.mem_singleton.mp membership
          decide
      | some given =>
          intro character membership
          have isWord := names_le_words (named given rfl) character membership
          rw [Bool.eq_false_iff]
          intro isBlank
          rw [Text.isWordCharacter_of_isBlank isBlank] at isWord
          cases isWord

end Columns

/-- A repeated name is the one above. -/
theorem bind_eq_of_any {nameOf : Case → Option Text}
    (same : above.any (fun other => nameOf other = nameOf case) = true) :
    above.bind nameOf = nameOf case := by
  cases above with
  | none => cases same
  | some other => exact of_decide_eq_true same

theorem Legible.trimEnd_append (legible : case.Legible) (front : Text) :
    Text.trimEnd (front ++ ' ' :: case.condition) = front ++ ' ' :: case.condition := by
  have kept := Text.trimEnd_eq_self legible.ending
  have solid : Text.trimEnd case.condition ≠ [] := by
    rw [kept]
    exact legible.condition
  calc Text.trimEnd (front ++ ' ' :: case.condition)
      = Text.trimEnd (front ++ [' '] ++ case.condition) := by rw [List.append_assoc]; rfl
    _ = front ++ [' '] ++ Text.trimEnd case.condition :=
        Text.trimEnd_append_of_ne_nil (front ++ [' ']) solid
    _ = front ++ ' ' :: case.condition := by rw [kept, List.append_assoc]; rfl

/-- The row of a case gives the case back to a reader who knows the case above. -/
theorem readRow_row (legible : case.Legible) (above : Option Case) :
    readRow above (row above case) = case := by
  have sameType : (above.any fun other => other.scope.typeName = case.scope.typeName) = true →
      above.bind (·.scope.typeName) = case.scope.typeName := bind_eq_of_any
  have sameMethod : ((above.any fun other => other.scope.typeName = case.scope.typeName) &&
      above.any fun other => other.scope.methodName = case.scope.methodName) = true →
        above.bind (·.scope.methodName) = case.scope.methodName := fun same =>
    bind_eq_of_any (Bool.and_eq_true_iff.mp same).2
  rw [row, legible.trimEnd_append, List.append_assoc, List.cons_append]
  simp only [readRow, readColumn_padRight (solid_nameOrDash legible.typeName),
    readColumn_padRight (solid_nameOrDash legible.methodName),
    readName_nameOrDash legible.typeName sameType,
    readName_nameOrDash legible.methodName sameMethod]

theorem readRowsBelow_rowsBelow (legible : ∀ case ∈ cases, case.Legible) (above : Option Case) :
    readRowsBelow above (rowsBelow above cases) = cases := by
  induction cases generalizing above with
  | nil => rfl
  | cons case rest inductionHypothesis =>
      obtain ⟨isLegible, restLegible⟩ := List.forall_mem_cons.mp legible
      rw [rowsBelow, readRowsBelow, readRow_row isLegible, inductionHypothesis restLegible]

/-- A table gives back every name and every condition of its cases, although repeated
names are left blank. -/
theorem readRows_rows_and_rows_inj (legible : ∀ case ∈ cases, case.Legible)
    (othersLegible : ∀ case ∈ others, case.Legible) :
    readRows (rows cases) = cases ∧ (rows cases = rows others → cases = others) := by
  have read := readRowsBelow_rowsBelow legible none
  have othersRead := readRowsBelow_rowsBelow othersLegible none
  refine ⟨read, fun same => ?_⟩
  calc cases = readRows (rows cases) := read.symm
    _ = readRows (rows others) := by rw [same]
    _ = others := othersRead

section Sample

def caseOf (typeName methodName : Option String) (condition : String) : Case where
  scope := { typeName := typeName.map String.toList, methodName := methodName.map String.toList }
  condition := condition.toList

def repeating : List Case :=
  [caseOf (some "Calc") (some "Sign") "if (x > 0) → true",
    caseOf (some "Calc") none "switch (mode)",
    caseOf none none "case 1:",
    caseOf (some "NameThatIsLongerThanItsColumn") none "if (ok) → true",
    caseOf (some "NameThatIsLongerThanItsColumn") none "if (ok) → false"]

/-- Two of the cases with a name where the others have none. -/
def named : List Case :=
  [caseOf (some "Calc") (some "Sign") "if (x > 0) → true",
    caseOf (some "Calc") (some "Sign") "switch (mode)"]

end Sample

theorem readRows_rows_and_rows_inj_repeating :
    readRows (rows repeating) = repeating ∧ rows (repeating.take 2) ≠ rows named ∧
      rows repeating =
        ["Calc                 Sign                 if (x > 0) → true",
          "                     -                    switch (mode)",
          "-                    -                    case 1:",
          "NameThatIsLongerThanItsColumn -                    if (ok) → true",
          "                                          if (ok) → false"].map String.toList := by
  have legible : ∀ case ∈ repeating, case.Legible := by decide +kernel
  have namedLegible : ∀ case ∈ named, case.Legible := by decide +kernel
  have firstLegible : ∀ case ∈ repeating.take 2, case.Legible := fun case membership =>
    legible case (List.mem_of_mem_take membership)
  obtain ⟨read, -⟩ := readRows_rows_and_rows_inj legible namedLegible
  obtain ⟨-, inj⟩ := readRows_rows_and_rows_inj firstLegible namedLegible
  refine ⟨read, fun same => ?_, by decide +kernel⟩
  have differ : repeating.take 2 ≠ named := by decide
  exact differ (inj same)

section Generated

variable {branch : Branch}

theorem endsSolid_of_mem_conditions {condition : Text} (ends : Text.EndsSolid branch.condition)
    (membership : condition ∈ conditions branch) : Text.EndsSolid condition := by
  cases kind : branch.kind with
  | ifHeader | elseIfHeader =>
      simp only [conditions, kind, List.mem_cons, List.not_mem_nil, or_false] at membership
      rcases membership with rfl | rfl
      · exact Text.EndsSolid.append (by decide) branch.condition
      · exact Text.EndsSolid.append (by decide) branch.condition
  | elseHeader =>
      simp only [conditions, kind, List.not_mem_nil] at membership
  | switchHeader | caseLabel | defaultLabel =>
      simp only [conditions, kind, List.mem_singleton] at membership
      rwa [membership]

theorem legible_of_mem_ofSource {source : Text} {changed : List Nat}
    (membership : case ∈ ofSource source changed) : case.Legible := by
  obtain ⟨branch, isBranch, isCase⟩ := mem_ofBranches.mp membership
  obtain ⟨condition, isCondition, rfl⟩ := List.mem_map.mp isCase
  obtain ⟨named, ends⟩ := Branch.named_and_endsSolid_of_mem_extract isBranch
  have conditionEnds := endsSolid_of_mem_conditions ends isCondition
  exact ⟨named.typeName, named.methodName, conditionEnds.ne_nil, conditionEnds.isBlank_getLast?⟩

/-- The table that is printed for a source gives back the cases of the source. -/
theorem readRows_rows_ofSource (source : Text) (changed : List Nat) :
    readRows (rows (ofSource source changed)) = ofSource source changed :=
  readRowsBelow_rowsBelow (fun _ => legible_of_mem_ofSource) none

end Generated

end ChangeCoverage.Case
