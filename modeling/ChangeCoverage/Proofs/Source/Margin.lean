import ChangeCoverage.Proofs.Source.Nesting
import ChangeCoverage.Proofs.Text.Trim

/-!
The margin of a line: spaces and tabs before its first word.  It belongs to the
code, nests nothing and hides no declaration.  Other blanks declare nothing
either.
-/

namespace ChangeCoverage.Source

def IsMargin (margin : Text) : Prop :=
  ∀ character ∈ margin, character = ' ' ∨ character = '\t'

instance (margin : Text) : Decidable (IsMargin margin) :=
  List.decidableBAll (fun character => character = ' ' ∨ character = '\t') margin

abbrev Margin := { margin : Text // IsMargin margin }

theorem IsMargin.cons {character : Char} {rest : Text} (isMargin : IsMargin (character :: rest)) :
    (character = ' ' ∨ character = '\t') ∧ IsMargin rest :=
  List.forall_mem_cons.mp isMargin

theorem IsMargin.isBlankText {margin : Text} (isMargin : IsMargin margin) :
    Text.IsBlankText margin := fun character membership => by
  rcases isMargin character membership with rfl | rfl <;> decide

theorem maskLine_margin {margin : Text} (isMargin : IsMargin margin) (rest : Text) :
    maskLine (margin ++ rest) .code =
      (margin ++ (maskLine rest .code).1, (maskLine rest .code).2) := by
  unfold maskLine
  induction margin with
  | nil => rfl
  | cons character later inductionHypothesis =>
      obtain ⟨blank, laterMargin⟩ := isMargin.cons
      have passed := inductionHypothesis laterMargin
      rcases blank with rfl | rfl
      · simp [maskFrom, LexState.step, codeStep, Lead.next, passed]
      · simp [maskFrom, LexState.step, codeStep, Lead.next, passed]

theorem braces_blank {masked : Text} (blank : Text.IsBlankText masked) : braces masked = [] := by
  refine List.filterMap_eq_nil_iff.mpr fun character membership => ?_
  have isBlank := blank character membership
  rw [if_neg (Text.ne_of_isBlank isBlank (by decide)),
    if_neg (Text.ne_of_isBlank isBlank (by decide))]

theorem braces_margin {margin : Text} (isMargin : IsMargin margin) : braces margin = [] :=
  braces_blank isMargin.isBlankText

namespace Declaration

variable {Result : Type}

variable {character : Char}

theorem oneOf_blank {choices : List Text}
    (solid : ∀ word ∈ choices, word.head?.any (!Text.isBlank ·) = true)
    (blank : Text.isBlank character = true) (following : Following Result) (rest : Text) :
    Pattern.oneOf choices following (character :: rest) = none := by
  rw [Pattern.oneOf, List.findSome?_eq_none_iff]
  intro word membership
  have isSolid := solid word membership
  cases word with
  | nil => exact absurd isSolid Bool.false_ne_true
  | cons first more =>
      rw [Text.after?_blank blank (by simpa using isSolid)]
      rfl

theorem repeated_eq {part : Pattern Result} {text : Text} (fails : ∀ next, part next text = none)
    (following : Following Result) :
    Pattern.repeated part following text = following text := by
  rw [Pattern.repeated, fails]
  rfl

/-- What may stand before a declaration takes up blanks. -/
theorem leading_blank (blank : Text.isBlank character = true)
    {following : Following Result} (rest : Text) (rejects : following (character :: rest) = none) :
    leading following (character :: rest) = leading following rest := by
  have solidModifiers : ∀ word ∈ modifiers, word.head?.any (!Text.isBlank ·) = true := by
    decide +kernel
  have noBracket : character ≠ '[' := Text.ne_of_isBlank blank (by decide)
  have notHere : attributes
      (Pattern.repeated (fun next => Pattern.oneOf modifiers (Pattern.some Text.isBlank next))
        following) (character :: rest) = none := by
    rw [attributes, repeated_eq, repeated_eq, rejects]
    · exact fun next => oneOf_blank solidModifiers blank _ rest
    · exact fun next => if_neg noBracket
  rw [leading, Pattern.many, if_pos blank, notHere, Option.orElse_eq_orElse,
    Option.orElse_eq_or, Option.or_none]

theorem typeName?_blank (blank : Text.isBlank character = true) (rest : Text) :
    typeName? (character :: rest) = typeName? rest := by
  refine leading_blank blank rest ?_
  rw [typeKeyword, oneOf_blank (by decide +kernel) blank, oneOf_blank (by decide +kernel) blank]
  rfl

theorem methodParts?_blank (blank : Text.isBlank character = true) (rest : Text) :
    methodParts? (character :: rest) = methodParts? rest := by
  refine leading_blank blank rest ?_
  rw [Pattern.captured, returnType, Pattern.one, Text.isNameStart_of_isBlank blank,
    if_neg Bool.false_ne_true]

theorem typeName?_blanks {blanks : Text} (blank : Text.IsBlankText blanks) (text : Text) :
    typeName? (blanks ++ text) = typeName? text := by
  induction blanks with
  | nil => rfl
  | cons character later inductionHypothesis =>
      exact (typeName?_blank blank.cons.1 _).trans (inductionHypothesis blank.cons.2)

theorem methodParts?_blanks {blanks : Text} (blank : Text.IsBlankText blanks) (text : Text) :
    methodParts? (blanks ++ text) = methodParts? text := by
  induction blanks with
  | nil => rfl
  | cons character later inductionHypothesis =>
      exact (methodParts?_blank blank.cons.1 _).trans (inductionHypothesis blank.cons.2)

/-- A text that declares nothing declares nothing behind blanks. -/
theorem find?_blanks {blanks : Text} (blank : Text.IsBlankText blanks) {text : Text}
    (noType : typeName? text = none) (noMethod : methodParts? text = none) (insideType : Bool) :
    find? (blanks ++ text) insideType = none := by
  have methodName : methodName? (blanks ++ text) = none := by
    rw [methodName?, methodParts?_blanks blank, noMethod]
    rfl
  cases insideType <;> simp [find?, typeName?_blanks blank, noType, methodName]

end Declaration

end ChangeCoverage.Source
