import ChangeCoverage.Proofs.Source.Margin
import ChangeCoverage.Proofs.Source.MaskedScopes
import ChangeCoverage.Proofs.Source.TextMask

/-!
Blank lines.  A line of blanks is masked to blanks and leaves the state of the
masking as it was, whether it stands in code, in a comment or in a string.  It
declares nothing and belongs to what the line before it leaves open.
-/

namespace ChangeCoverage.Source

open Text (IsBlankText)

variable {state : LexState}

theorem step_blank (spans : state.atLineEnd = state) {character : Char}
    (blank : Text.isBlank character = true) (lead : Lead) (rest : Text) :
    ∃ masked, state.step lead character rest = { state, further := 0, masked } := by
  have ne {solid : Char} (isSolid : Text.isBlank solid = false) : character ≠ solid :=
    Text.ne_of_isBlank blank isSolid
  have notSlash : character ≠ '/' := ne (by decide)
  have notQuote : character ≠ '"' := ne (by decide)
  have notStar : character ≠ '*' := ne (by decide)
  have notApostrophe : character ≠ '\'' := ne (by decide)
  cases state with
  | code => exact ⟨false, by simp [LexState.step, codeStep, notSlash, notQuote, notApostrophe]⟩
  | verbatimString => exact ⟨true, by simp [LexState.step, notQuote]⟩
  | rawString quotes => exact ⟨true, by simp [LexState.step, notQuote]⟩
  | blockComment => exact ⟨true, by simp [LexState.step, notStar]⟩
  | regularString => exact absurd spans (by decide)
  | charLiteral => exact absurd spans (by decide)
  | lineComment => exact absurd spans (by decide)

theorem maskFrom_blank (spans : state.atLineEnd = state) {line : Text} (blank : IsBlankText line)
    (lead : Lead) :
    IsBlankText (maskFrom state lead 0 line).1 ∧ (maskFrom state lead 0 line).2 = state := by
  induction line generalizing lead with
  | nil => exact ⟨fun character membership => absurd membership List.not_mem_nil, rfl⟩
  | cons character rest inductionHypothesis =>
      obtain ⟨masked, step⟩ := step_blank spans blank.cons.1 lead rest
      obtain ⟨restBlank, reached⟩ := inductionHypothesis blank.cons.2 (lead.next character)
      simp only [maskFrom, step]
      refine ⟨fun found membership => ?_, reached⟩
      rcases List.mem_append.mp membership with here | behind
      · split at here
        · rw [mem_blank here]
          decide
        · rw [List.mem_singleton.mp here]
          exact blank.cons.1
      · exact restBlank found behind

/-- A blank line is masked to blanks, and the next line is masked as if it were not there. -/
theorem maskLine_blank (spans : state.atLineEnd = state) {line : Text} (blank : IsBlankText line) :
    IsBlankText (maskLine line state).1 ∧ (maskLine line state).2.atLineEnd = state := by
  obtain ⟨maskedBlank, reached⟩ := maskFrom_blank spans blank .plain
  exact ⟨maskedBlank, (congrArg LexState.atLineEnd reached).trans spans⟩

namespace ScopeState

theorem advanceMasked_blank (state : ScopeState) {masked : Text} (blank : IsBlankText masked) :
    state.advanceMasked masked = (state, state.current) := by
  have undeclared : Declaration.find? masked state.current.typeName.isSome = none := by
    have nameless : Declaration.typeName? [] = none := by decide +kernel
    have found := Declaration.find?_blanks blank nameless
      (by decide +kernel) state.current.typeName.isSome
    rwa [List.append_nil] at found
  simp only [advanceMasked, undeclared, braces_blank blank]
  rfl

/-- A blank masked line gets an entry of its own and changes no other. -/
theorem maskedEntries_insert (state : ScopeState) (front back : List Text) {masked : Text}
    (blank : IsBlankText masked) :
    ∃ before inserted behind, before.length = front.length ∧
      state.maskedEntries (front ++ back) = before ++ behind ∧
      state.maskedEntries (front ++ masked :: back) = before ++ inserted :: behind := by
  induction front generalizing state with
  | nil =>
      refine ⟨[], state.current, state.maskedEntries back, rfl, rfl, ?_⟩
      simp only [List.nil_append, maskedEntries, advanceMasked_blank state blank]
  | cons first rest inductionHypothesis =>
      obtain ⟨before, inserted, behind, length, without, within⟩ :=
        inductionHypothesis (state.advanceMasked first).1
      refine ⟨(state.advanceMasked first).2 :: before, inserted, behind, congrArg (· + 1) length,
        ?_, ?_⟩
      · exact congrArg ((state.advanceMasked first).2 :: ·) without
      · exact congrArg ((state.advanceMasked first).2 :: ·) within

end ScopeState

theorem maskLines_insert (spans : state.atLineEnd = state) (front back : List Text) {line : Text}
    (blank : IsBlankText line) :
    ∃ before inserted behind, before.length = front.length ∧ IsBlankText inserted ∧
      (maskLines state (front ++ back)).map (·.1) = before ++ behind ∧
      (maskLines state (front ++ line :: back)).map (·.1) = before ++ inserted :: behind := by
  induction front generalizing state with
  | nil =>
      obtain ⟨maskedBlank, reached⟩ := maskLine_blank spans blank
      refine ⟨[], (maskLine line state).1, (maskLines state back).map (·.1), rfl, maskedBlank, rfl,
        ?_⟩
      simp only [List.nil_append, maskLines, List.map_cons, reached]
  | cons first rest inductionHypothesis =>
      obtain ⟨before, inserted, behind, length, isBlank, without, within⟩ :=
        inductionHypothesis (atLineEnd_atLineEnd (maskLine first state).2)
      refine ⟨(maskLine first state).1 :: before, inserted, behind, congrArg (· + 1) length,
        isBlank, ?_, ?_⟩
      · exact congrArg ((maskLine first state).1 :: ·) without
      · exact congrArg ((maskLine first state).1 :: ·) within

/-- A blank line belongs to something and leaves what other lines belong to. -/
theorem scopeEntries_insert (front back : List Text) {line : Text} (blank : IsBlankText line) :
    ∃ before inserted behind, before.length = front.length ∧
      scopeEntries (front ++ back) = before ++ behind ∧
      scopeEntries (front ++ line :: back) = before ++ inserted :: behind := by
  have startsCode : LexState.code.atLineEnd = .code := rfl
  obtain ⟨maskedFront, masked, maskedBack, maskedLength, maskedBlank, without, within⟩ :=
    maskLines_insert startsCode front back blank
  obtain ⟨before, inserted, behind, length, entriesWithout, entriesWithin⟩ :=
    ScopeState.maskedEntries_insert {} maskedFront maskedBack maskedBlank
  refine ⟨before, inserted, behind, length.trans maskedLength, ?_, ?_⟩
  · rw [scopeEntries_eq_maskedEntries, without, entriesWithout]
  · rw [scopeEntries_eq_maskedEntries, within, entriesWithin]

end ChangeCoverage.Source
