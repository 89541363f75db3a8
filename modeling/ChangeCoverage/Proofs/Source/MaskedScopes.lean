import ChangeCoverage.Source.Scope

/-!
Scopes of masked lines.  What a line belongs to is read off the masked lines up
to it: the state of the masking reaches the scopes only through the masked text.
-/

namespace ChangeCoverage.Source

namespace ScopeState

/-- Takes a masked line into account, as `advance` does for a line. -/
def advanceMasked (state : ScopeState) (masked : Text) : ScopeState × ScopeEntry :=
  match Declaration.find? masked state.current.typeName.isSome with
  | some declaration =>
      let opened := state.openScope declaration
      let passed := (braces masked).foldl passBrace opened
      let bodiless := endsStatement masked && passed.stack.length = opened.stack.length
      (if bodiless then passed.closeScope else passed, opened.current)
  | none =>
      let passed := (braces masked).foldl passBrace state
      (passed, passed.current)

def maskedEntries (state : ScopeState) : List Text → List ScopeEntry
  | [] => []
  | masked :: rest =>
      let (next, entry) := state.advanceMasked masked
      entry :: next.maskedEntries rest

def withLexState (state : ScopeState) (lexState : LexState) : ScopeState :=
  { state with lexState }

variable (state : ScopeState) (lexState : LexState)

theorem passBrace_withLexState (brace : Brace) :
    (state.withLexState lexState).passBrace brace =
      (state.passBrace brace).withLexState lexState := by
  cases brace <;> rfl

theorem foldl_passBrace_withLexState (found : List Brace) :
    found.foldl passBrace (state.withLexState lexState) =
      (found.foldl passBrace state).withLexState lexState := by
  induction found generalizing state with
  | nil => rfl
  | cons brace later inductionHypothesis =>
      rw [List.foldl_cons, List.foldl_cons, passBrace_withLexState, inductionHypothesis]

theorem closeScope_withLexState :
    (state.withLexState lexState).closeScope = state.closeScope.withLexState lexState := by
  obtain ⟨_, _, stack, _⟩ := state
  cases stack <;> rfl

/-- The state of the masking is carried along and looked at by nothing else. -/
theorem advanceMasked_withLexState (masked : Text) :
    (state.withLexState lexState).advanceMasked masked =
      ((state.advanceMasked masked).1.withLexState lexState, (state.advanceMasked masked).2) := by
  have sameType : (state.withLexState lexState).current = state.current := rfl
  simp only [advanceMasked, sameType]
  cases Declaration.find? masked state.current.typeName.isSome with
  | none =>
      simp only [foldl_passBrace_withLexState]
      rfl
  | some declaration =>
      have opened : (state.withLexState lexState).openScope declaration =
          (state.openScope declaration).withLexState lexState := rfl
      have height (other : ScopeState) : (other.withLexState lexState).stack = other.stack := rfl
      simp only [opened, foldl_passBrace_withLexState, height, closeScope_withLexState]
      split <;> rfl

theorem advance_eq (line : Text) :
    state.advance line =
      ((state.advanceMasked (maskLine line state.lexState).1).1.withLexState
        (maskLine line state.lexState).2.atLineEnd,
        (state.advanceMasked (maskLine line state.lexState).1).2) :=
  advanceMasked_withLexState state (maskLine line state.lexState).2.atLineEnd
    (maskLine line state.lexState).1

theorem maskedEntries_withLexState (maskedLines : List Text) :
    (state.withLexState lexState).maskedEntries maskedLines =
      state.maskedEntries maskedLines := by
  induction maskedLines generalizing state with
  | nil => rfl
  | cons masked rest inductionHypothesis =>
      simp only [maskedEntries, advanceMasked_withLexState, inductionHypothesis]

/-- What lines belong to, read off the masked lines. -/
theorem entries_trace (fileLines : List Text) :
    (state.trace fileLines).map (·.2) =
      state.maskedEntries ((maskLines state.lexState fileLines).map (·.1)) := by
  induction fileLines generalizing state with
  | nil => rfl
  | cons line rest inductionHypothesis =>
      have later := inductionHypothesis (state.advance line).1
      simp only [advance_eq, maskedEntries_withLexState] at later
      simp only [trace, maskLines, List.map_cons, maskedEntries, advance_eq]
      exact congrArg _ later

theorem length_trace (fileLines : List Text) :
    (state.trace fileLines).length = fileLines.length := by
  induction fileLines generalizing state with
  | nil => rfl
  | cons line rest inductionHypothesis => exact congrArg (· + 1) (inductionHypothesis _)

end ScopeState

@[simp]
theorem length_scopeEntries (fileLines : List Text) :
    (scopeEntries fileLines).length = fileLines.length := by
  rw [scopeEntries, List.length_map, ScopeState.length_trace]

theorem scopeEntries_eq_maskedEntries (fileLines : List Text) :
    scopeEntries fileLines =
      ScopeState.maskedEntries {} ((maskLines .code fileLines).map (·.1)) :=
  ScopeState.entries_trace {} fileLines

end ChangeCoverage.Source
