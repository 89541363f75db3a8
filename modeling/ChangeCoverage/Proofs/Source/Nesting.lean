import ChangeCoverage.Source.Scope

/-!
Nested brackets.  Braces that are nested leave the depth, and with it the open
scopes, as they were.
-/

namespace ChangeCoverage.Source

/-- Whether brackets close each other and those that are open before the text. -/
def nested (opening closing : Char) : Nat → Text → Bool
  | depth, [] => depth = 0
  | depth, character :: rest =>
      if character = opening then nested opening closing (depth + 1) rest
      else if character = closing then 0 < depth && nested opening closing (depth - 1) rest
      else nested opening closing depth rest

@[simp]
theorem braces_append (front back : Text) :
    braces (front ++ back) = braces front ++ braces back :=
  List.filterMap_append

theorem braces_cons (character : Char) (rest : Text) :
    braces (character :: rest) = braces [character] ++ braces rest :=
  braces_append [character] rest

/-- Braces that close each other and those that are open before them. -/
inductive Nested : Nat → List Brace → Prop where
  | done : Nested 0 []
  | opening {depth : Nat} {later : List Brace} :
      Nested (depth + 1) later → Nested depth (.opening :: later)
  | closing {depth : Nat} {later : List Brace} :
      Nested depth later → Nested (depth + 1) (.closing :: later)

theorem nested_braces {depth : Nat} {masked : Text}
    (isNested : nested '{' '}' depth masked = true) :
    Nested depth (braces masked) := by
  induction masked generalizing depth with
  | nil =>
      simp only [nested, decide_eq_true_eq] at isNested
      subst isNested
      exact .done
  | cons character rest inductionHypothesis =>
      rw [nested] at isNested
      by_cases opens : character = '{'
      · rw [if_pos opens] at isNested
        subst opens
        exact .opening (inductionHypothesis isNested)
      · rw [if_neg opens] at isNested
        by_cases closes : character = '}'
        · rw [if_pos closes, Bool.and_eq_true, decide_eq_true_eq] at isNested
          subst closes
          obtain ⟨positive, later⟩ := isNested
          obtain ⟨outer, rfl⟩ : ∃ outer, depth = outer + 1 := ⟨depth - 1, by omega⟩
          exact .closing (inductionHypothesis later)
        · rw [if_neg closes] at isNested
          have neither : braces (character :: rest) = braces rest := by
            simp [braces, opens, closes]
          rw [neither]
          exact inductionHypothesis isNested

namespace ScopeState

/-- Whether no open scope ends when a closing brace leaves a depth. -/
def Keeps (state : ScopeState) (depth : Nat) : Prop :=
  ∀ frame ∈ state.stack.head?, frame.entryDepth < depth

theorem Keeps.mono {state : ScopeState} {depth deeper : Nat} (keeps : state.Keeps depth)
    (le : depth ≤ deeper) : state.Keeps deeper := fun frame membership =>
  Nat.lt_of_lt_of_le (keeps frame membership) le

theorem Keeps.passBrace_closing {state : ScopeState} (keeps : state.Keeps (state.depth - 1)) :
    state.passBrace .closing = { state with depth := state.depth - 1 } := by
  have kept : closeDeeper (state.depth - 1) state.stack state.current =
      (state.stack, state.current) := by
    cases found : state.stack with
    | nil => rfl
    | cons frame outer =>
        have above : frame.entryDepth < state.depth - 1 := keeps frame (by simp [found])
        rw [closeDeeper, if_neg (by omega)]
  simp only [passBrace, kept]

theorem foldl_passBrace_nested {count : Nat} {braces : List Brace} (nested : Nested count braces)
    {depth : Nat} (state : ScopeState) (atDepth : state.depth = depth + count)
    (keeps : state.Keeps depth) :
    braces.foldl passBrace state = { state with depth } := by
  induction nested generalizing state with
  | done =>
      rw [Nat.add_zero] at atDepth
      subst atDepth
      rfl
  | opening later inductionHypothesis =>
      exact inductionHypothesis (state.passBrace .opening)
        (by simp only [passBrace]; omega) keeps
  | @closing count braces later inductionHypothesis =>
      have left : state.depth - 1 = depth + count := by omega
      have passed := (keeps.mono (by omega : depth ≤ state.depth - 1)).passBrace_closing
      rw [List.foldl_cons, passed]
      exact inductionHypothesis _ left keeps

end ScopeState

end ChangeCoverage.Source
