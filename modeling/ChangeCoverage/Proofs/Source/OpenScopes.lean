import ChangeCoverage.Source.Scope

/-!
Scopes as a flat list of open declarations.  A closing brace ends every
declaration that was opened at the depth it returns to or deeper, wherever the
declaration stands in the list, and what a line belongs to is read off the
list.  The stack of scopes, which gives up frames from its top only and brings
back what each of them saved, says the same about every line.
-/

namespace ChangeCoverage.Source

namespace Declaration

def type? : Declaration → Option Text
  | type name => some name
  | method _ => none

def method? : Declaration → Option Text
  | type _ => none
  | method name => some name

end Declaration

structure OpenDeclaration where
  declaration : Declaration
  /-- The brace depth before the braces of the declaring line. -/
  entryDepth : Nat
  /-- The number of the declaring line. -/
  line : Nat

/-- What lines belong to while some declarations are open, the latest of them
first: to the latest type, and to the latest declaration if it is a method. -/
def entryWithin (declarations : List OpenDeclaration) : ScopeEntry where
  typeName := declarations.findSome? (·.declaration.type?)
  methodName := declarations.head?.bind (·.declaration.method?)

def stillOpen (depth : Nat) (declarations : List OpenDeclaration) : List OpenDeclaration :=
  declarations.filter (·.entryDepth < depth)

structure OpenScopes where
  lexState : LexState := .code
  depth : Nat := 0
  /-- The number of the next line. -/
  line : Nat := 1
  /-- The declarations whose scopes are open, the latest first. -/
  declarations : List OpenDeclaration := []

namespace OpenScopes

def insideType (scopes : OpenScopes) : Bool :=
  scopes.declarations.any (·.declaration.type?.isSome)

def declare (scopes : OpenScopes) (declaration : Declaration) : OpenScopes :=
  { scopes with
    declarations :=
      { declaration, entryDepth := scopes.depth, line := scopes.line } :: scopes.declarations }

def passBrace (scopes : OpenScopes) : Brace → OpenScopes
  | .opening => { scopes with depth := scopes.depth + 1 }
  | .closing =>
      let depth := scopes.depth - 1
      { scopes with depth, declarations := stillOpen depth scopes.declarations }

/-- Ends the scope that was declared on the present line, if it is open. -/
def withdraw (scopes : OpenScopes) : OpenScopes :=
  { scopes with declarations := scopes.declarations.filter (·.line ≠ scopes.line) }

def nextLine (scopes : OpenScopes) : OpenScopes :=
  { scopes with line := scopes.line + 1 }

def advance (scopes : OpenScopes) (fileLine : Text) : OpenScopes × ScopeEntry :=
  let (masked, reached) := maskLine fileLine scopes.lexState
  let entered := { scopes with lexState := reached.atLineEnd }
  match Declaration.find? masked scopes.insideType with
  | some declaration =>
      let declared := entered.declare declaration
      let passed := (braces masked).foldl passBrace declared
      let left := if ScopeState.endsStatement masked then passed.withdraw else passed
      (left.nextLine, entryWithin declared.declarations)
  | none =>
      let passed := (braces masked).foldl passBrace entered
      (passed.nextLine, entryWithin passed.declarations)

/-- What each of some lines belongs to. -/
def entries (scopes : OpenScopes) : List Text → List ScopeEntry
  | [] => []
  | line :: rest =>
      let (next, entry) := scopes.advance line
      entry :: next.entries rest

/-- The stack that saves with each declaration what lines belonged to before. -/
def frames : List OpenDeclaration → List ScopeFrame
  | [] => []
  | opened :: outer =>
      { declaration := opened.declaration, entryDepth := opened.entryDepth,
        previous := entryWithin outer } :: frames outer

def state (scopes : OpenScopes) : ScopeState where
  lexState := scopes.lexState
  depth := scopes.depth
  stack := frames scopes.declarations
  current := entryWithin scopes.declarations

/-- No declaration was opened deeper than a later one or than the present depth. -/
structure Nested (scopes : OpenScopes) : Prop where
  sorted : scopes.declarations.Pairwise fun later earlier => earlier.entryDepth ≤ later.entryDepth
  shallow : ∀ opened ∈ scopes.declarations, opened.entryDepth ≤ scopes.depth

theorem insideType_eq (scopes : OpenScopes) :
    scopes.insideType = (entryWithin scopes.declarations).typeName.isSome := by
  unfold insideType entryWithin
  induction scopes.declarations with
  | nil => rfl
  | cons opened outer inductionHypothesis =>
      cases found : opened.declaration.type? <;> simp [found, inductionHypothesis]

@[simp]
theorem length_frames (declarations : List OpenDeclaration) :
    (frames declarations).length = declarations.length := by
  induction declarations with
  | nil => rfl
  | cons opened outer inductionHypothesis => simp [frames, inductionHypothesis]

theorem entryWithin_cons (opened : OpenDeclaration) (outer : List OpenDeclaration) :
    entryWithin (opened :: outer) = (entryWithin outer).enter opened.declaration := by
  obtain ⟨_ | _, _, _⟩ := opened <;> rfl

/-- Once a declaration stays open all those below it do. -/
theorem stillOpen_cons {opened : OpenDeclaration} {outer : List OpenDeclaration}
    (sorted : (opened :: outer).Pairwise fun later earlier =>
      earlier.entryDepth ≤ later.entryDepth) (depth : Nat) :
    stillOpen depth (opened :: outer) =
      if depth ≤ opened.entryDepth then stillOpen depth outer else opened :: outer := by
  split
  next ends => exact List.filter_cons_of_neg (by simpa using ends)
  next stays =>
    refine List.filter_eq_self.mpr fun other membership => decide_eq_true ?_
    rcases List.mem_cons.mp membership with rfl | below
    · omega
    · have above := List.rel_of_pairwise_cons sorted below
      omega

/-- Giving up frames from the top ends all scopes of the depth and deeper. -/
theorem closeDeeper_frames {declarations : List OpenDeclaration}
    (sorted : declarations.Pairwise fun later earlier => earlier.entryDepth ≤ later.entryDepth)
    (depth : Nat) :
    ScopeState.closeDeeper depth (frames declarations) (entryWithin declarations) =
      (frames (stillOpen depth declarations), entryWithin (stillOpen depth declarations)) := by
  induction declarations with
  | nil => rfl
  | cons opened outer inductionHypothesis =>
      rw [frames, ScopeState.closeDeeper, stillOpen_cons sorted]
      split
      next ends => exact inductionHypothesis sorted.of_cons
      next stays => rfl

theorem stillOpen_suffix {declarations : List OpenDeclaration}
    (sorted : declarations.Pairwise fun later earlier => earlier.entryDepth ≤ later.entryDepth)
    (depth : Nat) : stillOpen depth declarations <:+ declarations := by
  induction declarations with
  | nil => exact List.suffix_rfl
  | cons opened outer inductionHypothesis =>
      rw [stillOpen_cons sorted]
      split
      next ends => exact (inductionHypothesis sorted.of_cons).trans (List.suffix_cons _ _)
      next stays => exact List.suffix_rfl

variable {scopes : OpenScopes}

theorem Nested.declare (nested : scopes.Nested) (declaration : Declaration) :
    (scopes.declare declaration).Nested where
  sorted := List.pairwise_cons.mpr ⟨nested.shallow, nested.sorted⟩
  shallow := List.forall_mem_cons.mpr ⟨Nat.le_refl _, nested.shallow⟩

theorem Nested.passBrace (nested : scopes.Nested) (brace : Brace) :
    (scopes.passBrace brace).Nested := by
  cases brace with
  | opening =>
      exact ⟨nested.sorted, fun opened membership =>
        Nat.le_succ_of_le (nested.shallow opened membership)⟩
  | closing =>
      refine ⟨nested.sorted.filter _, fun opened membership => ?_⟩
      have above := of_decide_eq_true (List.mem_filter.mp membership).2
      exact Nat.le_of_lt above

theorem Nested.withdraw (nested : scopes.Nested) : scopes.withdraw.Nested :=
  ⟨nested.sorted.filter _, fun opened membership =>
    nested.shallow opened (List.mem_filter.mp membership).1⟩

theorem state_declare (scopes : OpenScopes) (declaration : Declaration) :
    (scopes.declare declaration).state = scopes.state.openScope declaration := by
  simp only [state, declare, ScopeState.openScope, frames, entryWithin_cons]

theorem state_passBrace (nested : scopes.Nested) (brace : Brace) :
    (scopes.passBrace brace).state = scopes.state.passBrace brace := by
  cases brace with
  | opening => rfl
  | closing =>
      simp only [state, passBrace, ScopeState.passBrace, closeDeeper_frames nested.sorted]

/-- What passing braces does to nested scopes. -/
structure Passed (before after : OpenScopes) : Prop where
  nested : after.Nested
  suffix : after.declarations <:+ before.declarations
  line : after.line = before.line

theorem passed_braces (nested : scopes.Nested) (braces : List Brace) :
    Passed scopes (braces.foldl passBrace scopes) ∧
      (braces.foldl passBrace scopes).state = braces.foldl ScopeState.passBrace scopes.state := by
  induction braces generalizing scopes with
  | nil => exact ⟨⟨nested, List.suffix_rfl, rfl⟩, rfl⟩
  | cons brace later inductionHypothesis =>
      obtain ⟨passed, same⟩ := inductionHypothesis (nested.passBrace brace)
      have suffix : (scopes.passBrace brace).declarations <:+ scopes.declarations := by
        cases brace with
        | opening => exact List.suffix_rfl
        | closing => exact stillOpen_suffix nested.sorted _
      have line : (scopes.passBrace brace).line = scopes.line := by cases brace <;> rfl
      refine ⟨⟨passed.nested, passed.suffix.trans suffix, passed.line.trans line⟩, ?_⟩
      rw [List.foldl_cons, List.foldl_cons, same, state_passBrace nested]

/-- Every open declaration stands on a line before the present one. -/
def Dated (scopes : OpenScopes) : Prop :=
  ∀ opened ∈ scopes.declarations, opened.line < scopes.line

theorem Dated.nextLine {after : OpenScopes} (dated : scopes.Dated)
    (within : after.declarations ⊆ scopes.declarations) (line : after.line = scopes.line) :
    after.nextLine.Dated := fun opened membership => by
  have earlier := dated opened (within membership)
  simp only [OpenScopes.nextLine]
  omega

theorem Dated.nextLine_declare {declaration : Declaration} {after : OpenScopes}
    (dated : scopes.Dated) (within : after.declarations ⊆ (scopes.declare declaration).declarations)
    (line : after.line = scopes.line) : after.nextLine.Dated := fun opened membership => by
  simp only [OpenScopes.nextLine]
  rcases List.mem_cons.mp (within membership) with rfl | earlier
  · simp only
    omega
  · have := dated opened earlier
    omega

theorem Dated.filter_eq (dated : scopes.Dated) {declarations : List OpenDeclaration}
    (within : declarations ⊆ scopes.declarations) :
    declarations.filter (·.line ≠ scopes.line) = declarations :=
  List.filter_eq_self.mpr fun opened membership =>
    decide_eq_true (Nat.ne_of_lt (dated opened (within membership)))

/-- The declaration of the present line is still open just if the stack is as
high as when its scope was opened, and then it is on top. -/
theorem state_withdraw (dated : scopes.Dated) {declaration : Declaration} {after : OpenScopes}
    (passed : Passed (scopes.declare declaration) after) :
    after.withdraw.state =
      if after.state.stack.length = (scopes.declare declaration).state.stack.length then
        after.state.closeScope else after.state := by
  have line : after.line = scopes.line := passed.line
  have height : (scopes.declare declaration).state.stack.length =
      scopes.declarations.length + 1 := by simp [state, OpenScopes.declare]
  -- Either no scope has ended, and the new one is on top, or the new one has ended first.
  rcases List.suffix_cons_iff.mp passed.suffix with stillOpen | ended
  · have left : after.declarations.filter (·.line ≠ after.line) = scopes.declarations := by
      rw [stillOpen, line, List.filter_cons_of_neg (by simp), dated.filter_eq (List.Subset.refl _)]
    have full : after.state.stack.length = scopes.declarations.length + 1 := by
      simp [state, stillOpen]
    rw [height, if_pos full]
    simp only [state, OpenScopes.withdraw, left, ScopeState.closeScope]
    rw [stillOpen, frames]
  · have left : after.declarations.filter (·.line ≠ after.line) = after.declarations := by
      rw [line, dated.filter_eq ended.subset]
    have lower : after.state.stack.length ≠ scopes.declarations.length + 1 := by
      have bounded := ended.length_le
      simp only [state, length_frames]
      omega
    rw [height, if_neg lower]
    simp only [state, OpenScopes.withdraw, left]

/-- Where the braces of a declaring line lead, and what its semicolon ends. -/
theorem state_declaringLine (nested : scopes.Nested) (dated : scopes.Dated)
    (declaration : Declaration) (masked : Text) {passed left : OpenScopes}
    (passedEq : passed = (braces masked).foldl passBrace (scopes.declare declaration))
    (leftEq : left = if ScopeState.endsStatement masked then passed.withdraw else passed) :
    passed.state = (braces masked).foldl ScopeState.passBrace
        (scopes.declare declaration).state ∧
      left.state = (if ScopeState.endsStatement masked && passed.state.stack.length =
          (scopes.declare declaration).state.stack.length then
        passed.state.closeScope else passed.state) ∧
      left.Nested ∧ left.nextLine.Dated := by
  obtain ⟨within, same⟩ := passed_braces (nested.declare declaration) (braces masked)
  rw [← passedEq] at within same
  refine ⟨same, ?_⟩
  subst leftEq
  cases ScopeState.endsStatement masked with
  | false => exact ⟨rfl, within.nested, dated.nextLine_declare within.suffix.subset within.line⟩
  | true =>
      have subset : passed.withdraw.declarations ⊆ passed.declarations :=
        List.filter_sublist.subset
      refine ⟨?_, within.nested.withdraw,
        dated.nextLine_declare (List.Subset.trans subset within.suffix.subset) within.line⟩
      simpa using state_withdraw dated within

/-- A line does the same to the list of open declarations and to its stack. -/
theorem state_advance (nested : scopes.Nested) (dated : scopes.Dated) (fileLine : Text) :
    scopes.state.advance fileLine =
        ((scopes.advance fileLine).1.state, (scopes.advance fileLine).2) ∧
      (scopes.advance fileLine).1.Nested ∧ (scopes.advance fileLine).1.Dated := by
  obtain ⟨masked, reached, split⟩ : ∃ masked reached,
      maskLine fileLine scopes.lexState = (masked, reached) := ⟨_, _, rfl⟩
  have masking : maskLine fileLine scopes.state.lexState = (masked, reached) := split
  have inside : scopes.state.current.typeName.isSome = scopes.insideType :=
    (insideType_eq scopes).symm
  obtain ⟨entered, enteredEq⟩ : ∃ entered : OpenScopes,
      entered = { scopes with lexState := reached.atLineEnd } := ⟨_, rfl⟩
  have enteredState : { scopes.state with lexState := reached.atLineEnd } = entered.state := by
    rw [enteredEq]
    rfl
  have enteredNested : entered.Nested := by
    rw [enteredEq]
    exact ⟨nested.sorted, nested.shallow⟩
  have enteredDated : entered.Dated := by
    rw [enteredEq]
    exact dated
  simp only [ScopeState.advance, OpenScopes.advance, split, masking, inside, enteredState,
    ← enteredEq]
  cases Declaration.find? masked scopes.insideType with
  | none =>
      obtain ⟨passed, same⟩ := passed_braces enteredNested (braces masked)
      simp only [← same]
      exact ⟨rfl, ⟨passed.nested.sorted, passed.nested.shallow⟩,
        enteredDated.nextLine passed.suffix.subset passed.line⟩
  | some declaration =>
      obtain ⟨same, ended, leftNested, leftDated⟩ :=
        state_declaringLine enteredNested enteredDated declaration masked rfl rfl
      simp only [← state_declare, ← same, ← ended]
      exact ⟨rfl, ⟨leftNested.sorted, leftNested.shallow⟩, leftDated⟩

theorem trace_state (nested : scopes.Nested) (dated : scopes.Dated) (fileLines : List Text) :
    (ScopeState.trace scopes.state fileLines).map (·.2) = scopes.entries fileLines := by
  induction fileLines generalizing scopes with
  | nil => rfl
  | cons line rest inductionHypothesis =>
      obtain ⟨advanced, nextNested, nextDated⟩ := state_advance nested dated line
      simp only [ScopeState.trace, advanced, List.map_cons, entries,
        inductionHypothesis nextNested nextDated]

end OpenScopes

/-- The stack of scopes says of every line what the flat list of open
declarations says. -/
theorem scopeEntries_eq_entries (fileLines : List Text) :
    scopeEntries fileLines = OpenScopes.entries {} fileLines := by
  have nested : ({} : OpenScopes).Nested := ⟨.nil, by simp⟩
  have dated : ({} : OpenScopes).Dated := by simp [OpenScopes.Dated]
  exact OpenScopes.trace_state nested dated fileLines

end ChangeCoverage.Source
