import ChangeCoverage.Source.Scope

/-!
Open bodies.  The scope of a declaration whose line opens a body is ended by
the closing brace that returns to the depth of the line, and by nothing before
it, while lines are read brace by brace.  A semicolon at the end of the line
ends the scope at once, although the body stays open.
-/

namespace ChangeCoverage.Source

/-- The depth behind a brace; nothing is left to close at depth zero. -/
def Brace.depthFrom (depth : Nat) : Brace → Nat
  | opening => depth + 1
  | closing => depth - 1

def depthAfter (depth : Nat) (found : List Brace) : Nat :=
  found.foldl Brace.depthFrom depth

/-- Whether every closing brace leaves the depth above a floor. -/
def StaysAbove (floor : Nat) : Nat → List Brace → Prop
  | _, [] => True
  | depth, .opening :: later => StaysAbove floor (depth + 1) later
  | depth, .closing :: later => floor < depth - 1 ∧ StaysAbove floor (depth - 1) later

instance decidableStaysAbove (floor : Nat) :
    (depth : Nat) → (found : List Brace) → Decidable (StaysAbove floor depth found)
  | _, [] => .isTrue trivial
  | depth, .opening :: later => decidableStaysAbove floor (depth + 1) later
  | depth, .closing :: later =>
      have := decidableStaysAbove floor (depth - 1) later
      inferInstanceAs (Decidable (floor < depth - 1 ∧ StaysAbove floor (depth - 1) later))

theorem depthAfter_append (depth : Nat) (front back : List Brace) :
    depthAfter depth (front ++ back) = depthAfter (depthAfter depth front) back :=
  List.foldl_append

theorem staysAbove_append {floor depth : Nat} {front back : List Brace} :
    StaysAbove floor depth (front ++ back) ↔
      StaysAbove floor depth front ∧ StaysAbove floor (depthAfter depth front) back := by
  induction front generalizing depth with
  | nil => exact Iff.of_eq (true_and _).symm
  | cons brace later inductionHypothesis =>
      cases brace with
      | opening => exact inductionHypothesis
      | closing => exact (and_congr_right fun _ => inductionHypothesis).trans and_assoc.symm

theorem StaysAbove.lt_depthAfter {floor depth : Nat} {found : List Brace}
    (above : StaysAbove floor depth found) (start : floor < depth) :
    floor < depthAfter depth found := by
  induction found generalizing depth with
  | nil => exact start
  | cons brace later inductionHypothesis =>
      cases brace with
      | opening => exact inductionHypothesis above (Nat.lt_succ_of_lt start)
      | closing => exact inductionHypothesis above.2 above.1

namespace ScopeState

def maskedLine (state : ScopeState) (line : Text) : Text :=
  (maskLine line state.lexState).1

def bracesOf (state : ScopeState) (line : Text) : List Brace :=
  braces (state.maskedLine line)

/-- What a line declares. -/
def declared? (state : ScopeState) (line : Text) : Option Declaration :=
  Declaration.find? (state.maskedLine line) state.current.typeName.isSome

/-- The state before the first brace of a line, when its scope has been opened. -/
def start (state : ScopeState) (line : Text) : ScopeState :=
  let entered := { state with lexState := (maskLine line state.lexState).2.atLineEnd }
  match state.declared? line with
  | some declaration => entered.openScope declaration
  | none => entered

/-- The state within a line, behind some of its braces. -/
def within (state : ScopeState) (line : Text) (count : Nat) : ScopeState :=
  ((state.bracesOf line).take count).foldl passBrace (state.start line)

/-- The state behind the last brace of a line. -/
def passed (state : ScopeState) (line : Text) : ScopeState :=
  (state.bracesOf line).foldl passBrace (state.start line)

/-- The state behind some lines. -/
def after (state : ScopeState) : List Text → ScopeState
  | [] => state
  | line :: later => (state.advance line).1.after later

/-- The braces of some lines. -/
def bracesOver (state : ScopeState) : List Text → List Brace
  | [] => []
  | line :: later => state.bracesOf line ++ (state.advance line).1.bracesOver later

/-- The frame that a declaration adds to the stack. -/
def frameFor (state : ScopeState) (declaration : Declaration) : ScopeFrame where
  declaration
  entryDepth := state.depth
  previous := state.current

variable {state : ScopeState} {frame : ScopeFrame} {outer : List ScopeFrame} {line : Text}

/-- A line ends behind its last brace, except that a declaration which ends in a
semicolon is withdrawn if no scope has ended since it was opened. -/
theorem advance_eq_passed :
    (state.advance line).1 =
      if (state.declared? line).isSome ∧ endsStatement (state.maskedLine line) ∧
          (state.passed line).stack.length = (state.start line).stack.length then
        (state.passed line).closeScope
      else state.passed line := by
  cases declares : state.declared? line with
  | none =>
      have undeclared : Declaration.find? (maskLine line state.lexState).1
          state.current.typeName.isSome = none := declares
      simp [advance, passed, start, declares, undeclared, bracesOf, maskedLine]
  | some declaration =>
      have declared : Declaration.find? (maskLine line state.lexState).1
          state.current.typeName.isSome = some declaration := declares
      simp [advance, passed, start, declares, declared, bracesOf, maskedLine]

section Depth

theorem depth_foldl_passBrace (found : List Brace) :
    (found.foldl passBrace state).depth = depthAfter state.depth found := by
  induction found generalizing state with
  | nil => rfl
  | cons brace later inductionHypothesis =>
      have here : (state.passBrace brace).depth = brace.depthFrom state.depth := by
        cases brace <;> rfl
      rw [List.foldl_cons, inductionHypothesis, here]
      rfl

theorem depth_start : (state.start line).depth = state.depth := by
  unfold start
  split <;> rfl

theorem depth_closeScope : state.closeScope.depth = state.depth := by
  unfold closeScope
  split <;> rfl

theorem depth_advance :
    (state.advance line).1.depth = depthAfter state.depth (state.bracesOf line) := by
  have passed : (state.passed line).depth = depthAfter state.depth (state.bracesOf line) := by
    rw [passed, depth_foldl_passBrace, depth_start]
  rw [advance_eq_passed]
  split
  · exact depth_closeScope.trans passed
  · exact passed

theorem depth_after (lines : List Text) :
    (state.after lines).depth = depthAfter state.depth (state.bracesOver lines) := by
  induction lines generalizing state with
  | nil => rfl
  | cons line later inductionHypothesis =>
      rw [after, bracesOver, inductionHypothesis, depth_advance, depthAfter_append]

end Depth

section Stack

theorem closeDeeper_suffix (depth : Nat) (stack : List ScopeFrame) (current : ScopeEntry) :
    (closeDeeper depth stack current).1 <:+ stack := by
  induction stack generalizing current with
  | nil => exact List.suffix_rfl
  | cons inner others inductionHypothesis =>
      rw [closeDeeper]
      split
      · exact (inductionHypothesis inner.previous).trans (List.suffix_cons inner others)
      · exact List.suffix_rfl

/-- Frames of the depth or deeper do not stand in the way of what is below them. -/
theorem closeDeeper_append {depth : Nat} {above : List ScopeFrame}
    (deeper : ∀ inner ∈ above, depth ≤ inner.entryDepth) (outer : List ScopeFrame)
    (current : ScopeEntry) :
    ∃ previous, closeDeeper depth (above ++ outer) current = closeDeeper depth outer previous := by
  induction above generalizing current with
  | nil => exact ⟨current, rfl⟩
  | cons inner others inductionHypothesis =>
      obtain ⟨here, behind⟩ := List.forall_mem_cons.mp deeper
      rw [List.cons_append, closeDeeper, if_pos here]
      exact inductionHypothesis behind inner.previous

/-- A shallower frame stops the closing of scopes above it. -/
theorem closeDeeper_above {depth : Nat} (shallower : frame.entryDepth < depth)
    (above outer : List ScopeFrame) (current : ScopeEntry) :
    ∃ left, left <:+ above ∧
      (closeDeeper depth (above ++ frame :: outer) current).1 = left ++ frame :: outer := by
  induction above generalizing current with
  | nil =>
      refine ⟨[], List.suffix_rfl, ?_⟩
      rw [List.nil_append, closeDeeper, if_neg (Nat.not_le_of_lt shallower)]
  | cons inner others inductionHypothesis =>
      rw [List.cons_append, closeDeeper]
      split
      · obtain ⟨left, within, kept⟩ := inductionHypothesis inner.previous
        exact ⟨left, within.trans (List.suffix_cons inner others), kept⟩
      · exact ⟨inner :: others, List.suffix_rfl, rfl⟩

theorem passBrace_suffix (brace : Brace) : (state.passBrace brace).stack <:+ state.stack := by
  cases brace with
  | opening => exact List.suffix_rfl
  | closing => exact closeDeeper_suffix _ state.stack state.current

theorem foldl_passBrace_suffix (found : List Brace) :
    (found.foldl passBrace state).stack <:+ state.stack := by
  induction found generalizing state with
  | nil => exact List.suffix_rfl
  | cons brace later inductionHypothesis =>
      exact inductionHypothesis.trans (passBrace_suffix brace)

theorem passed_suffix (state : ScopeState) (line : Text) :
    (state.passed line).stack <:+ (state.start line).stack :=
  foldl_passBrace_suffix _

theorem stack_start {declaration : Declaration}
    (declares : state.declared? line = some declaration) :
    (state.start line).stack = state.frameFor declaration :: state.stack := by
  unfold start
  rw [declares]
  rfl

theorem closeScope_of_cons (stackEq : state.stack = frame :: outer) :
    state.closeScope.stack = outer ∧ state.closeScope.current = frame.previous := by
  unfold closeScope
  rw [stackEq]
  exact ⟨rfl, rfl⟩

/-- Where a line leaves the stack: behind its braces, or as it was before the
line if that ends its own declaration. -/
theorem stack_advance (state : ScopeState) (line : Text) :
    (state.advance line).1.stack = (state.passed line).stack ∨
      (state.advance line).1.stack = state.stack := by
  rw [advance_eq_passed]
  split
  next withdrawn =>
    obtain ⟨declares, -, height⟩ := withdrawn
    obtain ⟨declaration, declares⟩ := Option.isSome_iff_exists.mp declares
    have whole := (passed_suffix state line).eq_of_length height
    rw [stack_start declares] at whole
    exact .inr (closeScope_of_cons whole).1
  next => exact .inl rfl

end Stack

section Frame

/-- Whether a frame is on the stack over some others, with frames above it that
were all opened deeper. -/
def Covers (state : ScopeState) (frame : ScopeFrame) (outer : List ScopeFrame) : Prop :=
  ∃ above, state.stack = above ++ frame :: outer ∧
    ∀ inner ∈ above, frame.entryDepth < inner.entryDepth

namespace Covers

theorem suffix (covers : state.Covers frame outer) : frame :: outer <:+ state.stack := by
  obtain ⟨above, stackEq, -⟩ := covers
  exact ⟨above, stackEq.symm⟩

theorem of_stack {other : ScopeState} (covers : state.Covers frame outer)
    (same : other.stack = state.stack) : other.Covers frame outer := by
  unfold Covers
  rwa [same]

theorem passBrace_closing (covers : state.Covers frame outer)
    (inside : frame.entryDepth < state.depth - 1) :
    (state.passBrace .closing).Covers frame outer := by
  obtain ⟨above, stackEq, deeper⟩ := covers
  obtain ⟨left, within, kept⟩ := closeDeeper_above inside above outer state.current
  refine ⟨left, ?_, fun inner membership => deeper inner (within.subset membership)⟩
  simp only [passBrace, stackEq]
  exact kept

/-- The closing brace that returns to the entry depth of a frame ends its scope. -/
theorem passBrace_returning (covers : state.Covers frame outer)
    (returns : state.depth - 1 ≤ frame.entryDepth) :
    (state.passBrace .closing).stack <:+ outer := by
  obtain ⟨above, stackEq, deeper⟩ := covers
  obtain ⟨previous, closed⟩ := closeDeeper_append
    (fun inner membership => Nat.le_trans returns (Nat.le_of_lt (deeper inner membership)))
    (frame :: outer) state.current
  simp only [passBrace, stackEq, closed, closeDeeper, if_pos returns]
  exact closeDeeper_suffix _ outer frame.previous

theorem foldl_passBrace (covers : state.Covers frame outer) {found : List Brace}
    (above : StaysAbove frame.entryDepth state.depth found) :
    (found.foldl passBrace state).Covers frame outer := by
  induction found generalizing state with
  | nil => exact covers
  | cons brace later inductionHypothesis =>
      cases brace with
      | opening =>
          have opened : (state.passBrace .opening).Covers frame outer := covers.of_stack rfl
          exact inductionHypothesis opened above
      | closing => exact inductionHypothesis (covers.passBrace_closing above.1) above.2

theorem start (covers : state.Covers frame outer) (inside : frame.entryDepth < state.depth)
    (line : Text) : (state.start line).Covers frame outer := by
  cases declares : state.declared? line with
  | none =>
      refine covers.of_stack ?_
      unfold ScopeState.start
      rw [declares]
  | some declaration =>
      obtain ⟨above, stackEq, deeper⟩ := covers
      refine ⟨state.frameFor declaration :: above, ?_, ?_⟩
      · rw [stack_start declares, stackEq, List.cons_append]
      · exact List.forall_mem_cons.mpr ⟨inside, deeper⟩

theorem within (covers : state.Covers frame outer) (inside : frame.entryDepth < state.depth)
    {count : Nat}
    (above : StaysAbove frame.entryDepth state.depth ((state.bracesOf line).take count)) :
    (state.within line count).Covers frame outer := by
  apply (covers.start inside line).foldl_passBrace
  rwa [depth_start]

theorem advance (covers : state.Covers frame outer) (inside : frame.entryDepth < state.depth)
    (above : StaysAbove frame.entryDepth state.depth (state.bracesOf line)) :
    (state.advance line).1.Covers frame outer := by
  rcases stack_advance state line with passed | withdrawn
  · have whole : (state.passed line).Covers frame outer := by
      apply (covers.start inside line).foldl_passBrace
      rwa [depth_start]
    exact whole.of_stack passed
  · exact covers.of_stack withdrawn

theorem after (covers : state.Covers frame outer) (inside : frame.entryDepth < state.depth)
    {lines : List Text}
    (above : StaysAbove frame.entryDepth state.depth (state.bracesOver lines)) :
    (state.after lines).Covers frame outer := by
  induction lines generalizing state with
  | nil => exact covers
  | cons line later inductionHypothesis =>
      obtain ⟨here, behind⟩ := staysAbove_append.mp above
      rw [← depth_advance] at behind
      have stillInside : frame.entryDepth < (state.advance line).1.depth := by
        rw [depth_advance]
        exact here.lt_depthAfter inside
      exact inductionHypothesis (covers.advance inside here) stillInside behind

end Covers

end Frame

section Body

theorem within_succ {count : Nat} {brace : Brace}
    (found : (state.bracesOf line)[count]? = some brace) :
    state.within line (count + 1) = (state.within line count).passBrace brace := by
  rw [within, List.take_add_one, found, Option.toList_some, List.foldl_append]
  rfl

/-- Whether a frame stays on the stack, at the end of lines and within them,
until a closing brace returns to its entry depth, and is gone behind that brace. -/
structure StaysOpen (state : ScopeState) (frame : ScopeFrame) (outer : List ScopeFrame) :
    Prop where
  behindLines : ∀ lines, StaysAbove frame.entryDepth state.depth (state.bracesOver lines) →
    frame :: outer <:+ (state.after lines).stack
  withinLine : ∀ lines line count,
    StaysAbove frame.entryDepth state.depth
      (state.bracesOver lines ++ ((state.after lines).bracesOf line).take count) →
    frame :: outer <:+ ((state.after lines).within line count).stack
  closes : ∀ lines line count,
    StaysAbove frame.entryDepth state.depth
      (state.bracesOver lines ++ ((state.after lines).bracesOf line).take count) →
    ((state.after lines).bracesOf line)[count]? = some .closing →
    ((state.after lines).within line (count + 1)).depth ≤ frame.entryDepth →
    ((state.after lines).within line (count + 1)).stack <:+ outer

theorem Covers.staysOpen (covers : state.Covers frame outer)
    (inside : frame.entryDepth < state.depth) : state.StaysOpen frame outer := by
  have reached {lines : List Text} {line : Text} {count : Nat}
      (above : StaysAbove frame.entryDepth state.depth
        (state.bracesOver lines ++ ((state.after lines).bracesOf line).take count)) :
      ((state.after lines).within line count).Covers frame outer := by
    obtain ⟨before, here⟩ := staysAbove_append.mp above
    rw [← depth_after] at here
    apply (covers.after inside before).within _ here
    rw [depth_after]
    exact before.lt_depthAfter inside
  constructor
  · intro lines above
    exact (covers.after inside above).suffix
  · intro lines line count above
    exact (reached above).suffix
  · intro lines line count above closing returns
    rw [within_succ closing] at returns ⊢
    exact (reached above).passBrace_returning returns

/-- A declaration whose line opens a body and does not close it.  A semicolon at
the end of the line drops its scope; otherwise the scope stays open until the
body ends. -/
theorem stack_openBody {declaration : Declaration}
    (declares : state.declared? line = some declaration)
    (above : StaysAbove state.depth state.depth (state.bracesOf line))
    (opens : state.depth < (state.advance line).1.depth) :
    (endsStatement (state.maskedLine line) = true →
        (state.advance line).1.stack = state.stack ∧
          (state.advance line).1.current = state.current) ∧
      (endsStatement (state.maskedLine line) = false →
        (state.advance line).1.stack = state.frameFor declaration :: state.stack ∧
          (state.advance line).1.StaysOpen (state.frameFor declaration) state.stack) := by
  have started : (state.start line).Covers (state.frameFor declaration) state.stack :=
    ⟨[], stack_start declares, fun inner membership => absurd membership List.not_mem_nil⟩
  have covers : (state.passed line).Covers (state.frameFor declaration) state.stack := by
    apply started.foldl_passBrace
    rwa [depth_start]
  have stackEq : (state.passed line).stack = state.frameFor declaration :: state.stack := by
    have within := passed_suffix state line
    rw [stack_start declares] at within
    exact within.eq_of_length_le covers.suffix.length_le
  constructor
  · intro ended
    have withdrawn : (state.advance line).1 = (state.passed line).closeScope := by
      have declared : (state.declared? line).isSome := by rw [declares]; rfl
      have height : (state.passed line).stack.length = (state.start line).stack.length := by
        rw [stackEq, stack_start declares]
      rw [advance_eq_passed, if_pos ⟨declared, ended, height⟩]
    rw [withdrawn]
    exact closeScope_of_cons stackEq
  · intro unended
    have kept : (state.advance line).1 = state.passed line := by
      rw [advance_eq_passed, if_neg (by simp [unended])]
    rw [kept] at opens ⊢
    exact ⟨stackEq, covers.staysOpen opens⟩

/-- The state behind the first line of a type that is called A. -/
def insideA : ScopeState where
  depth := 1
  stack := [{ declaration := .type ['A'], entryDepth := 0, previous := {} }]
  current := { typeName := some ['A'] }

theorem after_typeLine : after {} ["class A \x7b".toList] = insideA := by decide +kernel

/-- A method whose body begins on its line. -/
theorem stack_openBody_method :
    ((after {} ["class A \x7b".toList]).advance "void M() \x7b".toList).1.StaysOpen
      { declaration := .method ['M'], entryDepth := 1, previous := { typeName := some ['A'] } }
      [{ declaration := .type ['A'], entryDepth := 0, previous := {} }] := by
  rw [after_typeLine]
  have declares : insideA.declared? "void M() \x7b".toList = some (.method ['M']) := by
    decide +kernel
  have unended : endsStatement (insideA.maskedLine "void M() \x7b".toList) = false := by decide
  exact ((stack_openBody declares (by decide) (by decide +kernel)).2 unended).2

/-- A statement behind the opening brace drops the scope of the method. -/
theorem not_stack_openBody :
    ¬∀ (before : List Text) (line : Text) (declaration : Declaration),
      (after {} before).declared? line = some declaration →
        StaysAbove (after {} before).depth (after {} before).depth
          ((after {} before).bracesOf line) →
        (after {} before).depth < ((after {} before).advance line).1.depth →
        (after {} before).frameFor declaration :: (after {} before).stack <:+
          ((after {} before).advance line).1.stack := by
  intro stays
  have kept := stays ["class A \x7b".toList] "void M() \x7b a();".toList (.method ['M'])
  rw [after_typeLine] at kept
  have onStack := kept (by decide +kernel) (by decide) (by decide +kernel)
  revert onStack
  decide +kernel

end Body

end ScopeState

end ChangeCoverage.Source
