import ChangeCoverage.Proofs.Source.OpenBody
import ChangeCoverage.Proofs.Source.OpenScopes

/-!
The stack of scopes.  Frames leave it from the top only, and each brings back what it
saved.  That is enough because the frames lie in the order of the depths at which they
were opened, and each has saved what the frames below it say.
-/

namespace ChangeCoverage.Source

/-- What lines belong to while some scopes are open: to the innermost type, and to the
innermost scope if that is a method. -/
def entryOf (stack : List ScopeFrame) : ScopeEntry where
  typeName := stack.findSome? (·.declaration.type?)
  methodName := stack.head?.bind (·.declaration.method?)

theorem entryOf_cons (frame : ScopeFrame) (outer : List ScopeFrame) :
    entryOf (frame :: outer) = (entryOf outer).enter frame.declaration := by
  obtain ⟨_ | _, _, _⟩ := frame <;> rfl

theorem typeName_entryOf_nil : (entryOf []).typeName = none := rfl

/-- A method is only declared within a type. -/
theorem Declaration.type_or_inside_of_find? {masked : Text} {insideType : Bool}
    {declaration : Declaration} (found : find? masked insideType = some declaration) :
    declaration.type?.isSome = true ∨ insideType = true := by
  cases insideType with
  | true => exact .inr rfl
  | false =>
      unfold find? at found
      split at found
      · cases found
        exact .inl rfl
      · cases found

namespace ScopeState

/-- Whether the stack, the depth and the names in effect fit each other. -/
structure Coherent (state : ScopeState) : Prop where
  sorted : state.stack.Pairwise fun inner outer => outer.entryDepth ≤ inner.entryDepth
  bounded : ∀ frame ∈ state.stack, frame.entryDepth ≤ state.depth
  rooted : ∀ bottom ∈ state.stack.getLast?, bottom.declaration.type?.isSome = true
  saved : ∀ frame outer, frame :: outer <:+ state.stack → frame.previous = entryOf outer
  current : state.current = entryOf state.stack

variable {state other : ScopeState} {frame : ScopeFrame} {outer stack : List ScopeFrame}
  {current : ScopeEntry} {line : Text} {declaration : Declaration}

theorem coherent_start : Coherent {} where
  sorted := .nil
  bounded := fun _ membership => absurd membership List.not_mem_nil
  rooted := fun _ membership => nomatch membership
  saved := fun frame outer suffix =>
    absurd (List.suffix_nil.mp suffix) (List.cons_ne_nil frame outer)
  current := rfl

/-- What holds of a stack holds of what is left when frames are taken from its top. -/
theorem Coherent.of_suffix (coherent : state.Coherent) (suffix : other.stack <:+ state.stack)
    (bounded : ∀ frame ∈ other.stack, frame.entryDepth ≤ other.depth)
    (current : other.current = entryOf other.stack) : other.Coherent where
  sorted := coherent.sorted.sublist suffix.sublist
  bounded := bounded
  rooted := by
    obtain ⟨above, whole⟩ := suffix
    intro bottom isBottom
    apply coherent.rooted bottom
    rw [← whole, List.getLast?_append, isBottom]
    rfl
  saved := fun frame outer within => coherent.saved frame outer (within.trans suffix)
  current := current

section Closing

/-- The frames that are left are all shallower, since those at the top are the deepest. -/
theorem entryDepth_lt_of_mem_closeDeeper {depth : Nat}
    (sorted : stack.Pairwise fun inner outer => outer.entryDepth ≤ inner.entryDepth) :
    ∀ frame ∈ (closeDeeper depth stack current).1, frame.entryDepth < depth := by
  induction stack generalizing current with
  | nil => exact fun frame membership => absurd membership List.not_mem_nil
  | cons top outer inductionHypothesis =>
      obtain ⟨deepest, outerSorted⟩ := List.pairwise_cons.mp sorted
      rw [closeDeeper]
      split
      next => exact inductionHypothesis outerSorted
      next stays =>
        have shallow := Nat.lt_of_not_le stays
        intro frame membership
        rcases List.mem_cons.mp membership with rfl | below
        · exact shallow
        · exact Nat.lt_of_le_of_lt (deepest frame below) shallow

/-- What the last closed frame has saved is what the frames that are left say. -/
theorem closeDeeper_current {depth : Nat}
    (saved : ∀ frame outer, frame :: outer <:+ stack → frame.previous = entryOf outer)
    (given : current = entryOf stack) :
    (closeDeeper depth stack current).2 = entryOf (closeDeeper depth stack current).1 := by
  induction stack generalizing current with
  | nil => exact given
  | cons top outer inductionHypothesis =>
      rw [closeDeeper]
      split
      next =>
        have outerSaved (frame : ScopeFrame) (others : List ScopeFrame)
            (within : frame :: others <:+ outer) : frame.previous = entryOf others :=
          saved frame others (within.trans (List.suffix_cons top outer))
        exact inductionHypothesis outerSaved (saved top outer List.suffix_rfl)
      next => exact given

theorem Coherent.entryDepth_lt_passBrace (coherent : state.Coherent) :
    ∀ frame ∈ (state.passBrace .closing).stack,
      frame.entryDepth < (state.passBrace .closing).depth :=
  entryDepth_lt_of_mem_closeDeeper coherent.sorted

end Closing

section Steps

theorem Coherent.passBrace (coherent : state.Coherent) (brace : Brace) :
    (state.passBrace brace).Coherent := by
  apply coherent.of_suffix (passBrace_suffix brace)
  · cases brace with
    | opening => exact fun frame membership => Nat.le_succ_of_le (coherent.bounded frame membership)
    | closing =>
        exact fun frame membership =>
          Nat.le_of_lt (coherent.entryDepth_lt_passBrace frame membership)
  · cases brace with
    | opening => exact coherent.current
    | closing => exact closeDeeper_current coherent.saved coherent.current

theorem Coherent.foldl_passBrace (coherent : state.Coherent) (found : List Brace) :
    (found.foldl ScopeState.passBrace state).Coherent := by
  induction found generalizing state with
  | nil => exact coherent
  | cons brace later inductionHypothesis => exact inductionHypothesis (coherent.passBrace brace)

theorem Coherent.openScope (coherent : state.Coherent)
    (allowed : declaration.type?.isSome = true ∨ state.current.typeName.isSome = true) :
    (state.openScope declaration).Coherent where
  sorted := List.pairwise_cons.mpr ⟨coherent.bounded, coherent.sorted⟩
  bounded := List.forall_mem_cons.mpr ⟨Nat.le_refl _, coherent.bounded⟩
  rooted := by
    intro bottom isBottom
    have rooted := coherent.rooted
    rw [coherent.current] at allowed
    cases found : state.stack with
    | nil =>
        -- Nothing is open, so that only a type can be declared.
        rw [found, typeName_entryOf_nil] at allowed
        simp only [ScopeState.openScope, found, List.getLast?_singleton, Option.mem_def,
          Option.some.injEq] at isBottom
        subst isBottom
        simpa using allowed
    | cons top outer =>
        apply rooted
        simpa [ScopeState.openScope, found] using isBottom
  saved := by
    intro frame outer suffix
    rcases List.suffix_cons_iff.mp suffix with same | below
    · cases same
      exact coherent.current
    · exact coherent.saved frame outer below
  current := by
    simp only [ScopeState.openScope, entryOf_cons, coherent.current]

theorem Coherent.closeScope (coherent : state.Coherent) : state.closeScope.Coherent := by
  cases found : state.stack with
  | nil =>
      rw [ScopeState.closeScope, found]
      exact coherent
  | cons top outer =>
      obtain ⟨left, restored⟩ := closeScope_of_cons found
      have below : outer <:+ state.stack := found ▸ List.suffix_cons top outer
      apply coherent.of_suffix
      · rwa [left]
      · intro frame membership
        rw [depth_closeScope]
        rw [left] at membership
        exact coherent.bounded frame (below.subset membership)
      · rw [restored, left]
        exact coherent.saved top outer (found ▸ List.suffix_rfl)

theorem Coherent.start (coherent : state.Coherent) (line : Text) : (state.start line).Coherent := by
  have entered : Coherent { state with lexState := (maskLine line state.lexState).2.atLineEnd } :=
    ⟨coherent.sorted, coherent.bounded, coherent.rooted, coherent.saved, coherent.current⟩
  unfold ScopeState.start
  split
  next declaration declares =>
    exact entered.openScope (Declaration.type_or_inside_of_find? declares)
  next => exact entered

theorem Coherent.advance (coherent : state.Coherent) (line : Text) :
    (state.advance line).1.Coherent := by
  have passed : (state.passed line).Coherent := (coherent.start line).foldl_passBrace _
  rw [advance_eq_passed]
  split
  · exact passed.closeScope
  · exact passed

theorem Coherent.after (coherent : state.Coherent) (lines : List Text) :
    (state.after lines).Coherent := by
  induction lines generalizing state with
  | nil => exact coherent
  | cons line later inductionHypothesis => exact inductionHypothesis (coherent.advance line)

end Steps

/-- Behind any lines, and within the next one behind any of its braces, the frames lie in
the order of their depths upon a type, and have saved what the frames below them say;
and behind a closing brace all frames are shallower than the depth it leaves. -/
theorem coherent_after_and_within (lines : List Text) :
    (after {} lines).Coherent ∧
      ∀ line count, ((after {} lines).within line count).Coherent ∧
        (((after {} lines).bracesOf line)[count]? = some .closing →
          ∀ frame ∈ ((after {} lines).within line (count + 1)).stack,
            frame.entryDepth < ((after {} lines).within line (count + 1)).depth) := by
  have reached : (after {} lines).Coherent := coherent_start.after lines
  refine ⟨reached, fun line count => ?_⟩
  have within : ((after {} lines).within line count).Coherent :=
    (reached.start line).foldl_passBrace _
  refine ⟨within, fun closing => ?_⟩
  rw [within_succ closing]
  exact within.entryDepth_lt_passBrace

end ScopeState

end ChangeCoverage.Source
