import ChangeCoverage.Proofs.Branch.Extent

/-!
The stack of open branches.  Depths fall from its top to its bottom, strictly
below a label, so that a test which ends a branch ends all branches above it
and popping from the top ends exactly the branches that a mark ends.
-/

namespace ChangeCoverage.Branch

open Source (Brace)

/-- A branch may stand directly or indirectly on another one. -/
def Open.Above (upper lower : Open) : Prop :=
  lower.branch.depth ≤ upper.branch.depth ∧
    (upper.branch.kind.isLabel = true → lower.branch.depth < upper.branch.depth)

structure Ordered (depth : Nat) (stack : List Open) : Prop where
  above : stack.Pairwise Open.Above
  bounded : ∀ candidate ∈ stack, candidate.branch.depth ≤ depth

def EndsUpward (ends : Branch → Bool) : Prop :=
  ∀ upper lower : Open, upper.Above lower → ends lower.branch = true → ends upper.branch = true

/-- Taking from the top takes all that a test ends, if it ends upward. -/
theorem takeWhile_eq_filter {ends : Branch → Bool} (upward : EndsUpward ends)
    {stack : List Open} (above : stack.Pairwise Open.Above) :
    (stack.takeWhile fun candidate => ends candidate.branch) =
        stack.filter (fun candidate => ends candidate.branch) ∧
      (stack.dropWhile fun candidate => ends candidate.branch) =
        stack.filter (fun candidate => !ends candidate.branch) := by
  induction stack with
  | nil => exact ⟨rfl, rfl⟩
  | cons top rest inductionHypothesis =>
      rw [List.pairwise_cons] at above
      obtain ⟨topAbove, restAbove⟩ := above
      obtain ⟨taken, dropped⟩ := inductionHypothesis restAbove
      by_cases ended : ends top.branch = true
      · simp [ended, taken, dropped]
      · -- the top stays, so everything below it stays
        have restStays : ∀ candidate ∈ rest, ends candidate.branch = false := by
          intro candidate membership
          exact Bool.eq_false_iff.mpr fun endsBelow =>
            ended (upward top candidate (topAbove candidate membership) endsBelow)
        have none : rest.filter (fun candidate => ends candidate.branch) = [] :=
          List.filter_eq_nil_iff.mpr fun candidate membership => by
            simp [restStays candidate membership]
        have all : rest.filter (fun candidate => !ends candidate.branch) = rest :=
          List.filter_eq_self.mpr fun candidate membership => by
            simp [restStays candidate membership]
        simp [ended, none, all]

theorem endsAt_eq (branch : Branch) (depth : Nat) :
    branch.endsAt depth =
      (depth < branch.depth || (depth = branch.depth && !branch.kind.isLabel)) := by
  unfold Branch.endsAt
  cases branch.kind.isLabel <;> simp [Nat.le_iff_lt_or_eq]

theorem endsUpward_endsAt (depth : Nat) : EndsUpward (·.endsAt depth) := by
  intro upper lower ⟨lowerLe, strict⟩ ends
  simp only [endsAt_eq, Bool.or_eq_true, Bool.and_eq_true, decide_eq_true_eq,
    Bool.not_eq_true'] at ends ⊢
  cases isLabel : upper.branch.kind.isLabel with
  | true =>
      have := strict isLabel
      omega
  | false =>
      simp only [and_true]
      omega

theorem endsUpward_label (depth : Nat) : EndsUpward fun branch => depth ≤ branch.depth := by
  intro upper lower ⟨lowerLe, _⟩ ends
  simp only [decide_eq_true_eq] at ends ⊢
  omega

theorem endsUpward_always : EndsUpward fun _ => true := fun _ _ _ _ => rfl

/-- The branches that are accepted when each of some open ones ends at its last line. -/
def accepting (changed : List Nat) (last : Open → Nat) (ended : List Open) : List Branch :=
  (ended.filter fun candidate =>
    !candidate.accepted && touches changed candidate.branch.startLine (last candidate)).map
      (·.branch)

theorem accepting_cons (changed : List Nat) (last : Open → Nat) (top : Open)
    (rest : List Open) :
    accepting changed last (top :: rest) =
      (if !top.accepted && touches changed top.branch.startLine (last top)
        then [top.branch] else []) ++ accepting changed last rest := by
  simp only [accepting, List.filter_cons]
  split <;> rfl

theorem perm_accepting (changed : List Nat) (last : Open → Nat) {ended other : List Open}
    (perm : ended.Perm other) :
    (accepting changed last ended).Perm (accepting changed last other) :=
  (perm.filter _).map _

/-- Branches that end now and those that end later are all that end. -/
theorem accepting_split (changed : List Nat) {last later : Open → Nat} {line : Nat}
    {ends : Open → Bool} (stack : List Open)
    (decided : ∀ candidate, last candidate = if ends candidate then line else later candidate) :
    (accepting changed (fun _ => line) (stack.filter ends) ++
      accepting changed later (stack.filter fun candidate => !ends candidate)).Perm
        (accepting changed last stack) := by
  induction stack with
  | nil => exact .refl _
  | cons top rest inductionHypothesis =>
      cases ended : ends top with
      | true =>
          have now : last top = line := by rw [decided, if_pos ended]
          cases accepted :
              (!top.accepted && touches changed top.branch.startLine line) with
          | true =>
              simpa [accepting, ended, now, accepted] using inductionHypothesis
          | false =>
              simpa [accepting, ended, now, accepted] using inductionHypothesis
      | false =>
          have kept : last top = later top := by rw [decided, ended, if_neg Bool.false_ne_true]
          cases accepted :
              (!top.accepted && touches changed top.branch.startLine (later top)) with
          | true =>
              have inserted := List.perm_middle.trans (inductionHypothesis.cons top.branch)
              simpa [accepting, ended, kept, accepted] using inserted
          | false =>
              simpa [accepting, ended, kept, accepted] using inductionHypothesis

namespace Progress

theorem foldl_close (changed : List Nat) (lastLine : Nat) (ended : List Open)
    (progress : Progress) :
    ended.foldl (close changed lastLine) progress =
      { progress with
        accepted := progress.accepted ++ accepting changed (fun _ => lastLine) ended } := by
  induction ended generalizing progress with
  | nil => simp [accepting]
  | cons first rest inductionHypothesis =>
      rw [List.foldl_cons, inductionHypothesis]
      cases late : (!first.accepted && touches changed first.branch.startLine lastLine) <;>
        simp [close, accepting, late]

/-- Ending branches from the top ends those that the test selects. -/
theorem closeWhile_eq (changed : List Nat) (lastLine : Nat) {ends : Branch → Bool}
    (upward : EndsUpward ends) (progress : Progress)
    (above : progress.stack.Pairwise Open.Above) :
    closeWhile changed lastLine ends progress =
      { progress with
        stack := progress.stack.filter fun candidate => !ends candidate.branch
        accepted := progress.accepted ++ accepting changed (fun _ => lastLine)
          (progress.stack.filter fun candidate => ends candidate.branch) } := by
  obtain ⟨taken, dropped⟩ := takeWhile_eq_filter upward above
  simp only [closeWhile, taken, dropped, foldl_close]

theorem passBrace_closing_eq (changed : List Nat) (line : Nat) (progress : Progress)
    (above : progress.stack.Pairwise Open.Above) :
    progress.passBrace changed line .closing =
      { depth := progress.depth - 1
        stack := progress.stack.filter fun candidate =>
          !candidate.branch.endsAt (progress.depth - 1)
        accepted := progress.accepted ++ accepting changed (fun _ => line)
          (progress.stack.filter fun candidate =>
            candidate.branch.endsAt (progress.depth - 1)) } :=
  closeWhile_eq changed line (endsUpward_endsAt _)
    { progress with depth := progress.depth - 1 } above

theorem closeInline_eq (changed : List Nat) (line : Nat) (progress : Progress) :
    closeInline changed line progress =
      { progress with
        stack := progress.stack.filter (!·.inline)
        accepted := progress.accepted ++
          accepting changed (fun _ => line) (progress.stack.reverse.filter (·.inline)) } := by
  simp only [closeInline, foldl_close]

end Progress

theorem Ordered.filter {depth : Nat} {stack : List Open} (ordered : Ordered depth stack)
    (keeps : Open → Bool) : Ordered depth (stack.filter keeps) :=
  ⟨ordered.above.filter keeps,
    fun candidate membership => ordered.bounded candidate (List.mem_filter.mp membership).1⟩

theorem Ordered.raise {depth : Nat} {stack : List Open} (ordered : Ordered depth stack) :
    Ordered (depth + 1) stack :=
  ⟨ordered.above, fun candidate membership =>
    Nat.le_succ_of_le (ordered.bounded candidate membership)⟩

/-- A closing brace leaves no branch above the depth it leaves. -/
theorem Ordered.lower {depth : Nat} {stack : List Open} (ordered : Ordered depth stack) :
    Ordered (depth - 1)
      (stack.filter fun candidate => !candidate.branch.endsAt (depth - 1)) := by
  refine ⟨ordered.above.filter _, ?_⟩
  intro candidate membership
  have stays := (List.mem_filter.mp membership).2
  simp only [endsAt_eq, Bool.not_eq_true', Bool.or_eq_false_iff, decide_eq_false_iff_not] at stays
  omega

/-- A new branch at the present depth may stand on all others. -/
theorem Ordered.push {depth : Nat} {stack : List Open} (ordered : Ordered depth stack)
    (opened : Open) (atDepth : opened.branch.depth = depth)
    (strict : opened.branch.kind.isLabel = true →
      ∀ candidate ∈ stack, candidate.branch.depth < depth) :
    Ordered depth (opened :: stack) := by
  refine ⟨List.pairwise_cons.mpr ⟨?_, ordered.above⟩, ?_⟩
  · intro candidate membership
    refine ⟨atDepth ▸ ordered.bounded candidate membership, fun isLabel => ?_⟩
    rw [atDepth]
    exact strict isLabel candidate membership
  · intro candidate membership
    rcases List.mem_cons.mp membership with equality | below
    · subst equality
      exact Nat.le_of_eq atDepth
    · exact ordered.bounded candidate below

end ChangeCoverage.Branch
