import ChangeCoverage.Proofs.Branch.ReadingOrder

/-!
Cases in the order in which they are first seen.  Each branch adds those of its cases
that no branch before it has given, so that more branches leave the cases in front of
theirs where they are.
-/

namespace ChangeCoverage

section Occurrences

variable {α : Type} [DecidableEq α]

theorem mem_firstOccurrences {earlier found : List α} {element : α} :
    element ∈ firstOccurrences earlier found ↔ element ∈ found ∧ element ∉ earlier := by
  induction found generalizing earlier with
  | nil => simp [firstOccurrences]
  | cons first later inductionHypothesis =>
      rw [firstOccurrences]
      split
      next occurred =>
        rw [inductionHypothesis, List.mem_cons]
        constructor
        · rintro ⟨behind, isNew⟩
          exact ⟨.inr behind, isNew⟩
        · rintro ⟨rfl | behind, isNew⟩
          · exact absurd occurred isNew
          · exact ⟨behind, isNew⟩
      next isNew =>
        rw [List.mem_cons, inductionHypothesis, List.mem_cons, List.mem_cons, not_or]
        by_cases isFirst : element = first
        · simp [isFirst, isNew]
        · simp [isFirst]

/-- What occurs for the first time comes in the order of the places where it does. -/
theorem pairwise_firstOccurrences (earlier found : List α) :
    (firstOccurrences earlier found).Pairwise
      fun element next => found.idxOf element < found.idxOf next := by
  induction found generalizing earlier with
  | nil => exact .nil
  | cons first later inductionHypothesis =>
      -- Another element stands one place further back than in what follows the first.
      have moved {before : List α} (occurred : first ∈ before) :
          (firstOccurrences before later).Pairwise fun element next =>
            (first :: later).idxOf element < (first :: later).idxOf next := by
        apply (inductionHypothesis before).imp_of_mem
        intro element next isElement isNext ordered
        have differs {other : α} (membership : other ∈ firstOccurrences before later) :
            first ≠ other := by
          rintro rfl
          exact (mem_firstOccurrences.mp membership).2 occurred
        rw [List.idxOf_cons_ne later (differs isElement),
          List.idxOf_cons_ne later (differs isNext)]
        exact Nat.succ_lt_succ ordered
      rw [firstOccurrences]
      split
      next occurred => exact moved occurred
      next isNew =>
        apply List.Pairwise.cons
        · intro next isNext
          have differs : first ≠ next := by
            rintro rfl
            exact (mem_firstOccurrences.mp isNext).2 List.mem_cons_self
          rw [List.idxOf_cons_self, List.idxOf_cons_ne later differs]
          exact Nat.succ_pos _
        · exact moved List.mem_cons_self

theorem nodup_firstOccurrences (earlier found : List α) :
    (firstOccurrences earlier found).Nodup := by
  apply (pairwise_firstOccurrences earlier found).imp
  rintro element next ordered rfl
  exact Nat.lt_irrefl _ ordered

theorem firstOccurrences_congr {earlier others : List α}
    (same : ∀ element, element ∈ earlier ↔ element ∈ others) (found : List α) :
    firstOccurrences earlier found = firstOccurrences others found := by
  induction found generalizing earlier others with
  | nil => rfl
  | cons first later inductionHypothesis =>
      have sameBehind : ∀ element, element ∈ first :: earlier ↔ element ∈ first :: others := by
        intro element
        rw [List.mem_cons, List.mem_cons, same element]
      simp only [firstOccurrences, same first, inductionHypothesis same,
        inductionHypothesis sameBehind]

/-- What has occurred before is left out, as if it were removed afterwards. -/
theorem firstOccurrences_append_left (before earlier found : List α) :
    firstOccurrences (before ++ earlier) found =
      (firstOccurrences earlier found).filter (· ∉ before) := by
  induction found generalizing earlier with
  | nil => rfl
  | cons first later inductionHypothesis =>
      have pushed := inductionHypothesis (first :: earlier)
      by_cases occurred : first ∈ earlier
      · rw [firstOccurrences, firstOccurrences, if_pos (List.mem_append_right before occurred),
          if_pos occurred, inductionHypothesis]
      · rw [firstOccurrences, firstOccurrences, if_neg occurred]
        by_cases isRemoved : first ∈ before
        · have same : ∀ element,
              element ∈ before ++ earlier ↔ element ∈ before ++ first :: earlier := by
            intro element
            simp only [List.mem_append, List.mem_cons]
            by_cases isFirst : element = first
            · simp [isFirst, isRemoved]
            · simp [isFirst]
          rw [if_pos (List.mem_append_left earlier isRemoved), firstOccurrences_congr same,
            pushed, List.filter_cons_of_neg (by simpa using isRemoved)]
        · have absent : first ∉ before ++ earlier := by simp [isRemoved, occurred]
          have same : ∀ element,
              element ∈ first :: (before ++ earlier) ↔ element ∈ before ++ first :: earlier := by
            intro element
            simp only [List.mem_append, List.mem_cons]
            exact or_left_comm
          rw [if_neg absent, firstOccurrences_congr same, pushed,
            List.filter_cons_of_pos (by simpa using isRemoved)]

/-- In front of what follows, everything that occurs there stays where it is. -/
theorem firstOccurrences_append (front back : List α) :
    firstOccurrences [] (front ++ back) =
      firstOccurrences [] front ++ (firstOccurrences [] back).filter (· ∉ front) := by
  rw [← eraseDups_eq, List.eraseDups_append, eraseDups_eq, eraseDups_removeAll,
    ← firstOccurrences_append_left, List.append_nil]

end Occurrences

namespace Case

theorem ofBranches_eq (branches : List Branch) :
    ofBranches branches = firstOccurrences [] (branches.flatMap ofBranch) :=
  eraseDups_eq _

theorem mem_ofBranches {branches : List Branch} {case : Case} :
    case ∈ ofBranches branches ↔ ∃ branch ∈ branches, case ∈ ofBranch branch := by
  rw [ofBranches, List.mem_eraseDups, List.mem_flatMap]

theorem nodup_ofBranches (branches : List Branch) : (ofBranches branches).Nodup := by
  rw [ofBranches_eq]
  exact nodup_firstOccurrences [] _

/-- Further branches add the cases that are not there yet. -/
theorem ofBranches_append (branches added : List Branch) :
    ofBranches (branches ++ added) =
      ofBranches branches ++ (ofBranches added).filter (· ∉ ofBranches branches) := by
  rw [ofBranches_eq, List.flatMap_append, firstOccurrences_append, ← ofBranches_eq,
    ← ofBranches_eq]
  congr 1
  apply List.filter_congr
  intro case _
  rw [decide_eq_decide, mem_ofBranches, List.mem_flatMap]

theorem idxOf_ofBranches_append {branches : List Branch} {case : Case}
    (given : case ∈ ofBranches branches) (added : List Branch) :
    (ofBranches (branches ++ added)).idxOf case = (ofBranches branches).idxOf case := by
  rw [ofBranches_append, List.idxOf_append_of_mem given]

/-- Branches with the same members give the same cases. -/
theorem perm_ofBranches_append (branches : List Branch) {added others : List Branch}
    (same : ∀ branch, branch ∈ others ↔ branch ∈ added) :
    (ofBranches (branches ++ others)).Perm (ofBranches (branches ++ added)) := by
  rw [List.perm_ext_iff_of_nodup (nodup_ofBranches _) (nodup_ofBranches _)]
  intro case
  simp only [mem_ofBranches, List.mem_append, same]

/-- The cases of branches are all outcomes of them, each one once and where it occurs
first; branches behind them add what is new, whatever their order and number. -/
theorem ofBranches_firstSeen (branches : List Branch) {added others : List Branch}
    (same : ∀ branch, branch ∈ others ↔ branch ∈ added) :
    let expanded := branches.flatMap ofBranch
    (ofBranches branches).Nodup ∧
      (∀ case, case ∈ ofBranches branches ↔ ∃ branch ∈ branches, case ∈ ofBranch branch) ∧
      (ofBranches branches).Pairwise
        (fun case next => expanded.idxOf case < expanded.idxOf next) ∧
      ofBranches (branches ++ added) =
        ofBranches branches ++ (ofBranches added).filter (· ∉ ofBranches branches) ∧
      (ofBranches (branches ++ others)).Perm (ofBranches (branches ++ added)) ∧
      ∀ case ∈ ofBranches branches,
        (ofBranches (branches ++ others)).idxOf case =
          (ofBranches (branches ++ added)).idxOf case := by
  intro expanded
  have ordered : (ofBranches branches).Pairwise
      (fun case next => expanded.idxOf case < expanded.idxOf next) := by
    rw [ofBranches_eq]
    exact pairwise_firstOccurrences [] expanded
  refine ⟨nodup_ofBranches branches, fun case => mem_ofBranches, ordered,
    ofBranches_append branches added, perm_ofBranches_append branches same, ?_⟩
  intro case given
  rw [idxOf_ofBranches_append given, idxOf_ofBranches_append given]

section Sample

def branchOf (kind : Branch.Kind) (condition : String) (line : Nat) : Branch where
  scope := { typeName := some ['A'], methodName := some ['M'] }
  kind
  condition := condition.toList
  startLine := line
  depth := 2

def askedOnce : List Branch :=
  [branchOf .ifHeader "if (ok)" 3, branchOf .elseHeader "else" 5]

/-- A switch, and a second branch with a condition that has been asked before. -/
def askedAgain : List Branch :=
  [branchOf .switchHeader "switch (mode)" 6, branchOf .ifHeader "if (ok)" 9,
    branchOf .caseLabel "case 1:" 7]

end Sample

/-- A repeated condition gives no case, and the cases before it stay in front. -/
theorem ofBranches_firstSeen_reversed :
    (∀ branch, branch ∈ askedAgain.reverse ++ askedAgain ↔ branch ∈ askedAgain) ∧
      (ofBranches (askedOnce ++ (askedAgain.reverse ++ askedAgain))).Perm
        (ofBranches (askedOnce ++ askedAgain)) ∧
      (ofBranches (askedOnce ++ (askedAgain.reverse ++ askedAgain))).map (·.condition) =
        ["if (ok) → true", "if (ok) → false", "case 1:", "switch (mode)"].map String.toList ∧
      (ofBranches (askedOnce ++ askedAgain)).map (·.condition) =
        ["if (ok) → true", "if (ok) → false", "switch (mode)", "case 1:"].map String.toList := by
  have same : ∀ branch, branch ∈ askedAgain.reverse ++ askedAgain ↔ branch ∈ askedAgain := by
    intro branch
    rw [List.mem_append, List.mem_reverse, or_self]
  obtain ⟨-, -, -, -, permuted, -⟩ := ofBranches_firstSeen askedOnce same
  exact ⟨same, permuted, by decide +kernel, by decide +kernel⟩

end Case

end ChangeCoverage
