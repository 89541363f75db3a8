import ChangeCoverage.Proofs.Branch.Stack

/-!
The stack against the extents.  While the marks of a file are passed, every
branch found so far has been accepted, or is open with its last line ahead, or
has ended on lines that did not change; the branches ahead are found later.
-/

namespace ChangeCoverage.Branch

open Source (Brace)

theorem touches_iff {changed : List Nat} {first last : Nat} :
    touches changed first last = true ↔ ∃ line ∈ changed, first ≤ line ∧ line ≤ last := by
  simp [touches]

/-- A changed line lies on the header's line or on a later one of its extent. -/
theorem touches_max (changed : List Nat) (start last : Nat) :
    touches changed start (max start last) =
      (changed.contains start || touches changed start last) := by
  rw [Bool.eq_iff_iff, Bool.or_eq_true, touches_iff, touches_iff, List.contains_iff_mem]
  constructor
  · rintro ⟨line, membership, startLe, lastLe⟩
    by_cases own : line = start
    · exact .inl (own ▸ membership)
    · exact .inr ⟨line, membership, startLe, by omega⟩
  · rintro (own | ⟨line, membership, startLe, lastLe⟩)
    · exact ⟨start, own, Nat.le_refl start, Nat.le_max_left start last⟩
    · exact ⟨line, membership, startLe, Nat.le_trans lastLe (Nat.le_max_right start last)⟩

def ahead (changed : List Nat) (fileEnd depth : Nat) (marks : List Mark) : List Branch :=
  ((extentsFrom fileEnd depth marks).filter (·.touchedBy changed)).map (·.branch)

def Open.lastLine (fileEnd depth : Nat) (marks : List Mark) (candidate : Open) : Nat :=
  Branch.lastLine candidate.branch candidate.inline fileEnd depth marks

namespace Progress

def passMark (changed : List Nat) (progress : Progress) : Mark → Progress
  | .brace line brace => progress.passBrace changed line brace
  | .header line header =>
      progress.openBranch changed line.scope line.masked line.number header
  | .lineEnd line => closeInline changed line progress

/-- Opens the branch of a header, after a label has ended the branches before it. -/
def openHeader (changed : List Nat) (line : SourceLine) (header : Header) (before : Progress) :
    Progress :=
  let branch := header.branchAt line before.depth
  let accepted := changed.contains line.number
  { before with
    stack := { branch, accepted, inline := header.isInline line.masked } :: before.stack
    accepted := if accepted then before.accepted ++ [branch] else before.accepted }

theorem passMark_header (changed : List Nat) (progress : Progress) (line : SourceLine)
    (header : Header) :
    progress.passMark changed (.header line header) =
      openHeader changed line header
        (if header.kind.isLabel then
          progress.closeWhile changed (line.number - 1) fun branch => progress.depth ≤ branch.depth
        else progress) := rfl

/-- The branches that will have been accepted after some marks. -/
def expected (changed : List Nat) (fileEnd : Nat) (marks : List Mark) (progress : Progress) :
    List Branch :=
  progress.accepted ++
    accepting changed (Open.lastLine fileEnd progress.depth marks) progress.stack ++
    ahead changed fileEnd progress.depth marks

variable {changed : List Nat} {fileEnd : Nat} {progress : Progress}

theorem perm_expected_of_ended {last later : Open → Nat} {line : Nat} {ends : Open → Bool}
    {stack : List Open} (accepted future : List Branch)
    (decided : ∀ candidate, last candidate = if ends candidate then line else later candidate) :
    (accepted ++ accepting changed (fun _ => line) (stack.filter ends) ++
        accepting changed later (stack.filter fun candidate => !ends candidate) ++ future).Perm
      (accepted ++ accepting changed last stack ++ future) := by
  rw [List.append_assoc accepted]
  exact ((accepting_split changed stack decided).append_left accepted).append_right future

/-- A new branch is accepted at its header, or at its end, or never. -/
theorem perm_expected_of_opened (before : Progress) (line : SourceLine) (header : Header)
    (marks : List Mark) :
    ((openHeader changed line header before).expected changed fileEnd marks).Perm
      (before.accepted ++
        accepting changed (Open.lastLine fileEnd before.depth marks) before.stack ++
        ahead changed fileEnd before.depth (.header line header :: marks)) := by
  let branch := header.branchAt line before.depth
  let accepted := changed.contains line.number
  let last := Branch.lastLine branch (header.isInline line.masked) fileEnd before.depth marks
  have atEnd (stack : List Open) :
      accepting changed (Open.lastLine fileEnd before.depth marks)
          ({ branch, accepted, inline := header.isInline line.masked } :: stack) =
        (if !accepted && touches changed line.number last then [branch] else []) ++
          accepting changed (Open.lastLine fileEnd before.depth marks) stack :=
    accepting_cons changed _ _ stack
  have found :
      ahead changed fileEnd before.depth (.header line header :: marks) =
        (if accepted || touches changed line.number last then [branch] else []) ++
          ahead changed fileEnd before.depth marks := by
    have touched : ({ branch, last } : Extent).touchedBy changed =
        (accepted || touches changed line.number last) :=
      touches_max changed line.number last
    simp only [ahead, extentsFrom, List.filter_cons]
    rw [touched]
    split <;> rfl
  have opened : (openHeader changed line header before).expected changed fileEnd marks =
      (if accepted then before.accepted ++ [branch] else before.accepted) ++
        accepting changed (Open.lastLine fileEnd before.depth marks)
          ({ branch, accepted, inline := header.isInline line.masked } :: before.stack) ++
        ahead changed fileEnd before.depth marks := rfl
  rw [opened, atEnd, found]
  cases accepted with
  | true => simpa using List.perm_middle.symm.append_left before.accepted
  | false =>
      cases touches changed line.number last with
      | true => simpa using List.perm_middle.symm.append_left before.accepted
      | false => simp

theorem ordered_passMark (ordered : Ordered progress.depth progress.stack) (mark : Mark) :
    Ordered (passMark changed progress mark).depth (passMark changed progress mark).stack := by
  cases mark with
  | brace line brace =>
      cases brace with
      | opening => exact ordered.raise
      | closing =>
          rw [passMark, passBrace_closing_eq changed line progress ordered.above]
          exact ordered.lower
  | header line header =>
      cases isLabel : header.kind.isLabel with
      | true =>
          rw [passMark_header, if_pos isLabel,
            closeWhile_eq changed _ (endsUpward_label progress.depth) progress ordered.above]
          refine (ordered.filter _).push _ rfl ?_
          intro _ candidate membership
          simpa using (List.mem_filter.mp membership).2
      | false =>
          rw [passMark_header, isLabel, if_neg Bool.false_ne_true]
          exact ordered.push _ rfl fun opensLabel =>
            absurd (isLabel.symm.trans opensLabel) Bool.false_ne_true
  | lineEnd line =>
      rw [passMark, closeInline_eq]
      exact ordered.filter _

theorem perm_expected_passMark (ordered : Ordered progress.depth progress.stack) (mark : Mark)
    (marks : List Mark) :
    ((passMark changed progress mark).expected changed fileEnd marks).Perm
      (progress.expected changed fileEnd (mark :: marks)) := by
  cases mark with
  | brace line brace =>
      cases brace with
      | opening => exact .refl _
      | closing =>
          rw [passMark, passBrace_closing_eq changed line progress ordered.above]
          apply perm_expected_of_ended
          intro candidate
          simp only [Open.lastLine, Branch.lastLine, endsAt_eq]
  | header line header =>
      cases isLabel : header.kind.isLabel with
      | true =>
          rw [passMark_header, if_pos isLabel,
            closeWhile_eq changed _ (endsUpward_label progress.depth) progress ordered.above]
          refine (perm_expected_of_opened _ line header marks).trans ?_
          apply perm_expected_of_ended
          intro candidate
          simp only [Open.lastLine, Branch.lastLine, isLabel, Bool.true_and]
      | false =>
          rw [passMark_header, isLabel, if_neg Bool.false_ne_true]
          have unmoved : Open.lastLine fileEnd progress.depth (.header line header :: marks) =
              Open.lastLine fileEnd progress.depth marks := by
            funext candidate
            simp [Open.lastLine, Branch.lastLine, isLabel]
          refine (perm_expected_of_opened progress line header marks).trans (.of_eq ?_)
          rw [expected, unmoved]
  | lineEnd line =>
      rw [passMark, closeInline_eq]
      have reversed := (List.reverse_perm progress.stack).filter (·.inline)
      have sameAccepted := perm_accepting changed (fun _ => line) reversed
      refine (((sameAccepted.append_left progress.accepted).append_right _).append_right _).trans ?_
      apply perm_expected_of_ended
      intro candidate
      simp only [Open.lastLine, Branch.lastLine]

/-- What is accepted in the end was expected from the start. -/
theorem perm_finish_foldl_passMark (changed : List Nat) (fileEnd : Nat) (marks : List Mark)
    (ordered : Ordered progress.depth progress.stack) :
    ((marks.foldl (passMark changed) progress).finish changed fileEnd).Perm
      (progress.expected changed fileEnd marks) := by
  induction marks generalizing progress with
  | nil =>
      have ended := closeWhile_eq changed fileEnd endsUpward_always progress ordered.above
      have all : progress.stack.filter (fun _ => true) = progress.stack :=
        List.filter_eq_self.mpr fun _ _ => rfl
      rw [List.foldl_nil, finish, ended, expected, all]
      exact .of_eq (List.append_nil _).symm
  | cons mark marks inductionHypothesis =>
      rw [List.foldl_cons]
      exact (inductionHypothesis (ordered_passMark ordered mark)).trans
        (perm_expected_passMark ordered mark marks)

end Progress

end ChangeCoverage.Branch
