import ChangeCoverage.Case.Basic
import ChangeCoverage.Proofs.Branch.Depth
import ChangeCoverage.Proofs.Branch.LastLine
import ChangeCoverage.Proofs.Text.Lines

/-!
A file all of whose lines have changed.  Every branch is accepted where it opens, so
that none is left to be accepted where it ends, and the branches come in the order in
which their headers are read.
-/

namespace ChangeCoverage

section Occurrences

variable {α : Type} [DecidableEq α]

/-- The elements that occur for the first time, given those that have occurred before. -/
def firstOccurrences (earlier : List α) : List α → List α
  | [] => []
  | found :: later =>
      if found ∈ earlier then firstOccurrences earlier later
      else found :: firstOccurrences (found :: earlier) later

theorem eraseDups_removeAll (earlier found : List α) :
    (found.removeAll earlier).eraseDups = firstOccurrences earlier found := by
  induction found generalizing earlier with
  | nil => rfl
  | cons first later inductionHypothesis =>
      rw [firstOccurrences]
      split
      next occurred =>
        rw [← inductionHypothesis, List.cons_removeAll, if_neg (by simpa using occurred)]
      next isNew =>
        have rest : (later.removeAll earlier).filter (fun other => !other == first) =
            later.removeAll (first :: earlier) := by
          rw [List.removeAll, List.filter_filter, List.removeAll]
          apply List.filter_congr
          intro other _
          rw [List.elem_cons]
          cases other == first <;> simp
        rw [← inductionHypothesis, List.cons_removeAll, if_pos (by simpa using isNew),
          List.eraseDups_cons, rest]

theorem eraseDups_eq (found : List α) : found.eraseDups = firstOccurrences [] found := by
  rw [← eraseDups_removeAll, List.removeAll_nil]

end Occurrences

namespace Branch

open Source (Brace ScopeEntry)

/-- The branch that a mark opens. -/
def Mark.opened (depth : Nat) : Mark → List Branch
  | .brace _ _ => []
  | .header line found => [found.branchAt line depth]
  | .lineEnd _ => []

theorem branches_cons (fileEnd depth : Nat) (mark : Mark) (later : List Mark) :
    (extentsFrom fileEnd depth (mark :: later)).map (·.branch) =
      mark.opened depth ++ (extentsFrom fileEnd (mark.depthFrom depth) later).map (·.branch) := by
  cases mark with
  | brace line met => cases met <;> rfl
  | header line header => rfl
  | lineEnd line => rfl

namespace Progress

variable {changed : List Nat} {progress : Progress}

/-- A branch that has been accepted is not accepted again where it ends. -/
theorem accepting_eq_nil {last : Open → Nat} {ended : List Open}
    (accepted : ∀ candidate ∈ ended, candidate.accepted = true) :
    accepting changed last ended = [] := by
  have none : (ended.filter fun candidate =>
      !candidate.accepted && touches changed candidate.branch.startLine (last candidate)) = [] := by
    apply List.filter_eq_nil_iff.mpr
    intro candidate membership
    rw [accepted candidate membership]
    exact Bool.false_ne_true
  rw [accepting, none, List.map_nil]

theorem AllAccepted.accepted_closeWhile (accepted : progress.AllAccepted) (lastLine : Nat)
    (ends : Branch → Bool) :
    (progress.closeWhile changed lastLine ends).accepted = progress.accepted := by
  have none : accepting changed (fun _ => lastLine)
      (progress.stack.takeWhile fun candidate => ends candidate.branch) = [] :=
    accepting_eq_nil fun candidate membership =>
      accepted candidate ((List.takeWhile_sublist _).subset membership)
  rw [Progress.closeWhile, foldl_close, none, List.append_nil]

theorem AllAccepted.finish_eq (accepted : progress.AllAccepted) (lastLine : Nat) :
    progress.finish changed lastLine = progress.accepted :=
  accepted.accepted_closeWhile lastLine fun _ => true

/-- A mark adds the branch that it opens, whatever it ends. -/
theorem AllAccepted.accepted_passMark (accepted : progress.AllAccepted) {mark : Mark}
    (isChanged : ∀ line header, mark = .header line header → line.number ∈ changed) :
    (progress.passMark changed mark).accepted =
      progress.accepted ++ mark.opened progress.depth := by
  cases mark with
  | brace line met =>
      rw [Mark.opened, List.append_nil]
      cases met with
      | opening => rfl
      | closing =>
          have lowered : AllAccepted { progress with depth := progress.depth - 1 } := accepted
          exact lowered.accepted_closeWhile line (·.endsAt (progress.depth - 1))
  | lineEnd line =>
      have none : accepting changed (fun _ => line)
          (progress.stack.reverse.filter (·.inline)) = [] :=
        accepting_eq_nil fun candidate membership =>
          accepted candidate (List.mem_reverse.mp (List.mem_filter.mp membership).1)
      rw [Progress.passMark, closeInline_eq, none]
      rfl
  | header line header =>
      have isAccepted : changed.contains line.number = true :=
        List.contains_iff_mem.mpr (isChanged line header rfl)
      rw [passMark_header, openHeader, if_pos isAccepted]
      cases header.kind.isLabel with
      | true =>
          simp only [if_true, accepted.accepted_closeWhile, depth_closeWhile]
          rfl
      | false => rfl

theorem AllAccepted.accepted_foldl_passMark (fileEnd : Nat) {marks : List Mark}
    (accepted : progress.AllAccepted)
    (areChanged : ∀ line header, .header line header ∈ marks → line.number ∈ changed) :
    (marks.foldl (Progress.passMark changed) progress).accepted =
      progress.accepted ++ (extentsFrom fileEnd progress.depth marks).map (·.branch) := by
  induction marks generalizing progress with
  | nil => exact (List.append_nil _).symm
  | cons mark later inductionHypothesis =>
      have isChanged : ∀ line header, mark = .header line header → line.number ∈ changed := by
        rintro line header rfl
        exact areChanged line header List.mem_cons_self
      have stillChanged :
          ∀ line header, .header line header ∈ later → line.number ∈ changed := by
        intro line header membership
        exact areChanged line header (List.mem_cons_of_mem mark membership)
      rw [List.foldl_cons, inductionHypothesis (accepted.passMark isChanged) stillChanged,
        accepted.accepted_passMark isChanged, depth_passMark, branches_cons, List.append_assoc]

end Progress

/-- Reading order: from line to line, and along each line. -/
def Site.Before (earlier later : Site) : Prop :=
  earlier.line.number < later.line.number ∨
    earlier.line.number = later.line.number ∧ earlier.header.column < later.header.column

theorem pairwise_sites (fileLines : List Text) (scopes : List ScopeEntry) :
    (sites fileLines scopes).Pairwise Site.Before := by
  rw [sites, List.pairwise_flatMap]
  constructor
  · intro line _
    rw [List.pairwise_map]
    apply (placed_headers line.masked line.raw).pairwise.imp
    intro earlier later ordered
    exact .inr ⟨rfl, ordered⟩
  · apply (pairwise_sourceLines 1 .code fileLines scopes).2.imp
    intro line next ordered earlier earlierIn later laterIn
    obtain ⟨_, _, rfl⟩ := List.mem_map.mp earlierIn
    obtain ⟨_, _, rfl⟩ := List.mem_map.mp laterIn
    exact .inl ordered

section AllChanged

variable {fileLines : List Text} {changed : List Nat}

theorem isHot_of_mem_sites {scopes : List ScopeEntry}
    (sameLength : scopes.length = fileLines.length)
    (all : ∀ number, 1 ≤ number → number ≤ fileLines.length → number ∈ changed) :
    ∀ site ∈ sites fileLines scopes, isHot scopes changed site.line.scope = true := by
  intro site membership
  obtain ⟨line, isLine, isSite⟩ := List.mem_flatMap.mp membership
  obtain ⟨header, _, rfl⟩ := List.mem_map.mp isSite
  obtain ⟨atLeast, below, found⟩ := getElem?_of_mem_sourceLines sameLength line isLine
  exact isHot_of_changed (all line.number atLeast (by omega)) atLeast found

theorem extract_eq_sites {scopes : List ScopeEntry}
    (sameLength : scopes.length = fileLines.length)
    (all : ∀ number, 1 ≤ number → number ≤ fileLines.length → number ∈ changed) :
    extract fileLines scopes changed =
      (sites fileLines scopes).map (Site.branch fileLines) := by
  rw [extract_eq, sweep]
  split
  next isEmpty =>
    have noLines : fileLines = [] := by
      cases fileLines with
      | nil => rfl
      | cons raw rest =>
          have first : 1 ∈ changed := all 1 (Nat.le_refl 1) (by simp)
          rw [List.isEmpty_iff.mp isEmpty] at first
          exact absurd first List.not_mem_nil
    rw [noLines]
    rfl
  next =>
    have hot : (sites fileLines scopes).filter (isHot scopes changed ·.line.scope) =
        sites fileLines scopes :=
      List.filter_eq_self.mpr (isHot_of_mem_sites sameLength all)
    rw [(allAccepted_fileMarks sameLength all).finish_eq,
      Progress.allAccepted_start.accepted_foldl_passMark fileLines.length
        (changed_of_mem_fileMarks sameLength all)]
    refine (List.nil_append _).trans ((map_branch_extents fileLines scopes changed).trans ?_)
    rw [hot]

/-- In a file all of whose lines have changed every header gives one branch, in the order
in which they are read, and its cases are listed where they first occur. -/
theorem extract_all
    (all : ∀ number, 1 ≤ number → number ≤ fileLines.length → number ∈ changed) :
    let found := sites fileLines (Source.scopeEntries fileLines)
    extract fileLines (Source.scopeEntries fileLines) changed =
        found.map (Site.branch fileLines) ∧
      found.Pairwise Site.Before ∧
      ∀ source, Text.cleanLines source = fileLines →
        Case.ofSource source changed =
          firstOccurrences [] ((found.map (Site.branch fileLines)).flatMap Case.ofBranch) := by
  have extracted := extract_eq_sites (Source.length_scopeEntries fileLines) all
  refine ⟨extracted, pairwise_sites fileLines (Source.scopeEntries fileLines), ?_⟩
  rintro source rfl
  rw [← extracted, ← eraseDups_eq]
  rfl

end AllChanged

section Sample

/-- A file in which branches end at braces, at labels and at the end of their line. -/
def nestedLines : List Text :=
  ["class A \x7b", "  void M() \x7b", "    if (a) b(); else if (c) \x7b", "      switch (d) \x7b",
    "        case 1: e(); break;", "        default: if (a) f();", "      \x7d", "    \x7d",
    "  \x7d", "\x7d"].map String.toList

end Sample

/-- The condition that occurs twice is listed where it is read first. -/
theorem extract_all_nested :
    (∀ number, 1 ≤ number → number ≤ nestedLines.length → number ∈ List.range' 1 10) ∧
      Text.cleanLines (Text.terminate nestedLines) = nestedLines ∧
      (Case.ofSource (Text.terminate nestedLines) (List.range' 1 10)).map (·.condition) =
        ["if (a) → true", "if (a) → false", "else if (c) → true", "else if (c) → false",
          "switch (d)", "case 1:", "default:"].map String.toList := by
  have all : ∀ number, 1 ≤ number → number ≤ nestedLines.length →
      number ∈ List.range' 1 10 := by
    intro number atLeast atMost
    have length : nestedLines.length = 10 := rfl
    rw [List.mem_range'_1]
    omega
  have read : Text.cleanLines (Text.terminate nestedLines) = nestedLines :=
    Text.cleanLines_terminate (by decide)
  obtain ⟨-, -, cases⟩ := extract_all all
  refine ⟨all, read, ?_⟩
  rw [cases (Text.terminate nestedLines) read]
  decide +kernel

end Branch

end ChangeCoverage
