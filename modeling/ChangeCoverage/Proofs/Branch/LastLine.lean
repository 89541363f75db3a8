import ChangeCoverage.Proofs.Branch.BlankLine
import Mathlib.Data.List.Basic
import Mathlib.Data.List.TakeWhile

/-!
A blank line at the end of a file.  Branches that are open there end on it.  They
are found without it unless it has changed, and if all other lines have changed
they have been accepted before.
-/

namespace ChangeCoverage.Branch

open Source (ScopeEntry LexState)

namespace Progress

variable {changed : List Nat} {progress : Progress}

/-- Every open branch has been accepted, so that it does not matter where it ends. -/
def AllAccepted (progress : Progress) : Prop :=
  ∀ candidate ∈ progress.stack, candidate.accepted = true

theorem allAccepted_start : AllAccepted {} := fun _ membership => absurd membership List.not_mem_nil

theorem AllAccepted.closeWhile (accepted : progress.AllAccepted) (lastLine : Nat)
    (ends : Branch → Bool) : (progress.closeWhile changed lastLine ends).AllAccepted := by
  rw [Progress.closeWhile, foldl_close]
  intro candidate membership
  exact accepted candidate ((List.dropWhile_sublist _).subset membership)

/-- A header on a changed line opens an accepted branch. -/
theorem AllAccepted.passMark (accepted : progress.AllAccepted) {mark : Mark}
    (isChanged : ∀ line header, mark = .header line header → line.number ∈ changed) :
    (progress.passMark changed mark).AllAccepted := by
  cases mark with
  | brace line met =>
      cases met with
      | opening => exact accepted
      | closing =>
          have lowered : AllAccepted { progress with depth := progress.depth - 1 } := accepted
          exact lowered.closeWhile line (·.endsAt (progress.depth - 1))
  | lineEnd line =>
      rw [Progress.passMark, closeInline_eq]
      intro candidate membership
      exact accepted candidate (List.mem_filter.mp membership).1
  | header line header =>
      have before : (if header.kind.isLabel then
          progress.closeWhile changed (line.number - 1) fun branch => progress.depth ≤ branch.depth
        else progress).AllAccepted := by
        split
        · exact accepted.closeWhile _ _
        · exact accepted
      rw [passMark_header]
      intro candidate membership
      rcases List.mem_cons.mp membership with rfl | below
      · exact List.contains_iff_mem.mpr (isChanged line header rfl)
      · exact before candidate below

theorem AllAccepted.foldl_passMark (accepted : progress.AllAccepted) {marks : List Mark}
    (areChanged : ∀ line header, .header line header ∈ marks → line.number ∈ changed) :
    (marks.foldl (Progress.passMark changed) progress).AllAccepted := by
  induction marks generalizing progress with
  | nil => exact accepted
  | cons mark later inductionHypothesis =>
      refine inductionHypothesis (accepted.passMark ?_) ?_
      · rintro line header rfl
        exact areChanged line header List.mem_cons_self
      · intro line header membership
        exact areChanged line header (List.mem_cons_of_mem mark membership)

/-- Where branches end that are open at the end of a file matters for those that
have not been accepted. -/
theorem finish_congr {last other : Nat}
    (same : ∀ candidate ∈ progress.stack, candidate.accepted = false →
      touches changed candidate.branch.startLine last =
        touches changed candidate.branch.startLine other) :
    progress.finish changed last = progress.finish changed other := by
  have sameAccepting : accepting changed (fun _ => last) progress.stack =
      accepting changed (fun _ => other) progress.stack := by
    rw [accepting, accepting]
    congr 1
    refine List.filter_congr fun candidate membership => ?_
    cases accepted : candidate.accepted with
    | true => rfl
    | false => rw [same candidate membership accepted]
  have all : (progress.stack.takeWhile fun _ => true) = progress.stack :=
    List.takeWhile_eq_self_iff.mpr fun _ _ => rfl
  rw [finish, finish, closeWhile, closeWhile, foldl_close, foldl_close, all]
  exact congrArg (progress.accepted ++ ·) sameAccepting

end Progress

/-- A line has a number of its file and belongs to the entry of that number. -/
theorem getElem?_of_mem_sourceLines {number : Nat} {lexState : LexState} {fileLines : List Text}
    {scopes : List ScopeEntry} (sameLength : scopes.length = fileLines.length) :
    ∀ line ∈ sourceLines number lexState fileLines scopes,
      number ≤ line.number ∧ line.number < number + fileLines.length ∧
        scopes[line.number - number]? = some line.scope := by
  induction fileLines generalizing number lexState scopes with
  | nil => exact fun line membership => absurd membership List.not_mem_nil
  | cons raw rest inductionHypothesis =>
      obtain ⟨entry, entries, rfl⟩ := List.exists_cons_of_length_eq_add_one sameLength
      intro line membership
      rcases List.mem_cons.mp membership with rfl | later
      · exact ⟨Nat.le_refl number, by simp, by simp⟩
      · obtain ⟨atLeast, below, found⟩ := inductionHypothesis (Nat.succ.inj sameLength) line later
        rw [List.length_cons]
        refine ⟨by omega, by omega, ?_⟩
        obtain ⟨distance, numberEq⟩ := Nat.exists_eq_add_of_le atLeast
        have here : line.number - number = distance + 1 := by omega
        have there : line.number - (number + 1) = distance := by omega
        rw [here, List.getElem?_cons_succ, ← there]
        exact found

section LastLine

variable {front : List Text} {before : List ScopeEntry} {inserted : ScopeEntry}
  {changed : List Nat}

theorem getElem?_concat {index : Nat} (notLast : index ≠ before.length) :
    (before ++ [inserted])[index]? = before[index]? := by
  by_cases within : index < before.length
  · exact List.getElem?_append_left within
  · have beyond : (before ++ [inserted]).length ≤ index := by
      rw [List.length_append, List.length_singleton]
      omega
    exact (List.getElem?_eq_none beyond).trans (List.getElem?_eq_none (by omega)).symm

/-- Only the entries of changed lines make a scope hot. -/
theorem isHot_congr {scopes other : List ScopeEntry}
    (same : ∀ number ∈ changed, number ≠ 0 → scopes[number - 1]? = other[number - 1]?) :
    isHot scopes changed = isHot other changed := by
  funext scope
  rw [isHot, isHot, Bool.eq_iff_iff, List.any_eq_true, List.any_eq_true]
  refine exists_congr fun number => and_congr_right fun isChanged => ?_
  by_cases zero : number = 0
  · simp [zero]
  · rw [same number isChanged zero]

/-- A line behind some others has not changed, or they all have. -/
def EndSpared (changed : List Nat) (count : Nat) : Prop :=
  count + 1 ∉ changed ∨ ∀ number, 1 ≤ number → number ≤ count → number ∈ changed

theorem isHot_concat (sameLength : before.length = front.length)
    (spared : EndSpared changed front.length) :
    ∀ line ∈ sourceLines 1 .code front before,
      isHot (before ++ [inserted]) changed line.scope = isHot before changed line.scope := by
  intro line membership
  rcases spared with unchanged | all
  · refine congrFun (isHot_congr fun number isChanged positive => ?_) line.scope
    have notLast : number ≠ front.length + 1 := fun last => unchanged (last ▸ isChanged)
    exact getElem?_concat (by omega)
  · obtain ⟨atLeast, below, entry⟩ := getElem?_of_mem_sourceLines sameLength line membership
    have isChanged : line.number ∈ changed := all line.number atLeast (by omega)
    have within : line.number - 1 < before.length := by omega
    have hotWithout : isHot before changed line.scope = true :=
      isHot_of_changed isChanged atLeast entry
    have hotWithin : isHot (before ++ [inserted]) changed line.scope = true :=
      isHot_of_changed isChanged atLeast ((List.getElem?_append_left within).trans entry)
    rw [hotWithout, hotWithin]

/-- A blank line at the end adds its own end to the marks. -/
theorem fileMarks_concat {line : Text} (blank : Text.IsBlankText line)
    (sameLength : before.length = front.length) (spared : EndSpared changed front.length) :
    ∃ last, fileMarks (front ++ [line]) (before ++ [inserted]) changed =
      fileMarks front before changed ++ [.lineEnd last] := by
  have startsCode : LexState.code.atLineEnd = .code := rfl
  obtain ⟨reached, spans, append⟩ := sourceLines_append 1 startsCode sameLength
  obtain ⟨last, isBlank, within⟩ := sourceLines_blank (1 + front.length) spans blank inserted [] []
  refine ⟨last.number, ?_⟩
  have sameMarks :
      ((sourceLines 1 .code front before).flatMap fun line =>
        lineMarks (isHot (before ++ [inserted]) changed line.scope) line) =
      (sourceLines 1 .code front before).flatMap fun line =>
        lineMarks (isHot before changed line.scope) line :=
    List.flatMap_congr fun line membership => by
      rw [isHot_concat sameLength spared line membership]
  rw [fileMarks, fileMarks, append, within, List.flatMap_append, sameMarks, List.flatMap_cons,
    lineMarks_blank _ isBlank]
  rfl

theorem touches_succ {first last : Nat} (unchanged : last + 1 ∉ changed) :
    touches changed first (last + 1) = touches changed first last := by
  rw [Bool.eq_iff_iff, touches_iff, touches_iff]
  refine exists_congr fun number => and_congr_right fun isChanged => ?_
  have notLast : number ≠ last + 1 := fun isLast => unchanged (isLast ▸ isChanged)
  omega

/-- When all lines have changed, so have those of the headers. -/
theorem changed_of_mem_fileMarks (sameLength : before.length = front.length)
    (all : ∀ number, 1 ≤ number → number ≤ front.length → number ∈ changed) :
    ∀ line header, .header line header ∈ fileMarks front before changed →
      line.number ∈ changed := by
  intro line header membership
  obtain ⟨isLine, -⟩ := header_of_mem_fileMarks membership
  obtain ⟨atLeast, below, _⟩ := getElem?_of_mem_sourceLines sameLength line isLine
  exact all line.number atLeast (by omega)

/-- When all lines have changed, all branches are accepted where they open. -/
theorem allAccepted_fileMarks (sameLength : before.length = front.length)
    (all : ∀ number, 1 ≤ number → number ≤ front.length → number ∈ changed) :
    ((fileMarks front before changed).foldl (Progress.passMark changed) {}).AllAccepted :=
  Progress.allAccepted_start.foldl_passMark (changed_of_mem_fileMarks sameLength all)

/-- A blank line at the end of a file changes no branches, unless it has changed
while some other line has not. -/
theorem extract_concat {line : Text} (blank : Text.IsBlankText line)
    (spared : EndSpared changed front.length) :
    extract (front ++ [line]) (Source.scopeEntries (front ++ [line])) changed =
      extract front (Source.scopeEntries front) changed := by
  obtain ⟨before, inserted, behind, sameLength, without, within⟩ :=
    Source.scopeEntries_insert front [] blank
  rw [List.append_nil] at without
  have noneBehind : behind = [] := by
    have lengths := congrArg List.length without
    rw [Source.length_scopeEntries, List.length_append, sameLength] at lengths
    exact List.eq_nil_of_length_eq_zero (by omega)
  rw [noneBehind, List.append_nil] at without
  rw [noneBehind] at within
  obtain ⟨last, marks⟩ :
      ∃ last, fileMarks (front ++ [line]) (before ++ [inserted]) changed =
        fileMarks front before changed ++ [.lineEnd last] :=
    fileMarks_concat blank sameLength spared
  have dropped := sweep_lineEnd changed (front.length + 1) last
    (fun line => isHot before changed line.scope) (sourceLines 1 .code front before) []
  rw [← fileMarks, List.append_nil] at dropped
  rw [extract_eq, extract_eq, within, without, marks, List.length_append, List.length_singleton,
    dropped, sweep, sweep]
  split
  next => rfl
  next =>
    refine Progress.finish_congr fun candidate membership late => ?_
    rcases spared with unchanged | all
    · exact touches_succ unchanged
    · rw [allAccepted_fileMarks sameLength all candidate membership] at late
      exact absurd late.symm Bool.false_ne_true

end LastLine

end ChangeCoverage.Branch
