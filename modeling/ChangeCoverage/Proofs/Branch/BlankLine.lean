import ChangeCoverage.Case.Basic
import ChangeCoverage.Proofs.Branch.Header
import ChangeCoverage.Proofs.Branch.Transfer
import ChangeCoverage.Proofs.Source.BlankLine

/-!
Inserting a blank line.  It holds no brace and no header, so it moves the
branches behind it down by one line and leaves everything else about the
branches, and the cases they ask for, as it was.
-/

namespace ChangeCoverage.Branch

open Source (ScopeEntry LexState)

/-- The number of a line after one has been inserted before the line `first`. -/
def movedDown (first line : Nat) : Nat :=
  if line < first then line else line + 1

section Numbers

variable {first : Nat}

theorem movedDown_le_iff {line other : Nat} :
    movedDown first line ≤ movedDown first other ↔ line ≤ other := by
  unfold movedDown
  split <;> split <;> omega

theorem movedDown_inj {line other : Nat} :
    movedDown first line = movedDown first other ↔ line = other := by
  rw [Nat.le_antisymm_iff, movedDown_le_iff, movedDown_le_iff, ← Nat.le_antisymm_iff]

/-- Before a line and before the line it has become stand the same lines. -/
theorem movedDown_le_pred_iff (positive : 0 < first) {line other : Nat} :
    movedDown first line ≤ movedDown first other - 1 ↔ line ≤ other - 1 := by
  unfold movedDown
  split <;> split <;> omega

theorem movedDown_le_succ_iff {count line : Nat} (within : first ≤ count + 1) :
    movedDown first line ≤ count + 1 ↔ line ≤ count := by
  unfold movedDown
  split <;> omega

theorem contains_movedDown (changed : List Nat) (line : Nat) :
    (changed.map (movedDown first)).contains (movedDown first line) = changed.contains line := by
  rw [Bool.eq_iff_iff, List.contains_iff_mem, List.contains_iff_mem, List.mem_map]
  constructor
  · rintro ⟨other, membership, same⟩
    exact movedDown_inj.mp same ▸ membership
  · intro membership
    exact ⟨line, membership, rfl⟩

theorem touches_movedDown {last otherLast : Nat}
    (sameReach : ∀ line, movedDown first line ≤ otherLast ↔ line ≤ last) (changed : List Nat)
    (start : Nat) :
    touches (changed.map (movedDown first)) (movedDown first start) otherLast =
      touches changed start last := by
  rw [touches, touches, List.any_map]
  congr 1
  funext line
  simp only [Function.comp_apply, movedDown_le_iff, sameReach]

end Numbers

def moveDown (first : Nat) : Transfer where
  toFun branch := { branch with startLine := movedDown first branch.startLine }
  kind_eq _ := rfl
  depth_eq _ := rfl

def SourceLine.moveDown (first : Nat) (line : SourceLine) : SourceLine :=
  { line with number := movedDown first line.number }

def Mark.moveDown (first : Nat) : Mark → Mark :=
  Mark.map (movedDown first) (SourceLine.moveDown first) id

section Lines

variable {first : Nat}

theorem lineMarks_moveDown (hot : Bool) (line : SourceLine) :
    lineMarks hot (line.moveDown first) = (lineMarks hot line).map (Mark.moveDown first) := by
  have sameNumber : (line.moveDown first).number = movedDown first line.number := rfl
  have placed := map_marksFrom (movedDown first) (SourceLine.moveDown first) id sameNumber
    (fun _ => rfl) (if hot then headers line.masked line.raw else []) 0 line.masked
  rw [List.map_id] at placed
  rw [lineMarks, lineMarks, List.map_append, Mark.moveDown, placed]
  rfl

/-- Nothing is marked on a blank line but its end. -/
theorem lineMarks_blank (hot : Bool) {line : SourceLine} (blank : Text.IsBlankText line.masked) :
    lineMarks hot line = [.lineEnd line.number] := by
  have none (offset : Nat) {text : Text} (blank : Text.IsBlankText text) :
      marksFrom line [] offset text = [] := by
    induction text generalizing offset with
    | nil => rfl
    | cons character rest inductionHypothesis =>
        have alone : Text.IsBlankText [character] := by simpa [Text.IsBlankText] using blank.cons.1
        rw [marksFrom, Source.braces_blank alone, inductionHypothesis _ blank.cons.2]
        rfl
  rw [lineMarks, headers_blank blank, ite_self, none 0 blank, List.nil_append]

/-- The lines at the end of a file are numbered and masked as the lines before them say. -/
theorem sourceLines_append (number : Nat) {lexState : LexState}
    (spans : lexState.atLineEnd = lexState) {front : List Text} {before : List ScopeEntry}
    (sameLength : before.length = front.length) :
    ∃ reached : LexState, reached.atLineEnd = reached ∧ ∀ back behind,
      sourceLines number lexState (front ++ back) (before ++ behind) =
        sourceLines number lexState front before ++
          sourceLines (number + front.length) reached back behind := by
  induction front generalizing number lexState before with
  | nil =>
      obtain rfl := List.eq_nil_of_length_eq_zero sameLength
      exact ⟨lexState, spans, fun back behind => rfl⟩
  | cons raw rest inductionHypothesis =>
      obtain ⟨entry, entries, rfl⟩ := List.exists_cons_of_length_eq_add_one sameLength
      obtain ⟨reached, reachedSpans, later⟩ := inductionHypothesis (number + 1)
        (Source.atLineEnd_atLineEnd (Source.maskLine raw lexState).2) (Nat.succ.inj sameLength)
      refine ⟨reached, reachedSpans, fun back behind => ?_⟩
      have sameNumber : number + 1 + rest.length = number + (raw :: rest).length := by
        rw [List.length_cons, Nat.add_assoc, Nat.add_comm 1]
      rw [← sameNumber]
      exact congrArg _ (later back behind)

/-- A blank line is marked as one, and the lines behind it as if it were not there. -/
theorem sourceLines_blank (number : Nat) {lexState : LexState}
    (spans : lexState.atLineEnd = lexState) {line : Text} (blank : Text.IsBlankText line)
    (inserted : ScopeEntry) (back : List Text) (behind : List ScopeEntry) :
    ∃ between : SourceLine, Text.IsBlankText between.masked ∧
      sourceLines number lexState (line :: back) (inserted :: behind) =
        between :: sourceLines (number + 1) lexState back behind := by
  obtain ⟨maskedBlank, reached⟩ := Source.maskLine_blank spans blank
  refine ⟨{ number, raw := line, masked := (Source.maskLine line lexState).1, scope := inserted },
    maskedBlank, ?_⟩
  simp only [sourceLines, reached, List.head?_cons, Option.getD_some, List.tail_cons]

theorem sourceLines_moveDown {number : Nat} (notBefore : first ≤ number) (lexState : LexState)
    (fileLines : List Text) (scopes : List ScopeEntry) :
    sourceLines (number + 1) lexState fileLines scopes =
      (sourceLines number lexState fileLines scopes).map (SourceLine.moveDown first) := by
  induction fileLines generalizing number lexState scopes with
  | nil => rfl
  | cons raw rest inductionHypothesis =>
      have moved : movedDown first number = number + 1 := if_neg (Nat.not_lt.mpr notBefore)
      simp only [sourceLines, List.map_cons, SourceLine.moveDown, moved,
        inductionHypothesis (Nat.le_succ_of_le notBefore)]

theorem sourceLines_stay {number : Nat} {fileLines : List Text}
    (before : number + fileLines.length ≤ first) (lexState : LexState)
    (scopes : List ScopeEntry) :
    (sourceLines number lexState fileLines scopes).map (SourceLine.moveDown first) =
      sourceLines number lexState fileLines scopes := by
  induction fileLines generalizing number lexState scopes with
  | nil => rfl
  | cons raw rest inductionHypothesis =>
      rw [List.length_cons] at before
      have unmoved : movedDown first number = number := if_pos (by omega)
      simp only [sourceLines, List.map_cons, SourceLine.moveDown, unmoved,
        inductionHypothesis (by omega : number + 1 + rest.length ≤ first)]

/-- An inserted blank line stands between the lines before it and those moved down. -/
theorem sourceLines_insert {front : List Text} (back : List Text) {line : Text}
    (blank : Text.IsBlankText line) {before : List ScopeEntry} (behind : List ScopeEntry)
    (inserted : ScopeEntry) (sameLength : before.length = front.length) :
    ∃ early between late, Text.IsBlankText between.masked ∧
      sourceLines 1 .code (front ++ back) (before ++ behind) = early ++ late ∧
      sourceLines 1 .code (front ++ line :: back) (before ++ inserted :: behind) =
        early.map (SourceLine.moveDown (front.length + 1)) ++
          between :: late.map (SourceLine.moveDown (front.length + 1)) := by
  have startsCode : LexState.code.atLineEnd = .code := rfl
  obtain ⟨reached, spans, append⟩ := sourceLines_append 1 startsCode sameLength
  obtain ⟨between, isBlank, within⟩ := sourceLines_blank (1 + front.length) spans blank inserted
    back behind
  have early := sourceLines_stay (Nat.le_of_eq (Nat.add_comm 1 front.length)) .code before
  have late := sourceLines_moveDown (Nat.le_of_eq (Nat.add_comm front.length 1)) reached back behind
  refine ⟨sourceLines 1 .code front before, between,
    sourceLines (1 + front.length) reached back behind, isBlank, append back behind, ?_⟩
  rw [append, within, early, late]

end Lines

/-- The entry of a line is found at its new number when one has been inserted. -/
theorem getElem?_insert (before behind : List ScopeEntry) (inserted : ScopeEntry) {number : Nat}
    (positive : number ≠ 0) :
    (before ++ inserted :: behind)[movedDown (before.length + 1) number - 1]? =
      (before ++ behind)[number - 1]? := by
  unfold movedDown
  by_cases early : number < before.length + 1
  · rw [if_pos early, List.getElem?_append_left (by omega), List.getElem?_append_left (by omega)]
  · rw [if_neg early]
    obtain ⟨distance, rfl⟩ := Nat.exists_eq_add_of_le (Nat.le_of_not_lt early)
    have here : before.length + 1 + distance + 1 - 1 - before.length = distance + 1 := by omega
    have there : before.length + 1 + distance - 1 - before.length = distance := by omega
    rw [List.getElem?_append_right (by omega), List.getElem?_append_right (by omega), here, there,
      List.getElem?_cons_succ]

/-- The changed lines that moved down belong to what they belonged to before. -/
theorem isHot_movedDown (before behind : List ScopeEntry) (inserted : ScopeEntry)
    (changed : List Nat) :
    isHot (before ++ inserted :: behind) (changed.map (movedDown (before.length + 1))) =
      isHot (before ++ behind) changed := by
  funext scope
  rw [isHot, isHot, List.any_map]
  congr 1
  funext number
  rw [Function.comp_apply]
  by_cases zero : number = 0
  · simp [zero, movedDown]
  · have stillPositive : movedDown (before.length + 1) number ≠ 0 := by
      unfold movedDown
      split <;> omega
    rw [getElem?_insert before behind inserted zero]
    simp [zero, stillPositive]

section Sweep

variable {first : Nat}

/-- Marks that moved down with the changed lines are passed as before. -/
theorem alike_moveDown (positive : 0 < first) (changed : List Nat) (mark : Mark) :
    (moveDown first).Alike changed (changed.map (movedDown first)) mark
      (mark.moveDown first) := by
  have reach (line : Nat) : (moveDown first).ReachesAlike changed
      (changed.map (movedDown first)) line (movedDown first line) :=
    fun branch => touches_movedDown (fun _ => movedDown_le_iff) changed branch.startLine
  cases mark with
  | brace line met => exact .brace met (reach line)
  | lineEnd line => exact .lineEnd (reach line)
  | header line found =>
      refine .header (fun _ => rfl) rfl (contains_movedDown changed line.number) ?_
      intro branch
      exact touches_movedDown (fun _ => movedDown_le_pred_iff positive) changed branch.startLine

theorem reachesAlike_length (front back : List Text) (line : Text) (changed : List Nat) :
    (moveDown (front.length + 1)).ReachesAlike changed
      (changed.map (movedDown (front.length + 1)))
      (front ++ back).length (front ++ line :: back).length := by
  have length : (front ++ line :: back).length = (front ++ back).length + 1 := by
    rw [List.length_append, List.length_append, List.length_cons, Nat.add_assoc]
  have within : front.length + 1 ≤ (front ++ back).length + 1 := by
    rw [List.length_append]
    omega
  intro branch
  rw [length]
  exact touches_movedDown (fun _ => movedDown_le_succ_iff within) changed branch.startLine

theorem map_moveDown_marks (hot : ScopeEntry → Bool) (fileLines : List SourceLine) :
    ((fileLines.map (SourceLine.moveDown first)).flatMap fun line =>
        lineMarks (hot line.scope) line) =
      (fileLines.flatMap fun line => lineMarks (hot line.scope) line).map
        (Mark.moveDown first) := by
  rw [List.flatMap_map, List.map_flatMap]
  congr 1
  funext line
  exact lineMarks_moveDown (hot line.scope) line

end Sweep

theorem extract_insert (front back : List Text) {line : Text} (blank : Text.IsBlankText line)
    (changed : List Nat) :
    let first := front.length + 1
    extract (front ++ line :: back) (Source.scopeEntries (front ++ line :: back))
        (changed.map (movedDown first)) =
      (extract (front ++ back) (Source.scopeEntries (front ++ back)) changed).map
        (moveDown first) := by
  intro first
  obtain ⟨before, inserted, behind, sameLength, without, within⟩ :=
    Source.scopeEntries_insert front back blank
  obtain ⟨early, between, late, isBlank, linesWithout, linesWithin⟩ :=
    sourceLines_insert back blank behind inserted sameLength
  have hot : isHot (before ++ inserted :: behind) (changed.map (movedDown first)) =
      isHot (before ++ behind) changed := by
    have moved := isHot_movedDown before behind inserted changed
    rwa [sameLength] at moved
  have marksWithin :
      fileMarks (front ++ line :: back) (before ++ inserted :: behind)
          (changed.map (movedDown first)) =
        ((early.map (SourceLine.moveDown first)).flatMap fun line =>
            lineMarks (isHot (before ++ behind) changed line.scope) line) ++
          .lineEnd between.number :: (late.map (SourceLine.moveDown first)).flatMap fun line =>
            lineMarks (isHot (before ++ behind) changed line.scope) line := by
    rw [fileMarks, linesWithin, hot, List.flatMap_append, List.flatMap_cons,
      lineMarks_blank _ isBlank]
    rfl
  have marksWithout : fileMarks (front ++ back) (before ++ behind) changed =
      (early ++ late).flatMap fun line =>
        lineMarks (isHot (before ++ behind) changed line.scope) line := by
    rw [fileMarks, linesWithout]
  rw [extract_eq, extract_eq, within, without, marksWithin, marksWithout, sweep_lineEnd,
    ← List.flatMap_append, ← List.map_append, map_moveDown_marks]
  exact Transfer.sweep_map List.isEmpty_map
    (fun mark _ => alike_moveDown (Nat.succ_pos front.length) changed mark)
    (reachesAlike_length front back line changed)

/-- A blank line before the line `first`, or behind all lines, moves the branches
behind it down and changes no case. -/
theorem extract_and_ofBranches_insert (front back : List Text) {line : Text}
    (blank : Text.IsBlankText line) (changed : List Nat) :
    let first := front.length + 1
    let without := extract (front ++ back) (Source.scopeEntries (front ++ back)) changed
    let within := extract (front ++ line :: back) (Source.scopeEntries (front ++ line :: back))
      (changed.map (movedDown first))
    within = without.map (fun branch =>
        { branch with startLine := movedDown first branch.startLine }) ∧
      Case.ofBranches within = Case.ofBranches without := by
  intro first without within
  have moved : within = without.map (moveDown first) := extract_insert front back blank changed
  refine ⟨moved, ?_⟩
  have sameCases : (fun branch => Case.ofBranch (moveDown first branch)) = Case.ofBranch :=
    funext fun _ => rfl
  rw [moved, Case.ofBranches, Case.ofBranches, List.flatMap_map, sameCases]

section Sample

def headLines : List Text :=
  ["class A \x7b", "  void M()"].map String.toList

def bodyLines : List Text :=
  ["  \x7b", "    if (x)", "      a();", "  \x7d", "\x7d"].map String.toList

def bodyBranch : Branch where
  scope := { typeName := some ['A'], methodName := some ['M'] }
  kind := .ifHeader
  condition := "if (x)".toList
  startLine := 4
  depth := 2

end Sample

/-- A blank line between the head of a method and its opening brace. -/
theorem extract_and_ofBranches_insert_head :
    Text.IsBlankText [' ', '\t'] ∧
      let fileLines := headLines ++ [' ', '\t'] :: bodyLines
      let found := extract fileLines (Source.scopeEntries fileLines) [6]
      found = [{ bodyBranch with startLine := 5 }] ∧
        Case.ofBranches found = Case.ofBranches [bodyBranch] := by
  have blank : Text.IsBlankText [' ', '\t'] := by decide
  have found : extract (headLines ++ bodyLines) (Source.scopeEntries (headLines ++ bodyLines)) [5] =
      [bodyBranch] := by decide +kernel
  obtain ⟨moved, sameCases⟩ := extract_and_ofBranches_insert headLines bodyLines blank [5]
  rw [found] at moved sameCases
  exact ⟨blank, moved, sameCases⟩

end ChangeCoverage.Branch
