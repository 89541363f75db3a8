import ChangeCoverage.Proofs.Branch.Marks

/-!
Extraction against the extents.  The sweep over the lines of a file is the
sweep over its marks, so the extracted branches are those of the extents that
hold a changed line.
-/

namespace ChangeCoverage.Branch

open Source (Brace ScopeEntry LexState)

theorem contains_hotScopes (scopes : List ScopeEntry) (changed : List Nat) (scope : ScopeEntry) :
    (hotScopes scopes changed).contains scope = isHot scopes changed scope := by
  rw [Bool.eq_iff_iff, List.contains_iff_mem, hotScopes, List.mem_eraseDups,
    List.mem_filterMap, isHot, List.any_eq_true]
  constructor
  · rintro ⟨number, membership, entry⟩
    by_cases zero : number = 0
    · simp [zero] at entry
    · exact ⟨number, membership, by simpa [zero] using entry⟩
  · rintro ⟨number, membership, hot⟩
    rw [Bool.and_eq_true, decide_eq_true_eq, decide_eq_true_eq] at hot
    exact ⟨number, membership, by rw [if_neg hot.1, hot.2]⟩

/-- The entry of a changed line is hot. -/
theorem isHot_of_changed {scopes : List ScopeEntry} {changed : List Nat} {number : Nat}
    {entry : ScopeEntry} (isChanged : number ∈ changed) (positive : 0 < number)
    (found : scopes[number - 1]? = some entry) : isHot scopes changed entry = true := by
  apply List.any_eq_true.mpr
  refine ⟨number, isChanged, ?_⟩
  simp [found, Nat.ne_of_gt positive]

namespace Progress

variable {changed : List Nat} {progress : Progress}

def Settled (progress : Progress) : Prop :=
  ∀ candidate ∈ progress.stack, candidate.inline = false

theorem settled_closeInline (line : Nat) : (closeInline changed line progress).Settled := by
  rw [closeInline_eq]
  intro candidate membership
  simpa using (List.mem_filter.mp membership).2

theorem Settled.closeInline (settled : progress.Settled) (line : Nat) :
    Progress.closeInline changed line progress = progress := by
  have none : progress.stack.reverse.filter (·.inline) = [] :=
    List.filter_eq_nil_iff.mpr fun candidate membership => by
      simp [settled candidate (List.mem_reverse.mp membership)]
  have all : progress.stack.filter (!·.inline) = progress.stack :=
    List.filter_eq_self.mpr fun candidate membership => by simp [settled candidate membership]
  rw [closeInline_eq, none, all]
  simp [accepting]

theorem Settled.passBrace (settled : progress.Settled) (line : Nat) (brace : Brace) :
    (progress.passBrace changed line brace).Settled := by
  cases brace with
  | opening => exact settled
  | closing =>
      simp only [Progress.passBrace, closeWhile, foldl_close]
      intro candidate membership
      exact settled candidate ((List.dropWhile_sublist _).subset membership)

theorem Settled.passBraces (settled : progress.Settled) (line : Nat) (braces : List Brace) :
    (braces.foldl (Progress.passBrace changed line) progress).Settled := by
  induction braces generalizing progress with
  | nil => exact settled
  | cons brace later inductionHypothesis =>
      exact inductionHypothesis (settled.passBrace line brace)

/-- The events of a line are passed as its marks. -/
theorem foldl_pass_eq (line : SourceLine) (events : List Event) :
    events.foldl (pass changed line.scope line.masked line.number) progress =
      (events.map (·.mark line)).foldl (passMark changed) progress := by
  rw [List.foldl_map]
  congr 1
  funext before event
  cases event <;> rfl

theorem foldl_passMark_marksFrom (line : SourceLine) {found : List Header}
    (placed : Placed 0 line.masked found) :
    (marksFrom line found 0 line.masked).foldl (passMark changed) progress =
      (eventsFrom 0 line.masked found).foldl
        (pass changed line.scope line.masked line.number) progress := by
  rw [← map_mark_eventsFrom line placed, foldl_pass_eq]

theorem foldl_pass_braces (scope : ScopeEntry) (masked : Text) (line : Nat)
    (braces : List Brace) :
    (braces.map .brace).foldl (pass changed scope masked line) progress =
      braces.foldl (passBrace changed line) progress := by
  rw [List.foldl_map]
  rfl

theorem passLine_eq (changed : List Nat) (settled : progress.Settled) (hot : Bool)
    (line : SourceLine) :
    passLine changed hot line.scope line.masked line.raw line.number progress =
        (lineMarks hot line).foldl (passMark changed) progress ∧
      (passLine changed hot line.scope line.masked line.raw line.number progress).Settled := by
  cases hot with
  | true =>
      refine ⟨?_, settled_closeInline line.number⟩
      simp only [passLine, lineMarks, if_true, List.foldl_append]
      rw [foldl_passMark_marksFrom line (placed_headers line.masked line.raw)]
      rfl
  | false =>
      have after : ((Source.braces line.masked).foldl
          (Progress.passBrace changed line.number) progress).Settled :=
        settled.passBraces line.number (Source.braces line.masked)
      refine ⟨?_, after⟩
      simp only [passLine, lineMarks, Bool.false_eq_true, if_false, List.foldl_append]
      rw [foldl_passMark_marksFrom line (.none 0 line.masked), eventsFrom, foldl_pass_braces]
      exact (after.closeInline line.number).symm

theorem passLines_eq (changed : List Nat) (scopes : List ScopeEntry) (settled : progress.Settled)
    (line : Nat) (lexState : LexState) (fileLines : List Text) (entries : List ScopeEntry) :
    passLines changed (hotScopes scopes changed) line lexState progress fileLines entries =
      ((sourceLines line lexState fileLines entries).flatMap fun line =>
        lineMarks (isHot scopes changed line.scope) line).foldl (passMark changed) progress := by
  induction fileLines generalizing progress line lexState entries with
  | nil => rfl
  | cons raw rest inductionHypothesis =>
      let sourceLine : SourceLine :=
        { number := line, raw, masked := (Source.maskLine raw lexState).1,
          scope := entries.head?.getD {} }
      obtain ⟨passed, after⟩ :=
        passLine_eq changed settled (isHot scopes changed sourceLine.scope) sourceLine
      simp only [passLines, sourceLines, List.flatMap_cons, List.foldl_append,
        contains_hotScopes]
      rw [inductionHypothesis after, passed]

theorem settled_lineMarks (hot : Bool) (line : SourceLine) :
    ((lineMarks hot line).foldl (passMark changed) progress).Settled := by
  rw [lineMarks, List.foldl_append]
  exact settled_closeInline line.number

theorem Settled.passFileLines (settled : progress.Settled) (changed : List Nat)
    (hot : SourceLine → Bool) (fileLines : List SourceLine) :
    ((fileLines.flatMap fun line => lineMarks (hot line) line).foldl (passMark changed)
      progress).Settled := by
  induction fileLines generalizing progress with
  | nil => exact settled
  | cons line rest inductionHypothesis =>
      rw [List.flatMap_cons, List.foldl_append]
      exact inductionHypothesis (settled_lineMarks (hot line) line)

theorem settled_start : Settled {} := fun _ membership => absurd membership List.not_mem_nil

end Progress

/-- The branches that are accepted when some marks have been passed. -/
def sweep (changed : List Nat) (fileEnd : Nat) (marks : List Mark) : List Branch :=
  if changed.isEmpty then []
  else (marks.foldl (Progress.passMark changed) {}).finish changed fileEnd

/-- The lines of a file are passed as the marks of the file. -/
theorem extract_eq (fileLines : List Text) (scopes : List ScopeEntry) (changed : List Nat) :
    extract fileLines scopes changed =
      sweep changed fileLines.length (fileMarks fileLines scopes changed) := by
  rw [extract, Progress.passLines_eq changed scopes Progress.settled_start, sweep, fileMarks]

/-- Behind whole lines no statement is open that the end of an empty line could end. -/
theorem sweep_lineEnd (changed : List Nat) (fileEnd number : Nat) (hot : SourceLine → Bool)
    (early : List SourceLine) (later : List Mark) :
    sweep changed fileEnd
        ((early.flatMap fun line => lineMarks (hot line) line) ++ .lineEnd number :: later) =
      sweep changed fileEnd ((early.flatMap fun line => lineMarks (hot line) line) ++ later) := by
  have settled := Progress.settled_start.passFileLines changed hot early
  rw [sweep, sweep, List.foldl_append, List.foldl_append, List.foldl_cons, Progress.passMark,
    settled.closeInline]

theorem extract_perm_ahead (fileLines : List Text) (scopes : List ScopeEntry)
    (changed : List Nat) :
    (extract fileLines scopes changed).Perm
      (ahead changed fileLines.length 0 (fileMarks fileLines scopes changed)) := by
  rw [extract_eq, sweep]
  cases changed with
  | nil =>
      have none : ahead [] fileLines.length 0 (fileMarks fileLines scopes []) = [] := by
        have untouched : ∀ extent : Extent, extent.touchedBy [] = false := fun _ => rfl
        simp [ahead, untouched]
      rw [none]
      exact .refl []
  | cons first others =>
      have start : Ordered ({} : Progress).depth ({} : Progress).stack :=
        ⟨.nil, fun _ membership => absurd membership List.not_mem_nil⟩
      rw [List.isEmpty_cons, if_neg Bool.false_ne_true]
      exact Progress.perm_finish_foldl_passMark (first :: others) fileLines.length
        (fileMarks fileLines scopes (first :: others)) start

theorem mem_extract_iff {fileLines : List Text} {scopes : List ScopeEntry} {changed : List Nat}
    {branch : Branch} :
    branch ∈ extract fileLines scopes changed ↔
      ∃ extent ∈ extents fileLines scopes changed,
        extent.branch = branch ∧ extent.touchedBy changed = true := by
  rw [(extract_perm_ahead fileLines scopes changed).mem_iff, ahead, List.mem_map]
  simp only [List.mem_filter, extents]
  constructor
  · rintro ⟨extent, ⟨found, touched⟩, same⟩
    exact ⟨extent, found, same, touched⟩
  · rintro ⟨extent, found, same, touched⟩
    exact ⟨extent, ⟨found, touched⟩, same⟩

/-- A branch is extracted from a file, as often as it occurs, if a line from its
header through its last line has changed. -/
theorem extract_scopeEntries_perm (fileLines : List Text) (changed : List Nat) :
    let scopes := Source.scopeEntries fileLines
    (extract fileLines scopes changed).Perm
      (((extents fileLines scopes changed).filter (·.touchedBy changed)).map (·.branch)) :=
  extract_perm_ahead fileLines (Source.scopeEntries fileLines) changed

end ChangeCoverage.Branch
