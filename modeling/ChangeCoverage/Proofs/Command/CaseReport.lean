import ChangeCoverage.Command.CaseReport
import ChangeCoverage.Proofs.Branch.LastLine
import ChangeCoverage.Proofs.Git.Reply
import ChangeCoverage.Proofs.Text.Lines
import Mathlib.Data.List.Forall2

/-!
Reported cases.  The content of a file is split into lines and joined again before
its cases are looked for, which drops an empty line at its end.  The cases are those
of the content as git prints it, unless that line has changed in a file that is not
new.
-/

namespace ChangeCoverage

open Branch (EndSpared)

theorem Case.ofSource_joinLines {text : Text} (noReturn : '\r' ∉ text) (changed : List Nat) :
    let kept := Text.withoutEmptyEnd (Text.cleanLines text)
    ofSource (Text.joinLines (Text.cleanLines text)) changed =
      ofBranches (Branch.extract kept (Source.scopeEntries kept) changed) := by
  intro kept
  rw [ofSource, Text.cleanLines_joinLines (Text.isLine_of_mem_cleanLines noReturn)]

/-- Splitting and joining loses no case, unless an empty last line has changed. -/
theorem Case.ofSource_joinLines_of_spared {text : Text} (noReturn : '\r' ∉ text)
    {changed : List Nat}
    (spared : (Text.cleanLines text).getLast? = some [] →
      EndSpared changed ((Text.cleanLines text).length - 1)) :
    ofSource (Text.joinLines (Text.cleanLines text)) changed = ofSource text changed := by
  rw [ofSource_joinLines noReturn, ofSource, Text.withoutEmptyEnd]
  split
  next ended =>
    have whole : (Text.cleanLines text).dropLast ++ [[]] = Text.cleanLines text :=
      List.dropLast_append_getLast? [] ended
    have sparedFront : EndSpared changed (Text.cleanLines text).dropLast.length := by
      rw [List.length_dropLast]
      exact spared ended
    have blank : Text.IsBlankText [] := fun _ membership => absurd membership List.not_mem_nil
    have same := Branch.extract_concat blank sparedFront
    rw [whole] at same
    rw [same]
  next => rfl

namespace CaseReport

variable {world : World} {session : Session} {revisions : Revisions} {file : ChangedFile}

def objectOf (revisions : Revisions) (file : ChangedFile) : Text :=
  revisions.new ++ ':' :: file.path

/-- Whether a selected file has a content at the new revision. -/
def remains (world : World) (session : Session) (revisions : Revisions) (file : ChangedFile) :
    Bool :=
  file.status ≠ .deleted && Git.finds world session.root (objectOf revisions file)

/-- The changed lines of a file with some lines: all of them if it is new, else
those that its printed diff adds. -/
inductive ChangedLines (world : World) (session : Session) (revisions : Revisions)
    (file : ChangedFile) (lineCount : Nat) : List Nat → Prop where
  | added : file.status = .added →
      ChangedLines world session revisions file lineCount (Text.lineNumbers lineCount)
  | differing {patch : Text} {diff : List Patch.Line} : file.status ≠ .added →
      Git.Prints world session.root
        (Git.diffArguments session.config.contextLines revisions.old revisions.new
          (file.status.previousPath?.toList ++ [file.path])) patch →
      Patch.diffFor? patch file.path = some diff →
      ChangedLines world session revisions file lineCount (Patch.changedLines diff)

theorem changedLines_of_outcome {lineCount : Nat} {numbers : List Nat}
    (answered : (changedLines world session revisions file lineCount).outcome = .ok numbers) :
    ChangedLines world session revisions file lineCount numbers := by
  rw [changedLines] at answered
  split at answered
  next isNew =>
    obtain rfl := Run.outcome_pure_eq_ok_iff.mp answered
    exact .added isNew
  next isOld =>
    obtain ⟨diff, printed, rfl⟩ := Run.outcome_map_eq_ok_iff.mp answered
    obtain ⟨patch, shown, read⟩ := Run.outcome_bind_eq_ok_iff.mp printed
    exact .differing isOld (Git.outcome_rawOutput_eq_ok_iff.mp shown)
      (Run.outcome_orPanic_eq_ok_iff.mp read)

/-- What is reported for a file whose content git prints. -/
structure Reports (world : World) (session : Session) (revisions : Revisions)
    (file : ChangedFile) (text : Text) (numbers : List Nat) (reported : FileCases) : Prop where
  path_eq : reported.path = file.path
  shown : Git.Prints world session.root ["show".toList, objectOf revisions file] text
  changed : ChangedLines world session revisions file (Text.cleanLines text).length numbers
  /-- The cases of the content without an empty last line. -/
  cases_eq : '\r' ∉ text →
    let kept := Text.withoutEmptyEnd (Text.cleanLines text)
    reported.cases = Case.ofBranches (Branch.extract kept (Source.scopeEntries kept) numbers)
  /-- The cases of the content, if its last line is not empty or makes no difference. -/
  cases_source : '\r' ∉ text →
    ((Text.cleanLines text).getLast? = some [] →
      file.status = .added ∨ (Text.cleanLines text).length ∉ numbers) →
    reported.cases = Case.ofSource text numbers

theorem reports_of_shown {text : Text} {numbers : List Nat}
    (shown : Git.Prints world session.root ["show".toList, objectOf revisions file] text)
    (changed : ChangedLines world session revisions file (Text.cleanLines text).length numbers) :
    Reports world session revisions file text numbers
      { path := file.path
        cases := Case.ofSource (Text.joinLines (Text.cleanLines text)) numbers } where
  path_eq := rfl
  shown := shown
  changed := changed
  cases_eq noReturn := Case.ofSource_joinLines noReturn numbers
  cases_source noReturn spared := by
    refine Case.ofSource_joinLines_of_spared noReturn fun ended => ?_
    have nonempty : 0 < (Text.cleanLines text).length :=
      List.length_pos_of_mem (List.mem_of_getLast? ended)
    rcases spared ended with isNew | unchanged
    · -- All lines of a new file have changed.
      cases changed with
      | added _ =>
          right
          intro number positive within
          rw [Text.lineNumbers, List.mem_range'_1]
          omega
      | differing isOld _ _ => exact absurd isNew isOld
    · left
      rwa [Nat.sub_add_cancel nonempty]

/-- A selected file without a content at the new revision is left out. -/
theorem fileCases?_cases {found : Option FileCases}
    (answered : (fileCases? world session revisions file).outcome = .ok found) :
    (remains world session revisions file = false ∧ found = none) ∨
      (remains world session revisions file = true ∧ ∃ text numbers reported,
        found = some reported ∧ Reports world session revisions file text numbers reported) := by
  rw [fileCases?] at answered
  split at answered
  next isGone =>
    exact .inl ⟨by simp [remains, isGone], (Run.outcome_pure_eq_ok_iff.mp answered).symm⟩
  next stays =>
    obtain ⟨lines, read, looked⟩ := Run.outcome_bind_eq_ok_iff.mp answered
    obtain ⟨content, asked, split⟩ := Run.outcome_bind_eq_ok_iff.mp read
    obtain rfl := Run.outcome_pure_eq_ok_iff.mp split
    rcases Git.content?_cases asked with ⟨absent, rfl⟩ | ⟨present, text, rfl, shown⟩
    · refine .inl ⟨?_, (Run.outcome_pure_eq_ok_iff.mp looked).symm⟩
      rw [remains, objectOf, absent, Bool.and_false]
    · obtain ⟨numbers, counted, returned⟩ := Run.outcome_bind_eq_ok_iff.mp looked
      refine .inr ⟨?_, text, numbers, _, (Run.outcome_pure_eq_ok_iff.mp returned).symm,
        reports_of_shown shown (changedLines_of_outcome counted)⟩
      rw [remains, objectOf, present]
      simpa using stays

theorem forall₂_allFileCases {chosen : List ChangedFile} {found : List FileCases}
    (answered : (allFileCases world session revisions chosen).outcome = .ok found) :
    List.Forall₂
      (fun file reported => ∃ text numbers,
        Reports world session revisions file text numbers reported)
      (chosen.filter (remains world session revisions)) found := by
  induction chosen generalizing found with
  | nil =>
      obtain rfl := Run.outcome_pure_eq_ok_iff.mp answered
      exact .nil
  | cons file rest inductionHypothesis =>
      obtain ⟨first, firstAnswered, later⟩ := Run.outcome_bind_eq_ok_iff.mp answered
      obtain ⟨others, othersAnswered, returned⟩ := Run.outcome_bind_eq_ok_iff.mp later
      obtain rfl := Run.outcome_pure_eq_ok_iff.mp returned
      rcases fileCases?_cases firstAnswered with
        ⟨absent, rfl⟩ | ⟨present, text, numbers, reported, rfl, reports⟩
      · rw [List.filter_cons_of_neg (by simp [absent])]
        exact inductionHypothesis othersAnswered
      · rw [List.filter_cons_of_pos present]
        exact .cons ⟨text, numbers, reports⟩ (inductionHypothesis othersAnswered)

/-- The report holds the selected files that remain, in their order, each with
the cases of the content that git prints. -/
theorem forall₂_collect {paths : List Text} {report : CaseReport}
    (collected : (collect world session revisions paths).outcome = .ok report) :
    ∃ listed chosen,
      (session.changedFiles world session.config.detectRenames revisions).outcome = .ok listed ∧
      choose session.config listed paths = .ok chosen ∧
      List.Forall₂
        (fun file reported => ∃ text numbers,
          Reports world session revisions file text numbers reported)
        (chosen.filter (remains world session revisions)) report.files := by
  obtain ⟨listed, listing, later⟩ := Run.outcome_bind_eq_ok_iff.mp collected
  obtain ⟨chosen, choosing, reporting⟩ := Run.outcome_bind_eq_ok_iff.mp later
  obtain ⟨found, answered, returned⟩ := Run.outcome_bind_eq_ok_iff.mp reporting
  obtain rfl := Run.outcome_pure_eq_ok_iff.mp returned
  exact ⟨listed, chosen, listing, choosing, forall₂_allFileCases answered⟩

section Sample

/-- A world in which one file has been modified, with its content and its diff. -/
def modifiedWorld (content patch : Text) : World where
  workingDirectory := ['/']
  time := []
  entry _ := .ok .directory
  git _ arguments :=
    let printed : Text :=
      if "--name-status".toList ∈ arguments then "M\ta.cs\n".toList
      else if arguments.head? = some "show".toList then content
      else if arguments.head? = some "diff".toList then patch
      else []
    .ok { stdout := Text.encode printed }

/-- A file that ends in a statement, of which a line has changed. -/
def statement : Text := "if (x)\n  a();\n".toList

def statementPatch : Text := "@@ -1,2 +1,2 @@\n if (x)\n-  b();\n+  a();\n".toList

/-- The same file with an empty line added at its end. -/
def spacedStatement : Text := "if (x)\n  a();\n\n".toList

def spacedPatch : Text := "@@ -1,2 +1,3 @@\n if (x)\n   a();\n+\n".toList

def sampleSession : Session := { root := ['/'], config := {} }

def sampleRevisions : Revisions := { old := ['1'], new := ['2'] }

def sampleFile : ChangedFile := { path := "a.cs".toList, status := .modified }

def sampleReport (cases : List Case) : CaseReport :=
  { time := [], revisions := sampleRevisions, files := [{ path := sampleFile.path, cases }] }

def statementCases : List Case :=
  ["if (x) → true", "if (x) → false"].map fun condition =>
    { scope := {}, condition := condition.toList }

end Sample

theorem forall₂_collect_statement :
    let world := modifiedWorld statement statementPatch
    (collect world sampleSession sampleRevisions [sampleFile.path]).outcome =
        .ok (sampleReport statementCases) ∧
      ∃ listed chosen,
        (sampleSession.changedFiles world true sampleRevisions).outcome = .ok listed ∧
        choose sampleSession.config listed [sampleFile.path] = .ok chosen ∧
        List.Forall₂
          (fun file reported => ∃ text numbers,
            Reports world sampleSession sampleRevisions file text numbers reported)
          (chosen.filter (remains world sampleSession sampleRevisions))
          (sampleReport statementCases).files := by
  intro world
  have collected : (collect world sampleSession sampleRevisions [sampleFile.path]).outcome =
      .ok (sampleReport statementCases) := by decide +kernel
  exact ⟨collected, forall₂_collect collected⟩

/-- A branch that ends with the file has no case on an empty line added there. -/
theorem collect_drops_last_line :
    let world := modifiedWorld spacedStatement spacedPatch
    '\r' ∉ spacedStatement ∧
      Git.Prints world sampleSession.root ["show".toList, objectOf sampleRevisions sampleFile]
        spacedStatement ∧
      ChangedLines world sampleSession sampleRevisions sampleFile
        (Text.cleanLines spacedStatement).length [3] ∧
      Case.ofSource spacedStatement [3] = statementCases ∧
      (collect world sampleSession sampleRevisions [sampleFile.path]).outcome =
        .ok (sampleReport []) := by
  intro world
  refine ⟨by decide, ⟨_, rfl, by decide, by decide +kernel⟩, ?_, by decide +kernel,
    by decide +kernel⟩
  have printed : Git.Prints world sampleSession.root
      (Git.diffArguments 3 ['1'] ['2'] [sampleFile.path]) spacedPatch :=
    ⟨_, rfl, by decide, by decide +kernel⟩
  have read : Patch.diffFor? spacedPatch sampleFile.path = some
      [.hunk "@@ -1,2 +1,3 @@".toList, .context 1 1 "if (x)".toList,
        .context 2 2 "  a();".toList, .added 3 []] := by
    decide +kernel
  exact .differing (by decide) printed read

end CaseReport

end ChangeCoverage
