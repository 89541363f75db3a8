import ChangeCoverage.Proofs.Command.CaseReport
import Mathlib.Algebra.BigOperators.Group.Finset.Basic

/-!
The files of a report and their order.  Files that the configuration selects are
reported as git lists them.  Files that are named are reported as they are named,
which is the order of git's listing only if the names are in that order already,
and once only if they are named once.
-/

namespace ChangeCoverage.CaseReport

variable {world : World} {session : Session} {revisions : Revisions}
  {listed chosen : List ChangedFile} {paths : List Text}

/-- Whether a path is that of a listed file with a content at the new revision. -/
def isReported (world : World) (session : Session) (revisions : Revisions)
    (listed : List ChangedFile) (path : Text) : Bool :=
  listed.any fun file => file.path = path && remains world session revisions file

/-- The names of listed files stand in the order of the listing, each of them once. -/
def InListedOrder (listed : List ChangedFile) (paths : List Text) : Prop :=
  ((paths.map Text.forwardSlashes).filter fun path => listed.any (·.path = path)).Sublist
    (listed.map (·.path))

instance (listed : List ChangedFile) (paths : List Text) : Decidable (InListedOrder listed paths) :=
  inferInstanceAs (Decidable (List.Sublist _ _))

theorem isReported_iff {path : Text} :
    isReported world session revisions listed path = true ↔
      ∃ file ∈ listed, file.path = path ∧ remains world session revisions file = true := by
  simp [isReported]

/-- Where each path is listed once, looking a path up finds the file that has it. -/
theorem find?_path_eq_some_iff (once : (listed.map (·.path)).Nodup) {path : Text}
    {file : ChangedFile} :
    listed.find? (fun other => other.path = path) = some file ↔
      file ∈ listed ∧ file.path = path := by
  constructor
  · intro found
    exact ⟨List.mem_of_find?_eq_some found, by simpa using List.find?_some found⟩
  · rintro ⟨membership, rfl⟩
    have present : (listed.find? fun other => other.path = file.path).isSome :=
      List.find?_isSome.mpr ⟨file, membership, by simp⟩
    obtain ⟨found, lookup⟩ := Option.isSome_iff_exists.mp present
    have samePath : found.path = file.path := by simpa using List.find?_some lookup
    rw [lookup, List.inj_on_of_nodup_map once (List.mem_of_find?_eq_some lookup) membership
      samePath]

/-- What a name comes to: its path, if the file behind it is reported. -/
theorem path_of_lookup (once : (listed.map (·.path)).Nodup) (path : Text) :
    ((listed.find? fun file => file.path = path).filter
        (remains world session revisions)).map (·.path) =
      Option.guard (isReported world session revisions listed ·) path := by
  cases lookup : listed.find? fun file => file.path = path with
  | none =>
      have absent : isReported world session revisions listed path = false := by
        rw [Bool.eq_false_iff, ne_eq, isReported_iff]
        rintro ⟨file, membership, samePath, -⟩
        exact absurd samePath (by simpa using List.find?_eq_none.mp lookup file membership)
      simp [Option.guard, absent]
  | some file =>
      obtain ⟨membership, rfl⟩ := (find?_path_eq_some_iff once).mp lookup
      have same : isReported world session revisions listed file.path =
          remains world session revisions file := by
        rw [Bool.eq_iff_iff, isReported_iff]
        constructor
        · rintro ⟨other, otherMembership, samePath, stays⟩
          rwa [List.inj_on_of_nodup_map once membership otherMembership samePath.symm]
        · exact fun stays => ⟨file, membership, rfl, stays⟩
      cases stays : remains world session revisions file <;>
        simp [Option.guard, Option.filter, same, stays]

theorem paths_chosen_named (once : (listed.map (·.path)).Nodup) (named : paths ≠ [])
    (choosing : choose session.config listed paths = .ok chosen) :
    (chosen.filter (remains world session revisions)).map (·.path) =
      (paths.map Text.forwardSlashes).filter (isReported world session revisions listed) := by
  have isNamed : paths.isEmpty = false := by simpa using named
  rw [choose, isNamed] at choosing
  obtain rfl := Except.ok.inj choosing
  rw [List.filter_filterMap, List.map_filterMap, ← List.filterMap_eq_filter,
    List.filterMap_map]
  exact congrArg (List.filterMap · paths) (funext fun path => path_of_lookup once _)

theorem chosen_sublist_of_unnamed
    (choosing : choose session.config listed [] = .ok chosen) : chosen.Sublist listed := by
  rw [choose] at choosing
  cases filtering : session.config.fileFilter with
  | error failure => simp [filtering, Except.map] at choosing
  | ok filter =>
      simp only [filtering, Except.map] at choosing
      obtain rfl := Except.ok.inj choosing
      exact List.filter_sublist

theorem paths_allFileCases {found : List FileCases}
    (answered : (allFileCases world session revisions chosen).outcome = .ok found) :
    found.map (·.path) = (chosen.filter (remains world session revisions)).map (·.path) := by
  have samePaths : List.Forall₂ (fun file reported => file.path = reported.path)
      (chosen.filter (remains world session revisions)) found := by
    refine (forall₂_allFileCases answered).imp ?_
    rintro file reported ⟨text, numbers, reports⟩
    exact reports.path_eq.symm
  rw [eq_comm, ← List.forall₂_eq_eq_eq, List.forall₂_map_left_iff, List.forall₂_map_right_iff]
  exact samePaths

theorem caseCount_of_nodup {report : CaseReport} (distinct : report.files.Nodup) :
    report.caseCount = ∑ file ∈ report.files.toFinset, file.cases.length := by
  rw [caseCount, List.length_flatMap, List.sum_toFinset _ distinct]

/-- Named files are reported as they are named.  Files are reported in the order of
the listing, and counted once, if they are not named or are named in that order. -/
theorem paths_collect {report : CaseReport}
    (listing : (session.changedFiles world session.config.detectRenames revisions).outcome =
      .ok listed)
    (once : (listed.map (·.path)).Nodup)
    (collected : (collect world session revisions paths).outcome = .ok report) :
    (paths ≠ [] → report.files.map (·.path) =
        (paths.map Text.forwardSlashes).filter (isReported world session revisions listed)) ∧
      (InListedOrder listed paths →
        (report.files.map (·.path)).Sublist (listed.map (·.path)) ∧
        (report.files.map (·.path)).Nodup ∧
        report.caseCount = ∑ file ∈ report.files.toFinset, file.cases.length) := by
  obtain ⟨changed, listing', later⟩ := Run.outcome_bind_eq_ok_iff.mp collected
  obtain rfl : listed = changed := Except.ok.inj (listing.symm.trans listing')
  obtain ⟨chosen, choosing, reporting⟩ := Run.outcome_bind_eq_ok_iff.mp later
  obtain ⟨found, answered, returned⟩ := Run.outcome_bind_eq_ok_iff.mp reporting
  obtain rfl := Run.outcome_pure_eq_ok_iff.mp returned
  have named (isNamed : paths ≠ []) : found.map (·.path) =
      (paths.map Text.forwardSlashes).filter (isReported world session revisions listed) := by
    rw [paths_allFileCases answered, paths_chosen_named once isNamed choosing]
  refine ⟨named, fun ordered => ?_⟩
  have inOrder : (found.map (·.path)).Sublist (listed.map (·.path)) := by
    by_cases isNamed : paths = []
    · subst isNamed
      rw [paths_allFileCases answered]
      exact (List.filter_sublist.trans (chosen_sublist_of_unnamed choosing)).map _
    · rw [named isNamed]
      refine List.Sublist.trans ?_ ordered
      refine List.monotone_filter_right _ fun path reported => ?_
      obtain ⟨file, membership, samePath, -⟩ := isReported_iff.mp reported
      simpa using ⟨file, membership, samePath⟩
  have distinct : (found.map (·.path)).Nodup := inOrder.nodup once
  exact ⟨inOrder, distinct, caseCount_of_nodup distinct.of_map⟩

section Sample

/-- A world in which two files have been added, both with the same content. -/
def addedWorld : World where
  workingDirectory := ['/']
  time := []
  entry _ := .ok .directory
  git _ arguments :=
    let printed : Text :=
      if arguments[1]? = some "--name-status".toList then "A\ta.cs\nA\tb.cs\n".toList
      else if arguments.head? = some "show".toList then statement
      else []
    .ok { stdout := Text.encode printed }

def addedFiles : List ChangedFile :=
  ["a.cs", "b.cs"].map fun path => { path := path.toList, status := .added }

def addedReport (paths : List Text) : CaseReport where
  time := []
  revisions := sampleRevisions
  files := paths.map fun path => { path, cases := statementCases }

/-- Two names in the order of the listing, with one between them that is not listed. -/
def orderedNames : List Text := ["a.cs", "a.h", "b.cs"].map String.toList

/-- Two names against the order of the listing, the second file named again. -/
def unorderedNames : List Text := ["b.cs", "a.cs", "b.cs"].map String.toList

end Sample

theorem paths_collect_ordered :
    let report := addedReport ["a.cs".toList, "b.cs".toList]
    (sampleSession.changedFiles addedWorld true sampleRevisions).outcome = .ok addedFiles ∧
      (addedFiles.map (·.path)).Nodup ∧
      (collect addedWorld sampleSession sampleRevisions orderedNames).outcome = .ok report ∧
      InListedOrder addedFiles orderedNames ∧
      report.files.map (·.path) = (orderedNames.map Text.forwardSlashes).filter
        (isReported addedWorld sampleSession sampleRevisions addedFiles) ∧
      (report.files.map (·.path)).Sublist (addedFiles.map (·.path)) ∧
      (report.files.map (·.path)).Nodup ∧
      report.caseCount = ∑ file ∈ report.files.toFinset, file.cases.length := by
  intro report
  have listing : (sampleSession.changedFiles addedWorld sampleSession.config.detectRenames
      sampleRevisions).outcome = .ok addedFiles := by decide +kernel
  have once : (addedFiles.map (·.path)).Nodup := by decide
  have collected : (collect addedWorld sampleSession sampleRevisions orderedNames).outcome =
      .ok report := by decide +kernel
  have ordered : InListedOrder addedFiles orderedNames := by decide
  obtain ⟨named, inOrder⟩ := paths_collect listing once collected
  exact ⟨listing, once, collected, ordered, named (by decide), inOrder ordered⟩

/-- Names out of order are reported out of order, and a file that is named twice is
reported and counted twice. -/
theorem collect_follows_names :
    let report := addedReport unorderedNames
    (sampleSession.changedFiles addedWorld true sampleRevisions).outcome = .ok addedFiles ∧
      (addedFiles.map (·.path)).Nodup ∧
      (collect addedWorld sampleSession sampleRevisions unorderedNames).outcome = .ok report ∧
      ¬ (report.files.map (·.path)).Sublist (addedFiles.map (·.path)) ∧
      ¬ (report.files.map (·.path)).Nodup ∧
      report.caseCount = 6 ∧ ∑ file ∈ report.files.toFinset, file.cases.length = 4 := by
  decide +kernel

end ChangeCoverage.CaseReport
