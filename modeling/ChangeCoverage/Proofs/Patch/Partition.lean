import Mathlib.Data.List.TakeWhile
import ChangeCoverage.Proofs.Patch.Section

/-!
Sections as a partition.  Cutting any patch at its section markers keeps all lines
from the first marker on, in their order, and each marker begins one section.  What
stands under the first header of a section has no part in the paths it gets.
-/

namespace ChangeCoverage.Text

/-- The lines of a text in which every line is ended by a newline. -/
def endedLines (text : Text) : List Text :=
  (text.splitOn '\n').dropLast

theorem intercalate_concat_nil (fileLines : List Text) :
    List.intercalate ['\n'] (fileLines ++ [[]]) = terminate fileLines := by
  induction fileLines with
  | nil => rfl
  | cons line rest inductionHypothesis =>
      rw [terminate_cons, ← inductionHypothesis]
      cases rest <;> simp [List.intercalate]

theorem endedLines_terminate {fileLines : List Text}
    (unbroken : ∀ line ∈ fileLines, '\n' ∉ line) :
    endedLines (terminate fileLines) = fileLines := by
  have areUnbroken : ∀ line ∈ fileLines ++ [[]], '\n' ∉ line := by
    simpa [or_imp, forall_and] using unbroken
  rw [endedLines, ← intercalate_concat_nil, List.splitOn_intercalate _ areUnbroken (by simp),
    List.dropLast_concat]

end ChangeCoverage.Text

namespace ChangeCoverage.Patch

namespace FilePatch

def lines (file : FilePatch) : List Text :=
  Text.endedLines file.text

/-- The lines above what first looks like the header of a hunk. -/
def aboveHunks (file : FilePatch) : List Text :=
  file.lines.takeWhile fun line => !Header.marker.isPrefixOf line

def paths (file : FilePatch) : Paths :=
  { old := file.oldPath, new := file.newPath }

end FilePatch

section Split

variable {line : Text} {patchLines : List Text}

theorem splitSections_marked (marked : sectionMarker <+: line) (rest : List Text) :
    splitSections (line :: rest) =
      ([], (line :: (splitSections rest).1) :: (splitSections rest).2) := by
  have isMarked : sectionMarker.isPrefixOf line = true := List.isPrefixOf_iff_prefix.mpr marked
  simp only [splitSections, isMarked, if_true]

theorem splitSections_unmarked (unmarked : ¬sectionMarker <+: line) (rest : List Text) :
    splitSections (line :: rest) =
      (line :: (splitSections rest).1, (splitSections rest).2) := by
  simp only [splitSections, isPrefixOf_eq_false unmarked, Bool.false_eq_true, if_false]

/-- The lines above the first marker, and the sections behind it. -/
theorem splitSections_spec (patchLines : List Text) :
    (∀ line ∈ (splitSections patchLines).1, ¬sectionMarker <+: line) ∧
      (∀ group ∈ (splitSections patchLines).2, IsSection group) ∧
      (splitSections patchLines).1 ++ (splitSections patchLines).2.flatten = patchLines := by
  induction patchLines with
  | nil => exact ⟨nofun, nofun, rfl⟩
  | cons line rest inductionHypothesis =>
      obtain ⟨unmarked, areSections, whole⟩ := inductionHypothesis
      by_cases marked : sectionMarker <+: line
      · rw [splitSections_marked marked]
        refine ⟨nofun, ?_, ?_⟩
        · rw [List.forall_mem_cons]
          exact ⟨⟨line, _, rfl, marked, unmarked⟩, areSections⟩
        · rw [List.nil_append, List.flatten_cons, List.cons_append, whole]
      · rw [splitSections_unmarked marked]
        refine ⟨?_, areSections, ?_⟩
        · rw [List.forall_mem_cons]
          exact ⟨marked, unmarked⟩
        · rw [List.cons_append, whole]

theorem countP_unmarked {unmarked : List Text}
    (noMarker : ∀ line ∈ unmarked, ¬sectionMarker <+: line) :
    unmarked.countP sectionMarker.isPrefixOf = 0 := by
  rw [List.countP_eq_zero]
  intro line membership
  rw [List.isPrefixOf_iff_prefix]
  exact noMarker line membership

theorem countP_flatten {groups : List (List Text)}
    (areSections : ∀ group ∈ groups, IsSection group) :
    groups.flatten.countP sectionMarker.isPrefixOf = groups.length := by
  induction groups with
  | nil => rfl
  | cons group later inductionHypothesis =>
      obtain ⟨⟨first, rest, rfl, marked, unmarked⟩, behind⟩ := List.forall_mem_cons.mp areSections
      have isMarked : sectionMarker.isPrefixOf first = true :=
        List.isPrefixOf_iff_prefix.mpr marked
      rw [List.flatten_cons, List.countP_append, List.countP_cons_of_pos isMarked,
        countP_unmarked unmarked, inductionHypothesis behind, List.length_cons]
      omega

/-- The sections hold what stands from the first marker on. -/
theorem flatten_splitSections (patchLines : List Text) :
    (splitSections patchLines).2.flatten =
      patchLines.dropWhile fun line => !sectionMarker.isPrefixOf line := by
  obtain ⟨unmarked, areSections, whole⟩ := splitSections_spec patchLines
  have passed : ∀ line ∈ (splitSections patchLines).1,
      (!sectionMarker.isPrefixOf line) = true := fun line membership => by
    rw [isPrefixOf_eq_false (unmarked line membership)]
    rfl
  have kept : (splitSections patchLines).2.flatten.dropWhile
      (fun line => !sectionMarker.isPrefixOf line) = (splitSections patchLines).2.flatten := by
    cases sections : (splitSections patchLines).2 with
    | nil => rfl
    | cons group later =>
        obtain ⟨first, rest, rfl, marked, -⟩ :=
          areSections group (by rw [sections]; exact List.mem_cons_self)
        have isMarked : sectionMarker.isPrefixOf first = true :=
          List.isPrefixOf_iff_prefix.mpr marked
        rw [List.flatten_cons, List.cons_append, List.dropWhile_cons_of_neg (by simp [isMarked])]
  have dropped := congrArg (List.dropWhile fun line => !sectionMarker.isPrefixOf line) whole
  rw [List.dropWhile_append_of_pos passed, kept] at dropped
  exact dropped

theorem length_splitSections (patchLines : List Text) :
    (splitSections patchLines).2.length = patchLines.countP sectionMarker.isPrefixOf := by
  obtain ⟨unmarked, areSections, whole⟩ := splitSections_spec patchLines
  have counted := congrArg (List.countP sectionMarker.isPrefixOf) whole
  rw [List.countP_append, countP_unmarked unmarked, countP_flatten areSections, Nat.zero_add]
    at counted
  exact counted

end Split

section Paths

variable {patch : Text} {file : FilePatch}

/-- A section's paths are those of a section that ends above its hunks. -/
theorem sectionPaths_takeWhile {group : List Text} (isSection : IsSection group) :
    sectionPaths (group.takeWhile fun line => !Header.marker.isPrefixOf line) =
      sectionPaths group := by
  obtain ⟨first, rest, rfl, marked, -⟩ := isSection
  have unheaded : ¬Header.marker <+: first := not_headed_of_marked marked
  rw [List.takeWhile_cons_of_pos (by simp [isPrefixOf_eq_false unheaded]), sectionPaths,
    sectionPaths, List.takeWhile_idem]

/-- Each section of a patch is given by its lines. -/
theorem lines_of_mem_filePatches (isFile : file ∈ filePatches patch) :
    IsSection file.lines ∧ file = FilePatch.ofLines file.lines := by
  obtain ⟨group, isGroup, rfl⟩ := List.mem_map.mp isFile
  obtain ⟨-, areSections, whole⟩ := splitSections_spec (Text.cleanLines patch)
  have unbroken : ∀ line ∈ group, '\n' ∉ line := by
    intro line isLine
    have isPatchLine : line ∈ Text.cleanLines patch := by
      rw [← whole]
      exact List.mem_append_right _ (List.mem_flatten_of_mem isGroup isLine)
    exact Text.unbroken_of_mem_cleanLines isPatchLine
  have lines : (FilePatch.ofLines group).lines = group := Text.endedLines_terminate unbroken
  rw [lines]
  exact ⟨areSections group isGroup, rfl⟩

theorem paths_of_mem_filePatches (isFile : file ∈ filePatches patch) :
    file.paths = sectionPaths file.aboveHunks := by
  obtain ⟨isSection, given⟩ := lines_of_mem_filePatches isFile
  rw [FilePatch.aboveHunks, sectionPaths_takeWhile isSection]
  exact congrArg FilePatch.paths given

end Paths

/-- The sections of a patch are its lines from the first section marker on, cut at each
marker, and two sections that agree above their hunks get the same paths. -/
theorem filePatches_partition (patch : Text) :
    (filePatches patch).flatMap (·.text) =
        Text.terminate ((Text.cleanLines patch).dropWhile fun line =>
          !sectionMarker.isPrefixOf line) ∧
      (∀ file ∈ filePatches patch, file.text = Text.terminate file.lines ∧ IsSection file.lines) ∧
      (filePatches patch).length = (Text.cleanLines patch).countP sectionMarker.isPrefixOf ∧
      ∀ file ∈ filePatches patch, ∀ other, ∀ otherFile ∈ filePatches other,
        file.aboveHunks = otherFile.aboveHunks → file.paths = otherFile.paths := by
  refine ⟨?_, ?_, ?_, ?_⟩
  · rw [← flatten_splitSections, filePatches, List.flatMap_map, Text.terminate,
      List.flatten_eq_flatMap, List.flatMap_assoc]
    rfl
  · intro file isFile
    obtain ⟨isSection, given⟩ := lines_of_mem_filePatches isFile
    exact ⟨congrArg FilePatch.text given, isSection⟩
  · rw [filePatches, List.length_map, length_splitSections]
  · intro file isFile other otherFile isOther sameAbove
    rw [paths_of_mem_filePatches isFile, paths_of_mem_filePatches isOther, sameAbove]

section Sample

/-- A preamble, a file whose section is one line, and one whose changed lines look like
the names of other files. -/
def samplePartition : Text :=
  "note\ndiff --git a/x b/y\n".toList ++
    "diff --git a/z b/z\n+++ /dev/null\n@@ -1 +0,0 @@\n--- a/w".toList

/-- The second file of the sample, with a header that cannot be read. -/
def sampleMalformed : Text :=
  "diff --git a/z b/z\r\n+++ /dev/null\r\n@@\r\n+++ b/v".toList

def sampleRemoved : FilePatch :=
  .ofLines ["diff --git a/z b/z".toList, "+++ /dev/null".toList, "@@ -1 +0,0 @@".toList,
    "--- a/w".toList]

def sampleUnread : FilePatch :=
  .ofLines ["diff --git a/z b/z".toList, "+++ /dev/null".toList, "@@".toList, "+++ b/v".toList]

theorem filePatches_partition_sample :
    sampleRemoved ∈ filePatches samplePartition ∧ sampleUnread ∈ filePatches sampleMalformed ∧
      sampleRemoved.aboveHunks = sampleUnread.aboveHunks ∧
      sampleRemoved.paths = sampleUnread.paths ∧ IsSection sampleRemoved.lines := by
  have isFile : sampleRemoved ∈ filePatches samplePartition := by decide +kernel
  have isOther : sampleUnread ∈ filePatches sampleMalformed := by decide +kernel
  have sameAbove : sampleRemoved.aboveHunks = sampleUnread.aboveHunks := by decide +kernel
  obtain ⟨-, areSections, -, samePaths⟩ := filePatches_partition samplePartition
  exact ⟨isFile, isOther, sameAbove, samePaths _ isFile _ _ isOther sameAbove,
    (areSections _ isFile).2⟩

end Sample

end ChangeCoverage.Patch
