import Mathlib.Data.List.Infix
import ChangeCoverage.Patch.Section
import ChangeCoverage.Proofs.Patch.Counting
import ChangeCoverage.Proofs.Text.Lines
import ChangeCoverage.Proofs.Text.Trim

/-!
Patches of several files.  A patch written file by file is cut at the first
line of each section, whatever its hunks look like, every section gets back the
paths that it was written with, and the diff of a file is read from its own
hunks alone.
-/

namespace ChangeCoverage.Patch

/-- A line of a patch, in which no carriage return follows another one. -/
structure IsWritten (line : Text) : Prop where
  unbroken : '\n' ∉ line
  single : ¬['\r', '\r'] <:+: line

/-- A path that is written as it is. -/
structure IsPath (path : Text) : Prop where
  plain : ∀ character ∈ path, character ∉ ['\t', '\n', '\r', '\\']
  solid : ∀ last ∈ path.getLast?, Text.isBlank last = false

/-- What may stand behind a path: blanks, and anything from a tab on. -/
def IsRemark (remark : Text) : Prop :=
  ∀ character ∈ remark.takeWhile (· ≠ '\t'), Text.isBlank character = true

instance (line : Text) : Decidable (IsWritten line) :=
  decidable_of_iff ('\n' ∉ line ∧ ¬['\r', '\r'] <:+: line)
    ⟨fun ⟨unbroken, single⟩ => ⟨unbroken, single⟩, fun ⟨unbroken, single⟩ => ⟨unbroken, single⟩⟩

-- The instances are named because a check of all characters there are is found first.
instance (path : Text) : Decidable (IsPath path) :=
  have _plain := List.decidableBAll (· ∉ ['\t', '\n', '\r', '\\']) path
  have _solid : Decidable (∀ last ∈ path.getLast?, Text.isBlank last = false) :=
    Option.decidableForallMem path.getLast?
  decidable_of_iff ((∀ character ∈ path, character ∉ ['\t', '\n', '\r', '\\']) ∧
      ∀ last ∈ path.getLast?, Text.isBlank last = false)
    ⟨fun ⟨plain, solid⟩ => ⟨plain, solid⟩, fun ⟨plain, solid⟩ => ⟨plain, solid⟩⟩

instance (remark : Text) : Decidable (IsRemark remark) :=
  List.decidableBAll (Text.isBlank · = true) (remark.takeWhile (· ≠ '\t'))

/-- A file on one side of a patch. -/
structure Side where
  name : Text
  /-- Whether the file does not exist on this side. -/
  missing : Bool
  /-- What stands behind the line that names the side. -/
  remark : Text

namespace Side

def path (side : Side) : Option Text :=
  if side.missing then none else some side.name

/-- The side behind its marker, with the letter that stands for it. -/
def text (side : Side) (letter : Char) : Text :=
  if side.missing then nullPath else letter :: '/' :: side.name

structure WellFormed (side : Side) : Prop where
  name : IsPath side.name
  remark : IsRemark side.remark

end Side

/-- A file's part of a patch. -/
structure FileSection where
  old : Side
  new : Side
  /-- The lines between the first one and those that name the sides. -/
  extended : List Text
  hunks : List Text

namespace FileSection

def firstLine (file : FileSection) : Text :=
  sectionMarker ++ ("a/".toList ++ file.old.name ++ " b/".toList ++ file.new.name)

def oldLine (file : FileSection) : Text :=
  "--- ".toList ++ (file.old.text 'a' ++ file.old.remark)

def newLine (file : FileSection) : Text :=
  "+++ ".toList ++ (file.new.text 'b' ++ file.new.remark)

/-- The lines behind the first one and above the hunks. -/
def naming (file : FileSection) : List Text :=
  file.extended ++ [file.oldLine, file.newLine]

def lines (file : FileSection) : List Text :=
  file.firstLine :: (file.naming ++ file.hunks)

structure WellFormed (file : FileSection) : Prop where
  old : file.old.WellFormed
  new : file.new.WellFormed
  extended : ∀ line ∈ file.extended,
    ∀ marker ∈ [sectionMarker, "--- ".toList, "+++ ".toList, Header.marker], ¬marker <+: line
  /-- The hunks begin with what looks like a header. -/
  headed : ∃ first ∈ file.hunks.head?, Header.marker <+: first
  hunks : ∀ line ∈ file.hunks, ¬sectionMarker <+: line
  written : ∀ line ∈ file.lines, IsWritten line

end FileSection

def writePatch (files : List FileSection) : Text :=
  Text.terminate (files.flatMap FileSection.lines)

theorem IsWritten.isEnded {line : Text} (written : IsWritten line) : Text.IsEnded line := by
  refine ⟨written.unbroken, fun broken => ?_, fun ended => ?_⟩
  · exact written.unbroken ((Text.dropReturn_prefix line).subset broken)
  · unfold Text.dropReturn at ended
    split at ended
    next isReturn =>
      obtain ⟨front, rfl⟩ := List.getLast?_eq_some_iff.mp isReturn
      rw [List.dropLast_concat] at ended
      obtain ⟨start, rfl⟩ := List.getLast?_eq_some_iff.mp ended
      exact written.single ⟨start, [], by simp⟩
    next notReturn => exact notReturn ended

/-- A marker without a carriage return starts a line just if it starts the line
freed of its last carriage return. -/
theorem prefix_dropReturn {marker line : Text} (noReturn : '\r' ∉ marker) :
    marker <+: Text.dropReturn line ↔ marker <+: line := by
  refine ⟨fun starts => starts.trans (Text.dropReturn_prefix line), fun starts => ?_⟩
  unfold Text.dropReturn
  split
  next isReturn =>
    obtain ⟨front, rfl⟩ := List.getLast?_eq_some_iff.mp isReturn
    rw [List.dropLast_concat]
    rcases List.prefix_concat_iff.mp starts with rfl | within
    · exact absurd (by simp) noReturn
    · exact within
  next => exact starts

theorem prefix_cleaned {marker line : Text} (noReturn : '\r' ∉ marker) :
    marker <+: Text.cleaned line ↔ marker <+: line :=
  (prefix_dropReturn noReturn).trans (prefix_dropReturn noReturn)

/-- No line starts both a section and a hunk. -/
theorem not_headed_of_marked {line : Text} (marked : sectionMarker <+: line) :
    ¬Header.marker <+: line := by
  intro headed
  obtain ⟨front, sameFront⟩ := marked
  obtain ⟨back, sameBack⟩ := headed
  have heads : some 'd' = some '@' := congrArg List.head? (sameFront.trans sameBack.symm)
  cases heads

theorem after?_eq_none {marker line : Text} (differs : ¬marker <+: line) :
    Text.after? marker line = none := by
  rw [Option.eq_none_iff_forall_ne_some]
  intro rest found
  exact differs ⟨rest, (Text.after?_eq_some_iff.mp found).symm⟩

theorem isPrefixOf_eq_false {marker line : Text} (differs : ¬marker <+: line) :
    marker.isPrefixOf line = false := by
  rwa [Bool.eq_false_iff, ne_eq, List.isPrefixOf_iff_prefix]

/-- Lines of which only the first one starts a section. -/
def IsSection (group : List Text) : Prop :=
  ∃ first rest, group = first :: rest ∧ sectionMarker <+: first ∧
    ∀ line ∈ rest, ¬sectionMarker <+: line

theorem splitSections_append {leading : List Text}
    (unmarked : ∀ line ∈ leading, ¬sectionMarker <+: line) (rest : List Text) :
    splitSections (leading ++ rest) =
      (leading ++ (splitSections rest).1, (splitSections rest).2) := by
  induction leading with
  | nil => rfl
  | cons line later inductionHypothesis =>
      obtain ⟨here, behind⟩ := List.forall_mem_cons.mp unmarked
      simp [splitSections, inductionHypothesis behind, isPrefixOf_eq_false here]

/-- Sections that stand behind each other are cut apart again. -/
theorem splitSections_flatten {groups : List (List Text)}
    (areSections : ∀ group ∈ groups, IsSection group) :
    splitSections groups.flatten = ([], groups) := by
  induction groups with
  | nil => rfl
  | cons group later inductionHypothesis =>
      obtain ⟨⟨first, rest, rfl, starts, unmarked⟩, behind⟩ := List.forall_mem_cons.mp areSections
      have cut := inductionHypothesis behind
      have marked : sectionMarker.isPrefixOf first = true := List.isPrefixOf_iff_prefix.mpr starts
      simp [splitSections, splitSections_append unmarked, cut, marked]

section Path

variable {path remark : Text}

theorem forwardSlashes_eq_self (isPath : IsPath path) : Text.forwardSlashes path = path :=
  Text.forwardSlashes_eq_self fun membership => isPath.plain _ membership (by decide)

theorem trimEnd_takeWhile (isPath : IsPath path) (isRemark : IsRemark remark) :
    Text.trimEnd ((path ++ remark).takeWhile (· ≠ '\t')) = path := by
  have untabbed : ∀ character ∈ path, character ≠ '\t' := by
    rintro character membership rfl
    exact isPath.plain _ membership (by decide)
  rw [List.takeWhile_append_of_pos (by simpa using untabbed), Text.trimEnd_append isRemark,
    Text.trimEnd_eq_self isPath.solid]

theorem isPath_nullPath : IsPath nullPath := by decide

theorem markedPath?_nullPath (isRemark : IsRemark remark) :
    markedPath? (nullPath ++ remark) = none := by
  rw [markedPath?, trimEnd_takeWhile isPath_nullPath isRemark]
  rfl

/-- A path stays one behind the letter of a side. -/
theorem IsPath.lettered {letter : Char} (isLetter : letter = 'a' ∨ letter = 'b')
    (isPath : IsPath path) : IsPath (letter :: '/' :: path) where
  plain := by
    have mark : letter ∉ ['\t', '\n', '\r', '\\'] := by rcases isLetter with rfl | rfl <;> decide
    exact List.forall_mem_cons.mpr ⟨mark, List.forall_mem_cons.mpr ⟨by decide, isPath.plain⟩⟩
  solid := by
    intro last isLast
    cases path with
    | nil =>
        obtain rfl : '/' = last := by simpa using isLast
        decide
    | cons first rest =>
        rw [List.getLast?_cons_cons, List.getLast?_cons_cons] at isLast
        exact isPath.solid last isLast

/-- The path behind the letter of a side is read back. -/
theorem markedPath?_letter {letter : Char} (isLetter : letter = 'a' ∨ letter = 'b')
    (isPath : IsPath path) (isRemark : IsRemark remark) :
    markedPath? (letter :: '/' :: path ++ remark) = some path := by
  have named : letter :: '/' :: path ≠ nullPath := by
    intro same
    have rooted : some letter = some '/' := congrArg List.head? same
    rcases isLetter with rfl | rfl <;> simp at rooted
  rw [markedPath?, trimEnd_takeWhile (isPath.lettered isLetter) isRemark, if_neg named]
  rcases isLetter with rfl | rfl <;> simp [Text.after?, forwardSlashes_eq_self isPath]

theorem IsRemark.dropReturn (isRemark : IsRemark remark) : IsRemark (Text.dropReturn remark) := by
  intro character membership
  obtain ⟨back, whole⟩ := Text.dropReturn_prefix remark
  refine isRemark character ?_
  rw [← whole, List.takeWhile_append]
  split
  · exact List.mem_append_left _ (List.takeWhile_subset _ membership)
  · exact membership

end Path

namespace Side

variable {side : Side}

theorem isPath_text {letter : Char} (isLetter : letter = 'a' ∨ letter = 'b')
    (wellFormed : side.WellFormed) : IsPath (side.text letter) := by
  unfold text
  split
  · exact isPath_nullPath
  · exact wellFormed.name.lettered isLetter

theorem markedPath?_text {letter : Char} (isLetter : letter = 'a' ∨ letter = 'b')
    (wellFormed : side.WellFormed) {remark : Text} (isRemark : IsRemark remark) :
    markedPath? (side.text letter ++ remark) = side.path := by
  unfold text path
  split
  · exact markedPath?_nullPath isRemark
  · exact markedPath?_letter isLetter wellFormed.name isRemark

/-- A side holds no carriage return, so that only its remark can lose one. -/
theorem dropReturn_text {letter : Char} (isLetter : letter = 'a' ∨ letter = 'b')
    (wellFormed : side.WellFormed) {marker : Text} (noReturn : '\r' ∉ marker) :
    Text.dropReturn (marker ++ (side.text letter ++ side.remark)) =
      marker ++ (side.text letter ++ Text.dropReturn side.remark) := by
  have absent : '\r' ∉ marker ++ side.text letter := by
    rw [List.mem_append, not_or]
    exact ⟨noReturn, fun membership =>
      (isPath_text isLetter wellFormed).plain _ membership (by decide)⟩
  rw [← List.append_assoc, ← List.append_assoc]
  exact Text.dropReturn_append (fun ended => absent (List.mem_of_getLast? ended)) _

end Side

section Refine

variable (paths : Paths)

theorem refine_old (rest : Text) :
    paths.refine ("--- ".toList ++ rest) = { paths with old := markedPath? rest } := by
  simp [Paths.refine, Text.after?]

theorem refine_new (rest : Text) :
    paths.refine ("+++ ".toList ++ rest) = { paths with new := markedPath? rest } := by
  simp [Paths.refine, Text.after?]

theorem refine_other {line : Text} (notOld : ¬"--- ".toList <+: line)
    (notNew : ¬"+++ ".toList <+: line) : paths.refine line = paths := by
  simp only [Paths.refine, after?_eq_none notOld, after?_eq_none notNew]

theorem foldl_refine_other {naming : List Text}
    (others : ∀ line ∈ naming, ¬"--- ".toList <+: line ∧ ¬"+++ ".toList <+: line) :
    naming.foldl Paths.refine paths = paths := by
  induction naming with
  | nil => rfl
  | cons line later inductionHypothesis =>
      obtain ⟨⟨notOld, notNew⟩, behind⟩ := List.forall_mem_cons.mp others
      rw [List.foldl_cons, refine_other paths notOld notNew, inductionHypothesis behind]

end Refine

theorem readLines_unheaded {leading : List Text}
    (unheaded : ∀ line ∈ leading, ¬Header.marker <+: line) (rest : List Text) :
    readLines none (leading ++ rest) = readLines none rest := by
  induction leading with
  | nil => rfl
  | cons line later inductionHypothesis =>
      obtain ⟨here, behind⟩ := List.forall_mem_cons.mp unheaded
      simp [readLines, readLine, isPrefixOf_eq_false here, inductionHypothesis behind]

namespace FileSection

variable {file : FileSection}

/-- The lines of a section as they are read. -/
def cleanLines (file : FileSection) : List Text :=
  file.lines.map Text.dropReturn

def cleanNaming (file : FileSection) : List Text :=
  file.naming.map Text.dropReturn

def cleanHunks (file : FileSection) : List Text :=
  file.hunks.map Text.dropReturn

theorem cleanLines_eq (file : FileSection) :
    file.cleanLines = Text.dropReturn file.firstLine :: (file.cleanNaming ++ file.cleanHunks) := by
  simp [cleanLines, cleanNaming, cleanHunks, lines]

theorem prefix_firstLine (file : FileSection) :
    sectionMarker <+: Text.dropReturn file.firstLine := by
  rw [prefix_dropReturn (by decide), firstLine]
  exact List.prefix_append _ _

theorem not_prefix_extended (wellFormed : file.WellFormed) {marker : Text}
    (isMarker : marker ∈ [sectionMarker, "--- ".toList, "+++ ".toList, Header.marker]) :
    ∀ line ∈ file.extended.map Text.dropReturn, ¬marker <+: line := by
  have noReturn : '\r' ∉ marker := by
    revert marker
    decide
  simpa [prefix_dropReturn noReturn] using
    fun line membership => wellFormed.extended line membership marker isMarker

theorem cleanNaming_eq (wellFormed : file.WellFormed) :
    file.cleanNaming = file.extended.map Text.dropReturn ++
      ["--- ".toList ++ (file.old.text 'a' ++ Text.dropReturn file.old.remark),
       "+++ ".toList ++ (file.new.text 'b' ++ Text.dropReturn file.new.remark)] := by
  have oldRead : Text.dropReturn file.oldLine =
      "--- ".toList ++ (file.old.text 'a' ++ Text.dropReturn file.old.remark) :=
    Side.dropReturn_text (.inl rfl) wellFormed.old (by decide)
  have newRead : Text.dropReturn file.newLine =
      "+++ ".toList ++ (file.new.text 'b' ++ Text.dropReturn file.new.remark) :=
    Side.dropReturn_text (.inr rfl) wellFormed.new (by decide)
  rw [cleanNaming, naming, List.map_append, List.map_cons, List.map_cons, List.map_nil, oldRead,
    newRead]

/-- Lines above the hunks start neither a section nor a hunk. -/
theorem not_prefix_naming (wellFormed : file.WellFormed) {marker : Text}
    (isMarker : marker = sectionMarker ∨ marker = Header.marker) :
    ∀ line ∈ file.cleanNaming, ¬marker <+: line := by
  have listed : marker ∈ [sectionMarker, "--- ".toList, "+++ ".toList, Header.marker] := by
    rcases isMarker with rfl | rfl <;> simp
  have differs {first : Char} (other : first = '-' ∨ first = '+') (rest : Text) :
      ¬marker <+: first :: rest := by
    rintro ⟨back, same⟩
    rcases isMarker with rfl | rfl
    · have heads : some 'd' = some first := congrArg List.head? same
      rcases other with rfl | rfl <;> simp at heads
    · have heads : some '@' = some first := congrArg List.head? same
      rcases other with rfl | rfl <;> simp at heads
  rw [cleanNaming_eq wellFormed, List.forall_mem_append]
  refine ⟨not_prefix_extended wellFormed listed, ?_⟩
  intro line membership
  simp only [List.mem_cons, List.not_mem_nil, or_false] at membership
  rcases membership with rfl | rfl
  · exact differs (.inl rfl) _
  · exact differs (.inr rfl) _

theorem isSection_cleanLines (wellFormed : file.WellFormed) : IsSection file.cleanLines := by
  refine ⟨_, _, file.cleanLines_eq, file.prefix_firstLine, ?_⟩
  rw [List.forall_mem_append]
  refine ⟨not_prefix_naming wellFormed (.inl rfl), ?_⟩
  have noReturn : '\r' ∉ sectionMarker := by decide
  simpa [cleanHunks, prefix_dropReturn noReturn] using wellFormed.hunks

theorem foldl_refine_naming (wellFormed : file.WellFormed) (paths : Paths) :
    file.cleanNaming.foldl Paths.refine paths = { old := file.old.path, new := file.new.path } := by
  have others : ∀ line ∈ file.extended.map Text.dropReturn,
      ¬"--- ".toList <+: line ∧ ¬"+++ ".toList <+: line := fun line membership =>
    ⟨not_prefix_extended wellFormed (by simp) line membership,
      not_prefix_extended wellFormed (by simp) line membership⟩
  rw [cleanNaming_eq wellFormed, List.foldl_append, foldl_refine_other paths others,
    List.foldl_cons, refine_old, List.foldl_cons, refine_new, List.foldl_nil,
    Side.markedPath?_text (.inl rfl) wellFormed.old wellFormed.old.remark.dropReturn,
    Side.markedPath?_text (.inr rfl) wellFormed.new wellFormed.new.remark.dropReturn]

theorem takeWhile_unheaded (wellFormed : file.WellFormed) :
    (file.cleanNaming ++ file.cleanHunks).takeWhile (fun line => !Header.marker.isPrefixOf line) =
      file.cleanNaming := by
  obtain ⟨first, isFirst, headed⟩ := wellFormed.headed
  obtain ⟨rest, hunksEq⟩ := List.head?_eq_some_iff.mp isFirst
  have stops : Header.marker.isPrefixOf (Text.dropReturn first) = true :=
    List.isPrefixOf_iff_prefix.mpr ((prefix_dropReturn (by decide)).mpr headed)
  have passes : ∀ line ∈ file.cleanNaming, (!Header.marker.isPrefixOf line) = true :=
    fun line membership => by
      simp [isPrefixOf_eq_false (not_prefix_naming wellFormed (.inr rfl) line membership)]
  rw [List.takeWhile_append_of_pos passes, cleanHunks, hunksEq, List.map_cons,
    List.takeWhile_cons_of_neg (by simp [stops]), List.append_nil]

theorem ofLines_cleanLines (wellFormed : file.WellFormed) :
    FilePatch.ofLines file.cleanLines =
      { oldPath := file.old.path, newPath := file.new.path,
        text := Text.terminate file.cleanLines } := by
  have paths : sectionPaths file.cleanLines = { old := file.old.path, new := file.new.path } := by
    rw [cleanLines_eq, sectionPaths, takeWhile_unheaded wellFormed, foldl_refine_naming wellFormed]
  rw [FilePatch.ofLines, paths]
  rfl

/-- The diff of a section is that of its hunks alone. -/
theorem parse_cleanLines (wellFormed : file.WellFormed) :
    parse (Text.terminate file.cleanLines) = parse (Text.terminate file.hunks) := by
  have ended : ∀ line ∈ file.lines, Text.IsEnded line :=
    fun line membership => (wellFormed.written line membership).isEnded
  have hunksEnded : ∀ line ∈ file.hunks, Text.IsEnded line := fun line membership =>
    ended line (List.mem_cons_of_mem _ (List.mem_append_right _ membership))
  have areLines : ∀ line ∈ file.cleanLines, Text.IsLine line := by
    simpa [cleanLines] using fun line membership => (ended line membership).isLine
  have unheaded : ∀ line ∈ Text.dropReturn file.firstLine :: file.cleanNaming,
      ¬Header.marker <+: line := by
    rw [List.forall_mem_cons]
    exact ⟨not_headed_of_marked file.prefix_firstLine,
      not_prefix_naming wellFormed (.inr rfl)⟩
  rw [parse, parse, Text.cleanLines_terminate areLines, Text.cleanLines_terminate_map hunksEnded,
    cleanLines_eq, ← List.cons_append, readLines_unheaded unheaded]
  rfl

end FileSection

theorem filePatches_writePatch {files : List FileSection}
    (wellFormed : ∀ file ∈ files, file.WellFormed) :
    filePatches (writePatch files) = files.map fun file => FilePatch.ofLines file.cleanLines := by
  have ended : ∀ line ∈ files.flatMap FileSection.lines, Text.IsEnded line := by
    intro line membership
    obtain ⟨file, isFile, isLine⟩ := List.mem_flatMap.mp membership
    exact ((wellFormed file isFile).written line isLine).isEnded
  have areSections : ∀ group ∈ files.map FileSection.cleanLines, IsSection group := by
    simpa using fun file isFile => FileSection.isSection_cleanLines (wellFormed file isFile)
  have joined : (files.flatMap FileSection.lines).map Text.dropReturn =
      (files.map FileSection.cleanLines).flatten := by
    rw [List.map_flatMap, ← List.flatMap_def]
    rfl
  rw [filePatches, writePatch, Text.cleanLines_terminate_map ended, joined,
    splitSections_flatten areSections, List.map_map]
  rfl

/-- The only section of a file is found in the patch. -/
theorem sectionFor?_writePatch {files : List FileSection}
    (wellFormed : ∀ file ∈ files, file.WellFormed) {path : Text} {chosen : FileSection}
    (sole : files.filter (·.new.path = some path) = [chosen]) :
    sectionFor? (filePatches (writePatch files)) path = some (.ofLines chosen.cleanLines) := by
  have newPaths : ∀ file ∈ files,
      (FilePatch.ofLines file.cleanLines).newPath = file.new.path := fun file isFile => by
    rw [FileSection.ofLines_cleanLines (wellFormed file isFile)]
  have found : files.find? (fun file => (FilePatch.ofLines file.cleanLines).newPath = some path) =
      some chosen := by
    have same : files.filter
        (fun file => (FilePatch.ofLines file.cleanLines).newPath = some path) = [chosen] :=
      (List.filter_congr fun file isFile => by rw [newPaths file isFile]).trans sole
    rw [← List.head?_filter, same]
    rfl
  rw [sectionFor?, filePatches_writePatch wellFormed, List.find?_map]
  simp only [Function.comp_def, found, Option.map_some, Option.some_or]

/-- A patch written file by file is read back file by file. -/
theorem paths_and_diffFor_writePatch {files : List FileSection}
    (wellFormed : ∀ file ∈ files, file.WellFormed) :
    (filePatches (writePatch files)).map (fun found => (found.oldPath, found.newPath)) =
        files.map (fun file => (file.old.path, file.new.path)) ∧
      ∀ path chosen, files.filter (·.new.path = some path) = [chosen] →
        diffFor? (writePatch files) path = parse? (Text.terminate chosen.hunks) := by
  constructor
  · rw [filePatches_writePatch wellFormed, List.map_map]
    refine List.map_congr_left fun file isFile => ?_
    simp only [Function.comp_def, FileSection.ofLines_cleanLines (wellFormed file isFile)]
  · intro path chosen sole
    have isFile : chosen ∈ files :=
      (List.mem_filter.mp (sole ▸ List.mem_singleton_self chosen)).1
    rw [diffFor?, sectionFor?_writePatch wellFormed sole,
      FileSection.ofLines_cleanLines (wellFormed chosen isFile)]
    exact parse?_congr (FileSection.parse_cleanLines (wellFormed chosen isFile))

section Sample

/-- A file whose changed lines look like the names of another file. -/
def sampleRetold : FileSection where
  old := { name := "my notes".toList, missing := false, remark := ['\t'] }
  new := { name := "my notes".toList, missing := false, remark := ['\t'] }
  extended := ["index 1..2".toList]
  hunks := ["@@ -1 +1 @@".toList, "--- a/N".toList, "+++ b/N\r".toList]

def sampleCreated : FileSection where
  old := { name := ['N'], missing := true, remark := [] }
  new := { name := ['N'], missing := false, remark := [] }
  extended := ["new file mode 100644".toList]
  hunks := ["@@ -0,0 +1 @@".toList, "+n".toList]

def sampleFiles : List FileSection := [sampleRetold, sampleCreated]

theorem paths_and_diffFor_writePatch_sample :
    (∀ file ∈ sampleFiles, file.WellFormed) ∧
      (filePatches (writePatch sampleFiles)).map (fun found => (found.oldPath, found.newPath)) =
        [(some "my notes".toList, some "my notes".toList), (none, some ['N'])] ∧
      diffFor? (writePatch sampleFiles) ['N'] =
        some [.hunk "@@ -0,0 +1 @@".toList, .added 1 ['n']] := by
  have retold : sampleRetold.WellFormed :=
    ⟨⟨by decide +kernel, by decide +kernel⟩, ⟨by decide +kernel, by decide +kernel⟩,
      by decide +kernel, by decide +kernel, by decide +kernel, by decide +kernel⟩
  have created : sampleCreated.WellFormed :=
    ⟨⟨by decide +kernel, by decide +kernel⟩, ⟨by decide +kernel, by decide +kernel⟩,
      by decide +kernel, by decide +kernel, by decide +kernel, by decide +kernel⟩
  have wellFormed : ∀ file ∈ sampleFiles, file.WellFormed := by
    simp [sampleFiles, retold, created]
  obtain ⟨paths, diffs⟩ := paths_and_diffFor_writePatch wellFormed
  have sole : sampleFiles.filter (·.new.path = some ['N']) = [sampleCreated] := rfl
  have read : parse? (Text.terminate sampleCreated.hunks) =
      some [.hunk "@@ -0,0 +1 @@".toList, .added 1 ['n']] := by decide +kernel
  exact ⟨wellFormed, paths, (diffs _ _ sole).trans read⟩

end Sample

end ChangeCoverage.Patch
