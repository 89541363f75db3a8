import ChangeCoverage.Proofs.Git.Reply
import ChangeCoverage.Proofs.Text.Encoding
import ChangeCoverage.Proofs.Text.Lines
import ChangeCoverage.Proofs.Text.Trim
import Mathlib.Data.List.Forall2

/-!
Listings of changed files.  A listing is read back file by file, whatever the
statuses and the blanks inside paths are.  But blanks at the end of git's output are
cut off before it is read, and those at the end of the last path with them.
-/

namespace ChangeCoverage.Git

/-- A printable ASCII character that git does not have to quote. -/
def IsPlain (character : Char) : Prop :=
  32 ≤ character.toNat ∧ character.toNat < 127 ∧ character ≠ '"' ∧ character ≠ '\\'

instance (character : Char) : Decidable (IsPlain character) :=
  inferInstanceAs (Decidable (_ ∧ _))

def IsPlainText (text : Text) : Prop :=
  ∀ character ∈ text, IsPlain character

structure IsPlainPath (path : Text) : Prop where
  nonempty : path ≠ []
  plain : IsPlainText path

/-- A status code that stands for none of the common statuses. -/
structure IsOtherCode (code : Text) : Prop where
  letter : ∃ first ∈ code.head?, first ∉ [' ', 'A', 'M', 'D']
  plain : IsPlainText code

instance (text : Text) : Decidable (IsPlainText text) :=
  List.decidableBAll IsPlain text

instance (path : Text) : Decidable (IsPlainPath path) :=
  decidable_of_iff (path ≠ [] ∧ IsPlainText path)
    ⟨fun ⟨nonempty, plain⟩ => ⟨nonempty, plain⟩, fun ⟨nonempty, plain⟩ => ⟨nonempty, plain⟩⟩

/-- The fields in which git prints a changed file.  The score of a rename or a copy
says how much of the file is the same. -/
inductive ListedAs : ChangedFile → List Text → Prop where
  | added {path : Text} : IsPlainPath path →
      ListedAs { path, status := .added } [['A'], path]
  | modified {path : Text} : IsPlainPath path →
      ListedAs { path, status := .modified } [['M'], path]
  | deleted {path : Text} : IsPlainPath path →
      ListedAs { path, status := .deleted } [['D'], path]
  | renamed {score source path : Text} : IsPlainText score → IsPlainPath source →
      IsPlainPath path →
      ListedAs { path, status := .renamed source } ['R' :: score, source, path]
  | copied {score source path : Text} : IsPlainText score → IsPlainPath source →
      IsPlainPath path →
      ListedAs { path, status := .copied source } ['C' :: score, source, path]
  | other {code path : Text} : IsOtherCode code → IsPlainPath path →
      ListedAs { path, status := .other code } [code, path]

def tabbed (fields : List Text) : Text :=
  List.intercalate ['\t'] fields

/-- The output in which git lists files, one a line. -/
def listingText (listing : List (List Text)) : Text :=
  Text.terminate (listing.map tabbed)

section Character

variable {character : Char}

theorem IsPlain.ne_of_control {control : Char} (plain : IsPlain character)
    (isControl : control.toNat < 32) : character ≠ control := by
  rintro rfl
  exact absurd plain.1 (Nat.not_le.mpr isControl)

theorem IsPlain.eq_space (plain : IsPlain character) (blank : Text.isBlank character = true) :
    character = ' ' := by
  obtain ⟨lower, upper, -⟩ := plain
  simp only [Text.isBlank, Bool.or_eq_true, Bool.and_eq_true, decide_eq_true_eq,
    beq_iff_eq] at blank
  rcases blank with (isSpace | isControl) | beyond
  · exact isSpace
  · omega
  · omega

theorem IsPlainText.not_mem_control {text : Text} {control : Char} (plain : IsPlainText text)
    (isControl : control.toNat < 32) : control ∉ text := fun membership =>
  (plain control membership).ne_of_control isControl rfl

end Character

section Fields

variable {file : ChangedFile} {fields : List Text}

theorem tabbed_cons (field second : Text) (rest : List Text) :
    tabbed (field :: second :: rest) = field ++ '\t' :: tabbed (second :: rest) := by
  simp [tabbed, List.intercalate]

theorem tabbed_concat (front : List Text) (last : Text) :
    tabbed (front ++ [last]) = (front.map (· ++ ['\t'])).flatten ++ last := by
  induction front with
  | nil => simp [tabbed, List.intercalate]
  | cons first rest inductionHypothesis =>
      obtain ⟨second, later, split⟩ : ∃ second later, rest ++ [last] = second :: later :=
        List.exists_cons_of_ne_nil (by simp)
      rw [List.cons_append, split, tabbed_cons, ← split, inductionHypothesis]
      simp

theorem suffix_tabbed {field : Text} (isLast : fields.getLast? = some field) :
    field <:+ tabbed fields := by
  obtain ⟨front, rfl⟩ := List.getLast?_eq_some_iff.mp isLast
  exact ⟨_, (tabbed_concat front field).symm⟩

theorem mem_tabbed {character : Char} (membership : character ∈ tabbed fields) :
    character = '\t' ∨ ∃ field ∈ fields, character ∈ field := by
  induction fields with
  | nil => simp [tabbed, List.intercalate] at membership
  | cons first rest inductionHypothesis =>
      cases rest with
      | nil => exact .inr ⟨first, by simp, by simpa [tabbed, List.intercalate] using membership⟩
      | cons second later =>
          rw [tabbed_cons, List.mem_append, List.mem_cons] at membership
          rcases membership with inFirst | isTab | inLater
          · exact .inr ⟨first, by simp, inFirst⟩
          · exact .inl isTab
          · rcases inductionHypothesis inLater with isTab | ⟨field, isField, inField⟩
            · exact .inl isTab
            · exact .inr ⟨field, List.mem_cons_of_mem _ isField, inField⟩

namespace ListedAs

theorem plain (listed : ListedAs file fields) : ∀ field ∈ fields, IsPlainText field := by
  have lettered {letter : Char} (isLetter : IsPlain letter) {score : Text}
      (scorePlain : IsPlainText score) : IsPlainText (letter :: score) :=
    List.forall_mem_cons.mpr ⟨isLetter, scorePlain⟩
  have empty : IsPlainText [] := by simp [IsPlainText]
  cases listed with
  | added path => simpa using ⟨lettered (by decide) empty, path.plain⟩
  | modified path => simpa using ⟨lettered (by decide) empty, path.plain⟩
  | deleted path => simpa using ⟨lettered (by decide) empty, path.plain⟩
  | renamed score source path =>
      simpa using ⟨lettered (by decide) score, source.plain, path.plain⟩
  | copied score source path =>
      simpa using ⟨lettered (by decide) score, source.plain, path.plain⟩
  | other code path => simpa using ⟨code.plain, path.plain⟩

theorem isPlainPath (listed : ListedAs file fields) : IsPlainPath file.path := by
  cases listed <;> assumption

theorem getLast?_fields (listed : ListedAs file fields) :
    fields.getLast? = some file.path := by
  cases listed <;> rfl

/-- A file with another path is listed with that path in the last field. -/
theorem withPath (listed : ListedAs file fields) {path : Text} (isPath : IsPlainPath path) :
    ListedAs { file with path } (fields.dropLast ++ [path]) := by
  cases listed with
  | added => exact .added isPath
  | modified => exact .modified isPath
  | deleted => exact .deleted isPath
  | renamed score source => exact .renamed score source isPath
  | copied score source => exact .copied score source isPath
  | other code => exact .other code isPath

/-- A line of a listing starts with a letter. -/
theorem headed (listed : ListedAs file fields) :
    ∃ letter rest, tabbed fields = letter :: rest ∧ Text.isBlank letter = false := by
  have lettered (letter : Char) (code second : Text) (later : List Text)
      (solid : Text.isBlank letter = false) :
      ∃ first rest, tabbed ((letter :: code) :: second :: later) = first :: rest ∧
        Text.isBlank first = false :=
    ⟨letter, _, tabbed_cons _ _ _, solid⟩
  cases listed with
  | added | modified | deleted | renamed | copied => exact lettered _ _ _ _ (by decide)
  | other code path =>
      obtain ⟨letter, isFirst, different⟩ := code.letter
      obtain ⟨rest, rfl⟩ := List.head?_eq_some_iff.mp isFirst
      refine lettered _ _ _ _ ?_
      rw [Bool.eq_false_iff]
      intro blank
      have isSpace := (code.plain letter (by simp)).eq_space blank
      exact different (by simp [isSpace])

theorem ofFields? (listed : ListedAs file fields) :
    ChangedFile.ofFields? fields = some file := by
  have same {path : Text} (isPath : IsPlainPath path) : Text.forwardSlashes path = path :=
    Text.forwardSlashes_eq_self fun membership => (isPath.plain _ membership).2.2.2 rfl
  cases listed with
  | added path => simp [ChangedFile.ofFields?, same path]
  | modified path => simp [ChangedFile.ofFields?, same path]
  | deleted path => simp [ChangedFile.ofFields?, same path]
  | renamed score source path => simp [ChangedFile.ofFields?, same source, same path]
  | copied score source path => simp [ChangedFile.ofFields?, same source, same path]
  | other code path =>
      obtain ⟨letter, isFirst, different⟩ := code.letter
      obtain ⟨rest, rfl⟩ := List.head?_eq_some_iff.mp isFirst
      simp only [List.mem_cons, not_or] at different
      simp [ChangedFile.ofFields?, same path, different]

theorem isLine (listed : ListedAs file fields) : Text.IsLine (tabbed fields) := by
  have absent (control : Char) (isControl : control.toNat < 32) (noTab : control ≠ '\t') :
      control ∉ tabbed fields := by
    intro membership
    rcases mem_tabbed membership with isTab | ⟨field, isField, inField⟩
    · exact noTab isTab
    · exact (listed.plain field isField).not_mem_control isControl inField
  exact ⟨absent _ (by decide) (by decide),
    fun ended => absent '\r' (by decide) (by decide) (List.mem_of_getLast? ended)⟩

theorem splitOn_tabbed (listed : ListedAs file fields) :
    (tabbed fields).splitOn '\t' = fields := by
  refine List.splitOn_intercalate _ (fun field isField => ?_) ?_
  · exact (listed.plain field isField).not_mem_control (by decide)
  · rintro rfl
    nomatch listed

end ListedAs

/-- The path that is read from a line is its last field. -/
theorem path_of_ofFields? (read : ChangedFile.ofFields? fields = some file) :
    ∃ field, fields.getLast? = some field ∧ file.path = Text.forwardSlashes field := by
  revert read
  fun_cases ChangedFile.ofFields? fields with
  | case1 code path status? =>
      intro read
      obtain ⟨status, -, rfl⟩ := Option.map_eq_some_iff.mp read
      exact ⟨path, rfl, rfl⟩
  | case2 score source path =>
      intro read
      obtain rfl := Option.some.inj read
      exact ⟨path, rfl, rfl⟩
  | case3 score source path =>
      intro read
      obtain rfl := Option.some.inj read
      exact ⟨path, rfl, rfl⟩
  | case4 => exact nofun

theorem getLast?_of_suffix {part text : Text} {last : Char} (suffix : part <:+ text)
    (isLast : part.getLast? = some last) : text.getLast? = some last := by
  obtain ⟨front, rfl⟩ := suffix
  rw [List.getLast?_append, isLast, Option.some_or]

/-- A line that has been cut at its end is read as the file with the cut path, if there
is anything left of it. -/
theorem ofFields?_trimEnd (listed : ListedAs file fields)
    (solid : ¬ Text.IsBlankText file.path) :
    ChangedFile.ofFields? ((Text.trimEnd (tabbed fields)).splitOn '\t') =
      some { file with path := Text.trimEnd file.path } := by
  have kept : Text.trimEnd file.path ≠ [] := fun nothing =>
    solid (Text.isBlankText_of_trimEnd_eq_nil nothing)
  have isPath : IsPlainPath (Text.trimEnd file.path) :=
    ⟨kept, fun character membership =>
      listed.isPlainPath.plain character ((Text.trimEnd_prefix _).subset membership)⟩
  have shorter := listed.withPath isPath
  have cut : Text.trimEnd (tabbed fields) =
      tabbed (fields.dropLast ++ [Text.trimEnd file.path]) := by
    obtain ⟨front, split⟩ := List.getLast?_eq_some_iff.mp listed.getLast?_fields
    rw [split, List.dropLast_concat, tabbed_concat, tabbed_concat,
      Text.trimEnd_append_of_ne_nil _ kept]
  rw [cut, shorter.splitOn_tabbed, shorter.ofFields?]

/-- A line that has been cut at its end is read back unless its path ended in a space. -/
theorem ofFields?_trimEnd_iff (listed : ListedAs file fields) :
    ChangedFile.ofFields? ((Text.trimEnd (tabbed fields)).splitOn '\t') = some file ↔
      file.path.getLast? ≠ some ' ' := by
  constructor
  · intro read endsInSpace
    obtain ⟨field, isLast, samePath⟩ := path_of_ofFields? read
    have endsField : field.getLast? = some ' ' := by
      rw [samePath, Text.forwardSlashes, Text.replace, List.getLast?_map,
        Option.map_eq_some_iff] at endsInSpace
      obtain ⟨written, isWritten, replaced⟩ := endsInSpace
      split at replaced
      · exact absurd replaced (by decide)
      · exact replaced ▸ isWritten
    have suffix := suffix_tabbed isLast
    rw [tabbed, List.intercalate_splitOn] at suffix
    have solid := Text.isBlank_getLast?_trimEnd (getLast?_of_suffix suffix endsField)
    exact absurd solid (by decide)
  · intro noSpace
    have solid : ∀ last ∈ file.path.getLast?, Text.isBlank last = false := by
      intro last isLast
      rw [Bool.eq_false_iff]
      intro blank
      have plain := listed.isPlainPath.plain last (List.mem_of_getLast? isLast)
      exact noSpace (plain.eq_space blank ▸ isLast)
    have whole : Text.trimEnd file.path = file.path := Text.trimEnd_eq_self solid
    have notBlank : ¬ Text.IsBlankText file.path := fun blank => by
      have isLast := List.getLast?_eq_some_getLast listed.isPlainPath.nonempty
      have isBlank := blank _ (List.getLast_mem listed.isPlainPath.nonempty)
      exact Bool.false_ne_true ((solid _ isLast).symm.trans isBlank)
    rw [ofFields?_trimEnd listed notBlank, whole]

end Fields

section Listing

variable {files : List ChangedFile} {listing : List (List Text)}

theorem forall₂_concat {front : List ChangedFile} {file : ChangedFile}
    (listed : List.Forall₂ ListedAs (front ++ [file]) listing) :
    ∃ frontListing fields, listing = frontListing ++ [fields] ∧
      List.Forall₂ ListedAs front frontListing ∧ ListedAs file fields := by
  induction front generalizing listing with
  | nil =>
      obtain ⟨fields, rest, isListed, nothing, rfl⟩ := List.forall₂_cons_left_iff.mp listed
      cases nothing
      exact ⟨[], fields, rfl, .nil, isListed⟩
  | cons first front inductionHypothesis =>
      obtain ⟨fields, rest, isListed, later, rfl⟩ := List.forall₂_cons_left_iff.mp listed
      obtain ⟨frontListing, lastFields, rfl, frontListed, lastListed⟩ :=
        inductionHypothesis later
      exact ⟨fields :: frontListing, lastFields, rfl, .cons isListed frontListed, lastListed⟩

theorem filterMap_tabbed (listed : List.Forall₂ ListedAs files listing) :
    (listing.map tabbed).filterMap (fun line => ChangedFile.ofFields? (line.splitOn '\t')) =
      files := by
  induction listed with
  | nil => rfl
  | cons listed _ inductionHypothesis =>
      simp [listed.splitOn_tabbed, listed.ofFields?, inductionHypothesis]

theorem isAscii_listingText (listed : List.Forall₂ ListedAs files listing) :
    Text.IsAscii (listingText listing) := by
  induction listed with
  | nil => simp [listingText, Text.IsAscii]
  | @cons file fields _ _ listed _ inductionHypothesis =>
      rw [listingText, List.map_cons, Text.terminate_cons]
      refine List.forall_mem_append.mpr ⟨fun character membership => ?_,
        List.forall_mem_cons.mpr ⟨by decide, inductionHypothesis⟩⟩
      rcases mem_tabbed membership with rfl | ⟨field, isField, inField⟩
      · decide
      · have upper := (listed.plain field isField character inField).2.1
        omega

/-- Cutting blanks off the ends of a listing cuts them off its last line only. -/
theorem trim_listingText {file : ChangedFile} {fields : List Text}
    (listed : List.Forall₂ ListedAs files listing) (lastListed : ListedAs file fields) :
    Text.trim (listingText (listing ++ [fields])) =
      Text.terminate (listing.map tabbed) ++ Text.trimEnd (tabbed fields) := by
  have written : listingText (listing ++ [fields]) =
      Text.terminate (listing.map tabbed) ++ (tabbed fields ++ ['\n']) := by
    simp [listingText, Text.terminate]
  have solid : ∀ first ∈ (listingText (listing ++ [fields])).head?,
      Text.isBlank first = false := by
    rw [written]
    cases listed with
    | nil =>
        obtain ⟨letter, rest, starts, isSolid⟩ := lastListed.headed
        simpa [starts] using isSolid
    | cons firstListed later =>
        obtain ⟨letter, rest, starts, isSolid⟩ := firstListed.headed
        simpa [starts] using isSolid
  have cut : Text.trimEnd (tabbed fields ++ ['\n']) = Text.trimEnd (tabbed fields) :=
    Text.trimEnd_append (by decide) _
  have kept : Text.trimEnd (tabbed fields) ≠ [] := by
    obtain ⟨letter, rest, starts, isSolid⟩ := lastListed.headed
    rw [starts, Text.trimEnd_cons isSolid]
    exact List.cons_ne_nil _ _
  rw [Text.trim, Text.trimStart_eq_self solid, written,
    Text.trimEnd_append_of_ne_nil _ (cut ▸ kept), cut]

/-- All files but the last are read back from a listing, and of the last one what is
left of its line. -/
theorem parseListing_trim {file : ChangedFile} {fields : List Text}
    (listed : List.Forall₂ ListedAs files listing) (lastListed : ListedAs file fields) :
    ChangedFile.parseListing (Text.trim (listingText (listing ++ [fields]))) =
      files ++
        (ChangedFile.ofFields? ((Text.trimEnd (tabbed fields)).splitOn '\t')).toList := by
  have areLines : ∀ line ∈ listing.map tabbed, Text.IsLine line := by
    simp only [List.forall_mem_map]
    intro other membership
    obtain ⟨index, inRange, rfl⟩ := List.getElem_of_mem membership
    exact (listed.get (listed.length_eq ▸ inRange) inRange).isLine
  have unbroken : '\n' ∉ Text.trimEnd (tabbed fields) := fun membership =>
    lastListed.isLine.1 ((Text.trimEnd_prefix _).subset membership)
  have nonempty : (Text.trimEnd (tabbed fields)).isEmpty = false := by
    obtain ⟨letter, rest, starts, isSolid⟩ := lastListed.headed
    rw [starts, Text.trimEnd_cons isSolid]
    rfl
  rw [trim_listingText listed lastListed, ChangedFile.parseListing,
    Text.lines_terminate_append areLines, Text.lines_last unbroken, nonempty,
    List.filterMap_append, filterMap_tabbed listed, if_neg Bool.false_ne_true]
  cases read : ChangedFile.ofFields? ((Text.trimEnd (tabbed fields)).splitOn '\t') <;>
    simp [read]

variable {world : World} {directory old new : Text} {detectRenames : Bool}
  {complaint : List UInt8}

/-- What is listed is what is read from git's output. -/
theorem outcome_changedFiles (listed : List.Forall₂ ListedAs files listing)
    (answered : world.git directory (listingArguments detectRenames old new) =
      .ok { stdout := Text.encode (listingText listing), stderr := complaint }) :
    (changedFiles world directory detectRenames old new).outcome =
      .ok (ChangedFile.parseListing (Text.trim (listingText listing))) := by
  rw [changedFiles, Run.outcome_bind_eq_ok_iff]
  refine ⟨_, outcome_successfulReply_eq_ok_iff.mpr ⟨answered, rfl⟩, ?_⟩
  rw [Reply.output, Text.decodeLossy_encode (isAscii_listingText listed)]
  rfl

/-- Files are listed as git lists them, each of them wherever it stands, except that the
last one loses the spaces at the end of its path, and is not the same file then. -/
theorem changedFiles_eq_iff (listed : List.Forall₂ ListedAs files listing)
    (answered : world.git directory (listingArguments detectRenames old new) =
      .ok { stdout := Text.encode (listingText listing), stderr := complaint }) :
    (∃ last : Option ChangedFile,
      (changedFiles world directory detectRenames old new).outcome =
        .ok (files.dropLast ++ last.toList) ∧
      ∀ file ∈ files.getLast?, ¬ Text.IsBlankText file.path →
        last = some { file with path := Text.trimEnd file.path }) ∧
    ((changedFiles world directory detectRenames old new).outcome = .ok files ↔
      ∀ file ∈ files.getLast?, file.path.getLast? ≠ some ' ') := by
  rw [outcome_changedFiles listed answered]
  rcases List.eq_nil_or_concat files with rfl | ⟨front, file, isConcat⟩
  · cases listed
    exact ⟨⟨none, rfl, nofun⟩, by simp; rfl⟩
  · rw [List.concat_eq_append] at isConcat
    subst isConcat
    obtain ⟨frontListing, fields, rfl, frontListed, lastListed⟩ := forall₂_concat listed
    rw [parseListing_trim frontListed lastListed, List.dropLast_concat,
      List.getLast?_concat]
    simp only [Except.ok.injEq, List.append_cancel_left_eq, Option.mem_some_iff, forall_eq']
    refine ⟨⟨_, rfl, ofFields?_trimEnd lastListed⟩, ?_⟩
    rw [← ofFields?_trimEnd_iff lastListed]
    cases ChangedFile.ofFields? ((Text.trimEnd (tabbed fields)).splitOn '\t') <;> simp

end Listing

section Sample

/-- Git answers any question with one listing. -/
def listingWorld (listing : List (List Text)) : World where
  workingDirectory := ['/']
  time := []
  entry _ := .ok .directory
  git _ _ := .ok { stdout := Text.encode (listingText listing) }

/-- A file moved away from a path that starts with a space, one whose path ends in
spaces, one whose type has changed and one that is new. -/
def mixedFiles : List ChangedFile :=
  [{ path := "b c".toList, status := .renamed " a".toList },
   { path := "d  ".toList, status := .modified },
   { path := "e".toList, status := .other ['T'] },
   { path := "f g".toList, status := .added }]

def mixedListing : List (List Text) :=
  [["R087", " a", "b c"], ["M", "d  "], ["T", "e"], ["A", "f g"]].map (·.map String.toList)

theorem mixedFiles_listed : List.Forall₂ ListedAs mixedFiles mixedListing :=
  .cons (.renamed (by decide) (by decide) (by decide))
    (.cons (.modified (by decide))
      (.cons (.other ⟨⟨'T', rfl, by decide⟩, by decide⟩ (by decide))
        (.cons (.added (by decide)) .nil)))

theorem changedFiles_eq_iff_mixed :
    List.Forall₂ ListedAs mixedFiles mixedListing ∧
      (listingWorld mixedListing).git [] (listingArguments true ['o'] ['n']) =
        .ok { stdout := Text.encode (listingText mixedListing), stderr := [] } ∧
      (changedFiles (listingWorld mixedListing) [] true ['o'] ['n']).outcome = .ok mixedFiles :=
  ⟨mixedFiles_listed, rfl, (changedFiles_eq_iff mixedFiles_listed rfl).2.mpr (by decide)⟩

/-- Two files whose paths end in a space, of which the second one is read without it. -/
theorem changedFiles_trims_last :
    let file (path : String) : ChangedFile := { path := path.toList, status := .modified }
    let listing := [[['M'], "a ".toList], [['M'], "b ".toList]]
    List.Forall₂ ListedAs [file "a ", file "b "] listing ∧
      (changedFiles (listingWorld listing) [] true ['o'] ['n']).outcome =
        .ok [file "a ", file "b"] ∧
      [file "a ", file "b"] ≠ [file "a ", file "b "] :=
  ⟨.cons (.modified (by decide)) (.cons (.modified (by decide)) .nil), rfl, by decide⟩

end Sample

end ChangeCoverage.Git
