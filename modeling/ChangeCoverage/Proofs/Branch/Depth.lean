import Mathlib.Data.List.Perm.Subperm
import ChangeCoverage.Proofs.Branch.Growth
import ChangeCoverage.Proofs.Source.MaskedScopes
import ChangeCoverage.Proofs.Source.OpenBody
import ChangeCoverage.Proofs.Text.Offset

/-!
The depth of a header.  Scopes and branches are found in two passes that both count
braces.  Behind every line the two depths are the same, and the depth at which a
branch opens is counted on from there through the line up to its header, whichever
lines have changed.
-/

namespace ChangeCoverage.Text

/-- The text before a byte offset. -/
def takeBytes (offset : Nat) (text : Text) : Text :=
  ((splitAt? offset text).map (·.1)).getD text

theorem takeBytes_zero (text : Text) : takeBytes 0 text = [] := by
  rw [takeBytes, splitAt?.eq_def]
  rfl

theorem takeBytes_append (front back : Text) :
    takeBytes (byteSize front) (front ++ back) = front := by
  rw [takeBytes, splitAt?_append]
  rfl

theorem takeBytes_cons (character : Char) (rest : Text) (offset : Nat) :
    takeBytes (character.utf8Size + offset) (character :: rest) =
      character :: takeBytes offset rest := by
  have positive := character.utf8Size_pos
  obtain ⟨before, sum⟩ : ∃ before, character.utf8Size + offset = before + 1 :=
    ⟨character.utf8Size + offset - 1, by omega⟩
  have left : before + 1 - character.utf8Size = offset := by omega
  rw [takeBytes, takeBytes, sum, splitAt?, if_pos (by omega), left]
  cases splitAt? offset rest <;> rfl

end ChangeCoverage.Text

namespace ChangeCoverage.Branch

open Source (Brace ScopeEntry ScopeState LexState depthAfter)

/-- The depth behind a mark. -/
def Mark.depthFrom (depth : Nat) : Mark → Nat
  | .brace _ met => met.depthFrom depth
  | _ => depth

namespace Progress

variable {changed : List Nat} {progress : Progress}

theorem depth_closeWhile (lastLine : Nat) (ends : Branch → Bool) :
    (progress.closeWhile changed lastLine ends).depth = progress.depth := by
  rw [closeWhile, foldl_close]

/-- Only a brace changes the depth: ending branches leaves it alone. -/
theorem depth_passMark (mark : Mark) :
    (progress.passMark changed mark).depth = mark.depthFrom progress.depth := by
  cases mark with
  | brace line met =>
      cases met with
      | opening => rfl
      | closing => exact depth_closeWhile line _
  | lineEnd line =>
      rw [passMark, closeInline_eq]
      rfl
  | header line header =>
      rw [passMark_header]
      change (if _ then _ else progress).depth = progress.depth
      split
      · exact depth_closeWhile _ _
      · rfl

theorem depth_foldl_passMark (marks : List Mark) :
    (marks.foldl (passMark changed) progress).depth =
      marks.foldl Mark.depthFrom progress.depth := by
  induction marks generalizing progress with
  | nil => rfl
  | cons mark later inductionHypothesis =>
      rw [List.foldl_cons, inductionHypothesis, depth_passMark, List.foldl_cons]

end Progress

section Line

variable {fileEnd depth : Nat} (line : SourceLine)

theorem foldl_depthFrom_braces (number : Nat) (found : List Brace) :
    (found.map (Mark.brace number)).foldl Mark.depthFrom depth = depthAfter depth found :=
  List.foldl_map

theorem extentsFrom_braces (number : Nat) (found : List Brace) (later : List Mark) :
    extentsFrom fileEnd depth (found.map (Mark.brace number) ++ later) =
      extentsFrom fileEnd (depthAfter depth found) later := by
  induction found generalizing depth with
  | nil => rfl
  | cons met others inductionHypothesis =>
      cases met <;> exact inductionHypothesis

/-- The branch of a header on a line that starts at a depth, with some text before it. -/
def Header.branchBehind (header : Header) (depth : Nat) (before : Text) : Branch :=
  header.branchAt line (depthAfter depth (Source.braces before))

/-- Passing a character moves its brace from the text before the headers to the depth. -/
theorem map_branchBehind_takeBytes {offset : Nat} {character : Char} (rest : Text)
    {found : List Header}
    (behind : ∀ header ∈ found, offset + character.utf8Size ≤ header.column) :
    (found.map fun header => header.branchBehind line depth
        (Text.takeBytes (header.column - offset) (character :: rest))) =
      found.map fun header =>
        header.branchBehind line (depthAfter depth (Source.braces [character]))
          (Text.takeBytes (header.column - (offset + character.utf8Size)) rest) := by
  apply List.map_congr_left
  intro header membership
  have far := behind header membership
  have distance : header.column - offset =
      character.utf8Size + (header.column - (offset + character.utf8Size)) := by omega
  rw [distance, Text.takeBytes_cons, Header.branchBehind, Source.braces_cons,
    Source.depthAfter_append]
  rfl

theorem marksFrom_nil (offset : Nat) (text : Text) :
    marksFrom line [] offset text = (Source.braces text).map (.brace line.number) := by
  induction text generalizing offset with
  | nil => rfl
  | cons character rest inductionHypothesis =>
      rw [marksFrom_skip line rest (by simp), inductionHypothesis,
        Source.braces_cons character rest, List.map_append]

/-- The headers on a line open branches at the depths that its braces lead to. -/
theorem branches_marksFrom {offset : Nat} {text : Text} {found : List Header}
    (placed : Placed offset text found) (later : List Mark) :
    (extentsFrom fileEnd depth (marksFrom line found offset text ++ later)).map (·.branch) =
      (found.map fun header =>
        header.branchBehind line depth (Text.takeBytes (header.column - offset) text)) ++
      (extentsFrom fileEnd (depthAfter depth (Source.braces text)) later).map (·.branch) := by
  induction placed generalizing depth with
  | none offset text => rw [marksFrom_nil, extentsFrom_braces, List.map_nil, List.nil_append]
  | @skip offset character rest found placed inductionHypothesis =>
      rw [marksFrom_skip line rest placed.le_column, List.append_assoc, extentsFrom_braces,
        inductionHypothesis, map_branchBehind_takeBytes line rest placed.le_column,
        Source.braces_cons character rest, Source.depthAfter_append]
  | @here offset character rest header others atOffset placed inductionHypothesis =>
      have here : header.branchBehind line depth
          (Text.takeBytes (header.column - offset) (character :: rest)) =
            header.branchAt line depth := by
        rw [atOffset, Nat.sub_self, Text.takeBytes_zero]
        rfl
      rw [marksFrom_here line rest atOffset placed.le_column, List.cons_append, extentsFrom,
        List.append_assoc, extentsFrom_braces, List.map_cons, inductionHypothesis, List.map_cons,
        here, map_branchBehind_takeBytes line rest placed.le_column,
        Source.braces_cons character rest, Source.depthAfter_append]
      rfl

end Line

/-- A header and the line that it stands on. -/
structure Site where
  line : SourceLine
  header : Header

/-- The headers of a file in reading order. -/
def sites (fileLines : List Text) (scopes : List ScopeEntry) : List Site :=
  (sourceLines 1 .code fileLines scopes).flatMap fun line =>
    (headers line.masked line.raw).map (Site.mk line)

/-- The branch of a header at the depth to which the scopes of the lines before it lead,
and from there the braces before it on its own line. -/
def Site.branch (fileLines : List Text) (site : Site) : Branch :=
  site.header.branchBehind site.line
    (ScopeState.after {} (fileLines.take (site.line.number - 1))).depth
    (Text.takeBytes site.header.column site.line.masked)

section File

variable {fileEnd depth : Nat}

theorem lexState_advance (state : ScopeState) (raw : Text) :
    (state.advance raw).1.lexState = (Source.maskLine raw state.lexState).2.atLineEnd := by
  rw [ScopeState.advance_eq]
  rfl

/-- Lines are masked alike where scopes and where branches are found. -/
theorem sourceLines_cons (state : ScopeState) (number : Nat) (raw : Text) (rest : List Text)
    (entries : List ScopeEntry) :
    sourceLines number state.lexState (raw :: rest) entries =
      { number, raw, masked := state.maskedLine raw, scope := entries.head?.getD {} } ::
        sourceLines (number + 1) (state.advance raw).1.lexState rest entries.tail := by
  rw [lexState_advance]
  rfl

theorem branches_lineMarks (hot : Bool) (line : SourceLine) (later : List Mark) :
    (extentsFrom fileEnd depth (lineMarks hot line ++ later)).map (·.branch) =
      ((if hot then headers line.masked line.raw else []).map fun header =>
        header.branchBehind line depth (Text.takeBytes header.column line.masked)) ++
      (extentsFrom fileEnd (depthAfter depth (Source.braces line.masked)) later).map
        (·.branch) := by
  have placed : Placed 0 line.masked (if hot then headers line.masked line.raw else []) := by
    split
    · exact placed_headers line.masked line.raw
    · exact .none 0 line.masked
  rw [lineMarks, List.append_assoc, branches_marksFrom line placed]
  rfl

/-- The lines of a file open branches at the depths to which its scopes lead. -/
theorem branches_fileMarks (fileEnd : Nat) (hot : SourceLine → Bool) (state : ScopeState)
    (number : Nat) (fileLines : List Text) (entries : List ScopeEntry) :
    (extentsFrom fileEnd state.depth
        ((sourceLines number state.lexState fileLines entries).flatMap fun line =>
          lineMarks (hot line) line)).map (·.branch) =
      (sourceLines number state.lexState fileLines entries).flatMap fun line =>
        (if hot line then headers line.masked line.raw else []).map fun header =>
          header.branchBehind line (state.after (fileLines.take (line.number - number))).depth
            (Text.takeBytes header.column line.masked) := by
  induction fileLines generalizing state number entries with
  | nil => rfl
  | cons raw rest inductionHypothesis =>
      have reached := inductionHypothesis (state.advance raw).1 (number + 1) entries.tail
      rw [ScopeState.depth_advance] at reached
      rw [sourceLines_cons, List.flatMap_cons, branches_lineMarks, List.flatMap_cons]
      refine congrArg₂ (· ++ ·) ?_ (reached.trans ?_)
      · simp only [Nat.sub_self, List.take_zero]
        rfl
      · apply List.flatMap_congr
        intro line membership
        have behind := (pairwise_sourceLines (number + 1) _ rest entries.tail).1 line membership
        have distance : line.number - number = line.number - (number + 1) + 1 := by omega
        rw [distance, List.take_succ_cons]
        rfl

theorem filter_sites_line (counts : ScopeEntry → Bool) (line : SourceLine) (found : List Header) :
    (found.map (Site.mk line)).filter (counts ·.line.scope) =
      (if counts line.scope then found else []).map (Site.mk line) := by
  rw [List.filter_map]
  cases counted : counts line.scope <;> simp [Function.comp_def, counted]

/-- The branches whose headers count are those of the sites in hot scopes, at depths that
do not depend on what has changed. -/
theorem map_branch_extents (fileLines : List Text) (scopes : List ScopeEntry)
    (changed : List Nat) :
    (extents fileLines scopes changed).map (·.branch) =
      ((sites fileLines scopes).filter (isHot scopes changed ·.line.scope)).map
        (Site.branch fileLines) := by
  rw [extents, fileMarks]
  refine (branches_fileMarks fileLines.length _ {} 1 fileLines scopes).trans ?_
  rw [sites, List.filter_flatMap, List.map_flatMap]
  apply List.flatMap_congr
  intro line _
  rw [filter_sites_line, List.map_map]
  rfl

/-- Every extraction picks its branches out of one list, each of them at most as often as
it stands there. -/
theorem extract_subperm (fileLines : List Text) (scopes : List ScopeEntry)
    (changed : List Nat) :
    (extract fileLines scopes changed).Subperm
      ((sites fileLines scopes).map (Site.branch fileLines)) := by
  have touched : (((extents fileLines scopes changed).filter (·.touchedBy changed)).map
      (·.branch)).Sublist ((extents fileLines scopes changed).map (·.branch)) :=
    List.filter_sublist.map _
  rw [map_branch_extents] at touched
  have hot : (((sites fileLines scopes).filter (isHot scopes changed ·.line.scope)).map
      (Site.branch fileLines)).Sublist ((sites fileLines scopes).map (Site.branch fileLines)) :=
    List.filter_sublist.map _
  exact (extract_perm_ahead fileLines scopes changed).subperm.trans (touched.trans hot).subperm

theorem mem_sourceLines (state : ScopeState) {number : Nat} {fileLines : List Text}
    {entries : List ScopeEntry} :
    ∀ line ∈ sourceLines number state.lexState fileLines entries,
      ∃ front raw back, fileLines = front ++ raw :: back ∧
        line = { number := number + front.length, raw,
                 masked := (state.after front).maskedLine raw,
                 scope := entries[front.length]?.getD {} } := by
  induction fileLines generalizing state number entries with
  | nil => exact fun line membership => absurd membership List.not_mem_nil
  | cons raw rest inductionHypothesis =>
      intro line membership
      rw [sourceLines_cons, List.mem_cons] at membership
      rcases membership with rfl | later
      · refine ⟨[], raw, rest, rfl, ?_⟩
        rw [List.head?_eq_getElem?]
        rfl
      · obtain ⟨front, found, back, rfl, rfl⟩ :=
          inductionHypothesis (state.advance raw).1 line later
        refine ⟨raw :: front, found, back, rfl, ?_⟩
        rw [List.getElem?_tail, List.length_cons, Nat.add_assoc, Nat.add_comm 1]
        rfl

/-- A header stands at a character of its line. -/
theorem Placed.split {offset : Nat} {text : Text} {found : List Header}
    (placed : Placed offset text found) :
    ∀ header ∈ found, ∃ before behind, text = before ++ behind ∧
      header.column = offset + Text.byteSize before := by
  induction placed with
  | none => exact fun header membership => absurd membership List.not_mem_nil
  | @skip offset character rest found placed inductionHypothesis =>
      intro header membership
      obtain ⟨before, behind, rfl, columnEq⟩ := inductionHypothesis header membership
      refine ⟨character :: before, behind, rfl, ?_⟩
      rw [columnEq, Text.byteSize_cons, Nat.add_assoc]
  | @here offset character rest first later atOffset placed inductionHypothesis =>
      intro header membership
      rcases List.mem_cons.mp membership with rfl | behindFirst
      · exact ⟨[], character :: rest, rfl, atOffset⟩
      · obtain ⟨before, behind, rfl, columnEq⟩ := inductionHypothesis header behindFirst
        refine ⟨character :: before, behind, rfl, ?_⟩
        rw [columnEq, Text.byteSize_cons, Nat.add_assoc]

end File

section Sweep

variable {changed : List Nat} {depth : Nat}

theorem foldl_depthFrom_headers (line : SourceLine) (found : List Header) :
    (found.map (Mark.header line)).foldl Mark.depthFrom depth = depth := by
  induction found with
  | nil => rfl
  | cons header later inductionHypothesis => exact inductionHypothesis

theorem foldl_depthFrom_marksFrom (line : SourceLine) (found : List Header) (offset : Nat)
    (text : Text) :
    (marksFrom line found offset text).foldl Mark.depthFrom depth =
      depthAfter depth (Source.braces text) := by
  induction text generalizing offset depth with
  | nil => rfl
  | cons character rest inductionHypothesis =>
      rw [marksFrom, List.foldl_append, List.foldl_append, foldl_depthFrom_headers,
        foldl_depthFrom_braces, inductionHypothesis, Source.braces_cons character rest,
        Source.depthAfter_append]

/-- Behind some lines the marks have led to the depth of the scopes. -/
theorem foldl_depthFrom_fileMarks (hot : SourceLine → Bool) (state : ScopeState) (number : Nat)
    (fileLines : List Text) (entries : List ScopeEntry) :
    ((sourceLines number state.lexState fileLines entries).flatMap fun line =>
        lineMarks (hot line) line).foldl Mark.depthFrom state.depth =
      (state.after fileLines).depth := by
  induction fileLines generalizing state number entries with
  | nil => rfl
  | cons raw rest inductionHypothesis =>
      have reached := inductionHypothesis (state.advance raw).1 (number + 1) entries.tail
      rw [ScopeState.depth_advance] at reached
      rw [sourceLines_cons, List.flatMap_cons, List.foldl_append, lineMarks, List.foldl_append,
        foldl_depthFrom_marksFrom]
      exact reached

namespace Progress

theorem depth_passLines (fileLines : List Text) (scopes entries : List ScopeEntry) :
    (passLines changed (hotScopes scopes changed) 1 .code {} fileLines entries).depth =
      (ScopeState.after {} fileLines).depth := by
  rw [passLines_eq changed scopes settled_start, depth_foldl_passMark]
  exact foldl_depthFrom_fileMarks _ {} 1 fileLines entries

/-- The lines of a file are passed from the progress that the lines before them leave. -/
theorem passLines_append (hot : List ScopeEntry) (state : ScopeState) (number : Nat)
    (progress : Progress) (front back : List Text) (entries : List ScopeEntry) :
    passLines changed hot number state.lexState progress (front ++ back) entries =
      passLines changed hot (number + front.length) (state.after front).lexState
        (passLines changed hot number state.lexState progress front entries) back
        (entries.drop front.length) := by
  induction front generalizing state number progress entries with
  | nil => rfl
  | cons raw rest inductionHypothesis =>
      have reached := inductionHypothesis (state.advance raw).1 (number + 1)
      rw [lexState_advance] at reached
      rw [List.cons_append, passLines]
      refine (reached _ entries.tail).trans ?_
      rw [List.drop_tail, Nat.add_assoc, Nat.add_comm 1]
      rfl

end Progress

end Sweep

/-- The branch of a site, spelled out. -/
theorem branch_of_mem_sites {fileLines : List Text} {scopes : List ScopeEntry} {site : Site}
    (membership : site ∈ sites fileLines scopes) :
    ∃ front raw back before behind,
      fileLines = front ++ raw :: back ∧
      site.header ∈ headers ((ScopeState.after {} front).maskedLine raw) raw ∧
      (ScopeState.after {} front).maskedLine raw = before ++ behind ∧
      site.header.column = Text.byteSize before ∧
      site.branch fileLines =
        { scope := scopes[front.length]?.getD {}, kind := site.header.kind,
          condition := site.header.condition, startLine := front.length + 1,
          depth := depthAfter (ScopeState.after {} front).depth (Source.braces before) } := by
  obtain ⟨line, isLine, isSite⟩ := List.mem_flatMap.mp membership
  obtain ⟨header, isHeader, rfl⟩ := List.mem_map.mp isSite
  obtain ⟨front, raw, back, rfl, rfl⟩ := mem_sourceLines {} line isLine
  have isFound : header ∈ headers ((ScopeState.after {} front).maskedLine raw) raw := isHeader
  obtain ⟨before, behind, split, columnEq⟩ := (placed_headers _ raw).split header isFound
  rw [Nat.zero_add] at columnEq
  refine ⟨front, raw, back, before, behind, rfl, isFound, split, columnEq, ?_⟩
  have lines : (front ++ raw :: back).take (front.length + 1 - 1) = front := by
    rw [Nat.add_sub_cancel, List.take_left]
  have text : Text.takeBytes header.column ((ScopeState.after {} front).maskedLine raw) =
      before := by
    rw [split, columnEq, Text.takeBytes_append]
  simp only [Site.branch, Header.branchBehind, Header.branchAt, Nat.add_comm 1, lines, text]

/-- Every branch stems from a header, and its depth is that of the scopes behind the
lines before, counted on through its line up to the header.  All extractions pick from
one list of branches, whatever has changed, and behind every line the sweep stands at
the depth of the scopes. -/
theorem extract_depths (fileLines : List Text) (scopes : List ScopeEntry)
    (changed : List Nat) :
    (∀ branch ∈ extract fileLines scopes changed,
        ∃ front raw back before behind header,
          fileLines = front ++ raw :: back ∧
          header ∈ headers ((ScopeState.after {} front).maskedLine raw) raw ∧
          (ScopeState.after {} front).maskedLine raw = before ++ behind ∧
          header.column = Text.byteSize before ∧
          branch =
            { scope := scopes[front.length]?.getD {}, kind := header.kind,
              condition := header.condition, startLine := front.length + 1,
              depth := depthAfter (ScopeState.after {} front).depth (Source.braces before) }) ∧
      (extract fileLines scopes changed).Subperm
        ((sites fileLines scopes).map (Site.branch fileLines)) ∧
      ∀ front back, fileLines = front ++ back →
        let hot := hotScopes scopes changed
        let reached := Progress.passLines changed hot 1 .code {} front scopes
        Progress.passLines changed hot 1 .code {} fileLines scopes =
            Progress.passLines changed hot (1 + front.length)
              (ScopeState.after {} front).lexState reached back (scopes.drop front.length) ∧
          reached.depth = (ScopeState.after {} front).depth := by
  have picked := extract_subperm fileLines scopes changed
  refine ⟨?_, picked, ?_⟩
  · intro branch membership
    obtain ⟨site, isSite, rfl⟩ := List.mem_map.mp (picked.subset membership)
    obtain ⟨front, raw, back, before, behind, stands⟩ := branch_of_mem_sites isSite
    exact ⟨front, raw, back, before, behind, site.header, stands⟩
  · rintro front back rfl
    exact ⟨Progress.passLines_append _ {} 1 {} front back scopes,
      Progress.depth_passLines front scopes scopes⟩

section Sample

/-- A file in which a condition is chained to a block that ends on its line. -/
def chainedLines : List Text :=
  ["class A \x7b", "  void M() \x7b", "    if (a) \x7b", "      b();",
    "    \x7d else if (c) \x7b", "      d();", "    \x7d", "  \x7d", "\x7d"].map String.toList

def chainedBranch : Branch where
  scope := { typeName := some ['A'], methodName := some ['M'] }
  kind := .elseIfHeader
  condition := "else if (c)".toList
  startLine := 5
  depth := 2

end Sample

/-- The brace before the header has closed the first block, and the line starts one deeper. -/
theorem extract_depths_chained :
    chainedBranch ∈ extract chainedLines (Source.scopeEntries chainedLines) [6] ∧
      ∃ front raw back before behind header,
        chainedLines = front ++ raw :: back ∧
        header ∈ headers ((ScopeState.after {} front).maskedLine raw) raw ∧
        (ScopeState.after {} front).maskedLine raw = before ++ behind ∧
        header.column = Text.byteSize before ∧
        chainedBranch =
          { scope := (Source.scopeEntries chainedLines)[front.length]?.getD {},
            kind := header.kind, condition := header.condition, startLine := front.length + 1,
            depth := depthAfter (ScopeState.after {} front).depth (Source.braces before) } := by
  have extracted :
      chainedBranch ∈ extract chainedLines (Source.scopeEntries chainedLines) [6] := by
    decide +kernel
  exact ⟨extracted,
    (extract_depths chainedLines (Source.scopeEntries chainedLines) [6]).1 _ extracted⟩

end ChangeCoverage.Branch
