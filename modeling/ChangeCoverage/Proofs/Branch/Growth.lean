import ChangeCoverage.Proofs.Branch.Extraction

/-!
More changed lines.  With them more scopes hold a changed line, so that headers
count which did not count before.  A label among these may end a branch early,
on lines that have not changed; no other branch is lost.
-/

namespace ChangeCoverage.Branch

open Source (ScopeEntry LexState)

variable {counts : ScopeEntry → Bool} {fileEnd : Nat}

/-- Whether a mark remains if the headers of some scopes only count. -/
def Mark.remains (counts : ScopeEntry → Bool) : Mark → Bool
  | .header line _ => counts line.scope
  | _ => true

/-- Headers stand in the order of their lines, and a line has one scope. -/
def Mark.Precedes : Mark → Mark → Prop
  | .header earlier _, .header later _ =>
      earlier.scope = later.scope ∨ earlier.number < later.number
  | _, _ => True

section Remaining

theorem isHot_mono {scopes : List ScopeEntry} {changed more : List Nat} (grown : changed ⊆ more)
    {scope : ScopeEntry} (hot : isHot scopes changed scope = true) :
    isHot scopes more scope = true := by
  obtain ⟨number, membership, holds⟩ := List.any_eq_true.mp hot
  exact List.any_eq_true.mpr ⟨number, grown membership, holds⟩

theorem filter_marksFrom (line : SourceLine) (found : List Header) (offset : Nat) (text : Text) :
    (marksFrom line found offset text).filter (Mark.remains counts) =
      marksFrom line (if counts line.scope then found else []) offset text := by
  have braces (found : List Source.Brace) :
      (found.map (Mark.brace line.number)).filter (Mark.remains counts) =
        found.map (Mark.brace line.number) :=
    List.filter_eq_self.mpr fun mark membership => by
      obtain ⟨brace, _, rfl⟩ := List.mem_map.mp membership
      rfl
  have headers (found : List Header) :
      (found.map (Mark.header line)).filter (Mark.remains counts) =
        (if counts line.scope then found else []).map (Mark.header line) := by
    induction found with
    | nil => simp
    | cons header later inductionHypothesis =>
        cases counted : counts line.scope <;>
          simp [Mark.remains, counted] at inductionHypothesis ⊢
  induction text generalizing offset with
  | nil => rfl
  | cons character rest inductionHypothesis =>
      simp only [marksFrom, List.filter_append, inductionHypothesis, braces, headers]
      split <;> rfl

/-- With fewer hot scopes the same marks remain but for headers of the others. -/
theorem fileMarks_of_subset (fileLines : List Text) (scopes : List ScopeEntry)
    {changed more : List Nat} (grown : changed ⊆ more) :
    fileMarks fileLines scopes changed =
      (fileMarks fileLines scopes more).filter (Mark.remains (isHot scopes changed)) := by
  rw [fileMarks, fileMarks, List.filter_flatMap]
  congr 1
  funext line
  rw [lineMarks, lineMarks, List.filter_append, filter_marksFrom]
  congr 2
  cases hot : isHot scopes changed line.scope with
  | false => rfl
  | true => simp [isHot_mono grown hot]

end Remaining

section Order

theorem pairwise_sourceLines (number : Nat) (lexState : LexState) (fileLines : List Text)
    (scopes : List ScopeEntry) :
    (∀ line ∈ sourceLines number lexState fileLines scopes, number ≤ line.number) ∧
      (sourceLines number lexState fileLines scopes).Pairwise
        fun earlier later => earlier.number < later.number := by
  induction fileLines generalizing number lexState scopes with
  | nil => exact ⟨fun line membership => absurd membership List.not_mem_nil, .nil⟩
  | cons raw rest inductionHypothesis =>
      obtain ⟨behind, ordered⟩ := inductionHypothesis (number + 1)
        (Source.maskLine raw lexState).2.atLineEnd scopes.tail
      refine ⟨?_, List.pairwise_cons.mpr ⟨behind, ordered⟩⟩
      intro line membership
      rcases List.mem_cons.mp membership with rfl | later
      · exact Nat.le_refl number
      · exact Nat.le_of_succ_le (behind line later)

theorem pairwise_fileMarks (fileLines : List Text) (scopes : List ScopeEntry)
    (changed : List Nat) : (fileMarks fileLines scopes changed).Pairwise Mark.Precedes := by
  rw [fileMarks, List.pairwise_flatMap]
  constructor
  · intro line _
    refine List.pairwise_of_forall_mem_list fun earlier earlierIn later laterIn => ?_
    cases earlier with
    | header first _ =>
        cases later with
        | header second _ =>
            left
            rw [(header_of_mem_lineMarks earlierIn).1, (header_of_mem_lineMarks laterIn).1]
        | _ => trivial
    | _ => trivial
  · refine (pairwise_sourceLines 1 .code fileLines scopes).2.imp ?_
    intro line next ordered earlier earlierIn later laterIn
    cases earlier with
    | header first _ =>
        cases later with
        | header second _ =>
            right
            rw [(header_of_mem_lineMarks earlierIn).1, (header_of_mem_lineMarks laterIn).1]
            exact ordered
        | _ => trivial
    | _ => trivial

end Order

/-- The label of an extent ends a branch, and stands in a scope whose headers
did not count. -/
structure Extent.EndsNewly (counts : ScopeEntry → Bool) (branch : Branch) (label : Extent) :
    Prop where
  isLabel : label.branch.kind.isLabel = true
  uncounted : counts label.branch.scope = false
  depth_le : label.branch.depth ≤ branch.depth

/-- A branch ends as before, unless a label that now counts ends it. -/
theorem lastLine_filter (branch : Branch) (inline : Bool) (depth : Nat) (marks : List Mark) :
    lastLine branch inline fileEnd depth (marks.filter (Mark.remains counts)) =
        lastLine branch inline fileEnd depth marks ∨
      ∃ label ∈ extentsFrom fileEnd depth marks, label.EndsNewly counts branch ∧
        lastLine branch inline fileEnd depth marks = label.branch.startLine - 1 := by
  induction marks generalizing depth with
  | nil => exact .inl rfl
  | cons mark later inductionHypothesis =>
      cases mark with
      | brace line brace =>
          rw [List.filter_cons_of_pos rfl]
          cases brace with
          | opening => exact inductionHypothesis (depth + 1)
          | closing =>
              simp only [lastLine, extentsFrom, leaves]
              split
              next ended => exact .inl rfl
              next stays => exact inductionHypothesis (depth - 1)
      | lineEnd line =>
          rw [List.filter_cons_of_pos rfl]
          simp only [lastLine, extentsFrom]
          split
          next ended => exact .inl rfl
          next stays => exact inductionHypothesis depth
      | header line header =>
          -- A label among the later marks is one of all marks.
          have widened : lastLine branch inline fileEnd depth
                (later.filter (Mark.remains counts)) =
                lastLine branch inline fileEnd depth later ∨
              ∃ label ∈ extentsFrom fileEnd depth (.header line header :: later),
                label.EndsNewly counts branch ∧
                  lastLine branch inline fileEnd depth later =
                    label.branch.startLine - 1 := by
            rcases inductionHypothesis depth with same | ⟨label, found, newly, cut⟩
            · exact .inl same
            · exact .inr ⟨label, List.mem_cons_of_mem _ found, newly, cut⟩
          cases counted : counts line.scope with
          | true =>
              rw [List.filter_cons_of_pos (by simpa [Mark.remains] using counted)]
              simp only [lastLine]
              split
              next ended => exact .inl rfl
              next stays => exact widened
          | false =>
              rw [List.filter_cons_of_neg (by simp [Mark.remains, counted])]
              simp only [lastLine]
              split
              next ended =>
                rw [Bool.and_eq_true, decide_eq_true_eq] at ended
                exact .inr ⟨_, List.mem_cons_self, ⟨ended.1, counted, ended.2⟩, rfl⟩
              next stays => exact widened

/-- An extent is that of a header, followed from a depth through the marks behind it. -/
theorem header_of_mem_extentsFrom {depth : Nat} {marks : List Mark} {extent : Extent}
    (membership : extent ∈ extentsFrom fileEnd depth marks) :
    ∃ before line header behind reached, marks = before ++ .header line header :: behind ∧
      extent =
        { branch := header.branchAt line reached,
          last := lastLine (header.branchAt line reached) (header.isInline line.masked) fileEnd
            reached behind } := by
  induction marks generalizing depth with
  | nil => exact absurd membership List.not_mem_nil
  | cons mark later inductionHypothesis =>
      have passed {reached : Nat} (found : extent ∈ extentsFrom fileEnd reached later) :
          ∃ before line header behind reached,
            mark :: later = before ++ .header line header :: behind ∧
              extent =
                { branch := header.branchAt line reached,
                  last := lastLine (header.branchAt line reached) (header.isInline line.masked)
                    fileEnd reached behind } := by
        obtain ⟨before, line, header, behind, reached, rfl, extentEq⟩ := inductionHypothesis found
        exact ⟨mark :: before, line, header, behind, reached, rfl, extentEq⟩
      cases mark with
      | brace line brace => exact passed membership
      | lineEnd line => exact passed membership
      | header line header =>
          rcases List.mem_cons.mp membership with rfl | behind
          · exact ⟨[], line, header, later, depth, rfl, rfl⟩
          · exact passed behind

/-- Among more marks each branch is found again.  It has the same last line, or
a label that now counts ends it on the line before. -/
theorem extentsFrom_filter {depth : Nat} {marks : List Mark}
    (ordered : marks.Pairwise Mark.Precedes) {extent : Extent}
    (membership : extent ∈ extentsFrom fileEnd depth (marks.filter (Mark.remains counts))) :
    extent ∈ extentsFrom fileEnd depth marks ∨
      ∃ label ∈ extentsFrom fileEnd depth marks, label.EndsNewly counts extent.branch ∧
        extent.branch.startLine < label.branch.startLine ∧
        { extent with last := label.branch.startLine - 1 } ∈ extentsFrom fileEnd depth marks := by
  induction marks generalizing depth with
  | nil => exact absurd membership List.not_mem_nil
  | cons mark later inductionHypothesis =>
      rw [List.pairwise_cons] at ordered
      obtain ⟨precedes, laterOrdered⟩ := ordered
      cases mark with
      | brace line brace =>
          rw [List.filter_cons_of_pos rfl] at membership
          exact inductionHypothesis laterOrdered membership
      | lineEnd line =>
          rw [List.filter_cons_of_pos rfl] at membership
          exact inductionHypothesis laterOrdered membership
      | header line header =>
          have widened (behind : extent ∈
              extentsFrom fileEnd depth (later.filter (Mark.remains counts))) :
              extent ∈ extentsFrom fileEnd depth (.header line header :: later) ∨
                ∃ label ∈ extentsFrom fileEnd depth (.header line header :: later),
                  label.EndsNewly counts extent.branch ∧
                  extent.branch.startLine < label.branch.startLine ∧
                  { extent with last := label.branch.startLine - 1 } ∈
                    extentsFrom fileEnd depth (.header line header :: later) :=
            (inductionHypothesis laterOrdered behind).imp (List.mem_cons_of_mem _)
              fun ⟨label, found, newly, lt, cut⟩ =>
                ⟨label, List.mem_cons_of_mem _ found, newly, lt, List.mem_cons_of_mem _ cut⟩
          cases counted : counts line.scope with
          | false =>
              rw [List.filter_cons_of_neg (by simp [Mark.remains, counted])] at membership
              exact widened membership
          | true =>
              rw [List.filter_cons_of_pos (by simpa [Mark.remains] using counted)] at membership
              rcases List.mem_cons.mp membership with rfl | behind
              · rcases lastLine_filter (header.branchAt line depth) (header.isInline line.masked)
                  depth later with same | ⟨label, found, newly, cut⟩
                · left
                  rw [same]
                  exact List.mem_cons_self
                · right
                  refine ⟨label, List.mem_cons_of_mem _ found, newly, ?_, ?_⟩
                  · -- The label's scope does not count, so it is on another line.
                    obtain ⟨before, other, otherHeader, behind, reached, split, rfl⟩ :=
                      header_of_mem_extentsFrom found
                    have marked : .header other otherHeader ∈ later := by
                      rw [split]
                      exact List.mem_append_right before List.mem_cons_self
                    rcases precedes _ marked with sameScope | lt
                    · have uncounted : counts other.scope = false := newly.uncounted
                      rw [← sameScope, counted] at uncounted
                      exact absurd uncounted (by decide)
                    · exact lt
                  · rw [← cut]
                    exact List.mem_cons_self
              · exact widened behind

/-- A label that counts only with more changed lines cuts the extent of a branch
short, and none of these lines is left in it. -/
structure Extent.Cuts (scopes : List ScopeEntry) (changed more : List Nat)
    (label extent : Extent) : Prop where
  newly : label.EndsNewly (isHot scopes changed) extent.branch
  behind : extent.branch.startLine < label.branch.startLine
  within : label.branch.startLine ≤ extent.last
  untouched : touches more extent.branch.startLine (label.branch.startLine - 1) = false

/-- A branch is not lost when more lines have changed, unless a label of a scope
that has changed only then ends it before any changed line. -/
theorem mem_extract_or_cut {fileLines : List Text} {changed more : List Nat}
    (grown : changed ⊆ more) {branch : Branch}
    (extracted : branch ∈ extract fileLines (Source.scopeEntries fileLines) changed) :
    let scopes := Source.scopeEntries fileLines
    branch ∈ extract fileLines scopes more ∨
      ∃ extent ∈ extents fileLines scopes changed, extent.branch = branch ∧
        ∃ label ∈ extents fileLines scopes more, label.Cuts scopes changed more extent := by
  intro scopes
  obtain ⟨extent, found, same, touched⟩ := mem_extract_iff.mp extracted
  obtain ⟨line, isChanged, first, last⟩ := touches_iff.mp touched
  have remaining := found
  rw [extents, fileMarks_of_subset fileLines scopes grown] at remaining
  rcases extentsFrom_filter (pairwise_fileMarks fileLines scopes more) remaining with
    kept | ⟨label, isLabel, newly, behind, cut⟩
  · left
    exact mem_extract_iff.mpr ⟨extent, kept, same,
      touches_iff.mpr ⟨line, grown isChanged, first, last⟩⟩
  · cases stillTouched :
        touches more extent.branch.startLine (label.branch.startLine - 1) with
    | true =>
        left
        obtain ⟨line, isChanged, first, last⟩ := touches_iff.mp stillTouched
        exact mem_extract_iff.mpr ⟨_, cut, same, touches_iff.mpr
          ⟨line, isChanged, first, Nat.le_trans last (Nat.le_max_right _ _)⟩⟩
    | false =>
        right
        refine ⟨extent, found, same, label, isLabel, newly, behind, ?_, stillTouched⟩
        -- The line that has changed in the extent is not before the label.
        have notBefore : ¬line ≤ label.branch.startLine - 1 := fun before => by
          have := touches_iff.mpr ⟨line, grown isChanged, first, before⟩
          rw [stillTouched] at this
          exact Bool.false_ne_true this
        omega

section Sample

def switchLines : List Text :=
  ["class A \x7b", "  void M(int k) \x7b", "    switch (k) \x7b", "      case 1:",
    "        int Twice(int v)", "          => v * 2;", "      case 2:", "        break;",
    "    \x7d", "  \x7d", "\x7d"].map String.toList

def firstCase : Branch where
  scope := { typeName := some ['A'], methodName := some ['M'] }
  kind := .caseLabel
  condition := "case 1:".toList
  startLine := 4
  depth := 3

theorem firstCase_extracted :
    firstCase ∈ extract switchLines (Source.scopeEntries switchLines) [9] := by
  decide +kernel

theorem firstCase_lost :
    firstCase ∉ extract switchLines (Source.scopeEntries switchLines) [8, 9] := by
  decide +kernel

end Sample

/-- The second label belongs to the function that is declared before it. -/
theorem mem_extract_or_cut_switch :
    [9] ⊆ [8, 9] ∧
      firstCase ∈ extract switchLines (Source.scopeEntries switchLines) [9] ∧
      ∃ extent ∈ extents switchLines (Source.scopeEntries switchLines) [9],
        extent.branch = firstCase ∧
        ∃ label ∈ extents switchLines (Source.scopeEntries switchLines) [8, 9],
          label.Cuts (Source.scopeEntries switchLines) [9] [8, 9] extent :=
  ⟨by decide, firstCase_extracted,
    (mem_extract_or_cut (by decide) firstCase_extracted).resolve_left firstCase_lost⟩

theorem not_extract_mono :
    ¬∀ (fileLines : List Text) (changed more : List Nat), changed ⊆ more →
      ∀ branch ∈ extract fileLines (Source.scopeEntries fileLines) changed,
        branch ∈ extract fileLines (Source.scopeEntries fileLines) more :=
  fun monotone => firstCase_lost (monotone switchLines [9] [8, 9] (by decide) firstCase
    firstCase_extracted)

end ChangeCoverage.Branch
