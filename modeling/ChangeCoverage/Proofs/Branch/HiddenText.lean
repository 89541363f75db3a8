import ChangeCoverage.Proofs.Branch.Transfer
import ChangeCoverage.Proofs.Source.HiddenText
import ChangeCoverage.Proofs.Source.MaskedScopes
import Mathlib.Data.List.Forall2

/-!
Literals and comments leave branches alone.  Raw lines are read for the texts of
conditions only.  Whether a condition can be read, and where it ends, is decided
on the masked line, since parentheses that are seen there stand in the raw line
at the same offsets.
-/

namespace ChangeCoverage.Branch

open Source (Hides ScopeEntry LexState)

section Condition

variable {masked raw : Text} {opening : Nat}

theorem closingFrom_sound {depth offset stop : Nat} {text : Text}
    (closes : closingFrom depth offset text = some stop) :
    ∃ front back, text = front ++ ')' :: back ∧ stop = offset + Text.byteSize front := by
  induction text generalizing depth offset with
  | nil => exact absurd closes (Option.some_ne_none stop).symm
  | cons character rest inductionHypothesis =>
      have behind {depth : Nat}
          (closes : closingFrom depth (offset + character.utf8Size) rest = some stop) :
          ∃ front back, character :: rest = front ++ ')' :: back ∧
            stop = offset + Text.byteSize front := by
        obtain ⟨front, back, rfl, stopEq⟩ := inductionHypothesis closes
        exact ⟨character :: front, back, rfl, by rw [stopEq, Text.byteSize_cons, Nat.add_assoc]⟩
      rw [closingFrom] at closes
      by_cases opens : character = '('
      · rw [if_pos opens] at closes
        exact behind closes
      · rw [if_neg opens] at closes
        by_cases isStop : character = ')'
        · rw [if_pos isStop] at closes
          by_cases outermost : depth - 1 = 0
          · rw [if_pos outermost] at closes
            exact ⟨[], rest, by rw [isStop, List.nil_append], (Option.some.inj closes).symm⟩
          · rw [if_neg outermost] at closes
            exact behind closes
        · rw [if_neg isStop] at closes
          exact behind closes

/-- Where the condition ends whose parenthesis is at an offset. -/
def closing? (masked : Text) (opening : Nat) : Option Nat :=
  (Text.dropBytes? opening masked).bind fun rest =>
    if rest.head? = some '(' then closingFrom 0 opening rest else none

/-- The raw text can be cut at the parentheses of the masked one. -/
theorem slice?_closing (hides : Hides masked raw) {rest : Text} {stop : Nat}
    (opens : Text.dropBytes? opening masked = some ('(' :: rest))
    (closes : closingFrom 0 opening ('(' :: rest) = some stop) :
    ∃ inner, Text.slice? (opening + 1) stop raw = some inner := by
  have parenthesis : ('(' : Char).utf8Size = 1 := by decide
  obtain ⟨⟨front, _⟩, split, rfl⟩ := Option.map_eq_some_iff.mp opens
  obtain ⟨maskedEq, openingEq⟩ := Text.splitAt?_sound split
  rw [closingFrom, if_pos rfl, parenthesis] at closes
  obtain ⟨middle, back, restEq, stopEq⟩ := closingFrom_sound closes
  obtain ⟨rawFront, rawRest, rfl, frontSize, restHides⟩ := hides.split maskedEq (by decide)
  obtain ⟨inner, rawBack, rfl, innerSize, _⟩ := restHides.split restEq (by decide)
  have sliced := Text.slice?_append (rawFront ++ ['(']) inner (')' :: rawBack)
  rw [List.append_assoc, Text.byteSize_append, Text.byteSize_cons, Text.byteSize_nil, parenthesis,
    Nat.add_zero, frontSize, openingEq, innerSize, ← stopEq] at sliced
  exact ⟨inner, sliced⟩

theorem readCondition?_closing (hides : Hides masked raw) (opening : Nat) :
    (readCondition? masked raw opening).map (·.2) = closing? masked opening := by
  rw [readCondition?, closing?]
  cases opens : Text.dropBytes? opening masked with
  | none => rfl
  | some found =>
      by_cases starts : found.head? = some '('
      · obtain ⟨rest, rfl⟩ := List.head?_eq_some_iff.mp starts
        cases closes : closingFrom 0 opening ('(' :: rest) with
        | none => simp [closes]
        | some stop =>
            obtain ⟨inner, sliced⟩ := slice?_closing hides opens closes
            simp [hides.byteSize_eq, closes, sliced]
      · simp [starts]

end Condition

def Header.withoutCondition (header : Header) : Header :=
  { header with condition := [] }

/-- But for its condition, a header is where its keyword and its parentheses are. -/
theorem withoutCondition_ofOccurrence {masked raw : Text} (hides : Hides masked raw)
    (found : Occurrence) :
    (Header.ofOccurrence masked raw found).withoutCondition =
      { column := found.column
        bodyStart :=
          if found.kind.conditionKeyword?.isSome then
            (closing? masked (found.stop - 1)).map (· + 1)
          else some found.stop
        kind := found.kind
        condition := [] } := by
  rw [Header.ofOccurrence, ← readCondition?_closing hides]
  cases found.kind.conditionKeyword? with
  | none => rfl
  | some keyword =>
      cases readCondition? masked raw (found.stop - 1) with
      | none => rfl
      | some condition => rfl

/-- The headers of a line are seen on its masked text, but for their conditions. -/
theorem withoutCondition_headers {masked raw : Text} (hides : Hides masked raw) :
    (headers masked raw).map Header.withoutCondition =
      (headers masked masked).map Header.withoutCondition := by
  rw [headers, headers, List.map_map, List.map_map]
  congr 1
  funext found
  rw [Function.comp_apply, Function.comp_apply, withoutCondition_ofOccurrence hides,
    withoutCondition_ofOccurrence (Source.hides_self masked)]

def hideCondition : Transfer where
  toFun branch := { branch with condition := [] }
  kind_eq _ := rfl
  depth_eq _ := rfl

def SourceLine.hide (line : SourceLine) : SourceLine :=
  { line with raw := line.masked }

def Mark.hide : Mark → Mark :=
  Mark.map id SourceLine.hide Header.withoutCondition

section Lines

theorem map_hide_lineMarks (hot : Bool) {line : SourceLine} (hides : Hides line.masked line.raw) :
    (lineMarks hot line).map Mark.hide = (lineMarks hot line.hide).map Mark.hide := by
  have placed (other : SourceLine) (found : List Header) :
      (marksFrom other found 0 line.masked).map Mark.hide =
        marksFrom other.hide (found.map Header.withoutCondition) 0 line.masked :=
    map_marksFrom id SourceLine.hide Header.withoutCondition rfl (fun _ => rfl) found 0 line.masked
  have sameHeaders :
      (if hot then headers line.masked line.raw else []).map Header.withoutCondition =
        (if hot then headers line.masked line.masked else []).map Header.withoutCondition := by
    cases hot with
    | false => rfl
    | true => exact withoutCondition_headers hides
  rw [lineMarks, lineMarks, List.map_append, List.map_append, placed, sameHeaders]
  exact congrArg (· ++ [Mark.lineEnd line.number]) (placed line.hide _).symm

theorem hides_sourceLines (number : Nat) (lexState : LexState) (fileLines : List Text)
    (scopes : List ScopeEntry) :
    ∀ line ∈ sourceLines number lexState fileLines scopes, Hides line.masked line.raw := by
  induction fileLines generalizing number lexState scopes with
  | nil => exact fun line membership => absurd membership List.not_mem_nil
  | cons raw rest inductionHypothesis =>
      intro line membership
      rcases List.mem_cons.mp membership with rfl | behind
      · exact Source.hides_maskLine raw lexState
      · exact inductionHypothesis _ _ _ line behind

/-- Lines that look alike when masked are the same lines when their raw texts are hidden. -/
theorem map_hide_sourceLines (number : Nat) {lexState otherState : LexState}
    {first second : List Text} (scopes : List ScopeEntry)
    (same : (Source.maskLines lexState first).map (·.1) =
      (Source.maskLines otherState second).map (·.1)) :
    (sourceLines number lexState first scopes).map SourceLine.hide =
      (sourceLines number otherState second scopes).map SourceLine.hide := by
  induction first generalizing number lexState otherState second scopes with
  | nil =>
      cases second with
      | nil => rfl
      | cons other others => exact absurd same.symm (List.cons_ne_nil _ _)
  | cons raw rest inductionHypothesis =>
      cases second with
      | nil => exact absurd same (List.cons_ne_nil _ _)
      | cons other others =>
          simp only [Source.maskLines, List.map_cons, List.cons.injEq] at same
          obtain ⟨sameMasked, sameLater⟩ := same
          have later := inductionHypothesis (number + 1) scopes.tail sameLater
          simp only [sourceLines, List.map_cons, SourceLine.hide, sameMasked]
          exact congrArg _ later

end Lines

theorem map_hide_fileMarks {first second : List Text} (scopes : List ScopeEntry)
    (changed : List Nat)
    (same : (Source.maskLines .code first).map (·.1) = (Source.maskLines .code second).map (·.1)) :
    (fileMarks first scopes changed).map Mark.hide =
      (fileMarks second scopes changed).map Mark.hide := by
  have hidden (fileLines : List Text) : (fileMarks fileLines scopes changed).map Mark.hide =
      ((sourceLines 1 .code fileLines scopes).map SourceLine.hide).flatMap fun line =>
        (lineMarks (isHot scopes changed line.scope) line).map Mark.hide := by
    rw [fileMarks, List.map_flatMap, List.flatMap_map]
    refine List.flatMap_congr fun line membership => ?_
    exact map_hide_lineMarks _ (hides_sourceLines 1 .code fileLines scopes line membership)
  rw [hidden, hidden, map_hide_sourceLines 1 scopes same]

theorem alike_hide (changed : List Nat) (mark : Mark) :
    hideCondition.Alike changed changed mark mark.hide := by
  have reach (line : Nat) : hideCondition.ReachesAlike changed changed line line := fun _ => rfl
  cases mark with
  | brace line met => exact .brace met (reach line)
  | lineEnd line => exact .lineEnd (reach line)
  | header line found => exact .header (fun _ => rfl) rfl rfl (reach (line.number - 1))

/-- But for their conditions, branches are found by the marks without raw texts. -/
theorem map_hideCondition_extract (fileLines : List Text) (scopes : List ScopeEntry)
    (changed : List Nat) :
    (extract fileLines scopes changed).map hideCondition =
      sweep changed fileLines.length ((fileMarks fileLines scopes changed).map Mark.hide) := by
  have reach : hideCondition.ReachesAlike changed changed fileLines.length fileLines.length :=
    fun _ => rfl
  rw [extract_eq]
  exact (Transfer.sweep_map rfl (fun mark _ => alike_hide changed mark) reach).symm

/-- Branches that agree in all but their conditions. -/
structure SameShape (branch other : Branch) : Prop where
  scope_eq : branch.scope = other.scope
  kind_eq : branch.kind = other.kind
  startLine_eq : branch.startLine = other.startLine
  depth_eq : branch.depth = other.depth

theorem sameShape_of_hideCondition {branch other : Branch}
    (same : hideCondition branch = hideCondition other) : SameShape branch other := by
  obtain ⟨_, _, _, _, _⟩ := branch
  obtain ⟨_, _, _, _, _⟩ := other
  obtain ⟨rfl, rfl, _, rfl, rfl⟩ := Branch.mk.inj same
  exact ⟨rfl, rfl, rfl, rfl⟩

/-- Files that look alike when literals and comments are masked have the same
scopes, and branches that differ in nothing but their conditions. -/
theorem scopeEntries_eq_and_sameShape {first second : List Text}
    (same : (Source.maskLines .code first).map (·.1) = (Source.maskLines .code second).map (·.1))
    (changed : List Nat) :
    Source.scopeEntries first = Source.scopeEntries second ∧
      List.Forall₂ SameShape (extract first (Source.scopeEntries first) changed)
        (extract second (Source.scopeEntries second) changed) := by
  have sameScopes : Source.scopeEntries first = Source.scopeEntries second := by
    rw [Source.scopeEntries_eq_maskedEntries, Source.scopeEntries_eq_maskedEntries, same]
  have sameLength : first.length = second.length := by
    have lengths := congrArg List.length same
    simpa using lengths
  have sameHidden : (extract first (Source.scopeEntries first) changed).map hideCondition =
      (extract second (Source.scopeEntries second) changed).map hideCondition := by
    rw [map_hideCondition_extract, map_hideCondition_extract, sameScopes, sameLength,
      map_hide_fileMarks (Source.scopeEntries second) changed same]
  refine ⟨sameScopes, ?_⟩
  have paired : List.Forall₂ (fun branch other => hideCondition branch = hideCondition other)
      (extract first (Source.scopeEntries first) changed)
      (extract second (Source.scopeEntries second) changed) := by
    rw [← List.forall₂_map_right_iff, ← List.forall₂_map_left_iff, sameHidden]
    exact List.forall₂_refl _
  exact paired.imp fun _ _ => sameShape_of_hideCondition

section Sample

/-- A line whose condition and comment hold some text. -/
def quotingLines (quoted : Text) : List Text :=
  ["class A \x7b".toList, "  void M(string s) \x7b".toList,
    "    if (s == \"".toList ++ quoted ++ "\") s = null; // ".toList ++ quoted,
    "  \x7d".toList, "\x7d".toList]

def quotingBranch (quoted : Text) : Branch where
  scope := { typeName := some ['A'], methodName := some ['M'] }
  kind := .ifHeader
  condition := "if (s == \"".toList ++ quoted ++ "\")".toList
  startLine := 3
  depth := 2

end Sample

/-- A parenthesis and a letter of two bytes are hidden alike by a string. -/
theorem scopeEntries_eq_and_sameShape_quoting :
    (Source.maskLines .code (quotingLines "x)".toList)).map (·.1) =
        (Source.maskLines .code (quotingLines ['é'])).map (·.1) ∧
      Source.scopeEntries (quotingLines "x)".toList) = Source.scopeEntries (quotingLines ['é']) ∧
      List.Forall₂ SameShape [quotingBranch "x)".toList]
        (extract (quotingLines ['é']) (Source.scopeEntries (quotingLines ['é'])) [3]) := by
  have same : (Source.maskLines .code (quotingLines "x)".toList)).map (·.1) =
      (Source.maskLines .code (quotingLines ['é'])).map (·.1) := by decide +kernel
  have found : extract (quotingLines "x)".toList)
      (Source.scopeEntries (quotingLines "x)".toList)) [3] = [quotingBranch "x)".toList] := by
    decide +kernel
  obtain ⟨sameScopes, sameShapes⟩ := scopeEntries_eq_and_sameShape same [3]
  rw [found] at sameShapes
  exact ⟨same, sameScopes, sameShapes⟩

end ChangeCoverage.Branch
