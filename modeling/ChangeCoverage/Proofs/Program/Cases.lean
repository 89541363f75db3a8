import ChangeCoverage.Proofs.Branch.Extraction
import ChangeCoverage.Proofs.Program.Regions

/-!
The cases of a program.  A region that holds a changed line lies in a method
that does, so no header of it is passed over, and the cases are those of the
regions that changed.
-/

namespace ChangeCoverage.Program

open Source (ScopeEntry)
open Branch (Mark Extent)

def Part.slack : Part → Nat
  | body true => 1
  | _ => 0

theorem Code.reach_le {part : Part} (code : Code part) : code.reach ≤ code.lines.length + 1 := by
  induction code with
  | stop => exact Nat.le_refl 1
  | plain line next inductionHypothesis => exact Nat.succ_le_succ inductionHypothesis
  | branch condition body chained next _ _ nextHypothesis =>
      simp only [Code.reach, Code.lines, List.length_cons, List.length_append]
      omega
  | switch subject items closing next _ nextHypothesis =>
      simp only [Code.reach, Code.lines, List.length_cons, List.length_append]
      omega
  | case label next _ => exact Nat.zero_le _
  | default margin next _ => exact Nat.zero_le _
  | close closing => exact Nat.le_succ 1
  | elseIf condition body chained _ _ => exact Nat.succ_le_succ (Nat.zero_le _)
  | otherwise margin body closing _ => exact Nat.succ_le_succ (Nat.zero_le _)

theorem Code.length_chain_pos (chained : Code .chain) : 0 < chained.lines.length := by
  cases chained <;> exact Nat.succ_pos _

structure Region.Within (scope : ScopeEntry) (start stop : Nat) (region : Region) : Prop where
  scope_eq : region.scope = scope
  start_le : start ≤ region.first
  lt_stop : region.last < stop

theorem within_mono {regions : List Region} {scope : ScopeEntry}
    {start stop outerStart outerStop : Nat}
    (within : ∀ region ∈ regions, region.Within scope start stop) (startLe : outerStart ≤ start)
    (stopLe : stop ≤ outerStop) : ∀ region ∈ regions, region.Within scope outerStart outerStop := by
  intro region membership
  obtain ⟨scopeEq, first, last⟩ := within region membership
  exact ⟨scopeEq, Nat.le_trans startLe first, Nat.lt_of_lt_of_le last stopLe⟩

theorem Code.regions_within {part : Part} (code : Code part) (scope : ScopeEntry) (number : Nat) :
    ∀ region ∈ code.regions scope number,
      region.Within scope number (number + code.lines.length + part.slack) := by
  induction code generalizing number with
  | stop => exact fun region membership => absurd membership List.not_mem_nil
  | plain line next inductionHypothesis =>
      refine within_mono (inductionHypothesis (number + 1)) (Nat.le_succ number) ?_
      simp only [Code.lines, List.length_cons]
      omega
  | branch condition body chained next bodyHypothesis chainHypothesis nextHypothesis =>
      have closing := chained.length_chain_pos
      have length : (Code.branch condition body chained next).lines.length =
          body.lines.length + (chained.lines.length + next.lines.length) + 1 := by
        simp [Code.lines]
      simp only [Code.regions, List.forall_mem_cons, List.forall_mem_append]
      refine ⟨⟨rfl, Nat.le_refl number, by simp only; omega⟩, ?_, ?_, ?_⟩
      · exact within_mono (bodyHypothesis _) (by omega) (by simp only [Part.slack]; omega)
      · exact within_mono (chainHypothesis _) (by omega) (by simp only [Part.slack]; omega)
      · exact within_mono (nextHypothesis _) (by omega) (by omega)
  | switch subject items closing next itemsHypothesis nextHypothesis =>
      have length : (Code.switch subject items closing next).lines.length =
          items.lines.length + (next.lines.length + 1) + 1 := by
        simp [Code.lines]
      simp only [Code.regions, List.forall_mem_cons, List.forall_mem_append]
      refine ⟨⟨rfl, Nat.le_refl number, by simp only; omega⟩, ?_, ?_⟩
      · exact within_mono (itemsHypothesis _) (by omega) (by simp only [Part.slack]; omega)
      · exact within_mono (nextHypothesis _) (by omega) (by omega)
  | case label next inductionHypothesis =>
      have reach := next.reach_le
      simp only [Code.regions, List.forall_mem_cons, Code.lines, List.length_cons]
      refine ⟨⟨rfl, Nat.le_refl number, by simp only [Part.slack]; omega⟩, ?_⟩
      exact within_mono (inductionHypothesis _) (by omega) (by omega)
  | default margin next inductionHypothesis =>
      have reach := next.reach_le
      simp only [Code.regions, List.forall_mem_cons, Code.lines, List.length_cons]
      refine ⟨⟨rfl, Nat.le_refl number, by simp only [Part.slack]; omega⟩, ?_⟩
      exact within_mono (inductionHypothesis _) (by omega) (by omega)
  | close closing => exact fun region membership => absurd membership List.not_mem_nil
  | elseIf condition body chained bodyHypothesis chainHypothesis =>
      have closing := chained.length_chain_pos
      simp only [Code.regions, List.forall_mem_cons, List.forall_mem_append, Code.lines,
        List.length_cons, List.length_append]
      refine ⟨⟨rfl, Nat.le_refl number, by simp only; omega⟩, ?_, ?_⟩
      · exact within_mono (bodyHypothesis _) (by omega) (by simp only [Part.slack]; omega)
      · exact within_mono (chainHypothesis _) (by omega) (by simp only [Part.slack]; omega)
  | otherwise margin body closing inductionHypothesis =>
      simp only [Code.regions, List.forall_mem_cons, Code.lines, List.length_cons,
        List.length_append, List.length_nil]
      refine ⟨⟨rfl, Nat.le_refl number, by simp only; omega⟩, ?_⟩
      exact within_mono (inductionHypothesis _) (by omega) (by simp only [Part.slack]; omega)

theorem Members.length_entries {insideType : Bool} (members : Members insideType)
    (scope : ScopeEntry) : (members.entries scope).length = members.lines.length := by
  induction members generalizing scope with
  | stop => rfl
  | plain line next inductionHypothesis => exact congrArg (· + 1) (inductionHypothesis scope)
  | type line inner closing next innerHypothesis nextHypothesis =>
      simp [Members.entries, Members.lines, innerHypothesis, nextHypothesis]
  | method line body closing next inductionHypothesis =>
      simp [Members.entries, Members.lines, inductionHypothesis]

section Block

variable {Entry : Type} (head closing : Entry) {inner : List Entry} (next : List Entry)
  {line number : Nat}

theorem getElem?_inside {found : Entry} (start : number + 1 ≤ line)
    (belongs : inner[line - (number + 1)]? = some found) :
    (head :: (inner ++ closing :: next))[line - number]? = some found := by
  have within := (List.getElem?_eq_some_iff.mp belongs).1
  have index : line - number = line - (number + 1) + 1 := by omega
  rw [index, List.getElem?_cons_succ, List.getElem?_append_left within]
  exact belongs

theorem getElem?_behind {length : Nat} (lengthEq : inner.length = length)
    (start : number + 1 + length + 1 ≤ line) :
    (head :: (inner ++ closing :: next))[line - number]? =
      next[line - (number + 1 + length + 1)]? := by
  have index : line - number = line - (number + 1 + length + 1) + 1 + length + 1 := by omega
  rw [index, List.getElem?_cons_succ, List.getElem?_append_right (by omega), lengthEq,
    Nat.add_sub_cancel, List.getElem?_cons_succ]

end Block

/-- Every line of a region belongs to the scope of its branch. -/
theorem Members.entries_region {insideType : Bool} (members : Members insideType)
    (scope : ScopeEntry) (number : Nat) :
    ∀ region ∈ members.regions scope number,
      number ≤ region.first ∧ ∀ line, region.first ≤ line → line ≤ region.last →
        (members.entries scope)[line - number]? = some region.scope := by
  induction members generalizing scope number with
  | stop => exact fun region membership => absurd membership List.not_mem_nil
  | plain line next inductionHypothesis =>
      intro region membership
      obtain ⟨start, belongs⟩ := inductionHypothesis scope (number + 1) region membership
      refine ⟨by omega, ?_⟩
      intro line first last
      have index : line - number = line - (number + 1) + 1 := by omega
      rw [Members.entries, index, List.getElem?_cons_succ]
      exact belongs line first last
  | @type insideType name line inner closing next innerHypothesis nextHypothesis =>
      simp only [Members.regions, List.forall_mem_append]
      refine ⟨?_, ?_⟩
      · intro region membership
        obtain ⟨start, belongs⟩ := innerHypothesis _ (number + 1) region membership
        refine ⟨by omega, ?_⟩
        intro line first last
        exact getElem?_inside _ _ _ (Nat.le_trans start first) (belongs line first last)
      · intro region membership
        obtain ⟨start, belongs⟩ := nextHypothesis scope _ region membership
        refine ⟨by omega, ?_⟩
        intro line first last
        have length := inner.length_entries { typeName := some name, methodName := none }
        refine (getElem?_behind _ _ _ length (Nat.le_trans start first)).trans ?_
        exact belongs line first last
  | @method name line body closing next nextHypothesis =>
      simp only [Members.regions, List.forall_mem_append]
      refine ⟨?_, ?_⟩
      · intro region membership
        obtain ⟨scopeEq, start, stop⟩ := body.regions_within _ (number + 1) region membership
        refine ⟨by omega, ?_⟩
        intro line first last
        have within : line - (number + 1) < body.lines.length := by
          simp only [Part.slack] at stop
          omega
        have belongs : (body.lines.map fun _ => region.scope)[line - (number + 1)]? =
            some region.scope := by
          rw [List.getElem?_map, List.getElem?_eq_getElem within]
          rfl
        rw [scopeEq] at belongs ⊢
        exact getElem?_inside _ _ _ (Nat.le_trans start first) belongs
      · intro region membership
        obtain ⟨start, belongs⟩ := nextHypothesis scope _ region membership
        refine ⟨by omega, ?_⟩
        intro line first last
        refine (getElem?_behind _ _ _ (List.length_map _) (Nat.le_trans start first)).trans ?_
        exact belongs line first last

/-- The marks of members decide the regions of the methods that count. -/
theorem regionsFrom_members {insideType : Bool} (members : Members insideType)
    (nested : members.LabelsNested) (isHot : ScopeEntry → Bool) (scope : ScopeEntry)
    (number fileEnd depth : Nat) (rest : List Text) (scopes : List ScopeEntry) :
    regionsFrom fileEnd depth
        (marks isHot number (members.lines ++ rest) (members.entries scope ++ scopes)) =
      (members.regions scope number).filter (fun region => isHot region.scope) ++
        regionsFrom fileEnd depth (marks isHot (number + members.lines.length) rest scopes) := by
  induction members generalizing scope number depth rest scopes with
  | stop => rfl
  | plain line next inductionHypothesis =>
      have total : number + (next.lines.length + 1) = number + 1 + next.lines.length := by omega
      simp only [Members.lines, Members.entries, List.cons_append, List.length_cons, total]
      rw [marks_cons isHot number line.holds.ends, regionsFrom_plain line.holds]
      exact inductionHypothesis nested scope (number + 1) depth rest scopes
  | @type insideType name line inner closing next innerHypothesis nextHypothesis =>
      obtain ⟨innerNested, nextNested⟩ := nested
      have total : number + (inner.lines.length + (next.lines.length + 1) + 1) =
          number + 1 + inner.lines.length + 1 + next.lines.length := by omega
      simp only [Members.lines, Members.entries, List.cons_append, List.append_assoc,
        List.length_cons, List.length_append, total]
      rw [marks_cons isHot number line.holds.ends, regionsFrom_declaration line.holds,
        innerHypothesis innerNested, marks_cons isHot _ (holds_closingLine closing).ends,
        regionsFrom_closing, nextHypothesis nextNested, Members.regions, List.filter_append,
        List.append_assoc]
  | @method name line body closing next nextHypothesis =>
      obtain ⟨bodyNested, nextNested⟩ := nested
      have total : number + (body.lines.length + (next.lines.length + 1) + 1) =
          number + 1 + body.lines.length + 1 + next.lines.length := by omega
      let inner : ScopeEntry := { scope with methodName := some name }
      let later := marks isHot (number + 1 + body.lines.length)
        (closingLine closing :: (next.lines ++ rest)) (scope :: (next.entries scope ++ scopes))
      have inBody : regionsFrom fileEnd (depth + 1)
          (scopeMarks (isHot inner) inner (number + 1) body.lines ++ later) =
            (if isHot inner then body.regions inner (number + 1) else []) ++
              regionsFrom fileEnd (depth + 1) later :=
        regionsFrom_code body bodyNested (isHot inner) inner fileEnd trivial rfl
      have counted : (if isHot inner then body.regions inner (number + 1) else []) =
          (body.regions inner (number + 1)).filter fun region => isHot region.scope := by
        have scopeEq : ∀ region ∈ body.regions inner (number + 1), region.scope = inner :=
          fun region membership => (body.regions_within inner _ region membership).scope_eq
        split
        next hot =>
          refine (List.filter_eq_self.mpr fun region membership => ?_).symm
          rw [scopeEq region membership, hot]
        next cold =>
          refine (List.filter_eq_nil_iff.mpr fun region membership => ?_).symm
          rw [scopeEq region membership]
          exact cold
      simp only [Members.lines, Members.entries, List.cons_append, List.append_assoc,
        List.length_cons, List.length_append, total]
      rw [marks_cons isHot number line.holds.ends, regionsFrom_declaration line.holds,
        marks_append isHot inner (number + 1) body.endInCode, inBody, counted]
      simp only [later]
      rw [marks_cons isHot _ (holds_closingLine closing).ends, regionsFrom_closing,
        nextHypothesis nextNested, Members.regions, List.filter_append, List.append_assoc]

/-- The regions that the marks of a file decide are those of its methods that
hold a changed line. -/
theorem map_regionOf_extents (file : Members false) (nested : file.LabelsNested)
    (changed : List Nat) :
    (Branch.extents file.lines (file.entries {}) changed).map regionOf =
      (file.regions {} 1).filter fun region =>
        Branch.isHot (file.entries {}) changed region.scope := by
  have decided := regionsFrom_members file nested (Branch.isHot (file.entries {}) changed) {} 1
    file.lines.length 0 [] []
  rw [List.append_nil, List.append_nil] at decided
  exact decided.trans (List.append_nil _)

theorem touchedBy_iff (extent : Extent) (changed : List Nat) :
    extent.touchedBy changed = true ↔ (regionOf extent).Touched changed := by
  simp [Extent.touchedBy, Branch.touches, Region.Touched, regionOf]

/-- A region that changed lies in a scope that holds a changed line. -/
theorem isHot_of_touched {file : Members false} {region : Region}
    (membership : region ∈ file.regions {} 1) {changed : List Nat}
    (touched : region.Touched changed) :
    Branch.isHot (file.entries {}) changed region.scope = true := by
  obtain ⟨line, isChanged, first, last⟩ := touched
  obtain ⟨start, belongs⟩ := file.entries_region {} 1 region membership
  have counted : line ≠ 0 := by omega
  rw [Branch.isHot, List.any_eq_true]
  exact ⟨line, isChanged, by simp [counted, belongs line first last]⟩

/-- The cases of a program are the outcomes of its regions that hold a changed
line, if the braces in its labels close each other. -/
theorem mem_ofSource_iff (file : Members false) (nested : file.LabelsNested) {source : Text}
    (rendered : Text.cleanLines source = file.lines) (changed : List Nat) (case : Case) :
    case ∈ Case.ofSource source changed ↔
      ∃ region ∈ file.regions {} 1, region.Touched changed ∧ case ∈ region.cases := by
  have scopes := scopeEntries_lines file nested
  have swept := Branch.extract_perm_ahead file.lines (file.entries {}) changed
  have decided := map_regionOf_extents file nested changed
  simp only [Case.ofSource, Case.ofBranches, rendered, scopes, List.mem_eraseDups,
    List.mem_flatMap, swept.mem_iff]
  constructor
  · rintro ⟨branch, isAhead, outcome⟩
    obtain ⟨extent, found, rfl⟩ := List.mem_map.mp isAhead
    obtain ⟨isExtent, touched⟩ := List.mem_filter.mp found
    have isDecided : regionOf extent ∈
        (Branch.extents file.lines (file.entries {}) changed).map regionOf :=
      List.mem_map.mpr ⟨extent, isExtent, rfl⟩
    rw [decided] at isDecided
    exact ⟨regionOf extent, (List.mem_filter.mp isDecided).1,
      (touchedBy_iff extent changed).mp touched, outcome⟩
  · rintro ⟨region, isRegion, touched, outcome⟩
    -- The headers of the region count, since the changed line has its scope.
    have hot := isHot_of_touched isRegion touched
    have isDecided : region ∈
        (Branch.extents file.lines (file.entries {}) changed).map regionOf := by
      rw [decided]
      exact List.mem_filter.mpr ⟨isRegion, hot⟩
    obtain ⟨extent, isExtent, rfl⟩ := List.mem_map.mp isDecided
    refine ⟨extent.branch, List.mem_map.mpr ⟨extent, ?_, rfl⟩, outcome⟩
    exact List.mem_filter.mpr ⟨isExtent, (touchedBy_iff extent changed).mpr touched⟩

section Sample

def sampleType : DeclarationLine (.type ['A']) where
  raw := "class A ".toList ++ ['{']
  front := "class A ".toList
  masks := rfl
  braceless := rfl
  headerless := rfl
  declares := by decide +kernel

def sampleMethod : DeclarationLine (.method ['M']) where
  raw := "  void M() ".toList ++ ['{']
  front := "  void M() ".toList
  masks := rfl
  braceless := rfl
  headerless := rfl
  declares := by decide +kernel

def sampleMargin : Source.Margin := ⟨"    ".toList, by decide⟩

def sampleLine : PlainLine where
  raw := "    a(\"if\"); // else".toList
  ends := rfl
  braceless := rfl
  headerless := rfl
  undeclared := by decide +kernel

def sampleSubject : Condition "switch ".toList where
  margin := sampleMargin
  text := ['x']
  masked := ['x']
  masks := rfl
  balanced := rfl
  braceless := rfl
  headerless := rfl
  undeclared := by decide +kernel

def sampleCondition : Condition "if ".toList where
  margin := sampleMargin
  text := "f(x) == \"(\"".toList
  masked := "f(x) ==    ".toList
  masks := rfl
  balanced := rfl
  braceless := rfl
  headerless := rfl
  undeclared := by decide +kernel

def sampleLabel : Label where
  margin := sampleMargin
  text := ['{', '}']
  masked := ['{', '}']
  masks := rfl
  colonless := by decide
  sole := rfl
  undeclared := by decide +kernel

def unclosedLabel : Label where
  margin := sampleMargin
  text := ['{']
  masked := ['{']
  masks := rfl
  colonless := by decide
  sole := rfl
  undeclared := by decide +kernel

def sampleFile (label : Label) : Members false :=
  let chained : Code .chain := .otherwise sampleMargin (.plain sampleLine .stop) sampleMargin
  let items : Code (.body true) := .case label (.branch sampleCondition .stop chained .stop)
  let body : Code (.body false) :=
    .switch sampleSubject items sampleMargin (.plain sampleLine .stop)
  let members : Members true := .method sampleMethod body ⟨"  ".toList, by decide⟩ .stop
  .type sampleType members ⟨[], by decide⟩ .stop

def sampleText (label : Label) : Text :=
  (sampleFile label).lines.flatMap (· ++ ['\n'])

def sampleCase (condition : Text) : Case where
  scope := { typeName := some ['A'], methodName := some ['M'] }
  condition

end Sample

theorem mem_ofSource_sample :
    sampleCase ("case ".toList ++ ['{', '}', ':']) ∈
        Case.ofSource (sampleText sampleLabel) [7] ∧
      sampleCase "if (f(x) == \"(\") → true".toList ∉
        Case.ofSource (sampleText sampleLabel) [7] := by
  have nested : (sampleFile sampleLabel).LabelsNested :=
    ⟨⟨⟨⟨rfl, trivial, trivial, trivial⟩, trivial⟩, trivial⟩, trivial⟩
  have rendered : Text.cleanLines (sampleText sampleLabel) = (sampleFile sampleLabel).lines := by
    decide +kernel
  have decided := mem_ofSource_iff (sampleFile sampleLabel) nested rendered [7]
  rw [decided, decided]
  decide +kernel

/-- An unclosed label takes the closing brace of its switch, which then reaches
through the lines behind it. -/
theorem not_mem_ofSource_iff_unclosed :
    ¬∀ (file : Members false) (source : Text) (changed : List Nat) (case : Case),
      Text.cleanLines source = file.lines →
        (case ∈ Case.ofSource source changed ↔
          ∃ region ∈ file.regions {} 1, region.Touched changed ∧ case ∈ region.cases) := by
  intro claimed
  have reported :
      sampleCase "switch (x)".toList ∈ Case.ofSource (sampleText unclosedLabel) [10] := by
    decide +kernel
  have untouched : ∀ region ∈ (sampleFile unclosedLabel).regions {} 1, ¬region.Touched [10] := by
    decide +kernel
  have rendered :
      Text.cleanLines (sampleText unclosedLabel) = (sampleFile unclosedLabel).lines := by
    decide +kernel
  obtain ⟨region, isRegion, touched, _⟩ := (claimed _ _ [10] _ rendered).mp reported
  exact untouched region isRegion touched

end ChangeCoverage.Program
