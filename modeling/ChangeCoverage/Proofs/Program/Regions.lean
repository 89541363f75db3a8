import ChangeCoverage.Proofs.Program.Marks

/-!
The regions of a program are the extents that its marks decide.
-/

namespace ChangeCoverage.Program

open Source (ScopeEntry Brace Margin)
open Branch (Kind Header Mark Extent lineMarks lastLine endsAt_eq)

def regionOf (extent : Extent) : Region where
  scope := extent.branch.scope
  outcomes := Case.conditions extent.branch
  first := extent.branch.startLine
  last := max extent.branch.startLine extent.last

def regionsFrom (fileEnd depth : Nat) (found : List Mark) : List Region :=
  (Branch.extentsFrom fileEnd depth found).map regionOf

theorem regionOf_eq {branch : Branch} {last : Nat} (le : branch.startLine ≤ last) :
    regionOf { branch, last } =
      { scope := branch.scope, outcomes := Case.conditions branch, first := branch.startLine,
        last } := by
  rw [regionOf, Nat.max_eq_right le]

section Lines

variable {fileEnd depth : Nat} {hot : Bool} {scope : ScopeEntry} {number : Nat} {raw : Text}
  {kind : Kind} {text : Text} {later : List Mark} {closing : Margin}

/-- The region of a branch that is opened on a line, by what stands behind its header. -/
def openedRegion (fileEnd : Nat) (scope : ScopeEntry) (kind : Kind) (text : Text)
    (number depth : Nat) (later : List Mark) : Region :=
  let branch : Branch := { scope, kind, condition := text, startLine := number, depth }
  regionOf { branch, last := lastLine branch false fileEnd depth later }

theorem regionsFrom_header {header : Header} (kindEq : header.kind = kind)
    (textEq : header.condition = text)
    (block : header.isInline (sourceLine number scope raw).masked = false) :
    regionsFrom fileEnd depth
        ((if hot then [.header (sourceLine number scope raw) header] else []) ++ later) =
      (if hot then [openedRegion fileEnd scope kind text number depth later] else []) ++
        regionsFrom fileEnd depth later := by
  subst kindEq textEq
  cases hot with
  | true =>
      simp only [if_true, List.singleton_append, regionsFrom, Branch.extentsFrom, List.map_cons,
        block]
      rfl
  | false => rfl

theorem regionsFrom_nested {count : Nat} {braces : List Brace}
    (nested : Source.Nested count braces) :
    regionsFrom fileEnd (depth + count) (braces.map (.brace number) ++ later) =
      regionsFrom fileEnd depth later := by
  induction nested with
  | done => rfl
  | opening _ inductionHypothesis => exact inductionHypothesis
  | closing _ inductionHypothesis => exact inductionHypothesis

theorem regionsFrom_opening (holds : Holds raw [] (some (kind, text)) [.opening]) :
    regionsFrom fileEnd depth (lineMarks hot (sourceLine number scope raw) ++ later) =
      (if hot then [openedRegion fileEnd scope kind text number depth
        (.brace number .opening :: .lineEnd number :: later)] else []) ++
        regionsFrom fileEnd (depth + 1) later := by
  obtain ⟨header, kindEq, textEq, block, passed⟩ := holds.header_marks hot number scope
  rw [passed]
  simp only [List.map_nil, List.map_cons, List.nil_append, List.append_assoc, List.cons_append]
  rw [regionsFrom_header kindEq textEq block]
  rfl

theorem regionsFrom_reopening (holds : Holds raw [.closing] (some (kind, text)) [.opening]) :
    regionsFrom fileEnd (depth + 1) (lineMarks hot (sourceLine number scope raw) ++ later) =
      (if hot then [openedRegion fileEnd scope kind text number depth
        (.brace number .opening :: .lineEnd number :: later)] else []) ++
        regionsFrom fileEnd (depth + 1) later := by
  obtain ⟨header, kindEq, textEq, block, passed⟩ := holds.header_marks hot number scope
  rw [passed]
  simp only [List.map_nil, List.map_cons, List.nil_append, List.append_assoc, List.cons_append]
  exact regionsFrom_header kindEq textEq block

theorem regionsFrom_closing :
    regionsFrom fileEnd (depth + 1)
        (lineMarks hot (sourceLine number scope (closingLine closing)) ++ later) =
      regionsFrom fileEnd depth later := by
  rw [(holds_closingLine closing).plain_marks hot number scope]
  rfl

theorem regionsFrom_plain (holds : Holds raw [] none []) :
    regionsFrom fileEnd depth (lineMarks hot (sourceLine number scope raw) ++ later) =
      regionsFrom fileEnd depth later := by
  rw [holds.plain_marks hot number scope]
  rfl

theorem regionsFrom_declaration (holds : Holds raw [] none [.opening]) :
    regionsFrom fileEnd depth (lineMarks hot (sourceLine number scope raw) ++ later) =
      regionsFrom fileEnd (depth + 1) later := by
  rw [holds.plain_marks hot number scope]
  rfl

theorem regionsFrom_label {braces : List Brace} (holds : Holds raw [] (some (kind, text)) braces)
    (nested : Source.Nested 0 braces) :
    regionsFrom fileEnd depth (lineMarks hot (sourceLine number scope raw) ++ later) =
      (if hot then [openedRegion fileEnd scope kind text number depth
        (braces.map (.brace number) ++ .lineEnd number :: later)] else []) ++
        regionsFrom fileEnd depth later := by
  obtain ⟨header, kindEq, textEq, block, passed⟩ := holds.header_marks hot number scope
  have inside : regionsFrom fileEnd depth (braces.map (.brace number) ++ .lineEnd number :: later) =
      regionsFrom fileEnd depth later := regionsFrom_nested nested
  rw [passed]
  simp only [List.map_nil, List.nil_append, List.append_assoc, List.cons_append]
  rw [regionsFrom_header kindEq textEq block, inside]

end Lines

theorem lastLine_chain (chained : Code .chain) {branch : Branch} {depth : Nat}
    (ends : branch.endsAt depth = true) (hot : Bool) (scope : ScopeEntry) (number fileEnd : Nat)
    (later : List Mark) :
    lastLine branch false fileEnd (depth + 1)
        (scopeMarks hot scope number chained.lines ++ later) = number := by
  cases chained with
  | close closing =>
      rw [Code.lines, scopeMarks, List.append_assoc, lastLine_closing, if_pos ends]
  | elseIf condition body rest =>
      rw [Code.lines, scopeMarks, List.append_assoc,
        lastLine_reopening condition.holds_elseIf rfl, if_pos ends]
  | otherwise margin body closing =>
      rw [Code.lines, scopeMarks, List.append_assoc, lastLine_reopening (holds_elseLine margin) rfl,
        if_pos ends]

/-- A block reaches through the first line of the chain behind its body. -/
theorem openedRegion_block (kind : Kind) (block : kind.isLabel = false) (text : Text)
    (body : Code (.body false)) (nested : body.LabelsNested) (chained : Code .chain) (hot : Bool)
    (scope : ScopeEntry) (number depth fileEnd : Nat) (later : List Mark) :
    openedRegion fileEnd scope kind text number depth
        (.brace number .opening :: .lineEnd number ::
          (scopeMarks hot scope (number + 1) body.lines ++
            (scopeMarks hot scope (number + 1 + body.lines.length) chained.lines ++ later))) =
      { scope,
        outcomes :=
          Case.conditions { scope, kind, condition := text, startLine := number, depth },
        first := number, last := number + 1 + body.lines.length } := by
  let branch : Branch := { scope, kind, condition := text, startLine := number, depth }
  have outlives : (Part.body false).Outlives branch (depth + 1) := by
    simp [Part.Outlives, endsAt_eq, branch]
  have ends : branch.endsAt depth = true := by simp [endsAt_eq, branch, block]
  have passed := lastLine_code body nested outlives hot scope (number + 1)
    fileEnd (scopeMarks hot scope (number + 1 + body.lines.length) chained.lines ++ later)
  have last := passed.trans (lastLine_chain chained ends hot scope _ fileEnd later)
  have le : branch.startLine ≤ number + 1 + body.lines.length := by
    simp only [branch]
    omega
  exact (congrArg (fun last => regionOf { branch, last }) last).trans (regionOf_eq le)

/-- A block is decided by its header, and its body by the marks behind it. -/
theorem regions_block (kind : Kind) (block : kind.isLabel = false) (text : Text)
    (body : Code (.body false)) (nested : body.LabelsNested) (chained : Code .chain) (hot : Bool)
    (scope : ScopeEntry) (number depth fileEnd : Nat) (later : List Mark)
    {bodyMarks chainMarks : List Mark}
    (chainEq : chainMarks =
      scopeMarks hot scope (number + 1 + body.lines.length) chained.lines ++ later)
    (bodyEq : bodyMarks = scopeMarks hot scope (number + 1) body.lines ++ chainMarks)
    (inBody : regionsFrom fileEnd (depth + 1) bodyMarks =
      (if hot then body.regions scope (number + 1) else []) ++
        regionsFrom fileEnd (depth + 1) chainMarks) :
    (if hot then [openedRegion fileEnd scope kind text number depth
        (.brace number .opening :: .lineEnd number :: bodyMarks)] else []) ++
        regionsFrom fileEnd (depth + 1) bodyMarks =
      (if hot then
        { scope,
          outcomes :=
            Case.conditions { scope, kind, condition := text, startLine := number, depth },
          first := number, last := number + 1 + body.lines.length } ::
          body.regions scope (number + 1) else []) ++
        regionsFrom fileEnd (depth + 1) chainMarks := by
  have opened := openedRegion_block kind block text body nested chained hot scope number depth
    fileEnd later
  rw [← chainEq, ← bodyEq] at opened
  rw [opened, inBody]
  cases hot <;> rfl

theorem openedRegion_switch (text : Text) (items : Code (.body true)) (nested : items.LabelsNested)
    (hot : Bool) (scope : ScopeEntry) (number depth fileEnd : Nat) (closing : Margin)
    (later : List Mark) :
    openedRegion fileEnd scope .switchHeader text number depth
        (.brace number .opening :: .lineEnd number ::
          (scopeMarks hot scope (number + 1) items.lines ++
            (lineMarks hot
              (sourceLine (number + 1 + items.lines.length) scope (closingLine closing)) ++
                later))) =
      { scope, outcomes := [text], first := number, last := number + 1 + items.lines.length } := by
  let branch : Branch :=
    { scope, kind := .switchHeader, condition := text, startLine := number, depth }
  have outlives : (Part.body true).Outlives branch (depth + 1) := Nat.lt_succ_self depth
  have ends : branch.endsAt depth = true := by simp [endsAt_eq, branch, Kind.isLabel]
  have passed := lastLine_code items nested outlives hot scope (number + 1) fileEnd
    (lineMarks hot (sourceLine (number + 1 + items.lines.length) scope (closingLine closing)) ++
      later)
  have last := passed.trans lastLine_closing
  rw [if_pos ends] at last
  have le : branch.startLine ≤ number + 1 + items.lines.length := by
    simp only [branch]
    omega
  exact (congrArg (fun last => regionOf { branch, last }) last).trans (regionOf_eq le)

theorem regionsFrom_switch (subject : Condition "switch ".toList) (items : Code (.body true))
    (nested : items.LabelsNested) (closing : Margin) (hot : Bool) (scope : ScopeEntry)
    (number depth fileEnd : Nat) (later : List Mark) {closingMarks : List Mark}
    (closingEq : closingMarks =
      lineMarks hot (sourceLine (number + 1 + items.lines.length) scope (closingLine closing)) ++
        later)
    (inItems :
      regionsFrom fileEnd (depth + 1)
          (scopeMarks hot scope (number + 1) items.lines ++ closingMarks) =
        (if hot then items.regions scope (number + 1) else []) ++
          regionsFrom fileEnd (depth + 1) closingMarks) :
    regionsFrom fileEnd depth (lineMarks hot (sourceLine number scope subject.line) ++
        (scopeMarks hot scope (number + 1) items.lines ++ closingMarks)) =
      (if hot then
        { scope, outcomes := [headerText "switch".toList subject.text], first := number,
          last := number + 1 + items.lines.length } :: items.regions scope (number + 1) else []) ++
        regionsFrom fileEnd depth later := by
  subst closingEq
  have opened := openedRegion_switch (headerText "switch".toList subject.text) items nested hot
    scope number depth fileEnd closing later
  rw [regionsFrom_opening subject.holds_switch, opened, inItems, regionsFrom_closing]
  cases hot <;> rfl

/-- A label reaches up to the next label of its switch, or through its end. -/
theorem lastLine_reach {part : Part} (items : Code part) (isItems : part = .body true)
    (nested : items.LabelsNested) {branch : Branch} (isLabel : branch.kind.isLabel = true)
    {outer : Nat} (level : branch.depth = outer + 1) (scope : ScopeEntry) (fileEnd : Nat)
    (later : List Mark) {number stop : Nat} (stopEq : stop = number + items.lines.length) :
    lastLine branch false fileEnd (outer + 1)
        (scopeMarks true scope number items.lines ++ .brace stop .closing :: later) =
      number + items.reach - 1 := by
  have lives : branch.endsAt (outer + 1) = false := by simp [endsAt_eq, isLabel, level]
  have deeper := endsAt_mono lives (Nat.le_succ (outer + 1))
  induction items generalizing number with
  | stop =>
      have ends : branch.endsAt outer = true := by simp [endsAt_eq, level]
      rw [Code.lines, scopeMarks, List.nil_append, lastLine_brace_closing, if_pos ends, stopEq]
      rfl
  | plain line next inductionHypothesis =>
      rw [Code.lines, List.length_cons] at stopEq
      have behind := inductionHypothesis isItems nested (by omega : stop = number + 1 + _)
      rw [Code.lines, scopeMarks, List.append_assoc, lastLine_plain line.holds, behind, Code.reach]
      omega
  | branch condition body chained next bodyHypothesis chainHypothesis nextHypothesis =>
      obtain ⟨bodyNested, chainNested, nextNested⟩ := nested
      rw [Code.lines, List.length_cons, List.length_append, List.length_append] at stopEq
      have behind := nextHypothesis isItems nextNested
        (by omega : stop = number + 1 + body.lines.length + chained.lines.length + _)
      have inBody := lastLine_code body bodyNested deeper true scope (number + 1) fileEnd
        (scopeMarks true scope (number + 1 + body.lines.length) chained.lines ++
          (scopeMarks true scope (number + 1 + body.lines.length + chained.lines.length)
            next.lines ++ .brace stop .closing :: later))
      have inChain := lastLine_code chained chainNested lives true scope
        (number + 1 + body.lines.length) fileEnd
        (scopeMarks true scope (number + 1 + body.lines.length + chained.lines.length)
          next.lines ++ .brace stop .closing :: later)
      rw [Code.lines, scopeMarks, List.append_assoc, lastLine_opening condition.holds_if rfl,
        scopeMarks_append, List.append_assoc, scopeMarks_append, List.append_assoc]
      refine (inBody.trans (inChain.trans behind)).trans ?_
      rw [Code.reach]
      omega
  | switch subject items closing next itemsHypothesis nextHypothesis =>
      obtain ⟨itemsNested, nextNested⟩ := nested
      rw [Code.lines, List.length_cons, List.length_append, List.length_cons] at stopEq
      have behind := nextHypothesis isItems nextNested
        (by omega : stop = number + 1 + items.lines.length + 1 + _)
      have around : branch.depth < outer + 1 + 1 := by omega
      have inItems := lastLine_code items itemsNested around true scope (number + 1) fileEnd
        (lineMarks true
            (sourceLine (number + 1 + items.lines.length) scope (closingLine closing)) ++
          (scopeMarks true scope (number + 1 + items.lines.length + 1) next.lines ++
            .brace stop .closing :: later))
      rw [Code.lines, scopeMarks, List.append_assoc, lastLine_opening subject.holds_switch rfl,
        scopeMarks_append, List.append_assoc, scopeMarks, List.append_assoc]
      refine inItems.trans ?_
      rw [lastLine_closing, lives, if_neg Bool.false_ne_true, behind, Code.reach]
      omega
  -- A label stands at the level of the switch, so it ends the one before it.
  | case label next inductionHypothesis =>
      have atLevel : outer + 1 ≤ branch.depth := Nat.le_of_eq level.symm
      rw [Code.lines, scopeMarks, List.append_assoc,
        lastLine_label label.holds rfl (Source.nested_braces nested.1) lives,
        decide_eq_true atLevel]
      rfl
  | default margin next inductionHypothesis =>
      have atLevel : outer + 1 ≤ branch.depth := Nat.le_of_eq level.symm
      rw [Code.lines, scopeMarks, List.append_assoc,
        lastLine_label (holds_defaultLine margin) rfl .done lives, decide_eq_true atLevel]
      rfl
  | close closing => cases isItems
  | elseIf => cases isItems
  | otherwise => cases isItems

theorem openedRegion_label (kind : Kind) (isLabel : kind.isLabel = true) (text : Text)
    {braces : List Brace} (bracesNested : Source.Nested 0 braces) (next : Code (.body true))
    (nested : next.LabelsNested) (scope : ScopeEntry) (outer fileEnd : Nat) (later : List Mark)
    {number stop : Nat} (stopEq : stop = number + 1 + next.lines.length) :
    openedRegion fileEnd scope kind text number (outer + 1)
        (braces.map (.brace number) ++ .lineEnd number ::
          (scopeMarks true scope (number + 1) next.lines ++ .brace stop .closing :: later)) =
      { scope,
        outcomes := Case.conditions
          { scope, kind, condition := text, startLine := number, depth := outer + 1 },
        first := number, last := number + next.reach } := by
  let branch : Branch :=
    { scope, kind, condition := text, startLine := number, depth := outer + 1 }
  have lives : branch.endsAt (outer + 1) = false := by simp [endsAt_eq, isLabel, branch]
  let behind := scopeMarks true scope (number + 1) next.lines ++ .brace stop .closing :: later
  have inside : lastLine branch false fileEnd (outer + 1)
      (braces.map (.brace number) ++ .lineEnd number :: behind) =
        lastLine branch false fileEnd (outer + 1) behind := lastLine_nested bracesNested lives
  have reached : lastLine branch false fileEnd (outer + 1) behind =
      number + 1 + next.reach - 1 :=
    lastLine_reach next rfl nested isLabel rfl scope fileEnd later stopEq
  have last := inside.trans reached
  have total : number + 1 + next.reach - 1 = number + next.reach := by omega
  rw [total] at last
  exact (congrArg (fun last => regionOf { branch, last }) last).trans
    (regionOf_eq (Nat.le_add_right number next.reach))

/-- What stands behind a part: the lines of a switch end at its closing brace. -/
def Part.Closed (depth stop : Nat) (later : List Mark) : Part → Prop
  | body true => 0 < depth ∧ ∃ tail, later = .brace stop .closing :: tail
  | _ => True

theorem regionsFrom_labelLine {raw text : Text} {kind : Kind} {braces : List Brace}
    (holds : Holds raw [] (some (kind, text)) braces) (isLabel : kind.isLabel = true)
    (bracesNested : Source.Nested 0 braces) (next : Code (.body true))
    (nested : next.LabelsNested) (hot : Bool) (scope : ScopeEntry) (fileEnd : Nat)
    {depth number stop : Nat} {later : List Mark}
    (closed : (Part.body true).Closed depth stop later)
    (stopEq : stop = number + 1 + next.lines.length) :
    regionsFrom fileEnd depth (lineMarks hot (sourceLine number scope raw) ++
        (scopeMarks hot scope (number + 1) next.lines ++ later)) =
      (if hot then
        [{ scope,
           outcomes :=
             Case.conditions { scope, kind, condition := text, startLine := number, depth },
           first := number, last := number + next.reach }] else []) ++
        regionsFrom fileEnd depth (scopeMarks hot scope (number + 1) next.lines ++ later) := by
  obtain ⟨positive, tail, rfl⟩ := closed
  obtain ⟨outer, rfl⟩ : ∃ outer, depth = outer + 1 := ⟨depth - 1, by omega⟩
  have opened := openedRegion_label kind isLabel text bracesNested next nested scope outer fileEnd
    tail stopEq
  rw [regionsFrom_label holds bracesNested]
  cases hot with
  | true => rw [if_pos rfl, if_pos rfl, opened]
  | false => rfl

/-- The regions of code are decided by its marks, if its headers count. -/
theorem regionsFrom_code {part : Part} (code : Code part) (nested : code.LabelsNested)
    {depth : Nat} (hot : Bool) (scope : ScopeEntry) {number stop : Nat} (fileEnd : Nat)
    {later : List Mark} (closed : part.Closed depth stop later)
    (stopEq : stop = number + code.lines.length) :
    regionsFrom fileEnd (part.entry depth) (scopeMarks hot scope number code.lines ++ later) =
      (if hot then code.regions scope number else []) ++ regionsFrom fileEnd depth later := by
  induction code generalizing depth number stop later with
  | stop => cases hot <;> rfl
  | plain line next inductionHypothesis =>
      rw [Code.lines, List.length_cons] at stopEq
      have behind := inductionHypothesis nested closed (by omega : stop = number + 1 + _)
      rw [Code.lines, scopeMarks, List.append_assoc, regionsFrom_plain line.holds]
      exact behind
  | branch condition body chained next bodyHypothesis chainHypothesis nextHypothesis =>
      obtain ⟨bodyNested, chainNested, nextNested⟩ := nested
      rw [Code.lines, List.length_cons, List.length_append, List.length_append] at stopEq
      let chainNumber := number + 1 + body.lines.length
      let nextNumber := chainNumber + chained.lines.length
      let nextMarks := scopeMarks hot scope nextNumber next.lines ++ later
      let chainMarks := scopeMarks hot scope chainNumber chained.lines ++ nextMarks
      have inChain : regionsFrom fileEnd (depth + 1) chainMarks =
          (if hot then chained.regions scope chainNumber else []) ++
            regionsFrom fileEnd depth nextMarks := chainHypothesis chainNested trivial rfl
      have behind : regionsFrom fileEnd depth nextMarks =
          (if hot then next.regions scope nextNumber else []) ++ regionsFrom fileEnd depth later :=
        nextHypothesis nextNested closed (by omega)
      have whole := regions_block .ifHeader rfl (headerText "if".toList condition.text) body
        bodyNested chained hot scope number depth fileEnd nextMarks rfl rfl
        (bodyHypothesis bodyNested trivial rfl)
      rw [Code.lines, scopeMarks, scopeMarks_append, scopeMarks_append, List.append_assoc,
        List.append_assoc, List.append_assoc]
      refine ((regionsFrom_opening condition.holds_if).trans whole).trans ?_
      rw [inChain, behind]
      cases hot with
      | true => simp [Code.regions, Case.conditions, bothOutcomes, chainNumber, nextNumber]
      | false => rfl
  | switch subject items closing next itemsHypothesis nextHypothesis =>
      obtain ⟨itemsNested, nextNested⟩ := nested
      rw [Code.lines, List.length_cons, List.length_append, List.length_cons] at stopEq
      let closingNumber := number + 1 + items.lines.length
      let nextMarks := scopeMarks hot scope (closingNumber + 1) next.lines ++ later
      have closes := (holds_closingLine closing).plain_marks hot closingNumber scope
      have behind : regionsFrom fileEnd depth nextMarks =
          (if hot then next.regions scope (closingNumber + 1) else []) ++
            regionsFrom fileEnd depth later :=
        nextHypothesis nextNested closed (by omega)
      have whole := regionsFrom_switch subject items itemsNested closing hot scope number depth
        fileEnd nextMarks rfl
        (itemsHypothesis itemsNested ⟨Nat.succ_pos depth, _, congrArg (· ++ nextMarks) closes⟩ rfl)
      rw [Code.lines, scopeMarks, scopeMarks_append, scopeMarks, List.append_assoc,
        List.append_assoc, List.append_assoc]
      refine whole.trans ?_
      rw [behind]
      cases hot with
      | true => simp [Code.regions, closingNumber]
      | false => rfl
  | case label next inductionHypothesis =>
      obtain ⟨bracesNested, nextNested⟩ := nested
      rw [Code.lines, List.length_cons] at stopEq
      have behind := inductionHypothesis nextNested closed (by omega : stop = number + 1 + _)
      have opened := regionsFrom_labelLine label.holds rfl (Source.nested_braces bracesNested) next
        nextNested hot scope fileEnd closed (by omega : stop = number + 1 + _)
      rw [Code.lines, scopeMarks, List.append_assoc]
      refine (opened.trans (congrArg _ behind)).trans ?_
      cases hot <;> rfl
  | default margin next inductionHypothesis =>
      rw [Code.lines, List.length_cons] at stopEq
      have behind := inductionHypothesis nested closed (by omega : stop = number + 1 + _)
      have opened := regionsFrom_labelLine (holds_defaultLine margin) rfl .done next nested hot
        scope fileEnd closed (by omega : stop = number + 1 + _)
      rw [Code.lines, scopeMarks, List.append_assoc]
      refine (opened.trans (congrArg _ behind)).trans ?_
      cases hot <;> rfl
  | close closing =>
      rw [Code.lines, scopeMarks, List.append_assoc]
      refine regionsFrom_closing.trans ?_
      cases hot <;> rfl
  | elseIf condition body chained bodyHypothesis chainHypothesis =>
      obtain ⟨bodyNested, chainNested⟩ := nested
      let chainNumber := number + 1 + body.lines.length
      let chainMarks := scopeMarks hot scope chainNumber chained.lines ++ later
      have inChain : regionsFrom fileEnd (depth + 1) chainMarks =
          (if hot then chained.regions scope chainNumber else []) ++
            regionsFrom fileEnd depth later := chainHypothesis chainNested trivial rfl
      have whole := regions_block .elseIfHeader rfl (headerText "else if".toList condition.text)
        body bodyNested chained hot scope number depth fileEnd later rfl rfl
        (bodyHypothesis bodyNested trivial rfl)
      rw [Code.lines, scopeMarks, scopeMarks_append, List.append_assoc, List.append_assoc]
      refine ((regionsFrom_reopening condition.holds_elseIf).trans whole).trans ?_
      rw [inChain]
      cases hot with
      | true => simp [Code.regions, Case.conditions, bothOutcomes, chainNumber]
      | false => rfl
  | otherwise margin body closing inductionHypothesis =>
      let closingMarks :=
        scopeMarks hot scope (number + 1 + body.lines.length) (Code.close closing).lines ++ later
      have left : regionsFrom fileEnd (depth + 1) closingMarks =
          regionsFrom fileEnd depth later := by
        simp only [closingMarks, Code.lines, scopeMarks, List.append_nil]
        exact regionsFrom_closing
      have whole := regions_block .elseHeader rfl "else".toList body nested (.close closing) hot
        scope number depth fileEnd later rfl rfl (inductionHypothesis nested trivial rfl)
      rw [Code.lines, scopeMarks, scopeMarks_append, List.append_assoc, List.append_assoc]
      refine ((regionsFrom_reopening (holds_elseLine margin)).trans whole).trans ?_
      rw [left]
      cases hot <;> rfl

end ChangeCoverage.Program
