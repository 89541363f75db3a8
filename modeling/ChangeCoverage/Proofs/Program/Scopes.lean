import ChangeCoverage.Proofs.Program.Line

/-!
The scopes of a program.  Code leaves the open scopes alone, since none of its
closing braces leaves a depth at which a scope was opened, and the closing brace
of a type or method brings back the scope around it.
-/

namespace ChangeCoverage.Program

open Source (ScopeEntry ScopeState Brace Declaration Margin maskLine braces)

/-- The depth at which a part starts if it leaves the given one. -/
def Part.entry (depth : Nat) : Part → Nat
  | body _ => depth
  | chain => depth + 1

def entriesFrom (state : ScopeState) (fileLines : List Text) : List ScopeEntry :=
  (state.trace fileLines).map (·.2)

theorem entriesFrom_cons (state : ScopeState) (raw : Text) (rest : List Text) :
    entriesFrom state (raw :: rest) =
      (state.advance raw).2 :: entriesFrom (state.advance raw).1 rest := rfl

theorem find?_eq_none {masked : Text} (undeclared : Declaration.find? masked true = none)
    (insideType : Bool) : Declaration.find? masked insideType = none := by
  unfold Declaration.find? at undeclared ⊢
  cases typeName : Declaration.typeName? masked with
  | some name =>
      rw [typeName] at undeclared
      exact absurd undeclared (Option.some_ne_none _)
  | none =>
      rw [typeName] at undeclared
      cases insideType with
      | true => exact undeclared
      | false => rfl

theorem find?_type {masked name : Text}
    (declares : Declaration.find? masked true = some (.type name)) (insideType : Bool) :
    Declaration.find? masked insideType = some (.type name) := by
  unfold Declaration.find? at declares ⊢
  cases typeName : Declaration.typeName? masked with
  | some found =>
      rw [typeName] at declares
      exact declares
  | none =>
      rw [typeName] at declares
      obtain ⟨_, _, isMethod⟩ := Option.map_eq_some_iff.mp declares
      exact absurd isMethod (fun equality => Declaration.noConfusion equality)

section Lines

variable {state : ScopeState} {raw : Text} {before after : List Brace}
  {header? : Option (Branch.Kind × Text)}

theorem entriesFrom_undeclared (code : state.lexState = .code)
    (holds : Holds raw before header? after)
    (undeclared : Declaration.find? (maskLine raw .code).1 true = none) (rest : List Text) :
    entriesFrom state (raw :: rest) =
      ((before ++ after).foldl ScopeState.passBrace state).current ::
        entriesFrom ((before ++ after).foldl ScopeState.passBrace state) rest := by
  have entered : { state with lexState := (maskLine raw .code).2.atLineEnd } = state := by
    rw [holds.ends, ← code]
  have advanced : state.advance raw =
      ((before ++ after).foldl ScopeState.passBrace state,
        ((before ++ after).foldl ScopeState.passBrace state).current) := by
    simp only [ScopeState.advance, code, find?_eq_none undeclared, holds.braces_eq, entered]
  rw [entriesFrom_cons, advanced]

def inside (state : ScopeState) (declaration : Declaration) : ScopeState :=
  { state.openScope declaration with depth := state.depth + 1 }

theorem entriesFrom_declared {declaration : Declaration} (line : DeclarationLine declaration)
    (code : state.lexState = .code)
    (declares : Declaration.find? (line.front ++ ['{']) state.current.typeName.isSome =
      some declaration) (rest : List Text) :
    entriesFrom state (line.raw :: rest) =
      state.current.enter declaration :: entriesFrom (inside state declaration) rest := by
  have opens : braces (line.front ++ ['{']) = [.opening] := by
    rw [Source.braces_append, line.braceless]
    rfl
  have unended : ScopeState.endsStatement (line.front ++ ['{']) = false := by
    have reversed : (line.front ++ ['{']).reverse = '{' :: line.front.reverse := by simp
    rw [ScopeState.endsStatement, Text.trimEnd, reversed,
      List.dropWhile_cons_of_neg (by decide), ← reversed, List.reverse_reverse]
    simp
  have entered : { state with lexState := .code } = state := by rw [← code]
  have advanced : state.advance line.raw =
      (inside state declaration, state.current.enter declaration) := by
    simp only [ScopeState.advance, code, line.masks, declares, opens, unended,
      Source.LexState.atLineEnd, entered]
    rfl
  rw [entriesFrom_cons, advanced]

/-- The closing brace of a declaration brings back the state before it. -/
theorem passBrace_inside (keeps : state.Keeps state.depth) (declaration : Declaration) :
    (inside state declaration).passBrace .closing = state := by
  have closed : ScopeState.closeDeeper state.depth
      (state.openScope declaration).stack (state.openScope declaration).current =
        (state.stack, state.current) := by
    simp only [ScopeState.openScope, ScopeState.closeDeeper, Nat.le_refl, if_true]
    cases found : state.stack with
    | nil => rfl
    | cons frame outer =>
        have above : frame.entryDepth < state.depth := keeps frame (by simp [found])
        rw [ScopeState.closeDeeper, if_neg (by omega)]
  simp only [inside, ScopeState.passBrace, Nat.add_sub_cancel, closed]
  rfl

end Lines

/-- Whether code that comes back to a depth leaves the open scopes alone. -/
structure Steady (state : ScopeState) (depth : Nat) : Prop where
  code : state.lexState = .code
  keeps : state.Keeps depth

theorem Steady.raise {state : ScopeState} {depth : Nat} (steady : Steady state depth)
    (reached : Nat) : Steady { state with depth := reached } (depth + 1) :=
  ⟨steady.code, steady.keeps.mono (Nat.le_succ depth)⟩

theorem Steady.move {state : ScopeState} {depth : Nat} (steady : Steady state depth)
    (reached : Nat) : Steady { state with depth := reached } depth :=
  ⟨steady.code, steady.keeps⟩

theorem Steady.passBrace_closing {state : ScopeState} {depth : Nat} (steady : Steady state depth)
    (above : state.depth = depth + 1) : state.passBrace .closing = { state with depth } := by
  have left : state.depth - 1 = depth := by omega
  have passed := ScopeState.Keeps.passBrace_closing (left ▸ steady.keeps)
  rw [passed, left]

section CodeLines

variable {state : ScopeState} {depth : Nat} {raw : Text} {header? : Option (Branch.Kind × Text)}
  (steady : Steady state depth)
  (undeclared : Declaration.find? (maskLine raw .code).1 true = none) (rest : List Text)

include steady undeclared

theorem entriesFrom_opening (holds : Holds raw [] header? [.opening]) :
    entriesFrom state (raw :: rest) =
      state.current :: entriesFrom { state with depth := state.depth + 1 } rest :=
  entriesFrom_undeclared steady.code holds undeclared rest

theorem entriesFrom_closing (above : state.depth = depth + 1)
    (holds : Holds raw [] header? [.closing]) :
    entriesFrom state (raw :: rest) =
      state.current :: entriesFrom { state with depth } rest := by
  rw [entriesFrom_undeclared steady.code holds undeclared rest]
  simp only [List.nil_append, List.foldl_cons, List.foldl_nil, steady.passBrace_closing above]

theorem entriesFrom_reopening (above : state.depth = depth + 1)
    (holds : Holds raw [.closing] header? [.opening]) :
    entriesFrom state (raw :: rest) =
      state.current :: entriesFrom { state with depth := depth + 1 } rest := by
  rw [entriesFrom_undeclared steady.code holds undeclared rest]
  simp only [List.cons_append, List.nil_append, List.foldl_cons, List.foldl_nil,
    steady.passBrace_closing above]
  rfl

theorem entriesFrom_nested (level : state.depth = depth) {braces : List Brace}
    (nested : Source.Nested 0 braces) (holds : Holds raw [] header? braces) :
    entriesFrom state (raw :: rest) = state.current :: entriesFrom state rest := by
  have passed := ScopeState.foldl_passBrace_nested nested state level steady.keeps
  have same : { state with depth } = state := by rw [← level]
  rw [same] at passed
  rw [entriesFrom_undeclared steady.code holds undeclared rest, List.nil_append, passed]

end CodeLines

theorem undeclared_margin (margin : Margin) {text : Text}
    (masks : maskLine text .code = (text, .code)) (noType : Declaration.typeName? text = none)
    (noMethod : Declaration.methodParts? text = none) :
    Declaration.find? (maskLine (margin.val ++ text) .code).1 true = none := by
  rw [masks_margin margin masks]
  exact Declaration.find?_blanks margin.property.isBlankText noType noMethod true

theorem undeclared_closingLine (margin : Margin) :
    Declaration.find? (maskLine (closingLine margin) .code).1 true = none :=
  undeclared_margin margin rfl (by decide +kernel) (by decide +kernel)

theorem undeclared_elseLine (margin : Margin) :
    Declaration.find? (maskLine (elseLine margin) .code).1 true = none :=
  undeclared_margin margin rfl (by decide +kernel) (by decide +kernel)

theorem undeclared_defaultLine (margin : Margin) :
    Declaration.find? (maskLine (defaultLine margin) .code).1 true = none :=
  undeclared_margin margin rfl (by decide +kernel) (by decide +kernel)

theorem Condition.undeclared_line {lead : Text} (condition : Condition lead) :
    Declaration.find? (maskLine condition.line .code).1 true = none := by
  rw [Condition.line, condition.masks]
  exact condition.undeclared

theorem Label.undeclared_line (label : Label) :
    Declaration.find? (maskLine label.line .code).1 true = none := by
  rw [Label.line, label.masks]
  exact label.undeclared

/-- Code belongs to the scope around it and brings back its state. -/
theorem entriesFrom_code {part : Part} (code : Code part) (nested : code.LabelsNested)
    {depth : Nat} {state : ScopeState} (atDepth : state.depth = part.entry depth)
    (steady : Steady state depth) (rest : List Text) :
    entriesFrom state (code.lines ++ rest) =
      code.lines.map (fun _ => state.current) ++ entriesFrom { state with depth } rest := by
  induction code generalizing depth state rest with
  | stop =>
      have same : { state with depth } = state := by
        rw [← show state.depth = depth from atDepth]
      rw [same]
      rfl
  | plain line next inductionHypothesis =>
      have later := inductionHypothesis nested atDepth steady rest
      rw [Code.lines, List.cons_append, entriesFrom_nested steady line.undeclared _ atDepth .done
        line.holds, later]
      rfl
  | branch condition body chained next bodyHypothesis chainHypothesis nextHypothesis =>
      obtain ⟨bodyNested, chainNested, nextNested⟩ := nested
      have level : state.depth = depth := atDepth
      have first := entriesFrom_opening steady condition.undeclared_line
        (body.lines ++ (chained.lines ++ (next.lines ++ rest))) condition.holds_if
      rw [level] at first
      have inBody := bodyHypothesis bodyNested rfl (steady.raise (depth + 1))
        (chained.lines ++ (next.lines ++ rest))
      have inChain := chainHypothesis chainNested rfl (steady.move (depth + 1)) (next.lines ++ rest)
      have behind := nextHypothesis nextNested rfl (steady.move depth) rest
      simp only [Code.lines, List.cons_append, List.append_assoc, List.map_cons, List.map_append]
      rw [first, inBody, inChain, behind]
  | switch subject items closing next itemsHypothesis nextHypothesis =>
      obtain ⟨itemsNested, nextNested⟩ := nested
      have level : state.depth = depth := atDepth
      have first := entriesFrom_opening steady subject.undeclared_line
        (items.lines ++ closingLine closing :: (next.lines ++ rest)) subject.holds_switch
      rw [level] at first
      have inItems := itemsHypothesis itemsNested rfl (steady.raise (depth + 1))
        (closingLine closing :: (next.lines ++ rest))
      have last := entriesFrom_closing (steady.move (depth + 1)) (undeclared_closingLine closing)
        (next.lines ++ rest) rfl (holds_closingLine closing)
      have behind := nextHypothesis nextNested rfl (steady.move depth) rest
      simp only [Code.lines, List.cons_append, List.append_assoc, List.map_cons, List.map_append]
      rw [first, inItems, last, behind]
  | case label next inductionHypothesis =>
      obtain ⟨labelNested, nextNested⟩ := nested
      have later := inductionHypothesis nextNested atDepth steady rest
      rw [Code.lines, List.cons_append, entriesFrom_nested steady label.undeclared_line _ atDepth
        (Source.nested_braces labelNested) label.holds, later]
      rfl
  | default margin next inductionHypothesis =>
      have later := inductionHypothesis nested atDepth steady rest
      rw [Code.lines, List.cons_append, entriesFrom_nested steady (undeclared_defaultLine margin) _
        atDepth .done (holds_defaultLine margin), later]
      rfl
  | close closing =>
      exact entriesFrom_closing steady (undeclared_closingLine closing) rest atDepth
        (holds_closingLine closing)
  | elseIf condition body chained bodyHypothesis chainHypothesis =>
      obtain ⟨bodyNested, chainNested⟩ := nested
      have first := entriesFrom_reopening steady condition.undeclared_line
        (body.lines ++ (chained.lines ++ rest)) atDepth condition.holds_elseIf
      have inBody := bodyHypothesis bodyNested rfl (steady.raise (depth + 1))
        (chained.lines ++ rest)
      have inChain := chainHypothesis chainNested rfl (steady.move (depth + 1)) rest
      simp only [Code.lines, List.cons_append, List.append_assoc, List.map_cons, List.map_append]
      rw [first, inBody, inChain]
  | otherwise margin body closing inductionHypothesis =>
      have first := entriesFrom_reopening steady (undeclared_elseLine margin)
        (body.lines ++ (closingLine closing :: rest)) atDepth (holds_elseLine margin)
      have inBody := inductionHypothesis nested rfl (steady.raise (depth + 1))
        (closingLine closing :: rest)
      have last := entriesFrom_closing (steady.move (depth + 1)) (undeclared_closingLine closing)
        rest rfl (holds_closingLine closing)
      simp only [Code.lines, List.cons_append, List.append_assoc, List.map_cons, List.map_append,
        List.nil_append]
      rw [first, inBody, last]
      rfl

def Members.entries (scope : ScopeEntry) : {insideType : Bool} → Members insideType →
    List ScopeEntry
  | _, stop => []
  | _, plain _ next => scope :: next.entries scope
  | _, @type _ name _ inner _ next =>
      { typeName := some name, methodName := none } ::
        (inner.entries { typeName := some name, methodName := none } ++
          scope :: next.entries scope)
  | _, @method name _ body _ next =>
      { scope with methodName := some name } ::
        (body.lines.map (fun _ => { scope with methodName := some name }) ++
          scope :: next.entries scope)

theorem steady_inside {state : ScopeState} (code : state.lexState = .code)
    (declaration : Declaration) : Steady (inside state declaration) (state.depth + 1) := by
  refine ⟨code, ?_⟩
  intro frame membership
  obtain rfl := Option.some.inj membership
  exact Nat.lt_succ_self state.depth

theorem entriesFrom_members {insideType : Bool} (members : Members insideType)
    (nested : members.LabelsNested) {state : ScopeState}
    (isInside : state.current.typeName.isSome = insideType) (steady : Steady state state.depth)
    (rest : List Text) :
    entriesFrom state (members.lines ++ rest) =
      members.entries state.current ++ entriesFrom state rest := by
  induction members generalizing state rest with
  | stop => rfl
  | plain line next inductionHypothesis =>
      have later := inductionHypothesis nested isInside steady rest
      rw [Members.lines, List.cons_append, entriesFrom_nested steady line.undeclared _ rfl .done
        line.holds, later]
      rfl
  | @type _ name line inner closing next innerHypothesis nextHypothesis =>
      obtain ⟨innerNested, nextNested⟩ := nested
      have first := entriesFrom_declared line steady.code (find?_type line.declares _)
        (inner.lines ++ closingLine closing :: (next.lines ++ rest))
      have within := steady_inside steady.code (.type name)
      have inInner := innerHypothesis innerNested rfl within
        (closingLine closing :: (next.lines ++ rest))
      have last := entriesFrom_undeclared within.code (holds_closingLine closing)
        (undeclared_closingLine closing) (next.lines ++ rest)
      simp only [List.nil_append, List.foldl_cons, List.foldl_nil,
        passBrace_inside steady.keeps] at last
      have behind := nextHypothesis nextNested isInside steady rest
      simp only [Members.lines, List.cons_append, List.append_assoc, Members.entries]
      rw [first, inInner, last, behind]
      rfl
  | @method name line body closing next nextHypothesis =>
      obtain ⟨bodyNested, nextNested⟩ := nested
      have first := entriesFrom_declared line steady.code (isInside ▸ line.declares)
        (body.lines ++ closingLine closing :: (next.lines ++ rest))
      have within := steady_inside steady.code (.method name)
      have inBody :
          entriesFrom (inside state (.method name))
              (body.lines ++ closingLine closing :: (next.lines ++ rest)) =
            body.lines.map (fun _ => (inside state (.method name)).current) ++
              entriesFrom (inside state (.method name))
                (closingLine closing :: (next.lines ++ rest)) :=
        entriesFrom_code body bodyNested rfl within (closingLine closing :: (next.lines ++ rest))
      have last := entriesFrom_undeclared within.code (holds_closingLine closing)
        (undeclared_closingLine closing) (next.lines ++ rest)
      simp only [List.nil_append, List.foldl_cons, List.foldl_nil,
        passBrace_inside steady.keeps] at last
      have behind := nextHypothesis nextNested isInside steady rest
      simp only [Members.lines, List.cons_append, List.append_assoc, Members.entries]
      rw [first, inBody, last, behind]
      rfl

/-- Every line of a program belongs to the innermost type and method around it. -/
theorem scopeEntries_lines (file : Members false) (nested : file.LabelsNested) :
    Source.scopeEntries file.lines = file.entries {} := by
  have start : Steady {} ({} : ScopeState).depth :=
    ⟨rfl, fun frame membership => absurd membership (Option.not_mem_none frame)⟩
  have entries := entriesFrom_members file nested rfl start []
  rw [List.append_nil] at entries
  exact entries.trans (List.append_nil _)

end ChangeCoverage.Program
