import ChangeCoverage.Proofs.Program.Scopes

/-!
The marks of a program.  A branch lives on through code nested in it, so its
last line is decided by what stands behind that code.
-/

namespace ChangeCoverage.Program

open Source (ScopeEntry Brace Margin maskLine)
open Branch (Kind Header Mark headers lineMarks lastLine endsAt_eq)

def scopeMarks (hot : Bool) (scope : ScopeEntry) (number : Nat) : List Text → List Mark
  | [] => []
  | raw :: rest =>
      lineMarks hot (sourceLine number scope raw) ++ scopeMarks hot scope (number + 1) rest

theorem scopeMarks_append (hot : Bool) (scope : ScopeEntry) (number : Nat)
    (front back : List Text) :
    scopeMarks hot scope number (front ++ back) =
      scopeMarks hot scope number front ++ scopeMarks hot scope (number + front.length) back := by
  induction front generalizing number with
  | nil => rfl
  | cons raw rest inductionHypothesis =>
      rw [List.cons_append, scopeMarks, scopeMarks, inductionHypothesis, List.length_cons,
        List.append_assoc, Nat.add_assoc, Nat.add_comm 1]

def marks (isHot : ScopeEntry → Bool) (number : Nat) (fileLines : List Text)
    (scopes : List ScopeEntry) : List Mark :=
  (Branch.sourceLines number .code fileLines scopes).flatMap fun line =>
    lineMarks (isHot line.scope) line

def EndsInCode (raw : Text) : Prop :=
  (maskLine raw .code).2.atLineEnd = .code

theorem marks_cons (isHot : ScopeEntry → Bool) (number : Nat) {raw : Text} (ends : EndsInCode raw)
    (rest : List Text) (scope : ScopeEntry) (scopes : List ScopeEntry) :
    marks isHot number (raw :: rest) (scope :: scopes) =
      lineMarks (isHot scope) (sourceLine number scope raw) ++
        marks isHot (number + 1) rest scopes := by
  simp only [marks, Branch.sourceLines, List.flatMap_cons, List.tail_cons]
  rw [show (maskLine raw .code).2.atLineEnd = .code from ends]
  rfl

theorem marks_append (isHot : ScopeEntry → Bool) (scope : ScopeEntry) (number : Nat)
    {front : List Text} (ends : ∀ raw ∈ front, EndsInCode raw) (back : List Text)
    (scopes : List ScopeEntry) :
    marks isHot number (front ++ back) (front.map (fun _ => scope) ++ scopes) =
      scopeMarks (isHot scope) scope number front ++
        marks isHot (number + front.length) back scopes := by
  induction front generalizing number with
  | nil => rfl
  | cons raw rest inductionHypothesis =>
      have later := inductionHypothesis (number + 1) fun other membership =>
        ends other (List.mem_cons_of_mem raw membership)
      rw [List.map_cons, List.cons_append, List.cons_append,
        marks_cons isHot number (ends raw List.mem_cons_self), later, scopeMarks,
        List.append_assoc, List.length_cons, Nat.add_assoc, Nat.add_comm 1]

theorem Code.endInCode {part : Part} (code : Code part) : ∀ raw ∈ code.lines, EndsInCode raw := by
  induction code with
  | stop => exact fun raw membership => absurd membership List.not_mem_nil
  | plain line next inductionHypothesis =>
      exact List.forall_mem_cons.mpr ⟨line.ends, inductionHypothesis⟩
  | branch condition body chained next bodyHypothesis chainHypothesis nextHypothesis =>
      exact List.forall_mem_cons.mpr ⟨condition.holds_if.ends,
        List.forall_mem_append.mpr ⟨bodyHypothesis,
          List.forall_mem_append.mpr ⟨chainHypothesis, nextHypothesis⟩⟩⟩
  | switch subject items closing next itemsHypothesis nextHypothesis =>
      exact List.forall_mem_cons.mpr ⟨subject.holds_switch.ends,
        List.forall_mem_append.mpr ⟨itemsHypothesis,
          List.forall_mem_cons.mpr ⟨(holds_closingLine closing).ends, nextHypothesis⟩⟩⟩
  | case label next inductionHypothesis =>
      exact List.forall_mem_cons.mpr ⟨label.holds.ends, inductionHypothesis⟩
  | default margin next inductionHypothesis =>
      exact List.forall_mem_cons.mpr ⟨(holds_defaultLine margin).ends, inductionHypothesis⟩
  | close closing => exact List.forall_mem_singleton.mpr (holds_closingLine closing).ends
  | elseIf condition body chained bodyHypothesis chainHypothesis =>
      exact List.forall_mem_cons.mpr ⟨condition.holds_elseIf.ends,
        List.forall_mem_append.mpr ⟨bodyHypothesis, chainHypothesis⟩⟩
  | otherwise margin body closing inductionHypothesis =>
      exact List.forall_mem_cons.mpr ⟨(holds_elseLine margin).ends,
        List.forall_mem_append.mpr ⟨inductionHypothesis,
          List.forall_mem_singleton.mpr (holds_closingLine closing).ends⟩⟩

theorem Holds.header_marks {raw : Text} {before after : List Brace} {kind : Kind} {text : Text}
    (holds : Holds raw before (some (kind, text)) after) (hot : Bool) (number : Nat)
    (scope : ScopeEntry) :
    ∃ header : Header, header.kind = kind ∧ header.condition = text ∧
      header.isInline (sourceLine number scope raw).masked = false ∧
      lineMarks hot (sourceLine number scope raw) =
        before.map (.brace number) ++
          (if hot then [.header (sourceLine number scope raw) header] else []) ++
          after.map (.brace number) ++ [.lineEnd number] := by
  have texts := holds.texts
  cases found : headers (maskLine raw .code).1 raw with
  | nil =>
      rw [found] at texts
      exact absurd texts (List.cons_ne_nil _ _).symm
  | cons header others =>
      rw [found] at texts
      obtain ⟨same, none⟩ := List.cons.inj texts
      obtain ⟨rfl, rfl⟩ := Prod.mk.inj same
      have alone : others = [] := List.map_eq_nil_iff.mp none
      subst alone
      refine ⟨header, rfl, rfl, holds.blocks header (by simp [found]), ?_⟩
      rw [holds.lineMarks_eq hot number scope, found]
      rfl

theorem Holds.plain_marks {raw : Text} {before after : List Brace}
    (holds : Holds raw before none after) (hot : Bool) (number : Nat) (scope : ScopeEntry) :
    lineMarks hot (sourceLine number scope raw) =
      before.map (.brace number) ++ after.map (.brace number) ++ [.lineEnd number] := by
  have nothing : headers (maskLine raw .code).1 raw = [] := List.map_eq_nil_iff.mp holds.texts
  rw [holds.lineMarks_eq hot number scope, nothing]
  cases hot <;> simp

section LastLine

variable {branch : Branch} {fileEnd depth number : Nat} {hot : Bool} {scope : ScopeEntry}
  {raw : Text} {kind : Kind} {text : Text} {later : List Mark} {closing : Margin}

/-- A branch that lives on at a depth lives on at greater ones. -/
theorem endsAt_mono {deeper : Nat} (lives : branch.endsAt depth = false) (le : depth ≤ deeper) :
    branch.endsAt deeper = false := by
  simp only [endsAt_eq, Bool.or_eq_false_iff, Bool.and_eq_false_iff, decide_eq_false_iff_not,
    Bool.not_eq_false'] at lives ⊢
  obtain ⟨notBelow, notAt⟩ := lives
  refine ⟨by omega, ?_⟩
  rcases notAt with differs | isLabel
  · exact .inl (by omega)
  · exact .inr isLabel

theorem lastLine_brace_closing :
    lastLine branch false fileEnd (depth + 1) (.brace number .closing :: later) =
      if branch.endsAt depth then number else lastLine branch false fileEnd depth later := by
  simp only [lastLine, endsAt_eq, Nat.add_sub_cancel]

/-- Nested braces are passed by a branch that lives on around them. -/
theorem lastLine_nested {count : Nat} {braces : List Brace} (nested : Source.Nested count braces)
    (lives : branch.endsAt depth = false) :
    lastLine branch false fileEnd (depth + count) (braces.map (.brace number) ++ later) =
      lastLine branch false fileEnd depth later := by
  induction nested with
  | done => rfl
  | opening _ inductionHypothesis => exact inductionHypothesis
  | @closing count _ _ inductionHypothesis =>
      have within := endsAt_mono lives (Nat.le_add_right depth count)
      rw [List.map_cons, List.cons_append, ← Nat.add_assoc, lastLine_brace_closing, within,
        if_neg Bool.false_ne_true]
      exact inductionHypothesis

theorem lastLine_header {line : Branch.SourceLine} {header : Header}
    (block : header.kind.isLabel = false) :
    lastLine branch false fileEnd depth
        ((if hot then [.header line header] else []) ++ later) =
      lastLine branch false fileEnd depth later := by
  cases hot with
  | true =>
      rw [if_pos rfl, List.singleton_append, lastLine, block, Bool.false_and,
        if_neg Bool.false_ne_true]
  | false => rfl

theorem lastLine_opening (holds : Holds raw [] (some (kind, text)) [.opening])
    (block : kind.isLabel = false) :
    lastLine branch false fileEnd depth
        (lineMarks hot (sourceLine number scope raw) ++ later) =
      lastLine branch false fileEnd (depth + 1) later := by
  obtain ⟨header, rfl, _, _, passed⟩ := holds.header_marks hot number scope
  rw [passed]
  simp only [List.map_nil, List.nil_append, List.append_assoc]
  rw [lastLine_header block]
  rfl

theorem lastLine_reopening (holds : Holds raw [.closing] (some (kind, text)) [.opening])
    (block : kind.isLabel = false) :
    lastLine branch false fileEnd (depth + 1)
        (lineMarks hot (sourceLine number scope raw) ++ later) =
      if branch.endsAt depth then number
      else lastLine branch false fileEnd (depth + 1) later := by
  obtain ⟨header, rfl, _, _, passed⟩ := holds.header_marks hot number scope
  rw [passed]
  simp only [List.map_cons, List.map_nil, List.append_assoc, List.cons_append, List.nil_append]
  rw [lastLine_brace_closing, lastLine_header block]
  rfl

theorem lastLine_closing :
    lastLine branch false fileEnd (depth + 1)
        (lineMarks hot (sourceLine number scope (closingLine closing)) ++ later) =
      if branch.endsAt depth then number else lastLine branch false fileEnd depth later := by
  rw [(holds_closingLine closing).plain_marks hot number scope]
  simp only [List.map_cons, List.map_nil, List.nil_append, List.cons_append]
  rw [lastLine_brace_closing]
  rfl

theorem lastLine_plain (holds : Holds raw [] none []) :
    lastLine branch false fileEnd depth
        (lineMarks hot (sourceLine number scope raw) ++ later) =
      lastLine branch false fileEnd depth later := by
  rw [holds.plain_marks hot number scope]
  rfl

/-- A label ends the branches at its depth, and passes those around its block. -/
theorem lastLine_label {braces : List Brace} (holds : Holds raw [] (some (kind, text)) braces)
    (isLabel : kind.isLabel = true) (nested : Source.Nested 0 braces)
    (lives : branch.endsAt depth = false) :
    lastLine branch false fileEnd depth
        (lineMarks hot (sourceLine number scope raw) ++ later) =
      if hot && depth ≤ branch.depth then number - 1
      else lastLine branch false fileEnd depth later := by
  obtain ⟨header, rfl, _, _, passed⟩ := holds.header_marks hot number scope
  have inside : lastLine branch false fileEnd depth
      (braces.map (.brace number) ++ (.lineEnd number :: later)) =
        lastLine branch false fileEnd depth later := lastLine_nested nested lives
  rw [passed]
  simp only [List.map_nil, List.nil_append, List.append_assoc, List.singleton_append]
  cases hot with
  | true =>
      rw [if_pos rfl, List.singleton_append, lastLine, isLabel, Bool.true_and, inside]
      rfl
  | false =>
      rw [if_neg Bool.false_ne_true, List.nil_append, inside, Bool.false_and,
        if_neg Bool.false_ne_true]

/-- Whether a branch lives on through a part that leaves a depth.  The labels
of a switch end the branches at their own depth. -/
def Part.Outlives (branch : Branch) (depth : Nat) : Part → Prop
  | body true => branch.depth < depth
  | _ => branch.endsAt depth = false

theorem Part.Outlives.lives {part : Part} (outlives : part.Outlives branch depth) :
    branch.endsAt depth = false := by
  cases part with
  | chain => exact outlives
  | body inSwitch =>
      cases inSwitch with
      | false => exact outlives
      | true =>
          have above : branch.depth < depth := outlives
          simp only [endsAt_eq, Bool.or_eq_false_iff, Bool.and_eq_false_iff,
            decide_eq_false_iff_not]
          exact ⟨by omega, .inl (by omega)⟩

theorem depth_le_of_lives (lives : branch.endsAt depth = false) : branch.depth ≤ depth := by
  simp only [endsAt_eq, Bool.or_eq_false_iff, decide_eq_false_iff_not] at lives
  omega

end LastLine

/-- Code does not decide the last line of a branch that lives on through it. -/
theorem lastLine_code {part : Part} (code : Code part) (nested : code.LabelsNested)
    {branch : Branch} {depth : Nat} (outlives : part.Outlives branch depth) (hot : Bool)
    (scope : ScopeEntry) (number fileEnd : Nat) (later : List Mark) :
    lastLine branch false fileEnd (part.entry depth)
        (scopeMarks hot scope number code.lines ++ later) =
      lastLine branch false fileEnd depth later := by
  have lives := outlives.lives
  induction code generalizing depth number later with
  | stop => rfl
  | plain line next inductionHypothesis =>
      rw [Code.lines, scopeMarks, List.append_assoc, lastLine_plain line.holds]
      exact inductionHypothesis nested outlives (number + 1) later lives
  | branch condition body chained next bodyHypothesis chainHypothesis nextHypothesis =>
      obtain ⟨bodyNested, chainNested, nextNested⟩ := nested
      have deeper := endsAt_mono lives (Nat.le_succ depth)
      rw [Code.lines, scopeMarks, List.append_assoc, lastLine_opening condition.holds_if rfl,
        scopeMarks_append, List.append_assoc, scopeMarks_append, List.append_assoc]
      exact (bodyHypothesis bodyNested deeper _ _ deeper).trans
        ((chainHypothesis chainNested lives _ _ lives).trans
          (nextHypothesis nextNested outlives _ _ lives))
  | switch subject items closing next itemsHypothesis nextHypothesis =>
      obtain ⟨itemsNested, nextNested⟩ := nested
      have deeper := endsAt_mono lives (Nat.le_succ depth)
      have around : branch.depth < depth + 1 := Nat.lt_succ_of_le (depth_le_of_lives lives)
      rw [Code.lines, scopeMarks, List.append_assoc, lastLine_opening subject.holds_switch rfl,
        scopeMarks_append, List.append_assoc, scopeMarks, List.append_assoc]
      refine (itemsHypothesis itemsNested around _ _ deeper).trans ?_
      rw [lastLine_closing, lives, if_neg Bool.false_ne_true]
      exact nextHypothesis nextNested outlives _ _ lives
  | case label next inductionHypothesis =>
      obtain ⟨labelNested, nextNested⟩ := nested
      have around : ¬depth ≤ branch.depth := Nat.not_le_of_lt outlives
      rw [Code.lines, scopeMarks, List.append_assoc]
      refine (lastLine_label label.holds rfl (Source.nested_braces labelNested) lives).trans ?_
      rw [decide_eq_false around, Bool.and_false, if_neg Bool.false_ne_true]
      exact inductionHypothesis nextNested outlives _ _ lives
  | default margin next inductionHypothesis =>
      have around : ¬depth ≤ branch.depth := Nat.not_le_of_lt outlives
      rw [Code.lines, scopeMarks, List.append_assoc]
      refine (lastLine_label (holds_defaultLine margin) rfl .done lives).trans ?_
      rw [decide_eq_false around, Bool.and_false, if_neg Bool.false_ne_true]
      exact inductionHypothesis nested outlives _ _ lives
  | close closing =>
      rw [Code.lines, scopeMarks, List.append_assoc]
      refine lastLine_closing.trans ?_
      rw [lives, if_neg Bool.false_ne_true]
      rfl
  | elseIf condition body chained bodyHypothesis chainHypothesis =>
      obtain ⟨bodyNested, chainNested⟩ := nested
      have deeper := endsAt_mono lives (Nat.le_succ depth)
      rw [Code.lines, scopeMarks, List.append_assoc, scopeMarks_append, List.append_assoc]
      refine (lastLine_reopening condition.holds_elseIf rfl).trans ?_
      rw [lives, if_neg Bool.false_ne_true]
      exact (bodyHypothesis bodyNested deeper _ _ deeper).trans
        (chainHypothesis chainNested lives _ _ lives)
  | otherwise margin body closing inductionHypothesis =>
      have deeper := endsAt_mono lives (Nat.le_succ depth)
      rw [Code.lines, scopeMarks, List.append_assoc, scopeMarks_append, List.append_assoc,
        scopeMarks, List.append_assoc]
      refine (lastLine_reopening (holds_elseLine margin) rfl).trans ?_
      rw [lives, if_neg Bool.false_ne_true]
      refine (inductionHypothesis nested deeper _ _ deeper).trans ?_
      rw [lastLine_closing, lives, if_neg Bool.false_ne_true]
      rfl

end ChangeCoverage.Program
