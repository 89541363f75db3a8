import ChangeCoverage.Proofs.Branch.Extraction

/-!
Sweeps that run alike.  What a sweep does depends on the kinds and depths of
branches and on whether changed lines touch them, and it takes the branches over
as they are.  Two sweeps over marks that agree in this find the same branches, up
to what tells the branches of the two files apart.
-/

namespace ChangeCoverage.Branch

/-- From the branches of one file to those of another, of the same kinds and depths. -/
structure Transfer where
  toFun : Branch → Branch
  kind_eq : ∀ branch, (toFun branch).kind = branch.kind
  depth_eq : ∀ branch, (toFun branch).depth = branch.depth

/-- Changes the numbers, lines and headers that marks are made of. -/
def Mark.map (onNumber : Nat → Nat) (onLine : SourceLine → SourceLine)
    (onHeader : Header → Header) : Mark → Mark
  | .brace line met => .brace (onNumber line) met
  | .header line found => .header (onLine line) (onHeader found)
  | .lineEnd line => .lineEnd (onNumber line)

/-- Headers that keep their columns keep their places among the braces. -/
theorem map_marksFrom (onNumber : Nat → Nat) (onLine : SourceLine → SourceLine)
    (onHeader : Header → Header) {line : SourceLine}
    (sameNumber : (onLine line).number = onNumber line.number)
    (sameColumn : ∀ header, (onHeader header).column = header.column) (found : List Header)
    (offset : Nat) (text : Text) :
    (marksFrom line found offset text).map (Mark.map onNumber onLine onHeader) =
      marksFrom (onLine line) (found.map onHeader) offset text := by
  induction text generalizing offset with
  | nil => rfl
  | cons character rest inductionHypothesis =>
      have columns : (fun header : Header => decide (header.column = offset)) ∘ onHeader =
          fun header => decide (header.column = offset) :=
        funext fun header => congrArg (fun column => decide (column = offset)) (sameColumn header)
      have headers : (Mark.map onNumber onLine onHeader) ∘ Mark.header line =
          Mark.header (onLine line) ∘ onHeader := rfl
      have braces : (Mark.map onNumber onLine onHeader) ∘ Mark.brace line.number =
          Mark.brace (onNumber line.number) := rfl
      simp only [marksFrom, List.map_append, List.map_map, List.filter_map, columns, headers,
        braces, sameNumber, inductionHypothesis]

namespace Transfer

instance : CoeFun Transfer fun _ => Branch → Branch := ⟨toFun⟩

def onOpen (transfer : Transfer) (candidate : Open) : Open :=
  { candidate with branch := transfer candidate.branch }

def onProgress (transfer : Transfer) (progress : Progress) : Progress :=
  { progress with
    stack := progress.stack.map transfer.onOpen
    accepted := progress.accepted.map transfer }

variable (transfer : Transfer) (changed other : List Nat)

/-- A branch that ends at one line is touched like its counterpart that ends at the other. -/
def ReachesAlike (last otherLast : Nat) : Prop :=
  ∀ branch, touches other (transfer branch).startLine otherLast =
    touches changed branch.startLine last

inductive Alike : Mark → Mark → Prop where
  | brace {line otherLine : Nat} (brace : Source.Brace) :
      transfer.ReachesAlike changed other line otherLine →
        Alike (.brace line brace) (.brace otherLine brace)
  | header {line otherLine : SourceLine} {header otherHeader : Header} :
      (∀ depth, otherHeader.branchAt otherLine depth = transfer (header.branchAt line depth)) →
      otherHeader.isInline otherLine.masked = header.isInline line.masked →
      other.contains otherLine.number = changed.contains line.number →
      transfer.ReachesAlike changed other (line.number - 1) (otherLine.number - 1) →
        Alike (.header line header) (.header otherLine otherHeader)
  | lineEnd {line otherLine : Nat} :
      transfer.ReachesAlike changed other line otherLine →
        Alike (.lineEnd line) (.lineEnd otherLine)

variable {transfer changed other} {last otherLast : Nat}

theorem accepting_onOpen (reach : transfer.ReachesAlike changed other last otherLast)
    (ended : List Open) :
    accepting other (fun _ => otherLast) (ended.map transfer.onOpen) =
      (accepting changed (fun _ => last) ended).map transfer := by
  induction ended with
  | nil => rfl
  | cons top rest inductionHypothesis =>
      have sameTouch : touches other (transfer.onOpen top).branch.startLine otherLast =
          touches changed top.branch.startLine last := reach top.branch
      have sameAccepted : (transfer.onOpen top).accepted = top.accepted := rfl
      rw [List.map_cons, accepting_cons, accepting_cons, inductionHypothesis, List.map_append,
        sameTouch, sameAccepted]
      congr 1
      split <;> rfl

theorem closeWhile_onProgress (reach : transfer.ReachesAlike changed other last otherLast)
    (ends : Branch → Bool) (sameEnds : ∀ branch, ends (transfer branch) = ends branch)
    (progress : Progress) :
    (transfer.onProgress progress).closeWhile other otherLast ends =
      transfer.onProgress (progress.closeWhile changed last ends) := by
  have commutes : (fun candidate : Open => ends candidate.branch) ∘ transfer.onOpen =
      fun candidate => ends candidate.branch := funext fun candidate => sameEnds candidate.branch
  simp only [Progress.closeWhile, Progress.foldl_close, onProgress, List.takeWhile_map,
    List.dropWhile_map, commutes, accepting_onOpen reach, List.map_append]

theorem passBrace_onProgress {line otherLine : Nat}
    (reach : transfer.ReachesAlike changed other line otherLine) (brace : Source.Brace)
    (progress : Progress) :
    (transfer.onProgress progress).passBrace other otherLine brace =
      transfer.onProgress (progress.passBrace changed line brace) := by
  cases brace with
  | opening => rfl
  | closing =>
      have sameEnds (branch : Branch) :
          (transfer branch).endsAt (progress.depth - 1) = branch.endsAt (progress.depth - 1) := by
        rw [Branch.endsAt, Branch.endsAt, transfer.kind_eq, transfer.depth_eq]
      exact closeWhile_onProgress reach (fun branch => branch.endsAt (progress.depth - 1))
        sameEnds { progress with depth := progress.depth - 1 }

theorem closeInline_onProgress {line otherLine : Nat}
    (reach : transfer.ReachesAlike changed other line otherLine) (progress : Progress) :
    (transfer.onProgress progress).closeInline other otherLine =
      transfer.onProgress (progress.closeInline changed line) := by
  have inline : (fun candidate : Open => candidate.inline) ∘ transfer.onOpen =
      fun candidate => candidate.inline := rfl
  have lasting : (fun candidate : Open => !candidate.inline) ∘ transfer.onOpen =
      fun candidate => !candidate.inline := rfl
  simp only [Progress.closeInline_eq, onProgress, ← List.map_reverse, List.filter_map, inline,
    lasting, accepting_onOpen reach, List.map_append]

theorem openHeader_onProgress {line otherLine : SourceLine} {header otherHeader : Header}
    (sameBranch : ∀ depth,
      otherHeader.branchAt otherLine depth = transfer (header.branchAt line depth))
    (sameInline : otherHeader.isInline otherLine.masked = header.isInline line.masked)
    (sameChanged : other.contains otherLine.number = changed.contains line.number)
    (progress : Progress) :
    (transfer.onProgress progress).openHeader other otherLine otherHeader =
      transfer.onProgress (progress.openHeader changed line header) := by
  have sameDepth : (transfer.onProgress progress).depth = progress.depth := rfl
  simp only [Progress.openHeader, sameDepth, sameBranch, sameInline, sameChanged]
  cases changed.contains line.number <;>
    simp [onProgress, onOpen]

/-- Marks that agree take progress to its counterpart. -/
theorem passMark_onProgress {mark otherMark : Mark}
    (alike : transfer.Alike changed other mark otherMark) (progress : Progress) :
    Progress.passMark other (transfer.onProgress progress) otherMark =
      transfer.onProgress (Progress.passMark changed progress mark) := by
  cases alike with
  | brace brace reach => exact passBrace_onProgress reach brace progress
  | lineEnd reach => exact closeInline_onProgress reach progress
  | @header line otherLine header otherHeader sameBranch sameInline sameChanged reach =>
      have sameKind : otherHeader.kind = header.kind :=
        (congrArg Branch.kind (sameBranch 0)).trans (transfer.kind_eq _)
      have sameEnds (branch : Branch) : decide (progress.depth ≤ (transfer branch).depth) =
          decide (progress.depth ≤ branch.depth) := by rw [transfer.depth_eq]
      have ended := closeWhile_onProgress reach (fun branch => progress.depth ≤ branch.depth)
        sameEnds progress
      rw [Progress.passMark_header, Progress.passMark_header, sameKind]
      cases header.kind.isLabel with
      | false => exact openHeader_onProgress sameBranch sameInline sameChanged progress
      | true =>
          refine Eq.trans ?_ (openHeader_onProgress sameBranch sameInline sameChanged _)
          exact congrArg (Progress.openHeader other otherLine otherHeader) ended

theorem foldl_passMark_onProgress {marks : List Mark} {toOther : Mark → Mark}
    (alike : ∀ mark ∈ marks, transfer.Alike changed other mark (toOther mark))
    (progress : Progress) :
    (marks.map toOther).foldl (Progress.passMark other) (transfer.onProgress progress) =
      transfer.onProgress (marks.foldl (Progress.passMark changed) progress) := by
  induction marks generalizing progress with
  | nil => rfl
  | cons mark later inductionHypothesis =>
      obtain ⟨here, behind⟩ := List.forall_mem_cons.mp alike
      rw [List.map_cons, List.foldl_cons, List.foldl_cons, passMark_onProgress here,
        inductionHypothesis behind]

theorem finish_onProgress (reach : transfer.ReachesAlike changed other last otherLast)
    (progress : Progress) :
    (transfer.onProgress progress).finish other otherLast =
      (progress.finish changed last).map transfer :=
  congrArg Progress.accepted
    (closeWhile_onProgress reach (fun _ => true) (fun _ => rfl) progress)

/-- Sweeps over marks that agree find branches that correspond. -/
theorem sweep_map {marks : List Mark} {toOther : Mark → Mark}
    (sameEmpty : other.isEmpty = changed.isEmpty)
    (alike : ∀ mark ∈ marks, transfer.Alike changed other mark (toOther mark))
    (reach : transfer.ReachesAlike changed other last otherLast) :
    sweep other otherLast (marks.map toOther) = (sweep changed last marks).map transfer := by
  have start : transfer.onProgress {} = {} := rfl
  have passed := foldl_passMark_onProgress alike {}
  rw [start] at passed
  rw [sweep, sweep, sameEmpty, passed, finish_onProgress reach]
  split <;> rfl

end Transfer

end ChangeCoverage.Branch
