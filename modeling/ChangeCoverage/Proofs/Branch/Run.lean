import ChangeCoverage.Proofs.Branch.ReadingOrder
import Mathlib.Data.List.Induction

/-!
Runs of the extraction.  Behind every brace, every header and every line the open
branches lie in the order of their depths, which is why it is enough to close them from
the top.  A branch whose header's line has changed is accepted where it opens, and what
closes it does not accept it again.
-/

namespace ChangeCoverage.Branch

open Source (Brace ScopeEntry ScopeState)

/-- The line behind the first lines of a file. -/
def lineBehind (scopes : List ScopeEntry) (front : List Text) (raw : Text) : SourceLine where
  number := front.length + 1
  raw
  masked := (ScopeState.after {} front).maskedLine raw
  scope := scopes[front.length]?.getD {}

/-- The braces of a line, and between them its headers if they count. -/
def lineEvents (hot : Bool) (line : SourceLine) : List Event :=
  if hot then eventsFrom 0 line.masked (headers line.masked line.raw)
  else (Source.braces line.masked).map .brace

/-- Whether an open branch is marked as accepted just if its header's line has changed,
and has then been accepted for good. -/
structure Open.Accounted (changed : List Nat) (accepted : List Branch) (candidate : Open) :
    Prop where
  marked : candidate.accepted = true ↔ candidate.branch.startLine ∈ changed
  listed : candidate.accepted = true → candidate.branch ∈ accepted
  spent : candidate.accepted = true → ∀ lastLine before,
    Progress.close changed lastLine before candidate = before

namespace Progress

/-- Where a run stands behind the first lines of a file. -/
def behind (scopes : List ScopeEntry) (changed : List Nat) (front : List Text) : Progress :=
  passLines changed (hotScopes scopes changed) 1 .code {} front scopes

/-- Where a run stands within the next line, behind some of its braces and headers. -/
def within (scopes : List ScopeEntry) (changed : List Nat) (front : List Text) (raw : Text)
    (count : Nat) : Progress :=
  let line := lineBehind scopes front raw
  ((lineEvents ((hotScopes scopes changed).contains line.scope) line).take count).foldl
    (pass changed line.scope line.masked line.number) (behind scopes changed front)

def Accounted (changed : List Nat) (progress : Progress) : Prop :=
  ∀ candidate ∈ progress.stack, candidate.Accounted changed progress.accepted

structure Coherent (changed : List Nat) (progress : Progress) : Prop where
  ordered : Ordered progress.depth progress.stack
  accounted : progress.Accounted changed

variable {scopes : List ScopeEntry} {changed : List Nat} {progress other : Progress}

section Lines

/-- A run passes the lines of a file one behind the other. -/
theorem behind_concat (front : List Text) (raw : Text) :
    behind scopes changed (front ++ [raw]) =
      let line := lineBehind scopes front raw
      passLine changed ((hotScopes scopes changed).contains line.scope) line.scope line.masked
        line.raw line.number (behind scopes changed front) := by
  refine (passLines_append (hotScopes scopes changed) {} 1 {} front [raw] scopes).trans ?_
  rw [passLines, List.head?_drop, Nat.add_comm 1]
  rfl

theorem passLine_eq_events (hot : Bool) (line : SourceLine) :
    passLine changed hot line.scope line.masked line.raw line.number progress =
      let passed := (lineEvents hot line).foldl (pass changed line.scope line.masked line.number)
        progress
      if hot then closeInline changed line.number passed else passed := by
  cases hot with
  | true => rfl
  | false => exact (foldl_pass_braces line.scope line.masked line.number _).symm

end Lines

section Accounts

theorem accounted_start : Accounted changed {} := fun _ membership =>
  absurd membership List.not_mem_nil

/-- Closing branches leaves the others as they were. -/
theorem Accounted.of_closed (accounted : progress.Accounted changed)
    (remaining : other.stack ⊆ progress.stack) (kept : progress.accepted ⊆ other.accepted) :
    other.Accounted changed := by
  intro candidate membership
  have before := accounted candidate (remaining membership)
  exact ⟨before.marked, fun accepted => kept (before.listed accepted), before.spent⟩

theorem Accounted.closeWhile (accounted : progress.Accounted changed) (lastLine : Nat)
    (ends : Branch → Bool) : (progress.closeWhile changed lastLine ends).Accounted changed := by
  rw [Progress.closeWhile, foldl_close]
  exact accounted.of_closed (List.dropWhile_sublist _).subset (List.subset_append_left _ _)

theorem close_of_accepted {candidate : Open} (accepted : candidate.accepted = true)
    (lastLine : Nat) (before : Progress) :
    close changed lastLine before candidate = before := by
  rw [close, accepted]
  rfl

theorem Accounted.openHeader (accounted : progress.Accounted changed) (line : SourceLine)
    (header : Header) : (openHeader changed line header progress).Accounted changed := by
  have kept : progress.accepted ⊆ (Progress.openHeader changed line header progress).accepted := by
    rw [Progress.openHeader]
    split
    · exact List.subset_append_left _ _
    · exact List.Subset.refl _
  intro candidate membership
  rcases List.mem_cons.mp membership with rfl | below
  · refine ⟨List.contains_iff_mem, fun accepted => ?_, fun accepted => close_of_accepted accepted⟩
    rw [Progress.openHeader, if_pos accepted]
    exact List.mem_append_right _ List.mem_cons_self
  · have before := accounted candidate below
    exact ⟨before.marked, fun accepted => kept (before.listed accepted), before.spent⟩

theorem Accounted.passMark (accounted : progress.Accounted changed) (mark : Mark) :
    (progress.passMark changed mark).Accounted changed := by
  cases mark with
  | brace line met =>
      cases met with
      | opening => exact accounted
      | closing =>
          have lowered : Accounted changed { progress with depth := progress.depth - 1 } :=
            accounted
          exact lowered.closeWhile line (·.endsAt (progress.depth - 1))
  | lineEnd line =>
      rw [Progress.passMark, closeInline_eq]
      exact accounted.of_closed List.filter_sublist.subset (List.subset_append_left _ _)
  | header line header =>
      rw [passMark_header]
      split
      · exact (accounted.closeWhile _ _).openHeader line header
      · exact accounted.openHeader line header

end Accounts

section Steps

theorem coherent_start : Coherent changed {} :=
  ⟨⟨.nil, fun _ membership => absurd membership List.not_mem_nil⟩, accounted_start⟩

theorem Coherent.passMark (coherent : progress.Coherent changed) (mark : Mark) :
    (progress.passMark changed mark).Coherent changed :=
  ⟨ordered_passMark coherent.ordered mark, coherent.accounted.passMark mark⟩

theorem Coherent.foldl_passMark (coherent : progress.Coherent changed) (marks : List Mark) :
    (marks.foldl (Progress.passMark changed) progress).Coherent changed := by
  induction marks generalizing progress with
  | nil => exact coherent
  | cons mark later inductionHypothesis => exact inductionHypothesis (coherent.passMark mark)

theorem Coherent.foldl_pass (coherent : progress.Coherent changed) (line : SourceLine)
    (events : List Event) :
    (events.foldl (pass changed line.scope line.masked line.number) progress).Coherent
      changed := by
  rw [foldl_pass_eq]
  exact coherent.foldl_passMark _

theorem Coherent.passLine (coherent : progress.Coherent changed) (hot : Bool)
    (line : SourceLine) :
    (passLine changed hot line.scope line.masked line.raw line.number progress).Coherent
      changed := by
  have passed := coherent.foldl_pass line (lineEvents hot line)
  rw [passLine_eq_events]
  split
  · exact passed.passMark (.lineEnd line.number)
  · exact passed

/-- What holds at the start of a run holds behind all of its lines. -/
theorem coherent_and_settled_behind (front : List Text) :
    (behind scopes changed front).Coherent changed ∧ (behind scopes changed front).Settled := by
  induction front using List.reverseRecOn with
  | nil => exact ⟨coherent_start, settled_start⟩
  | append_singleton front raw inductionHypothesis =>
      obtain ⟨coherent, settled⟩ := inductionHypothesis
      rw [behind_concat]
      exact ⟨coherent.passLine _ _, (passLine_eq changed settled _ _).2⟩

theorem coherent_within (front : List Text) (raw : Text) (count : Nat) :
    (within scopes changed front raw count).Coherent changed :=
  coherent_and_settled_behind front |>.1.foldl_pass _ _

end Steps

section Accepted

/-- What is accepted where it ends has a header on a line that has not changed. -/
theorem filter_accepting (last : Open → Nat) {ended : List Open} {accepted : List Branch}
    (accounted : ∀ candidate ∈ ended, candidate.Accounted changed accepted) :
    (accepting changed last ended).filter (·.startLine ∈ changed) = [] := by
  rw [List.filter_eq_nil_iff]
  intro branch membership
  obtain ⟨candidate, isLate, rfl⟩ := List.mem_map.mp membership
  obtain ⟨isEnded, late⟩ := List.mem_filter.mp isLate
  rw [Bool.and_eq_true, Bool.not_eq_true'] at late
  rw [decide_eq_true_eq, ← (accounted candidate isEnded).marked, late.1]
  exact Bool.false_ne_true

theorem Accounted.filter_closeWhile (accounted : progress.Accounted changed) (lastLine : Nat)
    (ends : Branch → Bool) :
    (progress.closeWhile changed lastLine ends).accepted.filter (·.startLine ∈ changed) =
      progress.accepted.filter (·.startLine ∈ changed) := by
  have ended : ∀ candidate ∈ progress.stack.takeWhile (fun candidate => ends candidate.branch),
      candidate.Accounted changed progress.accepted := fun candidate membership =>
    accounted candidate ((List.takeWhile_sublist _).subset membership)
  have none := filter_accepting (fun _ => lastLine) ended
  rw [Progress.closeWhile, foldl_close, List.filter_append, none, List.append_nil]

theorem filter_openHeader (line : SourceLine) (header : Header) :
    (openHeader changed line header progress).accepted.filter (·.startLine ∈ changed) =
      progress.accepted.filter (·.startLine ∈ changed) ++
        [header.branchAt line progress.depth].filter (·.startLine ∈ changed) := by
  have start : (header.branchAt line progress.depth).startLine = line.number := rfl
  rw [openHeader]
  by_cases isChanged : line.number ∈ changed
  · rw [if_pos (List.contains_iff_mem.mpr isChanged), List.filter_append]
  · rw [if_neg (fun contained => isChanged (List.contains_iff_mem.mp contained)),
      List.filter_cons_of_neg (by simpa [start] using isChanged), List.filter_nil, List.append_nil]

theorem Accounted.filter_passMark (accounted : progress.Accounted changed) (mark : Mark) :
    (progress.passMark changed mark).accepted.filter (·.startLine ∈ changed) =
      progress.accepted.filter (·.startLine ∈ changed) ++
        (mark.opened progress.depth).filter (·.startLine ∈ changed) := by
  cases mark with
  | brace line met =>
      rw [Mark.opened, List.filter_nil, List.append_nil]
      cases met with
      | opening => rfl
      | closing =>
          have lowered : Accounted changed { progress with depth := progress.depth - 1 } :=
            accounted
          exact lowered.filter_closeWhile line (·.endsAt (progress.depth - 1))
  | lineEnd line =>
      have ended : ∀ candidate ∈ progress.stack.reverse.filter (·.inline),
          candidate.Accounted changed progress.accepted := fun candidate membership =>
        accounted candidate (List.mem_reverse.mp (List.mem_of_mem_filter membership))
      have none := filter_accepting (fun _ => line) ended
      rw [Progress.passMark, closeInline_eq, List.filter_append, none]
      rfl
  | header line header =>
      rw [passMark_header, filter_openHeader]
      cases header.kind.isLabel with
      | true =>
          simp only [if_true, accounted.filter_closeWhile, depth_closeWhile]
          rfl
      | false => rfl

/-- The branches with headers on changed lines are accepted in the order in which they are
opened, each of them once. -/
theorem Accounted.filter_foldl_passMark (accounted : progress.Accounted changed) (fileEnd : Nat)
    (marks : List Mark) :
    (marks.foldl (Progress.passMark changed) progress).accepted.filter (·.startLine ∈ changed) =
      progress.accepted.filter (·.startLine ∈ changed) ++
        ((extentsFrom fileEnd progress.depth marks).map (·.branch)).filter
          (·.startLine ∈ changed) := by
  induction marks generalizing progress with
  | nil => exact (List.append_nil _).symm
  | cons mark later inductionHypothesis =>
      rw [List.foldl_cons, inductionHypothesis (accounted.passMark mark),
        accounted.filter_passMark, depth_passMark, branches_cons, List.filter_append,
        List.append_assoc]

end Accepted

end Progress

open Progress in
/-- Behind all lines of a file, and within each behind any of its braces and headers, the
open branches lie in the order of their depths and have been accepted just if their
headers' lines have changed.  What is extracted therefore holds the branches of those
headers as they are opened, each of them once. -/
theorem coherent_run (fileLines : List Text) (scopes : List ScopeEntry) (changed : List Nat) :
    (∀ front back, fileLines = front ++ back →
        (behind scopes changed front).Coherent changed ∧
          (behind scopes changed front).Settled) ∧
      (∀ front raw back count, fileLines = front ++ raw :: back →
        (within scopes changed front raw count).Coherent changed) ∧
      (extract fileLines scopes changed).filter (·.startLine ∈ changed) =
        ((extents fileLines scopes changed).map (·.branch)).filter (·.startLine ∈ changed) := by
  refine ⟨fun front _ _ => coherent_and_settled_behind front,
    fun front raw _ count _ => coherent_within front raw count, ?_⟩
  rw [extract_eq, sweep]
  split
  next isEmpty =>
    rw [List.isEmpty_iff.mp isEmpty]
    simp
  next =>
    have passed : Coherent changed ((fileMarks fileLines scopes changed).foldl _ {}) :=
      coherent_start.foldl_passMark _
    rw [finish, passed.accounted.filter_closeWhile,
      accounted_start.filter_foldl_passMark fileLines.length]
    rfl

end ChangeCoverage.Branch
