import ChangeCoverage.Command.Execution
import ChangeCoverage.Proofs.Git.Reply

/-!
How commands open a repository.  Every command finds the root of the repository, loads
its configuration and has git verify both revisions, in this order, and the first of
these steps that fails ends the command.  Git is asked what the revisions hold only
when all of them have succeeded, and whatever it is asked after the root it is asked
in the root.
-/

namespace ChangeCoverage

theorem Run.fails_of_not_ok {α : Type} {run : Run α}
    (fails : ¬∃ value, run.outcome = .ok value) : ∃ failure, run.outcome = .error failure := by
  cases reached : run.outcome with
  | ok value => exact absurd ⟨value, reached⟩ fails
  | error failure => exact ⟨failure, rfl⟩

/-- An item that is none of those a list opens with has all of them before it. -/
theorem prefix_of_append_cons_eq {Item : Type} {opening before after later : List Item}
    {item : Item} (parts : before ++ item :: after = opening ++ later) (outside : item ∉ opening) :
    opening <+: before := by
  rcases List.append_eq_append_iff.mp parts with ⟨middle, rfl, rest⟩ | ⟨middle, rfl, -⟩
  · cases middle with
    | nil => exact ⟨[], by simp⟩
    | cons first others =>
        obtain ⟨rfl, -⟩ := List.cons.inj rest
        exact absurd (List.mem_append_right before List.mem_cons_self) outside
  · exact ⟨middle, rfl⟩

namespace Git

/-- The question for the root of the repository around a directory. -/
def rootCall (directory : Text) : Call where
  directory := directory
  arguments := ["rev-parse".toList, "--show-toplevel".toList]

/-- The question whether a revision exists. -/
def revisionCall (root revision : Text) : Call where
  directory := root
  arguments := revisionArguments revision

/-- A call of a git command that looks at what revisions hold. -/
def Call.LooksInside (call : Call) : Prop :=
  ∃ command ∈ ["diff", "cat-file", "show"], call.arguments.head? = some command.toList

/-- What is recorded of a call: nothing if git cannot be started. -/
def recorded (world : World) (call : Call) : List Call :=
  match world.git call.directory call.arguments with
  | .ok _ => [call]
  | .error _ => []

def Succeeds (world : World) (call : Call) : Prop :=
  ∃ reply, world.git call.directory call.arguments = .ok reply ∧ reply.succeeded = true

/-- The root of the repository around a directory: what git prints for it, trimmed. -/
def HasRoot (world : World) (directory root : Text) : Prop :=
  world.isDirectory directory = true ∧
    ∃ printed, Prints world directory (rootCall directory).arguments printed ∧
      Text.trim printed = root

variable {world : World} {directory root revision : Text}

theorem recorded_of_reply {call : Call} {reply : Reply}
    (answered : world.git call.directory call.arguments = .ok reply) :
    recorded world call = [call] := by
  rw [recorded, answered]

theorem Succeeds.recorded {call : Call} (succeeds : Succeeds world call) :
    recorded world call = [call] := by
  obtain ⟨reply, answered, -⟩ := succeeds
  exact recorded_of_reply answered

theorem HasRoot.recorded (hasRoot : HasRoot world directory root) :
    recorded world (rootCall directory) = [rootCall directory] := by
  obtain ⟨-, printed, ⟨reply, answered, -⟩, -⟩ := hasRoot
  exact recorded_of_reply answered

/-- What follows on an answer of git asks nothing more. -/
theorem calls_call_bind {α : Type} {arguments : List Text}
    {next : Except Obstacle Reply → Run α} (quiet : ∀ answer, (next answer).calls = []) :
    (call world directory arguments >>= next).calls =
      recorded world { directory, arguments } := by
  rw [recorded, call]
  cases world.git directory arguments with
  | error obstacle =>
      rw [Run.pure_bind]
      exact quiet _
  | ok reply =>
      rw [Run.bind_of_ok rfl, quiet]
      rfl

theorem calls_rootOf (world : World) (directory : Text) :
    (rootOf world directory).calls = recorded world (rootCall directory) := by
  apply calls_call_bind
  intro answer
  split
  · rfl
  · split <;> rfl

theorem outcome_rootOf_eq_ok_iff :
    (rootOf world directory).outcome = .ok root ↔
      ∃ printed, Prints world directory (rootCall directory).arguments printed ∧
        Text.trim printed = root := by
  rw [rootOf, Run.outcome_bind_eq_ok_iff]
  simp only [outcome_call_eq_ok_iff]
  constructor
  · rintro ⟨called, answered, found⟩
    cases called with
    | error obstacle => exact absurd found (Run.outcome_fail_ne_ok _ _)
    | ok reply =>
        dsimp only at found
        split at found
        next succeeded =>
          exact ⟨_, ⟨reply, answered, succeeded, rfl⟩, Run.outcome_pure_eq_ok_iff.mp found⟩
        next => exact absurd found (Run.outcome_fail_ne_ok _ _)
  · rintro ⟨printed, ⟨reply, answered, succeeded, rfl⟩, trimmed⟩
    refine ⟨.ok reply, answered, ?_⟩
    dsimp only
    rw [if_pos succeeded]
    exact Run.outcome_pure_eq_ok_iff.mpr trimmed

theorem calls_reply (world : World) (directory : Text) (arguments : List Text) :
    (reply world directory arguments).calls = recorded world { directory, arguments } := by
  apply calls_call_bind
  intro answer
  split <;> rfl

theorem calls_commitOf (world : World) (root revision : Text) :
    (commitOf world root revision).calls = recorded world (revisionCall root revision) := by
  have asked := calls_reply world root (revisionArguments revision)
  rw [commitOf]
  cases answered : (reply world root (revisionArguments revision)).outcome with
  | error failure =>
      rw [Run.bind_of_error answered]
      exact asked
  | ok answer =>
      rw [Run.bind_of_ok answered, asked]
      split <;> exact List.append_nil _

theorem outcome_commitOf_iff :
    (∃ commit, (commitOf world root revision).outcome = .ok commit) ↔
      Succeeds world (revisionCall root revision) := by
  simp only [commitOf, Run.outcome_bind_eq_ok_iff, outcome_reply_eq_ok_iff]
  constructor
  · rintro ⟨commit, answer, answered, found⟩
    split at found
    next succeeded => exact ⟨answer, answered, succeeded⟩
    next => exact absurd found (Run.outcome_fail_ne_ok _ _)
  · rintro ⟨answer, answered, succeeded⟩
    refine ⟨answer.output, answer, answered, ?_⟩
    rw [if_pos succeeded]
    rfl

end Git

namespace Session

open Git (Call HasRoot Succeeds recorded rootCall revisionCall)

/-- The directory in which a command starts. -/
def startOf (world : World) (directory : Option Text) : Text :=
  directory.getD world.workingDirectory

/-- All steps of opening a repository succeed, and lead to a session. -/
structure Opened (world : World) (start : Text) (revisions : Revisions) (session : Session) :
    Prop where
  root : HasRoot world start session.root
  config : Config.loadOrDefault world session.root = .ok session.config
  old : Succeeds world (revisionCall session.root revisions.old)
  new : Succeeds world (revisionCall session.root revisions.new)

/-- The calls of all steps of opening a repository. -/
def openingCalls (start : Text) (revisions : Revisions) (root : Text) : List Call :=
  [rootCall start, revisionCall root revisions.old, revisionCall root revisions.new]

/-- A step of opening a repository fails, and none before it.  The calls are those up
to that step, with its own if git could be started. -/
inductive FailsAfter (world : World) (start : Text) (revisions : Revisions) :
    List Call → Prop where
  | root : (∀ root, ¬HasRoot world start root) →
      FailsAfter world start revisions
        (if world.isDirectory start then recorded world (rootCall start) else [])
  | config {root : Text} {failure : Failure} :
      HasRoot world start root →
      Config.loadOrDefault world root = .error failure →
      FailsAfter world start revisions [rootCall start]
  | old {root : Text} {config : Config} :
      HasRoot world start root →
      Config.loadOrDefault world root = .ok config →
      ¬Succeeds world (revisionCall root revisions.old) →
      FailsAfter world start revisions
        (rootCall start :: recorded world (revisionCall root revisions.old))
  | new {root : Text} {config : Config} :
      HasRoot world start root →
      Config.loadOrDefault world root = .ok config →
      Succeeds world (revisionCall root revisions.old) →
      ¬Succeeds world (revisionCall root revisions.new) →
      FailsAfter world start revisions
        (rootCall start :: revisionCall root revisions.old ::
          recorded world (revisionCall root revisions.new))

variable {world : World} {directory : Option Text} {start : Text} {revisions : Revisions}

/-- Either all steps succeed, or there is a first one that fails. -/
theorem opened_or_failsAfter (world : World) (start : Text) (revisions : Revisions) :
    (∃ session, Opened world start revisions session) ∨
      ∃ calls, FailsAfter world start revisions calls := by
  by_cases rooted : ∃ root, HasRoot world start root
  · obtain ⟨root, hasRoot⟩ := rooted
    cases loaded : Config.loadOrDefault world root with
    | error failure => exact .inr ⟨_, .config hasRoot loaded⟩
    | ok config =>
        by_cases old : Succeeds world (revisionCall root revisions.old)
        · by_cases new : Succeeds world (revisionCall root revisions.new)
          · exact .inl ⟨{ root, config }, hasRoot, loaded, old, new⟩
          · exact .inr ⟨_, .new hasRoot loaded old new⟩
        · exact .inr ⟨_, .old hasRoot loaded old⟩
  · exact .inr ⟨_, .root (not_exists.mp rooted)⟩

theorem calls_locateRoot (world : World) (directory : Option Text) :
    (locateRoot world directory).calls =
      if world.isDirectory (startOf world directory) then
        recorded world (rootCall (startOf world directory)) else [] := by
  rw [locateRoot, startOf]
  split
  · exact Git.calls_rootOf world _
  · rfl

theorem outcome_locateRoot_eq_ok_iff {root : Text} :
    (locateRoot world directory).outcome = .ok root ↔
      HasRoot world (startOf world directory) root := by
  rw [locateRoot, HasRoot, startOf]
  split
  next isDirectory => rw [Git.outcome_rootOf_eq_ok_iff, and_iff_right isDirectory]
  next notDirectory =>
    constructor
    · intro found
      exact absurd found (Run.outcome_fail_ne_ok _ _)
    · intro hasRoot
      exact absurd hasRoot.1 notDirectory

theorem calls_locateRoot_of_hasRoot {root : Text}
    (hasRoot : HasRoot world (startOf world directory) root) :
    (locateRoot world directory).calls = [rootCall (startOf world directory)] := by
  rw [calls_locateRoot, if_pos hasRoot.1, hasRoot.recorded]

theorem openFor_of_opened {session : Session}
    (opened : Opened world (startOf world directory) revisions session) :
    (openFor world directory revisions).outcome = .ok session ∧
      (openFor world directory revisions).calls =
        openingCalls (startOf world directory) revisions session.root := by
  obtain ⟨hasRoot, loaded, old, new⟩ := opened
  obtain ⟨oldCommit, oldVerified⟩ := Git.outcome_commitOf_iff.mpr old
  obtain ⟨newCommit, newVerified⟩ := Git.outcome_commitOf_iff.mpr new
  rw [openFor, Run.bind_of_ok (outcome_locateRoot_eq_ok_iff.mpr hasRoot), Run.bind_of_ok loaded,
    Run.bind_of_ok oldVerified, Run.bind_of_ok newVerified, calls_locateRoot_of_hasRoot hasRoot,
    Git.calls_commitOf, Git.calls_commitOf, old.recorded, new.recorded]
  exact ⟨rfl, rfl⟩

/-- The first step that fails ends the run. -/
theorem openFor_of_failsAfter {calls : List Call}
    (failsAfter : FailsAfter world (startOf world directory) revisions calls) :
    (∃ failure, (openFor world directory revisions).outcome = .error failure) ∧
      (openFor world directory revisions).calls = calls := by
  cases failsAfter with
  | root rootless =>
      have unfound : ¬∃ root, (locateRoot world directory).outcome = .ok root := by
        rintro ⟨root, found⟩
        exact rootless root (outcome_locateRoot_eq_ok_iff.mp found)
      obtain ⟨failure, failed⟩ := Run.fails_of_not_ok unfound
      rw [openFor, Run.bind_of_error failed, calls_locateRoot]
      exact ⟨⟨failure, rfl⟩, rfl⟩
  | @config root failure hasRoot broken =>
      rw [openFor, Run.bind_of_ok (outcome_locateRoot_eq_ok_iff.mpr hasRoot),
        Run.bind_of_error broken, calls_locateRoot_of_hasRoot hasRoot]
      exact ⟨⟨failure, rfl⟩, rfl⟩
  | old hasRoot loaded unverified =>
      obtain ⟨failure, failed⟩ := Run.fails_of_not_ok (mt Git.outcome_commitOf_iff.mp unverified)
      rw [openFor, Run.bind_of_ok (outcome_locateRoot_eq_ok_iff.mpr hasRoot),
        Run.bind_of_ok loaded, Run.bind_of_error failed, calls_locateRoot_of_hasRoot hasRoot,
        Git.calls_commitOf]
      exact ⟨⟨failure, rfl⟩, rfl⟩
  | new hasRoot loaded verified unverified =>
      obtain ⟨commit, found⟩ := Git.outcome_commitOf_iff.mpr verified
      obtain ⟨failure, failed⟩ := Run.fails_of_not_ok (mt Git.outcome_commitOf_iff.mp unverified)
      rw [openFor, Run.bind_of_ok (outcome_locateRoot_eq_ok_iff.mpr hasRoot),
        Run.bind_of_ok loaded, Run.bind_of_ok found, Run.bind_of_error failed,
        calls_locateRoot_of_hasRoot hasRoot, Git.calls_commitOf, Git.calls_commitOf,
        verified.recorded]
      exact ⟨⟨failure, rfl⟩, rfl⟩

end Session

namespace Run

variable {α β : Type} {root : Text}

/-- Whatever a run asks git, it asks in one directory. -/
def AsksIn (root : Text) (run : Run α) : Prop :=
  ∀ call ∈ run.calls, call.directory = root

theorem AsksIn.of_quiet {run : Run α} (quiet : run.calls = []) : AsksIn root run := by
  intro call membership
  rw [quiet] at membership
  exact absurd membership List.not_mem_nil

theorem AsksIn.bind {run : Run α} {next : α → Run β} (first : AsksIn root run)
    (later : ∀ value, AsksIn root (next value)) : AsksIn root (run >>= next) := by
  cases reached : run.outcome with
  | error failure =>
      rw [bind_of_error reached]
      exact first
  | ok value =>
      rw [bind_of_ok reached]
      intro call membership
      rcases List.mem_append.mp membership with early | late
      · exact first call early
      · exact later value call late

theorem AsksIn.map {run : Run α} (asks : AsksIn root run) (change : α → β) :
    AsksIn root (change <$> run) := by
  rw [map_eq_pure_bind]
  exact asks.bind fun value => .of_quiet rfl

end Run

open Run (AsksIn)

namespace Git

theorem mem_recorded {world : World} {call other : Call}
    (membership : other ∈ recorded world call) : other = call := by
  rw [recorded] at membership
  split at membership
  · exact List.mem_singleton.mp membership
  · exact absurd membership List.not_mem_nil

variable (world : World) (root : Text)

theorem asksIn_reply (arguments : List Text) : AsksIn root (reply world root arguments) := by
  intro call membership
  rw [calls_reply] at membership
  rw [mem_recorded membership]

theorem asksIn_rawOutput (arguments : List Text) :
    AsksIn root (rawOutput world root arguments) := by
  refine AsksIn.bind ?_ fun _ => .of_quiet rfl
  refine (asksIn_reply world root arguments).bind fun answer => ?_
  split <;> exact .of_quiet rfl

theorem asksIn_changedFiles (detectRenames : Bool) (old new : Text) :
    AsksIn root (changedFiles world root detectRenames old new) := by
  refine AsksIn.bind ?_ fun _ => .of_quiet rfl
  refine (asksIn_reply world root _).bind fun answer => ?_
  split <;> exact .of_quiet rfl

theorem asksIn_lines? (revision path : Text) :
    AsksIn root (lines? world root revision path) := by
  have found : AsksIn root (content? world root revision path) := by
    refine ((asksIn_reply world root _).bind fun _ => .of_quiet rfl).bind fun isFound => ?_
    split
    · exact (asksIn_rawOutput world root _).bind fun _ => .of_quiet rfl
    · exact .of_quiet rfl
  exact found.bind fun _ => .of_quiet rfl

end Git

variable (world : World) (revisions : Revisions) (session : Session)

theorem Session.asksIn_diff (previous : Option Text) (path : Text) :
    AsksIn session.root (session.diff world revisions previous path) :=
  (Git.asksIn_rawOutput world session.root _).bind fun _ => .of_quiet (Run.calls_orPanic _ _)

theorem CaseReport.asksIn_fileCases? (file : ChangedFile) :
    AsksIn session.root (fileCases? world session revisions file) := by
  have counted (lineCount : Nat) :
      AsksIn session.root (changedLines world session revisions file lineCount) := by
    rw [changedLines]
    split
    · exact .of_quiet rfl
    · exact (session.asksIn_diff world revisions _ _).map _
  rw [fileCases?]
  split
  · exact .of_quiet rfl
  · refine (Git.asksIn_lines? world session.root _ _).bind fun found => ?_
    split
    · exact .of_quiet rfl
    · exact (counted _).bind fun _ => .of_quiet rfl

theorem CaseReport.asksIn_allFileCases (files : List ChangedFile) :
    AsksIn session.root (allFileCases world session revisions files) := by
  induction files with
  | nil => exact .of_quiet rfl
  | cons file rest inductionHypothesis =>
      refine (asksIn_fileCases? world revisions session file).bind fun found => ?_
      exact inductionHypothesis.bind fun _ => .of_quiet rfl

theorem CaseReport.asksIn_collect (paths : List Text) :
    AsksIn session.root (collect world session revisions paths) := by
  refine (Git.asksIn_changedFiles world session.root _ _ _).bind fun changed => ?_
  refine AsksIn.bind (.of_quiet rfl) fun chosen => ?_
  exact (asksIn_allFileCases world revisions session chosen).bind fun _ => .of_quiet rfl

theorem View.asksIn_build (path : Text) :
    AsksIn session.root (build world session revisions path) := by
  refine (Git.asksIn_changedFiles world session.root _ _ _).bind fun files => ?_
  refine (Git.asksIn_lines? world session.root _ _).bind fun old => ?_
  refine (Git.asksIn_lines? world session.root _ _).bind fun new => ?_
  split
  · exact .of_quiet rfl
  · refine (session.asksIn_diff world revisions _ _).bind fun diff => ?_
    exact AsksIn.bind (.of_quiet (Run.calls_orPanic _ _)) fun _ => .of_quiet rfl

theorem View.asksIn_printText (root : Text) (view : View) (width : Nat) :
    AsksIn root (view.printText width) := by
  refine AsksIn.bind (.of_quiet rfl) fun _ => ?_
  exact AsksIn.bind (.of_quiet (Run.calls_orPanic _ _)) fun _ => .of_quiet rfl

/-- Every command opens the repository and then asks git in its root only. -/
theorem Request.run_eq_openFor_bind (request : Request) :
    ∃ rest : Session → Run Unit, (∀ session, AsksIn session.root (rest session)) ∧
      request.run world =
        Session.openFor world request.directory request.command.revisions >>= rest := by
  obtain ⟨directory, verbosity, command⟩ := request
  cases command with
  | listing revisions =>
      refine ⟨_, fun session => ?_, rfl⟩
      refine (Git.asksIn_changedFiles world session.root _ _ _).bind fun files => ?_
      split <;> exact .of_quiet rfl
  | view revisions path format width =>
      refine ⟨_, fun session => ?_, rfl⟩
      dsimp only
      split
      · exact .of_quiet rfl
      · refine (View.asksIn_build world revisions session path).bind fun view => ?_
        split
        · exact .of_quiet rfl
        · exact View.asksIn_printText session.root view _
  | cases revisions paths format =>
      refine ⟨_, fun session => ?_, rfl⟩
      refine (CaseReport.asksIn_collect world revisions session paths).bind fun report => ?_
      split <;> exact .of_quiet rfl

namespace Session

open Git (Call HasRoot recorded rootCall revisionCall)

variable {world : World} {start root : Text} {revisions : Revisions} {calls : List Call}

theorem recorded_isPrefixOf (world : World) (call : Call) (behind : List Call) :
    recorded world call <+: call :: behind := by
  rw [recorded]
  split
  · exact List.prefix_append [call] behind
  · exact List.nil_prefix

/-- A failing step leaves some of the calls that open a repository, and more than the
first of them only if there is a root. -/
theorem FailsAfter.prefix_openingCalls (failsAfter : FailsAfter world start revisions calls) :
    ∃ root, calls <+: openingCalls start revisions root ∧
      (calls.tail ≠ [] → HasRoot world start root) := by
  cases failsAfter with
  | root rootless =>
      refine ⟨[], ?_, fun later => absurd ?_ later⟩
      · split
        · exact recorded_isPrefixOf world _ _
        · exact List.nil_prefix
      · rw [recorded]
        split
        · split <;> rfl
        · rfl
  | @config root _ hasRoot broken =>
      exact ⟨root, List.prefix_append [rootCall start] _, fun _ => hasRoot⟩
  | @old root _ hasRoot loaded unverified =>
      refine ⟨root, ?_, fun _ => hasRoot⟩
      exact (List.prefix_cons_inj _).mpr (recorded_isPrefixOf world _ _)
  | @new root _ hasRoot loaded verified unverified =>
      refine ⟨root, ?_, fun _ => hasRoot⟩
      exact (List.prefix_cons_inj _).mpr
        ((List.prefix_cons_inj _).mpr (recorded_isPrefixOf world _ _))

theorem directory_of_mem_tail_openingCalls {call : Call}
    (membership : call ∈ (openingCalls start revisions root).tail) : call.directory = root := by
  simp only [openingCalls, List.tail_cons, List.mem_cons, List.not_mem_nil, or_false] at membership
  rcases membership with rfl | rfl <;> rfl

/-- Opening a repository asks nothing about what revisions hold. -/
theorem not_looksInside_of_mem_openingCalls {call : Call}
    (membership : call ∈ openingCalls start revisions root) : ¬call.LooksInside := by
  have command : call.arguments.head? = some "rev-parse".toList := by
    simp only [openingCalls, List.mem_cons, List.not_mem_nil, or_false] at membership
    rcases membership with rfl | rfl | rfl <;> rfl
  rw [Call.LooksInside, command]
  decide

end Session

section Requests

open Git (HasRoot rootCall)
open Session (Opened FailsAfter startOf openingCalls)

theorem Request.run_of_failsAfter {world : World} {request : Request} {calls : List Git.Call}
    (failsAfter : FailsAfter world (startOf world request.directory) request.command.revisions
      calls) :
    (request.run world).calls = calls ∧
      ∃ failure, (request.run world).outcome = .error failure := by
  obtain ⟨rest, -, runs⟩ := request.run_eq_openFor_bind world
  obtain ⟨⟨failure, failed⟩, asked⟩ := Session.openFor_of_failsAfter failsAfter
  rw [runs, Run.bind_of_error failed]
  exact ⟨asked, failure, rfl⟩

theorem Request.calls_of_opened {world : World} {request : Request} {session : Session}
    (opened : Opened world (startOf world request.directory) request.command.revisions session) :
    ∃ later, (∀ call ∈ later, call.directory = session.root) ∧
      (request.run world).calls =
        openingCalls (startOf world request.directory) request.command.revisions session.root ++
          later := by
  obtain ⟨rest, asks, runs⟩ := request.run_eq_openFor_bind world
  obtain ⟨reached, asked⟩ := Session.openFor_of_opened opened
  rw [runs, Run.bind_of_ok reached, asked]
  exact ⟨(rest session).calls, asks session, rfl⟩

/-- The first call of a command asks for the root, all later ones are made in the root
that was found, and what revisions hold is asked only behind the calls that opened the
repository.  If a step of opening it fails the command fails without another call. -/
theorem Request.calls_behind_opening (world : World) (request : Request) :
    let run := request.run world
    let start := startOf world request.directory
    let revisions := request.command.revisions
    (∀ first ∈ run.calls.head?, first = rootCall start) ∧
      (∀ later ∈ run.calls.tail, HasRoot world start later.directory) ∧
      (∀ before call after, run.calls = before ++ call :: after → call.LooksInside →
        ∃ session, Opened world start revisions session ∧
          openingCalls start revisions session.root <+: before) ∧
      (∀ calls, FailsAfter world start revisions calls →
        run.calls = calls ∧ ∃ failure, run.outcome = .error failure) := by
  intro run start revisions
  have stops : ∀ calls, FailsAfter world start revisions calls →
      run.calls = calls ∧ ∃ failure, run.outcome = .error failure := by
    intro calls failsAfter
    exact Request.run_of_failsAfter failsAfter
  rcases Session.opened_or_failsAfter world start revisions with
    ⟨session, opened⟩ | ⟨calls, failsAfter⟩
  · obtain ⟨later, inRoot, asked⟩ := Request.calls_of_opened opened
    refine ⟨?_, ?_, ?_, stops⟩
    · intro first isFirst
      rw [asked] at isFirst
      exact (Option.some.inj isFirst).symm
    · intro call membership
      rw [asked] at membership
      have directory : call.directory = session.root := by
        rcases List.mem_append.mp membership with early | late
        · have inTail : call ∈ (Session.openingCalls start revisions session.root).tail := early
          exact Session.directory_of_mem_tail_openingCalls inTail
        · exact inRoot call late
      rw [directory]
      exact opened.root
    · intro before call after parts looksInside
      refine ⟨session, opened, ?_⟩
      apply prefix_of_append_cons_eq (parts.symm.trans asked)
      intro membership
      exact Session.not_looksInside_of_mem_openingCalls membership looksInside
  · obtain ⟨root, isPrefix, rooted⟩ := failsAfter.prefix_openingCalls
    obtain ⟨asked, -⟩ := stops calls failsAfter
    refine ⟨?_, ?_, ?_, stops⟩
    · intro first isFirst
      rw [asked] at isFirst
      obtain ⟨rest, rfl⟩ := List.head?_eq_some_iff.mp isFirst
      exact (List.cons_prefix_cons.mp isPrefix).1
    · intro call membership
      rw [asked] at membership
      have inOpening : call ∈ (openingCalls start revisions root).tail := by
        cases calls with
        | nil => exact absurd membership List.not_mem_nil
        | cons first rest => exact (List.cons_prefix_cons.mp isPrefix).2.subset membership
      rw [Session.directory_of_mem_tail_openingCalls inOpening]
      exact rooted (List.ne_nil_of_mem membership)
    · intro before call after parts looksInside
      have membership : call ∈ calls := by
        rw [← asked, parts]
        exact List.mem_append_right before List.mem_cons_self
      exact absurd looksInside
        (Session.not_looksInside_of_mem_openingCalls (isPrefix.subset membership))

section Sample

/-- A world with a repository in which some revisions are known, entered below its root. -/
def repositoryWorld (known : List Text) : World where
  workingDirectory := "/r/src".toList
  time := []
  entry path := if path = "/r/src".toList then .ok .directory else .error .missing
  git _ arguments :=
    if arguments[1]? = some "--show-toplevel".toList then
      .ok { stdout := Text.encode "/r\n".toList }
    else if arguments[1]? = some "--verify".toList &&
        !(known.map Git.revisionArguments).contains arguments then
      .ok { exitCode := some 1 }
    else .ok {}

def twoRevisions : Revisions := { old := ['1'], new := ['2'] }

def listingRequest : Request where
  directory := none
  verbosity := 0
  command := .listing twoRevisions

def listingCall : Git.Call where
  directory := "/r".toList
  arguments := Git.listingArguments true ['1'] ['2']

end Sample

/-- A listing comes behind the calls that open the repository, and with an unknown
revision there is none. -/
theorem Request.calls_behind_opening_listing :
    let opening := openingCalls "/r/src".toList twoRevisions "/r".toList
    (listingRequest.run (repositoryWorld [['1'], ['2']])).calls = opening ++ [listingCall] ∧
      listingCall.LooksInside ∧
      (∃ session, Opened (repositoryWorld [['1'], ['2']]) "/r/src".toList twoRevisions session ∧
        openingCalls "/r/src".toList twoRevisions session.root <+: opening) ∧
      FailsAfter (repositoryWorld [['1']]) "/r/src".toList twoRevisions opening ∧
      (listingRequest.run (repositoryWorld [['1']])).calls = opening := by
  intro opening
  have calls : (listingRequest.run (repositoryWorld [['1'], ['2']])).calls =
      opening ++ [listingCall] := by decide +kernel
  have looksInside : listingCall.LooksInside := ⟨"diff", by decide, rfl⟩
  have hasRoot : HasRoot (repositoryWorld [['1']]) "/r/src".toList "/r".toList :=
    ⟨rfl, _, ⟨_, rfl, by decide, rfl⟩, by decide +kernel⟩
  have failsAfter : FailsAfter (repositoryWorld [['1']]) "/r/src".toList twoRevisions opening := by
    refine .new hasRoot rfl ⟨_, rfl, by decide⟩ ?_
    rintro ⟨reply, answered, succeeded⟩
    cases answered
    exact absurd succeeded (by decide)
  obtain ⟨-, -, behind, -⟩ :=
    Request.calls_behind_opening (repositoryWorld [['1'], ['2']]) listingRequest
  obtain ⟨-, -, -, stops⟩ :=
    Request.calls_behind_opening (repositoryWorld [['1']]) listingRequest
  exact ⟨calls, looksInside, behind opening listingCall [] calls looksInside, failsAfter,
    (stops opening failsAfter).1⟩

end Requests

end ChangeCoverage
