import ChangeCoverage.Command.Execution
import ChangeCoverage.Proofs.Git.Reply

/-!
How commands fail.  Each step before the output prints nothing, and it fails for a few
reasons that are reported or panics where a line number takes more than 64 bits.  A
failure that concerns a single line of a patch or of a source file never ends a command.
The only step that can fail behind some output renders the rows of a view as text, which
panics behind the heading if the columns are too wide.
-/

namespace ChangeCoverage

/-- Failures that a command can end with.  The others are met on a single line,
and whoever reads the line goes on without it. -/
inductive Failure.EndsCommand : Failure → Prop where
  | user (detail : Text) : EndsCommand (.user detail)
  | git (detail : Text) : EndsCommand (.git detail)
  | configuration (detail : Text) : EndsCommand (.configuration detail)

inductive Failure.IsConfiguration : Failure → Prop where
  | intro (detail : Text) : IsConfiguration (.configuration detail)

theorem Failure.IsConfiguration.endsCommand {failure : Failure}
    (isConfiguration : failure.IsConfiguration) : failure.EndsCommand := by
  obtain ⟨detail⟩ := isConfiguration
  exact .configuration detail

/-- An outcome is a value, or a failure of an allowed kind. -/
def FailsWithin {α : Type} (allowed : Failure → Prop) : Except Failure α → Prop
  | .ok _ => True
  | .error failure => allowed failure

namespace FailsWithin

variable {α β : Type} {allowed : Failure → Prop}

theorem mono {wider : Failure → Prop} (wide : ∀ failure, allowed failure → wider failure)
    {outcome : Except Failure α} (fails : FailsWithin allowed outcome) :
    FailsWithin wider outcome := by
  cases outcome with
  | ok value => exact trivial
  | error failure => exact wide failure fails

theorem bind {first : Except Failure α} {next : α → Except Failure β}
    (firstFails : FailsWithin allowed first)
    (nextFails : ∀ value, FailsWithin allowed (next value)) :
    FailsWithin allowed (first >>= next) := by
  cases first with
  | ok value => exact nextFails value
  | error failure => exact firstFails

theorem map {outcome : Except Failure α} (change : α → β)
    (fails : FailsWithin allowed outcome) : FailsWithin allowed (outcome.map change) := by
  cases outcome with
  | ok value => exact trivial
  | error failure => exact fails

theorem mapM {read : α → Except Failure β} (fails : ∀ item, FailsWithin allowed (read item))
    (items : List α) : FailsWithin allowed (items.mapM read) := by
  induction items with
  | nil => exact trivial
  | cons item rest inductionHypothesis =>
      rw [List.mapM_cons]
      exact (fails item).bind fun _ => inductionHypothesis.bind fun _ => trivial

end FailsWithin

section Configuration

theorem FileFilter.usableGlobs_fails (setting : String) (globs : List Text) :
    FailsWithin Failure.IsConfiguration (usableGlobs setting globs) := by
  have readFails : FailsWithin Failure.IsConfiguration (readGlobs setting globs) := by
    refine .mapM (fun written => ?_) globs
    split
    · exact trivial
    · exact .intro _
  refine readFails.bind fun usable => ?_
  split
  · exact trivial
  · exact .intro _

theorem Config.fileFilter_fails (config : Config) :
    FailsWithin Failure.IsConfiguration config.fileFilter :=
  (FileFilter.usableGlobs_fails _ _).bind fun _ =>
    (FileFilter.usableGlobs_fails _ _).bind fun _ => trivial

theorem Config.validate_fails (config : Config) :
    FailsWithin Failure.IsConfiguration config.validate := by
  rw [validate]
  split
  · exact .intro _
  · split
    · exact .intro _
    · exact config.fileFilter_fails.map _

theorem Config.parse_fails (yaml : Text) :
    FailsWithin Failure.IsConfiguration (parse yaml) := by
  rw [parse]
  split
  · exact trivial
  · split
    · exact validate_fails _
    · exact .intro _

theorem Config.loadOrDefault_fails (world : World) (root : Text) :
    FailsWithin Failure.IsConfiguration (loadOrDefault world root) := by
  rw [loadOrDefault]
  split
  · rw [load]
    split
    · exact parse_fails _
    · exact .intro _
  · exact trivial

end Configuration

section Panics

/-- What git prints when a session asks for the diff of a file. -/
def Session.Compares (session : Session) (world : World) (revisions : Revisions)
    (previous : Option Text) (path patch : Text) : Prop :=
  Git.Prints world session.root
    (Git.diffArguments session.config.contextLines revisions.old revisions.new
      (previous.toList ++ [path])) patch

/-- The counters leave the 64-bit numbers on the lines of a diff of a file. -/
def Session.LinesOver (session : Session) (world : World) (revisions : Revisions)
    (path : Text) : Prop :=
  ∃ previous patch, session.Compares world revisions previous path patch ∧
    Patch.diffFor? patch path = none

/-- The counters leave the 64-bit numbers on the rows of a file along a diff of it. -/
def Session.RowsOver (session : Session) (world : World) (revisions : Revisions)
    (path : Text) : Prop :=
  ∃ previous patch diff old new, session.Compares world revisions previous path patch ∧
    Patch.diffFor? patch path = some diff ∧
    (Git.lines? world session.root revisions.old (previous.getD path)).outcome = .ok old ∧
    (Git.lines? world session.root revisions.new path).outcome = .ok new ∧
    Alignment.align? { old := old.getD [], new := new.getD [] } diff = none

/-- The counters leave the 64-bit numbers in what a command looks at: the diff of any file
for a report of cases, the diff and the rows of the one file for a view. -/
inductive Session.CountsOver (session : Session) (world : World) : Command → Prop where
  | cases {revisions : Revisions} {paths : List Text} {format : Option OutputFormat}
      {path : Text} :
      session.LinesOver world revisions path →
      CountsOver session world (.cases revisions paths format)
  | viewLines {revisions : Revisions} {path : Text} {format : Option OutputFormat}
      {width : Option Nat} :
      session.LinesOver world revisions (Text.forwardSlashes path) →
      CountsOver session world (.view revisions path format width)
  | viewRows {revisions : Revisions} {path : Text} {format : Option OutputFormat}
      {width : Option Nat} :
      session.RowsOver world revisions (Text.forwardSlashes path) →
      CountsOver session world (.view revisions path format width)

/-- When a request ends in a panic, and what it has printed then. -/
inductive Request.Panics (request : Request) (world : World) : Panic → Text → Prop where
  | overflow {session : Session} :
      (Session.openFor world request.directory request.command.revisions).outcome =
        .ok session →
      session.CountsOver world request.command →
      Panics request world .overflow []
  | wideColumn {revisions : Revisions} {path : Text} {format : Option OutputFormat}
      {width : Option Nat} {session : Session} {view : View} :
      request.command = .view revisions path format width →
      (Session.openFor world request.directory revisions).outcome = .ok session →
      (View.build world session revisions path).outcome = .ok view →
      format.getD session.config.outputFormat = .text →
      view.rows ≠ [] →
      Alignment.widestColumn < width.getD session.config.columnWidth →
      Panics request world .wideColumn (view.heading ++ ['\n'])

/-- Failures of the steps before the output: only where counters leave the 64-bit numbers
they are panics. -/
inductive Failure.Precedes (countsOver : Prop) : Failure → Prop where
  | reported {failure : Failure} : failure.EndsCommand → Precedes countsOver failure
  | overflow : countsOver → Precedes countsOver (.panic .overflow)

theorem Failure.Precedes.mono {countsOver wider : Prop} (wide : countsOver → wider)
    (failure : Failure) (precedes : failure.Precedes countsOver) : failure.Precedes wider := by
  cases precedes with
  | reported ends => exact .reported ends
  | overflow counts => exact .overflow (wide counts)

end Panics

namespace Run

variable {α β : Type}

/-- A run without output that succeeds, or fails in an allowed way. -/
structure Silent (allowed : Failure → Prop) (run : Run α) : Prop where
  printed : run.printed = []
  fails : FailsWithin allowed run.outcome

/-- A run that succeeds, or fails in a way that goes with its output. -/
def Fails (allowed : Failure → Text → Prop) (run : Run α) : Prop :=
  ∀ failure, run.outcome = .error failure → allowed failure run.printed

variable {allowed : Failure → Prop} {ends : Failure → Text → Prop}

theorem Silent.pure (value : α) : Silent allowed (Pure.pure value : Run α) := ⟨rfl, trivial⟩

theorem Silent.fail {failure : Failure} (isAllowed : allowed failure) :
    Silent allowed (Run.fail failure : Run α) := ⟨rfl, isAllowed⟩

theorem Silent.orPanic {cause : Panic} {computed : Option α}
    (panics : computed = none → allowed (.panic cause)) :
    Silent allowed (Run.orPanic cause computed) := by
  cases computed with
  | some value => exact ⟨rfl, trivial⟩
  | none => exact .fail (panics rfl)

theorem Silent.mono {wider : Failure → Prop} (wide : ∀ failure, allowed failure → wider failure)
    {run : Run α} (silent : Silent allowed run) : Silent wider run :=
  ⟨silent.printed, silent.fails.mono wide⟩

/-- The second part of a silent run has to be silent for the value of the first one. -/
theorem Silent.bind {run : Run α} {next : α → Run β} (silent : Silent allowed run)
    (nextSilent : ∀ value, run.outcome = .ok value → Silent allowed (next value)) :
    Silent allowed (run >>= next) := by
  obtain ⟨printed, fails⟩ := silent
  cases reached : run.outcome with
  | error failure =>
      rw [reached] at fails
      rw [bind_of_error reached]
      exact ⟨printed, fails⟩
  | ok value =>
      rw [bind_of_ok reached]
      refine ⟨?_, (nextSilent value reached).fails⟩
      simp only [printed, (nextSilent value reached).printed, List.append_nil]

theorem Silent.map {run : Run α} (silent : Silent allowed run) (change : α → β) :
    Silent allowed (change <$> run) := by
  rw [map_eq_pure_bind]
  exact silent.bind fun value _ => .pure (change value)

/-- What runs without output first leaves the output to what comes after it. -/
theorem Fails.bind {run : Run α} {next : α → Run β} (silent : Silent allowed run)
    (early : ∀ failure, allowed failure → ends failure [])
    (nextFails : ∀ value, run.outcome = .ok value → Fails ends (next value)) :
    Fails ends (run >>= next) := by
  intro failure failed
  obtain ⟨printed, fails⟩ := silent
  cases reached : run.outcome with
  | error found =>
      rw [bind_of_error reached] at failed ⊢
      obtain rfl := Except.error.inj failed
      rw [reached] at fails
      simpa only [printed] using early found fails
  | ok value =>
      rw [bind_of_ok reached] at failed ⊢
      simpa only [printed, List.nil_append] using nextFails value reached failure failed

theorem Fails.of_silent {run : Run α} (silent : Silent allowed run)
    (early : ∀ failure, allowed failure → ends failure []) : Fails ends run := by
  intro failure failed
  have fails := silent.fails
  rw [failed] at fails
  simpa only [silent.printed] using early failure fails

theorem Fails.printLines (outputLines : List Text) : Fails ends (Run.printLines outputLines) :=
  nofun

end Run

open Run (Silent Fails)
open Failure (EndsCommand Precedes)

namespace Git

variable (world : World) (directory : Text)

theorem silent_call (arguments : List Text) :
    Silent EndsCommand (call world directory arguments) := by
  rw [call]
  split
  · exact .pure _
  · exact ⟨rfl, trivial⟩

theorem silent_reply (arguments : List Text) :
    Silent EndsCommand (reply world directory arguments) := by
  refine (silent_call world directory arguments).bind fun answer _ => ?_
  split
  · exact .pure _
  · exact .fail (.git _)

theorem silent_successfulReply (arguments : List Text) :
    Silent EndsCommand (successfulReply world directory arguments) := by
  refine (silent_reply world directory arguments).bind fun answer _ => ?_
  split
  · exact .pure _
  · exact .fail (.git _)

theorem silent_rawOutput (arguments : List Text) :
    Silent EndsCommand (rawOutput world directory arguments) :=
  (silent_successfulReply world directory arguments).bind fun _ _ => .pure _

theorem silent_succeeds (arguments : List Text) :
    Silent EndsCommand (succeeds world directory arguments) :=
  (silent_reply world directory arguments).bind fun _ _ => .pure _

theorem rootFailure_endsCommand (answer : Reply) : (rootFailure answer).EndsCommand := by
  rw [rootFailure]
  split <;> exact .user _

theorem silent_rootOf : Silent EndsCommand (rootOf world directory) := by
  refine (silent_call world directory _).bind fun answer _ => ?_
  split
  · exact .fail (.user _)
  · split
    · exact .pure _
    · exact .fail (rootFailure_endsCommand _)

theorem silent_commitOf (revision : Text) :
    Silent EndsCommand (commitOf world directory revision) := by
  refine (silent_reply world directory _).bind fun answer _ => ?_
  split
  · exact .pure _
  · exact .fail (.user _)

theorem silent_changedFiles (detectRenames : Bool) (old new : Text) :
    Silent EndsCommand (changedFiles world directory detectRenames old new) :=
  (silent_successfulReply world directory _).bind fun _ _ => .pure _

theorem silent_lines? (revision path : Text) :
    Silent EndsCommand (lines? world directory revision path) := by
  have content : Silent EndsCommand (content? world directory revision path) := by
    refine (silent_succeeds world directory _).bind fun isFound _ => ?_
    split
    · exact (silent_rawOutput world directory _).bind fun _ _ => .pure _
    · exact .pure _
  exact content.bind fun _ _ => .pure _

end Git

/-- A step that never panics comes before the output of every command. -/
theorem Run.Silent.precedes {α : Type} {run : Run α} {countsOver : Prop}
    (silent : Silent EndsCommand run) : Silent (Precedes countsOver) run :=
  silent.mono fun _ => .reported

namespace Session

variable (world : World) (revisions : Revisions)

theorem silent_configuration (root : Text) :
    Silent EndsCommand (Run.ofOutcome (Config.loadOrDefault world root)) :=
  ⟨rfl, (Config.loadOrDefault_fails world root).mono fun _ =>
    Failure.IsConfiguration.endsCommand⟩

theorem silent_openFor (directory : Option Text) :
    Silent EndsCommand (openFor world directory revisions) := by
  have located : Silent EndsCommand (locateRoot world directory) := by
    rw [locateRoot]
    split
    · exact Git.silent_rootOf world _
    · exact .fail (.user _)
  refine located.bind fun root _ => ?_
  refine (silent_configuration world root).bind fun config _ => ?_
  refine (Git.silent_commitOf world root _).bind fun _ _ => ?_
  exact (Git.silent_commitOf world root _).bind fun _ _ => .pure _

theorem silent_diff (session : Session) (previous : Option Text) (path : Text) :
    Silent (Precedes (session.LinesOver world revisions path))
      (session.diff world revisions previous path) := by
  refine (Git.silent_rawOutput world session.root _).precedes.bind fun patch printed => ?_
  refine .orPanic fun unread => .overflow ?_
  exact ⟨previous, patch, Git.outcome_rawOutput_eq_ok_iff.mp printed, unread⟩

end Session

variable (world : World) (revisions : Revisions)

namespace CaseReport

theorem silent_choose (config : Config) (changed : List ChangedFile) (paths : List Text) :
    Silent EndsCommand (Run.ofOutcome (choose config changed paths)) := by
  have chosen : FailsWithin Failure.IsConfiguration (choose config changed paths) := by
    rw [choose]
    split
    · exact config.fileFilter_fails.map _
    · exact trivial
  exact ⟨rfl, chosen.mono fun _ => Failure.IsConfiguration.endsCommand⟩

theorem silent_changedLines (session : Session) (file : ChangedFile) (lineCount : Nat) :
    Silent (Precedes (session.LinesOver world revisions file.path))
      (changedLines world session revisions file lineCount) := by
  rw [changedLines]
  split
  · exact .pure _
  · exact (session.silent_diff world revisions _ _).map _

theorem silent_fileCases? (session : Session) (file : ChangedFile) :
    Silent (Precedes (session.LinesOver world revisions file.path))
      (fileCases? world session revisions file) := by
  rw [fileCases?]
  split
  · exact .pure _
  · refine (Git.silent_lines? world session.root _ _).precedes.bind fun found _ => ?_
    split
    · exact .pure _
    · exact (silent_changedLines world revisions session file _).bind fun _ _ => .pure _

theorem silent_allFileCases (session : Session) (files : List ChangedFile) :
    Silent (Precedes (∃ path, session.LinesOver world revisions path))
      (allFileCases world session revisions files) := by
  induction files with
  | nil => exact .pure _
  | cons file rest inductionHypothesis =>
      have counted : Silent (Precedes (∃ path, session.LinesOver world revisions path))
          (fileCases? world session revisions file) :=
        (silent_fileCases? world revisions session file).mono
          (Precedes.mono fun counts => ⟨file.path, counts⟩)
      refine counted.bind fun found _ => ?_
      exact inductionHypothesis.bind fun _ _ => .pure _

theorem silent_collect (session : Session) (paths : List Text) :
    Silent (Precedes (∃ path, session.LinesOver world revisions path))
      (collect world session revisions paths) := by
  refine (Git.silent_changedFiles world session.root _ _ _).precedes.bind fun changed _ => ?_
  refine (silent_choose _ _ _).precedes.bind fun chosen _ => ?_
  exact (silent_allFileCases world revisions session chosen).bind fun _ _ => .pure _

end CaseReport

namespace View

theorem silent_build (session : Session) (path : Text) :
    Silent (Precedes (session.LinesOver world revisions (Text.forwardSlashes path) ∨
        session.RowsOver world revisions (Text.forwardSlashes path)))
      (build world session revisions path) := by
  refine (Git.silent_changedFiles world session.root _ _ _).precedes.bind fun files _ => ?_
  refine (Git.silent_lines? world session.root _ _).precedes.bind fun old oldRead => ?_
  refine (Git.silent_lines? world session.root _ _).precedes.bind fun new newRead => ?_
  split
  · exact .fail (.reported (.user _))
  · refine ((session.silent_diff world revisions _ _).mono (Precedes.mono .inl)).bind
      fun diff compared => ?_
    obtain ⟨patch, printed, read⟩ := Run.outcome_bind_eq_ok_iff.mp compared
    refine Silent.bind (.orPanic fun unaligned => .overflow (.inr ?_)) fun _ _ => .pure _
    refine ⟨_, patch, diff, old, new, Git.outcome_rawOutput_eq_ok_iff.mp printed,
      Run.outcome_orPanic_eq_ok_iff.mp read, ?_, newRead, unaligned⟩
    rw [← oldRead]
    congr 2
    split
    next same => exact same.symm
    next => rfl

section Rows

variable {rows : List Alignment.Row} {width : Nat}

theorem exists_mapM_render? (narrow : ¬Alignment.widestColumn < width) :
    ∃ rendered, rows.mapM (·.render? width) = some rendered := by
  induction rows with
  | nil => exact ⟨[], rfl⟩
  | cons row rest inductionHypothesis =>
      obtain ⟨later, rendered⟩ := inductionHypothesis
      obtain ⟨text, here⟩ : ∃ text, row.render? width = some text := by
        simp [Alignment.Row.render?, Alignment.Side.render?, narrow]
      exact ⟨text :: later, by simp [here, rendered]⟩

/-- Only rows that there are can be too wide. -/
theorem wide_of_mapM_render? (unrendered : rows.mapM (·.render? width) = none) :
    rows ≠ [] ∧ Alignment.widestColumn < width := by
  constructor
  · rintro rfl
    cases unrendered
  · refine Decidable.byContradiction fun narrow => ?_
    obtain ⟨rendered, given⟩ := @exists_mapM_render? rows width narrow
    rw [given] at unrendered
    cases unrendered

end Rows

/-- The heading is printed before it is known whether the rows can be rendered. -/
theorem printText_fails (view : View) (width : Nat) :
    Fails (fun failure printed => failure = .panic .wideColumn ∧
        printed = view.heading ++ ['\n'] ∧ view.rows ≠ [] ∧ Alignment.widestColumn < width)
      (view.printText width) := by
  intro failure failed
  cases rendered : view.rows.mapM (·.render? width) with
  | some rows =>
      rw [printText, rendered] at failed
      cases failed
  | none =>
      obtain ⟨filled, wide⟩ := wide_of_mapM_render? rendered
      rw [printText, rendered] at failed ⊢
      refine ⟨(Except.error.inj failed).symm, ?_, filled, wide⟩
      simp [Run.orPanic, Run.fail, Run.ofOutcome, Run.printLines, Bind.bind, Run.bind]

end View

/-- A failure that is reported before any output, or a panic. -/
def Request.FailsWith (request : Request) (world : World) (failure : Failure) (printed : Text) :
    Prop :=
  failure.EndsCommand ∧ printed = [] ∨
    ∃ cause, failure = .panic cause ∧ request.Panics world cause printed

section Requests

variable {world} {request : Request} {revisions : Revisions}

theorem Request.failsWith_of_endsCommand (failure : Failure) (ends : failure.EndsCommand) :
    request.FailsWith world failure [] :=
  .inl ⟨ends, rfl⟩

theorem Request.failsWith_of_precedes {session : Session}
    (opened : (Session.openFor world request.directory request.command.revisions).outcome =
      .ok session) (failure : Failure)
    (precedes : failure.Precedes (session.CountsOver world request.command)) :
    request.FailsWith world failure [] := by
  cases precedes with
  | reported ends => exact failsWith_of_endsCommand failure ends
  | overflow counts => exact .inr ⟨_, rfl, .overflow opened counts⟩

theorem Listing.run_fails :
    Fails (request.FailsWith world) (run world request.directory revisions) := by
  refine .bind (Session.silent_openFor world revisions _) Request.failsWith_of_endsCommand
    fun session _ => ?_
  refine .bind (Git.silent_changedFiles world session.root _ _ _)
    Request.failsWith_of_endsCommand fun files _ => ?_
  split <;> exact .printLines _

theorem CaseReport.run_fails {paths : List Text} {format : Option OutputFormat}
    (isCases : request.command = .cases revisions paths format) :
    Fails (request.FailsWith world) (run world request.directory revisions paths format) := by
  refine .bind (Session.silent_openFor world revisions _) Request.failsWith_of_endsCommand
    fun session opened => ?_
  have early := Request.failsWith_of_precedes (by rwa [isCases])
  have counted : Silent (Precedes (session.CountsOver world request.command))
      (collect world session revisions paths) := by
    rw [isCases]
    exact (silent_collect world revisions session paths).mono
      (Precedes.mono fun ⟨_, counts⟩ => .cases counts)
  refine .bind counted early fun report _ => ?_
  split <;> exact .printLines _

theorem View.run_fails {path : Text} {format : Option OutputFormat} {width : Option Nat}
    (isView : request.command = .view revisions path format width) :
    Fails (request.FailsWith world) (run world request.directory revisions path format width) := by
  refine .bind (Session.silent_openFor world revisions _) Request.failsWith_of_endsCommand
    fun session opened => ?_
  have early := Request.failsWith_of_precedes (by rwa [isView])
  have counted : Silent (Precedes (session.CountsOver world request.command))
      (build world session revisions path) := by
    rw [isView]
    exact (silent_build world revisions session path).mono
      (Precedes.mono fun counts => counts.elim .viewLines .viewRows)
  dsimp only
  split
  · exact .of_silent (.fail (.user _)) Request.failsWith_of_endsCommand
  · refine .bind counted early fun view built => ?_
    split
    next => exact .printLines _
    next isText =>
      intro failure failed
      obtain ⟨rfl, printed, filled, wide⟩ := view.printText_fails _ failure failed
      rw [printed]
      exact .inr ⟨_, rfl, .wideColumn isView opened built isText filled wide⟩

theorem Request.run_fails (request : Request) :
    Fails (request.FailsWith world) (request.run world) := by
  rw [run]
  split
  next => exact Listing.run_fails
  next isView => exact View.run_fails isView
  next isCases => exact CaseReport.run_fails isCases

end Requests

/-- Whatever the files and git's answers are, a request that fails has printed nothing and
fails for a reason that can end a command, unless it panics: where line numbers take more
than 64 bits, without output, or where the rows of a view are too wide, behind its heading.
It leads to the exit code of a git failure exactly if git failed. -/
theorem Request.printed_and_exitCode_of_error {request : Request} {world : World}
    {failure : Failure} (failed : (request.run world).outcome = .error failure) :
    (failure.EndsCommand ∧ (request.run world).printed = [] ∧
        (failure.exitCode = 2 ∨ failure.exitCode = 1) ∨
      ∃ cause, failure = .panic cause ∧
        request.Panics world cause (request.run world).printed) ∧
      (failure.exitCode = 2 ↔ ∃ detail, failure = .git detail) := by
  refine ⟨?_, failure.exitCode_eq_two_iff⟩
  rcases request.run_fails failure failed with ⟨ends, printed⟩ | panics
  · refine .inl ⟨ends, printed, ?_⟩
    cases ends with
    | user detail => exact .inr rfl
    | git detail => exact .inl rfl
    | configuration detail => exact .inr rfl
  · exact .inr panics

section Sample

/-- A world in which git lists and prints a modified file. -/
def comparedWorld (comparison : Git.Reply) : World where
  workingDirectory := ['/']
  time := []
  entry path := if path = ['/'] then .ok .directory else .error .missing
  git _ arguments :=
    if arguments[2]? = some "--no-ext-diff".toList then .ok comparison
    else
      let printed : Text :=
        if arguments[1]? = some "--name-status".toList then "M\ta.cs\n".toList
        else if arguments[0]? = some "rev-parse".toList then "/\n".toList
        else "if (x)\n".toList
      .ok { stdout := Text.encode printed }

/-- A world in which git cannot compare the file. -/
def brokenDiffWorld : World :=
  comparedWorld { stderr := Text.encode "bad object\n".toList, exitCode := some 128 }

/-- A world in which the file is compared with a diff behind the greatest line number. -/
def endlessDiffWorld : World :=
  comparedWorld { stdout := Text.encode "@@ -18446744073709551615,2 +2 @@\n-a\n-b\n".toList }

/-- A world in which nothing about the file has changed. -/
def emptyDiffWorld : World :=
  comparedWorld {}

def sampleRequest (command : Command) : Request :=
  { directory := none, verbosity := 0, command }

def casesRequest : Request :=
  sampleRequest (.cases { old := ['1'], new := ['2'] } ["a.cs".toList] none)

def wideRequest : Request :=
  sampleRequest (.view { old := ['1'], new := ['2'] } "a.cs".toList none (some 65536))

end Sample

theorem Request.printed_and_exitCode_of_error_diff :
    let failure := Failure.git "git diff failed (exit code 128): bad object".toList
    (casesRequest.run brokenDiffWorld).outcome = .error failure ∧
      failure.EndsCommand ∧ (casesRequest.run brokenDiffWorld).printed = [] ∧
      failure.exitCode = 2 := by
  intro failure
  have failed : (casesRequest.run brokenDiffWorld).outcome = .error failure := by
    rfl
  obtain ⟨reported | ⟨cause, isPanic, -⟩, exitCode⟩ :=
    Request.printed_and_exitCode_of_error failed
  · exact ⟨failed, reported.1, reported.2.1, exitCode.mpr ⟨_, rfl⟩⟩
  · exact absurd isPanic nofun

/-- A request can fail without a report, and then also behind the first line of its output. -/
theorem Request.run_panics :
    (casesRequest.run endlessDiffWorld).outcome = .error (.panic .overflow) ∧
      (wideRequest.run emptyDiffWorld).outcome = .error (.panic .wideColumn) ∧
      (wideRequest.run emptyDiffWorld).printed = "a.cs (1) -> a.cs (2)\n".toList ∧
      ∀ cause, ¬(Failure.panic cause).EndsCommand := by
  exact ⟨rfl, rfl, by decide +kernel, nofun⟩

end ChangeCoverage
