import ChangeCoverage.World.Basic

/-!
Runs: the outcome of a computation together with its traces, the calls of git
it made and the text it printed.  A run that fails keeps its traces, and what
would have come after the failure leaves none.
-/

namespace ChangeCoverage

structure Run (α : Type) where
  outcome : Except Failure α
  calls : List Git.Call := []
  printed : Text := []

namespace Run

variable {α β : Type}

def ofOutcome (outcome : Except Failure α) : Run α :=
  { outcome }

def fail (failure : Failure) : Run α :=
  ofOutcome (.error failure)

/-- A computed value, or a panic where the computation gives none. -/
def orPanic (cause : Panic) : Option α → Run α
  | some value => ofOutcome (.ok value)
  | none => fail (.panic cause)

def printLines (lines : List Text) : Run Unit :=
  { outcome := .ok (), printed := lines.flatMap (· ++ ['\n']) }

def bind (run : Run α) (next : α → Run β) : Run β :=
  match run.outcome with
  | .error failure =>
      { outcome := .error failure, calls := run.calls, printed := run.printed }
  | .ok value =>
      let rest := next value
      { outcome := rest.outcome,
        calls := run.calls ++ rest.calls,
        printed := run.printed ++ rest.printed }

instance : Monad Run where
  pure value := ofOutcome (.ok value)
  bind := bind

theorem bind_of_ok {run : Run α} {value : α} (succeeded : run.outcome = .ok value)
    (next : α → Run β) :
    run >>= next =
      { outcome := (next value).outcome,
        calls := run.calls ++ (next value).calls,
        printed := run.printed ++ (next value).printed } := by
  simp [Bind.bind, Run.bind, succeeded]

theorem bind_of_error {run : Run α} {failure : Failure} (failed : run.outcome = .error failure)
    (next : α → Run β) :
    run >>= next =
      { outcome := .error failure, calls := run.calls, printed := run.printed } := by
  simp [Bind.bind, Run.bind, failed]

/-- A run goes through both of its parts or fails in one of them. -/
theorem outcome_bind_eq_ok_iff {run : Run α} {next : α → Run β} {value : β} :
    (run >>= next).outcome = .ok value ↔
      ∃ middle, run.outcome = .ok middle ∧ (next middle).outcome = .ok value := by
  cases reached : run.outcome with
  | error failure => simp [bind_of_error reached]
  | ok middle => simp [bind_of_ok reached]

theorem outcome_pure_eq_ok_iff {value other : α} :
    (pure value : Run α).outcome = .ok other ↔ value = other :=
  Except.ok.injEq value other ▸ Iff.rfl

theorem outcome_fail_ne_ok (failure : Failure) (value : α) :
    (fail failure : Run α).outcome ≠ .ok value :=
  nofun

theorem calls_orPanic (cause : Panic) (computed : Option α) :
    (orPanic cause computed).calls = [] := by
  cases computed <;> rfl

theorem outcome_orPanic_eq_ok_iff {cause : Panic} {computed : Option α} {value : α} :
    (orPanic cause computed).outcome = .ok value ↔ computed = some value := by
  cases computed with
  | none => exact iff_of_false (outcome_fail_ne_ok _ value) nofun
  | some result => simp [orPanic, ofOutcome]

theorem map_id (run : Run α) : id <$> run = run := by
  rcases run with ⟨outcome, calls, printed⟩
  cases outcome <;> simp [Functor.map, bind, ofOutcome]

theorem pure_bind (value : α) (next : α → Run β) : pure value >>= next = next value := by
  simp [Bind.bind, Run.bind, Pure.pure, ofOutcome]

theorem bind_assoc {γ : Type} (run : Run α) (first : α → Run β) (second : β → Run γ) :
    run >>= first >>= second = run >>= fun value => first value >>= second := by
  rcases run with ⟨outcome, calls, printed⟩
  cases outcome with
  | error failure => simp [Bind.bind, Run.bind]
  | ok value =>
      simp only [Bind.bind, Run.bind]
      cases (first value).outcome <;> simp

instance : LawfulMonad Run :=
  LawfulMonad.mk' Run map_id pure_bind bind_assoc

theorem outcome_map_eq_ok_iff {run : Run α} {change : α → β} {value : β} :
    (change <$> run).outcome = .ok value ↔
      ∃ before, run.outcome = .ok before ∧ change before = value := by
  rw [map_eq_pure_bind, outcome_bind_eq_ok_iff]
  simp only [outcome_pure_eq_ok_iff]

end Run

end ChangeCoverage
