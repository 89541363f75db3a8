import ChangeCoverage.Git.Query

/-!
What questions to git come to.  A question that was answered was answered by one
reply of git for each command behind it.
-/

namespace ChangeCoverage.Git

variable {world : World} {directory : Text} {arguments : List Text}

/-- Git carries out a command and prints a text. -/
def Prints (world : World) (directory : Text) (arguments : List Text) (text : Text) : Prop :=
  ∃ reply, world.git directory arguments = .ok reply ∧ reply.succeeded = true ∧
    Text.decodeLossy reply.stdout = text

theorem outcome_call_eq_ok_iff {answer : Except Obstacle Reply} :
    (call world directory arguments).outcome = .ok answer ↔
      world.git directory arguments = answer := by
  unfold call
  cases world.git directory arguments with
  | error obstacle => exact Run.outcome_pure_eq_ok_iff
  | ok reply => exact Except.ok.injEq _ answer ▸ Iff.rfl

theorem outcome_reply_eq_ok_iff {answer : Reply} :
    (reply world directory arguments).outcome = .ok answer ↔
      world.git directory arguments = .ok answer := by
  rw [reply, Run.outcome_bind_eq_ok_iff]
  simp only [outcome_call_eq_ok_iff]
  constructor
  · rintro ⟨called, answered, replied⟩
    cases called with
    | error obstacle => exact absurd replied (Run.outcome_fail_ne_ok _ _)
    | ok found => rw [answered, Run.outcome_pure_eq_ok_iff.mp replied]
  · intro answered
    exact ⟨.ok answer, answered, rfl⟩

theorem outcome_successfulReply_eq_ok_iff {answer : Reply} :
    (successfulReply world directory arguments).outcome = .ok answer ↔
      world.git directory arguments = .ok answer ∧ answer.succeeded = true := by
  rw [successfulReply, Run.outcome_bind_eq_ok_iff]
  simp only [outcome_reply_eq_ok_iff]
  constructor
  · rintro ⟨found, answered, checked⟩
    split at checked
    next succeeded =>
      obtain rfl := Run.outcome_pure_eq_ok_iff.mp checked
      exact ⟨answered, succeeded⟩
    next => exact absurd checked (Run.outcome_fail_ne_ok _ _)
  · rintro ⟨answered, succeeded⟩
    refine ⟨answer, answered, ?_⟩
    rw [if_pos succeeded]
    rfl

theorem outcome_rawOutput_eq_ok_iff {text : Text} :
    (rawOutput world directory arguments).outcome = .ok text ↔
      Prints world directory arguments text := by
  rw [rawOutput, Run.outcome_bind_eq_ok_iff]
  simp only [outcome_successfulReply_eq_ok_iff, Run.outcome_pure_eq_ok_iff, Prints, and_assoc]

theorem outcome_succeeds_eq_ok_iff {answer : Bool} :
    (succeeds world directory arguments).outcome = .ok answer ↔
      ∃ reply, world.git directory arguments = .ok reply ∧ reply.succeeded = answer := by
  rw [succeeds, Run.outcome_bind_eq_ok_iff]
  simp only [outcome_reply_eq_ok_iff, Run.outcome_pure_eq_ok_iff]

/-- Whether git finds an object. -/
def finds (world : World) (directory object : Text) : Bool :=
  match world.git directory ["cat-file".toList, "-e".toList, object] with
  | .ok reply => reply.succeeded
  | .error _ => false

/-- A content that was asked for is printed, unless git does not find it. -/
theorem content?_cases {revision path : Text} {content : Option Text}
    (answered : (content? world directory revision path).outcome = .ok content) :
    (finds world directory (revision ++ ':' :: path) = false ∧ content = none) ∨
      (finds world directory (revision ++ ':' :: path) = true ∧
        ∃ text, content = some text ∧
          Prints world directory ["show".toList, revision ++ ':' :: path] text) := by
  obtain ⟨isFound, asked, shown⟩ := Run.outcome_bind_eq_ok_iff.mp answered
  obtain ⟨reply, replied, succeeded⟩ := outcome_succeeds_eq_ok_iff.mp asked
  have found : finds world directory (revision ++ ':' :: path) = isFound := by
    rw [finds, replied, ← succeeded]
  cases isFound with
  | false => exact .inl ⟨found, (Run.outcome_pure_eq_ok_iff.mp shown).symm⟩
  | true =>
      obtain ⟨text, printed, returned⟩ := Run.outcome_bind_eq_ok_iff.mp shown
      refine .inr ⟨found, text, (Run.outcome_pure_eq_ok_iff.mp returned).symm, ?_⟩
      exact outcome_rawOutput_eq_ok_iff.mp printed

end ChangeCoverage.Git
