import CiPipeline.Job.Block

/-!
# Refused actions

Whether an action is refused depends on the action alone: `refusal?`. A block fails with the first
refusal in it (`run_error`); no block changes the name or the stage of its job; and a retry whose
refusal is caught leaves no mark (`run_withoutCaught`).
-/

namespace CiPipeline.Job

namespace Action

def refusal? : Action → Option PipelineError
  | .needs name _ _ => if Text.allBlank name.toList then some (.validation .emptyName) else none
  | .retry max _ =>
    if maxRetries < max.toNat then some (.validation (.invalidRetryMax max)) else none
  | .fail e => some e
  | _ => none

/-- A retry that is refused while its block goes on. -/
def caught : Action → Bool
  | .tryRetry max _ => maxRetries < max.toNat
  | _ => false

end Action

theorem tryRetry_of_caught {action : Action} (caught : action.caught = true) :
    ∃ max triggers, action = .tryRetry max triggers ∧ maxRetries < max.toNat := by
  cases action with
  | tryRetry max triggers => exact ⟨max, triggers, rfl, of_decide_eq_true caught⟩
  | _ => cases caught

theorem setRetry_of_le {max : UInt32} (allowed : max.toNat ≤ maxRetries) (job : Job)
    (triggers : List Retry.Trigger) :
    ∃ retry, job.setRetry max triggers = .ok { job with retry := some retry } := by
  rw [setRetry, Retry.ofMax, dif_pos allowed]
  exact ⟨_, rfl⟩

theorem setRetry_of_lt {max : UInt32} (above : maxRetries < max.toNat) (job : Job)
    (triggers : List Retry.Trigger) : job.setRetry max triggers = .error (.invalidRetryMax max) := by
  rw [setRetry, Retry.ofMax, dif_neg (Nat.not_le.mpr above)]
  rfl

/-! ### One action -/

theorem step_of_refused {action : Action} {e : PipelineError} (refused : action.refusal? = some e)
    (job : Job) : job.step action = .error e := by
  cases action with
  | needs name artifacts optional =>
    simp only [Action.refusal?, Option.ite_none_right_eq_some, Option.some.injEq] at refused
    rw [step, Dependency.on, if_pos refused.1, ← refused.2]
  | retry max triggers =>
    simp only [Action.refusal?, Option.ite_none_right_eq_some, Option.some.injEq] at refused
    rw [step, setRetry_of_lt refused.1, ← refused.2]
  | fail cause =>
    rw [step, Option.some.inj refused]
  | _ => cases refused

theorem step_of_accepted {action : Action} (accepted : action.refusal? = none) (job : Job) :
    ∃ effect, job.step action = .ok effect ∧ effect.job.name = job.name ∧ effect.job.stage = job.stage := by
  cases action with
  | script phase actions => cases phase <;> exact ⟨_, rfl, rfl, rfl⟩
  | needs name artifacts optional =>
    have visible : ¬ Text.allBlank name.toList = true := by simpa [Action.refusal?] using accepted
    rw [step, Dependency.on, if_neg visible]
    exact ⟨_, rfl, rfl, rfl⟩
  | retry max triggers =>
    have allowed : max.toNat ≤ maxRetries := by simpa [Action.refusal?] using accepted
    obtain ⟨retry, set⟩ := setRetry_of_le allowed job triggers
    rw [step, set]
    exact ⟨_, rfl, rfl, rfl⟩
  | tryRetry max triggers =>
    by_cases allowed : max.toNat ≤ maxRetries
    · obtain ⟨retry, set⟩ := setRetry_of_le allowed job triggers
      rw [step, set]
      exact ⟨_, rfl, rfl, rfl⟩
    · rw [step, setRetry_of_lt (Nat.not_le.mp allowed)]
      exact ⟨_, rfl, rfl, rfl⟩
  | fail cause => cases accepted
  | _ => exact ⟨_, rfl, rfl, rfl⟩

theorem refusal?_of_step {job : Job} {action : Action} {e : PipelineError}
    (failed : job.step action = .error e) : action.refusal? = some e := by
  cases refusal : action.refusal? with
  | some cause =>
    rw [step_of_refused refusal] at failed
    rw [Except.error.inj failed]
  | none =>
    obtain ⟨effect, step, -⟩ := step_of_accepted refusal job
    rw [step] at failed
    cases failed

/-- A caught refusal leaves the job as it was, an earlier retry included. -/
theorem step_of_caught {max : UInt32} (above : maxRetries < max.toNat) (job : Job)
    (triggers : List Retry.Trigger) :
    job.step (.tryRetry max triggers) = .ok { job, answer := .refused (.invalidRetryMax max) } := by
  rw [step, setRetry_of_lt above]

/-! ### A block -/

theorem run_error (job : Job) (block : List Action) :
    (job.run block).error = block.findSome? Action.refusal? := by
  induction block generalizing job with
  | nil => rfl
  | cons action block ih =>
    cases refusal : action.refusal? with
    | some e => rw [run_cons_error (step_of_refused refusal job), List.findSome?_cons, refusal]
    | none =>
      obtain ⟨effect, step, -⟩ := step_of_accepted refusal job
      rw [run_cons_ok step, List.findSome?_cons, refusal]
      exact ih effect.job

/-- A step of the block is refused after steps that were not. -/
def FailsWith (job : Job) (block : List Action) (e : PipelineError) : Prop :=
  ∃ front action rest, block = front ++ action :: rest ∧ (job.run front).error = none ∧
    (job.run front).job.step action = .error e

theorem run_error_eq_some_iff {job : Job} {block : List Action} {e : PipelineError} :
    (job.run block).error = some e ↔ job.FailsWith block e := by
  rw [run_error, List.findSome?_eq_some_iff]
  constructor
  · rintro ⟨front, action, rest, cut, refused, accepted⟩
    refine ⟨front, action, rest, cut, ?_, step_of_refused refused _⟩
    rw [run_error, List.findSome?_eq_none_iff]
    exact accepted
  · rintro ⟨front, action, rest, cut, passed, refused⟩
    rw [run_error, List.findSome?_eq_none_iff] at passed
    exact ⟨front, action, rest, cut, refusal?_of_step refused, passed⟩

theorem run_keeps (job : Job) (block : List Action) :
    (job.run block).job.name = job.name ∧ (job.run block).job.stage = job.stage := by
  induction block generalizing job with
  | nil => exact ⟨rfl, rfl⟩
  | cons action block ih =>
    cases refusal : action.refusal? with
    | some e => rw [run_cons_error (step_of_refused refusal job)]; exact ⟨rfl, rfl⟩
    | none =>
      obtain ⟨effect, step, name, stage⟩ := step_of_accepted refusal job
      rw [run_cons_ok step, ← name, ← stage]
      exact ih effect.job

def withoutCaught (block : List Action) : List Action := block.filter (!·.caught)

theorem withoutCaught_cons {action : Action} (kept : action.caught = false) (block : List Action) :
    withoutCaught (action :: block) = action :: withoutCaught block := by
  simp [withoutCaught, kept]

theorem withoutCaught_cons_of_caught {action : Action} (caught : action.caught = true)
    (block : List Action) : withoutCaught (action :: block) = withoutCaught block := by
  simp [withoutCaught, caught]

theorem run_withoutCaught (job : Job) (block : List Action) :
    (job.run (withoutCaught block)).job = (job.run block).job ∧
      (job.run (withoutCaught block)).events = (job.run block).events ∧
      (job.run (withoutCaught block)).error = (job.run block).error := by
  induction block generalizing job with
  | nil => exact ⟨rfl, rfl, rfl⟩
  | cons action block ih =>
    cases caught : action.caught with
    | true =>
      obtain ⟨max, triggers, rfl, above⟩ := tryRetry_of_caught caught
      rw [withoutCaught_cons_of_caught caught, run_cons_ok (step_of_caught above job triggers)]
      simpa using ih job
    | false =>
      rw [withoutCaught_cons caught]
      cases refusal : action.refusal? with
      | some e =>
        rw [run_cons_error (step_of_refused refusal job), run_cons_error (step_of_refused refusal job)]
        exact ⟨rfl, rfl, rfl⟩
      | none =>
        obtain ⟨effect, step, -⟩ := step_of_accepted refusal job
        obtain ⟨sameJob, sameEvents, sameError⟩ := ih effect.job
        rw [run_cons_ok step, run_cons_ok step]
        exact ⟨sameJob, congrArg (effect.events ++ ·) sameEvents, sameError⟩

end CiPipeline.Job
