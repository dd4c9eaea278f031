import CiPipeline.Proofs.Job.Refusal
import CiPipeline.Proofs.Node.LineKeys

/-!
# Well-formed jobs

Two facts about a job its type leaves open: a set of exit codes at which it may fail has a member,
and the names of its reports are on one line. Every action keeps them (`WellFormed.step`), and so
every block makes a well-formed job of a fresh one (`wellFormed_run`).
-/

namespace CiPipeline.Job

/-- What every action keeps holds after a block. -/
theorem run_preserves {P : Job → Prop}
    (keeps : ∀ {job action effect}, P job → step job action = .ok effect → P effect.job)
    {job : Job} (start : P job) (block : List Action) : P (job.run block).job := by
  induction block generalizing job with
  | nil => exact start
  | cons action block ih =>
    cases refusal : action.refusal? with
    | some e =>
      rw [run_cons_error (step_of_refused refusal job)]
      exact start
    | none =>
      obtain ⟨effect, done, -⟩ := step_of_accepted refusal job
      rw [run_cons_ok done]
      exact ih (keeps start done)

structure WellFormed (job : Job) : Prop where
  codes : ∀ codes, job.allowFailure = some (.exitCodes codes) → codes.toList ≠ []
  reports : job.artifacts.reports.LineKeys

theorem wellFormed_fresh (name : String) (stage : Option String) : (fresh name stage).WellFormed where
  codes _ set := by cases set
  reports := .empty

theorem WellFormed.of_same {job other : Job} (wellFormed : job.WellFormed)
    (allowFailure : other.allowFailure = job.allowFailure) (artifacts : other.artifacts = job.artifacts) :
    other.WellFormed where
  codes := by rw [allowFailure]; exact wellFormed.codes
  reports := by rw [artifacts]; exact wellFormed.reports

theorem addExitCode_ne_nil (allowed : AllowFailure) (code : Int32) (codes : OrderedSet Int32)
    (added : allowed.addExitCode code = .exitCodes codes) : codes.toList ≠ [] := by
  have member : code ∈ codes.toList := by
    cases allowed with
    | flag _ => exact AllowFailure.exitCodes.inj added ▸ OrderedSet.mem_insert.mpr (.inr rfl)
    | exitCodes _ => exact AllowFailure.exitCodes.inj added ▸ OrderedSet.mem_insert.mpr (.inr rfl)
  exact List.ne_nil_of_mem member

theorem feed_notMem_kindSlot (kind : ReportKind) : '\n' ∉ kind.slot.toList := by
  cases kind <;> decide

theorem feed_notMem_slot (report : Report) : '\n' ∉ report.slot.toList := by
  cases report with
  | file kind path => exact feed_notMem_kindSlot kind
  | coverage format path => exact (by decide : '\n' ∉ "coverage_report".toList)
  | cyclonedx paths => exact (by decide : '\n' ∉ "cyclonedx".toList)

theorem lineKeys_report (report : Report) : (toNode report).LineKeys := by
  cases report with
  | file kind path => exact Node.lineKeys_of_isScalar rfl
  | coverage format path =>
    exact (Mapping.LineKeys.empty.add (by decide) (Node.lineKeys_of_isScalar rfl)).add (by decide)
      (Node.lineKeys_of_isScalar rfl)
  | cyclonedx paths => exact Node.lineKeys_strings paths

theorem lineKeys_configure {artifacts : Artifacts} (before : artifacts.reports.LineKeys)
    (settings : List Artifacts.Setting) : (artifacts.configure settings).reports.LineKeys := by
  induction settings generalizing artifacts with
  | nil => exact before
  | cons setting settings ih =>
    suffices after : (artifacts.apply setting).reports.LineKeys from ih after
    cases setting with
    | report report => exact before.add (feed_notMem_slot report) (lineKeys_report report)
    | _ => exact before

theorem WellFormed.step {job : Job} {action : Action} {effect : Effect} (wellFormed : job.WellFormed)
    (done : job.step action = .ok effect) : effect.job.WellFormed := by
  cases action with
  | script phase actions =>
    cases done
    cases phase <;> exact wellFormed.of_same rfl rfl
  | needs name artifacts optional =>
    rw [Job.step] at done
    split at done
    · cases done
      exact wellFormed.of_same rfl rfl
    · cases done
  | artifacts settings =>
    cases done
    exact ⟨wellFormed.codes, lineKeys_configure wellFormed.reports settings⟩
  | retry max triggers =>
    by_cases allowed : max.toNat ≤ maxRetries
    · obtain ⟨retry, set⟩ := setRetry_of_le allowed job triggers
      rw [Job.step, set] at done
      cases done
      exact wellFormed.of_same rfl rfl
    · rw [Job.step, setRetry_of_lt (Nat.not_le.mp allowed)] at done
      cases done
  | tryRetry max triggers =>
    by_cases allowed : max.toNat ≤ maxRetries
    · obtain ⟨retry, set⟩ := setRetry_of_le allowed job triggers
      rw [Job.step, set] at done
      cases done
      exact wellFormed.of_same rfl rfl
    · rw [Job.step, setRetry_of_lt (Nat.not_le.mp allowed)] at done
      cases done
      exact wellFormed
  | allowFailure | forbidFailure =>
    cases done
    exact { wellFormed with codes := fun _ set => by cases set }
  | allowFailureOnExitCode code =>
    cases done
    exact ⟨fun codes set => addExitCode_ne_nil _ code codes (Option.some.inj set), wellFormed.reports⟩
  | fail e => cases done
  | _ =>
    cases done
    exact wellFormed.of_same rfl rfl

theorem wellFormed_run (name : String) (stage : Option String) (block : List Action) :
    ((fresh name stage).run block).job.WellFormed :=
  run_preserves WellFormed.step (wellFormed_fresh name stage) block

end CiPipeline.Job
