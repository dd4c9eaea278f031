import CiPipeline.Proofs.Job.Warnings

/-!
# Independent actions

Actions of different groups do not see each other: two blocks that agree on the actions of each
group, in order, make the same job and report the same warnings, however the groups are interleaved
(`run_eq_of_same_groups`).
-/

namespace CiPipeline.Job

theorem filterMap_image?_filter (block : List Action) :
    (block.filter (·.group? = some .image)).filterMap Action.image? = block.filterMap Action.image? := by
  rw [List.filterMap_filter]
  congr 1
  funext action
  cases action <;> rfl

theorem run_eq_of_same_groups {name : String} {stage : Option String} {first second : List Action}
    (passed : ((fresh name stage).run first).error = none)
    (passed' : ((fresh name stage).run second).error = none)
    (same : ∀ g : Group, first.filter (·.group? = some g) = second.filter (·.group? = some g)) :
    ((fresh name stage).run first).job = ((fresh name stage).run second).job ∧
      toNode ((fresh name stage).run first).job = toNode ((fresh name stage).run second).job ∧
      ((fresh name stage).run first).events = ((fresh name stage).run second).events := by
  have slots : ∀ g, ((fresh name stage).run first).job.slot g = ((fresh name stage).run second).job.slot g := by
    intro g
    rw [slot_run, slot_run, performed_of_passed passed, performed_of_passed passed',
      ← foldl_onSlot_filter, same g, foldl_onSlot_filter]
  have jobs : ((fresh name stage).run first).job = ((fresh name stage).run second).job := by
    obtain ⟨name₁, stage₁⟩ := run_keeps (fresh name stage) first
    obtain ⟨name₂, stage₂⟩ := run_keeps (fresh name stage) second
    exact eq_of_slots (name₁.trans name₂.symm) (stage₁.trans stage₂.symm) slots
  refine ⟨jobs, congrArg toNode jobs, ?_⟩
  rw [run_events, run_events, performed_of_passed passed, performed_of_passed passed',
    ← filterMap_image?_filter first, same .image, filterMap_image?_filter]

/-- Two images with a tag, a retry and two flags between them, and the same calls in another order. -/
def imagesFirst : List Action :=
  [.image (.ofVersion "rust" "1.79"), .image (.latest "rust"), .tag "docker", .retry 1 [], .allowFailure,
    .script .main [.shell "make"], .allowFailureOnExitCode 3, .needsSelf, .script .before [.shell "env"]]

def imagesLast : List Action :=
  [.script .before [.shell "env"], .needsSelf, .allowFailure, .tag "docker", .allowFailureOnExitCode 3,
    .image (.ofVersion "rust" "1.79"), .retry 1 [], .script .main [.shell "make"], .image (.latest "rust")]

theorem run_imagesFirst_eq :
    ((fresh "build" none).run imagesFirst).error = none ∧ ((fresh "build" none).run imagesLast).error = none ∧
      imagesFirst ≠ imagesLast ∧
      ((fresh "build" none).run imagesFirst).job = ((fresh "build" none).run imagesLast).job ∧
      ((fresh "build" none).run imagesLast).events = [.imageReplaced "build" "rust:1.79" "rust:latest"] := by
  have passed : ((fresh "build" none).run imagesFirst).error = none := rfl
  have passed' : ((fresh "build" none).run imagesLast).error = none := rfl
  have same : ∀ g : Group, imagesFirst.filter (·.group? = some g) = imagesLast.filter (·.group? = some g) := by
    intro g
    cases g with
    | script phase => cases phase <;> rfl
    | _ => rfl
  obtain ⟨jobs, -, events⟩ := run_eq_of_same_groups passed passed' same
  exact ⟨passed, passed', by decide, jobs, events.symm.trans rfl⟩

end CiPipeline.Job
