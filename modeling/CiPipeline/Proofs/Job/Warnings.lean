import CiPipeline.Proofs.Job.Slots

/-!
# The warnings of a block

A block reports nothing but images that take the place of different ones. Its events are a function
of the job's name, of its image, and of the images that the block sets before its first refusal
(`run_events`).
-/

namespace CiPipeline.Job

/-- One warning for each image that takes the place of a different one. -/
def overrides (name : String) : Option Image → List Image → List Event
  | _, [] => []
  | none, image :: images => overrides name (some image) images
  | some previous, image :: images =>
    (if previous = image then [] else [.imageReplaced name previous.name image.name]) ++
      overrides name (some image) images

theorem overrides_cons (job : Job) (image : Image) (images : List Image) :
    overrides job.name job.image (image :: images) =
      job.imageEvents image ++ overrides job.name (some image) images := by
  rw [imageEvents]
  cases job.image <;> rfl

theorem eq_imageReplaced_of_mem {name : String} {previous : Option Image} {images : List Image} {e : Event}
    (member : e ∈ overrides name previous images) : ∃ old new, e = .imageReplaced name old new := by
  induction images generalizing previous with
  | nil => cases previous <;> cases member
  | cons image images ih =>
    cases previous with
    | none => exact ih member
    | some previous =>
      rcases List.mem_append.mp member with first | member
      · split at first
        · cases first
        · exact ⟨_, _, List.mem_singleton.mp first⟩
      · exact ih member

def Action.image? : Action → Option Image
  | .image chosen => some chosen
  | _ => none

theorem group_of_image {action : Action} (silent : action.image? = none) : action.group? ≠ some .image := by
  cases action with
  | image => cases silent
  | _ => simp [Action.group?]

theorem events_of_step {job : Job} {action : Action} {effect : Effect} (silent : action.image? = none)
    (done : job.step action = .ok effect) : effect.events = [] := by
  cases action with
  | image => cases silent
  | needs =>
    rw [step] at done
    split at done
    · cases done
      rfl
    · cases done
  | retry =>
    rw [step] at done
    split at done
    · cases done
      rfl
    · cases done
  | tryRetry =>
    rw [step] at done
    split at done <;> (cases done; rfl)
  | fail => cases done
  | _ =>
    cases done
    rfl

theorem step_of_image {job : Job} {action : Action} {image : Image} {effect : Effect}
    (set : action.image? = some image) (done : job.step action = .ok effect) :
    effect.events = job.imageEvents image ∧ effect.job.image = some image := by
  cases action <;> cases set
  cases done
  exact ⟨rfl, rfl⟩

theorem run_events (job : Job) (block : List Action) :
    (job.run block).events = overrides job.name job.image ((performed block).filterMap Action.image?) := by
  induction block generalizing job with
  | nil => cases h : job.image <;> rfl
  | cons action block ih =>
    cases refusal : action.refusal? with
    | some e =>
      rw [run_cons_error (step_of_refused refusal job), performed_cons_of_refused refusal]
      cases job.image <;> rfl
    | none =>
      obtain ⟨effect, done, name, -⟩ := step_of_accepted refusal job
      have rest := ih effect.job
      rw [name] at rest
      rw [run_cons_ok done, performed_cons refusal]
      show effect.events ++ (effect.job.run block).events = _
      cases set : action.image? with
      | none =>
        have kept : effect.job.image = job.image :=
          (slot_step done .image).trans (onSlot_other (group_of_image set) _)
        rw [rest, kept, events_of_step set done, List.filterMap_cons_none set, List.nil_append]
      | some image =>
        obtain ⟨events, replaced⟩ := step_of_image set done
        rw [rest, replaced, events, List.filterMap_cons_some set, overrides_cons]

end CiPipeline.Job
