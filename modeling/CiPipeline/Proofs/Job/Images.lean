import CiPipeline.Proofs.Job.Calls

/-!
# The images of a block

A block warns where an image takes the place of a different one, and so its warnings are the changes from
each of its images to the next (`warns_on_change`). Images are compared as a whole and shown by their names.
-/

namespace CiPipeline

namespace Image

def Setting.entrypoint? : Setting → Option (List String)
  | .entrypoint words => some words

/-- Settings keep the name, and the last entrypoint holds. -/
theorem configure_eq (image : Image) (settings : List Setting) : image.configure settings =
    { image with entrypoint := (settings.filterMap Setting.entrypoint?).getLast?.or image.entrypoint } := by
  induction settings using List.reverseRecOn with
  | nil => rfl
  | append_singleton settings setting ih =>
    cases setting with
    | entrypoint words =>
      unfold configure at ih ⊢
      rw [List.foldl_concat, ih, List.filterMap_append]
      simp [apply, Setting.entrypoint?]

end Image

namespace Job

/-- An image and the one that was set next, where the two differ. -/
def changes (images : List Image) : List (Image × Image) :=
  (images.zip images.tail).filter fun pair => pair.1 ≠ pair.2

theorem changes_cons_cons (image next : Image) (images : List Image) : changes (image :: next :: images) =
    (if image = next then [] else [(image, next)]) ++ changes (next :: images) := by
  unfold changes
  rw [List.tail_cons, List.zip_cons_cons, List.filter_cons]
  by_cases same : image = next <;> simp [same]

def replacement (name : String) (change : Image × Image) : Event :=
  .imageReplaced name change.1.name change.2.name

/-- A job warns of the change from the image that it has, and then from each new one. -/
theorem overrides_some (name : String) (current : Image) (images : List Image) :
    overrides name (some current) images = (changes (current :: images)).map (replacement name) := by
  induction images generalizing current with
  | nil => rfl
  | cons image images ih =>
    rw [overrides, ih, changes_cons_cons, List.map_append]
    by_cases same : current = image
    · rw [if_pos same, if_pos same]
      rfl
    · rw [if_neg same, if_neg same]
      rfl

theorem overrides_none (name : String) (images : List Image) :
    overrides name none images = (changes images).map (replacement name) := by
  cases images with
  | nil => rfl
  | cons image images => exact overrides_some name image images

/-- The events of a block are warnings, one for each image that differs from the image before it, with the
name of the job and of both images, and the job keeps the last image. An image is its name with its version
and the last entrypoint that its settings gave it, whichever way it was set. -/
theorem warns_on_change (name : String) (stage : Option String) (block : List Action) :
    let made := (fresh name stage).run block
    let images := (performed block).filterMap Action.image?
    made.events = ((images.zip images.tail).filter fun pair => pair.1 ≠ pair.2).map
      (fun pair => .imageReplaced name pair.1.name pair.2.name) ∧
    made.job.image = images.getLast? ∧
    (∀ event ∈ made.events, ∃ previous image, (previous, image) ∈ images.zip images.tail ∧ previous ≠ image ∧
      event.level = .warn ∧ event.message = "Job image set twice, keeping the latest" ∧
      event.fields = [("job", name), ("previous", previous.name), ("image", image.name)]) ∧
    ∀ image version settings, Image.latest image = Image.ofVersion image "latest" ∧
      (Image.ofVersion image version).configure settings =
        { name := image ++ ":" ++ version
          entrypoint := (settings.filterMap Image.Setting.entrypoint?).getLast? } := by
  intro made images
  have events : made.events = (changes images).map (replacement name) :=
    (run_events _ block).trans (overrides_none name images)
  refine ⟨events, image_run name stage block, fun event member => ?_, fun image version settings => ⟨rfl, ?_⟩⟩
  · rw [events] at member
    obtain ⟨⟨previous, image⟩, change, rfl⟩ := List.mem_map.mp member
    obtain ⟨follows, differs⟩ := List.mem_filter.mp change
    exact ⟨previous, image, follows, of_decide_eq_true differs, rfl, rfl, rfl⟩
  · rw [Image.configure_eq, Image.ofVersion, Option.or_none]

/-- Images set in three ways between other calls: another name, another entrypoint under the same name, and
the same image again by other settings. -/
def reimaged : List Action :=
  [.image (.ofVersion "rust" "1.80"), .tag "docker", .image (.latest "alpine"), .coverage "total",
    .image ((Image.ofVersion "alpine" "latest").configure [.entrypoint ["sh"]]),
    .image ((Image.ofVersion "alpine" "latest").configure [.entrypoint ["ash"], .entrypoint ["sh"]])]

theorem warns_reimaged :
    ((fresh "build" none).run reimaged).events =
      [.imageReplaced "build" "rust:1.80" "alpine:latest",
        .imageReplaced "build" "alpine:latest" "alpine:latest"] ∧
    ((fresh "build" none).run reimaged).job.image =
      some { name := "alpine:latest", entrypoint := some ["sh"] } := by
  obtain ⟨events, image, -⟩ := warns_on_change "build" none reimaged
  exact ⟨events.trans (by decide), image.trans (by decide)⟩

end Job
end CiPipeline
