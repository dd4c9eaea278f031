import CiPipeline.Proofs.Job.Fields
import CiPipeline.Proofs.Job.WellFormed

/-!
# Keys of an exported job

The keys in the node of a job are fixed, but for the names of its variables. Where these are on one
line, every key is (`lineKeys_toNode`).
-/

namespace CiPipeline
open Mapping Node

theorem lineKeys_imageMapping (image : Image) : image.toMapping.LineKeys :=
  (LineKeys.empty.add (by decide) (lineKeys_of_isScalar rfl)).addOpt (by decide) fun words _ =>
    lineKeys_strings words

theorem lineKeys_service (service : Service) : (toNode service).LineKeys :=
  ((lineKeys_imageMapping service.image).addOpt (by decide) fun _ _ => lineKeys_of_isScalar rfl).addNonEmpty
    (by decide) fun _ _ => lineKeys_of_isScalar rfl

theorem lineKeys_dependency (d : Dependency) : (toNode d).LineKeys :=
  ((LineKeys.empty.add (by decide) (lineKeys_of_isScalar rfl)).add (by decide)
    (lineKeys_of_isScalar rfl)).add (by decide) (lineKeys_of_isScalar rfl)

theorem lineKeys_cacheMapping (cache : Cache) : cache.toMapping.LineKeys := by
  have key : ∀ n ∈ cache.keyNode?, (toNode n).LineKeys := by
    intro n shown
    rw [Option.mem_def, Cache.keyNode?] at shown
    split at shown
    · obtain ⟨key, -, rfl⟩ := Option.map_eq_some_iff.mp shown
      exact lineKeys_of_isScalar rfl
    · obtain rfl := Option.some.inj shown
      exact (LineKeys.empty.add (by decide) (lineKeys_strings _)).addOpt (by decide) fun _ _ =>
        lineKeys_of_isScalar rfl
  exact ((((LineKeys.empty.addOpt (by decide) key).addNonEmpty (by decide) fun _ _ =>
    lineKeys_of_isScalar rfl).addOpt (by decide) fun _ _ => lineKeys_of_isScalar rfl).addOpt (by decide)
    fun _ _ => lineKeys_of_isScalar rfl).addOpt (by decide) fun _ _ => lineKeys_of_isScalar rfl

theorem lineKeys_artifacts {artifacts : Artifacts} (reports : artifacts.reports.LineKeys) :
    (toNode artifacts).LineKeys := by
  have files : ∀ {paths : List String}, ∀ path ∈ paths, (toNode path).LineKeys := fun _ _ =>
    lineKeys_of_isScalar rfl
  have text : ∀ {value : Option String}, ∀ a ∈ value, (toNode a).LineKeys := fun _ _ =>
    lineKeys_of_isScalar rfl
  exact ((((((LineKeys.empty.addNonEmpty (by decide) files).addNonEmpty (by decide) files).addOpt (by decide)
    text).addOpt (by decide) text).addOpt (by decide) text).addMapNonEmpty (by decide) reports).add (by decide)
    (lineKeys_of_isScalar rfl)

theorem lineKeys_scalarOrList {α} [ToNode α] (scalars : ∀ a : α, (toNode a).isScalar = true)
    (s : OrderedSet α) : ∀ n ∈ s.scalarOrList, (toNode n).LineKeys := by
  intro n shown
  rw [Option.mem_def, OrderedSet.scalarOrList] at shown
  split at shown
  · cases shown
  · cases shown
    exact lineKeys_of_isScalar (scalars _)
  · cases shown
    exact lineKeys_toNode_list fun a _ => lineKeys_of_isScalar (scalars a)

theorem lineKeys_retry (retry : Retry) : (toNode retry).LineKeys := by
  rcases retry.toNode_cases with ⟨-, bare⟩ | ⟨-, shown⟩
  · rw [bare]
    exact lineKeys_of_isScalar rfl
  · rw [shown]
    refine lineKeys_present (by decide : ∀ name ∈ ["max", "when", "exit_codes"], '\n' ∉ name.toList) ?_
    intro name value member
    rw [Retry.fields, Retry.conditions, List.mem_cons, List.mem_cons, List.mem_singleton] at member
    rcases member with member | member | member
    · obtain rfl := Option.some.inj (Prod.mk.inj member).2
      exact lineKeys_of_isScalar rfl
    · exact lineKeys_scalarOrList (fun _ => rfl) _ _ (Prod.mk.inj member).2.symm
    · exact lineKeys_scalarOrList (fun _ => rfl) _ _ (Prod.mk.inj member).2.symm

theorem lineKeys_allowFailure (allowed : AllowFailure) : (toNode allowed).LineKeys := by
  cases allowed with
  | flag allowed => exact lineKeys_of_isScalar rfl
  | exitCodes codes =>
    exact LineKeys.empty.add (by decide) (lineKeys_toNode_list fun _ _ => lineKeys_of_isScalar rfl)

namespace Job

theorem lineKeys_variables {job : Job} (flat : ∀ named ∈ job.vars.entries, '\n' ∉ named.1.toList) :
    (toNode (ofPairs job.vars.entries)).LineKeys := by
  rw [job.toNode_variables]
  refine lineKeys_pairs (fun field member => ?_) fun field member => ?_
  · obtain ⟨named, found, rfl⟩ := List.mem_map.mp member
    exact flat named found
  · obtain ⟨named, -, rfl⟩ := List.mem_map.mp member
    exact lineKeys_of_isScalar rfl

theorem lineKeys_field {job : Job} (wellFormed : job.WellFormed)
    (flat : ∀ named ∈ job.vars.entries, '\n' ∉ named.1.toList) {name : String} {value : Node}
    (member : (name, some value) ∈ job.fields) : value.LineKeys := by
  cases hasField_of_mem member with
  | stage | coverage => exact lineKeys_of_isScalar rfl
  | image => exact lineKeys_imageMapping _
  | services => exact lineKeys_toNode_list fun service _ => lineKeys_service service
  | commands => exact lineKeys_toNode_list fun _ _ => lineKeys_of_isScalar rfl
  | tags => exact lineKeys_strings job.tags.toList
  | needs => exact lineKeys_toNode_list fun dependency _ => lineKeys_dependency dependency
  | vars => exact lineKeys_variables flat
  | cache => exact lineKeys_cacheMapping job.cache
  | artifacts => exact lineKeys_artifacts wellFormed.reports
  | retry => exact lineKeys_retry _
  | allowFailure => exact lineKeys_allowFailure _

theorem lineKeys_toNode {job : Job} (wellFormed : job.WellFormed)
    (flat : ∀ named ∈ job.vars.entries, '\n' ∉ named.1.toList) : (toNode job).LineKeys := by
  rw [toNode_eq_map]
  exact lineKeys_present (by rw [names_fields]; decide) fun _ _ => lineKeys_field wellFormed flat

end Job
end CiPipeline
