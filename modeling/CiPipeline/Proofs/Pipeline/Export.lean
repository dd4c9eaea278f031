import CiPipeline.Proofs.Node.Fields
import CiPipeline.Proofs.Pipeline.Reachable

/-!
# The export of a pipeline

Stages and jobs share one map. `sections` is what it should hold, one entry for each declaration,
and it does exactly where no job takes the name of the list of stages (`exportsAll_iff`).
-/

namespace CiPipeline.Pipeline
open Mapping

def fields (p : Pipeline) : List (String × Option Node) :=
  ("stages", listed p.stages.toList) :: p.jobs.map fun job => (job.name, some (toNode job))

/-- The list of stages, when there is one, and then each job under its name. -/
def sections (p : Pipeline) : List (String × Node) :=
  (if p.stages.isEmpty then [] else [("stages", toNode p.stages.toList)]) ++
    p.jobs.map fun job => (job.name, toNode job)

/-- Where there are stages, no job has the name of their list. -/
def Unshadowed (p : Pipeline) : Prop :=
  p.stages.isEmpty = false → "stages" ∉ p.jobs.map (·.name)

theorem toMapping_eq_ofFields (p : Pipeline) : p.toMapping = ofFields p.fields := by
  rw [toMapping, ofFields, fields, List.foldl_cons, addOpt_listed, List.foldl_map]
  rfl

theorem present_fields (p : Pipeline) : present p.fields = p.sections := by
  have jobs := present_map_some p.jobs (·.name) toNode
  cases empty : p.stages.isEmpty with
  | true =>
    have none : listed p.stages.toList = none := if_pos empty
    rw [fields, none, present_cons_none, jobs, sections, if_pos empty, List.nil_append]
  | false =>
    have some : listed p.stages.toList = some (toNode p.stages.toList) :=
      if_neg (Bool.eq_false_iff.mp empty)
    rw [fields, some, present_cons_some, jobs, sections, if_neg (Bool.eq_false_iff.mp empty),
      List.singleton_append]

theorem names_sections (p : Pipeline) : p.sections.map (·.1) =
    (if p.stages.isEmpty then [] else ["stages"]) ++ p.jobs.map (·.name) := by
  rw [sections, List.map_append, List.map_map]
  split <;> rfl

theorem forall_mem_sections {p : Pipeline} {holds : String × Node → Prop}
    (stages : holds ("stages", toNode p.stages.toList))
    (jobs : ∀ job ∈ p.jobs, holds (job.name, toNode job)) : ∀ field ∈ p.sections, holds field := by
  intro field member
  rcases List.mem_append.mp member with first | member
  · split at first
    · cases first
    · rw [List.mem_singleton.mp first]
      exact stages
  · obtain ⟨job, found, rfl⟩ := List.mem_map.mp member
    exact jobs job found

theorem distinct_sections {p : Pipeline} (registered : Registered p) (unshadowed : p.Unshadowed) :
    (p.sections.map (·.1)).Nodup := by
  rw [names_sections]
  cases empty : p.stages.isEmpty with
  | true => exact registered.distinct
  | false => exact List.nodup_cons.mpr ⟨unshadowed empty, registered.distinct⟩

theorem entries_toMapping {p : Pipeline} (registered : Registered p) (unshadowed : p.Unshadowed) :
    p.toMapping.entries = pairs p.sections := by
  have distinct := distinct_sections registered unshadowed
  rw [← present_fields] at distinct
  rw [toMapping_eq_ofFields, entries_ofFields distinct, present_fields]

theorem toNode_eq_map {p : Pipeline} (registered : Registered p) (unshadowed : p.Unshadowed) :
    toNode p = .map (pairs p.sections) :=
  congrArg Node.map (entries_toMapping registered unshadowed)

/-- Each declaration has its entry: the stages under their name when there are any, behind them each
job under its own. -/
structure ExportsAll (p : Pipeline) : Prop where
  keys : p.toMapping.keys = ((if p.stages.isEmpty then [] else ["stages"]) ++ p.jobs.map (·.name)).map .str
  stages : p.stages.isEmpty = false →
    (toNode p).get? "stages" = some (.list (p.stages.toList.map .str))
  jobs : ∀ job ∈ p.jobs, (toNode p).get? job.name = some (toNode job)

theorem get?_toNode (p : Pipeline) (key : String) :
    (toNode p).get? key = Node.lookup? key p.toMapping.entries := rfl

theorem exportsAll_of_unshadowed {p : Pipeline} (registered : Registered p)
    (unshadowed : p.Unshadowed) : p.ExportsAll := by
  have entries := entries_toMapping registered unshadowed
  have found : ∀ {name : String} {value : Node}, (name, value) ∈ p.sections →
      (toNode p).get? name = some value := fun member => by
    rw [get?_toNode, entries, lookup?_pairs (distinct_sections registered unshadowed) member]
  refine ⟨?keys, ?stages, ?jobs⟩
  case keys => rw [Mapping.keys, entries, keys_pairs, names_sections]
  case stages =>
    intro staged
    exact found (List.mem_append_left _ (by simp [staged]))
  case jobs =>
    intro job member
    exact found (List.mem_append_right _ (List.mem_map.mpr ⟨job, member, rfl⟩))

/-- No declaration is lost in the export, unless a job takes the entry of the stages. -/
theorem exportsAll_iff {p : Pipeline} (reachable : Reachable p) : p.ExportsAll ↔ p.Unshadowed := by
  constructor
  · intro all staged shadowing
    obtain ⟨job, member, named⟩ := List.mem_map.mp shadowing
    have taken := all.jobs job member
    rw [named, all.stages staged] at taken
    cases taken
  · exact exportsAll_of_unshadowed (registered reachable)

/-- Without stages a job may have their name. -/
def stageless : List Declaration := [.job "stages" none [.tag "slow"], .job "a\nb" none []]

theorem exportsAll_stageless : Reachable (after {} stageless) ∧ (after {} stageless).ExportsAll := by
  have reachable := reachable_after stageless
  exact ⟨reachable, (exportsAll_iff reachable).mpr fun staged => by cases staged⟩

def shadowed : List Declaration := [.stage "build", .job "stages" none []]

/-- The export of a stage and of a job with the name of their list has one entry. -/
theorem not_exportsAll_shadowed : ¬ ∀ p, Reachable p → p.ExportsAll := by
  intro all
  have keys := congrArg List.length (all _ (reachable_after shadowed)).keys
  revert keys
  decide

end CiPipeline.Pipeline
