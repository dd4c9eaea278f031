import CiPipeline.Proofs.Collection.FirstOccurrence
import CiPipeline.Proofs.Pipeline.History

/-!
# Pipelines as replays

A pipeline that was built without a refusal is a function of its history (`build_replays`): stages
and names of jobs stand in the order of their first mention, and the job of a name is the one that
the last declaration of the name made from a fresh job. `Replays` is the invariant.
-/

namespace CiPipeline.Pipeline

def Declaration.builtAs? (name : String) (d : Declaration) : Option Job :=
  if d.jobName? = some name then d.built? else none

def lastJob? (ds : List Declaration) (name : String) : Option Job :=
  ds.reverse.findSome? (·.builtAs? name)

theorem Declaration.builtAs?_eq_none_iff {name : String} {d : Declaration} :
    d.builtAs? name = none ↔ d.jobName? ≠ some name := by
  cases d <;> simp [builtAs?, jobName?, built?]

theorem lastJob?_concat (ds : List Declaration) (d : Declaration) (name : String) :
    lastJob? (ds ++ [d]) name = (d.builtAs? name).or (lastJob? ds name) := by
  rw [lastJob?, List.reverse_concat, List.findSome?_cons]
  cases d.builtAs? name <;> rfl

theorem lastJob?_eq_none_iff {ds : List Declaration} {name : String} :
    lastJob? ds name = none ↔ name ∉ ds.filterMap Declaration.jobName? := by
  simp only [lastJob?, List.findSome?_eq_none_iff, List.mem_reverse, List.mem_filterMap, not_exists,
    not_and, Declaration.builtAs?_eq_none_iff, ne_eq]

/-! ### The place of a job -/

/-- Where no name stands twice, a placed job takes the place of every job of its name. -/
theorem mem_placeJob {job other : Job} {jobs : List Job} (distinct : (jobs.map (·.name)).Nodup)
    (member : other ∈ placeJob job jobs) : other = job ∨ other ∈ jobs ∧ other.name ≠ job.name := by
  induction jobs with
  | nil => exact .inl (List.mem_singleton.mp member)
  | cons first jobs ih =>
    obtain ⟨missing, distinct⟩ := List.nodup_cons.mp distinct
    rw [placeJob] at member
    by_cases same : first.name = job.name
    · rw [if_pos (beq_iff_eq.mpr same)] at member
      rcases List.mem_cons.mp member with rfl | member
      · exact .inl rfl
      · refine .inr ⟨.tail _ member, fun named => missing ?_⟩
        have known := List.mem_map_of_mem (f := (·.name)) member
        rwa [named, ← same] at known
    · rw [if_neg (mt beq_iff_eq.mp same)] at member
      rcases List.mem_cons.mp member with rfl | member
      · exact .inr ⟨.head _, same⟩
      · exact (ih distinct member).imp_right (And.imp_left (.tail _))

/-! ### The invariant -/

structure Replays (ds : List Declaration) (p : Pipeline) : Prop where
  stages : p.stages.toList = (ds.filterMap Declaration.stage?).eraseDups
  names : p.jobs.map (·.name) = (ds.filterMap Declaration.jobName?).eraseDups
  last : ∀ job ∈ p.jobs, lastJob? ds job.name = some job

theorem replays_empty : Replays [] {} where
  stages := by simp [OrderedSet.empty]
  names := by simp
  last := by simp

namespace Replays

variable {ds : List Declaration} {p : Pipeline}

theorem distinct (replays : Replays ds p) : (p.jobs.map (·.name)).Nodup := by
  rw [replays.names]
  exact nodup_eraseDups _

theorem mem_names (replays : Replays ds p) {name : String} :
    name ∈ p.jobs.map (·.name) ↔ name ∈ ds.filterMap Declaration.jobName? := by
  rw [replays.names, List.mem_eraseDups]

theorem jobNamed? (replays : Replays ds p) (name : String) : p.jobNamed? name = lastJob? ds name := by
  cases found : p.jobNamed? name with
  | some job =>
    have named : job.name = name := by simpa using List.find?_some found
    rw [← named, replays.last job (List.mem_of_find?_eq_some found)]
  | none =>
    symm
    rw [lastJob?_eq_none_iff, ← replays.mem_names]
    intro known
    obtain ⟨job, member, named⟩ := List.mem_map.mp known
    simpa [named] using List.find?_eq_none.mp found job member

theorem declare (replays : Replays ds p) {d : Declaration} (accepted : d.refusal? = none) :
    Replays (ds ++ [d]) (p.declare d).pipeline := by
  rw [declare_of_accepted accepted]
  have named := d.built?_name
  refine ⟨?stages, ?names, ?last⟩
  case stages =>
    cases mention : d.stage? with
    | none => simpa [mention] using replays.stages
    | some stage =>
      rw [List.filterMap_append, List.filterMap_cons_some mention]
      exact OrderedSet.toList_insert_eraseDups replays.stages stage
  case names =>
    cases built : d.built? with
    | none =>
      rw [built] at named
      simpa [← named] using replays.names
    | some job =>
      rw [built] at named
      simp only [List.filterMap_append, List.filterMap_cons_some named.symm, List.filterMap_nil]
      rw [eraseDups_concat, ← replays.names]
      exact placeJob_names job p.jobs
  case last =>
    intro other member
    rw [lastJob?_concat]
    cases built : d.built? with
    | none =>
      rw [built] at named member
      have silent : d.builtAs? other.name = none := by simp [Declaration.builtAs?, ← named]
      rw [silent]
      exact replays.last other member
    | some job =>
      rw [built] at named member
      rcases mem_placeJob replays.distinct member with rfl | ⟨known, distinct⟩
      · simp [Declaration.builtAs?, ← named, built]
      · have silent : d.builtAs? other.name = none := by
          rw [Declaration.builtAs?_eq_none_iff, ← named]
          exact fun same => distinct (Option.some.inj same).symm
        rw [silent]
        exact replays.last other known

theorem after (replays : Replays ds p) {rest : List Declaration}
    (accepted : ∀ d ∈ rest, d.refusal? = none) : Replays (ds ++ rest) (p.after rest) := by
  induction rest generalizing ds p with
  | nil => rw [List.append_nil]; exact replays
  | cons d rest ih =>
    obtain ⟨first, accepted⟩ := List.forall_mem_cons.mp accepted
    have grown := ih (replays.declare first) accepted
    rwa [List.append_assoc] at grown

theorem last_jobs (replays : Replays ds p) :
    p.jobs.map some = (p.jobs.map (·.name)).map (lastJob? ds) := by
  rw [List.map_map]
  exact List.map_congr_left fun job member => (replays.last job member).symm

end Replays

/-- Stages and names in the order of their first mention, each job as its last declaration made it,
and nothing under a name that no declaration has. -/
theorem build_replays {ds : List Declaration} {p : Pipeline} (built : Pipeline.build ds = .ok p) :
    p.stages.toList = (ds.filterMap Declaration.stage?).eraseDups ∧
      p.jobs.map (·.name) = (ds.filterMap Declaration.jobName?).eraseDups ∧
      p.jobs.map some = (ds.filterMap Declaration.jobName?).eraseDups.map (lastJob? ds) ∧
      ∀ name, p.jobNamed? name = lastJob? ds name ∧
        (p.jobNamed? name = none ↔ name ∉ ds.filterMap Declaration.jobName?) := by
  obtain ⟨accepted, rfl⟩ := accepted_of_declareAll built
  have replays := replays_empty.after accepted
  rw [List.nil_append] at replays
  refine ⟨replays.stages, replays.names, ?_, fun name => ⟨replays.jobNamed? name, ?_⟩⟩
  · rw [← replays.names]
    exact replays.last_jobs
  · rw [replays.jobNamed?, lastJob?_eq_none_iff]

def redeclared : List Declaration :=
  [.stage "test", .job "compile" (some "build") [.tag "slow", .retry 2 []], .job "lint" none [],
    .stage "deploy", .job "compile" (some "test") [.coverage "total"]]

theorem build_redeclared :
    ∃ p, Pipeline.build redeclared = .ok p ∧ p.stages.toList = ["test", "build", "deploy"] ∧
      p.jobs.map (·.name) = ["compile", "lint"] ∧
      p.jobNamed? "compile" = some { name := "compile", stage := some "test", coverage := some "total" } ∧
      p.jobNamed? "test" = none := by
  have built : Pipeline.build redeclared = .ok (after {} redeclared) := by rfl
  obtain ⟨stages, names, -, named⟩ := build_replays built
  refine ⟨_, built, stages.trans ?_, names.trans ?_, (named "compile").1.trans ?_, (named "test").2.mpr ?_⟩
  · decide
  · decide
  · rfl
  · decide

end CiPipeline.Pipeline
