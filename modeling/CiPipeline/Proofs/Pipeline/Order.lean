import CiPipeline.Proofs.Pipeline.Sections

/-!
# The order of dependencies

A pipeline is `Ordered` when each job stands in a registered stage and behind all jobs that it needs.
Declarations `BuildUp` a pipeline when none is refused and each job has a stage, a new name, and
needs no job but earlier ones; what they build is ordered, with one job for each declaration of one
(`build_of_buildUp`).
-/

namespace CiPipeline.Pipeline

structure Ordered (p : Pipeline) : Prop where
  needs : ∀ front job back, p.jobs = front ++ job :: back →
    ∀ dependency ∈ job.needs, dependency.job ∈ front.map (·.name)
  staged : ∀ job ∈ p.jobs, ∃ stage, job.stage = some stage ∧ stage ∈ p.stages.toList

theorem ordered_empty : Ordered {} where
  needs front job back cut := by simp at cut
  staged job member := by simp at member

/-- What a declaration may ask for when the jobs with these names are there. -/
structure Declaration.Fits (known : List String) (d : Declaration) : Prop where
  accepted : d.refusal? = none
  staged : ∀ job ∈ d.built?, job.stage.isSome
  new : ∀ job ∈ d.built?, job.name ∉ known
  needs : ∀ job ∈ d.built?, ∀ dependency ∈ job.needs, dependency.job ∈ known

instance (known : List String) (d : Declaration) : Decidable (d.Fits known) :=
  decidable_of_iff
    (d.refusal? = none ∧ (∀ job ∈ d.built?, job.stage.isSome) ∧
      (∀ job ∈ d.built?, job.name ∉ known) ∧
      ∀ job ∈ d.built?, ∀ dependency ∈ job.needs, dependency.job ∈ known)
    ⟨fun ⟨accepted, staged, new, needs⟩ => ⟨accepted, staged, new, needs⟩,
      fun ⟨accepted, staged, new, needs⟩ => ⟨accepted, staged, new, needs⟩⟩

def BuildUp (known : List String) : List Declaration → Prop
  | [] => True
  | d :: ds => d.Fits known ∧ BuildUp (known ++ d.jobName?.toList) ds

instance decidableBuildUp (known : List String) : (ds : List Declaration) → Decidable (BuildUp known ds)
  | [] => .isTrue trivial
  | d :: ds =>
    have := decidableBuildUp (known ++ d.jobName?.toList) ds
    inferInstanceAs (Decidable (d.Fits known ∧ BuildUp _ ds))

/-! ### One declaration -/

theorem jobs_declare {p : Pipeline} {d : Declaration} (fits : d.Fits (p.jobs.map (·.name))) :
    (p.declare d).pipeline.jobs = p.jobs ++ d.built?.toList := by
  rw [declare_of_accepted fits.accepted]
  cases built : d.built? with
  | none => exact (List.append_nil _).symm
  | some job => exact placeJob_of_new (fits.new job built)

theorem names_declare {p : Pipeline} {d : Declaration} (fits : d.Fits (p.jobs.map (·.name))) :
    (p.declare d).pipeline.jobs.map (·.name) = p.jobs.map (·.name) ++ d.jobName?.toList := by
  rw [jobs_declare fits, List.map_append, ← d.built?_name]
  cases d.built? <;> rfl

theorem mem_stages_declare {p : Pipeline} {d : Declaration} (accepted : d.refusal? = none) {stage : String} :
    stage ∈ (p.declare d).pipeline.stages.toList ↔ stage ∈ p.stages.toList ∨ d.stage? = some stage := by
  rw [declare_of_accepted accepted]
  cases mention : d.stage? with
  | none => simp
  | some other => simp [OrderedSet.mem_insert, eq_comm]

theorem stage_built? {d : Declaration} {job : Job} (built : d.built? = some job) : job.stage = d.stage? := by
  cases d with
  | stage name => cases built
  | job name stage block =>
    cases built
    exact (Job.run_keeps _ block).2

theorem Ordered.declare {p : Pipeline} (ordered : p.Ordered) {d : Declaration}
    (fits : d.Fits (p.jobs.map (·.name))) : (p.declare d).pipeline.Ordered := by
  refine ⟨?needs, ?staged⟩
  case needs =>
    intro front job back cut
    rw [jobs_declare fits] at cut
    cases built : d.built? with
    | none =>
      rw [built, Option.toList_none, List.append_nil] at cut
      exact ordered.needs front job back cut
    | some last =>
      rw [built, Option.toList_some] at cut
      -- Either the job is the new one or the new one ends what stands behind it.
      rcases List.eq_nil_or_concat back with rfl | ⟨back, final, rfl⟩
      · obtain ⟨rfl, same⟩ := List.append_inj' cut rfl
        obtain rfl : last = job := List.singleton_inj.mp same
        exact fits.needs last built
      · rw [List.concat_eq_append, ← List.cons_append, ← List.append_assoc] at cut
        exact ordered.needs front job back (List.append_inj' cut rfl).1
  case staged =>
    intro job member
    rw [jobs_declare fits, List.mem_append, Option.mem_toList] at member
    rcases member with old | built
    · obtain ⟨stage, named, known⟩ := ordered.staged job old
      exact ⟨stage, named, (mem_stages_declare fits.accepted).mpr (.inl known)⟩
    · obtain ⟨stage, named⟩ := Option.isSome_iff_exists.mp (fits.staged job built)
      have mentioned : d.stage? = some stage := (stage_built? built).symm.trans named
      exact ⟨stage, named, (mem_stages_declare fits.accepted).mpr (.inr mentioned)⟩

/-! ### A history -/

theorem BuildUp.accepted {known : List String} {ds : List Declaration} (buildUp : BuildUp known ds) :
    ∀ d ∈ ds, d.refusal? = none := by
  induction ds generalizing known with
  | nil => exact fun _ member => nomatch member
  | cons d ds ih => exact List.forall_mem_cons.mpr ⟨buildUp.1.accepted, ih buildUp.2⟩

theorem Ordered.after {p : Pipeline} (ordered : p.Ordered) {ds : List Declaration}
    (buildUp : BuildUp (p.jobs.map (·.name)) ds) :
    (p.after ds).Ordered ∧ (p.after ds).jobs = p.jobs ++ ds.filterMap Declaration.built? := by
  induction ds generalizing p with
  | nil => exact ⟨ordered, (List.append_nil _).symm⟩
  | cons d ds ih =>
    obtain ⟨fits, rest⟩ := buildUp
    rw [← names_declare fits] at rest
    obtain ⟨grown, jobs⟩ := ih (ordered.declare fits) rest
    refine ⟨grown, ?_⟩
    rw [after_cons, jobs, jobs_declare fits, List.append_assoc]
    cases built : d.built? with
    | none => rw [List.filterMap_cons_none built, Option.toList_none, List.nil_append]
    | some job => rw [List.filterMap_cons_some built, Option.toList_some, List.singleton_append]

theorem build_of_buildUp {ds : List Declaration} (buildUp : BuildUp [] ds) :
    Pipeline.build ds = .ok (after {} ds) ∧ (after {} ds).Ordered ∧
      (after {} ds).stages.toList = (ds.filterMap Declaration.stage?).eraseDups ∧
      (after {} ds).jobs = ds.filterMap Declaration.built? := by
  obtain ⟨ordered, jobs⟩ := ordered_empty.after buildUp
  refine ⟨?_, ordered, (replays_empty.after buildUp.accepted).stages, jobs⟩
  rw [build, declareAll_eq, List.findSome?_eq_none_iff.mpr buildUp.accepted]

end CiPipeline.Pipeline
