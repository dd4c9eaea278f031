import CiPipeline.Pipeline
import CiPipeline.Proofs.Job.Refusal

/-!
# Histories of declarations

What a declaration can do to a pipeline: a refused one nothing (`declare_of_refused`), an accepted
one a stage and a job (`declare_of_accepted`). `after` goes on past refusals, and `declareAll_eq`
compares it with the run that ends at the first of them.
-/

namespace CiPipeline.Pipeline

namespace Declaration

/-- The refusal of a declaration does not depend on the pipeline. -/
def refusal? : Declaration → Option PipelineError
  | .stage _ => none
  | .job name _ block =>
    if Text.allBlank name.toList then some (.validation .emptyName)
    else block.findSome? Job.Action.refusal?

def stage? : Declaration → Option String
  | .stage name => some name
  | .job _ s _ => s

def jobName? : Declaration → Option String
  | .stage _ => none
  | .job name _ _ => some name

/-- The job that a declaration makes, from a fresh one. -/
def built? : Declaration → Option Job
  | .stage _ => none
  | .job name s block => some ((Job.fresh name s).run block).job

theorem built?_name (d : Declaration) : d.built?.map (·.name) = d.jobName? := by
  cases d with
  | stage name => rfl
  | job name s block => exact congrArg some (Job.run_keeps (Job.fresh name s) block).1

end Declaration

/-! ### One declaration -/

theorem declare_blank {name : String} (blank : Text.allBlank name.toList = true) (p : Pipeline)
    (stage : Option String) (block : List Job.Action) :
    p.declare (.job name stage block) = { pipeline := p, error := some (.validation .emptyName) } := by
  rw [declare, if_pos blank]

theorem declare_visible_error {name : String} (visible : ¬ Text.allBlank name.toList = true)
    (p : Pipeline) (stage : Option String) (block : List Job.Action) :
    (p.declare (.job name stage block)).error = ((Job.fresh name stage).run block).error := by
  rw [declare, if_neg visible]
  dsimp only
  split
  next e failed => exact failed.symm
  next passed => exact passed.symm

theorem declare_error (p : Pipeline) (d : Declaration) : (p.declare d).error = d.refusal? := by
  cases d with
  | stage name => rfl
  | job name stage block =>
    by_cases blank : Text.allBlank name.toList = true
    · rw [declare_blank blank, Declaration.refusal?, if_pos blank]
    · rw [declare_visible_error blank, Declaration.refusal?, if_neg blank, Job.run_error]

theorem declare_of_refused {d : Declaration} {e : PipelineError} (refused : d.refusal? = some e)
    (p : Pipeline) : (p.declare d).pipeline = p := by
  apply declare_refused
  rw [declare_error, refused]
  exact Option.some_ne_none e

theorem addStage_eq (p : Pipeline) (stage : String) (event : Event) :
    (p.addStage stage event).1 = { p with stages := p.stages.insert stage } := by
  unfold addStage
  split
  next known => rw [OrderedSet.insert_of_mem (OrderedSet.contains_iff.mp known)]
  next => rfl

theorem register_eq (p : Pipeline) (job : Job) :
    (p.register job).1 =
      { stages := job.stage.elim p.stages p.stages.insert, jobs := placeJob job p.jobs } := by
  unfold register
  cases job.stage with
  | none => rfl
  | some stage => simp only [addStage_eq, addJob, Option.elim_some]

theorem declare_of_accepted {d : Declaration} (accepted : d.refusal? = none) (p : Pipeline) :
    (p.declare d).pipeline =
      { stages := d.stage?.elim p.stages p.stages.insert
        jobs := d.built?.elim p.jobs (placeJob · p.jobs) } := by
  cases d with
  | stage name => exact addStage_eq p name (.stageRegistered name)
  | job name stage block =>
    have passed : (p.declare (.job name stage block)).error = none :=
      (declare_error p _).trans accepted
    by_cases blank : Text.allBlank name.toList = true
    · rw [declare_blank blank] at passed
      cases passed
    · rw [declare_visible_error blank] at passed
      rw [declare, if_neg blank]
      simp only [passed, register_eq, (Job.run_keeps (Job.fresh name stage) block).2]
      rfl

/-! ### A history -/

/-- The pipeline after declarations that were made one after another, whatever came of each. -/
def after (p : Pipeline) (ds : List Declaration) : Pipeline :=
  ds.foldl (fun p d => (p.declare d).pipeline) p

theorem after_cons (p : Pipeline) (d : Declaration) (ds : List Declaration) :
    p.after (d :: ds) = (p.declare d).pipeline.after ds := rfl

theorem declareAll_eq (p : Pipeline) (ds : List Declaration) :
    p.declareAll ds =
      match ds.findSome? Declaration.refusal? with
      | some e => .error e
      | none => .ok (p.after ds) := by
  induction ds generalizing p with
  | nil => rfl
  | cons d ds ih =>
    cases refusal : d.refusal? with
    | some e => simp only [declareAll, declare_error, refusal, List.findSome?_cons]
    | none => simp only [declareAll, declare_error, refusal, List.findSome?_cons, after_cons, ih]

theorem accepted_of_declareAll {p q : Pipeline} {ds : List Declaration}
    (built : p.declareAll ds = .ok q) : (∀ d ∈ ds, d.refusal? = none) ∧ p.after ds = q := by
  rw [declareAll_eq] at built
  cases refusal : ds.findSome? Declaration.refusal? with
  | some e => rw [refusal] at built; cases built
  | none =>
    rw [refusal] at built
    exact ⟨List.findSome?_eq_none_iff.mp refusal, Except.ok.inj built⟩

end CiPipeline.Pipeline
