import CiPipeline.Proofs.Job.Warnings
import CiPipeline.Proofs.Pipeline.History

/-!
# The log of a pipeline

The events of a history account for the pipeline it comes to (`log_accounts`): the stages are those
reported as registered, in order, so are the names of the jobs, and a name is reported as replaced
once for each of its declarations but the first. `Accounts` is what one declaration and a whole
history have in common.
-/

namespace CiPipeline

namespace Event

/-- The values of a field in the events with one of the messages. -/
def values (messages : List String) (field : String) (events : List Event) : List String :=
  (events.filter (·.message ∈ messages)).filterMap (·.fields.lookup field)

theorem values_append (messages : List String) (field : String) (first second : List Event) :
    values messages field (first ++ second) = values messages field first ++ values messages field second := by
  rw [values, List.filter_append, List.filterMap_append]
  rfl

def stageMessages : List String := ["Stage registered", "Stage registered from job"]

def registeredMessage : String := "Job registered"

def replacedMessage : String := "Job declared twice, replacing the earlier one"

theorem values_overrides {messages : List String}
    (other : "Job image set twice, keeping the latest" ∉ messages) (field name : String)
    (previous : Option Image) (images : List Image) :
    values messages field (Job.overrides name previous images) = [] := by
  have none : (Job.overrides name previous images).filter (·.message ∈ messages) = [] := by
    rw [List.filter_eq_nil_iff]
    intro e member
    obtain ⟨old, new, rfl⟩ := Job.eq_imageReplaced_of_mem member
    exact fun listed => other (of_decide_eq_true listed)
  rw [values, none, List.filterMap_nil]

end Event

namespace Pipeline
open Event

/-- The events of declarations that are made one after another, whatever comes of each. -/
def log (p : Pipeline) : List Declaration → List Event
  | [] => []
  | d :: ds => (p.declare d).events ++ log (p.declare d).pipeline ds

/-- The names of the jobs that are declared without a refusal, each as often as it is. -/
def declaredNames (p : Pipeline) : List Declaration → List String
  | [] => []
  | d :: ds =>
    (if (p.declare d).error = none then d.jobName?.toList else []) ++
      declaredNames (p.declare d).pipeline ds

/-! ### The events of one declaration -/

/-- At most one event, for a stage that is not known. -/
def stageEvents (p : Pipeline) (stage : Option String) : List Event :=
  (stage.filter (· ∉ p.stages.toList)).toList.map .stageRegisteredFromJob

def jobEvent (p : Pipeline) (name : String) : Event :=
  if name ∈ p.jobs.map (·.name) then .jobReplaced name else .jobRegistered name

theorem stageEvents_length (p : Pipeline) (stage : Option String) : (p.stageEvents stage).length ≤ 1 := by
  rw [stageEvents, List.length_map]
  exact Option.length_toList_le

theorem isSome_jobNamed? (p : Pipeline) (name : String) :
    (p.jobNamed? name).isSome = true ↔ name ∈ p.jobs.map (·.name) := by
  rw [jobNamed?, List.find?_isSome, List.mem_map]
  simp only [beq_iff_eq]

theorem events_of_addStage (p : Pipeline) (stage : String) (event : Event) :
    (p.addStage stage event).2 = if stage ∈ p.stages.toList then [] else [event] := by
  rw [addStage, OrderedSet.contains]
  by_cases known : stage ∈ p.stages.toList <;> simp [known]

theorem events_of_addJob (p : Pipeline) (job : Job) : (p.addJob job).2 = [p.jobEvent job.name] := by
  simp only [addJob, jobEvent, isSome_jobNamed?]

theorem events_of_register (p : Pipeline) (job : Job) :
    (p.register job).2 = p.stageEvents job.stage ++ [p.jobEvent job.name] := by
  unfold register stageEvents
  cases job.stage with
  | none => exact events_of_addJob p job
  | some stage =>
    have sameJobs : (p.addStage stage (.stageRegisteredFromJob stage)).1.jobEvent job.name = p.jobEvent job.name := by
      rw [addStage_eq]
      rfl
    simp only [events_of_addStage, events_of_addJob, sameJobs]
    by_cases known : stage ∈ p.stages.toList <;> simp [known, Option.filter]

theorem declare_of_passed {name : String} (visible : ¬ Text.allBlank name.toList = true) {stage : Option String}
    {block : List Job.Action} (passed : ((Job.fresh name stage).run block).error = none) (p : Pipeline) :
    p.declare (.job name stage block) =
      { pipeline := (p.register ((Job.fresh name stage).run block).job).1
        events := ((Job.fresh name stage).run block).events ++
          (p.register ((Job.fresh name stage).run block).job).2
        trace := ((Job.fresh name stage).run block).trace } := by
  rw [declare, if_neg visible]
  simp only [passed]

theorem declare_of_failed {name : String} (visible : ¬ Text.allBlank name.toList = true) {stage : Option String}
    {block : List Job.Action} {e : PipelineError}
    (failed : ((Job.fresh name stage).run block).error = some e) (p : Pipeline) :
    p.declare (.job name stage block) =
      { pipeline := p
        events := ((Job.fresh name stage).run block).events
        trace := ((Job.fresh name stage).run block).trace
        error := some e } := by
  rw [declare, if_neg visible]
  simp only [failed]

theorem events_of_accepted {p : Pipeline} {name : String} {stage : Option String} {block : List Job.Action}
    (accepted : (p.declare (.job name stage block)).error = none) :
    (p.declare (.job name stage block)).events =
      ((Job.fresh name stage).run block).events ++ p.stageEvents stage ++ [p.jobEvent name] := by
  by_cases blank : Text.allBlank name.toList = true
  · rw [declare_blank blank] at accepted
    cases accepted
  · rw [declare_visible_error blank] at accepted
    obtain ⟨sameName, sameStage⟩ := Job.run_keeps (Job.fresh name stage) block
    rw [declare_of_passed blank accepted, events_of_register, sameName, sameStage, List.append_assoc]
    rfl

/-- A refused job reports what its block did before the refusal, and without a name nothing. -/
theorem events_of_refused {p : Pipeline} {name : String} {stage : Option String} {block : List Job.Action}
    {e : PipelineError} (refused : (p.declare (.job name stage block)).error = some e) :
    (Text.allBlank name.toList = true ∧ (p.declare (.job name stage block)).events = []) ∨
    ∃ front action rest, block = front ++ action :: rest ∧
      ((Job.fresh name stage).run front).error = none ∧
      ((Job.fresh name stage).run front).job.step action = .error e ∧
      (p.declare (.job name stage block)).events = ((Job.fresh name stage).run front).events := by
  by_cases blank : Text.allBlank name.toList = true
  · rw [declare_blank blank]
    exact .inl ⟨blank, rfl⟩
  · rw [declare_visible_error blank] at refused
    obtain ⟨front, action, rest, rfl, passed, failed⟩ := Job.run_error_eq_some_iff.mp refused
    refine .inr ⟨front, action, rest, rfl, passed, failed, ?_⟩
    rw [declare_of_failed blank refused, Job.run_events, Job.run_events,
      Job.performed_append_of_refused passed (Job.refusal?_of_step failed), Job.performed_of_passed passed]

/-! ### Accounts -/

/-- The events say what came to the stages and jobs of `p` on the way to `q`, where `declared` are
the names of the jobs that were declared. -/
structure Accounts (p q : Pipeline) (events : List Event) (declared : List String) : Prop where
  stages : q.stages.toList = p.stages.toList ++ values stageMessages "stage" events
  names : q.jobs.map (·.name) = p.jobs.map (·.name) ++ values [registeredMessage] "job" events
  known : ∀ name, name ∈ q.jobs.map (·.name) ↔ name ∈ p.jobs.map (·.name) ∨ name ∈ declared
  replaced : ∀ name, (values [replacedMessage] "job" events).count name +
      (if name ∈ q.jobs.map (·.name) then 1 else 0) =
    (if name ∈ p.jobs.map (·.name) then 1 else 0) + declared.count name

namespace Accounts

variable {p q r : Pipeline}

theorem trans {first second : List Event} {declared declared' : List String}
    (before : Accounts p q first declared) (after : Accounts q r second declared') :
    Accounts p r (first ++ second) (declared ++ declared') where
  stages := by rw [after.stages, before.stages, values_append, List.append_assoc]
  names := by rw [after.names, before.names, values_append, List.append_assoc]
  known name := by rw [after.known, before.known, List.mem_append, or_assoc]
  replaced name := by
    have front := before.replaced name
    have back := after.replaced name
    rw [values_append, List.count_append, List.count_append]
    omega

theorem of_silent {events : List Event} (stages : values stageMessages "stage" events = [])
    (names : values [registeredMessage] "job" events = [])
    (replaced : values [replacedMessage] "job" events = []) : Accounts p p events [] where
  stages := by rw [stages, List.append_nil]
  names := by rw [names, List.append_nil]
  known _ := by simp
  replaced _ := by simp [replaced]

theorem refl (p : Pipeline) : Accounts p p [] [] := of_silent rfl rfl rfl

theorem of_warnings (job : Job) (block : List Job.Action) : Accounts p p (job.run block).events [] := by
  rw [Job.run_events]
  exact of_silent (values_overrides (by decide) ..) (values_overrides (by decide) ..)
    (values_overrides (by decide) ..)

theorem addStage (stage : String) {event : Event}
    (reported : event = .stageRegistered stage ∨ event = .stageRegisteredFromJob stage) :
    Accounts p (p.addStage stage event).1 (p.addStage stage event).2 [] := by
  have listed : values stageMessages "stage" [event] = [stage] := by
    rcases reported with rfl | rfl <;> rfl
  have silent : values [registeredMessage] "job" [event] = [] ∧ values [replacedMessage] "job" [event] = [] := by
    rcases reported with rfl | rfl <;> exact ⟨rfl, rfl⟩
  rw [events_of_addStage, addStage_eq]
  by_cases known : stage ∈ p.stages.toList
  · rw [if_pos known, OrderedSet.insert_of_mem known]
    exact refl p
  · rw [if_neg known]
    refine ⟨?_, by rw [silent.1, List.append_nil], fun _ => by simp, fun _ => by simp [silent.2]⟩
    rw [listed, OrderedSet.toList_insert, if_neg known]

theorem addJob (job : Job) : Accounts p (p.addJob job).1 (p.addJob job).2 [job.name] := by
  have names : (p.addJob job).1.jobs.map (·.name) = _ := placeJob_names job p.jobs
  rw [events_of_addJob, jobEvent]
  by_cases known : job.name ∈ p.jobs.map (·.name)
  · rw [if_pos known] at names ⊢
    refine ⟨(List.append_nil _).symm, names.trans (List.append_nil _).symm, fun name => ?_, fun name => ?_⟩
    · rw [names, List.mem_singleton]
      exact ⟨.inl, fun either => either.elim id fun same => same ▸ known⟩
    · rw [names, Nat.add_comm]
      rfl
  · rw [if_neg known] at names ⊢
    refine ⟨(List.append_nil _).symm, names, fun name => by rw [names, List.mem_append], fun name => ?_⟩
    have silent : values [replacedMessage] "job" [.jobRegistered job.name] = [] := rfl
    rw [names, silent, List.count_nil, List.count_singleton]
    by_cases same : name = job.name
    · simp [same, known]
    · simp [same, Ne.symm same]

theorem register (job : Job) : Accounts p (p.register job).1 (p.register job).2 [job.name] := by
  unfold Pipeline.register
  cases job.stage with
  | none => exact addJob job
  | some stage => exact (addStage stage (.inr rfl)).trans (addJob job)

theorem declare (d : Declaration) : Accounts p (p.declare d).pipeline (p.declare d).events
    (if (p.declare d).error = none then d.jobName?.toList else []) := by
  cases d with
  | stage name => exact addStage name (.inl rfl)
  | job name stage block =>
    by_cases blank : Text.allBlank name.toList = true
    · rw [declare_blank blank]
      exact refl p
    · cases outcome : ((Job.fresh name stage).run block).error with
      | some e =>
        rw [declare_of_failed blank outcome]
        exact of_warnings (Job.fresh name stage) block
      | none =>
        have added := (of_warnings (Job.fresh name stage) block).trans
          (register (p := p) ((Job.fresh name stage).run block).job)
        rw [(Job.run_keeps (Job.fresh name stage) block).1] at added
        rw [declare_of_passed blank outcome]
        exact added

theorem log (ds : List Declaration) : Accounts p (p.after ds) (p.log ds) (p.declaredNames ds) := by
  induction ds generalizing p with
  | nil => exact refl p
  | cons d ds ih => exact (declare d).trans ih

end Accounts

/-- However a pipeline was declared, its log accounts for it: the stages and the names of the jobs
are those reported as registered, in order, and a name is reported as replaced as often as it was
declared, but for the first time. A job that is accepted reports what its block reports, then its
stage if that is new, then itself; a refused one only what its block did before the refusal. -/
theorem log_accounts (ds : List Declaration) :
    values ["Stage registered", "Stage registered from job"] "stage" (log {} ds) = (after {} ds).stages.toList ∧
    values ["Job registered"] "job" (log {} ds) = (after {} ds).jobs.map (·.name) ∧
    (∀ name, (values ["Job declared twice, replacing the earlier one"] "job" (log {} ds)).count name =
      (declaredNames {} ds).count name - 1) ∧
    (∀ p name stage block, (declare p (.job name stage block)).error = none →
      (declare p (.job name stage block)).events =
        ((Job.fresh name stage).run block).events ++ p.stageEvents stage ++ [p.jobEvent name] ∧
      (p.stageEvents stage).length ≤ 1) ∧
    (∀ p name stage block e, (declare p (.job name stage block)).error = some e →
      (Text.allBlank name.toList = true ∧ (declare p (.job name stage block)).events = []) ∨
      ∃ front action rest, block = front ++ action :: rest ∧
        ((Job.fresh name stage).run front).error = none ∧
        ((Job.fresh name stage).run front).job.step action = .error e ∧
        (declare p (.job name stage block)).events = ((Job.fresh name stage).run front).events) ∧
    (∀ (job : Job) block, ∀ e ∈ (job.run block).events, ∃ old new, e = .imageReplaced job.name old new) := by
  have accounts := Accounts.log (p := {}) ds
  refine ⟨accounts.stages.symm, accounts.names.symm, ?replaced, ?accepted, ?refused, ?warnings⟩
  case replaced =>
    intro name
    have counted := accounts.replaced name
    have known : name ∈ (after {} ds).jobs.map (·.name) ↔ name ∈ declaredNames {} ds := by
      simpa using accounts.known name
    by_cases declared : name ∈ declaredNames {} ds
    · rw [if_pos (known.mpr declared)] at counted
      exact Nat.eq_sub_of_add_eq (counted.trans (Nat.zero_add _))
    · have never := List.count_eq_zero_of_not_mem declared
      rw [if_neg (mt known.mp declared), never] at counted
      rw [never]
      exact counted
  case accepted =>
    intro p name stage block accepted
    exact ⟨events_of_accepted accepted, p.stageEvents_length stage⟩
  case refused =>
    intro p name stage block e refused
    exact events_of_refused refused
  case warnings =>
    intro job block e member
    rw [Job.run_events] at member
    exact Job.eq_imageReplaced_of_mem member

def twoImages : List Job.Action := [.image (.latest "rust"), .image (.latest "alpine")]

/-- A job declared twice, the second time in a stage that is known, and a refused one. -/
def twiceAndRefused : List Declaration :=
  [.stage "build", .job "a" (some "test") twoImages, .job "a" (some "build") [],
    .job "b" (some "ship") (twoImages ++ [.retry 5 []])]

theorem log_twiceAndRefused :
    values ["Stage registered", "Stage registered from job"] "stage" (log {} twiceAndRefused) = ["build", "test"] ∧
      values ["Job registered"] "job" (log {} twiceAndRefused) = ["a"] ∧
      (values ["Job declared twice, replacing the earlier one"] "job" (log {} twiceAndRefused)).count "a" = 1 ∧
      (declare {} (.job "a" (some "test") twoImages)).events =
        [.imageReplaced "a" "rust:latest" "alpine:latest", .stageRegisteredFromJob "test", .jobRegistered "a"] ∧
      (∃ front action rest, twoImages ++ [.retry 5 []] = front ++ action :: rest ∧
        ((Job.fresh "b" none).run front).error = none ∧
        ((Job.fresh "b" none).run front).job.step action = .error (.validation (.invalidRetryMax 5)) ∧
        (declare {} (.job "b" none (twoImages ++ [.retry 5 []]))).events = ((Job.fresh "b" none).run front).events) ∧
      ∃ old new, Event.imageReplaced "b" "rust:latest" "alpine:latest" = .imageReplaced "b" old new := by
  obtain ⟨stages, names, replaced, accepted, refused, warnings⟩ := log_accounts twiceAndRefused
  refine ⟨stages.trans rfl, names.trans rfl, (replaced "a").trans (by decide),
    (accepted {} "a" (some "test") twoImages rfl).1.trans rfl, ?_,
    warnings (Job.fresh "b" none) twoImages _ (.head _)⟩
  refine (refused {} "b" none (twoImages ++ [.retry 5 []]) _ rfl).resolve_left fun nameless => ?_
  exact absurd nameless.1 (by decide)

end Pipeline
end CiPipeline
