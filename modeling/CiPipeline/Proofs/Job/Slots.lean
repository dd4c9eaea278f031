import CiPipeline.Proofs.Job.Refusal
import Mathlib.Data.List.TakeWhile

/-!
# The slots of a job

The actions of a block fall into groups, and each group has its slot in a job. An action changes the
slot of its own group by a function of that slot and of nothing else but the name of the job
(`step_job`), and so what a block leaves in a slot is a fold over the actions of the group
(`slot_run`).
-/

namespace CiPipeline.Job

/-- The actions by what they write. -/
inductive Group where
  | image
  | services
  | script (phase : Phase)
  | tags
  | needs
  | vars
  | cache
  | artifacts
  | retry
  | allowFailure
  | coverage
  deriving DecidableEq

def Group.Slot : Group → Type
  | image => Option Image
  | services => OrderedSet Service
  | script _ => List Command
  | tags => OrderedSet String
  | needs => List Dependency
  | vars => OrderedMap String String
  | cache => Cache
  | artifacts => Artifacts
  | retry => Option Retry
  | allowFailure => Option AllowFailure
  | coverage => Option String

def slot (job : Job) : (g : Group) → g.Slot
  | .image => job.image
  | .services => job.services
  | .script phase => job.commands phase
  | .tags => job.tags
  | .needs => job.needs
  | .vars => job.vars
  | .cache => job.cache
  | .artifacts => job.artifacts
  | .retry => job.retry
  | .allowFailure => job.allowFailure
  | .coverage => job.coverage

def setSlot (job : Job) : (g : Group) → g.Slot → Job
  | .image, image => { job with image }
  | .services, services => { job with services }
  | .script phase, commands => job.setCommands phase commands
  | .tags, tags => { job with tags }
  | .needs, needs => { job with needs }
  | .vars, vars => { job with vars }
  | .cache, cache => { job with cache }
  | .artifacts, artifacts => { job with artifacts }
  | .retry, retry => { job with retry }
  | .allowFailure, allowFailure => { job with allowFailure }
  | .coverage, coverage => { job with coverage }

theorem slot_setSlot_self (job : Job) (g : Group) (value : g.Slot) : (job.setSlot g value).slot g = value := by
  cases g with
  | script phase => cases phase <;> rfl
  | _ => rfl

theorem slot_setSlot_other (job : Job) {g other : Group} (differs : g ≠ other) (value : g.Slot) :
    (job.setSlot g value).slot other = job.slot other := by
  cases g with
  | script phase =>
    cases other with
    | script phase' => cases phase <;> cases phase' <;> first | rfl | exact absurd rfl differs
    | _ => cases phase <;> rfl
  | _ => cases other <;> first | rfl | exact absurd rfl differs

/-- A job is its name, its stage and its slots. -/
theorem eq_of_slots {job other : Job} (name : job.name = other.name) (stage : job.stage = other.stage)
    (slots : ∀ g, job.slot g = other.slot g) : job = other := by
  have image := slots .image
  have services := slots .services
  have before := slots (.script .before)
  have main := slots (.script .main)
  have after := slots (.script .after)
  have tags := slots .tags
  have needs := slots .needs
  have vars := slots .vars
  have cache := slots .cache
  have artifacts := slots .artifacts
  have retry := slots .retry
  have allowFailure := slots .allowFailure
  have coverage := slots .coverage
  cases job
  cases other
  simp only [slot, commands] at *
  simp only [name, stage, image, services, before, main, after, tags, needs, vars, cache, artifacts, retry,
    allowFailure, coverage]

/-! ### Actions as changes of slots -/

/-- A change of one slot, which looks at no other. -/
structure Change where
  group : Group
  update : group.Slot → group.Slot

namespace Change

def apply (change : Change) (job : Job) : Job := job.setSlot change.group (change.update (job.slot change.group))

/-- What a change does to a slot, which is nothing when the slot is not its own. -/
def on (change : Change) (g : Group) : g.Slot → g.Slot :=
  if own : change.group = g then own ▸ change.update else id

theorem slot_apply (change : Change) (job : Job) (g : Group) :
    (change.apply job).slot g = change.on g (job.slot g) := by
  obtain ⟨group, update⟩ := change
  by_cases own : group = g
  · subst own
    rw [Change.on, dif_pos rfl, apply, slot_setSlot_self]
  · rw [Change.on, dif_neg own, apply, slot_setSlot_other job own]
    rfl

end Change

def Action.group? : Action → Option Group
  | .image _ => some .image
  | .service _ => some .services
  | .script phase _ => some (.script phase)
  | .tag _ => some .tags
  | .needs .. | .needsSelf => some .needs
  | .setVariable .. => some .vars
  | .cache _ => some .cache
  | .artifacts _ => some .artifacts
  | .retry .. | .tryRetry .. => some .retry
  | .coverage _ => some .coverage
  | .allowFailure | .forbidFailure | .allowFailureOnExitCode _ => some .allowFailure
  | .fail _ | .inspect => none

/-- A refused retry leaves the earlier one. -/
def retryChange (max : UInt32) (triggers : List Retry.Trigger) : Change where
  group := .retry
  update earlier :=
    match Retry.ofMax max with
    | .ok retry => some (retry.configure triggers)
    | .error _ => earlier

/-- The change that an action makes in a job of this name. -/
def change? (name : String) : Action → Option Change
  | .image image => some ⟨.image, fun _ => some image⟩
  | .service service => some ⟨.services, (OrderedSet.insert · service)⟩
  | .script phase actions => some ⟨.script phase, fun commands => (Script.run commands actions).1⟩
  | .tag tag => some ⟨.tags, (OrderedSet.insert · tag)⟩
  | .needs job artifacts optional => some ⟨.needs, (List.append · [{ job, artifacts, optional }])⟩
  | .needsSelf => some ⟨.needs, (List.append · [{ job := name }])⟩
  | .setVariable key value => some ⟨.vars, (OrderedMap.insert · key value)⟩
  | .cache settings => some ⟨.cache, (Cache.configure · settings)⟩
  | .artifacts settings => some ⟨.artifacts, (Artifacts.configure · settings)⟩
  | .retry max triggers | .tryRetry max triggers => some (retryChange max triggers)
  | .coverage regex => some ⟨.coverage, fun _ => some regex⟩
  | .allowFailure => some ⟨.allowFailure, fun _ => some (.flag true)⟩
  | .forbidFailure => some ⟨.allowFailure, fun _ => some (.flag false)⟩
  | .allowFailureOnExitCode code =>
    some ⟨.allowFailure, fun allowed => some (AllowFailure.addExitCode (Option.getD allowed (.flag false)) code)⟩
  | .fail _ | .inspect => none

theorem group_of_change (name : String) (action : Action) :
    (change? name action).map Change.group = action.group? := by
  cases action <;> rfl

theorem setRetry_eq (job : Job) (max : UInt32) (triggers : List Retry.Trigger) :
    job.setRetry max triggers = (Retry.ofMax max).map fun _ => (retryChange max triggers).apply job := by
  simp only [setRetry, Change.apply, retryChange]
  cases Retry.ofMax max <;> rfl

theorem step_job {job : Job} {action : Action} {effect : Effect} (done : job.step action = .ok effect) :
    effect.job = (change? job.name action).elim job (·.apply job) := by
  cases action with
  | script phase actions =>
    cases done
    cases phase <;> rfl
  | needs name artifacts optional =>
    rw [step, Dependency.on] at done
    by_cases blank : Text.allBlank name.toList = true
    · rw [if_pos blank] at done
      cases done
    · rw [if_neg blank] at done
      cases done
      rfl
  | retry max triggers =>
    rw [step, setRetry_eq] at done
    cases made : Retry.ofMax max with
    | ok retry =>
      rw [made] at done
      cases done
      rfl
    | error e =>
      rw [made] at done
      cases done
  | tryRetry max triggers =>
    rw [step, setRetry_eq] at done
    cases made : Retry.ofMax max with
    | ok retry =>
      rw [made] at done
      cases done
      rfl
    | error e =>
      rw [made] at done
      cases done
      simp only [change?, Option.elim_some, Change.apply, retryChange, made]
      rfl
  | fail e => cases done
  | _ =>
    cases done
    rfl

/-! ### Blocks -/

/-- The actions before the first that is refused. -/
def performed (block : List Action) : List Action := block.takeWhile (·.refusal?.isNone)

theorem performed_cons_of_refused {action : Action} {e : PipelineError} (refused : action.refusal? = some e)
    (block : List Action) : performed (action :: block) = [] :=
  List.takeWhile_cons_of_neg (by simp [refused])

theorem performed_cons {action : Action} (accepted : action.refusal? = none) (block : List Action) :
    performed (action :: block) = action :: performed block :=
  List.takeWhile_cons_of_pos (by simp [accepted])

theorem performed_of_passed {job : Job} {block : List Action} (passed : (job.run block).error = none) :
    performed block = block := by
  rw [run_error, List.findSome?_eq_none_iff] at passed
  exact List.takeWhile_eq_self_iff.mpr fun action member => Option.isNone_iff_eq_none.mpr (passed action member)

theorem performed_append_of_refused {job : Job} {front : List Action} {action : Action} {e : PipelineError}
    (passed : (job.run front).error = none) (refused : action.refusal? = some e) (rest : List Action) :
    performed (front ++ action :: rest) = front := by
  rw [run_error, List.findSome?_eq_none_iff] at passed
  have stopped := performed_cons_of_refused refused rest
  rw [performed] at stopped ⊢
  rw [List.takeWhile_append_of_pos fun a member => Option.isNone_iff_eq_none.mpr (passed a member), stopped,
    List.append_nil]

/-- What an action does to a slot. -/
def onSlot (name : String) (g : Group) (value : g.Slot) (action : Action) : g.Slot :=
  (change? name action).elim value fun change => change.on g value

theorem slot_step {job : Job} {action : Action} {effect : Effect} (done : job.step action = .ok effect)
    (g : Group) : effect.job.slot g = onSlot job.name g (job.slot g) action := by
  rw [step_job done, onSlot]
  cases change? job.name action with
  | none => rfl
  | some change => exact change.slot_apply job g

theorem onSlot_other {name : String} {g : Group} {action : Action} (other : action.group? ≠ some g)
    (value : g.Slot) : onSlot name g value action = value := by
  have group := group_of_change name action
  rw [onSlot]
  cases written : change? name action with
  | none => rfl
  | some change =>
    have differs : change.group ≠ g := fun same => by
      rw [written, Option.map_some, same] at group
      exact other group.symm
    rw [Option.elim_some, Change.on, dif_neg differs]
    rfl

theorem foldl_onSlot_filter (name : String) (g : Group) (block : List Action) (value : g.Slot) :
    (block.filter (·.group? = some g)).foldl (onSlot name g) value = block.foldl (onSlot name g) value := by
  induction block generalizing value with
  | nil => rfl
  | cons action block ih =>
    by_cases own : action.group? = some g
    · rw [List.filter_cons_of_pos (by simpa using own), List.foldl_cons, List.foldl_cons, ih]
    · rw [List.filter_cons_of_neg (by simpa using own), List.foldl_cons, onSlot_other own, ih]

theorem slot_run (job : Job) (block : List Action) (g : Group) :
    (job.run block).job.slot g = (performed block).foldl (onSlot job.name g) (job.slot g) := by
  induction block generalizing job with
  | nil => rfl
  | cons action block ih =>
    cases refusal : action.refusal? with
    | some e =>
      rw [run_cons_error (step_of_refused refusal job), performed_cons_of_refused refusal]
      rfl
    | none =>
      obtain ⟨effect, done, name, -⟩ := step_of_accepted refusal job
      rw [run_cons_ok done, performed_cons refusal, List.foldl_cons, ← slot_step done, ← name]
      exact ih effect.job

/-- What the actions of a group keep of its slot holds after a block. -/
theorem slot_run_preserves {g : Group} {P : g.Slot → Prop} {job : Job} (start : P (job.slot g))
    (keeps : ∀ {value action}, action.group? = some g → P value → P (onSlot job.name g value action))
    (block : List Action) : P ((job.run block).job.slot g) := by
  rw [slot_run]
  generalize job.slot g = value at start
  induction performed block generalizing value with
  | nil => exact start
  | cons action rest ih =>
    by_cases own : action.group? = some g
    · exact ih _ (keeps own start)
    · rw [List.foldl_cons, onSlot_other own]
      exact ih _ start

end CiPipeline.Job
