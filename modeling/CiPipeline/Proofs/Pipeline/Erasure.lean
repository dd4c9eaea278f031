import CiPipeline.Proofs.Pipeline.History

/-!
# Erasing refusals

A refused declaration leaves the pipeline as it was, and a caught retry the job. `erase` takes both
out of a history, and the history comes to the same pipeline without them
(`refusals_leave_no_mark`).
-/

namespace CiPipeline.Pipeline

namespace Declaration

def withoutCaught : Declaration → Declaration
  | .stage name => .stage name
  | .job name s block => .job name s (Job.withoutCaught block)

theorem withoutCaught_stage? (d : Declaration) : d.withoutCaught.stage? = d.stage? := by
  cases d <;> rfl

theorem withoutCaught_built? (d : Declaration) : d.withoutCaught.built? = d.built? := by
  cases d with
  | stage name => rfl
  | job name s block => exact congrArg some (Job.run_withoutCaught (Job.fresh name s) block).1

theorem withoutCaught_refusal? (d : Declaration) :
    d.withoutCaught.refusal? = d.refusal? := by
  cases d with
  | stage name => rfl
  | job name s block =>
    obtain ⟨-, -, sameError⟩ := Job.run_withoutCaught (Job.fresh name s) block
    rw [Job.run_error, Job.run_error] at sameError
    rw [withoutCaught, refusal?, refusal?, sameError]

end Declaration

theorem declare_withoutCaught (p : Pipeline) (d : Declaration) :
    (p.declare d.withoutCaught).pipeline = (p.declare d).pipeline := by
  have same := d.withoutCaught_refusal?
  cases refusal : d.refusal? with
  | some e => rw [declare_of_refused (same.trans refusal), declare_of_refused refusal]
  | none =>
    rw [declare_of_accepted (same.trans refusal), declare_of_accepted refusal]
    simp only [Declaration.withoutCaught_stage?, Declaration.withoutCaught_built?]

theorem after_withoutCaught (p : Pipeline) (ds : List Declaration) :
    p.after (ds.map Declaration.withoutCaught) = p.after ds := by
  induction ds generalizing p with
  | nil => rfl
  | cons d ds ih => rw [List.map_cons, after_cons, after_cons, declare_withoutCaught, ih]

theorem after_accepted (p : Pipeline) (ds : List Declaration) :
    p.after (ds.filter (·.refusal?.isNone)) = p.after ds := by
  induction ds generalizing p with
  | nil => rfl
  | cons d ds ih =>
    cases refusal : d.refusal? with
    | some e =>
      rw [List.filter_cons_of_neg (by simp [refusal]), after_cons, declare_of_refused refusal, ih]
    | none => rw [List.filter_cons_of_pos (by simp [refusal]), after_cons, after_cons, ih]

/-- The history without its refused declarations, and without caught retries in the others. -/
def erase (ds : List Declaration) : List Declaration :=
  (ds.filter (·.refusal?.isNone)).map Declaration.withoutCaught

theorem after_erase (p : Pipeline) (ds : List Declaration) : p.after (erase ds) = p.after ds := by
  rw [erase, after_withoutCaught, after_accepted]

theorem accepted_of_mem_erase {ds : List Declaration} {d : Declaration} (member : d ∈ erase ds) :
    d.refusal? = none := by
  obtain ⟨original, kept, rfl⟩ := List.mem_map.mp member
  rw [Declaration.withoutCaught_refusal?]
  exact Option.isNone_iff_eq_none.mp (List.mem_filter.mp kept).2

/-- A job under a blank name is refused before its block, any other job by the first step of its
block that fails; a refusal changes nothing. A history therefore comes to the same pipeline and
document without its refusals, and a run that ends at the first of them comes to it when there is
none. -/
theorem refusals_leave_no_mark (ds : List Declaration) :
    (∀ p name stage block, Text.allBlank name.toList = true →
      declare p (.job name stage block) = { pipeline := p, error := some (.validation .emptyName) }) ∧
    (∀ p name stage block e, ¬ Text.allBlank name.toList = true →
      ((declare p (.job name stage block)).error = some e ↔
        (Job.fresh name stage).FailsWith block e)) ∧
    (∀ p d, (declare p d).error = d.refusal? ∧
      (d.refusal? ≠ none → (declare p d).pipeline = p)) ∧
    (∀ (job : Job) max triggers, 2 < max.toNat →
      job.step (.tryRetry max triggers) =
        .ok { job, answer := .refused (.invalidRetryMax max) }) ∧
    (∀ d ∈ erase ds, d.refusal? = none) ∧
    after {} (erase ds) = after {} ds ∧
    (after {} (erase ds)).render = (after {} ds).render ∧
    Pipeline.build ds =
      match ds.findSome? Declaration.refusal? with
      | some e => .error e
      | none => .ok (after {} ds) := by
  refine ⟨?blank, ?visible, ?unchanged, ?caught, ?kept, after_erase {} ds, ?document, declareAll_eq {} ds⟩
  case blank =>
    intro p name stage block blank
    exact declare_blank blank p stage block
  case visible =>
    intro p name stage block e visible
    rw [declare_visible_error visible]
    exact Job.run_error_eq_some_iff
  case unchanged =>
    intro p d
    refine ⟨declare_error p d, fun refused => ?_⟩
    obtain ⟨e, refusal⟩ := Option.ne_none_iff_exists'.mp refused
    exact declare_of_refused refusal p
  case caught =>
    intro job max triggers above
    exact Job.step_of_caught above job triggers
  case kept =>
    intro d member
    exact accepted_of_mem_erase member
  case document => rw [after_erase]

def withRefusals : List Declaration :=
  [.stage "build", .job "compile" (some "build") [.retry 1 [], .tryRetry 7 []],
    .job " " (some "test") [.tag "slow"], .job "compile" (some "test") [.tag "slow", .retry 5 []]]

theorem withRefusals_erased :
    after {} withRefusals =
      after {} [.stage "build", .job "compile" (some "build") [.retry 1 []]] ∧
    Pipeline.build withRefusals = .error (.validation .emptyName) ∧
    (declare {} (.job " " none [.inspect])).trace.length = 0 ∧
    (declare {} (.job "compile" (some "test") [.tag "slow", .retry 5 []])).pipeline.stages.size = 0 ∧
    (Job.fresh "compile" none).FailsWith [.retry 5 []] (.validation (.invalidRetryMax 5)) ∧
    (Job.fresh "compile" none).step (.tryRetry 7 []) =
      .ok { job := Job.fresh "compile" none, answer := .refused (.invalidRetryMax 7) } := by
  obtain ⟨blank, visible, unchanged, caught, -, erased, -, built⟩ := refusals_leave_no_mark withRefusals
  refine ⟨erased.symm, built, ?_, ?_, ?_, caught _ 7 [] (by decide)⟩
  · rw [blank {} " " none [.inspect] (by decide)]
    rfl
  · rw [(unchanged {} (.job "compile" (some "test") [.tag "slow", .retry 5 []])).2 (by decide)]
    rfl
  · exact (visible {} "compile" none [.retry 5 []] _ (by decide)).mp rfl

end CiPipeline.Pipeline
