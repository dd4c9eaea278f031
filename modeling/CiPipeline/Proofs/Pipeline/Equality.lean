import CiPipeline.Proofs.Job.Equality
import CiPipeline.Proofs.Pipeline.Reachable
import Mathlib.Data.List.Forall2

/-!
# Equality of pipelines

Equal pipelines may list stages, and jobs what they hold, in different orders, which the document
shows. Where the orders are the same, equal pipelines render the same document (`render_eq_of_beq`).
-/

namespace CiPipeline

theorem beq_iff_forall₂ {α} [BEq α] {first second : List α} :
    (first == second) = true ↔ List.Forall₂ (fun a b => (a == b) = true) first second := by
  induction first generalizing second with
  | nil => cases second <;> simp
  | cons a first ih => cases second <;> simp [ih]

namespace Pipeline

/-- What two pipelines both hold stands in the same order in each, and so it does in their jobs at
the same place. -/
structure SameOrder (p q : Pipeline) : Prop where
  stages : KeepsOrder p.stages.toList q.stages.toList
  jobs : List.Forall₂ Job.SameOrder p.jobs q.jobs

theorem beq_iff {p q : Pipeline} : (p == q) = true ↔
    (p.stages == q.stages) = true ∧ List.Forall₂ (fun job other => (job == other) = true) p.jobs q.jobs := by
  rw [← beq_iff_forall₂, ← Bool.and_eq_true]
  rfl

theorem floats_reports {p : Pipeline} (reachable : Reachable p) :
    ∀ job ∈ p.jobs, (toNode job.artifacts.reports).floats = [] := by
  intro job member
  obtain ⟨block, made⟩ := (registered reachable).built job member
  have built := Job.floats_reports_run job.name job.stage block
  rwa [made] at built

variable {p q : Pipeline}

/-- The jobs at the same place are equal, and there are no floats in their reports. -/
theorem equal_jobs (reachable : Reachable p) (reachable' : Reachable q) (same : (p == q) = true) :
    List.Forall₂ (fun job other => (toNode job.artifacts.reports).floats = [] ∧
      (toNode other.artifacts.reports).floats = [] ∧ (job == other) = true) p.jobs q.jobs := by
  have sameJobs := (beq_iff.mp same).2
  refine List.forall₂_iff_zip.mpr ⟨sameJobs.length_eq, fun {job other} pair => ?_⟩
  obtain ⟨member, member'⟩ := List.of_mem_zip pair
  exact ⟨floats_reports reachable job member, floats_reports reachable' other member',
    List.forall₂_zip sameJobs pair⟩

theorem eq_of_sameOrder (reachable : Reachable p) (reachable' : Reachable q) (same : (p == q) = true)
    (order : p.SameOrder q) : p = q := by
  have stages : p.stages = q.stages := (OrderedSet.eq_iff_keepsOrder (beq_iff.mp same).1).mpr order.stages
  have jobs : List.Forall₂ Eq p.jobs q.jobs := by
    refine List.Forall₂.mp ?_ (equal_jobs reachable reachable' same) order.jobs
    intro job other ⟨reports, reports', equal⟩ order
    exact Job.eq_of_sameOrder reports reports' equal order
  rw [List.forall₂_eq_eq_eq] at jobs
  cases p
  cases q
  cases stages
  cases jobs
  rfl

theorem toNode_jobs_eq_iff (reachable : Reachable p) (reachable' : Reachable q) (same : (p == q) = true) :
    List.Forall₂ (fun job other => toNode job = toNode other ↔ job.SameOrder other) p.jobs q.jobs := by
  refine (equal_jobs reachable reachable' same).imp ?_
  intro job other ⟨reports, reports', equal⟩
  exact Job.toNode_eq_iff_sameOrder reports reports' equal

/-- Equal pipelines render the same document where all orders are the same, and jobs at the same
place have the same node where the orders in them agree and nowhere else. -/
theorem render_eq_of_beq (reachable : Reachable p) (reachable' : Reachable q) (same : (p == q) = true) :
    (p.SameOrder q → p.render = q.render) ∧
      List.Forall₂ (fun job other => toNode job = toNode other ↔ job.SameOrder other) p.jobs q.jobs :=
  ⟨fun order => congrArg render (eq_of_sameOrder reachable reachable' same order),
    toNode_jobs_eq_iff reachable reachable' same⟩

def grouped : List Declaration := [.stage "test", .job "a" none [.tag "x", .tag "y", .coverage "c"]]

/-- The same, with repetitions, a refused job and the groups of actions mixed. -/
def mixed : List Declaration :=
  [.stage "test", .stage "test", .job " " none [], .job "a" none [.tag "x", .coverage "c", .tag "x", .tag "y"]]

def tagged (tags : List String) : List Declaration := [.job "a" none (tags.map .tag)]

def taggedJob (tags : List String) : Job := ((Job.fresh "a" none).run (tags.map .tag)).job

theorem render_eq_mixed :
    (after {} mixed == after {} grouped) = true ∧ (after {} mixed).render = (after {} grouped).render ∧
      (after {} (tagged ["x", "y"]) == after {} (tagged ["y", "x"])) = true ∧
      toNode (taggedJob ["x", "y"]) ≠ toNode (taggedJob ["y", "x"]) := by
  have same : (after {} mixed == after {} grouped) = true := by decide
  have order : (after {} mixed).SameOrder (after {} grouped) :=
    ⟨by decide, .cons ⟨by decide, by decide, by decide, by decide, by decide, by decide⟩ .nil⟩
  have swapped : (after {} (tagged ["x", "y"]) == after {} (tagged ["y", "x"])) = true := by decide
  have jobs := (render_eq_of_beq (reachable_after (tagged ["x", "y"])) (reachable_after _) swapped).2
  have shown : toNode (taggedJob ["x", "y"]) = toNode (taggedJob ["y", "x"]) ↔
      (taggedJob ["x", "y"]).SameOrder (taggedJob ["y", "x"]) := (List.forall₂_cons.mp jobs).1
  refine ⟨same, (render_eq_of_beq (reachable_after _) (reachable_after _) same).1 order, swapped, ?_⟩
  exact fun equal => absurd (shown.mp equal).tags (by decide)

/-- Equality does not see the order of tags, and the document shows it. -/
theorem not_render_eq_tagged : ¬ ∀ p q, Reachable p → Reachable q → (p == q) = true → p.render = q.render := by
  intro all
  have same := all _ _ (reachable_after (tagged ["x", "y"])) (reachable_after (tagged ["y", "x"])) (by decide)
  revert same
  decide

end Pipeline
end CiPipeline
