import CiPipeline.Proofs.Collection.Order
import CiPipeline.Proofs.Job.Schema
import CiPipeline.Proofs.Job.Slots
import CiPipeline.Proofs.Node.Equality

/-!
# Equality of jobs

Equality ignores the order of what a job holds in sets and maps, and the export follows it. Equal
jobs are the same job where these orders agree (`Job.eq_of_sameOrder`), and have the same node there
and nowhere else (`Job.toNode_eq_iff_sameOrder`).
-/

namespace CiPipeline
open Mapping

theorem eq_of_option_beq {α} [BEq α] {first second : Option α} (same : (first == second) = true)
    (each : ∀ a ∈ first, ∀ b ∈ second, (a == b) = true → a = b) : first = second := by
  cases first with
  | none =>
    cases second with
    | none => rfl
    | some b => cases same
  | some a =>
    cases second with
    | none => cases same
    | some b => rw [each a rfl b rfl (Option.some_beq_some.symm.trans same)]

/-! ### Retries -/

theorem scalarOrList_injective {α} [ToNode α] (injective : ∀ {a b : α}, toNode a = toNode b → a = b)
    (scalars : ∀ a : α, (toNode a).isScalar = true) {s t : OrderedSet α}
    (same : s.scalarOrList = t.scalarOrList) : s = t := by
  have apart : ∀ (a : α) (items : List α), toNode a ≠ toNode items := fun a items shown => by
    have scalar := scalars a
    rw [shown] at scalar
    cases scalar
  refine OrderedSet.ext ?_
  unfold OrderedSet.scalarOrList at same
  generalize s.toList = items at same ⊢
  generalize t.toList = items' at same ⊢
  match items, items', same with
  | [], [], _ => rfl
  | [], _ :: rest, same => cases rest <;> cases same
  | [a], [b], same => rw [injective (Option.some.inj same)]
  | a :: b :: rest, c :: d :: rest', same => exact toNode_list_injective injective (Option.some.inj same)
  | [a], c :: d :: rest, same => exact absurd (Option.some.inj same) (apart a _)
  | a :: b :: rest, [c], same => exact absurd (Option.some.inj same).symm (apart c _)

namespace Retry

theorem eq_of_parts {retry other : Retry} (max : retry.max = other.max) (causes : retry.causes = other.causes)
    (codes : retry.exitCodes = other.exitCodes) : retry = other := by
  cases retry
  cases other
  cases max
  cases causes
  cases codes
  rfl

theorem maxNode_injective {retry other : Retry} (same : retry.maxNode = other.maxNode) :
    retry.max = other.max :=
  (by decide : ∀ m n : Fin (maxRetries + 1), Int64.ofNat m = Int64.ofNat n → m = n) _ _ (Node.int.inj same)

/-- Retries that differ in anything are exported differently. -/
theorem toNode_injective {retry other : Retry} (same : toNode retry = toNode other) : retry = other := by
  have shown : present retry.fields = present other.fields := by
    rw [fields, fields, present_cons_some, present_cons_some]
    rcases retry.toNode_cases with ⟨none, bare⟩ | ⟨-, map⟩
    · rcases other.toNode_cases with ⟨none', bare'⟩ | ⟨-, map'⟩
      · rw [none, none', ← bare, ← bare', same]
      · cases bare.symm.trans (same.trans map')
    · rcases other.toNode_cases with ⟨none', bare'⟩ | ⟨-, map'⟩
      · cases map.symm.trans (same.trans bare')
      · exact pairs_injective (Node.map.inj (map.symm.trans (same.trans map')))
  have fields : retry.fields = other.fields := present_injective rfl retry.distinct_fields shown
  simp only [Retry.fields, conditions, List.cons.injEq, Prod.mk.injEq, true_and, and_true] at fields
  obtain ⟨maxNodes, whens, exitCodes⟩ := fields
  have max : retry.max = other.max := maxNode_injective (Option.some.inj maxNodes)
  have causes := scalarOrList_injective toNode_cause_injective (fun _ => rfl) whens
  have codes := scalarOrList_injective toNode_code_injective (fun _ => rfl) exitCodes
  exact eq_of_parts max causes codes

theorem eq_of_keepsOrder {retry other : Retry} (same : (retry == other) = true)
    (causes : KeepsOrder retry.causes.toList other.causes.toList)
    (codes : KeepsOrder retry.exitCodes.toList other.exitCodes.toList) : retry = other := by
  cases retry
  cases other
  have opened : instBEqRetry.beq _ _ = true := same
  simp only [instBEqRetry.beq, Bool.and_eq_true, beq_iff_eq] at opened
  obtain ⟨max, sameCauses, sameCodes⟩ := opened
  rw [max, (OrderedSet.eq_iff_keepsOrder sameCauses).mpr causes, (OrderedSet.eq_iff_keepsOrder sameCodes).mpr codes]

end Retry

namespace AllowFailure

def codes : AllowFailure → List Int32
  | flag _ => []
  | exitCodes codes => codes.toList

theorem toNode_injective {allowed other : AllowFailure} (same : toNode allowed = toNode other) :
    allowed = other := by
  cases allowed with
  | flag allowed =>
    cases other with
    | flag other => rw [Node.bool.inj same]
    | exitCodes codes => cases same
  | exitCodes codes =>
    cases other with
    | flag other => cases same
    | exitCodes others =>
      have list : toNode codes.toList = toNode others.toList :=
        (Prod.mk.inj (List.cons.inj (Node.map.inj same)).1).2
      rw [OrderedSet.ext (toNode_list_injective toNode_code_injective list)]

theorem eq_of_keepsOrder {allowed other : AllowFailure} (same : (allowed == other) = true)
    (order : KeepsOrder allowed.codes other.codes) : allowed = other := by
  have opened : instBEqAllowFailure.beq allowed other = true := same
  cases allowed with
  | flag allowed =>
    cases other with
    | flag other => rw [beq_iff_eq.mp opened]
    | exitCodes codes => cases opened
  | exitCodes codes =>
    cases other with
    | flag other => cases opened
    | exitCodes others => rw [(OrderedSet.eq_iff_keepsOrder opened).mpr order]

end AllowFailure

/-! ### Reports -/

theorem floats_report (report : Report) : (toNode report).floats = [] := by
  cases report with
  | file kind path => rfl
  | coverage format path => rfl
  | cyclonedx paths => exact Node.floats_strings paths

namespace Artifacts

theorem floats_configure {artifacts : Artifacts} (before : (toNode artifacts.reports).floats = [])
    (settings : List Setting) : (toNode (artifacts.configure settings).reports).floats = [] := by
  induction settings generalizing artifacts with
  | nil => exact before
  | cons setting settings ih =>
    suffices after : (toNode (artifacts.apply setting).reports).floats = [] from ih after
    cases setting with
    | report report => exact Mapping.floats_add before (floats_report report) report.slot
    | _ => exact before

theorem eq_of_floatless {artifacts other : Artifacts} (reports : (toNode artifacts.reports).floats = [])
    (reports' : (toNode other.reports).floats = []) (same : (artifacts == other) = true) :
    artifacts = other := by
  cases artifacts
  cases other
  have opened : instBEqArtifacts.beq _ _ = true := same
  simp only [instBEqArtifacts.beq, Bool.and_eq_true, beq_iff_eq] at opened
  obtain ⟨paths, excluded, expireIn, exposeAs, name, sameReports, kept⟩ := opened
  have reports := Mapping.eq_of_beq (reports ▸ Node.noNegativeZero_nil) (reports' ▸ Node.noNegativeZero_nil) sameReports
  rw [paths, excluded, expireIn, exposeAs, name, reports, kept]

end Artifacts

namespace Job

theorem floats_reports_run (name : String) (stage : Option String) (block : List Action) :
    (toNode ((fresh name stage).run block).job.artifacts.reports).floats = [] := by
  refine slot_run_preserves (g := .artifacts) (P := fun artifacts => (toNode artifacts.reports).floats = []) rfl ?_ block
  intro artifacts action own before
  cases action with
  | artifacts settings => exact Artifacts.floats_configure before settings
  | _ => cases own

/-! ### Order -/

def retryCauses (job : Job) : List RetryCause := job.retry.elim [] (·.causes.toList)

def retryCodes (job : Job) : List Int32 := job.retry.elim [] (·.exitCodes.toList)

def toleratedCodes (job : Job) : List Int32 := job.allowFailure.elim [] (·.codes)

/-- What two jobs both hold stands in the same order in each. -/
structure SameOrder (job other : Job) : Prop where
  services : KeepsOrder job.services.toList other.services.toList
  tags : KeepsOrder job.tags.toList other.tags.toList
  vars : KeepsOrder job.vars.keys other.vars.keys
  retryCauses : KeepsOrder job.retryCauses other.retryCauses
  retryCodes : KeepsOrder job.retryCodes other.retryCodes
  toleratedCodes : KeepsOrder job.toleratedCodes other.toleratedCodes

variable {job other : Job}

theorem eq_of_sameOrder (reports : (toNode job.artifacts.reports).floats = [])
    (reports' : (toNode other.artifacts.reports).floats = []) (same : (job == other) = true)
    (order : job.SameOrder other) : job = other := by
  obtain ⟨services, tags, vars, causes, codes, tolerated⟩ := order
  have opened : instBEqJob.beq job other = true := same
  rw [instBEqJob.beq.eq_def] at opened
  simp only [Bool.and_eq_true, beq_iff_eq] at opened
  obtain ⟨name, stage, image, sameServices, before, main, after, sameTags, needs, sameVars, cache, sameArtifacts,
    sameRetry, sameAllowed, coverage⟩ := opened
  have services := (OrderedSet.eq_iff_keepsOrder sameServices).mpr services
  have tags := (OrderedSet.eq_iff_keepsOrder sameTags).mpr tags
  have vars := (OrderedMap.eq_iff_keepsOrder sameVars).mpr vars
  have artifacts := Artifacts.eq_of_floatless reports reports' sameArtifacts
  have retry : job.retry = other.retry := eq_of_option_beq sameRetry fun retry set retry' set' sameRetry => by
    rw [retryCauses, retryCauses, set, set'] at causes
    rw [retryCodes, retryCodes, set, set'] at codes
    exact Retry.eq_of_keepsOrder sameRetry causes codes
  have allowed : job.allowFailure = other.allowFailure :=
    eq_of_option_beq sameAllowed fun allowed set allowed' set' sameAllowed => by
      rw [toleratedCodes, toleratedCodes, set, set'] at tolerated
      exact AllowFailure.eq_of_keepsOrder sameAllowed tolerated
  refine eq_of_slots name stage fun g => ?_
  cases g with
  | image => exact image
  | services => exact services
  | script phase =>
    cases phase with
    | before => exact before
    | main => exact main
    | after => exact after
  | tags => exact tags
  | needs => exact needs
  | vars => exact vars
  | cache => exact cache
  | artifacts => exact artifacts
  | retry => exact retry
  | allowFailure => exact allowed
  | coverage => exact coverage

theorem keys_vars_eq_of_toNode (same : toNode (ofPairs job.vars.entries) = toNode (ofPairs other.vars.entries)) :
    job.vars.keys = other.vars.keys := by
  rw [toNode_variables, toNode_variables] at same
  have names := congrArg (List.map (·.1)) (pairs_injective (Node.map.inj same))
  rwa [List.map_map, List.map_map] at names

/-- The node of a job shows the order of all that it holds. -/
theorem sameOrder_of_toNode_eq (same : toNode job = toNode other) : job.SameOrder other := by
  rw [toNode_eq_map, toNode_eq_map] at same
  have fields : job.fields = other.fields :=
    present_injective rfl job.distinct_fields (pairs_injective (Node.map.inj same))
  simp only [Job.fields, List.cons.injEq, Prod.mk.injEq, true_and, and_true] at fields
  obtain ⟨-, -, services, -, -, -, tags, -, vars, -, -, retry, allowed, -⟩ := fields
  have services := listed_injective toNode_service_injective services
  have tags := listed_injective Node.str.inj tags
  have vars := keys_vars_eq_of_toNode (congrArg Node.map (nested_injective vars))
  have retry : job.retry = other.retry := Option.map_injective (fun _ _ => Retry.toNode_injective) retry
  have allowed : job.allowFailure = other.allowFailure :=
    Option.map_injective (fun _ _ => AllowFailure.toNode_injective) allowed
  exact {
    services := keepsOrder_of_eq services
    tags := keepsOrder_of_eq tags
    vars := keepsOrder_of_eq vars
    retryCauses := keepsOrder_of_eq (congrArg (·.elim [] (·.causes.toList)) retry)
    retryCodes := keepsOrder_of_eq (congrArg (·.elim [] (·.exitCodes.toList)) retry)
    toleratedCodes := keepsOrder_of_eq (congrArg (·.elim [] (·.codes)) allowed) }

/-- Of two equal jobs the nodes are the same where the orders are, and nowhere else. -/
theorem toNode_eq_iff_sameOrder (reports : (toNode job.artifacts.reports).floats = [])
    (reports' : (toNode other.artifacts.reports).floats = []) (same : (job == other) = true) :
    toNode job = toNode other ↔ job.SameOrder other :=
  ⟨sameOrder_of_toNode_eq, fun order => congrArg toNode (eq_of_sameOrder reports reports' same order)⟩

end Job
end CiPipeline
