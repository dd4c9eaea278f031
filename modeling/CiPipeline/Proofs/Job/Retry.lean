import CiPipeline.Proofs.Job.Equality

/-!
# Retries from their triggers

A retry keeps the causes and the exit codes that it was given, each once, and shows one of them as it is
and several as a list. Its export depends on these alone and tells all of them apart, whatever the order
of the calls (`exports_faithfully`).
-/

namespace CiPipeline
open Mapping

/-! ### Values that are given again -/

/-- What is shown of the values that were given, each of them however often. -/
structure Shows {α} [DecidableEq α] [ToNode α] (given : List α) (shown : Option Node) : Prop where
  absent : shown = none ↔ given = []
  scalar : (∃ n, shown = some n ∧ n.isScalar = true) ↔ given.eraseDups.length = 1
  alone : ∀ a, given.eraseDups = [a] → shown = some (toNode a)
  several : 2 ≤ given.eraseDups.length → shown = some (.list (given.eraseDups.map toNode))

theorem shows_scalarOrList {α} [DecidableEq α] [ToNode α] (scalars : ∀ a : α, (toNode a).isScalar = true)
    {s : OrderedSet α} {given : List α} (members : s.toList = given.eraseDups) :
    Shows given s.scalarOrList := by
  have nothing : given = [] ↔ given.eraseDups = [] := eraseDups_eq_nil_iff.symm
  unfold OrderedSet.scalarOrList
  rw [members]
  match distinct : given.eraseDups with
  | [] => refine ⟨?_, ?_, ?_, ?_⟩ <;> simp [nothing, distinct]
  | [a] => refine ⟨?_, ?_, ?_, ?_⟩ <;> simp [nothing, distinct, scalars a]
  | a :: b :: rest =>
    have list : (toNode (a :: b :: rest)).isScalar = false := rfl
    refine ⟨?absent, ?scalar, ?alone, ?several⟩
    case absent => simp [nothing, distinct]
    case scalar => simp [distinct, list, -toNode_list]
    case alone => simp [distinct]
    case several => simp [distinct]

namespace Retry

/-! ### Triggers -/

namespace Trigger

def cause? : Trigger → Option RetryCause
  | .cause named => some named
  | .exitCode _ => none

def exitCode? : Trigger → Option Int32
  | .cause _ => none
  | .exitCode code => some code

theorem eq_nil_iff {triggers : List Trigger} :
    triggers = [] ↔ triggers.filterMap cause? = [] ∧ triggers.filterMap exitCode? = [] := by
  cases triggers with
  | nil => simp
  | cons trigger triggers => cases trigger <;> simp [cause?, exitCode?]

end Trigger

/-- A trigger goes into the set of its kind, and the count stays. -/
theorem configure_eq (retry : Retry) (triggers : List Trigger) : retry.configure triggers = {
    max := retry.max
    causes := (triggers.filterMap Trigger.cause?).foldl OrderedSet.insert retry.causes
    exitCodes := (triggers.filterMap Trigger.exitCode?).foldl OrderedSet.insert retry.exitCodes } := by
  induction triggers generalizing retry with
  | nil => rfl
  | cons trigger triggers ih =>
    unfold configure at ih ⊢
    rw [List.foldl_cons, ih]
    cases trigger <;> rfl

theorem ofMax_of_le {max : UInt32} (allowed : max.toNat ≤ maxRetries) :
    ofMax max = .ok { max := ⟨max.toNat, Nat.lt_succ_of_le allowed⟩ } := dif_pos allowed

theorem eq_of_ofMax {max : UInt32} {retry : Retry} (made : ofMax max = .ok retry) :
    retry.max.val = max.toNat ∧ retry.causes = .empty ∧ retry.exitCodes = .empty := by
  unfold ofMax at made
  split at made
  · obtain rfl := Except.ok.inj made
    exact ⟨rfl, rfl, rfl⟩
  · cases made

variable {max max' : UInt32} {retry retry' : Retry} {triggers triggers' : List Trigger}

theorem causes_configure (made : ofMax max = .ok retry) :
    (retry.configure triggers).causes.toList = (triggers.filterMap Trigger.cause?).eraseDups := by
  obtain ⟨-, none, -⟩ := eq_of_ofMax made
  rw [configure_eq, none]
  exact OrderedSet.toList_ofList _

theorem exitCodes_configure (made : ofMax max = .ok retry) :
    (retry.configure triggers).exitCodes.toList = (triggers.filterMap Trigger.exitCode?).eraseDups := by
  obtain ⟨-, -, none⟩ := eq_of_ofMax made
  rw [configure_eq, none]
  exact OrderedSet.toList_ofList _

theorem isEmpty_configure_iff (made : ofMax max = .ok retry) :
    ((retry.configure triggers).causes.isEmpty && (retry.configure triggers).exitCodes.isEmpty) = true ↔
      triggers = [] := by
  unfold OrderedSet.isEmpty
  rw [causes_configure made, exitCodes_configure made, Bool.and_eq_true, List.isEmpty_iff, List.isEmpty_iff,
    eraseDups_eq_nil_iff, eraseDups_eq_nil_iff, Trigger.eq_nil_iff]

/-! ### The export -/

theorem maxNode_configure (made : ofMax max = .ok retry) :
    (retry.configure triggers).maxNode = .int (Int64.ofNat max.toNat) := by
  obtain ⟨same, -, -⟩ := eq_of_ofMax made
  rw [configure_eq, maxNode, same]

theorem toNode_configure_nil (made : ofMax max = .ok retry) :
    toNode (retry.configure []) = .int (Int64.ofNat max.toNat) := by
  have bare := (isEmpty_configure_iff made).mpr rfl
  rw [← maxNode_configure made]
  exact if_pos bare

theorem toNode_configure_of_ne_nil (made : ofMax max = .ok retry) (given : triggers ≠ []) :
    toNode (retry.configure triggers) = .map (pairs (present [("max", some (.int (Int64.ofNat max.toNat))),
      ("when", (retry.configure triggers).causes.scalarOrList),
      ("exit_codes", (retry.configure triggers).exitCodes.scalarOrList)])) := by
  rcases (retry.configure triggers).toNode_cases with ⟨none, -⟩ | ⟨-, shown⟩
  · have bare := (retry.configure triggers).present_conditions_eq_nil_iff.mp none
    exact absurd ((isEmpty_configure_iff made).mp bare) given
  · rw [shown, fields, conditions, maxNode_configure made]

theorem toNode_configure_eq_iff (made : ofMax max = .ok retry) (made' : ofMax max' = .ok retry') :
    toNode (retry.configure triggers) = toNode (retry'.configure triggers') ↔ max = max' ∧
      (triggers.filterMap Trigger.cause?).eraseDups = (triggers'.filterMap Trigger.cause?).eraseDups ∧
      (triggers.filterMap Trigger.exitCode?).eraseDups = (triggers'.filterMap Trigger.exitCode?).eraseDups := by
  rw [← causes_configure made, ← causes_configure made', ← exitCodes_configure made, ← exitCodes_configure made']
  obtain ⟨count, -, -⟩ := eq_of_ofMax made
  obtain ⟨count', -, -⟩ := eq_of_ofMax made'
  have kept : (retry.configure triggers).max = retry.max := by rw [configure_eq]
  have kept' : (retry'.configure triggers').max = retry'.max := by rw [configure_eq]
  constructor
  · intro same
    have equal := toNode_injective same
    refine ⟨?_, congrArg (·.causes.toList) equal, congrArg (·.exitCodes.toList) equal⟩
    apply UInt32.toNat_inj.mp
    rw [← count, ← count', ← kept, ← kept', equal]
  · rintro ⟨rfl, causes, codes⟩
    have max : retry.max = retry'.max := Fin.ext (count.trans count'.symm)
    have same : retry.configure triggers = retry'.configure triggers' :=
      eq_of_parts (kept.trans (max.trans kept'.symm)) (OrderedSet.ext causes) (OrderedSet.ext codes)
    rw [same]

/-- A count that is not too high makes a retry. Without triggers it is exported as the count alone, and
otherwise as a map of the count and the two kinds of triggers, each when there is one of its kind. Nothing
that was given is lost in the export but repetitions. -/
theorem exports_faithfully (allowed : max.toNat ≤ 2) (triggers : List Trigger) :
    ∃ retry, ofMax max = .ok retry ∧
      (toNode (retry.configure triggers) = .int (Int64.ofNat max.toNat) ↔ triggers = []) ∧
      (triggers ≠ [] → ∃ causes codes,
        toNode (retry.configure triggers) = .map (pairs (present
          [("max", some (.int (Int64.ofNat max.toNat))), ("when", causes), ("exit_codes", codes)])) ∧
        Shows (triggers.filterMap Trigger.cause?) causes ∧
        Shows (triggers.filterMap Trigger.exitCode?) codes) ∧
      ∀ max' retry' triggers', ofMax max' = .ok retry' →
        (toNode (retry.configure triggers) = toNode (retry'.configure triggers') ↔ max = max' ∧
          (triggers.filterMap Trigger.cause?).eraseDups = (triggers'.filterMap Trigger.cause?).eraseDups ∧
          (triggers.filterMap Trigger.exitCode?).eraseDups =
            (triggers'.filterMap Trigger.exitCode?).eraseDups) := by
  obtain ⟨retry, made⟩ : ∃ retry, ofMax max = .ok retry := ⟨_, ofMax_of_le allowed⟩
  refine ⟨retry, made, ?_, fun given => ?_, fun _ _ _ made' => toNode_configure_eq_iff made made'⟩
  · constructor
    · intro bare
      by_contra given
      rw [toNode_configure_of_ne_nil made given] at bare
      cases bare
    · rintro rfl
      exact toNode_configure_nil made
  · exact ⟨_, _, toNode_configure_of_ne_nil made given,
      shows_scalarOrList (fun _ => rfl) (causes_configure made),
      shows_scalarOrList (fun _ => rfl) (exitCodes_configure made)⟩

/-- One cause that is given twice, between two exit codes that are both given again. -/
def repeatedTriggers : List Trigger :=
  [.exitCode 137, .cause .scriptFailure, .exitCode 1, .cause .scriptFailure, .exitCode 137, .exitCode 1]

theorem exports_repeatedTriggers : ∃ retry, ofMax 2 = .ok retry ∧
    toNode (retry.configure repeatedTriggers) = .map [(.str "max", .int 2), (.str "when", .str "script_failure"),
      (.str "exit_codes", .list [.int 137, .int 1])] ∧
    toNode (retry.configure []) = .int 2 ∧
    toNode (retry.configure repeatedTriggers) ≠
      toNode (retry.configure [.cause .scriptFailure, .exitCode 1, .exitCode 137]) := by
  obtain ⟨retry, made, -, shown, apart⟩ := @exports_faithfully 2 (by decide) repeatedTriggers
  obtain ⟨retry', made', bare, -⟩ := @exports_faithfully 2 (by decide) []
  obtain ⟨causes, codes, map, causesShown, codesShown⟩ := shown (by decide)
  obtain rfl := causesShown.alone .scriptFailure (by decide)
  obtain rfl := codesShown.several (by decide)
  obtain rfl := Except.ok.inj (made.symm.trans made')
  refine ⟨retry, made, map.trans rfl, bare.mpr rfl, fun same => ?_⟩
  obtain ⟨-, -, reordered⟩ := (apart 2 retry _ made).mp same
  exact absurd reordered (by decide)

end Retry
end CiPipeline
