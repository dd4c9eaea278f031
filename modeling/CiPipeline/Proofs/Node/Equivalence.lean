import CiPipeline.Proofs.Node.Equality

/-!
# Equality as a partial equivalence

Equality of nodes is symmetric and transitive, and a node equals itself exactly when it holds no NaN.
Mappings inherit all three. Only a negative zero can tell equal nodes apart in a layout (`beq_laws`).
-/

namespace CiPipeline

namespace Binary64

theorem ieeeEq_trans {x y z : Binary64} (first : x.ieeeEq y = true) (second : y.ieeeEq z = true) :
    x.ieeeEq z = true := by
  simp only [ieeeEq, Bool.and_eq_true, Bool.or_eq_true, beq_iff_eq, Bool.not_eq_true'] at first second ⊢
  obtain ⟨⟨number, -⟩, same⟩ := first
  obtain ⟨⟨-, number'⟩, same'⟩ := second
  refine ⟨⟨number, number'⟩, ?_⟩
  rcases same with rfl | zeros
  · exact same'
  · rcases same' with rfl | zeros'
    · exact .inr zeros
    · exact .inr ⟨zeros.1, zeros'.2⟩

end Binary64

namespace Node

/-! ### Symmetry -/

mutual

theorem beq_comm : ∀ a b : Node, a.beq b = b.beq a
  | null, b => by cases b <;> rfl
  | bool x, b => by cases b <;> simp [beq, BEq.comm]
  | int i, b => by cases b <;> simp [beq, BEq.comm]
  | float x, b => by cases b <;> simp [beq, Binary64.ieeeEq_comm]
  | str s, b => by cases b <;> simp [beq, BEq.comm]
  | list items, b => by
    cases b with
    | list items' => rw [beq, beq, beqItems_comm]
    | _ => rfl
  | map entries, b => by
    cases b with
    | map entries' => rw [beq, beq, beqEntries_comm]
    | _ => rfl

theorem beqItems_comm : ∀ as bs : List Node, beqItems as bs = beqItems bs as
  | [], bs => by cases bs <;> rfl
  | a :: as, [] => rfl
  | a :: as, b :: bs => by rw [beqItems, beqItems, beq_comm a b, beqItems_comm as bs]

theorem beqEntries_comm : ∀ as bs : List (Node × Node), beqEntries as bs = beqEntries bs as
  | [], bs => by cases bs <;> rfl
  | a :: as, [] => rfl
  | (k, v) :: as, (l, w) :: bs => by
    rw [beqEntries, beqEntries, beq_comm k l, beq_comm v w, beqEntries_comm as bs]

end

/-! ### Transitivity -/

theorem eq_of_beq_exact {a b : Node} (scalar : a.isScalar = true) (exact : ∀ x, a ≠ float x)
    (same : a.beq b = true) : b = a :=
  (beq_iff_eq_of_isScalar scalar exact).mp ((beq_comm b a).trans same)

mutual

theorem beq_trans : ∀ {a b c : Node}, a.beq b = true → b.beq c = true → a.beq c = true
  | null, b, c, first, second | bool _, b, c, first, second | int _, b, c, first, second
  | str _, b, c, first, second => by rwa [eq_of_beq_exact rfl (by simp) first] at second
  | float x, b, c, first, second => by
    cases b with
    | float y =>
      cases c with
      | float z =>
        rw [beq] at first second ⊢
        exact Binary64.ieeeEq_trans first second
      | _ => cases second
    | _ => cases first
  | list as, b, c, first, second => by
    cases b with
    | list bs =>
      cases c with
      | list cs =>
        rw [beq] at first second ⊢
        exact beqItems_trans first second
      | _ => cases second
    | _ => cases first
  | map as, b, c, first, second => by
    cases b with
    | map bs =>
      cases c with
      | map cs =>
        rw [beq] at first second ⊢
        exact beqEntries_trans first second
      | _ => cases second
    | _ => cases first

theorem beqItems_trans : ∀ {as bs cs : List Node}, beqItems as bs = true → beqItems bs cs = true →
    beqItems as cs = true
  | [], [], _, _, second => second
  | [], _ :: _, _, first, _ => by cases first
  | _ :: _, [], _, first, _ => by cases first
  | _ :: _, _ :: _, [], _, second => by cases second
  | a :: as, b :: bs, c :: cs, first, second => by
    rw [beqItems, Bool.and_eq_true] at first second ⊢
    exact ⟨beq_trans first.1 second.1, beqItems_trans first.2 second.2⟩

theorem beqEntries_trans : ∀ {as bs cs : List (Node × Node)}, beqEntries as bs = true →
    beqEntries bs cs = true → beqEntries as cs = true
  | [], [], _, _, second => second
  | [], _ :: _, _, first, _ => by cases first
  | _ :: _, [], _, first, _ => by cases first
  | _ :: _, _ :: _, [], _, second => by cases second
  | (k, u) :: as, (l, v) :: bs, (m, w) :: cs, first, second => by
    rw [beqEntries, Bool.and_eq_true, Bool.and_eq_true] at first second ⊢
    exact ⟨⟨beq_trans first.1.1 second.1.1, beq_trans first.1.2 second.1.2⟩,
      beqEntries_trans first.2 second.2⟩

end

/-! ### Reflexivity -/

def NoNaN (floats : List Binary64) : Prop := ∀ x ∈ floats, x.isNaN = false

theorem noNaN_append {first second : List Binary64} : NoNaN (first ++ second) ↔ NoNaN first ∧ NoNaN second :=
  List.forall_mem_append

mutual

theorem beq_self_iff : ∀ n : Node, n.beq n = true ↔ NoNaN n.floats
  | null | bool _ | int _ | str _ => by simp [beq, floats, NoNaN]
  | float x => by simp [beq, floats, NoNaN, Binary64.ieeeEq_self_iff]
  | list items => by rw [beq, floats, beqItems_self_iff]
  | map entries => by rw [beq, floats, beqEntries_self_iff]

theorem beqItems_self_iff : ∀ items : List Node, beqItems items items = true ↔ NoNaN (floatsItems items)
  | [] => by simp [beqItems, floatsItems, NoNaN]
  | item :: items => by
    rw [beqItems, floatsItems, Bool.and_eq_true, noNaN_append, beq_self_iff item, beqItems_self_iff items]

theorem beqEntries_self_iff : ∀ entries : List (Node × Node),
    beqEntries entries entries = true ↔ NoNaN (floatsEntries entries)
  | [] => by simp [beqEntries, floatsEntries, NoNaN]
  | (key, value) :: entries => by
    rw [beqEntries, floatsEntries, Bool.and_eq_true, Bool.and_eq_true, noNaN_append, noNaN_append,
      beq_self_iff key, beq_self_iff value, beqEntries_self_iff entries]

end

end Node

namespace Mapping

theorem beq_eq_beq_map (m n : Mapping) : (m == n) = (Node.map m.entries).beq (.map n.entries) := by
  rw [Node.beq, ← Node.beq_entries]
  rfl

end Mapping

namespace Node

/-- Equality of nodes and of mappings is symmetric and transitive, and reflexive exactly where no NaN
stands among the values and the keys. Equal nodes without a negative zero have the same layout at
every level. -/
theorem beq_laws :
    ((∀ a b : Node, (a == b) = (b == a)) ∧
      (∀ a b c : Node, (a == b) = true → (b == c) = true → (a == c) = true) ∧
      ∀ n : Node, ((n == n) = true ↔ NoNaN n.floats) ∧ ((toNode n == n) = true ↔ NoNaN n.floats)) ∧
    ((∀ m n : Mapping, (m == n) = (n == m)) ∧
      (∀ l m n : Mapping, (l == m) = true → (m == n) = true → (l == n) = true) ∧
      ∀ m : Mapping, (m == m) = true ↔ NoNaN (toNode m).floats) ∧
    ∀ a b : Node, (a == b) = true → NoNegativeZero a.floats → NoNegativeZero b.floats →
      ∀ level, a.render level = b.render level := by
  refine ⟨⟨beq_comm, fun _ _ _ => beq_trans, fun n => ⟨beq_self_iff n, beq_self_iff n⟩⟩,
    ⟨?comm, ?trans, ?self⟩, ?render⟩
  case comm =>
    intro m n
    rw [Mapping.beq_eq_beq_map, Mapping.beq_eq_beq_map, beq_comm]
  case trans =>
    intro l m n first second
    rw [Mapping.beq_eq_beq_map] at first second ⊢
    exact beq_trans first second
  case self =>
    intro m
    rw [Mapping.beq_eq_beq_map, beq_self_iff, toNode_mapping]
  case render =>
    intro a b same signed signed' level
    rw [eq_of_beq signed signed' same]

def positiveZero : Binary64 := ⟨0⟩

def negativeZero : Binary64 := ⟨0x8000000000000000⟩

/-- A float as a key and as a value. -/
def keyedTwice (x : Binary64) : Node := map [(float x, list [float x, str "-0.0"])]

/-- The same pair with another value before. -/
def keyedAgain (x : Binary64) : Node :=
  map (Mapping.after .empty [.node (float x) null, .node (float x) (list [float x, str "-0.0"])]).entries

theorem beq_keyedTwice :
    ((keyedTwice positiveZero == keyedTwice negativeZero) = true ∧
      (keyedTwice negativeZero == keyedAgain positiveZero) = true ∧
      (keyedTwice positiveZero == keyedAgain positiveZero) = true) ∧
    (keyedTwice ⟨0x7ff8000000000000⟩ == keyedTwice ⟨0x7ff8000000000000⟩) = false ∧
    NoNegativeZero (keyedTwice positiveZero).floats ∧ NoNegativeZero (keyedAgain positiveZero).floats ∧
    (keyedTwice positiveZero).render 3 = (keyedAgain positiveZero).render 3 := by
  obtain ⟨⟨-, trans, self⟩, -, render⟩ := beq_laws
  have first : (keyedTwice positiveZero == keyedTwice negativeZero) = true := by decide
  have second : (keyedTwice negativeZero == keyedAgain positiveZero) = true := by decide
  have same := trans _ _ _ first second
  have signed : NoNegativeZero (keyedTwice positiveZero).floats := by
    unfold NoNegativeZero
    decide
  have signed' : NoNegativeZero (keyedAgain positiveZero).floats := by
    unfold NoNegativeZero
    decide
  refine ⟨⟨first, second, same⟩, ?_, signed, signed', render _ _ same signed signed' 3⟩
  refine Bool.eq_false_iff.mpr fun equal => ?_
  have number := (self _).1.mp equal ⟨0x7ff8000000000000⟩ (.head _)
  exact absurd number (by decide)

end Node
end CiPipeline
