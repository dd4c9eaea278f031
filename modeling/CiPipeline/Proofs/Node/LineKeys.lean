import CiPipeline.Proofs.Node.Fields
import CiPipeline.Proofs.Node.Lines

/-!
# Mappings whose keys are on one line

Each way to write a pair into a mapping keeps all keys on one line, at every depth, when its key and
its value do.
-/

namespace CiPipeline

namespace Node

theorem lineKeys_of_isScalar {n : Node} (scalar : n.isScalar = true) : n.LineKeys :=
  .scalar scalar trivial

theorem lineKeys_toNode_list {α} [ToNode α] {items : List α}
    (each : ∀ item ∈ items, (toNode item).LineKeys) : (toNode items).LineKeys := by
  refine every_list_iff.mpr fun n member => ?_
  obtain ⟨item, found, rfl⟩ := List.mem_map.mp member
  exact each item found

theorem lineKeys_strings (texts : List String) : (toNode texts).LineKeys :=
  lineKeys_toNode_list fun _ _ => lineKeys_of_isScalar rfl

theorem lineKeys_pairs {named : List (String × Node)} (flat : ∀ field ∈ named, '\n' ∉ field.1.toList)
    (values : ∀ field ∈ named, field.2.LineKeys) : (map (Mapping.pairs named)).LineKeys := by
  refine every_map_iff.mpr ⟨fun entry member => ?_, fun entry member => ?_⟩
  · obtain ⟨field, found, rfl⟩ := List.mem_map.mp member
    exact flat field found
  · obtain ⟨field, found, rfl⟩ := List.mem_map.mp member
    exact values field found

theorem lineKeys_present {fields : List (String × Option Node)}
    (flat : ∀ name ∈ fields.map (·.1), '\n' ∉ name.toList)
    (values : ∀ name value, (name, some value) ∈ fields → value.LineKeys) :
    (map (Mapping.pairs (Mapping.present fields))).LineKeys := by
  refine lineKeys_pairs (fun field member => ?_) fun field member => ?_
  · exact flat _ (List.mem_map_of_mem (f := (·.1)) (Mapping.mem_present.mp member))
  · exact values _ _ (Mapping.mem_present.mp member)

end Node

namespace Mapping

def LineKeys (m : Mapping) : Prop := (toNode m).LineKeys

namespace LineKeys

variable {m : Mapping} {key : String}

theorem empty : LineKeys .empty := Node.every_map_iff.mpr ⟨by simp [Mapping.empty], by simp [Mapping.empty]⟩

theorem add {α} [ToNode α] (before : m.LineKeys) (flat : '\n' ∉ key.toList) {value : α}
    (new : (toNode value).LineKeys) : (m.add key value).LineKeys :=
  Node.every_insertString before flat new

theorem addOpt {α} [ToNode α] (before : m.LineKeys) (flat : '\n' ∉ key.toList) {value : Option α}
    (new : ∀ a ∈ value, (toNode a).LineKeys) : (m.addOpt key value).LineKeys := by
  cases value with
  | none => exact before
  | some a => exact before.add flat (new a rfl)

theorem addNonEmpty {α} [ToNode α] (before : m.LineKeys) (flat : '\n' ∉ key.toList) {items : List α}
    (new : ∀ item ∈ items, (toNode item).LineKeys) : (m.addNonEmpty key items).LineKeys := by
  unfold Mapping.addNonEmpty
  split
  · exact before
  · exact before.add flat (Node.lineKeys_toNode_list new)

theorem addMapNonEmpty (before : m.LineKeys) (flat : '\n' ∉ key.toList) {value : Mapping}
    (new : value.LineKeys) : (m.addMapNonEmpty key value).LineKeys := by
  unfold Mapping.addMapNonEmpty
  split
  · exact before
  · exact before.add flat new

end LineKeys
end Mapping
end CiPipeline
