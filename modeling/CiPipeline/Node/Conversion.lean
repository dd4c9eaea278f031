import CiPipeline.Node.Mapping

/-!
# Values as nodes

The types that have a node of their own, among them every entity of a pipeline. A list is the list
of its items' nodes, and an absent value is null.
-/

namespace CiPipeline

class ToNode (α : Type) where
  toNode : α → Node

export ToNode (toNode)

instance : ToNode Node := ⟨id⟩
instance : ToNode String := ⟨.str⟩
instance : ToNode Int64 := ⟨.int⟩
instance : ToNode Int32 := ⟨fun i => .int i.toInt64⟩
instance : ToNode UInt32 := ⟨fun n => .int n.toUInt64.toInt64⟩
instance : ToNode UInt8 := ⟨fun n => .int n.toUInt64.toInt64⟩
instance : ToNode Binary64 := ⟨.float⟩
instance : ToNode Bool := ⟨.bool⟩
instance : ToNode Mapping := ⟨fun m => .map m.entries⟩
instance {α} [ToNode α] : ToNode (List α) := ⟨fun items => .list (items.map toNode)⟩
instance {α} [ToNode α] : ToNode (Option α) := ⟨fun
  | some a => toNode a
  | none => .null⟩

@[simp] theorem toNode_node (n : Node) : toNode n = n := rfl
@[simp] theorem toNode_string (s : String) : toNode s = .str s := rfl
@[simp] theorem toNode_bool (b : Bool) : toNode b = .bool b := rfl
@[simp] theorem toNode_mapping (m : Mapping) : toNode m = .map m.entries := rfl
@[simp] theorem toNode_list {α} [ToNode α] (items : List α) :
    toNode items = .list (items.map toNode) := rfl
@[simp] theorem toNode_some {α} [ToNode α] (a : α) : toNode (some a) = toNode a := rfl
@[simp] theorem toNode_none {α} [ToNode α] : toNode (none : Option α) = .null := rfl

namespace Mapping

/-- Writes a pair whatever the value. -/
def add {α} [ToNode α] (m : Mapping) (key : String) (value : α) : Mapping :=
  (m.insertString key (toNode value)).2

/-- Writes a pair when there is a value. -/
def addOpt {α} [ToNode α] (m : Mapping) (key : String) : Option α → Mapping
  | some value => m.add key value
  | none => m

/-- Writes a list when it has an item. -/
def addNonEmpty {α} [ToNode α] (m : Mapping) (key : String) (items : List α) : Mapping :=
  if items.isEmpty then m else m.add key items

/-- Writes a nested mapping when it has a pair. -/
def addMapNonEmpty (m : Mapping) (key : String) (value : Mapping) : Mapping :=
  if value.isEmpty then m else m.add key value

/-- The pairs written one after another. -/
def ofPairs {α} [ToNode α] (pairs : List (String × α)) : Mapping :=
  pairs.foldl (fun m pair => m.add pair.1 pair.2) .empty

end Mapping
end CiPipeline
