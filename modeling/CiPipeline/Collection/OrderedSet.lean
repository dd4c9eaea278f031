/-!
# Sets in order of insertion

`toList` holds the members in the order of their first insertion. `==` ignores that order.
-/

namespace CiPipeline

structure OrderedSet (α : Type) where
  toList : List α
  nodup : toList.Nodup

namespace OrderedSet

def empty {α} : OrderedSet α := ⟨[], List.nodup_nil⟩

instance {α} : Inhabited (OrderedSet α) := ⟨empty⟩

@[ext] theorem ext {α} {s t : OrderedSet α} (h : s.toList = t.toList) : s = t := by
  cases s; cases t; cases h; rfl

variable {α : Type} [DecidableEq α]

def contains (s : OrderedSet α) (a : α) : Bool := decide (a ∈ s.toList)

def insert (s : OrderedSet α) (a : α) : OrderedSet α :=
  if h : a ∈ s.toList then s
  else ⟨s.toList ++ [a], List.nodup_append.2 ⟨s.nodup, by simp, by
    intro b hb c hc same
    rw [List.mem_singleton.1 hc] at same
    exact h (same ▸ hb)⟩⟩

def ofList (items : List α) : OrderedSet α := items.foldl insert empty

def size (s : OrderedSet α) : Nat := s.toList.length

def isEmpty (s : OrderedSet α) : Bool := s.toList.isEmpty

instance : BEq (OrderedSet α) :=
  ⟨fun s t => s.size == t.size && s.toList.all t.contains⟩

@[simp] theorem contains_iff {s : OrderedSet α} {a : α} :
    s.contains a = true ↔ a ∈ s.toList := by
  simp [contains]

theorem toList_insert (s : OrderedSet α) (a : α) :
    (s.insert a).toList = if a ∈ s.toList then s.toList else s.toList ++ [a] := by
  unfold insert; split <;> rfl

theorem mem_insert {s : OrderedSet α} {a b : α} :
    b ∈ (s.insert a).toList ↔ b ∈ s.toList ∨ b = a := by
  rw [toList_insert]
  split
  · exact ⟨.inl, fun h => h.elim id fun e => e ▸ ‹_›⟩
  · simp

theorem insert_of_mem {s : OrderedSet α} {a : α} (h : a ∈ s.toList) : s.insert a = s := by
  simp [insert, h]

theorem beq_iff {s t : OrderedSet α} :
    (s == t) = true ↔ s.toList.length = t.toList.length ∧ ∀ a ∈ s.toList, a ∈ t.toList := by
  show (s.size == t.size && s.toList.all t.contains) = true ↔ _
  simp [size, List.all_eq_true]

end OrderedSet
end CiPipeline
