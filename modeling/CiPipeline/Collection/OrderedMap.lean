/-!
# Maps in order of insertion

`entries` holds each key once, in the order of first insertion, with the value inserted last. `==`
ignores the order.
-/

namespace CiPipeline

structure OrderedMap (κ ν : Type) where
  entries : List (κ × ν)
  nodup : (entries.map (·.1)).Nodup

namespace OrderedMap

def empty {κ ν} : OrderedMap κ ν := ⟨[], List.nodup_nil⟩

instance {κ ν} : Inhabited (OrderedMap κ ν) := ⟨empty⟩

@[ext] theorem ext {κ ν} {m n : OrderedMap κ ν} (h : m.entries = n.entries) : m = n := by
  cases m; cases n; cases h; rfl

variable {κ ν : Type} [DecidableEq κ]

/-- Gives a known key a new value where it stands, and adds a new one at the end. -/
def put (key : κ) (value : ν) : List (κ × ν) → List (κ × ν)
  | [] => [(key, value)]
  | (k, v) :: entries =>
    if k = key then (k, value) :: entries else (k, v) :: put key value entries

theorem keys_put (key : κ) (value : ν) (entries : List (κ × ν)) :
    (put key value entries).map (·.1) =
      if key ∈ entries.map (·.1) then entries.map (·.1) else entries.map (·.1) ++ [key] := by
  induction entries with
  | nil => simp [put]
  | cons entry entries ih =>
    rw [put]
    by_cases h : entry.1 = key
    · simp [h]
    · simp only [if_neg h, List.map_cons, ih, List.mem_cons, Ne.symm h, false_or]
      split <;> rfl

def insert (m : OrderedMap κ ν) (key : κ) (value : ν) : OrderedMap κ ν :=
  ⟨put key value m.entries, by
    rw [keys_put]
    split
    · exact m.nodup
    next h =>
      refine List.nodup_append.2 ⟨m.nodup, by simp, ?_⟩
      intro k hk l hl same
      rw [List.mem_singleton.1 hl] at same
      exact h (same ▸ hk)⟩

def get? (m : OrderedMap κ ν) (key : κ) : Option ν :=
  (m.entries.find? fun entry => entry.1 = key).map (·.2)

def size (m : OrderedMap κ ν) : Nat := m.entries.length

instance [DecidableEq ν] : BEq (OrderedMap κ ν) :=
  ⟨fun m n => m.size == n.size && m.entries.all fun entry => n.get? entry.1 == some entry.2⟩

theorem entries_insert (m : OrderedMap κ ν) (key : κ) (value : ν) :
    (m.insert key value).entries = put key value m.entries := rfl

end OrderedMap
end CiPipeline
