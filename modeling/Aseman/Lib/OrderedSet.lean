import Aseman.Lib.OrderedMap

/-!
# Ordered sets

`OrderedSet κ` is a `BTreeSet`: an ordered map whose values say nothing. Its elements are listed in
increasing order, so a loop over a set has one order.
-/

namespace Aseman

/-- A finite set whose elements stand in order. -/
@[ext] structure OrderedSet (κ : Type*) [LinearOrder κ] where
  map : OrderedMap κ Unit

namespace OrderedSet

variable {κ : Type*} [LinearOrder κ]

def toList (s : OrderedSet κ) : List κ := s.map.keys

instance : Membership κ (OrderedSet κ) := ⟨fun s k => k ∈ s.toList⟩

instance (k : κ) (s : OrderedSet κ) : Decidable (k ∈ s) := inferInstanceAs (Decidable (k ∈ s.toList))

instance : EmptyCollection (OrderedSet κ) := ⟨⟨∅⟩⟩

instance : DecidableEq (OrderedSet κ) := fun s t =>
  decidable_of_iff (s.map.entries = t.map.entries)
    (OrderedMap.ext_iff.symm.trans OrderedSet.ext_iff.symm)

def insert (s : OrderedSet κ) (k : κ) : OrderedSet κ := ⟨s.map.insert k ()⟩

def inter (s t : OrderedSet κ) : OrderedSet κ := ⟨s.map.restrict fun k => decide (k ∈ t)⟩

def ofList (l : List κ) : OrderedSet κ := l.foldl insert ∅

instance : HasSubset (OrderedSet κ) := ⟨fun s t => ∀ k ∈ s.toList, k ∈ t⟩

/-- `is_subset`. -/
instance (s t : OrderedSet κ) : Decidable (s ⊆ t) :=
  inferInstanceAs (Decidable (∀ k ∈ s.toList, k ∈ t))

@[simp] theorem mem_toList {k : κ} {s : OrderedSet κ} : k ∈ s.toList ↔ k ∈ s := Iff.rfl

theorem mem_iff_get {k : κ} {s : OrderedSet κ} : k ∈ s ↔ (s.map.get k).isSome :=
  OrderedMap.mem_keys_iff

@[simp] theorem notMem_empty (k : κ) : k ∉ (∅ : OrderedSet κ) := List.not_mem_nil

@[simp] theorem mem_insert {k k' : κ} {s : OrderedSet κ} : k ∈ s.insert k' ↔ k = k' ∨ k ∈ s := by
  rw [mem_iff_get, mem_iff_get, insert]
  by_cases hk : k = k' <;> simp [hk]

@[simp] theorem mem_inter {k : κ} {s t : OrderedSet κ} : k ∈ s.inter t ↔ k ∈ s ∧ k ∈ t := by
  rw [mem_iff_get, mem_iff_get, inter, OrderedMap.get_restrict]
  by_cases hk : k ∈ t <;> simp [hk]

end OrderedSet

end Aseman
