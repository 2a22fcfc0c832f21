import Mathlib.Data.List.AList
import Mathlib.Algebra.BigOperators.Group.List.Basic
import Mathlib.Tactic

/-!
# Finite maps with sums

`Store κ α` is a finite map, Mathlib's `AList` at a constant family, with the operations a record
store has (`get`, `put`, `erase`) and the sum of a quantity over its records. The one fact the
accounting proofs rest on is `sumBy_put`: writing one record changes a sum by the difference of
what the record contributes now and what it contributed before.
-/

namespace Aseman

/-- A finite map from keys to records. -/
def Store (κ α : Type*) := AList fun _ : κ => α

namespace Store

variable {κ α : Type*}

instance : EmptyCollection (Store κ α) := ⟨(∅ : AList fun _ : κ => α)⟩

/-- The records with their keys. -/
def toList (m : Store κ α) : List (κ × α) := m.entries.map fun e => (e.1, e.2)

def keys (m : Store κ α) : List κ := AList.keys m

variable [DecidableEq κ]

instance [DecidableEq α] : DecidableEq (Store κ α) :=
  inferInstanceAs (DecidableEq (AList fun _ : κ => α))

variable (m : Store κ α) (k : κ)

/-- The record at a key. -/
def get : Option α := AList.lookup k m

/-- Write the record at a key. -/
def put (v : α) : Store κ α := AList.insert k v m

/-- Remove the record at a key. -/
def erase : Store κ α := AList.erase k m

/-! ## Reading back -/

@[simp] theorem get_empty : (∅ : Store κ α).get k = none := rfl

@[simp] theorem get_put_self (v : α) : (m.put k v).get k = some v :=
  AList.lookup_insert m

theorem get_put_of_ne {m : Store κ α} {k k' : κ} {v : α} (h : k' ≠ k) :
    (m.put k v).get k' = m.get k' :=
  AList.lookup_insert_ne h

theorem get_put (k k' : κ) (v : α) : (m.put k v).get k' = if k' = k then some v else m.get k' := by
  split
  · next h => rw [h, get_put_self]
  · next h => exact get_put_of_ne h

theorem get_put_eq_some {m : Store κ α} {k k' : κ} {v x : α} (h : (m.put k v).get k' = some x) :
    k' = k ∧ v = x ∨ k' ≠ k ∧ m.get k' = some x := by
  rw [get_put] at h
  split at h
  · next hk => exact .inl ⟨hk, Option.some.inj h⟩
  · next hk => exact .inr ⟨hk, h⟩

@[simp] theorem get_erase_self : (m.erase k).get k = none :=
  AList.lookup_erase k m

theorem get_erase_of_ne {m : Store κ α} {k k' : κ} (h : k' ≠ k) : (m.erase k).get k' = m.get k' :=
  AList.lookup_erase_ne h

theorem get_erase (k k' : κ) : (m.erase k).get k' = if k' = k then none else m.get k' := by
  split
  · next h => rw [h, get_erase_self]
  · next h => exact get_erase_of_ne h

omit [DecidableEq κ] in
theorem nodup_keys : m.keys.Nodup := AList.keys_nodup m

omit [DecidableEq κ] in
theorem map_fst_toList : m.toList.map Prod.fst = m.keys := by
  simp [toList, keys, AList.keys, List.keys, Function.comp_def]

theorem mem_keys_iff {m : Store κ α} {k : κ} : k ∈ m.keys ↔ (m.get k).isSome :=
  (AList.lookup_isSome).symm

theorem mem_toList_iff {m : Store κ α} {k : κ} {v : α} : (k, v) ∈ m.toList ↔ m.get k = some v := by
  have h := AList.mem_lookup_iff (s := m) (a := k) (b := v)
  rw [Option.mem_def] at h
  rw [get, h, toList, List.mem_map]
  constructor
  · rintro ⟨⟨a, b⟩, he, hab⟩
    cases hab
    exact he
  · intro he
    exact ⟨_, he, rfl⟩

/-! ## Changing every record -/

omit [DecidableEq κ] in
theorem keys_map_entries {β : Type*} (f : α → β) (l : List (Sigma fun _ : κ => α)) :
    (l.map fun e => (⟨e.1, f e.2⟩ : Sigma fun _ : κ => β)).keys = l.keys := by
  simp [List.keys, Function.comp_def]

/-- The store with every record changed by `f`. -/
def map {β : Type*} (m : Store κ α) (f : α → β) : Store κ β where
  entries := m.entries.map fun e => ⟨e.1, f e.2⟩
  nodupKeys := by
    rw [List.NodupKeys, keys_map_entries]
    exact m.nodupKeys

omit [DecidableEq κ] in
theorem toList_map {β : Type*} (m : Store κ α) (f : α → β) :
    (m.map f).toList = m.toList.map fun e => (e.1, f e.2) := by
  simp [toList, map, Function.comp_def]

@[simp] theorem get_map {β : Type*} (m : Store κ α) (f : α → β) (k : κ) :
    (m.map f).get k = (m.get k).map f := by
  apply Option.ext
  intro v
  rw [← mem_toList_iff, toList_map, List.mem_map, Option.map_eq_some_iff]
  constructor
  · rintro ⟨⟨k', v'⟩, hmem, heq⟩
    cases heq
    exact ⟨v', mem_toList_iff.mp hmem, rfl⟩
  · rintro ⟨v', hget, rfl⟩
    exact ⟨(k, v'), mem_toList_iff.mpr hget, rfl⟩

def orInsert (v : α) : Store κ α :=
  if (m.get k).isSome then m else m.put k v

theorem get_orInsert (k k' : κ) (v : α) :
    (m.orInsert k v).get k' = if k' = k then some ((m.get k).getD v) else m.get k' := by
  unfold orInsert
  split
  · next hsome =>
    obtain ⟨v', hget⟩ := Option.isSome_iff_exists.mp hsome
    split
    · next heq => simp [heq, hget]
    · rfl
  · next hnone =>
    rw [Option.not_isSome_iff_eq_none] at hnone
    simp [get_put, hnone]

/-! ## Properties of every record -/

/-- The store is unchanged, or one record was written that meets `P`. -/
inductive Wrote (P : κ → α → Prop) (m : Store κ α) : Store κ α → Prop
  | same : Wrote P m m
  | put (k : κ) (v : α) (h : P k v) : Wrote P m (m.put k v)

theorem Wrote.get {P m m'} (h : Wrote P m m') (hm : ∀ k v, m.get k = some v → P k v) (k : κ) (v : α)
    (hget : m'.get k = some v) : P k v := by
  cases h with
  | same => exact hm k v hget
  | put k' v' hP =>
    obtain ⟨heq, rfl⟩ | ⟨-, hget⟩ := get_put_eq_some hget
    · exact heq ▸ hP
    · exact hm k v hget

theorem Wrote.mono {P Q : κ → α → Prop} {m m' : Store κ α} (h : Wrote P m m')
    (hPQ : ∀ k v, P k v → Q k v) : Wrote Q m m' := by
  cases h with
  | same => exact .same
  | put k v hP => exact .put k v (hPQ k v hP)

/-- The key has a record, and it meets `P`. -/
def Has (P : α → Prop) : Prop := ∃ v, m.get k = some v ∧ P v

theorem has_put_self {m : Store κ α} {k : κ} {v : α} {P : α → Prop} (h : P v) :
    (m.put k v).Has k P := ⟨v, get_put_self m k v, h⟩

/-- Writes that never spoil `P` keep every record that meets it. -/
theorem Wrote.has {P : α → Prop} {m m' : Store κ α}
    (h : Wrote (fun k v => m.Has k P → P v) m m') {k : κ} (hk : m.Has k P) : m'.Has k P := by
  cases h with
  | same => exact hk
  | put k' v' hP =>
    by_cases heq : k = k'
    · subst heq
      exact has_put_self (hP hk)
    · obtain ⟨v, hget, hv⟩ := hk
      exact ⟨v, by rw [get_put_of_ne heq, hget], hv⟩

/-! ## Sums -/

/-- The sum of a quantity over all records. -/
def sumBy {M : Type*} [AddCommMonoid M] (m : Store κ α) (f : κ → α → M) : M :=
  (m.toList.map fun e => f e.1 e.2).sum

omit [DecidableEq κ] in
@[simp] theorem sumBy_empty {M : Type*} [AddCommMonoid M] (f : κ → α → M) :
    (∅ : Store κ α).sumBy f = 0 := rfl

/-- Taking the record at a key out of a list of records with distinct keys. -/
theorem sum_kerase {M : Type*} [AddCommGroup M] (f : κ → α → M) (k : κ)
    (l : List (Sigma fun _ : κ => α)) (hl : l.NodupKeys) :
    ((l.kerase k).map fun e => f e.1 e.2).sum =
      (l.map fun e => f e.1 e.2).sum - (l.dlookup k).elim 0 (f k) := by
  induction l with
  | nil => simp
  | cons e l ih =>
    rw [List.nodupKeys_cons] at hl
    by_cases hk : k = e.1
    · subst hk
      have hd : List.dlookup e.1 (e :: l) = some e.2 := List.dlookup_cons_eq l e.1 e.2
      rw [hd]
      simp
    · have hd : List.dlookup k (e :: l) = List.dlookup k l := List.dlookup_cons_ne l e hk
      rw [List.kerase_cons_ne hk, hd]
      simp only [List.map_cons, List.sum_cons, ih hl.2]
      abel

/-- **Writing one record** changes a sum by what that record contributes now, less what it
contributed before. -/
theorem sumBy_put {M : Type*} [AddCommGroup M] (m : Store κ α) (k : κ) (v : α) (f : κ → α → M) :
    (m.put k v).sumBy f = m.sumBy f - (m.get k).elim 0 (f k) + f k v := by
  have h := sum_kerase f k m.entries m.nodupKeys
  have he : (m.put k v).entries = ⟨k, v⟩ :: m.entries.kerase k := AList.entries_insert
  simp only [sumBy, toList, List.map_map, Function.comp_def, he, List.map_cons, List.sum_cons, h]
  abel

theorem sumBy_put_of_none {M : Type*} [AddCommGroup M] {m : Store κ α} {k : κ}
    (h : m.get k = none) (v : α) (f : κ → α → M) :
    (m.put k v).sumBy f = m.sumBy f + f k v := by
  simp [sumBy_put, h]

theorem sumBy_put_of_some {M : Type*} [AddCommGroup M] {m : Store κ α} {k : κ} {v₀ : α}
    (h : m.get k = some v₀) (v : α) (f : κ → α → M) :
    (m.put k v).sumBy f = m.sumBy f - f k v₀ + f k v := by
  simp [sumBy_put, h]

theorem sumBy_erase {M : Type*} [AddCommGroup M] (m : Store κ α) (k : κ) (f : κ → α → M) :
    (m.erase k).sumBy f = m.sumBy f - (m.get k).elim 0 (f k) := by
  have h := sum_kerase f k m.entries m.nodupKeys
  simp only [sumBy, toList, List.map_map, Function.comp_def]
  exact h

theorem sumBy_congr {M : Type*} [AddCommMonoid M] {m : Store κ α} {f g : κ → α → M}
    (h : ∀ k v, m.get k = some v → f k v = g k v) : m.sumBy f = m.sumBy g := by
  unfold sumBy
  congr 1
  exact List.map_congr_left fun e he => h e.1 e.2 (mem_toList_iff.mp he)

omit [DecidableEq κ] in
theorem sumBy_map {β : Type*} {M : Type*} [AddCommMonoid M] (m : Store κ α) (g : α → β)
    (f : κ → β → M) : (m.map g).sumBy f = m.sumBy fun k v => f k (g v) := by
  simp [sumBy, toList_map, Function.comp_def]

omit [DecidableEq κ] in
theorem sumBy_nonneg (f : κ → α → ℤ) (h : ∀ e ∈ m.toList, 0 ≤ f e.1 e.2) : 0 ≤ m.sumBy f := by
  apply List.sum_nonneg
  intro x hx
  obtain ⟨e, he, rfl⟩ := List.mem_map.mp hx
  exact h e he

/-- One record never contributes more than the whole sum, when none contributes a negative. -/
theorem le_sumBy {m : Store κ α} {k : κ} {v : α} (hget : m.get k = some v) (f : κ → α → ℤ)
    (h : ∀ e ∈ m.toList, 0 ≤ f e.1 e.2) : f k v ≤ m.sumBy f := by
  apply List.single_le_sum
  · intro x hx
    obtain ⟨e, he, rfl⟩ := List.mem_map.mp hx
    exact h e he
  · exact List.mem_map.mpr ⟨(k, v), mem_toList_iff.mpr hget, rfl⟩

end Store

end Aseman
