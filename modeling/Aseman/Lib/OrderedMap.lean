import Mathlib.Data.List.Sort
import Mathlib.Order.Lex
import Mathlib.Tactic

/-!
# Ordered maps

`OrderedMap κ α` is a `BTreeMap`: its entries stand in strictly increasing key order, which the
type keeps as a field. So there is one map for each finite set of entries, and two maps that answer
every lookup alike are equal (`ext_get`).
-/

namespace Aseman

/-- A finite map whose entries stand in key order, one per key. -/
@[ext] structure OrderedMap (κ α : Type*) [LinearOrder κ] where
  entries : List (κ × α)
  sorted : entries.Pairwise fun a b => a.1 < b.1

namespace OrderedMap

variable {κ α β : Type*} [LinearOrder κ]

instance : EmptyCollection (OrderedMap κ α) := ⟨⟨[], .nil⟩⟩

variable (m : OrderedMap κ α)

def keys : List κ := m.entries.map Prod.fst

/-- The value at a key. -/
def get (k : κ) : Option α := m.entries.lookup k

def contains (k : κ) : Bool := (m.get k).isSome

/-! ## Membership -/

theorem lookup_cons_eq (e : κ × α) (l : List (κ × α)) (k : κ) :
    (e :: l).lookup k = if k = e.1 then some e.2 else l.lookup k := by
  rw [List.lookup_cons]
  by_cases h : k = e.1
  · simp [h]
  · simp [h, beq_eq_false_iff_ne.mpr h]

theorem nodup_keys : m.keys.Nodup := List.pairwise_map.mpr (m.sorted.imp fun h => ne_of_lt h)

variable {l : List (κ × α)} {k : κ} {v : α}

theorem lookup_eq_some_iff (h : (l.map Prod.fst).Nodup) : l.lookup k = some v ↔ (k, v) ∈ l := by
  induction l with
  | nil => simp
  | cons e l ih =>
    obtain ⟨k', v'⟩ := e
    simp only [List.map_cons, List.nodup_cons] at h
    by_cases hk : k = k'
    · subst hk
      -- the key stands at no later entry
      have hnot : (k, v) ∉ l := fun hmem => h.1 (List.mem_map_of_mem hmem)
      simp [hnot, eq_comm]
    · simp [lookup_cons_eq, hk, ih h.2]

variable {m : OrderedMap κ α}

theorem get_eq_some_iff : m.get k = some v ↔ (k, v) ∈ m.entries := lookup_eq_some_iff m.nodup_keys

theorem get_eq_none_iff : m.get k = none ↔ k ∉ m.keys := by
  rw [get, List.lookup_eq_none_iff, keys, List.mem_map]
  simp only [bne_iff_ne, ne_eq, not_exists, not_and]
  exact ⟨fun h e he heq => h e he heq.symm, fun h e he heq => h e he heq.symm⟩

theorem mem_keys_iff : k ∈ m.keys ↔ (m.get k).isSome := by
  rw [Option.isSome_iff_ne_none, ne_eq, get_eq_none_iff, not_not]

theorem contains_iff : m.contains k ↔ k ∈ m.keys := mem_keys_iff.symm

/-- A map is what its lookups answer. -/
theorem ext_get {m'} (h : ∀ k, m.get k = m'.get k) : m = m' := by
  ext1
  refine List.Pairwise.eq_of_mem_iff m.sorted m'.sorted ?_
  rintro ⟨k, v⟩
  rw [← get_eq_some_iff, ← get_eq_some_iff, h k]

/-! ## Writing -/

/-- The entries with one more, in its place; an entry of the same key is replaced. -/
def insertEntry (k : κ) (v : α) : List (κ × α) → List (κ × α)
  | [] => [(k, v)]
  | e :: l =>
    if k < e.1 then (k, v) :: e :: l
    else if k = e.1 then (k, v) :: l
    else e :: insertEntry k v l

variable {e : κ × α}

theorem mem_insertEntry (h : e ∈ insertEntry k v l) : e = (k, v) ∨ e ∈ l := by
  induction l with
  | nil => simpa [insertEntry] using h
  | cons a l ih =>
    rw [insertEntry] at h
    split at h
    · simpa using h
    · split at h
      · rcases List.mem_cons.mp h with h | h
        · exact Or.inl h
        · exact Or.inr (List.mem_cons_of_mem _ h)
      · rcases List.mem_cons.mp h with h | h
        · exact Or.inr (h ▸ List.mem_cons_self)
        · exact (ih h).imp_right (List.mem_cons_of_mem _)

theorem sorted_insertEntry (k : κ) (v : α) (h : l.Pairwise fun a b => a.1 < b.1) :
    (insertEntry k v l).Pairwise fun a b => a.1 < b.1 := by
  induction l with
  | nil => simp [insertEntry]
  | cons e l ih =>
    have hcons := List.pairwise_cons.mp h
    rw [insertEntry]
    split
    · next hlt =>
      refine List.pairwise_cons.mpr ⟨fun a ha => ?_, h⟩
      rcases List.mem_cons.mp ha with rfl | ha
      · exact hlt
      · exact hlt.trans (hcons.1 a ha)
    · next hlt =>
      split
      · next heq =>
        exact List.pairwise_cons.mpr ⟨fun a ha => heq ▸ hcons.1 a ha, hcons.2⟩
      · next hne =>
        refine List.pairwise_cons.mpr ⟨fun a ha => ?_, ih hcons.2⟩
        rcases mem_insertEntry ha with rfl | ha
        · exact lt_of_le_of_ne (not_lt.mp hlt) (Ne.symm hne)
        · exact hcons.1 a ha

/-- `BTreeMap::insert`. -/
def insert (m : OrderedMap κ α) (k : κ) (v : α) : OrderedMap κ α :=
  ⟨insertEntry k v m.entries, sorted_insertEntry k v m.sorted⟩

theorem mem_insert (h : e ∈ (m.insert k v).entries) : e = (k, v) ∨ e ∈ m.entries :=
  mem_insertEntry h

/-- `BTreeMap::remove`. -/
def remove (m : OrderedMap κ α) (k : κ) : OrderedMap κ α :=
  ⟨m.entries.filter fun e => e.1 ≠ k, m.sorted.filter _⟩

/-- The entries whose key meets a test. -/
def restrict (m : OrderedMap κ α) (p : κ → Bool) : OrderedMap κ α :=
  ⟨m.entries.filter fun e => p e.1, m.sorted.filter _⟩

/-- `BTreeMap::from`, and the `collect` of an iterator of entries: a later entry wins over an
earlier one of the same key. -/
def ofList (l : List (κ × α)) : OrderedMap κ α := l.foldl (fun m e => m.insert e.1 e.2) ∅

@[simp] theorem get_empty (k : κ) : (∅ : OrderedMap κ α).get k = none := rfl

theorem lookup_insertEntry (k k' : κ) (v : α) (l : List (κ × α)) :
    (insertEntry k v l).lookup k' = if k' = k then some v else l.lookup k' := by
  induction l with
  | nil => rw [insertEntry, lookup_cons_eq]
  | cons e l ih =>
    rw [insertEntry]
    split
    · rw [lookup_cons_eq]
    · split
      · next heq =>
        rw [lookup_cons_eq, lookup_cons_eq, ← heq]
        split <;> rfl
      · next hne =>
        rw [lookup_cons_eq, ih, lookup_cons_eq]
        by_cases h : k' = e.1
        · simp [h, Ne.symm hne]
        · simp [h]

/-- **Reading back** a written entry. -/
@[simp] theorem get_insert (m : OrderedMap κ α) (k k' : κ) (v : α) :
    (m.insert k v).get k' = if k' = k then some v else m.get k' :=
  lookup_insertEntry k k' v m.entries

@[simp] theorem get_remove (m : OrderedMap κ α) (k k' : κ) :
    (m.remove k).get k' = if k' = k then none else m.get k' := by
  apply Option.ext
  intro v
  rw [get_eq_some_iff]
  split
  · next h => simp [remove, h]
  · next h => simp [remove, h, get_eq_some_iff]

theorem get_restrict (m : OrderedMap κ α) (p : κ → Bool) (k : κ) :
    (m.restrict p).get k = if p k then m.get k else none := by
  apply Option.ext
  intro v
  rw [get_eq_some_iff]
  split
  · next h => simp [restrict, h, get_eq_some_iff]
  · next h => simp [restrict, h]

/-- The entries of the list that is written to a map, and where it has none those of the map. -/
theorem get_foldl_insert (h : (l.map Prod.fst).Nodup) (m : OrderedMap κ α) (k : κ) :
    (l.foldl (fun m e => m.insert e.1 e.2) m).get k = (l.lookup k).or (m.get k) := by
  induction l generalizing m with
  | nil => simp
  | cons e l ih =>
    simp only [List.map_cons, List.nodup_cons] at h
    rw [List.foldl_cons, ih h.2, lookup_cons_eq]
    by_cases hk : k = e.1
    · have hnone : l.lookup k = none := by
        rw [List.lookup_eq_none_iff]
        rintro p hp
        rw [bne_iff_ne]
        rintro rfl
        exact h.1 (hk ▸ List.mem_map_of_mem hp)
      simp [hk, hk ▸ hnone]
    · simp [hk]

theorem get_ofList (h : (l.map Prod.fst).Nodup) (k : κ) : (ofList l).get k = l.lookup k := by
  rw [ofList, get_foldl_insert h, get_empty, Option.or_none]

theorem length_insertEntry_le (k : κ) (v : α) (l : List (κ × α)) :
    (insertEntry k v l).length ≤ l.length + 1 := by
  induction l with
  | nil => exact le_rfl
  | cons e l ih =>
    rw [insertEntry]
    split
    · exact le_rfl
    · split
      · exact Nat.le_succ _
      · exact Nat.succ_le_succ ih

theorem length_insert_le (m : OrderedMap κ α) (k : κ) (v : α) :
    (m.insert k v).entries.length ≤ m.entries.length + 1 :=
  length_insertEntry_le k v m.entries

theorem length_ofList_le (l : List (κ × α)) : (ofList l).entries.length ≤ l.length := by
  suffices ∀ m : OrderedMap κ α, (l.foldl (fun m e => m.insert e.1 e.2) m).entries.length ≤
      m.entries.length + l.length from (this ∅).trans (Nat.zero_add _).le
  induction l with
  | nil => exact fun _ => le_rfl
  | cons e l ih =>
    intro m
    have hinsert := length_insert_le m e.1 e.2
    have hfold := ih (m.insert e.1 e.2)
    rw [List.foldl_cons, List.length_cons]
    omega

/-- The entries of a list, written to a map one after the other. -/
def insertAll (m : OrderedMap κ α) (l : List (κ × α)) : OrderedMap κ α :=
  l.foldl (fun m e => m.insert e.1 e.2) m

theorem get_insertAll_of_mem (m : OrderedMap κ α) (h : (l.map Prod.fst).Nodup) (he : e ∈ l) :
    (m.insertAll l).get e.1 = some e.2 := by
  rw [insertAll, get_foldl_insert h, (lookup_eq_some_iff h).mpr he, Option.some_or]

theorem get_insertAll_of_notMem (m : OrderedMap κ α) (h : (l.map Prod.fst).Nodup)
    (hk : k ∉ l.map Prod.fst) : (m.insertAll l).get k = m.get k := by
  have hnone : l.lookup k = none := Option.eq_none_iff_forall_ne_some.mpr fun v hv =>
      hk (List.mem_map_of_mem ((lookup_eq_some_iff h).mp hv))
  rw [insertAll, get_foldl_insert h, hnone, Option.none_or]

/-- A map has no other entries than those that were written to it. -/
theorem mem_of_mem_insertAll (h : e ∈ (m.insertAll l).entries) : e ∈ l ∨ e ∈ m.entries := by
  induction l generalizing m with
  | nil => exact Or.inr h
  | cons a l ih =>
    rcases ih h with h | h
    · exact Or.inl (List.mem_cons_of_mem _ h)
    · rcases mem_insert h with rfl | h
      · exact Or.inl List.mem_cons_self
      · exact Or.inr h

theorem mem_of_mem_ofList (h : e ∈ (ofList l).entries) : e ∈ l :=
  (mem_of_mem_insertAll h).resolve_right List.not_mem_nil

theorem mem_of_mem_keys_ofList (h : k ∈ (ofList l).keys) : k ∈ l.map Prod.fst := by
  obtain ⟨e, he, rfl⟩ := List.mem_map.mp h
  exact List.mem_map_of_mem (mem_of_mem_ofList he)

/-- Writing a map's entries in any order gives the map. -/
theorem ofList_of_perm (h : l.Perm m.entries) : ofList l = m := by
  have hnodup : (l.map Prod.fst).Nodup := (h.map Prod.fst).nodup_iff.mpr m.nodup_keys
  apply ext_get
  intro k
  apply Option.ext
  intro v
  rw [get_ofList hnodup, lookup_eq_some_iff hnodup, h.mem_iff, get_eq_some_iff]

end OrderedMap

end Aseman
