import Aseman.Storage.Optimistic

/-!
# Rows that a transaction knows

As long as the others leave alone what a transaction has read, a row that it has read is still what it
sees of the record, until it writes the record itself. `Learns` is the rule for the reading calls of the
engine: they keep what is known, and what they return is known as well.
-/

namespace Aseman.Storage

variable {I : Type} [LinearOrder I] {env : Env I} {T : Terms I} {Call ε ρ : Type}
  {prog : Call → Prog (Op I) Op.Ans ε ρ} {R : Option (Capsule I) → Write I → Prop}
  {K : Row I → Capsule I → Prop} {model : Model} {rows : List (Row I)}

/-- The transaction has read the row, and `K` relates the row to the capsule it sees. -/
def Knows (K : Row I → Capsule I → Prop) (model : Model) (row : Row I) (s : Shared I) (trx : Trx I) :
    Prop :=
  (model.name, row.id) ∈ trx.reads ∧ ∃ c,
    (trx.view s.committed).get (model.name, row.id) = some c ∧ K row c

/-- The transaction may go on, its buffer is sound, and the rows are known. -/
structure Holds (T : Terms I) (R : Option (Capsule I) → Write I → Prop)
    (K : Row I → Capsule I → Prop) (model : Model) (rows : List (Row I)) (s : Shared I) (trx : Trx I) :
    Prop where
  isOpen : trx.Open T
  sound : SoundWrites R s.committed trx.writes
  knows : ∀ row ∈ rows, Knows K model row s trx

variable {s : Shared I} {trx : Trx I}

variable (h : Holds T R K model rows s trx)

include h

/-- What is known stays known while others commit, and when more is read. -/
theorem Holds.read {t} (hrely : Rely trx s t) {reads}
    (hreads : trx.reads ⊆ reads) : Holds T R K model rows t { trx with reads := reads } where
  isOpen := h.isOpen
  sound := SoundWrites.rising h.sound hrely.2
  knows row hrow := by
    obtain ⟨hread, c, hget, hc⟩ := h.knows row hrow
    exact ⟨hreads hread, c, (hrely.get_view hread).trans hget, hc⟩

theorem Holds.append {rows'}
    (h' : ∀ row ∈ rows', Knows K model row s trx) : Holds T R K model (rows ++ rows') s trx :=
  ⟨h.isOpen, h.sound, fun row hrow => (List.mem_append.mp hrow).elim (h.knows row) (h' row)⟩

theorem Holds.subset {rows'} (hsub : rows' ⊆ rows) : Holds T R K model rows' s trx :=
  ⟨h.isOpen, h.sound, fun row hrow => h.knows row (hsub hrow)⟩

omit h

def rowsOf {α : Type} (rows : α → List (Row I)) : Except StorageError α → List (Row I)
  | .ok a => rows a
  | .error _ => []

/-- The program keeps what is known, and what it returns is known as well. -/
def Learns (env : Env I) (T : Terms I) (prog : Call → Prog (Op I) Op.Ans ε ρ)
    (R : Option (Capsule I) → Write I → Prop) (K : Row I → Capsule I → Prop) (model : Model)
    {α : Type} (found : α → List (Row I)) (p : Code I α) : Prop :=
  ∀ rows b s trx, Holds T R K model rows s trx → Safe (calm env T prog)
    (fun r _ s trx => Holds T R K model (rows ++ rowsOf found r) s trx) p b s trx

namespace Learns

variable {α β : Type} {found : α → List (Row I)} {found' : β → List (Row I)}

theorem done {r} (h : rowsOf found r = []) :
    Learns env T prog R K model found (.done r) := fun rows b s trx hs => by
  change Holds T R K model (rows ++ rowsOf found r) s trx
  rwa [h, List.append_nil]

theorem test {p : Code I α} (h : ∃ r, p = .done r) :
    Learns env T prog R K model (fun _ => []) p := by
  obtain ⟨r, rfl⟩ := h
  cases r <;> exact done rfl

theorem bind {p : Code I α} {f : α → Code I β} (h : Learns env T prog R K model (fun _ => []) p)
    (hf : ∀ a, Learns env T prog R K model found' (f a)) :
    Learns env T prog R K model found' (p >>= f) := by
  intro rows b s trx hs
  refine (h rows b s trx hs).bind (fun a b s trx hs => ?_) fun e b s trx hs => hs
  rw [rowsOf, List.append_nil] at hs
  exact hf a rows b s trx hs

theorem live (id : I) (hK : ∀ c, c.tombstone = false → K (decode model c) c) :
    Learns env T prog R K model Option.toList (Storage.live model id) := by
  intro rows b s trx hs
  refine Safe.bind (Q := fun r _ s trx => Holds T R K model rows s trx ∧ Placed s.committed ∧
    (model.name, id) ∈ trx.reads ∧ r = .ok ((trx.view s.committed).get (model.name, id)))
    (safe_get hs.isOpen fun t ht hrely => ⟨hs.read hrely (List.subset_cons_self _ _), ht,
      List.mem_cons_self, rfl⟩) (fun a b s trx hs => ?_) fun e b s trx hs => ?_
  · obtain ⟨hs, hplaced, hread, heq⟩ := hs
    cases heq
    split
    · next c hget =>
      obtain rfl : c.id = id := (hplaced.applyWrites _) _ _ hget
      split
      · exact done rfl rows b s trx hs
      · next hlive =>
        refine hs.append fun row hrow => ?_
        obtain rfl := List.mem_singleton.mp hrow
        exact ⟨hread, c, hget, hK c (by simpa using hlive)⟩
    · exact done rfl rows b s trx hs
  · cases hs.2.2.2

theorem find (query : FindMany I) (hK : ∀ c, c.tombstone = false →
      (query.filter.all fun filter => keeps env.lower filter (decode model c)) →
      K (decode model c) c) :
    Learns env T prog R K model (fun found => found.map (decode model))
      (Storage.find model query) := by
  intro rows b s trx hs
  refine Safe.perform fun t ht hrely _ => ⟨⟨ht, hs.isOpen, rfl⟩, ?_⟩
  refine (hs.read hrely (List.subset_append_right _ _)).append fun row hrow => ?_
  obtain ⟨c, hc, rfl⟩ := List.mem_map.mp hrow
  obtain ⟨hlive, hkeeps, ⟨kind, id⟩, rfl, hget⟩ := mem_findIn env hc
  have hplaced : Placed (trx.view t.committed) := Placed.applyWrites ht _
  obtain rfl : c.id = id := hplaced _ _ hget
  exact ⟨List.mem_append_left _ (List.mem_map.mpr ⟨c, hc, rfl⟩), c, hget, hK c hlive hkeeps⟩

theorem findByFields (fields : Data I) (hK : ∀ c, c.tombstone = false → K (decode model c) c) :
    Learns env T prog R K model Option.toList (Storage.findByFields model fields) := by
  unfold Storage.findByFields
  split
  · intro rows b s trx hs
    refine (find _ (fun c h _ => hK c h) rows b s trx hs).bind (fun found b s trx hs => ?_)
      fun e b s trx hs => hs
    refine hs.subset fun row hrow => ?_
    rcases List.mem_append.mp hrow with hrow | hrow
    · exact List.mem_append_left _ hrow
    · refine List.mem_append_right _ ?_
      cases found with
      | nil => cases hrow
      | cons c found =>
        obtain rfl := List.mem_singleton.mp hrow
        exact List.mem_cons_self
  · exact done rfl

theorem findUnique {name : String} (hmodel : env.model name = some model) (unique : Unique I)
    (hK : ∀ c, c.tombstone = false → K (decode model c) c) :
    Learns env T prog R K model Option.toList (Storage.findUnique env name unique) := by
  rw [Storage.findUnique, modelOf_bind hmodel]
  refine bind (test (directId_eq ..)) fun id => ?_
  split
  · exact live _ hK
  · exact findByFields _ hK
  · exact done rfl

theorem checkFilter (filter : Option (Where I)) :
    Learns env T prog R K model (fun _ => []) (Storage.checkFilter model filter) := by
  unfold Storage.checkFilter
  split <;> exact done rfl

theorem findMany {name : String} (hmodel : env.model name = some model) (query : FindMany I)
    (hK : ∀ c, c.tombstone = false →
      (query.filter.all fun filter => keeps env.lower filter (decode model c)) →
      K (decode model c) c) :
    Learns env T prog R K model id (Storage.findMany env name query) := by
  rw [Storage.findMany, modelOf_bind hmodel]
  refine bind (checkFilter _) fun _ => ?_
  split
  · exact done rfl
  · intro rows b s trx hs
    exact (find _ hK rows b s trx hs).bind (fun found b s trx hs => hs) fun e b s trx hs => hs

theorem all {name} (hmodel : env.model name = some model) (filter : Option (Where I))
    (hK : ∀ c, c.tombstone = false →
      (filter.all fun filter => keeps env.lower filter (decode model c)) → K (decode model c) c)
    (pages : Nat) (before : List (Row I)) {rows b s trx}
    (h : Holds T R K model (rows ++ before) s trx) :
    Safe (calm env T prog) (fun r _ s trx => Holds T R K model (rows ++ rowsOf id r) s trx)
      (Storage.all env name filter pages before) b s trx := by
  induction pages generalizing before b s trx with
  | zero => exact h.subset (by simp [rowsOf])
  | succ pages ih =>
    refine (findMany hmodel _ hK _ b s trx h).bind (fun found b s trx hs => ?_)
      fun e b s trx hs => hs.subset (by simp [rowsOf])
    have hs : Holds T R K model (rows ++ (before ++ found)) s trx := by
      rwa [List.append_assoc] at hs
    split
    · exact hs
    · exact ih _ hs

end Learns

/-! ## Deleting what is known -/

def deletion (model : Model) (c : Capsule I) : Write I :=
  ⟨model.name, tombstone model c, some c.revision, none⟩

theorem Holds.push_deletion {id c} (h : Holds T R K model rows s trx) (hid : c.id = id)
    (hget : (trx.view s.committed).get (model.name, id) = some c)
    (hR : R (some c) (deletion model c)) (hgone : ∀ row, K row (tombstone model c)) :
    Holds T R K model rows s { trx with writes := trx.writes ++ [deletion model c] } where
  isOpen := h.isOpen
  sound := by
    have hkey : (deletion model c).key = (model.name, id) := Prod.ext rfl hid
    refine SoundWrites.push h.sound
      ⟨by simp [Write.Rises, deletion, tombstone], some c, ?_, rfl, hR⟩
    rw [hkey, ← hget]
    exact Seen.of_view trx s.committed _
  knows row hrow := by
    obtain ⟨hread, c', hget', hc'⟩ := h.knows row hrow
    refine ⟨hread, ?_⟩
    by_cases heq : (deletion model c).key = (model.name, row.id)
    · exact ⟨_, Trx.get_view_push.trans (if_pos heq), hgone row⟩
    · exact ⟨c', (Trx.get_view_push.trans (if_neg heq)).trans hget', hc'⟩

/-- A known row is deleted, unless the transaction has deleted it before. -/
theorem safe_delete_known {mode name} (hmodel : env.model name = some model) {row}
    (hrow : row ∈ rows) {b}
    (hR : ∀ c, c.tombstone = false → K row c → R (some c) (deletion model c))
    (hgone : ∀ row c, K row (tombstone model c)) (h : Holds T R K model rows s trx) :
    Safe (calm env T prog) (fun _ _ s trx => Holds T R K model rows s trx)
      (delete env mode name (.id row.id)) b s trx := by
  have hfind : findUnique env name (.id row.id) = live model row.id := by
    rw [findUnique, modelOf_bind hmodel]
    rfl
  obtain ⟨hread, c, hc, hK⟩ := h.knows row hrow
  -- both reads of the record see the capsule that is known
  have hget : ∀ b s trx, Holds T R K model rows s trx → (model.name, row.id) ∈ trx.reads →
      (trx.view s.committed).get (model.name, row.id) = some c → Safe (calm env T prog)
      (fun r _ s trx => r = .ok (some c) ∧ Holds T R K model rows s trx ∧ c.id = row.id ∧
        (model.name, row.id) ∈ trx.reads ∧ (trx.view s.committed).get (model.name, row.id) = some c)
      (get model row.id) b s trx := fun b s trx h hread hc => safe_get h.isOpen fun t ht hrely => by
    have hc' := (hrely.get_view hread).trans hc
    exact ⟨congrArg _ hc', h.read hrely (List.subset_cons_self _ _), (Placed.applyWrites ht _) _ _ hc',
      List.mem_cons_self, hc'⟩
  rw [delete, hfind]
  refine Safe.bind (Q := fun r _ s trx => r = .ok (if c.tombstone then none else some (decode model c)) ∧
      Holds T R K model rows s trx ∧ c.id = row.id ∧ (model.name, row.id) ∈ trx.reads ∧
        (trx.view s.committed).get (model.name, row.id) = some c) ?_ ?_ fun _ _ _ _ h => h.2.1
  · refine (hget b s trx h hread hc).bind ?_ fun _ _ _ _ h => by cases h.1
    rintro _ b s trx ⟨⟨⟩, hs⟩
    exact ⟨rfl, hs⟩
  · rintro _ b s trx ⟨⟨⟩, hs, hid, hread, hc⟩
    split
    · exact hs
    · next row' hrow' =>
      split at hrow'
      · cases hrow'
      · next hlive =>
        cases hrow'
        rw [modelOf_bind hmodel]
        change Safe _ _ (writable mode model >>= fun _ => notAppendOnly model >>= fun _ =>
          get model c.id >>= _) b s trx
        rw [hid]
        refine Safe.test (writable_eq ..) (fun _ => hs) fun _ _ => Safe.test (notAppendOnly_eq ..)
          (fun _ => hs) fun _ _ => (hget b s trx hs hread hc).bind ?_ fun _ _ _ _ h => h.2.1
        rintro _ b s trx ⟨⟨⟩, hs, -, hread, hc⟩
        refine Safe.bind (Q := fun _ _ s trx => Holds T R K model rows s trx)
          (safe_put rfl hs.isOpen (fun t _ hrely _ _ => ?_) fun t e hrely => ?_)
          (fun _ _ _ _ h => h) fun _ _ _ _ h => h
        · exact (hs.read hrely (List.Subset.refl _)).push_deletion hid
            ((hrely.get_view hread).trans hc) (hR c (by simpa using hlive) hK) fun row => hgone row c
        · exact hs.read hrely (List.Subset.refl _)

theorem safe_deleteMany {mode name} (hmodel : env.model name = some model)
    (filter : Option (Where I)) (pages : Nat) (hK : ∀ c, c.tombstone = false →
      (filter.all fun filter => keeps env.lower filter (decode model c)) → K (decode model c) c)
    (hR : ∀ row c, c.tombstone = false → K row c → R (some c) (deletion model c))
    (hgone : ∀ row c, K row (tombstone model c)) {b} (hopen : trx.Open T)
    (hsound : SoundWrites R s.committed trx.writes) :
    Safe (calm env T prog) (fun _ _ s trx => trx.Open T ∧ SoundWrites R s.committed trx.writes)
      (deleteMany env mode name filter pages) b s trx := by
  have hall : Safe (calm env T prog)
      (fun r _ s trx => Holds T R K model ([] ++ rowsOf id r) s trx)
      (all env name filter pages []) b s trx :=
    Learns.all hmodel filter hK pages [] ⟨hopen, hsound, by simp⟩
  refine hall.bind (fun rows b s trx hs => ?_) fun _ _ _ _ h => ⟨h.isOpen, h.sound⟩
  refine Safe.bind
    (Safe.each (fun row hrow b s trx h => ?_) hs) (fun _ _ _ _ h => ⟨h.isOpen, h.sound⟩)
    fun _ _ _ _ h => ⟨h.isOpen, h.sound⟩
  exact (safe_delete_known hmodel hrow (hR row) hgone h).bind (fun _ _ _ _ h => h) fun _ _ _ _ h => h

end Aseman.Storage
