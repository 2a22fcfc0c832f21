import Aseman.Storage.Memory

/-!
# The engine

`engine.rs`: the calls of a transaction, as programs over the atomic operations of a provider. A call
that reads before it writes makes several of them, and other transactions may commit in between. The
mode of the transaction is an argument, and so is the id that `Id::generate` returns.
-/

namespace Aseman.Storage

variable {I : Type}

abbrev Code (I α : Type) := Prog (Op I) Op.Ans StorageError α

/-! ## Operations -/

def begin {ε : Type} (mode : Mode) : Prog (Op I) Op.Ans ε Unit := Prog.perform (Op.begin mode)

def get (model : Model) (id : I) : Code I (Option (Capsule I)) := Prog.perform (Op.get model id)

def find (model : Model) (query : FindMany I) : Code I (List (Capsule I)) :=
  Prog.perform (Op.find model query)

def put (model : Model) (w : Write I) : Code I Unit := do
  Prog.ofExcept (← Prog.perform (Op.put model w))

/-- `Trx::commit`. -/
def commit : Code I Unit := do Prog.ofExcept (← Prog.perform (Op.commit (I := I)))

/-- `Trx::rollback`. -/
def rollback {ε : Type} : Prog (Op I) Op.Ans ε Unit := Prog.perform (Op.rollback (I := I))

/-- `Storage::now_millis`. -/
def now {ε : Type} : Prog (Op I) Op.Ans ε Int := Prog.perform (Op.now (I := I))

variable [LinearOrder I] (env : Env I)

/-! ## Reading -/

/-- `Trx::model`. -/
def modelOf (name : String) : Code I Model :=
  match env.model name with
  | some model => pure model
  | none => .fail (.invalid ("unknown model " ++ name))

omit [LinearOrder I] in
theorem modelOf_bind {env} {α : Type} {name model} (hmodel : env.model name = some model)
    (f : Model → Code I α) : (modelOf env name >>= f) = f model := by
  rw [modelOf, hmodel]
  rfl

variable (model : Model)

/-- `Trx::check_filter`. -/
def checkFilter (filter : Option (Where I)) : Code I Unit :=
  match (filter.elim [] Where.names).find? fun name => name ≠ "id" && !model.has name with
  | some unknown => .fail (model.invalid ("unknown field " ++ unknown))
  | none => pure ()

/-- `Trx::direct_id`. -/
def directId : Unique I → Code I (Option I)
  | .id id => pure (some id)
  | .key key =>
    match model.keyFamily with
    | some family => pure (some (env.forKey family key))
    | none => .fail (.invalid (model.name ++ " has no natural key"))
  | .fields _ => pure none

omit [LinearOrder I] in
theorem directId_eq (unique : Unique I) : ∃ r, directId env model unique = .done r := by
  unfold directId
  split
  · exact ⟨_, rfl⟩
  · split <;> exact ⟨_, rfl⟩
  · exact ⟨_, rfl⟩

/-- `Trx::live`. -/
def live (id : I) : Code I (Option (Row I)) := do
  match ← get model id with
  | some capsule => pure (if capsule.tombstone then none else some (decode model capsule))
  | none => pure none

/-- The record that the fields of a unique index name. -/
def findByFields (fields : Data I) : Code I (Option (Row I)) :=
  if model.unique.any fun index => index.insertionSort (· ≤ ·) = fields.keys then do
    let filter := Where.all (fields.entries.map fun e => .field e.1 (.equals e.2))
    let found ← find model { filter := filter, take := some 1 }
    pure (found.head?.map (decode model))
  else .fail (model.invalid ("(" ++ ", ".intercalate fields.keys ++ ") is not a unique index"))

/-- `Trx::find_unique`. -/
def findUnique (model : String) (unique : Unique I) : Code I (Option (Row I)) := do
  let model ← modelOf env model
  let id ← directId env model unique
  match id, unique with
  | some id, _ => live model id
  | none, .fields fields => findByFields model fields
  | none, _ => pure none

/-- `Trx::find_many`. -/
def findMany (model : String) (query : FindMany I) : Code I (List (Row I)) := do
  let model ← modelOf env model
  checkFilter model query.filter
  match query.orderBy.find? fun order => !model.has order.field with
  | some order =>
    .fail (model.invalid ("cannot order by unknown field " ++ order.field))
  | none => do pure ((← find model query).map (decode model))

/-- `Trx::count`. -/
def count (model : String) (filter : Option (Where I)) : Code I Nat := do
  let model ← modelOf env model
  checkFilter model filter
  Prog.perform (Op.count model filter)

/-! ## Writing -/

variable (mode : Mode) (model : Model)

/-- `Trx::writable`. -/
def writable : Code I Unit :=
  if mode = .readOnly then
    .fail (model.invalid "a read-only transaction cannot write")
  else pure ()

/-- Fails for a model that accepts only creates. -/
def notAppendOnly : Code I Unit :=
  if model.appendOnly then .fail (.invalid (model.name ++ " is append-only")) else pure ()

/-! The checks make no operation. -/

omit [LinearOrder I] in
theorem writable_eq : ∃ r, writable (I := I) mode model = .done r := by
  unfold writable
  split <;> exact ⟨_, rfl⟩

omit [LinearOrder I] in
theorem notAppendOnly_eq : ∃ r, notAppendOnly (I := I) model = .done r := by
  unfold notAppendOnly
  split <;> exact ⟨_, rfl⟩

/-- The id of a new record: a keyed model takes it from `key`. -/
def newId (data : Data I) (generated : I) : Code I I :=
  match model.keyFamily with
  | none => pure generated
  | some family =>
    match (data.get "key").bind Value.asText with
    | some key => pure (env.forKey family key)
    | none => .fail (model.invalid "a keyed record needs `key`")

omit [LinearOrder I] in
theorem newId_eq (data : Data I) (generated : I) :
    ∃ r, newId env model data generated = .done r := by
  unfold newId
  split
  · exact ⟨_, rfl⟩
  · split <;> exact ⟨_, rfl⟩

/-- `Trx::create`. -/
def create (model : String) (data : Data I) (generated : I) : Code I (Row I) := do
  let model ← modelOf env model
  writable mode model
  Prog.ofExcept (validate model data true)
  let id ← newId env model data generated
  let previous ← get model id
  if previous.any fun previous => !previous.tombstone then
    .fail (.conflict (model.name ++ ": record " ++ env.idText id ++ " exists"))
  else do
    let capsule := encode model id previous data
    put model ⟨model.name, capsule, previous.map (·.revision), none⟩
    pure (decode model capsule)

/-- Whether an update changes the natural key of a record. -/
def changesKey (current data : Data I) : Bool :=
  match data.get "key", current.get "key" with
  | some (.text new), some (.text old) => new ≠ old
  | _, _ => false

/-- The data with an update merged in; a null clears a field. -/
def merge (current data : Data I) : Data I :=
  data.entries.foldl
    (fun merged e => if e.2.isNull then merged.remove e.1 else merged.insert e.1 e.2) current

omit [LinearOrder I] in
theorem field_merge (current data : Data I) (name : String) :
    (merge current data).field name = ((data.get name).getD (current.field name)) := by
  have hfold : ∀ (entries : List (String × Value I)) (current : Data I),
      (entries.map Prod.fst).Nodup →
      (entries.foldl (fun merged e => if e.2.isNull then merged.remove e.1 else
        merged.insert e.1 e.2) current).field name =
      ((entries.lookup name).getD (current.field name)) := by
    intro entries
    induction entries with
    | nil => exact fun _ _ => rfl
    | cons e entries ih =>
      intro current hnodup
      simp only [List.map_cons, List.nodup_cons] at hnodup
      rw [List.foldl_cons, ih _ hnodup.2, OrderedMap.lookup_cons_eq]
      by_cases hname : name = e.1
      · have hnone : entries.lookup name = none := by
          rw [List.lookup_eq_none_iff]
          rintro p hp
          rw [bne_iff_ne]
          rintro rfl
          exact hnodup.1 (hname ▸ List.mem_map_of_mem hp)
        rw [hnone, if_pos hname, Option.getD_none, Option.getD_some]
        split
        · next hnull =>
          rw [Data.field, OrderedMap.get_remove, if_pos hname]
          obtain ⟨_, value⟩ := e
          cases value <;> simp_all [Value.isNull]
        · rw [Data.field, OrderedMap.get_insert, if_pos hname, Option.getD_some]
      · rw [if_neg hname]
        congr 1
        split
        · rw [Data.field, OrderedMap.get_remove, if_neg hname, ← Data.field]
        · rw [Data.field, OrderedMap.get_insert, if_neg hname, ← Data.field]
  exact hfold data.entries current data.nodup_keys

/-- `Trx::rewrite`. -/
def rewrite (model : String) (current : Row I) (data : Data I) : Code I (Row I) := do
  let model ← modelOf env model
  writable mode model
  notAppendOnly model
  Prog.ofExcept (validate model data false)
  if changesKey current.data data then
    .fail (model.invalid "a record's key never changes")
  else do
    let merged := merge current.data data
    Prog.ofExcept (validate model merged true)
    match ← get model current.id with
    | none => .fail (.notFound (env.idText current.id))
    | some previous => do
        let capsule := encode model current.id (some previous) merged
        put model ⟨model.name, capsule, some previous.revision, some data⟩
        pure (decode model capsule)

/-- `Trx::update`. -/
def update (model : String) (unique : Unique I) (data : Data I) : Code I (Option (Row I)) := do
  match ← findUnique env model unique with
  | none => pure none
  | some current => do pure (some (← rewrite env mode model current data))

def withSelector (create : Data I) : Unique I → Code I (Data I)
  | .fields fields =>
    pure (fields.entries.foldl
      (fun data e => if data.contains e.1 then data else data.insert e.1 e.2) create)
  | .key key =>
    pure (if create.contains "key" then create else create.insert "key" (.text key))
  | .id _ => .fail (.invalid "upsert by id cannot create: ids are assigned by the model")

omit [LinearOrder I] in
theorem withSelector_eq (create : Data I) (unique : Unique I) :
    ∃ r, withSelector create unique = .done r := by
  cases unique <;> exact ⟨_, rfl⟩

/-- `Trx::upsert`. -/
def upsert (model : String) (unique : Unique I) (createData updateData : Data I) (generated : I) :
    Code I (Row I) := do
  match ← findUnique env model unique with
  | some current => rewrite env mode model current updateData
  | none => do
      let data ← withSelector createData unique
      create env mode model data generated

/-- `Trx::delete`. -/
def delete (model : String) (unique : Unique I) : Code I (Option (Row I)) := do
  match ← findUnique env model unique with
  | none => pure none
  | some current => do
      let model ← modelOf env model
      writable mode model
      notAppendOnly model
      match ← get model current.id with
      | none => .fail (.notFound (env.idText current.id))
      | some previous => do
          put model ⟨model.name, tombstone model previous, some previous.revision, none⟩
          pure (some current)

/-! ## Writing many records -/

/-- Rows that one step reads of a walk. -/
def page : Nat := 1000

/-- `Trx::all`, for at most `pages` pages; `rows` are those read so far. -/
def all (model : String) (filter : Option (Where I)) : Nat → List (Row I) → Code I (List (Row I))
  | 0, _ => .fail .unbounded
  | pages + 1, rows => do
      let found ← findMany env model { filter := filter, skip := rows.length, take := some page }
      if found.length < page then pure (rows ++ found) else all model filter pages (rows ++ found)

omit [LinearOrder I] in
theorem all_of_unknown {name} (h : env.model name = none) (filter : Option (Where I)) (pages : Nat)
    (rows : List (Row I)) : ∃ e, all env name filter pages rows = .done (.error e) := by
  cases pages with
  | zero => exact ⟨_, rfl⟩
  | succ pages =>
    rw [all, findMany, modelOf, h]
    exact ⟨_, rfl⟩

/-- `Trx::update_many`. -/
def updateMany (model : String) (filter : Option (Where I)) (data : Data I) (pages : Nat) :
    Code I Nat := do
  let rows ← all env model filter pages []
  Prog.each (fun row => do let _ ← rewrite env mode model row data) rows
  pure rows.length

/-- `Trx::delete_many`. -/
def deleteMany (model : String) (filter : Option (Where I)) (pages : Nat) : Code I Nat := do
  let rows ← all env model filter pages []
  Prog.each (fun row => do let _ ← delete env mode model (.id row.id)) rows
  pure rows.length

/-! ## Capsules -/

/-- `Trx::capsule`. -/
def capsule (model : String) (id : I) : Code I (Option (Capsule I)) := do
  get (← modelOf env model) id

/-- `Trx::capsules`. -/
def capsules (model : String) (query : FindMany I) : Code I (List (Capsule I)) := do
  let model ← modelOf env model
  checkFilter model query.filter
  find model query

/-- `Trx::put_capsule`. -/
def putCapsule (capsule : Capsule I) (expected : Option Nat) : Code I Unit := do
  let model ← modelOf env capsule.kind
  writable mode model
  Prog.ofExcept
    (if capsule.tombstone then .ok () else validate model (decode model capsule).data true)
  put model ⟨model.name, capsule, expected, none⟩

end Aseman.Storage
