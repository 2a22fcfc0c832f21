import Aseman.Lib.Interleaving
import Aseman.Lib.Store
import Aseman.Storage.Schema

/-!
# The memory provider

`memory.rs`: the committed capsules, and transactions that read them with their own writes on top and
write them all at once, if nothing they replace has changed. Every operation is atomic, under the lock
of the committed map; a transaction's buffer is its own.

Of a transaction is also kept which records it has read and whether it has been committed, and of a
write by an update the fields that the update named. No operation depends on any of these: they are
there to speak about.
-/

namespace Aseman.Storage

variable (I : Type)

/-- The kind and the id of a record. -/
abbrev Key := String × I

abbrev Capsules := Store (Key I) (Capsule I)

inductive Mode
  | readWrite
  | readOnly
  deriving DecidableEq

/-- A buffered write: the kind, the capsule and the revision it expects to replace. -/
structure Write where
  kind : String
  capsule : Capsule I
  expected : Option Nat
  /-- Of an update: what it was told to change. -/
  named : Option (Data I)

/-- `MemoryTransaction`, with the `finished` flag of the engine's `Trx`. -/
structure Trx where
  mode : Mode := .readWrite
  writes : List (Write I) := []
  finished : Bool := false
  reads : List (Key I) := []
  succeeded : Bool := false

/-- What the transactions share: the committed capsules, and the clock of the provider. -/
structure Shared where
  committed : Capsules I
  clock : Int := 0

/-- What the storage does not compute. -/
structure Env where
  /-- `Schema::model`. -/
  model : String → Option Model
  /-- The schema finds a model by its name. -/
  named : ∀ name m, model name = some m → m.name = name
  /-- `Id::for_key`, of a family and a key. -/
  forKey : String → String → I
  /-- `str::to_lowercase`. -/
  lower : String → String
  /-- `Display` of an id. -/
  idText : I → String

/-- The atomic operations on a provider and its transactions. -/
inductive Op
  | begin (mode : Mode)
  | get (model : Model) (id : I)
  | find (model : Model) (query : FindMany I)
  | count (model : Model) (filter : Option (Where I))
  | put (model : Model) (write : Write I)
  | commit
  | rollback
  /-- `StorageProvider::now_millis`. -/
  | now

variable {I}

/-- What the operations answer. -/
@[reducible] def Op.Ans : Op I → Type
  | begin _ => Unit
  | get _ _ => Option (Capsule I)
  | find _ _ => List (Capsule I)
  | count _ _ => Nat
  | put _ _ => Except StorageError Unit
  | commit => Except StorageError Unit
  | rollback => Unit
  | now => Int

def Write.key (w : Write I) : Key I := (w.kind, w.capsule.id)

/-- Rows a query without `take` returns at most. -/
def defaultTake : Nat := 10000

variable [LinearOrder I]

def applyWrites (committed : Capsules I) (writes : List (Write I)) : Capsules I :=
  writes.foldl (fun m w => m.put w.key w.capsule) committed

/-- `MemoryTransaction::view`, of all models. -/
def Trx.view (trx : Trx I) (committed : Capsules I) : Capsules I :=
  applyWrites committed trx.writes

variable (env : Env I)

def liveRows (model : Model) (filter : Option (Where I)) (view : Capsules I) :
    List (Row I × Capsule I) :=
  (view.toList.filter fun e => e.1.1 = model.name && !e.2.tombstone).filterMap fun e =>
    let row := decode model e.2
    if filter.all fun filter => keeps env.lower filter row then some (row, e.2) else none

/-- `MemoryTransaction::find`. -/
def findIn (model : Model) (query : FindMany I) (view : Capsules I) : List (Capsule I) :=
  let rows := (liveRows env model query.filter view).insertionSort fun a b =>
    compareRows a.1 b.1 query.orderBy ≠ .gt
  ((rows.drop query.skip).take (query.take.getD defaultTake)).map Prod.snd

theorem mem_findIn {model query view c} (h : c ∈ findIn env model query view) :
    c.tombstone = false ∧ (query.filter.all fun filter => keeps env.lower filter (decode model c)) ∧
      ∃ k, k.1 = model.name ∧ view.get k = some c := by
  obtain ⟨⟨row, c'⟩, hmem, rfl⟩ := List.mem_map.mp h
  have hlive := (List.mem_insertionSort _).mp (List.mem_of_mem_drop (List.mem_of_mem_take hmem))
  obtain ⟨⟨k, c⟩, he, heq⟩ := List.mem_filterMap.mp hlive
  obtain ⟨hget, hkind⟩ := List.mem_filter.mp he
  simp only [Bool.and_eq_true, decide_eq_true_eq, Bool.not_eq_true'] at hkind
  dsimp only at heq
  split at heq
  · next hkeeps =>
    cases heq
    exact ⟨hkind.2, hkeeps, k, hkind.1, Store.mem_toList_iff.mp hget⟩
  · cases heq

/-- Whether another record of the model claims a value that `row` claims. -/
def collides (model : Model) (row : Row I) (view : Capsules I) : Bool :=
  (liveRows env model none view).any fun other =>
    other.1.id ≠ row.id && (uniqueClaims model other.1).any fun claim =>
      (uniqueClaims model row).any fun own =>
        claim.1 = own.1 && claim.2.length = own.2.length &&
          (claim.2.zip own.2).all fun values => values.1.same values.2

/-- `MemoryTransaction::put`, up to the push on the buffer. -/
def checkPut (trx : Trx I) (model : Model) (w : Write I) (view : Capsules I) :
    Except StorageError Unit :=
  if trx.mode = .readOnly then .error (.invalid "read-only transaction")
  else if (view.get (model.name, w.capsule.id)).map (·.revision) ≠ w.expected then
    .error (.conflict (model.name ++ ": stale revision"))
  else if ¬ w.capsule.tombstone ∧ collides env model (decode model w.capsule) view then
    .error (.conflict (model.name ++ ": a unique index already holds these values"))
  else .ok ()

theorem checkPut_eq_ok {trx model w view} (h : checkPut env trx model w view = .ok ()) :
    (view.get (model.name, w.capsule.id)).map (·.revision) = w.expected := by
  unfold checkPut at h
  split at h
  · cases h
  · split at h
    · cases h
    · next hrevision => exact not_ne_iff.mp hrevision

/-- The first loop of `commit`: every write expects the revision that the ones before it leave. -/
def checkRevisions (committed : Capsules I) : List (Write I) → Except StorageError Unit
  | [] => .ok ()
  | w :: writes =>
    if (committed.get w.key).map (·.revision) ≠ w.expected then
      .error (.conflict (w.kind ++ ": another transaction changed " ++ env.idText w.capsule.id))
    else checkRevisions (committed.put w.key w.capsule) writes

/-- Whether a unique index of a kind would hold one claim for two records: their texts are the same. -/
def sameClaim (a b : String × Nat × List (Value I)) : Bool :=
  a.1 = b.1 && a.2.1 = b.2.1 && a.2.2.length = b.2.2.length &&
    (a.2.2.zip b.2.2).all fun values => values.1.sameText values.2

/-- The claims of one live capsule in the second loop of `commit`, added to the ones before it. -/
def addClaims (e : Key I × Capsule I) (claims : List (String × Nat × List (Value I))) :
    List (Nat × List (Value I)) → Except StorageError (List (String × Nat × List (Value I)))
  | [] => .ok claims
  | claim :: rest =>
    if claims.any (sameClaim (e.1.1, claim)) then
      .error (.conflict (e.1.1 ++ ": " ++ env.idText e.1.2 ++ " collides on a unique index"))
    else addClaims e ((e.1.1, claim) :: claims) rest

/-- The second loop of `commit`: unique indexes hold over the resulting state. -/
def checkUnique : List (Key I × Capsule I) → List (String × Nat × List (Value I)) →
    Except StorageError Unit
  | [], _ => .ok ()
  | e :: entries, claims =>
    match env.model e.1.1 with
    | some model =>
      if e.2.tombstone then checkUnique entries claims
      else do
        let claims ← addClaims env e claims (uniqueClaims model (decode model e.2))
        checkUnique entries claims
    | none => checkUnique entries claims

def inOrder (capsules : Capsules I) : List (Key I × Capsule I) :=
  capsules.toList.insertionSort fun a b => a.1.1 < b.1.1 ∨ a.1.1 = b.1.1 ∧ a.1.2 ≤ b.1.2

/-- `MemoryTransaction::commit`: the committed capsules after it, unless it fails. -/
def commitWrites (committed : Capsules I) (writes : List (Write I)) :
    Except StorageError (Capsules I) := do
  checkRevisions env committed writes
  let next := applyWrites committed writes
  checkUnique env (inOrder next) []
  pure next

theorem commitWrites_eq_ok {committed next writes}
    (h : commitWrites env committed writes = .ok next) :
    checkRevisions env committed writes = .ok () ∧ next = applyWrites committed writes := by
  rw [commitWrites] at h
  cases hcheck : checkRevisions env committed writes with
  | error e => rw [hcheck] at h; cases h
  | ok u =>
    rw [hcheck] at h
    cases hunique : checkUnique env (inOrder (applyWrites committed writes)) [] with
    | error e => simp [hunique, bind, Except.bind] at h
    | ok u => simpa [hunique, bind, Except.bind, pure, Except.pure, eq_comm] using h

/-- What the operations do. -/
def exec : (o : Op I) → Shared I → Trx I → o.Ans × Shared I × Trx I
  | .begin mode, s, _ => ((), s, { mode := mode })
  | .get model id, s, trx =>
    ((trx.view s.committed).get (model.name, id), s,
      { trx with reads := (model.name, id) :: trx.reads })
  | .find model query, s, trx =>
    let found := findIn env model query (trx.view s.committed)
    (found, s, { trx with reads := found.map (fun c => (model.name, c.id)) ++ trx.reads })
  | .count model filter, s, trx =>
    ((liveRows env model filter (trx.view s.committed)).length, s, trx)
  | .put model w, s, trx =>
    match checkPut env trx model w (trx.view s.committed) with
    | .ok () => (.ok (), s, { trx with writes := trx.writes ++ [w] })
    | .error e => (.error e, s, trx)
  | .commit, s, trx =>
    if trx.finished then (.error (.invalid "the transaction is already finished"), s, trx)
    else
      let closed : Trx I := { mode := trx.mode, finished := true }
      match commitWrites env s.committed trx.writes with
      | .ok committed => (.ok (), { s with committed := committed }, { closed with succeeded := true })
      | .error e => (.error e, s, closed)
  | .rollback, s, trx => ((), s, { mode := trx.mode, finished := true })
  | .now, s, trx => (s.clock, s, trx)

theorem succeeded_commit {s trx} (h : (exec env .commit s trx).1 = .ok ()) :
    (exec env .commit s trx).2.2.succeeded = true := by
  simp only [exec] at h ⊢
  split at h
  · cases h
  · next hfinished =>
    rw [if_neg hfinished]
    split at h
    · rfl
    · cases h

end Aseman.Storage
