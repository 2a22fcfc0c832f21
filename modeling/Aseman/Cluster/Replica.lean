import Aseman.Lib.Json
import Aseman.Lib.OrderedMap
import Aseman.Lib.Run
import Aseman.Lib.Writes
import Mathlib.Data.String.Basic

/-!
# A replica of the storage cluster

Every write of the replicated store is an entry of one log, and every replica applies the entries to its
own key/value database, in log order. How far it has come is kept in another database, which is written
once at the end of an `apply` call. A replica that crashes before that starts again behind what its
key/value database holds, and applies entries that it has applied before.

Entries written again lead back to the state they led to. But a batch may have preconditions, and those
are checked again against a state that came later. If every batch comes out as it did the first time, the
replica has, once it has caught up, the state in which every entry was applied exactly once.
-/

namespace Aseman.Cluster

abbrev Bytes := List UInt8

/-- The functions of the base64 and SHA-256 libraries. -/
structure Env where
  decode : String → Option Bytes
  sha256 : Bytes → Vector UInt8 32

/-! ## The replicated commands -/

/-- One key/value mutation inside a replicated write-set. -/
inductive KvOp where
  | put (key valueB64 : String)
  | del (key : String)

/-- A precondition of a batch: the hash of the value at the key, `none` when the key is absent. -/
structure KvExpect where
  key : String
  sha256B64 : Option String

inductive ClusterCommand where
  | noop
  | kvBatch (origin : UInt64) (ops : List KvOp) (expects : List KvExpect)
  | configPut (key : String) (value : Json.Value)

structure ClusterResponse where
  isOk : Bool
  message : Option String
  deriving DecidableEq

def ClusterResponse.ok : ClusterResponse := ⟨true, none⟩

def ClusterResponse.err (message : String) : ClusterResponse := ⟨false, some message⟩

def preconditionFailed : String := "kv precondition failed"

/-! ## The key/value store

A replicated key is a text, and stands for its bytes. -/

abbrev KvStore := String → Option Bytes

structure KvExpectation where
  key : String
  digest : Option (Vector UInt8 32)

variable (env : Env)

def KvExpectation.metBy (e : KvExpectation) (value : Option Bytes) : Bool :=
  value.map env.sha256 == e.digest

def writeBatch (writes : List (Write String Bytes)) (kv : KvStore) : KvStore :=
  Write.applyAll writes kv

def writeBatchIf (expected : List KvExpectation) (writes : List (Write String Bytes))
    (kv : KvStore) : Bool × KvStore :=
  if expected.all fun e => e.metBy env (kv e.key) then (true, writeBatch writes kv) else (false, kv)

def KvOp.decodedValue : KvOp → Bytes
  | .put _ valueB64 => (env.decode valueB64).getD []
  | .del _ => []

def KvOp.toWrite : KvOp → Write String Bytes
  | op@(.put key _) => .put key (op.decodedValue env)
  | .del key => .delete key

/-- The bytes as an array of 32, `try_into`. -/
def toDigest (bytes : Bytes) : Option (Vector UInt8 32) :=
  if h : bytes.length = 32 then some ⟨bytes.toArray, by simpa using h⟩ else none

def KvExpect.toExpectation (e : KvExpect) : Option KvExpectation :=
  match e.sha256B64 with
  | none => some ⟨e.key, none⟩
  | some encoded => ((env.decode encoded).bind toDigest).map fun digest => ⟨e.key, some digest⟩

/-- `KvApplier::apply`. -/
def applyCommand (c : ClusterCommand) (kv : KvStore) : ClusterResponse × KvStore :=
  match c with
  | .noop => (.ok, kv)
  | .configPut .. => (.ok, kv)
  | .kvBatch _ ops expects =>
    let batch := ops.map (·.toWrite env)
    if expects.isEmpty then (.ok, writeBatch batch kv)
    else
      match expects.mapM (KvExpect.toExpectation env) with
      | none => (.err "kv batch: malformed precondition", kv)
      | some expected =>
        match writeBatchIf env expected batch kv with
        | (true, kv) => (.ok, kv)
        | (false, kv) => (.err preconditionFailed, kv)

/-! ## The state machine -/

section StateMachine

variable {M : Type}

/-- What an entry of the log carries. -/
inductive Payload (M : Type) where
  | blank
  | membership (m : M)
  | normal (c : ClusterCommand)

/-- An entry with its index in the log. -/
structure Entry (M : Type) where
  index : Nat
  payload : Payload M

/-- The state machine's own data. -/
structure SmSnapshot (M : Type) where
  lastApplied : Option Nat
  membership : Option (Nat × M)
  sharedConfig : OrderedMap String Json.Value

def SmSnapshot.empty : SmSnapshot M := ⟨none, none, ∅⟩

/-- The first entry that is not applied yet. -/
def SmSnapshot.next (s : SmSnapshot M) : Nat := s.lastApplied.elim 0 (· + 1)

/-- A replica: the key/value database, the database of the state machine, and its data in memory. -/
structure Replica (M : Type) where
  kv : KvStore
  persisted : SmSnapshot M
  state : SmSnapshot M

/-- The body of the loop of `StateMachineStore::apply`. -/
def applyEntry (env : Env) (r : Replica M) (e : Entry M) : ClusterResponse × Replica M :=
  let state := { r.state with lastApplied := some e.index }
  match e.payload with
  | .blank => (.ok, { r with state })
  | .membership m => (.ok, { r with state := { state with membership := some (e.index, m) } })
  | .normal c =>
    let state :=
      match c with
      | .configPut key value =>
        { state with sharedConfig := state.sharedConfig.insert key value }
      | _ => state
    let (reply, kv) := applyCommand env c r.kv
    (reply, { r with kv, state })

def applyEntries (env : Env) : List (Entry M) → Replica M → List ClusterResponse × Replica M
  | [], r => ([], r)
  | e :: es, r =>
    let (reply, r) := applyEntry env r e
    let (replies, r) := applyEntries env es r
    (reply :: replies, r)

def persistState (r : Replica M) : Replica M := { r with persisted := r.state }

/-- `StateMachineStore::apply`. -/
def apply (env : Env) (entries : List (Entry M)) (r : Replica M) :
    List ClusterResponse × Replica M :=
  let (replies, r) := applyEntries env entries r
  (replies, persistState r)

/-- `StateMachineStore::new`: what was in memory is gone. -/
def restart (r : Replica M) : Replica M := { r with state := r.persisted }

/-! ## Runs -/

/-- What applying the entry does to the key/value store. -/
def Payload.apply (env : Env) (p : Payload M) (kv : KvStore) : KvStore :=
  match p with
  | .normal c => (applyCommand env c kv).2
  | _ => kv

/-- The store after every entry was applied exactly once, in order. -/
def exactlyOnce (env : Env) (log : List (Payload M)) (kv : KvStore) : KvStore :=
  log.foldl (fun kv p => p.apply env kv) kv

/-- Whether the writes of the entry are made, given what the store holds. -/
def Payload.takesEffect (env : Env) (p : Payload M) (kv : KvStore) : Bool :=
  match p with
  | .normal (.kvBatch _ _ expects) =>
    (expects.mapM (KvExpect.toExpectation env)).any (·.all fun e => e.metBy env (kv e.key))
  | _ => false

/-- A replica, with the number of entries that it has applied at some time. -/
structure Watched (M : Type) extends Replica M where
  furthest : Nat

/-- A new replica. -/
def Watched.initial (kv : KvStore) : Watched M := ⟨⟨kv, .empty, .empty⟩, 0⟩

/-- The replica applies the next entry, ends the call with `persist_state`, or crashes and starts
again. -/
inductive Event where
  | entry
  | persist
  | crash

inductive Step (env : Env) (log : List (Payload M)) : Watched M → Event → Watched M → Prop
  | entry {w : Watched M} {p : Payload M} (hp : log[w.state.next]? = some p) : Step env log w .entry
        ⟨(applyEntry env w.toReplica ⟨w.state.next, p⟩).2, max w.furthest (w.state.next + 1)⟩
  | persist {w : Watched M} : Step env log w .persist ⟨persistState w.toReplica, w.furthest⟩
  | crash {w : Watched M} : Step env log w .crash ⟨restart w.toReplica, w.furthest⟩

/-- The entry that is applied next takes effect as it did when every entry was applied once, if it has
been applied before. -/
def ComesOutAgain (env : Env) (log : List (Payload M)) (kv : KvStore) (w : Watched M) : Prop :=
  w.state.next < w.furthest → ∀ p, log[w.state.next]? = some p →
    p.takesEffect env w.kv = p.takesEffect env (exactlyOnce env (log.take w.state.next) kv)

/-- The steps in which no batch that is applied again comes out differently. -/
def SameStep (env : Env) (log : List (Payload M)) (kv : KvStore) (w : Watched M) (e : Event)
    (w' : Watched M) : Prop :=
  Step env log w e w' ∧ (e = .entry → ComesOutAgain env log kv w)

end StateMachine

end Aseman.Cluster
