import Aseman.Services.Auto
import Aseman.Vmm.Domain

/-!
# The stores of the VMM service

`aseman-capsule`, `vmm.rs`: compare-and-set on workloads and operations, and idempotency claims. The
comparison is made on one read and the update replaces whatever a second read sees; where no record
changes in between, a replacement that succeeds has replaced what it expects.
-/

namespace Aseman.Services.VmmStore

open Aseman.Storage Aseman.Vmm OrderedMap

variable {I : Type}

/-! ## The rows -/

/-- `core.vmm_workload`. -/
def workloadModel : Model where
  name := "core.vmm_workload"
  keyFamily := some "VmmWorkload"
  fields := .ofList [("key", .text), ("owner", .text), ("creature_id", .text),
    ("observed_state", .text), ("resource_version", .integer), ("record", .document)]
  required := ["key", "owner", "creature_id", "resource_version", "record"]
  unique := [["key"]]
  rangeIndexes := [["owner", "key"]]

/-- `core.vmm_operation`. -/
def operationModel : Model where
  name := "core.vmm_operation"
  keyFamily := some "VmmOperation"
  fields := .ofList [("key", .text), ("owner", .text), ("workload_id", .text), ("state", .text),
    ("created_at_millis", .integer), ("record", .document)]
  required := ["key", "owner", "state", "created_at_millis", "record"]
  unique := [["key"]]
  rangeIndexes := [["owner", "created_at_millis"], ["state", "created_at_millis"],
    ["created_at_millis"]]

/-- `core.vmm_idempotency`. -/
def idempotencyModel : Model where
  name := "core.vmm_idempotency"
  keyFamily := some "VmmIdempotency"
  fields := .ofList [("key", .text), ("owner", .text), ("request_key", .text), ("digest", .bytes),
    ("claimed_at_millis", .integer), ("response_status", .integer), ("response_body", .bytes),
    ("response_content_type", .text), ("response_location", .text)]
  required := ["key", "owner", "request_key", "digest", "claimed_at_millis"]
  unique := [["key"]]
  rangeIndexes := [["claimed_at_millis"]]

/-- `vmm_workload::VmmWorkload`. -/
structure WorkloadRow where
  key : String
  owner : String
  creatureId : String
  observedState : Option String
  resourceVersion : Int
  record : Json.Value

/-- `VmmWorkload::from_row`. -/
def WorkloadRow.fromRow (row : Row I) : Except StorageError WorkloadRow := do
  let key ← required Value.asText workloadModel.name row "key"
  let owner ← required Value.asText workloadModel.name row "owner"
  let creatureId ← required Value.asText workloadModel.name row "creature_id"
  let resourceVersion ← required Value.asInt workloadModel.name row "resource_version"
  let record ← required Value.asJson workloadModel.name row "record"
  pure ⟨key, owner, creatureId, (row.get "observed_state").asText, resourceVersion, record⟩

/-- `vmm_operation::VmmOperation`. -/
structure OperationRow where
  key : String
  owner : String
  workloadId : Option String
  state : String
  createdAtMillis : Int
  record : Json.Value

/-- `VmmOperation::from_row`. -/
def OperationRow.fromRow (row : Row I) : Except StorageError OperationRow := do
  let key ← required Value.asText operationModel.name row "key"
  let owner ← required Value.asText operationModel.name row "owner"
  let state ← required Value.asText operationModel.name row "state"
  let createdAtMillis ← required Value.asInt operationModel.name row "created_at_millis"
  let record ← required Value.asJson operationModel.name row "record"
  pure ⟨key, owner, (row.get "workload_id").asText, state, createdAtMillis, record⟩

/-- `vmm_idempotency::VmmIdempotency`. -/
structure ClaimRow where
  key : String
  owner : String
  requestKey : String
  digest : List UInt8
  claimedAtMillis : Int
  responseStatus : Option Int
  responseBody : Option (List UInt8)
  responseContentType : Option String
  responseLocation : Option String

open ClaimRow

/-- `VmmIdempotency::from_row`. -/
def ClaimRow.fromRow (row : Row I) : Except StorageError ClaimRow := do
  let key ← required Value.asText idempotencyModel.name row "key"
  let owner ← required Value.asText idempotencyModel.name row "owner"
  let requestKey ← required Value.asText idempotencyModel.name row "request_key"
  let digest ← required Value.asBytes idempotencyModel.name row "digest"
  let claimedAtMillis ← required Value.asInt idempotencyModel.name row "claimed_at_millis"
  pure ⟨key, owner, requestKey, digest, claimedAtMillis, (row.get "response_status").asInt,
    (row.get "response_body").asBytes, (row.get "response_content_type").asText,
    (row.get "response_location").asText⟩

/-! ## The calls -/

/-- What the store writes of a `WorkloadRecord`: texts, the version and its JSON. -/
structure Workload where
  id : String
  owner : String
  creatureId : String
  observedState : Option String
  resourceVersion : Nat
  record : Json.Value
  deriving DecidableEq

/-- What the store writes of an `OperationRecord`. -/
structure Operation where
  id : String
  owner : String
  state : OperationState
  record : Json.Value
  deriving DecidableEq

structure Response where
  status : Nat
  body : List UInt8
  contentType : String
  location : Option String
  deriving DecidableEq

inductive Claim
  | claimed
  | inProgress
  | mismatch
  | completed (response : Response)
  deriving DecidableEq

def outOfRange : String := "out of range integral type conversion attempted"

/-- `vmm::signed`. -/
def signed (value : Nat) : Except StorageError Int :=
  if value < 2 ^ 63 then .ok value else .error (.invalid outOfRange)

def textOrNull : Option String → Value I
  | some text => .text text
  | none => .null

variable [LinearOrder I] (env : Env I)

def replaceWorkloadOnce (record : Workload) (expected : Int) : Code I (Except PortError Unit) := do
  let found ← findUnique env workloadModel.name (.key record.id)
  match ← Prog.ofExcept (typed WorkloadRow.fromRow found) with
  | none => pure (.error .notFound)
  | some current =>
    if current.owner ≠ record.owner ∨ current.resourceVersion ≠ expected then
      pure (.error .conflict)
    else do
      let version ← Prog.ofExcept (signed record.resourceVersion)
      let updated ← update env .readWrite workloadModel.name (.key record.id)
        (.ofList [("creature_id", .text record.creatureId),
          ("observed_state", textOrNull record.observedState), ("resource_version", .int version),
          ("record", .json record.record)])
      let _ ← Prog.ofExcept (typed WorkloadRow.fromRow updated)
      pure (.ok ())

def replaceOperationOnce (record : Operation) (expected : OperationState) :
    Code I (Except PortError Unit) := do
  let found ← findUnique env operationModel.name (.key record.id)
  match ← Prog.ofExcept (typed OperationRow.fromRow found) with
  | none => pure (.error .notFound)
  | some current =>
    if current.owner ≠ record.owner ∨ current.state ≠ expected.text then
      pure (.error .conflict)
    else do
      let updated ← update env .readWrite operationModel.name (.key record.id)
        (.ofList [("state", .text record.state.text), ("record", .json record.record)])
      let _ ← Prog.ofExcept (typed OperationRow.fromRow updated)
      pure (.ok ())

/-- `vmm::claim_key`. -/
def claimKey (owner key : String) : String := owner ++ "\u001f" ++ key

def wrappingSub (a b : Int) : Int := (a - b).bmod (2 ^ 64)

theorem wrappingSub_eq {a b} (hlow : -2 ^ 63 ≤ a - b) (hhigh : a - b < 2 ^ 63) :
    wrappingSub a b = a - b := by
  rw [wrappingSub, Int.bmod_eq_of_le] <;> omega

def claimOnce (owner key : String) (digest : List UInt8) (nowMillis claimTtlMillis : Int)
    (generated : I) : Code I (Except PortError Claim) := do
  let found ← findUnique env idempotencyModel.name (.key (claimKey owner key))
  match ← Prog.ofExcept (typed fromRow found) with
  | none => do
      let row ← create env .readWrite idempotencyModel.name (.ofList
        [("key", .text (claimKey owner key)), ("owner", .text owner), ("request_key", .text key),
          ("digest", .bytes digest), ("claimed_at_millis", .int nowMillis)]) generated
      let _ ← Prog.ofExcept (fromRow row)
      pure (.ok .claimed)
  | some stored =>
    if stored.digest ≠ digest then pure (.ok .mismatch)
    else
      match stored.responseStatus with
      | none =>
        if stored.claimedAtMillis ≤ wrappingSub nowMillis claimTtlMillis then do
          let updated ← update env .readWrite idempotencyModel.name (.key (claimKey owner key))
            (.ofList [("claimed_at_millis", .int nowMillis)])
          let _ ← Prog.ofExcept (typed fromRow updated)
          pure (.ok .claimed)
        else pure (.ok .inProgress)
      | some status =>
        if 0 ≤ status ∧ status < 2 ^ 16 then
          pure (.ok (.completed ⟨status.toNat, stored.responseBody.getD [],
            stored.responseContentType.getD "", stored.responseLocation⟩))
        else .fail (.invalid outOfRange)

def completeOnce (owner key : String) (response : Response) : Code I (Except PortError Unit) := do
  let updated ← update env .readWrite idempotencyModel.name (.key (claimKey owner key))
    (.ofList [("response_status", .int response.status), ("response_body", .bytes response.body),
      ("response_content_type", .text response.contentType),
      ("response_location", textOrNull response.location)])
  match ← Prog.ofExcept (typed fromRow updated) with
  | some _ => pure (.ok ())
  | none => pure (.error .notFound)

def releaseOnce (owner key : String) : Code I (Except PortError Unit) := do
  let found ← findUnique env idempotencyModel.name (.key (claimKey owner key))
  let stored ← Prog.ofExcept (typed fromRow found)
  if stored.any fun claim => claim.responseStatus.isNone then do
    let deleted ← delete env .readWrite idempotencyModel.name (.key (claimKey owner key))
    let _ ← Prog.ofExcept (typed fromRow deleted)
    pure (.ok ())
  else pure (.ok ())

/-! The records of the stores. -/

def workloadKey (id : String) : Key I := (workloadModel.name, env.forKey "VmmWorkload" id)

def operationKey (id : String) : Key I := (operationModel.name, env.forKey "VmmOperation" id)

def idempotencyKey (owner key : String) : Key I :=
  (idempotencyModel.name, env.forKey "VmmIdempotency" (claimKey owner key))

inductive Call (I : Type)
  | replaceWorkload (record : Workload) (expected : Nat)
  | replaceOperation (record : Operation) (expected : OperationState)
  | claim (owner key : String) (digest : List UInt8) (nowMillis claimTtlMillis : Int) (generated : I)
  | complete (owner key : String) (response : Response)
  | release (owner key : String)
  deriving DecidableEq

def Call.key : Call I → Key I
  | replaceWorkload record _ => workloadKey env record.id
  | replaceOperation record _ => operationKey env record.id
  | claim owner key _ _ _ _ => idempotencyKey env owner key
  | complete owner key _ => idempotencyKey env owner key
  | release owner key => idempotencyKey env owner key

inductive Outcome
  | replaced
  | claimed (claim : Claim)
  | completed
  | released
  deriving DecidableEq

def Call.code : Call I → Prog (Op I) Op.Ans PortError Outcome
  | replaceWorkload record expected =>
    if expected < 2 ^ 63 then do
      decide (replaceWorkloadOnce env record expected)
      pure .replaced
    else .fail (.failed outOfRange)
  | replaceOperation record expected => do
      decide (replaceOperationOnce env record expected)
      pure .replaced
  | claim owner key digest nowMillis claimTtlMillis generated => do
      let claim ← decide (claimOnce env owner key digest nowMillis claimTtlMillis generated)
      pure (.claimed claim)
  | complete owner key response => do
      decide (completeOnce env owner key response)
      pure .completed
  | release owner key => do
      decide (releaseOnce env owner key)
      pure .released

/-! ## What the calls do -/

/-- A record is replaced by its next revision. -/
def Swaps (model : Model) (k : Key I) (P : Row I → Row I → Prop) (m m' : Capsules I) : Prop :=
  ∃ c c', m.get k = some c ∧ c.tombstone = false ∧ m' = m.put k c' ∧ c'.tombstone = false ∧
    c'.revision = c.revision + 1 ∧ P (decode model c) (decode model c')

def SwapsVersion (record : Workload) (expected : Nat) (old new : Row I) : Prop :=
  (old.get "owner").asText = some record.owner ∧
    (old.get "resource_version").asInt = some (expected : Int) ∧
    (new.get "resource_version").asInt = some (record.resourceVersion : Int)

def SwapsState (record : Operation) (expected : OperationState) (old new : Row I) : Prop :=
  (old.get "owner").asText = some record.owner ∧ (old.get "state").asText = some expected.text ∧
    (new.get "state").asText = some record.state.text

def claimAt (k : Key I) (m : Capsules I) : Option (Row I) := liveRow idempotencyModel (m.get k)

/-- When the claim was made that is committed. -/
def claimedAt (k : Key I) (m : Capsules I) : Option Int :=
  (claimAt k m).bind fun row => (row.get "claimed_at_millis").asInt

/-- What `claim` does: a claim that is answered `Claimed` is the first, or takes over one that has no
response and is old enough. -/
def Claims (k : Key I) (nowMillis claimTtlMillis : Int) (claim : Claim) (m m' : Capsules I) : Prop :=
  if claim = .claimed then
    (∀ row, claimAt k m = some row → (row.get "response_status").asInt = none ∧
      ∃ at_, (row.get "claimed_at_millis").asInt = some at_ ∧
        at_ ≤ wrappingSub nowMillis claimTtlMillis) ∧
    claimedAt k m' = some nowMillis ∧ Only k m m'
  else m' = m

/-- What `complete` does: the claim gets a response, and stays. -/
def Completes (k : Key I) (response : Response) (m m' : Capsules I) : Prop :=
  (∃ row, claimAt k m' = some row ∧ (row.get "response_status").asInt = some (response.status : Int)) ∧
    claimedAt k m' = claimedAt k m ∧ Only k m m'

variable {env}

variable {row : Row I}

omit [LinearOrder I] in
theorem WorkloadRow.fromRow_eq_ok {r} (h : fromRow row = .ok r) :
    (row.get "owner").asText = some r.owner ∧
      (row.get "resource_version").asInt = some r.resourceVersion := by
  simp only [fromRow, bind_eq_ok] at h
  obtain ⟨key, -, owner, howner, creature, -, version, hversion, record, -, h⟩ := h
  cases h
  exact ⟨required_eq_ok howner, required_eq_ok hversion⟩

omit [LinearOrder I] in
theorem OperationRow.fromRow_eq_ok {r} (h : fromRow row = .ok r) :
    (row.get "owner").asText = some r.owner ∧ (row.get "state").asText = some r.state := by
  simp only [fromRow, bind_eq_ok] at h
  obtain ⟨key, -, owner, howner, state, hstate, created, -, record, -, h⟩ := h
  cases h
  exact ⟨required_eq_ok howner, required_eq_ok hstate⟩

omit [LinearOrder I] in
theorem ClaimRow.fromRow_eq_ok {r} (h : fromRow row = .ok r) :
    (row.get "claimed_at_millis").asInt = some r.claimedAtMillis ∧
      (row.get "response_status").asInt = r.responseStatus := by
  simp only [fromRow, bind_eq_ok] at h
  obtain ⟨key, -, owner, -, requestKey, -, digest, -, claimedAt, hclaimedAt, h⟩ := h
  cases h
  exact ⟨required_eq_ok hclaimedAt, rfl⟩

variable {k : Key I}

theorem claimAt_put {m : Capsules I} {c : Capsule I} (hlive : c.tombstone = false) :
    claimAt k (m.put k c) = some (decode idempotencyModel c) := by
  simp [claimAt, liveRow, hlive]

theorem claimedAt_put {m : Capsules I} {c : Capsule I} (hlive : c.tombstone = false)
    {nowMillis : Int} (h : (decode idempotencyModel c).get "claimed_at_millis" = .int nowMillis) :
    claimedAt k (m.put k c) = some nowMillis := by
  rw [claimedAt, claimAt_put hlive, Option.bind_some, h]
  rfl

section

variable {Call ε ρ : Type} {prog : Call → Prog (Op I) Op.Ans ε ρ}

theorem decides_replaceWorkload (hmodel : env.model workloadModel.name = some workloadModel)
    (record : Workload) (expected : Nat) :
    Decides env prog (fun (_ : Unit) =>
        Swaps workloadModel (workloadKey env record.id) (SwapsVersion record expected))
      (replaceWorkloadOnce env record expected) := by
  intro b s
  refine safe_findTyped hmodel rfl (fun e b s trx h => prepares_error h)
    (fun v b s trx _ hat => prepares_error hat.isOpen) fun c current b s trx hlive hcurrent hat => ?_
  dsimp only
  split
  · exact prepares_error hat.isOpen
  · next hmatch =>
    push Not at hmatch
    refine Safe.check (fun e _ => prepares_error hat.isOpen) fun version hversion => ?_
    refine safe_updateTyped hmodel rfl hat hlive (fun e b s trx h => prepares_error h)
      fun r b s trx hr hpending => ⟨hpending.isOpen, fun _ h => ?_⟩
    refine ⟨hpending.isOpen, fun _ _ => hpending.ready fun m hm =>
      ⟨c, _, hm, hlive, rfl, rfl, rfl, ?_, ?_, ?_⟩⟩
    · exact (WorkloadRow.fromRow_eq_ok hcurrent).1.trans (congrArg some hmatch.1)
    · exact (WorkloadRow.fromRow_eq_ok hcurrent).2.trans (congrArg some hmatch.2)
    · have hcast : version = record.resourceVersion := by
        unfold signed at hversion
        split at hversion <;> cases hversion
        rfl
      rw [get_updated, if_pos (by rfl)]
      simp [ofList, Value.asInt, hcast]

theorem decides_replaceOperation (hmodel : env.model operationModel.name = some operationModel)
    (record : Operation) (expected : OperationState) :
    Decides env prog (fun (_ : Unit) =>
        Swaps operationModel (operationKey env record.id) (SwapsState record expected))
      (replaceOperationOnce env record expected) := by
  intro b s
  refine safe_findTyped hmodel rfl (fun e b s trx h => prepares_error h)
    (fun v b s trx _ hat => prepares_error hat.isOpen) fun c current b s trx hlive hcurrent hat => ?_
  dsimp only
  split
  · exact prepares_error hat.isOpen
  · next hmatch =>
    push Not at hmatch
    refine safe_updateTyped hmodel rfl hat hlive (fun e b s trx h => prepares_error h)
      fun r b s trx hr hpending => ⟨hpending.isOpen, fun _ h => ?_⟩
    refine ⟨hpending.isOpen, fun _ _ => hpending.ready fun m hm =>
      ⟨c, _, hm, hlive, rfl, rfl, rfl, ?_, ?_, ?_⟩⟩
    · exact (OperationRow.fromRow_eq_ok hcurrent).1.trans (congrArg some hmatch.1)
    · exact (OperationRow.fromRow_eq_ok hcurrent).2.trans (congrArg some hmatch.2)
    · rw [get_updated, if_pos (by rfl)]
      simp [ofList, Value.asText]

theorem prepares_claim {nowMillis claimTtlMillis claim} (hclaim : claim ≠ .claimed) {v s trx}
    (h : At (terms I) k v s trx) :
    trx.Open (terms I) ∧ ∀ r', (Except.ok (Except.ok claim) : Except StorageError _) = .ok r' →
      Prepares env (Claims k nowMillis claimTtlMillis) (r' : Except PortError Claim) s trx := by
  refine ⟨h.isOpen, fun r' hr' => ⟨h.isOpen, fun a ha => h.ready fun m => ?_⟩⟩
  cases hr'
  cases ha
  rw [Claims, if_neg hclaim]

variable (hmodel : env.model idempotencyModel.name = some idempotencyModel)

include hmodel

theorem decides_claim
    (owner key : String) (digest : List UInt8) (nowMillis claimTtlMillis : Int) (generated : I) :
    Decides env prog (Claims (idempotencyKey env owner key) nowMillis claimTtlMillis)
      (claimOnce env owner key digest nowMillis claimTtlMillis generated) := by
  intro b s
  refine safe_findTyped hmodel rfl (fun e b s trx h => prepares_error h) (fun v b s trx hv hat => ?_)
    fun c stored b s trx hlive hstored hat => ?_
  · refine (safe_create_at hmodel rfl (by simp [ofList]) hat).bind ?_
      fun e b s trx h => prepares_error h.1
    rintro row b s trx ⟨hopen, hrow⟩
    refine Safe.check (fun e _ => prepares_error hopen) fun _ _ =>
      ⟨hopen, fun _ h => ⟨hopen, fun a ha => ?_⟩⟩
    cases h
    cases ha
    obtain ⟨-, -, hpending⟩ := hrow row rfl
    refine hpending.ready fun m hm => ⟨fun row hrow => ?_, ?_, only_put _ m _⟩
    · rw [claimAt, idempotencyKey, hm, hv] at hrow
      cases hrow
    · refine claimedAt_put rfl ?_
      rw [get_decode_encode, if_pos (by rfl)]
      simp [Data.field, ofList]
  · dsimp only
    split
    · exact prepares_claim (by simp) hat
    · split
      · next hnone =>
        split
        · next hold =>
          refine safe_updateTyped hmodel rfl hat hlive
            (fun e b s trx h => prepares_error h)
            fun r b s trx hr hpending => ⟨hpending.isOpen, fun _ h =>
              ⟨hpending.isOpen, fun a ha => ?_⟩⟩
          cases h
          cases ha
          obtain ⟨hat_, hstatus⟩ := fromRow_eq_ok hstored
          refine hpending.ready fun m hm => ⟨fun row hrow => ?_, ?_, only_put _ m _⟩
          · rw [claimAt, idempotencyKey, hm] at hrow
            simp only [liveRow, Option.bind_some, hlive] at hrow
            cases hrow
            exact ⟨hstatus.trans hnone, _, hat_, hold⟩
          · refine claimedAt_put rfl ?_
            rw [get_updated, if_pos (by rfl)]
            simp [ofList]
        · exact prepares_claim (by simp) hat
      · split
        · exact prepares_claim (by simp) hat
        · exact prepares_error hat.isOpen

/-- **Completing a claim.** -/
theorem decides_complete (owner key : String) (response : Response) :
    Decides env prog (fun (_ : Unit) => Completes (idempotencyKey env owner key) response)
      (completeOnce env owner key response) := by
  intro b s
  refine (safe_update (P := fun _ => True) hmodel rfl
    ((safe_live_fresh (open_fresh _ _) rfl).mono ?_)).bind ?_ ?_
  · rintro r b s trx ⟨v, h, hrest⟩
    exact ⟨v, h, trivial, hrest⟩
  · rintro found b s trx ⟨v, -, hopen, hfound⟩
    refine Safe.check (fun e _ => prepares_error hopen) fun r hr => ?_
    rcases typed_eq_ok hr with ⟨rfl, rfl⟩ | ⟨row, r, rfl, hrow, rfl⟩
    · exact prepares_error hopen
    · obtain ⟨c, rfl, hlive, rfl, hpending⟩ := hfound
      refine ⟨hopen, fun _ h => ⟨hopen, fun _ _ => hpending.ready fun m hm =>
        ⟨⟨_, claimAt_put rfl, ?_⟩, ?_, only_put _ m _⟩⟩⟩
      · rw [get_updated, if_pos (by rfl)]
        simp [ofList, Value.asInt]
      · rw [claimedAt, idempotencyKey, claimAt_put rfl, claimedAt, claimAt, hm]
        simp only [liveRow, Option.bind_some, hlive, Bool.false_eq_true, if_false]
        rw [get_updated, if_pos (by rfl)]
        simp [ofList]
  · rintro e b s trx ⟨v, -, hopen, -⟩
    exact prepares_error hopen

/-- **Releasing a claim.** -/
theorem decides_release (owner key : String) :
    Decides env prog (fun (_ : Unit) => Only (idempotencyKey env owner key))
      (releaseOnce env owner key) := by
  intro b s
  refine safe_findTyped hmodel rfl (fun e b s trx h => prepares_error h) (fun v b s trx _ hat => ?_)
    fun c stored b s trx hlive hstored hat => ?_
  · exact ⟨hat.isOpen, fun _ _ => ⟨hat.isOpen, fun _ _ => hat.ready fun m _ _ => rfl⟩⟩
  · split
    · refine (safe_delete_at hmodel rfl hat).bind ?_ fun e b s trx h => prepares_error h.1
      rintro deleted b s trx ⟨hopen, hdeleted⟩
      refine Safe.check (fun e _ => prepares_error hopen) fun _ _ =>
        ⟨hopen, fun _ _ => ⟨hopen, fun _ _ => ?_⟩⟩
      rcases hdeleted deleted rfl with ⟨-, -, hat⟩ | ⟨c', -, -, -, hpending⟩
      · exact hat.ready fun m _ _ => rfl
      · exact hpending.ready fun m _ => only_put _ m _
    · exact ⟨hat.isOpen, fun _ _ => ⟨hat.isOpen, fun _ _ => hat.ready fun m _ _ => rfl⟩⟩

end

/-! ## Runs -/

/-- No call expects an operation to be in a terminal state, and the subtraction of a `claim` does not
wrap. -/
def Call.Allowed : Call I → Prop
  | replaceOperation _ expected => expected.terminal = false
  | claim _ _ _ nowMillis claimTtlMillis _ =>
    -2 ^ 63 ≤ nowMillis - claimTtlMillis ∧ nowMillis - claimTtlMillis < 2 ^ 63
  | _ => True

/-- What a call does, all at once, at its last step. -/
def Effect (env : Env I) (call : Call I) (r : Except PortError Outcome) (m m' : Capsules I) : Prop :=
  match call, r with
  | .replaceWorkload record expected, .ok .replaced =>
    Swaps workloadModel (workloadKey env record.id) (SwapsVersion record expected) m m'
  | .replaceOperation record expected, .ok .replaced =>
    Swaps operationModel (operationKey env record.id) (SwapsState record expected) m m'
  | .claim owner key _ nowMillis claimTtlMillis _, .ok (.claimed claim) =>
    Claims (idempotencyKey env owner key) nowMillis claimTtlMillis claim m m'
  | .complete owner key response, .ok .completed =>
    Completes (idempotencyKey env owner key) response m m'
  | .release owner key, .ok .released => Only (idempotencyKey env owner key) m m'
  | _, _ => m' = m

def Post (env : Env I) (call : Call I) (r : Except PortError Outcome) (b s : Shared I) : Prop :=
  call.Allowed ∧ Effect env call r b.committed s.committed

/-- The models of the stores are known. -/
structure Models (env : Env I) : Prop where
  workload : env.model workloadModel.name = some workloadModel
  operation : env.model operationModel.name = some operationModel
  idempotency : env.model idempotencyModel.name = some idempotencyModel

theorem safe_code (models : Models env) (call : Call I) (hallowed : call.Allowed) (s : Shared I) :
    Safe (calm env (terms I) (Call.code env)) (fun r b s _ => Post env call r b s)
      (call.code env) s s {} := by
  cases call with
  | replaceWorkload record expected =>
    rw [Call.code]
    split
    · exact (safe_decide (decides_replaceWorkload models.workload record expected) s).bind
        (fun _ _ _ _ h => ⟨hallowed, h⟩) fun _ _ _ _ h => ⟨hallowed, h⟩
    · exact ⟨hallowed, rfl⟩
  | replaceOperation record expected =>
    exact (safe_decide (decides_replaceOperation models.operation record expected) s).bind
      (fun _ _ _ _ h => ⟨hallowed, h⟩) fun _ _ _ _ h => ⟨hallowed, h⟩
  | claim owner key digest nowMillis claimTtlMillis generated =>
    exact (safe_decide (decides_claim models.idempotency owner key digest nowMillis claimTtlMillis
      generated) s).bind (fun _ _ _ _ h => ⟨hallowed, h⟩) fun _ _ _ _ h => ⟨hallowed, h⟩
  | complete owner key response =>
    exact (safe_decide (decides_complete models.idempotency owner key response) s).bind
      (fun _ _ _ _ h => ⟨hallowed, h⟩) fun _ _ _ _ h => ⟨hallowed, h⟩
  | release owner key =>
    exact (safe_decide (decides_release models.idempotency owner key) s).bind
      (fun _ _ _ _ h => ⟨hallowed, h⟩) fun _ _ _ _ h => ⟨hallowed, h⟩

/-- The state of the operation that is committed. -/
def stateAt (k : Key I) (m : Capsules I) : Option String :=
  (liveRow operationModel (m.get k)).bind fun row => (row.get "state").asText

/-- The last `Claimed` on a record that was not released, after one more answer on it. -/
def lastClaimStep (last : Option Int) : Call I × Except PortError Outcome → Option Int
  | (.claim _ _ _ nowMillis _ _, .ok (.claimed .claimed)) => some nowMillis
  | (.release _ _, .ok .released) => none
  | _ => last

/-- The time of the last `Claimed` on the record, unless it was released since. -/
def lastClaim (env : Env I) (k : Key I) (finished : List (Call I × Except PortError Outcome)) :
    Option Int :=
  (finished.filter fun ended => ended.1.key env = k).foldl lastClaimStep none

theorem lastClaim_append (k : Key I) (finished : List (Call I × Except PortError Outcome))
    (call : Call I) (r : Except PortError Outcome) :
    lastClaim env k (finished ++ [(call, r)]) =
      if call.key env = k then lastClaimStep (lastClaim env k finished) (call, r)
      else lastClaim env k finished := by
  by_cases hk : call.key env = k <;> simp [hk, lastClaim]

omit [LinearOrder I] in
theorem OperationState.text_injective {a b : OperationState} (h : a.text = b.text) : a = b := by
  cases a <;> cases b <;> simp_all [OperationState.text]

variable {call : Call I} {r : Except PortError Outcome} {m m' : Capsules I}

theorem stateAt_congr (h : m'.get k = m.get k) : stateAt k m' = stateAt k m := by
  rw [stateAt, stateAt, h]

theorem claimedAt_congr (h : m'.get k = m.get k) : claimedAt k m' = claimedAt k m := by
  rw [claimedAt, claimAt, claimedAt, claimAt, h]

theorem Swaps.only {model P} (h : Swaps model k P m m') : Only k m m' := by
  obtain ⟨c, c', -, -, rfl, -⟩ := h
  exact only_put k m c'

theorem Effect.only (h : Effect env call r m m') : Only (call.key env) m m' := by
  unfold Effect at h
  split at h
  · exact h.only
  · exact h.only
  · unfold Claims at h
    split at h
    · exact h.2.2
    · exact fun _ _ => by rw [h]
  · exact h.2.2
  · exact h
  · exact fun _ _ => by rw [h]

/-- **A terminal state stays**, as long as no call expects one. -/
theorem Effect.terminal (h : Effect env call r m m') (hallowed : call.Allowed) {id : String}
    {st : OperationState} (hst : st.terminal = true)
    (hm : stateAt (operationKey env id) m = some st.text) :
    stateAt (operationKey env id) m' = some st.text := by
  by_cases hk : operationKey env id = call.key env
  · unfold Effect at h
    split at h
    · simp [Call.key, workloadKey, operationKey, workloadModel, operationModel] at hk
    · next record expected =>
      obtain ⟨c, c', hc, hlive, -, -, -, -, hold, -⟩ := h
      rw [stateAt, hk, Call.key, hc] at hm
      simp only [liveRow, Option.bind_some, hlive, Bool.false_eq_true, if_false, hold,
        Option.some.injEq] at hm
      cases OperationState.text_injective hm
      cases hst.symm.trans hallowed
    · simp [Call.key, idempotencyKey, operationKey, idempotencyModel, operationModel] at hk
    · simp [Call.key, idempotencyKey, operationKey, idempotencyModel, operationModel] at hk
    · simp [Call.key, idempotencyKey, operationKey, idempotencyModel, operationModel] at hk
    · rwa [h]
  · exact (stateAt_congr (h.only _ hk)).trans hm

/-- The claim that is committed is the last that was answered `Claimed`. -/
theorem Effect.lastClaim (h : Effect env call r m m')
    (hkey : (call.key env).1 = idempotencyModel.name) {last}
    (hm : ∀ at_, last = some at_ → claimedAt (call.key env) m = some at_) {at_}
    (hat : lastClaimStep last (call, r) = some at_) : claimedAt (call.key env) m' = some at_ := by
  unfold lastClaimStep at hat
  split at hat
  · next heq =>
    cases heq
    cases hat
    exact h.2.1
  · cases hat
  · next hclaimed hreleased =>
    have hsame := hm at_ hat
    unfold Effect at h
    split at h
    · simp [Call.key, workloadKey, idempotencyModel, workloadModel] at hkey
    · simp [Call.key, operationKey, idempotencyModel, operationModel] at hkey
    · next claim =>
      unfold Claims at h
      split at h
      · next hclaim =>
        subst hclaim
        exact absurd rfl (hclaimed _ _ _ _ _ _)
      · rwa [h]
    · exact h.2.1.trans hsame
    · exact absurd rfl (hreleased _ _)
    · rwa [h]

section

variable {ι : Type} [DecidableEq ι]

abbrev System (ι I : Type) := Sys ι (Shared I) (Trx I) (Call I) (Op I) Op.Ans PortError Outcome

/-- A step in which no record changes that another call has read and not yet written; and no call is made
that expects an operation in a terminal state, or whose subtraction wraps. -/
structure Step (env : Env I) (s : System ι I) (e : Event ι (Call I) ℕ) (t : System ι I) : Prop
    extends Undisturbed env (Call.code env) s e t where
  allowed : ∀ i call, e = .start i call → call.Allowed

def Ended (s t : System ι I) (call : Call I) (r : Except PortError Outcome) : Prop :=
  t.finished = s.finished ++ [(call, r)]

/-- What holds at all times. -/
structure Kept (env : Env I) (s : System ι I) : Prop where
  good : Good (calm env (terms I) (Call.code env)) (Post env) s
  claims : ∀ owner key at_, lastClaim env (idempotencyKey env owner key) s.finished = some at_ →
    claimedAt (idempotencyKey env owner key) s.shared.committed = some at_

variable {s t : System ι I} {e : Event ι (Call I) ℕ}

theorem Step.did (models : Models env) (h : Step env s e t) (hs : Kept env s) :
    Kept env t ∧ Rising s.shared.committed t.shared.committed ∧
      Transition (Post env) s t := by
  obtain ⟨hgood, hrising, hdid⟩ := h.toUndisturbed.did
    (fun i c s he => safe_code models c (h.allowed i c he) s) hs.good
  refine ⟨⟨hgood, fun owner key at_ hlast => ?_⟩, hrising, hdid⟩
  rcases hdid with ⟨hsame, hfinished⟩ | ⟨call, r, hfinished, hpost⟩
  · rw [hfinished] at hlast
    rw [hsame]
    exact hs.claims owner key at_ hlast
  · rw [hfinished, lastClaim_append] at hlast
    split at hlast
    · next hk =>
      have hclaims := hs.claims owner key
      rw [← hk] at hclaims hlast ⊢
      exact hpost.2.lastClaim (by rw [hk, idempotencyKey]) hclaims hlast
    · next hk =>
      exact (claimedAt_congr (hpost.2.only _ (Ne.symm hk))).trans (hs.claims owner key at_ hlast)

theorem Step.terminal (models : Models env) (h : Step env s e t) (hs : Kept env s) {id : String}
    {st : OperationState} (hst : st.terminal = true)
    (hstate : stateAt (operationKey env id) s.shared.committed = some st.text) :
    stateAt (operationKey env id) t.shared.committed = some st.text := by
  rcases (h.did models hs).2.2 with ⟨hsame, -⟩ | ⟨call, r, -, hpost⟩
  · rwa [hsame]
  · exact hpost.2.terminal hpost.1 hst hstate

theorem Step.effect (models : Models env) (h : Step env s e t) (hs : Kept env s) {call r}
    (hended : Ended s t call r) :
    call.Allowed ∧ Effect env call r s.shared.committed t.shared.committed := by
  rcases (h.did models hs).2.2 with ⟨-, hfinished⟩ | ⟨call', r', hfinished, hpost⟩
  · simp [show t.finished = _ from hended] at hfinished
  · rw [show t.finished = _ from hended] at hfinished
    simp only [List.append_cancel_left_eq, List.cons.injEq, Prod.mk.injEq, and_true] at hfinished
    obtain ⟨rfl, rfl⟩ := hfinished
    exact hpost

/-- **Compare-and-set takes effect at once**, in every run in which no record changes between the time a
call has read it and the time it writes it, no call expects an operation in a terminal state and no
subtraction of a claim wraps. A step does nothing to what is committed, or ends a call and does all that
the call does. So a workload that is replaced has the version expected, and a later replacement replaces
a later revision; the operation that is replaced has the state expected, and a terminal state stays; and
a `Claimed` comes a full time to live after the one before it, unless that was released. -/
theorem undisturbed_stores_linearizable (models : Models env) {s₀ s t s' t' : System ι I}
    {events events' : List (Event ι (Call I) ℕ)} {e e' : Event ι (Call I) ℕ}
    (hplaced : Placed s₀.shared.committed) (hidle : ∀ i, s₀.threads i = none)
    (hfinished : s₀.finished = []) (hrun : Run (Step env) s₀ events s) (hstep : Step env s e t)
    (hrun' : Run (Step env) t events' s') (hstep' : Step env s' e' t') :
    ((t.shared.committed = s.shared.committed ∧ t.finished = s.finished) ∨
      ∃ call r, Ended s t call r ∧ Effect env call r s.shared.committed t.shared.committed) ∧
    (∀ record (expected : ℕ) record' (expected' : ℕ), record'.id = record.id →
      Ended s t (.replaceWorkload record expected) (.ok .replaced) →
      Ended s' t' (.replaceWorkload record' expected') (.ok .replaced) →
      ∃ c c', s.shared.committed.get (workloadKey env record.id) = some c ∧
        s'.shared.committed.get (workloadKey env record.id) = some c' ∧
        ((decode workloadModel c).get "resource_version").asInt = some (expected : Int) ∧
        ((decode workloadModel c').get "resource_version").asInt = some (expected' : Int) ∧
        c.revision < c'.revision) ∧
    (∀ record expected, Ended s t (.replaceOperation record expected) (.ok .replaced) →
      stateAt (operationKey env record.id) s.shared.committed = some expected.text) ∧
    (∀ id (st : OperationState), st.terminal = true →
      stateAt (operationKey env id) s.shared.committed = some st.text →
      stateAt (operationKey env id) t'.shared.committed = some st.text) ∧
    ∀ owner key digest nowMillis claimTtlMillis generated at_,
      Ended s t (.claim owner key digest nowMillis claimTtlMillis generated) (.ok (.claimed .claimed)) →
      lastClaim env (idempotencyKey env owner key) s.finished = some at_ →
      at_ + claimTtlMillis ≤ nowMillis := by
  have hs : Kept env s := by
    refine hrun.invariant (fun _ _ _ h hs => (h.did models hs).1) ⟨⟨hplaced, fun i th hth => ?_⟩, ?_⟩
    · rw [hidle] at hth
      cases hth
    · simp [hfinished, lastClaim]
  obtain ⟨ht, hrising, hdid⟩ := hstep.did models hs
  have hs' : Kept env s' := hrun'.invariant (fun _ _ _ h hs => (h.did models hs).1) ht
  refine ⟨?_, ?_, ?_, ?_, ?_⟩
  · exact hdid.imp_right fun ⟨call, r, hended, hpost⟩ => ⟨call, r, hended, hpost.2⟩
  · intro record expected record' expected' hid hended hended'
    obtain ⟨c, c₁, hc, -, htc, -, hrev, -, hversion, -⟩ := (hstep.effect models hs hended).2
    obtain ⟨c', -, hc', -, -, -, -, -, hversion', -⟩ := (hstep'.effect models hs' hended').2
    rw [hid] at hc'
    refine ⟨c, c', hc, hc', hversion, hversion', ?_⟩
    have hrises : Rising t.shared.committed s'.shared.committed :=
      (hrun'.invariant (I := fun s => Kept env s ∧ Rising t.shared.committed s.shared.committed)
        (fun _ _ _ h hs => ⟨(h.did models hs.1).1, hs.2.trans (h.did models hs.1).2.1⟩)
        ⟨ht, Rising.refl _⟩).2
    have htc₁ : t.shared.committed.get (workloadKey env record.id) = some c₁ := by simp [htc]
    rcases hrises (workloadKey env record.id) with hsame | hlt
    · rw [hc', htc₁] at hsame
      cases hsame
      omega
    · simp only [htc₁, hc', rank, Option.elim_some] at hlt
      omega
  · intro record expected hended
    obtain ⟨c, -, hc, hlive, -, -, -, -, hstate, -⟩ := (hstep.effect models hs hended).2
    simp [stateAt, hc, liveRow, hlive, hstate]
  · intro id st hst hstate
    have hs'state := hrun'.invariant
      (I := fun s => Kept env s ∧ stateAt (operationKey env id) s.shared.committed = some st.text)
      (fun _ _ _ h hs => ⟨(h.did models hs.1).1, h.terminal models hs.1 hst hs.2⟩)
      ⟨ht, hstep.terminal models hs hst hstate⟩
    exact hstep'.terminal models hs' hst hs'state.2
  · intro owner key digest nowMillis claimTtlMillis generated at_ hended hlast
    obtain ⟨hallowed, hclaims, -⟩ := hstep.effect models hs hended
    obtain ⟨row, hrow, hat⟩ := Option.bind_eq_some_iff.mp (hs.claims owner key at_ hlast)
    obtain ⟨-, at', hat', hle⟩ := hclaims row hrow
    cases hat.symm.trans hat'
    rw [wrappingSub_eq hallowed.1 hallowed.2] at hle
    omega

end

/-! ## Two replacements of one version -/

namespace Sample

def vmmEnv : Env ℕ where
  model name := if name = workloadModel.name then some workloadModel
    else if name = operationModel.name then some operationModel
    else if name = idempotencyModel.name then some idempotencyModel else none
  named name m h := by
    split at h
    · next hname => cases h; exact hname.symm
    · split at h
      · next hname => cases h; exact hname.symm
      · split at h
        · next hname => cases h; exact hname.symm
        · cases h
  forKey _ _ := 7
  lower := id
  idText := toString

theorem models : Models vmmEnv := ⟨rfl, rfl, rfl⟩

def workload (version : Nat) : Workload := ⟨"w", "o", "c", none, version, .object []⟩

def operation (state : OperationState) : Operation := ⟨"x", "o", state, .object []⟩

def storedWorkload : Capsule ℕ :=
  ⟨workloadModel.name, 7, 0, false, .ofList [("key", .text "w"), ("owner", .text "o"),
    ("creature_id", .text "c"), ("resource_version", .int 1), ("record", .json (.object []))]⟩

def storedOperation : Capsule ℕ :=
  ⟨operationModel.name, 7, 0, false, .ofList [("key", .text "x"), ("owner", .text "o"),
    ("state", .text "running"), ("created_at_millis", .int 0), ("record", .json (.object []))]⟩

def stores (ι : Type) : System ι ℕ :=
  ⟨⟨(Store.put ∅ (workloadModel.name, 7) storedWorkload).put (operationModel.name, 7) storedOperation,
    0⟩, fun _ => none, []⟩

def next (version : Nat) : Call ℕ := .replaceWorkload (workload (version + 1)) version

/-- One call has compared the workload when another replaces it, and goes on. -/
def replaceTwice : List (Event Bool (Call ℕ) ℕ) :=
  [Event.call true (next 1) 2, Event.call false (next 1) 6, Event.steps true 4].flatten

/-- One call is about to cancel the operation when another lets it succeed, and goes on. -/
def cancelAfterSuccess : List (Event Bool (Call ℕ) ℕ) :=
  [Event.call true (.replaceOperation (operation .cancelled) .running) 2,
    Event.call false (.replaceOperation (operation .succeeded) .running) 6,
    Event.steps true 4].flatten

/-- Two calls have looked for a claim that has expired, and both take it over. -/
def claimTwice : List (Event Bool (Call ℕ) ℕ) :=
  [Event.call true (.claim "o" "k" [1] 0 10 0) 5, Event.call true (.claim "o" "k" [1] 100 10 0) 2,
    Event.call false (.claim "o" "k" [1] 100 10 0) 6, Event.steps true 4].flatten

theorem placed (ι : Type) : Placed (stores ι).shared.committed :=
  (Placed.single (c := storedWorkload) rfl).put rfl

def onWorkload : Event Unit (Call ℕ) ℕ → Bool
  | .start _ (.replaceWorkload _ _) => true
  | .start _ _ => false
  | _ => true

theorem step_of_alone {s t e} (hstep : (provider vmmEnv (Call.code vmmEnv)).Step s e t)
    (htest : onWorkload e) :
    Step vmmEnv s e t where
  toUndisturbed := undisturbed_of_alone hstep
  allowed i call he := by
    cases call <;> simp_all [onWorkload, Call.Allowed]

end Sample

open Sample

/-- Two replacements succeed that expect one stored version, an operation that has succeeded is cancelled,
and two claims of one key are answered `Claimed` at once. -/
theorem overtaken_replacements_succeed :
    (∃ s : System Bool ℕ, Run (provider vmmEnv (Call.code vmmEnv)).Step
        (stores Bool) replaceTwice s ∧
      s.finished.map Prod.snd = [.ok .replaced, .ok .replaced]) ∧
    (∃ s : System Bool ℕ, Run (provider vmmEnv (Call.code vmmEnv)).Step
        (stores Bool) cancelAfterSuccess s ∧
      s.finished.map Prod.snd = [.ok .replaced, .ok .replaced]) ∧
    ∃ s : System Bool ℕ, Run (provider vmmEnv (Call.code vmmEnv)).Step (stores Bool) claimTwice s ∧
      s.finished.map Prod.snd = [.ok (.claimed .claimed), .ok (.claimed .claimed),
        .ok (.claimed .claimed)] := by
  refine ⟨Machine.exists_run (fun _ _ => true) (fun _ _ _ h _ => h) ?_,
    Machine.exists_run (fun _ _ => true) (fun _ _ _ h _ => h) ?_,
    Machine.exists_run (fun _ _ => true) (fun _ _ _ h _ => h) ?_⟩
  · decide +kernel
  · decide +kernel
  · decide +kernel

/-- The workload is replaced twice, by one call after the other. -/
theorem undisturbed_stores_linearizable_alone : ∃ s t s' t' : System Unit ℕ,
    Ended s t (next 1) (.ok .replaced) ∧ Ended s' t' (next 2) (.ok .replaced) ∧
    ∃ c c', s.shared.committed.get (workloadModel.name, 7) = some c ∧
      s'.shared.committed.get (workloadModel.name, 7) = some c' ∧ c.revision < c'.revision := by
  have h : (((provider vmmEnv (Call.code vmmEnv)).after (fun _ => onWorkload)
      (stores Unit) (Event.call () (next 1) 5)).bind fun s =>
        ((provider vmmEnv (Call.code vmmEnv)).next s (.step ())).bind fun t =>
        ((provider vmmEnv (Call.code vmmEnv)).after (fun _ => onWorkload)
          t (Event.call () (next 2) 5)).bind fun s' =>
        ((provider vmmEnv (Call.code vmmEnv)).next s' (.step ())).map fun t' =>
          [s.finished, t.finished, s'.finished, t'.finished]) =
      some [[], [(next 1, .ok .replaced)], [(next 1, .ok .replaced)],
        [(next 1, .ok .replaced), (next 2, .ok .replaced)]] := by decide +kernel
  obtain ⟨s, hs, h⟩ := Option.bind_eq_some_iff.mp h
  obtain ⟨t, ht, h⟩ := Option.bind_eq_some_iff.mp h
  obtain ⟨s', hs', h⟩ := Option.bind_eq_some_iff.mp h
  obtain ⟨t', ht', h⟩ := Option.map_eq_some_iff.mp h
  simp only [List.cons.injEq, and_true] at h
  obtain ⟨hs₀, ht₀, hs₁, ht₁⟩ := h
  have hended : Ended s t (next 1) (.ok .replaced) := by
    rw [Ended, hs₀, ht₀]
    rfl
  have hended' : Ended s' t' (next 2) (.ok .replaced) := by
    rw [Ended, hs₁, ht₁]
    rfl
  obtain ⟨c, c', hc, hc', -, -, hlt⟩ := (undisturbed_stores_linearizable models
    (placed Unit) (fun _ => rfl) rfl
    (Machine.run_after (fun _ _ _ => step_of_alone) hs) (step_of_alone ht rfl)
    (Machine.run_after (fun _ _ _ => step_of_alone) hs') (step_of_alone ht' rfl)).2.1
    (workload 2) 1 (workload 3) 2 rfl hended hended'
  exact ⟨s, t, s', t', hended, hended', c, c', hc, hc', hlt⟩

end Aseman.Services.VmmStore
