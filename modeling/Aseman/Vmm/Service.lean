import Aseman.Lib.Growing
import Aseman.Lib.Store
import Aseman.Vmm.Domain

/-!
# The VMM service

`aseman-application`, `vmm.rs`: the use cases of the service over its stores, its backend and a clock. Each
call of a store is one atomic operation, with the outcome that `aseman-capsule` gives it; the backend, the
clock and the faults of the stores are whatever the environment makes of them at the time.
-/

namespace Aseman.Vmm

/-! ## Errors -/

inductive PortError
  | notFound
  | conflict
  | denied (message : String)
  | unavailable (message : String)
  | deadline
  | unsupported (message : String)
  | refused (message : String)
  | failed (message : String)
  deriving DecidableEq

def PortError.text : PortError → String
  | notFound => "not found"
  | conflict => "revision conflict"
  | denied message => "operation denied: " ++ message
  | unavailable message => "dependency unavailable: " ++ message
  | deadline => "deadline exceeded"
  | unsupported message => "unsupported capability: " ++ message
  | refused message => "refused: " ++ message
  | failed message => message

structure VmmError where
  failure : Failure
  detail : String
  currentGeneration : Option Generation := none
  deriving DecidableEq

def VmmError.ofLifecycle (error : LifecycleError) : VmmError := ⟨error.failure, error.text, none⟩

def VmmError.ofPort (error : PortError) : VmmError :=
  let failure := match error with
    | .notFound => .notFound
    | .conflict => .resourceVersionMismatch
    | .denied _ => .forbidden
    | .unavailable _ => .unavailable
    | .deadline => .deadlineExceeded
    | .unsupported _ => .unsupportedOperation
    | .refused _ => .invalidRequest
    | .failed _ => .backendFailure
  ⟨failure, error.text, none⟩

/-! ## The ports -/

/-- `Page`; a cursor is the id of the last item. -/
structure Page (α κ : Type) where
  items : List α
  nextCursor : Option κ

structure OperationFilter where
  workloadId : Option WorkloadId
  state : Option OperationState

inductive EventType
  | observed
  | operation
  | deleted
  | resync
  deriving DecidableEq

/-- `WorkloadEventRecord`; the log assigns the sequence. -/
structure EventRecord where
  owner : String
  workloadId : WorkloadId
  atMillis : Int
  eventType : EventType
  observation : Option Observation
  operation : Option OperationId

/-- One call of a port. -/
inductive Op
  | describe
  | unixMillis
  | newOperationId
  | workload (owner : String) (id : WorkloadId)
  | allWorkloads (cursor : Option WorkloadId) (limit : Nat)
  | insertWorkload (record : WorkloadRecord)
  /-- The last argument is the observation that the replacement records, for the history only. -/
  | replaceWorkload (record : WorkloadRecord) (expected : Nat) (recording : Option Observation)
  | operation (owner : String) (id : OperationId)
  | operations (owner : String) (filter : OperationFilter) (cursor : Option OperationId) (limit : Nat)
  | insertOperation (record : OperationRecord)
  | replaceOperation (record : OperationRecord) (expected : OperationState)
  | append (event : EventRecord)
  | step (workload : WorkloadRecord) (action : ReconcileAction)
  | observeAll
  | run (workload : Option WorkloadRecord) (operation : OperationRecord)

@[reducible] def Op.Ans : Op → Type
  | describe => Except PortError (List RuntimeCapabilities)
  | unixMillis => Int
  | newOperationId => OperationId
  | workload _ _ => Except PortError (Option WorkloadRecord)
  | allWorkloads _ _ => Except PortError (Page WorkloadRecord WorkloadId)
  | insertWorkload _ => Except PortError Unit
  | replaceWorkload _ _ _ => Except PortError Unit
  | operation _ _ => Except PortError (Option OperationRecord)
  | operations _ _ _ _ => Except PortError (Page OperationRecord OperationId)
  | insertOperation _ => Except PortError Unit
  | replaceOperation _ _ => Except PortError Unit
  | append _ => Except PortError Unit
  | step _ _ => Except PortError Observation
  | observeAll => Except PortError (List (WorkloadId × Observation))
  | run _ _ => Except PortError String

/-- What the environment makes of the ports: the backend, the clock, the next random id, and whether the
stores fail. -/
structure World where
  describe : Except PortError (List RuntimeCapabilities)
  step : WorkloadRecord → ReconcileAction → Except PortError Observation
  observeAll : Except PortError (List (WorkloadId × Observation))
  run : Option WorkloadRecord → OperationRecord → Except PortError String
  unixMillis : Int
  operationId : OperationId
  fault : Option PortError := none

/-- The stores and the world. Of the past it is known which observations were recorded and which
operations `run` was called with and succeeded. -/
structure Shared where
  workloads : Store WorkloadId WorkloadRecord
  operations : Store OperationId OperationRecord
  events : List EventRecord
  world : World
  recorded : List (WorkloadId × Observation)
  ran : List OperationRecord

/-! ## The stores -/

def outOfRange : String := "out of range integral type conversion attempted"

/-- `vmm::page_of`. -/
def pageOf {α κ : Type} (rows : List α) (limit : Nat) (key : α → κ) : Page α κ :=
  let items := rows.take (max limit 1)
  ⟨items, if max limit 1 < rows.length then items.getLast?.map key else none⟩

variable (s : Shared)

def Shared.allWorkloads (cursor : Option WorkloadId) (limit : Nat) :
    Page WorkloadRecord WorkloadId :=
  let rows := (s.workloads.toList.map Prod.snd).filter fun record =>
    cursor.all fun after => after < record.id
  pageOf (rows.insertionSort fun a b => a.id ≤ b.id) limit WorkloadRecord.id

def Shared.insertWorkload (record : WorkloadRecord) : Except PortError Shared :=
  if ¬ record.resourceVersion < 2 ^ 63 then .error (.failed ("invalid storage request: " ++ outOfRange))
  else if (s.workloads.get record.id).isSome then .error .conflict
  else .ok { s with workloads := s.workloads.put record.id record }

def Shared.replaceWorkload (record : WorkloadRecord) (expected : Nat)
    (recording : Option Observation) : Except PortError Shared :=
  if ¬ expected < 2 ^ 63 then .error (.failed outOfRange)
  else
    match s.workloads.get record.id with
    | none => .error .notFound
    | some current =>
      if current.owner ≠ record.owner ∨ current.resourceVersion ≠ expected then .error .conflict
      else if ¬ record.resourceVersion < 2 ^ 63 then
        .error (.failed ("invalid storage request: " ++ outOfRange))
      else .ok { s with
        workloads := s.workloads.put record.id record
        recorded := s.recorded ++ recording.toList.map fun observation => (record.id, observation) }

/-- Newest first: by the time of creation and then by the id, both descending. -/
def Newer (a b : OperationRecord) : Prop :=
  b.createdAtMillis < a.createdAtMillis ∨ b.createdAtMillis = a.createdAtMillis ∧ b.id ≤ a.id

instance : DecidableRel Newer := fun _ _ => inferInstanceAs (Decidable (_ ∨ _))

/-- `operations`. A page after a cursor holds what sorts below it. -/
def Shared.operationsPage (owner : String) (filter : OperationFilter)
    (cursor : Option OperationId) (limit : Nat) : Page OperationRecord OperationId :=
  let below : OperationRecord → Bool := match cursor with
    | none => fun _ => true
    | some after =>
      match s.operations.get after with
      | none => fun _ => false
      | some last => fun o => Newer last o ∧ o.id ≠ last.id
  let rows := (s.operations.toList.map Prod.snd).filter fun o => o.owner = owner ∧
    (filter.workloadId.all fun workloadId => o.workloadId = some workloadId) ∧
    (filter.state.all fun state => o.state = state) ∧ below o
  pageOf (rows.insertionSort Newer) limit OperationRecord.id

def Shared.insertOperation (record : OperationRecord) : Except PortError Shared :=
  if (s.operations.get record.id).isSome then .error .conflict
  else .ok { s with operations := s.operations.put record.id record }

def Shared.replaceOperation (record : OperationRecord) (expected : OperationState) :
    Except PortError Shared :=
  match s.operations.get record.id with
  | none => .error .notFound
  | some current =>
    if current.owner ≠ record.owner ∨ current.state ≠ expected then .error .conflict
    else .ok { s with operations := s.operations.put record.id record }

/-- What a store answers, unless it fails. -/
def Shared.read {α : Type} (s : Shared) (a : α) : Except PortError α × Shared × Unit :=
  match s.world.fault with
  | some e => (.error e, s, ())
  | none => (.ok a, s, ())

/-- What a store does, unless it fails. -/
def Shared.write (r : Except PortError Shared) : Except PortError Unit × Shared × Unit :=
  match s.world.fault with
  | some e => (.error e, s, ())
  | none =>
    match r with
    | .ok t => (.ok (), t, ())
    | .error e => (.error e, s, ())

/-- What one call of a port does. -/
def Op.exec : (o : Op) → Shared → Unit → o.Ans × Shared × Unit
  | describe, s, _ => (s.world.describe, s, ())
  | unixMillis, s, _ => (s.world.unixMillis, s, ())
  | newOperationId, s, _ => (s.world.operationId, s, ())
  | workload owner id, s, _ =>
    s.read ((s.workloads.get id).filter fun record => record.owner = owner)
  | allWorkloads cursor limit, s, _ => s.read (s.allWorkloads cursor limit)
  | insertWorkload record, s, _ => s.write (s.insertWorkload record)
  | replaceWorkload record expected recording, s, _ =>
    s.write (s.replaceWorkload record expected recording)
  | operation owner id, s, _ =>
    s.read ((s.operations.get id).filter fun record => record.owner = owner)
  | operations owner filter cursor limit, s, _ => s.read (s.operationsPage owner filter cursor limit)
  | insertOperation record, s, _ => s.write (s.insertOperation record)
  | replaceOperation record expected, s, _ => s.write (s.replaceOperation record expected)
  | append event, s, _ => s.write (.ok { s with events := s.events ++ [event] })
  | step record action, s, _ => (s.world.step record action, s, ())
  | observeAll, s, _ => (s.world.observeAll, s, ())
  | run record called, s, _ =>
    match s.world.run record called with
    | .ok result => (.ok result, { s with ran := s.ran ++ [called] }, ())
    | .error e => (.error e, s, ())

/-! ## The use cases -/

abbrev Code := Prog Op Op.Ans VmmError

def casAttempts : Nat := 5

def pageSize : Nat := 200

/-- One call of a port. -/
def ask (o : Op) : Code o.Ans := Prog.perform o

def ported {α : Type} (p : Code (Except PortError α)) : Code α := do
  let answer ← p
  Prog.ofExcept (answer.mapError VmmError.ofPort)

def ruled {α : Type} (r : Except LifecycleError α) : Code α :=
  Prog.ofExcept (r.mapError VmmError.ofLifecycle)

/-- `VmmService::runtime`. -/
def runtime (key : String) : Code RuntimeCapabilities := do
  let runtimes ← ported (ask .describe)
  match runtimes.find? fun runtime => runtime.runtime = key with
  | some runtime => pure runtime
  | none => .fail ⟨.unsupportedOperation, "runtime " ++ key ++ " is not offered", none⟩

variable (owner : String)

/-- `VmmService::load`. -/
def load (id : WorkloadId) : Code WorkloadRecord := do
  let found ← ported (ask (.workload owner id))
  match found with
  | some record => pure record
  | none => .fail ⟨.notFound, "no such workload", none⟩

/-- `VmmService::event`. -/
def event (workloadId : WorkloadId) (eventType : EventType)
    (observation : Option Observation) (operation : Option OperationId) : Code Unit := do
  let now ← ask .unixMillis
  ported (ask (.append ⟨owner, workloadId, now, eventType, observation, operation⟩))

def operationEvent (workloadId : Option WorkloadId) (operation : OperationId) : Code Unit :=
  match workloadId with
  | some workloadId => event owner workloadId .operation none (some operation)
  | none => pure ()

/-- `VmmService::new_operation`. -/
def newOperation (workloadId : Option WorkloadId) (kind : OperationKind)
    (generation : Option Generation) (request : Option String) (deadlineMillis : Option Int) :
    Code OperationRecord := do
  let now ← ask .unixMillis
  let id ← ask .newOperationId
  let operation : OperationRecord :=
    ⟨owner, id, workloadId, kind, .pending, generation, request, now, now, deadlineMillis, none, none⟩
  ported (ask (.insertOperation operation))
  operationEvent owner workloadId id
  pure operation

/-- The pages that a call reads are bounded here; one that reads more is left out of a run. -/
def outOfPages : VmmError := ⟨.unavailable, "", none⟩

/-- `VmmService::operation_for`. -/
def operationFor (owner : String) (workloadId : WorkloadId) (generation : Generation) :
    Nat → Option OperationId → Code OperationRecord
  | 0, _ => .fail outOfPages
  | pages + 1, cursor => do
      let page ← ported (ask (.operations owner ⟨some workloadId, none⟩ cursor pageSize))
      match page.items.find? fun operation => operation.generation = some generation with
      | some found => pure found
      | none =>
        match page.nextCursor with
        | some next => operationFor owner workloadId generation pages (some next)
        | none => .fail ⟨.notFound, "no operation recorded for this generation", none⟩

variable (record : WorkloadRecord)

/-- `VmmService::check_version`. -/
def checkVersion (ifMatch : Option Nat) : Except VmmError Unit :=
  match ifMatch with
  | some expected =>
    if expected ≠ record.resourceVersion then
      .error ⟨.resourceVersionMismatch, "the resource version changed", none⟩
    else .ok ()
  | none => .ok ()

/-- `VmmService::freshness`: nothing, if the command applies. -/
def freshness (generation : Generation) (pages : Nat) : Code (Option OperationRecord) :=
  match commandFreshness (some record.desired.generation) generation with
  | .apply => pure none
  | .replay => do
      let operation ← operationFor owner record.id generation pages none
      pure (some operation)
  | .stale =>
    .fail ⟨.staleGeneration, "a newer generation was applied", some record.desired.generation⟩

/-- `VmmService::save`. The version is a `u64`. -/
def save (expected : Nat) (recording : Option Observation) : Code WorkloadRecord := do
  let now ← ask .unixMillis
  let record := { record with resourceVersion := (expected + 1) % 2 ^ 64, updatedAtMillis := now }
  let answer ← ask (.replaceWorkload record expected recording)
  match answer with
  | .ok _ => pure record
  | .error .conflict =>
    .fail ⟨.resourceVersionMismatch, "the workload changed concurrently", none⟩
  | .error e => .fail (.ofPort e)

/-- `VmmService::create`. -/
def create (id : WorkloadId) (spec : WorkloadSpec) (desired : DesiredStatus)
    (deadlineMillis : Option Int) : Code OperationRecord :=
  if desired.state ≠ .stopped ∧ desired.state ≠ .running then
    .fail ⟨.invalidTransition, "a workload starts stopped or running", none⟩
  else do
    let runtime ← runtime spec.runtime
    if spec.ingress ≠ [] ∧ runtime.httpIngress = false then
      .fail ⟨.unsupportedOperation, "the runtime has no ingress", none⟩
    else do
      let now ← ask .unixMillis
      let answer ← ask (.insertWorkload ⟨owner, id, spec, desired, none, none, 1, now, now⟩)
      match answer with
      | .error .conflict => .fail ⟨.alreadyExists, "the workload already exists", none⟩
      | .error e => .fail (.ofPort e)
      | .ok _ => newOperation owner (some id) .create (some desired.generation) none deadlineMillis

inductive LifecycleCommand
  | start
  | stop
  | pause
  | resume
  | delete
  deriving DecidableEq

/-- `LifecycleCommand::kind`. -/
def LifecycleCommand.kind : LifecycleCommand → OperationKind
  | start => .start
  | stop => .stop
  | pause => .pause
  | resume => .resume
  | delete => .delete

def LifecycleCommand.target : LifecycleCommand → DesiredState
  | start | resume => .running
  | stop => .stopped
  | pause => .paused
  | delete => .deleted

/-- What the runtime has to support for a command. -/
def LifecycleCommand.operation : LifecycleCommand → WorkloadOperation
  | pause | resume => .pause
  | start => .start
  | stop => .stop
  | delete => .delete

/-- `VmmService::command`. -/
def command (owner : String) (id : WorkloadId) (command : LifecycleCommand) (generation : Generation)
    (ifMatch : Option Nat) (deadlineMillis : Option Int) (pages : Nat) : Code OperationRecord := do
  let record ← load owner id
  let replay ← freshness owner record generation pages
  match replay with
  | some replay => pure replay
  | none => do
      Prog.ofExcept (checkVersion record ifMatch)
      if command = .resume ∧ record.desired.state ≠ .paused then
        .fail ⟨.invalidTransition, "only a paused workload resumes", none⟩
      else do
        ruled (desiredTransition record.desired.state command.target)
        let runtime ← runtime record.spec.runtime
        ruled (runtime.check command.operation)
        let _ ← save { record with desired := ⟨command.target, generation⟩ } record.resourceVersion none
        newOperation owner (some id) command.kind (some generation) none deadlineMillis

/-- `VmmService::update_spec`. -/
def updateSpec (id : WorkloadId) (spec : WorkloadSpec) (generation : Generation)
    (ifMatch : Option Nat) (deadlineMillis : Option Int) (pages : Nat) : Code OperationRecord := do
  let record ← load owner id
  let replay ← freshness owner record generation pages
  match replay with
  | some replay => pure replay
  | none => do
      Prog.ofExcept (checkVersion record ifMatch)
      if record.desired.state = .deleted then .fail (.ofLifecycle .deleted)
      else do
        let _ ← runtime spec.runtime
        let _ ← save { record with spec := spec, desired := ⟨record.desired.state, generation⟩ }
          record.resourceVersion none
        newOperation owner (some id) .updateSpec (some generation) none deadlineMillis

/-- `VmmService::restore`. -/
def restore (id : WorkloadId) (generation : Generation) (request : String)
    (ifMatch : Option Nat) (deadlineMillis : Option Int) (pages : Nat) : Code OperationRecord := do
  let record ← load owner id
  let replay ← freshness owner record generation pages
  match replay with
  | some replay => pure replay
  | none => do
      Prog.ofExcept (checkVersion record ifMatch)
      ruled (desiredTransition record.desired.state .running)
      let runtime ← runtime record.spec.runtime
      ruled (runtime.check .snapshot)
      let _ ← save { record with desired := ⟨.running, generation⟩ } record.resourceVersion none
      newOperation owner (some id) .restore (some generation) (some request) deadlineMillis

inductive OperationTarget
  | workload (id : WorkloadId)
  | runtime (key : String)

def WorkloadOperation.kind : WorkloadOperation → Option OperationKind
  | invoke | invokeChain => some .invoke
  | exec => some .exec
  | build => some .build
  | snapshot => some .snapshot
  | _ => none

/-- The target of a data-plane operation is checked in `VmmService::submit`. -/
def submitTarget (operation : WorkloadOperation) : OperationTarget → Code (Option WorkloadId)
  | .runtime key => do
      let runtime ← runtime key
      ruled (runtime.check operation)
      pure none
  | .workload id => do
      let record ← load owner id
      let runtime ← runtime record.spec.runtime
      ruled (runtime.check operation)
      match record.desired.state with
      | .running => pure (some id)
      | .deleted => .fail (.ofLifecycle .deleted)
      | _ =>
        -- a snapshot of a paused or stopped instance is fine
        if operation = .snapshot then pure (some id)
        else .fail ⟨.invalidTransition, "the workload is not desired running", none⟩

/-- `VmmService::submit`. -/
def submit (target : OperationTarget) (operation : WorkloadOperation)
    (request : String) (deadlineMillis : Option Int) : Code OperationRecord :=
  match operation.kind with
  | none => .fail ⟨.invalidRequest, "not a data-plane operation", none⟩
  | some kind => do
      let workloadId ← submitTarget owner operation target
      newOperation owner workloadId kind none (some request) deadlineMillis

/-- `VmmService::operation`. -/
def operation (owner : String) (id : OperationId) : Code OperationRecord := do
  let found ← ported (ask (.operation owner id))
  match found with
  | some record => pure record
  | none => .fail ⟨.notFound, "no such operation", none⟩

/-- The rounds of `VmmService::cancel` that are left. -/
def cancelLoop (owner : String) (id : OperationId) : Nat → Code OperationRecord
  | 0 => .fail ⟨.idempotencyInProgress, "the operation keeps changing", none⟩
  | attempts + 1 => do
      let found ← operation owner id
      let now ← ask .unixMillis
      let cancelled ← ruled (found.transition .cancelled now)
      let answer ← ask (.replaceOperation cancelled found.state)
      match answer with
      | .ok _ => do
          operationEvent owner cancelled.workloadId id
          pure cancelled
      | .error .conflict => cancelLoop owner id attempts
      | .error e => .fail (.ofPort e)

/-- `VmmService::cancel`. -/
def cancel (id : OperationId) : Code OperationRecord := cancelLoop owner id casAttempts

/-- An operation with the outcome that `VmmService::finish` gives it. -/
def finished (operation : OperationRecord) (outcome : Except VmmError (Option String)) (now : Int) :
    Except LifecycleError OperationRecord := do
  match outcome with
  | .ok result => do
      let operation ← operation.transition .succeeded now
      pure { operation with result := result }
  | .error error => do
      let operation ← operation.transition .failed now
      pure { operation with error := some ⟨error.failure, error.detail⟩ }

/-- `VmmService::finish`. -/
def finish (running : OperationRecord) (outcome : Except VmmError (Option String)) :
    Code OperationRecord := do
  let now ← ask .unixMillis
  let ended ← ruled (finished running outcome now)
  let answer ← ask (.replaceOperation ended .running)
  match answer with
  -- cancelled meanwhile: the result is discarded
  | .error .conflict => operation ended.owner ended.id
  | .error e => .fail (.ofPort e)
  | .ok _ => do
      operationEvent ended.owner ended.workloadId ended.id
      pure ended

/-- The rounds of `VmmService::record_observation` that are left. -/
def recordObservationLoop (owner : String) (id : WorkloadId) (observation : Observation)
    (applied : Option Generation) : Nat → Code WorkloadRecord
  | 0 => .fail ⟨.unavailable, "the workload keeps changing", none⟩
  | attempts + 1 => do
      let record ← load owner id
      ruled (acceptObservation record.desired.generation record.observed observation)
      let saved ← (save { record with
        observed := some observation
        appliedGeneration := applied.or record.appliedGeneration }
        record.resourceVersion (some observation)).attempt
      match saved with
      | .ok record => do
          event owner id .observed (some observation) none
          pure record
      | .error e =>
        if e.failure = .resourceVersionMismatch then
          recordObservationLoop owner id observation applied attempts
        else .fail e

variable (owner : String)

/-- `VmmService::record_observation`. -/
def recordObservation (id : WorkloadId) (observation : Observation)
    (applied : Option Generation) : Code WorkloadRecord :=
  recordObservationLoop owner id observation applied casAttempts

/-- `VmmService::converge`. -/
def converge (operation : OperationRecord) (record : WorkloadRecord) : Code Bool :=
  if operation.generation.any fun generation => generation.value < record.desired.generation.value then
    .fail ⟨.staleGeneration, "superseded by a newer generation", some record.desired.generation⟩
  else
    let desired := some (record.desired.state, record.desired.generation)
    let action := reconcile desired record.observed
    if action = .none then pure true
    else do
      let observation ← ported (ask (.step record action))
      let record ← recordObservation operation.owner record.id observation
        (some record.desired.generation)
      if reconcile desired record.observed = .none then do
        (if record.desired.state = .deleted then
          event operation.owner record.id .deleted none (some operation.id)
        else pure ())
        pure true
      else pure false

/-- `VmmService::execute`, of a lifecycle operation once its snapshot, if it has one, is restored. -/
def convergeOnce (operation : OperationRecord) (record : WorkloadRecord) : Code OperationRecord := do
  let converged ← (converge operation record).attempt
  match converged with
  | .ok true => finish operation (.ok none)
  | .ok false => pure operation
  | .error e => if e.failure.retryable then pure operation else finish operation (.error e)

/-- `VmmService::execute`, of an operation that is running, once its workload is loaded. -/
def attemptOperation (operation : OperationRecord) (record : Option WorkloadRecord) :
    Code OperationRecord :=
  match operation.kind with
  | .invoke | .exec | .build | .snapshot => do
      let answer ← ask (.run record operation)
      finish operation ((answer.map some).mapError VmmError.ofPort)
  | .copyFiles => finish operation (.ok none)
  | _ =>
    match record with
    | none => finish operation (.error ⟨.invalidRequest, "no workload", none⟩)
    | some record =>
      if operation.kind = .restore ∧ record.appliedGeneration ≠ operation.generation then do
        let answer ← ask (.run (some record) operation)
        match answer with
        | .error e => finish operation (.error (.ofPort e))
        | .ok _ => do
            -- the restored instance is the new generation's
            let record ← load owner record.id
            convergeOnce operation record
      else convergeOnce operation record

/-- `VmmService::execute`, of an operation that was pending or found to be something else. -/
def executeRunning (operation : OperationRecord) : Code OperationRecord :=
  if operation.state ≠ .running then pure operation
  else do
    let expired ← (match operation.deadlineMillis with
      | some deadline => do
          let now ← ask .unixMillis
          pure (decide (deadline ≤ now))
      | none => pure false)
    if expired then finish operation (.error ⟨.deadlineExceeded, "the deadline passed", none⟩)
    else
      match operation.workloadId with
      | some workloadId => do
          let record ← load owner workloadId
          attemptOperation owner operation (some record)
      | none => attemptOperation owner operation none

/-- `VmmService::execute`. -/
def execute (id : OperationId) : Code OperationRecord := do
  let found ← operation owner id
  if found.state = .pending then do
    let now ← ask .unixMillis
    let running ← ruled (found.transition .running now)
    let answer ← ask (.replaceOperation running .pending)
    match answer with
    | .error .conflict => operation owner id
    | .error e => .fail (.ofPort e)
    | .ok _ => executeRunning owner running
  else executeRunning owner found

/-- `VmmService::each_workload`, with what the visits hand on. -/
def eachWorkload {α : Type} (visit : α → WorkloadRecord → Code α) :
    Nat → Option WorkloadId → α → Code α
  | 0, _, _ => .fail outOfPages
  | pages + 1, cursor, acc => do
      let page ← ported (ask (.allWorkloads cursor pageSize))
      let acc ← page.items.foldlM visit acc
      match page.nextCursor with
      | some next => eachWorkload visit pages (some next) acc
      | none => pure acc

structure ObservationReport where
  recorded : Nat := 0
  lost : Nat := 0
  undesired : List WorkloadId := []
  deriving DecidableEq

/-- The observation, at a time, of a workload that the backend does not report any more. -/
def lostObservation : Option (Int → Observation) :=
  record.observed.bind fun previous =>
    if (previous.state = .pending ∨ previous.state = .running ∨ previous.state = .paused) ∧
        record.desired.state ≠ .deleted then
      some fun now => ⟨.lost, previous.generation, (previous.sequence + 1) % 2 ^ 64,
        some "the backend no longer reports the instance", now⟩
    else none

/-- What `VmmService::observe` hands from visit to visit: what is reported of workloads that it has not
seen yet, and its report. -/
abbrev Observing := Store WorkloadId Observation × ObservationReport

/-- An observation is recorded and counted in `VmmService::observe`. -/
def observeRecord (observation : Observation) (acc : Observing) : Code Observing := do
  let answer ← (recordObservation record.owner record.id observation none).attempt
  match answer with
  | .ok _ => pure (acc.1, { acc.2 with recorded := acc.2.recorded + 1 })
  | .error e =>
    -- old news: a newer observation is already recorded
    if e.failure = .staleObservation then pure acc else .fail e

/-- One visit of `VmmService::observe`. -/
def observeWorkload (acc : Observing) (record : WorkloadRecord) : Code Observing :=
  match acc.1.get record.id with
  | some observation => observeRecord record observation (acc.1.erase record.id, acc.2)
  | none =>
    match lostObservation record with
    | none => pure acc
    | some observation => do
        let now ← ask .unixMillis
        observeRecord record (observation now) (acc.1, { acc.2 with lost := acc.2.lost + 1 })

/-- `VmmService::observe`. -/
def observe (pages : Nat) : Code ObservationReport := do
  let all ← ported (ask .observeAll)
  let reported := all.foldl (fun m entry => m.put entry.1 entry.2) ∅
  let visited ← eachWorkload observeWorkload pages none (reported, {})
  pure { visited.2 with undesired := visited.1.keys.insertionSort (· ≤ ·) }

def ReconcileAction.kind : ReconcileAction → Option OperationKind
  | none | adopt => .none
  | start => some .start
  | stop => some .stop
  | pause => some .pause
  | resume => some .resume
  | delete => some .delete
  | restart => some .restart

/-- One visit of `VmmService::reconcile`. -/
def reconcileWorkload (opened : Nat) (record : WorkloadRecord) : Code Nat :=
  let action := reconcile (some (record.desired.state, record.desired.generation)) record.observed
  match action.kind with
  | none => pure opened
  | some kind => do
      let page ← ported (ask (.operations record.owner ⟨some record.id, none⟩ none pageSize))
      if page.items.any fun operation =>
          (operation.state = .pending ∨ operation.state = .running) ∧ operation.generation.isSome then
        pure opened
      else do
        let _ ← newOperation record.owner (some record.id) kind (some record.desired.generation) none none
        pure (opened + 1)

/-- `VmmService::reconcile`. -/
def reconcileAll (pages : Nat) : Code Nat := eachWorkload reconcileWorkload pages none 0

/-! ## The system -/

inductive Call
  | create (owner : String) (id : WorkloadId) (spec : WorkloadSpec) (desired : DesiredStatus)
      (deadlineMillis : Option Int)
  | command (owner : String) (id : WorkloadId) (command : LifecycleCommand) (generation : Generation)
      (ifMatch : Option Nat) (deadlineMillis : Option Int) (pages : Nat)
  | updateSpec (owner : String) (id : WorkloadId) (spec : WorkloadSpec) (generation : Generation)
      (ifMatch : Option Nat) (deadlineMillis : Option Int) (pages : Nat)
  | restore (owner : String) (id : WorkloadId) (generation : Generation) (request : String)
      (ifMatch : Option Nat) (deadlineMillis : Option Int) (pages : Nat)
  | submit (owner : String) (target : OperationTarget) (operation : WorkloadOperation)
      (request : String) (deadlineMillis : Option Int)
  | cancel (owner : String) (id : OperationId)
  | execute (owner : String) (id : OperationId)
  | observe (pages : Nat)
  | reconcile (pages : Nat)

/-- What a call returns. -/
inductive Outcome
  | operation (record : OperationRecord)
  | observed (report : ObservationReport)
  | reconciled (opened : Nat)

def Call.code : Call → Code Outcome
  | create owner id spec desired deadlineMillis => do
      pure (.operation (← Vmm.create owner id spec desired deadlineMillis))
  | command owner id asked generation ifMatch deadlineMillis pages => do
      pure (.operation (← Vmm.command owner id asked generation ifMatch deadlineMillis pages))
  | updateSpec owner id spec generation ifMatch deadlineMillis pages => do
      pure (.operation (← Vmm.updateSpec owner id spec generation ifMatch deadlineMillis pages))
  | restore owner id generation request ifMatch deadlineMillis pages => do
      pure (.operation (← Vmm.restore owner id generation request ifMatch deadlineMillis pages))
  | submit owner target operation request deadlineMillis => do
      pure (.operation (← Vmm.submit owner target operation request deadlineMillis))
  | cancel owner id => do pure (.operation (← Vmm.cancel owner id))
  | execute owner id => do pure (.operation (← Vmm.execute owner id))
  | observe pages => do pure (.observed (← Vmm.observe pages))
  | reconcile pages => do pure (.reconciled (← reconcileAll pages))

/-- The service; the environment changes the world as it likes. -/
def service : Machine Shared Unit Call Op Op.Ans VmmError Outcome World where
  exec := Op.exec
  environment world s := { s with world := world }
  prog := Call.code
  own _ := ()

abbrev System (ι : Type) := Sys ι Shared Unit Call Op Op.Ans VmmError Outcome

end Aseman.Vmm
