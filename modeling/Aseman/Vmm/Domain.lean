import Aseman.Ports

/-!
# Workloads

`aseman-domain`, `vmm.rs`: desired and observed states of a workload, its operations, and the rules
between them. A generation is a `u64` from 1 on.
-/

namespace Aseman.Vmm

abbrev WorkloadId := Fin (2 ^ 128)

abbrev OperationId := Fin (2 ^ 128)

structure Generation where
  value : Nat
  positive : 1 ≤ value
  deriving DecidableEq

inductive DesiredState
  | stopped
  | running
  | paused
  | deleted
  deriving DecidableEq

inductive ObservedState
  | unknown
  | pending
  | running
  | paused
  | stopped
  | failed
  | lost
  deriving DecidableEq

inductive OperationState
  | pending
  | running
  | succeeded
  | failed
  | cancelled
  deriving DecidableEq

/-- The wire spelling. -/
def OperationState.text : OperationState → String
  | pending => "pending"
  | running => "running"
  | succeeded => "succeeded"
  | failed => "failed"
  | cancelled => "cancelled"

def OperationState.terminal : OperationState → Bool
  | succeeded | failed | cancelled => true
  | _ => false

inductive Failure
  | invalidRequest
  | unauthenticated
  | forbidden
  | notFound
  | alreadyExists
  | resourceVersionMismatch
  | staleGeneration
  | invalidTransition
  | workloadDeleted
  | unsupportedOperation
  | idempotencyKeyReused
  | idempotencyInProgress
  | operationFinished
  | payloadTooLarge
  | rateLimited
  | deadlineExceeded
  | unavailable
  | backendFailure
  | staleObservation
  deriving DecidableEq

/-- Whether a client may retry the same request unchanged. -/
def Failure.retryable : Failure → Bool
  | idempotencyInProgress | rateLimited | deadlineExceeded | unavailable | backendFailure => true
  | _ => false

inductive LifecycleError
  | deleted
  | invalidTransition
  | staleGeneration
  | staleObservation
  | futureObservation
  | unsupported
  | operationFinished
  deriving DecidableEq

def LifecycleError.text : LifecycleError → String
  | deleted => "the workload is deleted"
  | invalidTransition => "the transition is not allowed"
  | staleGeneration => "the expected generation is stale"
  | staleObservation => "the observation is stale"
  | futureObservation => "the observation claims a generation that was never desired"
  | unsupported => "the runtime does not support this operation"
  | operationFinished => "the operation already finished"

def LifecycleError.failure : LifecycleError → Failure
  | deleted => .workloadDeleted
  | invalidTransition => .invalidTransition
  | staleGeneration => .staleGeneration
  | staleObservation | futureObservation => .staleObservation
  | unsupported => .unsupportedOperation
  | operationFinished => .operationFinished

/-! ## Desired states -/

def desiredTransition (source target : DesiredState) : Except LifecycleError Unit :=
  match source, target with
  | .deleted, _ => .error .deleted
  | source, target =>
    if source = target then .ok ()
    else
      match source, target with
      | .running, .paused | .paused, .running | _, .stopped | .stopped, .running | _, .deleted =>
        .ok ()
      | _, _ => .error .invalidTransition

theorem ne_deleted_of_desiredTransition {source target}
    (h : desiredTransition source target = .ok ()) : source ≠ .deleted := by
  rintro rfl
  cases h

inductive Freshness
  | apply
  | replay
  | stale
  deriving DecidableEq

def commandFreshness (applied : Option Generation) (incoming : Generation) : Freshness :=
  match applied with
  | some applied =>
    if incoming.value < applied.value then .stale
    else if incoming = applied then .replay
    else .apply
  | none => .apply

theorem lt_of_commandFreshness_apply {applied incoming}
    (h : commandFreshness (some applied) incoming = .apply) : applied.value < incoming.value := by
  by_contra hlt
  have hcases : incoming.value < applied.value ∨ incoming = applied := by
    cases applied
    cases incoming
    simp only [Generation.mk.injEq] at hlt ⊢
    omega
  rcases hcases with hstale | rfl
  · simp [commandFreshness, hstale] at h
  · simp [commandFreshness] at h

/-! ## Observations -/

structure Observation where
  state : ObservedState
  generation : Generation
  sequence : Nat
  reason : Option String
  observedAtMillis : Int
  deriving DecidableEq

/-- The order of observations: by generation and then by sequence. -/
def Observation.Before (a b : Observation) : Prop :=
  a.generation.value < b.generation.value ∨
    a.generation.value = b.generation.value ∧ a.sequence < b.sequence

instance (a b : Observation) : Decidable (a.Before b) := inferInstanceAs (Decidable (_ ∨ _))

theorem Observation.Before.trans {a b c : Observation} (hab : a.Before b) (hbc : b.Before c) :
    a.Before c := by
  unfold Observation.Before at *
  omega

theorem Observation.Before.generation_le {a b : Observation} (h : a.Before b) :
    a.generation.value ≤ b.generation.value := by
  unfold Observation.Before at h
  omega

def acceptObservation (desiredGeneration : Generation) (recorded : Option Observation)
    (incoming : Observation) : Except LifecycleError Unit :=
  if desiredGeneration.value < incoming.generation.value then .error .futureObservation
  else
    match recorded with
    | some recorded => if recorded.Before incoming then .ok () else .error .staleObservation
    | none => .ok ()

theorem acceptObservation_eq_ok {desiredGeneration recorded incoming}
    (h : acceptObservation desiredGeneration recorded incoming = .ok ()) :
    incoming.generation.value ≤ desiredGeneration.value ∧
      ∀ previous, recorded = some previous → previous.Before incoming := by
  unfold acceptObservation at h
  split at h
  · cases h
  · next hfuture =>
    refine ⟨not_lt.mp hfuture, ?_⟩
    rintro previous rfl
    by_contra hnot
    simp [hnot] at h

/-! ## Reconciliation -/

inductive ReconcileAction
  | none
  | start
  | stop
  | pause
  | resume
  | delete
  | restart
  | adopt
  deriving DecidableEq

def reconcile (desired : Option (DesiredState × Generation)) (observed : Option Observation) :
    ReconcileAction :=
  match desired with
  | .none => if observed.isSome then .adopt else .none
  | some (desired, generation) =>
    let current := observed.any fun observed => observed.generation = generation
    match desired, observed.map Observation.state, current with
    | .deleted, .none, _ => .none
    | .deleted, some .stopped, true | .deleted, some .lost, true | .deleted, some .failed, true =>
      .none
    | .deleted, some _, _ => .delete
    | .running, some .running, true => .none
    | .running, some .paused, _ => .resume
    | .running, some .failed, _ | .running, some .lost, _ => .restart
    | .running, some .pending, true => .none
    | .running, _, _ => .start
    | .paused, some .paused, true => .none
    | .paused, some .running, _ => .pause
    | .paused, _, _ => .start
    | .stopped, .none, _ | .stopped, some .stopped, _ | .stopped, some .failed, _
    | .stopped, some .lost, _ => .none
    | .stopped, _, _ => .stop

/-! ## Operations -/

def operationTransition : OperationState → OperationState → Except LifecycleError Unit
  | .succeeded, _ | .failed, _ | .cancelled, _ => .error .operationFinished
  | .pending, .running | .pending, .cancelled | .pending, .failed => .ok ()
  | .running, .succeeded | .running, .failed | .running, .cancelled => .ok ()
  | _, _ => .error .invalidTransition

theorem not_terminal_of_operationTransition {source target}
    (h : operationTransition source target = .ok ()) : source.terminal = false := by
  cases source <;> cases target <;> first | rfl | cases h

inductive WorkloadOperation
  | start
  | stop
  | pause
  | resume
  | delete
  | invoke
  | invokeChain
  | verifyExecution
  | exec
  | terminal
  | httpForward
  | copyFiles
  | build
  | snapshot
  deriving DecidableEq

/-- `RuntimeCapabilities`, as far as `check` and the service read them. -/
structure RuntimeCapabilities where
  runtime : String
  invocation : Bool
  pause : Bool
  snapshot : Bool
  exec : Bool
  terminal : Bool
  httpIngress : Bool
  files : Bool
  build : Bool
  chainTransactions : Bool
  executionProofs : Bool

/-- `RuntimeCapabilities::check`. -/
def RuntimeCapabilities.check (runtime : RuntimeCapabilities) (operation : WorkloadOperation) :
    Except LifecycleError Unit :=
  let supported := match operation with
    | .start | .stop | .delete => true
    | .pause | .resume => runtime.pause
    | .invoke => runtime.invocation
    | .invokeChain => runtime.chainTransactions
    | .verifyExecution => runtime.executionProofs
    | .exec => runtime.exec
    | .terminal => runtime.terminal
    | .httpForward => runtime.httpIngress
    | .copyFiles => runtime.files
    | .build => runtime.build
    | .snapshot => runtime.snapshot
  if supported then .ok () else .error .unsupported

inductive OperationKind
  | create
  | start
  | stop
  | pause
  | resume
  | delete
  | restart
  | updateSpec
  | invoke
  | exec
  | build
  | snapshot
  | restore
  | copyFiles
  deriving DecidableEq

/-! ## Records -/

/-- `WorkloadSpec`, as far as the service reads it. -/
structure WorkloadSpec where
  runtime : String
  /-- The names of `network.ingress`. -/
  ingress : List String
  deriving DecidableEq

structure DesiredStatus where
  state : DesiredState
  generation : Generation
  deriving DecidableEq

structure WorkloadRecord where
  owner : String
  id : WorkloadId
  spec : WorkloadSpec
  desired : DesiredStatus
  appliedGeneration : Option Generation
  observed : Option Observation
  resourceVersion : Nat
  createdAtMillis : Int
  updatedAtMillis : Int
  deriving DecidableEq

structure OperationFailure where
  code : Failure
  detail : String
  deriving DecidableEq

structure OperationRecord where
  owner : String
  id : OperationId
  workloadId : Option WorkloadId
  kind : OperationKind
  state : OperationState
  generation : Option Generation
  request : Option String
  createdAtMillis : Int
  updatedAtMillis : Int
  deadlineMillis : Option Int
  result : Option String
  error : Option OperationFailure
  deriving DecidableEq

/-- `OperationRecord::transition`. -/
def OperationRecord.transition (operation : OperationRecord) (state : OperationState)
    (atMillis : Int) : Except LifecycleError OperationRecord := do
  operationTransition operation.state state
  pure { operation with state := state, updatedAtMillis := atMillis }

end Aseman.Vmm
