import Aseman.Authority.Grants
import Aseman.Federation.Envelope
import Aseman.Identity.UseCases
import Aseman.Lib.Interleaving
import Aseman.Lib.Text

/-!
# Serving federated requests

`ServeFederatedRequest::serve` and `FederationService::invoke`, as programs over the ports they call: each
port call is one operation on the state of the node. The envelope guard of the capsule protocol is
modelled, with the replay guard and the keys of the identity use cases; the clock, the directory of nodes,
the policy, the executor and the signer answer as the node's surroundings say at that moment.
-/

namespace Aseman.Federation

open Identity (Bytes Proof Verifier VerifierPolicy IdentityFailure)
open Authority (PolicyRequest PolicyDecision DecisionReason)

structure Request where
  proof : Proof
  envelope : Envelope
  payload : Bytes
  deriving DecidableEq

/-! ## The envelope guard -/

/-- The nonces and the answers that the node remembers, with their expiry. -/
structure Guard where
  nonces : Uuid × String → Option Int
  answers : Uuid → Option (String × Int)

/-- `nonce_key`. The text of a UUID has a fixed length, so that the pair stands for the joined text. -/
def Envelope.nonceKey (envelope : Envelope) : Uuid × String := (envelope.sourceNode, envelope.nonce)

namespace Guard

/-- `remember_nonce`: false where it is already recorded. -/
def rememberNonce (guard : Guard) (envelope : Envelope) : Bool × Guard :=
  match guard.nonces envelope.nonceKey with
  | some _ => (false, guard)
  | none => (true, { guard with
      nonces := Function.update guard.nonces envelope.nonceKey (some envelope.expiresAtMillis) })

def forgetNonce (guard : Guard) (envelope : Envelope) : Guard :=
  { guard with nonces := Function.update guard.nonces envelope.nonceKey none }

def recordAnswer (guard : Guard) (requestId : Uuid) (answer : String) (expiresAtMillis : Int) :
    Guard :=
  match guard.answers requestId with
  | some _ => guard
  | none => { guard with
      answers := Function.update guard.answers requestId (some (answer, expiresAtMillis)) }

def purgeExpired (guard : Guard) (nowMillis : Int) : Guard where
  nonces key := (guard.nonces key).filter fun expires => !(expires < nowMillis)
  answers id := (guard.answers id).filter fun row => !(row.2 < nowMillis)

end Guard

/-! ## The node and its ports -/

structure UnsignedResponse where
  requestId : Uuid
  outcome : String
  answer : Option String
  reason : Option String
  deriving DecidableEq

/-- What the node's surroundings answer at a moment. -/
structure Ports where
  now : Int
  /-- Whether the directory has a fresh descriptor of the node at that time. -/
  node : Uuid → Int → Except PortError Bool
  decide : PolicyRequest → Except PortError PolicyDecision
  execute : Envelope → Bytes → Except PortError String
  sign : UnsignedResponse → Except PortError String
  /-- Whether a call of the guard fails, and whether it had taken effect. -/
  fault : Option Fault
  /-- What happens at the calls of the key directory. -/
  keyFaults : List (Option Fault)

structure Node where
  guard : Guard
  identity : Identity.World
  ports : Ports
  /-- The execute calls that returned success: which call made it, for which envelope, with which
  answer. -/
  executed : List (Nat × Envelope × String)
  /-- The call that last remembered a nonce in time and has not forgotten it. -/
  holder : Uuid × String → Option Nat

/-- The port calls. -/
inductive Op where
  | authenticate (proof : Proof) (body : Bytes)
  | now
  | recordedAnswer (requestId : Uuid)
  | rememberNonce (envelope : Envelope)
  | node (source : Uuid) (nowMillis : Int)
  | decide (request : PolicyRequest)
  | execute (envelope : Envelope) (payload : Bytes)
  | forgetNonce (envelope : Envelope)
  | recordAnswer (requestId : Uuid) (answer : String) (expiresAtMillis : Int)
  | sign (response : UnsignedResponse)

abbrev Op.Ans : Op → Type
  | .authenticate .. => Except IdentityFailure Subject
  | .now => Int
  | .recordedAnswer _ => Except PortError (Option String)
  | .rememberNonce _ => Except PortError Bool
  | .node .. => Except PortError Bool
  | .decide _ => Except PortError PolicyDecision
  | .execute .. => Except PortError String
  | .forgetNonce _ => Except PortError Unit
  | .recordAnswer .. => Except PortError Unit
  | .sign _ => Except PortError String

/-- How far a call has come with its nonce. -/
inductive Stage where
  /-- The clock has not been read. -/
  | fresh
  /-- The clock has been read and the nonce is still to be asked for. -/
  | pending (now : Int)
  /-- The nonce was new and is not forgotten, and the envelope had not expired. -/
  | holding
  /-- The nonce was seen before, is forgotten, or has done its work. -/
  | past
  deriving DecidableEq

/-- What a call keeps of itself. -/
structure Own where
  slot : Nat
  envelope : Envelope
  stage : Stage

/-- The call read the clock before its envelope expired. -/
def Own.inTime (own : Own) : Bool :=
  match own.stage with
  | .pending now => now < own.envelope.expiresAtMillis
  | _ => false

/-- A call of the guard: it may fail before or after it has taken effect. -/
def guarded {α : Type} (node : Node) (answer : α) (done : Node) : Except PortError α × Node :=
  match node.ports.fault with
  | none => (.ok answer, done)
  | some fault => (.error fault.error, if fault.applied then done else node)

def remembered (node : Node) (own : Own) (envelope : Envelope) : Node :=
  let (first, guard) := node.guard.rememberNonce envelope
  { node with
    guard := guard
    holder := if first && own.inTime
      then Function.update node.holder envelope.nonceKey (some own.slot) else node.holder }

def forgotten (node : Node) (envelope : Envelope) : Node :=
  { node with
    guard := node.guard.forgetNonce envelope
    holder := Function.update node.holder envelope.nonceKey none }

def answered (node : Node) (requestId : Uuid) (answer : String) (expiresAtMillis : Int) : Node :=
  { node with guard := node.guard.recordAnswer requestId answer expiresAtMillis }

def ran (node : Node) (own : Own) (envelope : Envelope) (answer : String) : Node :=
  { node with executed := node.executed ++ [(own.slot, envelope, answer)] }

/-- The static configuration: texts, digests, signatures and this node's name. -/
structure Config where
  nodeId : Uuid
  audience : String
  verifier : Verifier
  parseUuid : String → Option Uuid
  uuidText : Uuid → String
  digestText : Bytes → String

section

variable (config : Config)

def credentialPolicy : VerifierPolicy := ⟨config.audience, ⟨30000, 60000⟩, ⟨24 * 60 * 60 * 1000⟩⟩

/-- `AuthenticateProof`, run on the node's keys and nonces. -/
def authenticate (node : Node) (proof : Proof) (body : Bytes) :
    Except IdentityFailure Subject × Node :=
  match Identity.authenticateProof config.verifier node.ports.now proof body
      (credentialPolicy config) { node.identity with faults := node.ports.keyFaults } with
  | .ok subject identity => (.ok subject, { node with identity := identity })
  | .error e identity => (.error e, { node with identity := identity })

def exec : (o : Op) → Node → Own → Op.Ans o × Node × Own
  | .authenticate proof body, node, own =>
    let (reply, node) := authenticate config node proof body
    (reply, node, own)
  | .now, node, own => (node.ports.now, node, { own with stage := .pending node.ports.now })
  | .recordedAnswer requestId, node, own =>
    let (reply, node) := guarded node ((node.guard.answers requestId).map (·.1)) node
    (reply, node, own)
  | .rememberNonce envelope, node, own =>
    let (reply, node) := guarded node (node.guard.rememberNonce envelope).1
      (remembered node own envelope)
    (reply, node, { own with
      stage := if reply = .ok true && own.inTime then .holding else .past })
  | .node source nowMillis, node, own => (node.ports.node source nowMillis, node, own)
  | .decide request, node, own => (node.ports.decide request, node, own)
  | .execute envelope payload, node, own =>
    match node.ports.execute envelope payload with
    | .ok answer => (.ok answer, ran node own envelope answer, { own with stage := .past })
    | .error e => (.error e, node, own)
  | .forgetNonce envelope, node, own =>
    let (reply, node) := guarded node () (forgotten node envelope)
    (reply, node, { own with stage := .past })
  | .recordAnswer requestId answer expiresAtMillis, node, own =>
    let (reply, node) := guarded node () (answered node requestId answer expiresAtMillis)
    (reply, node, own)
  | .sign response, node, own => (node.ports.sign response, node, own)

/-! ## The use case -/

inductive Refusal where
  | envelope (error : FederationError)
  | unknownPeer
  | denied (reason : DecisionReason)
  | unknownSubject
  | unknownTarget
  deriving DecidableEq

inductive Served where
  | executed (answer : String)
  | replayed (answer : String)
  | refused (refusal : Refusal)
  deriving DecidableEq

/-- `subject_of`: a federated envelope carries a workload or a creature. -/
def subjectOf (text : String) : Option Subject := do
  let (kind, id) ← Text.splitOnce text ':'
  let kind ← match kind with
    | "workload" => some SubjectKind.workload
    | "creature" => some SubjectKind.creature
    | _ => none
  let id ← config.parseUuid id
  pure ⟨kind, id⟩

abbrev Code (ε α : Type) := Prog Op Op.Ans ε α

variable (envelope : Envelope)

/-- What the destination's policy is asked: no fact is established by an envelope's arrival. -/
def policyRequest (subject : Subject) (kind id : String) (now : Int) : PolicyRequest where
  subject := some subject
  action := envelope.action
  resource := ⟨kind, id⟩
  facts := []
  grants := []
  atMillis := now

/-- The end of `serve`: the effect, and its answer recorded. -/
def effect (payload : Bytes) : Code PortError Served := do
  let reply : Except PortError String ← Prog.perform (Op.execute envelope payload)
  match reply with
  | .error e => do
      -- A failed effect is not an answer: the same request may be retried.
      Prog.ofExcept (← Prog.perform (.forgetNonce envelope))
      Prog.fail e
  | .ok answer => do
      Prog.ofExcept (← Prog.perform (.recordAnswer envelope.requestId answer envelope.expiresAtMillis))
      pure (.executed answer)

/-- The middle of `serve`: the peer, the subject, the target and the policy. -/
def reauthorize (payload : Bytes) (now : Int) : Code PortError Served := do
  let known ← Prog.ofExcept (← Prog.perform (.node envelope.sourceNode now))
  if !known then pure (.refused .unknownPeer)
  else match subjectOf config envelope.subject with
  | none => pure (.refused .unknownSubject)
  | some subject =>
    match Text.splitOnce envelope.target ':' with
    | none => pure (.refused .unknownTarget)
    | some (kind, id) => do
        let decision ← Prog.ofExcept
          (← Prog.perform (.decide (policyRequest envelope subject kind id now)))
        if !decision.allowed then pure (.refused (.denied decision.reason))
        else effect envelope payload

/-- `ServeFederatedRequest::serve`. -/
def serve (payload : Bytes) : Code PortError Served := do
  let now ← Prog.perform .now
  -- A retry is answered from the record, before anything else.
  match ← Prog.ofExcept (← Prog.perform (.recordedAnswer envelope.requestId)) with
  | some answer => pure (.replayed answer)
  | none => do
      let first ← Prog.ofExcept (← Prog.perform (.rememberNonce envelope))
      match accept envelope config.nodeId now (!first) with
      | .error e => pure (.refused (.envelope e))
      | .ok () => reauthorize config envelope payload now

/-! ## The service -/

inductive FederationHttpError where
  | malformed (message : String)
  | authentication (message : String)
  | unavailable (error : PortError)
  | identityUnavailable (failure : IdentityFailure)
  deriving DecidableEq

structure SignedFederationResponse where
  requestId : Uuid
  outcome : String
  answer : Option String
  reason : Option String
  signature : String
  deriving DecidableEq

def refusalCode : Refusal → String
  | .envelope _ => "invalid_envelope"
  | .unknownPeer => "unknown_peer"
  | .denied _ => "destination_denied"
  | .unknownSubject => "unknown_subject"
  | .unknownTarget => "unknown_target"

/-- `FederationService::signed`. -/
def signed (response : UnsignedResponse) : Code FederationHttpError SignedFederationResponse := do
  let reply : Except PortError String ← Prog.perform (Op.sign response)
  match reply with
  | .error e => Prog.fail (.unavailable e)
  | .ok signature =>
    pure ⟨response.requestId, response.outcome, response.answer, response.reason, signature⟩

/-- The proof is a request of the source node and names what the envelope names. -/
def binds (proof : Proof) (envelope : Envelope) : Bool :=
  proof.context = .request && proof.subject.kind = .node && proof.subject.id = envelope.sourceNode &&
    proof.requestId = config.uuidText envelope.requestId && proof.action = envelope.action &&
    proof.resource = envelope.target

def responseTo : Served → UnsignedResponse
  | .executed answer => ⟨envelope.requestId, "executed", some answer, none⟩
  | .replayed answer => ⟨envelope.requestId, "replayed", some answer, none⟩
  | .refused refusal => ⟨envelope.requestId, "refused", none, some (refusalCode refusal)⟩

def authenticationFailure : IdentityFailure → FederationHttpError
  | .rejected error => .authentication error.code
  | other => .identityUnavailable other

/-- `FederationService::invoke`. -/
def invoke (request : Request) : Code FederationHttpError SignedFederationResponse := do
  if request.envelope.payloadDigest ≠ config.digestText request.payload then
    Prog.fail (.malformed "payload digest mismatch")
  else if !binds config request.proof request.envelope then
    Prog.fail (.authentication "proof does not bind the envelope")
  else do
    let authenticated : Except IdentityFailure Subject ←
      Prog.perform (Op.authenticate request.proof request.payload)
    match authenticated with
    | .error failure => Prog.fail (authenticationFailure failure)
    | .ok _ => do
        match ← (serve config request.envelope request.payload).attempt with
        | .error e => Prog.fail (.unavailable e)
        | .ok served => signed (responseTo request.envelope served)

end

end Aseman.Federation
