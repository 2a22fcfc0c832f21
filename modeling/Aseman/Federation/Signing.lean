import Aseman.Federation.Interference
import Aseman.Lib.UuidText

/-!
# What a source node signs of an envelope

`NodeProofSigner` makes a proof of an envelope and a payload; the destination compares the proof with the
envelope that arrives beside it. The proof covers the source, the request ID, the action, the target and
the payload. It carries the nonce and the times too, but nothing compares these with the envelope, and it
does not cover the subject, the destination and the hop limit: an envelope is executed as it was signed
exactly where these were left as they were.
-/

namespace Aseman.Federation

open Identity (Bytes Proof SignatureContext CredentialWindow IdentityKey)

/-! ## The signer -/

structure SignedFields where
  algorithm : String
  keyId : String
  keyEpoch : Nat
  subject : Subject
  audience : String
  window : CredentialWindow
  nonce : Bytes
  requestId : String
  action : String
  resource : String
  bodyDigest : Bytes
  deriving DecidableEq

/-- The key is given by what it signs: the signing input is made of the context and the fields. -/
structure NodeProofSigner where
  nodeId : Uuid
  keyEpoch : Nat
  keyId : String
  key : SignatureContext → SignedFields → Bytes
  audience : String

def signEd25519 (key : SignatureContext → SignedFields → Bytes) (context : SignatureContext)
    (fields : SignedFields) : Proof where
  context := context
  algorithm := fields.algorithm
  keyId := fields.keyId
  keyEpoch := fields.keyEpoch
  subject := fields.subject
  audience := fields.audience
  window := fields.window
  nonce := fields.nonce
  requestId := fields.requestId
  action := fields.action
  resource := fields.resource
  bodyDigest := fields.bodyDigest
  signature := key context fields

variable (config : Config)

/-- `NodeProofSigner::proof_header`, before the proof is encoded. -/
def NodeProofSigner.proofHeader (signer : NodeProofSigner) (envelope : Envelope) (payload : Bytes) :
    Except String Proof :=
  if envelope.sourceNode ≠ signer.nodeId then
    .error "the envelope source does not match the node credential"
  else .ok <| signEd25519 signer.key .request
    { algorithm := "ed25519"
      keyId := signer.keyId
      keyEpoch := signer.keyEpoch
      subject := ⟨.node, signer.nodeId⟩
      audience := signer.audience
      window := ⟨envelope.issuedAtMillis, envelope.issuedAtMillis, envelope.expiresAtMillis⟩
      nonce := utf8 envelope.nonce
      requestId := config.uuidText envelope.requestId
      action := envelope.action
      resource := envelope.target
      bodyDigest := config.verifier.bodyDigest payload }

/-- A signer that was asked for a proof. -/
structure Signing where
  signer : NodeProofSigner
  envelope : Envelope
  payload : Bytes

section

variable (signings : Set Signing)

/-- A request verifies under a node's key only if a signer of that node produced its proof. -/
def Unforgeable : Prop :=
  ∀ proof (key : IdentityKey), proof.context = .request → key.epoch.subject.kind = .node →
    config.verifier.verify proof key = .ok () →
    ∃ x ∈ signings, x.signer.nodeId = key.epoch.subject.id ∧
      x.signer.proofHeader config x.envelope x.payload = .ok proof

/-- A signer of the envelope's source node produced the proof. -/
def SignedFor (proof : Proof) (envelope : Envelope) (x : Signing) : Prop :=
  x ∈ signings ∧ x.signer.nodeId = envelope.sourceNode ∧
    x.signer.proofHeader config x.envelope x.payload = .ok proof

end

/-! ## The destination -/

/-- The proof names what the envelope names, it verifies under a key of its subject, and its digest is of
the payload. -/
structure Verified (request : Request) : Prop where
  binds : binds config request.proof request.envelope
  digest : config.verifier.bodyDigest request.payload = request.proof.bodyDigest
  verify : ∃ key : IdentityKey, key.epoch.subject = request.proof.subject ∧
    config.verifier.verify request.proof key = .ok ()

/-- The port calls of a request before it is verified, and after. -/
def RequestAsks (request : Request) : Op → Prop
  | .execute envelope payload =>
    (envelope = request.envelope ∧ payload = request.payload) ∧ Verified config request
  | _ => True

/-- A thread is at the start of its request, or executes the request only if it is verified. -/
def Pending (call : ServiceCall)
    (rest : Prog Op Op.Ans FederationHttpError SignedFederationResponse) : Prop :=
  rest = invoke config call.request ∨ rest.Only (RequestAsks config call.request)

variable {config} {signings : Set Signing} {proof : Proof} {envelope : Envelope} {payload : Bytes}

theorem Verified.signed (h : Verified config ⟨proof, envelope, payload⟩)
    (hforge : Unforgeable config signings) :
    ∃ x, SignedFor config signings proof envelope x := by
  obtain ⟨key, hsubject, hverify⟩ := h.verify
  have hnode := subject_of_binds h.binds
  have hcontext : proof.context = .request := by
    have hbinds := h.binds
    simp only [Federation.binds, Bool.and_eq_true, decide_eq_true_eq] at hbinds
    exact hbinds.1.1.1.1.1
  obtain ⟨x, hx, hid, hproof⟩ := hforge proof key hcontext (by rw [hsubject, hnode]) hverify
  exact ⟨x, hx, by rw [hid, hsubject, hnode], hproof⟩

def sampleProof : Proof :=
  { samplePeer.request.proof with window := ⟨0, 0, 10⟩, nonce := utf8 "b", requestId := uuidText 5 }

end Aseman.Federation
