import Aseman.Identity.Keys
import Aseman.Lib.Result
import Aseman.Lib.Stateful
import Mathlib.Data.List.Sort

/-!
# The identity use cases

Authentication of a proof, rotation, revocation, enrolment of a legacy identity and introduction of a
node, over the key directory. A use case is a step on the state of the directory, of the replay guard and
of the challenges; what it changed before it failed stays changed. Any call of the directory may fail: a
fault says with which error, and whether the call had taken effect.

The signatures are those of a `Verifier`, which is not modelled.
-/

namespace Aseman.Identity

/-! ## The key directory -/

/-- `MAX_QUERY_LIMIT`: the directory reads one page of a query. -/
def maxQueryLimit : Nat := 10000

/-- The keys in the order of their registration. -/
abbrev KeyDirectory := List IdentityKey

namespace KeyDirectory

def key (keys : KeyDirectory) (keyId : String) : Option IdentityKey := keys.find? (·.keyId = keyId)

def epochs (keys : KeyDirectory) (subject : Subject) (purpose : KeyPurpose) : List IdentityKey :=
  ((keys.filter (·.epoch.of subject purpose)).take maxQueryLimit).insertionSort
    fun a b => a.epoch.epoch ≤ b.epoch.epoch

/-- The unique indexes are on the key ID and on subject, purpose and epoch. -/
def clashes (a b : IdentityKey) : Bool :=
  a.keyId = b.keyId || a.epoch.of b.epoch.subject b.epoch.purpose && a.epoch.epoch = b.epoch.epoch

def timesFit (epoch : KeyEpoch) : Bool :=
  fitsMicros epoch.notBeforeMillis && epoch.expiresAtMillis.all fitsMicros &&
    epoch.retiredAtMillis.all fitsMicros && epoch.revokedAtMillis.all fitsMicros

def register (keys : KeyDirectory) (key : IdentityKey) : Except PortError KeyDirectory := do
  ensure (timesFit key.epoch) (.failed "key time overflows microseconds")
  ensure (keys.all fun stored => !clashes stored key) .conflict
  pure (keys ++ [key])

def keepEarliest (time : KeyEpoch → Option Int) (set : KeyEpoch → Int → KeyEpoch)
    (keys : KeyDirectory) (keyId : String) (atMillis : Int) : Except PortError KeyDirectory := do
  let current ← okOr (keys.key keyId) .notFound
  if (time current.epoch).any (· ≤ atMillis) then pure keys
  else do
    ensure (fitsMicros atMillis) (.failed "key time overflows microseconds")
    pure (keys.map fun key =>
      if key.keyId = keyId then { key with epoch := set key.epoch atMillis } else key)

def retire : KeyDirectory → String → Int → Except PortError KeyDirectory :=
  keepEarliest (·.retiredAtMillis) fun epoch t => { epoch with retiredAtMillis := some t }

def revoke : KeyDirectory → String → Int → Except PortError KeyDirectory :=
  keepEarliest (·.revokedAtMillis) fun epoch t => { epoch with revokedAtMillis := some t }

end KeyDirectory

/-! ## The state of the use cases -/

/-- A nonce that the replay guard remembers. -/
structure UsedNonce where
  keyId : String
  nonce : Bytes
  retainUntilMillis : Int
  deriving DecidableEq

structure World where
  keys : KeyDirectory
  nonces : List UsedNonce
  challenges : List Challenge
  /-- What happens at the next directory calls; past the end they work. -/
  faults : List (Option Fault)
  /-- The time of the last call. -/
  clock : Int
  deriving DecidableEq

inductive IdentityFailure where
  | rejected (error : AuthenticationError)
  | refused (message : String)
  | unavailable (error : PortError)
  deriving DecidableEq

abbrev UseCase := EStateM IdentityFailure World

def directory {α : Type} (call : KeyDirectory → Except PortError (α × KeyDirectory)) :
    UseCase (Except PortError α) := fun w =>
  let answer := call w.keys
  let done := match answer with
    | .ok (_, keys) => { w with keys := keys }
    | .error _ => w
  match w.faults with
  | some fault :: faults =>
    .ok (.error fault.error) { (if fault.applied then done else w) with faults := faults }
  | none :: faults => .ok (answer.map (·.1)) { done with faults := faults }
  | [] => .ok (answer.map (·.1)) done

def readKeys {α : Type} (read : KeyDirectory → α) : UseCase (Except PortError α) :=
  directory fun keys => .ok (read keys, keys)

def changeKeys (change : KeyDirectory → Except PortError KeyDirectory) :
    UseCase (Except PortError Unit) :=
  directory fun keys => (change keys).map ((), ·)

/-- `ReplayGuard::record_nonce`: false where the nonce is still remembered. -/
def recordNonce (keyId : String) (nonce : Bytes) (retainUntil now : Int) : UseCase Bool := fun w =>
  let same := fun used : UsedNonce => used.keyId = keyId && used.nonce = nonce
  if w.nonces.any fun used => same used && used.retainUntilMillis > now then .ok false w
  else .ok true
    { w with nonces := w.nonces.filter (fun used => !same used) ++ [⟨keyId, nonce, retainUntil⟩] }

/-- `ChallengeStore::consume`: the nonce answers one proof of the subject it was issued to. -/
def consumeChallenge (nonce : Bytes) (subject : Subject) (audience : String) (now : Int) :
    UseCase Bool := fun w =>
  let answers := fun c : Challenge =>
    c.nonce = nonce && c.subject = subject && c.audience = audience && now < c.expiresAtMillis
  .ok (w.challenges.any answers) { w with challenges := w.challenges.filter (!answers ·) }

/-! ## The use cases -/

structure Verifier where
  describeKey : Bytes → Except AuthenticationError KeyDescription
  bodyDigest : Bytes → Bytes
  verify : Proof → IdentityKey → Except AuthenticationError Unit
  introductionBytes : Introduction → Bytes

structure VerifierPolicy where
  audience : String
  freshness : FreshnessPolicy
  rotation : RotationPolicy

structure NewKey where
  publicKey : Bytes
  expiresAtMillis : Option Int

structure LegacyIdentity where
  subject : Subject
  publicKey : Bytes

variable (verifier : Verifier) (now : Int)

/-- `AuthenticateProof::execute`, up to the signature: the key that signed the proof. -/
def checkProof (proof : Proof) (body : Bytes) (policy : VerifierPolicy) : UseCase IdentityKey := do
  let named ← ofExcept .unavailable (← readKeys (·.key proof.keyId))
  let key ← ofExcept .rejected (okOr named .unknownKey)
  ofExcept .rejected (ensure (key.epoch.subject = proof.subject) .keySubjectMismatch)
  ofExcept .rejected (ensure (key.epoch.epoch = proof.keyEpoch) .epochNotAccepted)
  let stored ← ofExcept .unavailable (← readKeys (·.epochs proof.subject key.epoch.purpose))
  ofExcept .rejected
    (acceptEpoch (stored.map (·.epoch)) proof.keyEpoch proof.context now policy.rotation)
  ofExcept .rejected (ensure (proof.audience = policy.audience) .audienceMismatch)
  ofExcept .rejected (proof.window.check now policy.freshness)
  ofExcept .rejected (ensure (verifier.bodyDigest body = proof.bodyDigest) .bodyDigestMismatch)
  ofExcept .rejected (verifier.verify proof key)
  pure key

/-- `AuthenticateProof::execute`. Only a signed proof can consume its nonce. -/
def authenticateProof (proof : Proof) (body : Bytes) (policy : VerifierPolicy) :
    UseCase Subject := do
  let _ ← checkProof verifier now proof body policy
  let retainUntil := proof.window.replayRetentionUntil policy.freshness
  let first ← recordNonce proof.keyId proof.nonce retainUntil now
  ofExcept .rejected (ensure first .replayed)
  pure proof.subject

def canonical (key : NewKey) : UseCase KeyDescription := do
  let description ← ofExcept .rejected (verifier.describeKey key.publicKey)
  ofExcept .refused (ensure (!description.legacy) "new identities use Ed25519 keys (ADR 0009)")
  pure description

variable (description : KeyDescription)

def epochRecord (key : NewKey) (subject : Subject)
    (purpose : KeyPurpose) (epoch : Nat) (now : Int) : IdentityKey where
  keyId := description.keyId
  publicKey := key.publicKey
  epoch :=
    { subject, purpose, epoch
      notBeforeMillis := now
      expiresAtMillis := key.expiresAtMillis
      retiredAtMillis := none
      revokedAtMillis := none
      legacy := description.legacy }

/-- `register`: a duplicate is a refusal. -/
def registerKey (key : IdentityKey) : UseCase Unit := do
  match ← changeKeys (·.register key) with
  | .error .conflict => throw (.refused "the key is already registered")
  | other => ofExcept .unavailable other

def epochAfter (existing : List IdentityKey) : Nat :=
  match (existing.map (·.epoch.epoch)).max? with
  | some latest => nextEpoch latest
  | none => 1

/-- `RotateKey::execute`. -/
def rotateKey (subject : Subject) (purpose : KeyPurpose) (key : NewKey) : UseCase IdentityKey := do
  let description ← canonical verifier key
  let existing ← ofExcept .unavailable (← readKeys (·.epochs subject purpose))
  let record := epochRecord description key subject purpose (epochAfter existing) now
  registerKey record
  -- Registered first, so a refused key retires nothing.
  (existing.filter (·.epoch.retiredAtMillis.isNone)).forM fun stored => do
    ofExcept .unavailable (← changeKeys (·.retire stored.keyId now))
  pure record

/-- `RevokeKey::execute`. -/
def revokeKey (keyId : String) : UseCase Unit := do
  match ← changeKeys (·.revoke keyId now) with
  | .error .notFound => throw (.refused "unknown key")
  | other => ofExcept .unavailable other

/-- `IssueChallenge::execute`, with the nonce that the store drew. -/
def issueChallenge (subject : Subject) (audience : String) (lifetimeMillis : Int)
    (nonce : Bytes) : UseCase Challenge := do
  ofExcept .refused (ensure (1 ≤ lifetimeMillis ∧ lifetimeMillis ≤ maxGuestCredentialMillis)
    "challenge lifetime out of range")
  let challenge : Challenge := ⟨nonce, subject, audience, saturatingAdd now lifetimeMillis⟩
  modify fun w => { w with challenges := w.challenges ++ [challenge] }
  pure challenge

/-- The record of the legacy key: epoch 0, retired from the start. -/
def legacyRecord (legacy : LegacyIdentity) (now : Int) : IdentityKey where
  keyId := description.keyId
  publicKey := legacy.publicKey
  epoch :=
    { subject := legacy.subject
      purpose := .authentication
      epoch := 0
      notBeforeMillis := now
      expiresAtMillis := none
      retiredAtMillis := some now
      revokedAtMillis := none
      legacy := true }

/-- `EnrollCanonicalKey::execute`. -/
def enrollCanonicalKey (legacy : LegacyIdentity) (proof : Proof) (key : NewKey)
    (policy : VerifierPolicy) : UseCase IdentityKey := do
  let legacyDescription ← ofExcept .rejected (verifier.describeKey legacy.publicKey)
  ofExcept .refused (ensure legacyDescription.legacy "the identity has no legacy key")
  ofExcept .rejected (ensure (proof.context = .challenge) .keyPurposeMismatch)
  ofExcept .rejected (ensure (proof.keyId = legacyDescription.keyId) .unknownKey)
  ofExcept .rejected (ensure (proof.subject = legacy.subject) .keySubjectMismatch)
  ofExcept .rejected (ensure (proof.keyEpoch = 0) .epochNotAccepted)
  ofExcept .rejected (ensure (proof.audience = policy.audience) .audienceMismatch)
  ofExcept .rejected (proof.window.check now policy.freshness)
  ofExcept .rejected
    (ensure (verifier.bodyDigest key.publicKey = proof.bodyDigest) .bodyDigestMismatch)
  let legacyKey := legacyRecord legacyDescription legacy now
  ofExcept .rejected (verifier.verify proof legacyKey)
  let answered ← consumeChallenge proof.nonce legacy.subject proof.audience now
  ofExcept .rejected (ensure answered .replayed)
  let description ← canonical verifier key
  let existing ← ofExcept .unavailable (← readKeys (·.epochs legacy.subject .authentication))
  ofExcept .refused (ensure (existing.all (·.epoch.legacy))
    "the identity already has a canonical key; rotate it instead")
  (if existing.isEmpty then registerKey legacyKey else pure ())
  let record := epochRecord description key legacy.subject .authentication 1 now
  registerKey record
  pure record

def introducedRecord (introduction : Introduction) : IdentityKey where
  keyId := description.keyId
  publicKey := introduction.publicKey
  epoch :=
    { subject := introduction.subject
      purpose := .descriptor
      epoch := introduction.epoch.val
      notBeforeMillis := introduction.notBeforeMillis
      expiresAtMillis := introduction.expiresAtMillis
      retiredAtMillis := none
      revokedAtMillis := none
      legacy := false }

/-- `AcceptIntroduction::execute`. -/
def acceptIntroduction (proof : Proof) (introduction : Introduction)
    (policy : VerifierPolicy) : UseCase Subject := do
  ofExcept .rejected (ensure (proof.context = .introduction) .keyPurposeMismatch)
  let body := verifier.introductionBytes introduction
  let root ← authenticateProof verifier now proof body policy
  ofExcept .refused (ensure (root.kind = .node ∧ introduction.subject.kind = .node)
    "introductions are between nodes")
  let description ← ofExcept .rejected (verifier.describeKey introduction.publicKey)
  ofExcept .refused (ensure (!description.legacy) "new identities use Ed25519 keys (ADR 0009)")
  registerKey (introducedRecord description introduction)
  pure root

end Aseman.Identity
