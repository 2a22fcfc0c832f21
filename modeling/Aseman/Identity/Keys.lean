import Aseman.Ports

/-!
# Keys and proofs of identity

A subject has keys for each purpose, in numbered epochs. `acceptEpoch` decides whether an epoch may verify
a signature at a time: it must be the current one, which is the highest epoch that is valid and not
revoked, or the one right before it while its overlap lasts. Times are `i64` milliseconds, as integers.
-/

namespace Aseman.Identity

abbrev Bytes := List UInt8

inductive KeyPurpose where
  | authentication
  | descriptor
  | tokenIssuing
  | introduction
  deriving DecidableEq

inductive SignatureContext where
  | request
  | challenge
  | token
  | descriptor
  | revocation
  | introduction
  deriving DecidableEq

def KeyPurpose.signs : KeyPurpose → SignatureContext → Bool
  | .authentication, .request | .authentication, .challenge => true
  | .tokenIssuing, .token => true
  | .descriptor, .descriptor | .descriptor, .revocation => true
  | .introduction, .introduction => true
  | _, _ => false

def SignatureContext.issuesAuthority : SignatureContext → Bool
  | .token | .descriptor | .revocation | .introduction => true
  | .request | .challenge => false

inductive AuthenticationError where
  | unsupportedVersion
  | unsupportedAlgorithm
  | malformed
  | unknownKey
  | keySubjectMismatch
  | keyPurposeMismatch
  | legacyKeyCannotSign
  | revokedKey
  | epochNotAccepted
  | audienceMismatch
  | notYetValid
  | expired
  | lifetimeTooLong
  | bodyDigestMismatch
  | badSignature
  | replayed
  deriving DecidableEq

def AuthenticationError.code : AuthenticationError → String
  | .unsupportedVersion => "unsupported_version"
  | .unsupportedAlgorithm => "unsupported_algorithm"
  | .malformed => "malformed"
  | .unknownKey => "unknown_key"
  | .keySubjectMismatch => "key_subject_mismatch"
  | .keyPurposeMismatch => "key_purpose_mismatch"
  | .legacyKeyCannotSign => "legacy_key_cannot_sign"
  | .revokedKey => "revoked_key"
  | .epochNotAccepted => "epoch_not_accepted"
  | .audienceMismatch => "audience_mismatch"
  | .notYetValid => "not_yet_valid"
  | .expired => "expired"
  | .lifetimeTooLong => "lifetime_too_long"
  | .bodyDigestMismatch => "body_digest_mismatch"
  | .badSignature => "bad_signature"
  | .replayed => "replayed"

/-! ## Freshness -/

/-- `i64::saturating_add`. -/
def saturatingAdd (a b : Int) : Int := max (-2 ^ 63) (min (a + b) (2 ^ 63 - 1))

def wrappingSub (a b : Int) : Int := (a - b).bmod (2 ^ 64)

def maxGuestCredentialMillis : Int := 5 * 60 * 1000

structure FreshnessPolicy where
  maxClockSkewMillis : Int
  maxLifetimeMillis : Int
  deriving DecidableEq

structure CredentialWindow where
  issuedAtMillis : Int
  notBeforeMillis : Int
  expiresAtMillis : Int
  deriving DecidableEq

/-- `CredentialWindow::check`. -/
def CredentialWindow.check (window : CredentialWindow) (nowMillis : Int)
    (policy : FreshnessPolicy) : Except AuthenticationError Unit := do
  let skew := policy.maxClockSkewMillis
  if window.issuedAtMillis > window.notBeforeMillis ||
      window.notBeforeMillis ≥ window.expiresAtMillis then
    throw .malformed
  if wrappingSub window.expiresAtMillis window.issuedAtMillis > policy.maxLifetimeMillis then
    throw .lifetimeTooLong
  if window.notBeforeMillis > saturatingAdd nowMillis skew then
    throw .notYetValid
  if nowMillis ≥ saturatingAdd window.expiresAtMillis skew then
    throw .expired

/-- How long the verifier must remember the credential's nonce. -/
def CredentialWindow.replayRetentionUntil (window : CredentialWindow)
    (policy : FreshnessPolicy) : Int :=
  saturatingAdd window.expiresAtMillis policy.maxClockSkewMillis

/-! ## Keys -/

/-- One key epoch of a subject and purpose, as the key directory records it. -/
structure KeyEpoch where
  subject : Subject
  purpose : KeyPurpose
  epoch : Nat
  notBeforeMillis : Int
  expiresAtMillis : Option Int
  retiredAtMillis : Option Int
  revokedAtMillis : Option Int
  legacy : Bool
  deriving DecidableEq

structure IdentityKey where
  keyId : String
  publicKey : Bytes
  epoch : KeyEpoch
  deriving DecidableEq

/-- What a key's encoding says about it. -/
structure KeyDescription where
  keyId : String
  legacy : Bool
  deriving DecidableEq

/-- A one-time server challenge. -/
structure Challenge where
  nonce : Bytes
  subject : Subject
  audience : String
  expiresAtMillis : Int
  deriving DecidableEq

/-- A federation root's introduction of a node: the node's descriptor key for one epoch. -/
structure Introduction where
  subject : Subject
  publicKey : Bytes
  epoch : Fin (2 ^ 32)
  notBeforeMillis : Int
  expiresAtMillis : Option Int
  deriving DecidableEq

structure Proof where
  context : SignatureContext
  algorithm : String
  keyId : String
  keyEpoch : Nat
  subject : Subject
  audience : String
  window : CredentialWindow
  nonce : Bytes
  requestId : String
  action : String
  resource : String
  bodyDigest : Bytes
  signature : Bytes
  deriving DecidableEq

structure RotationPolicy where
  overlapMillis : Int
  deriving DecidableEq

/-- `u32::saturating_add(1)`. -/
def nextEpoch (epoch : Nat) : Nat := min (epoch + 1) (2 ^ 32 - 1)

namespace KeyEpoch

variable (key : KeyEpoch)

def revokedBy (nowMillis : Int) : Bool := key.revokedAtMillis.any (· ≤ nowMillis)

/-- The epochs among which the current one is the highest: valid from now or earlier, not revoked. -/
def inForce (nowMillis : Int) : Bool :=
  key.notBeforeMillis ≤ nowMillis && key.revokedAtMillis.all (· > nowMillis)

def inOverlap (nowMillis : Int) (rotation : RotationPolicy) : Bool :=
  key.retiredAtMillis.all (nowMillis < saturatingAdd · rotation.overlapMillis)

def of (subject : Subject) (purpose : KeyPurpose) : Bool :=
  key.subject = subject && key.purpose = purpose

end KeyEpoch

def acceptEpoch (epochs : List KeyEpoch) (epoch : Nat) (context : SignatureContext)
    (nowMillis : Int) (rotation : RotationPolicy) : Except AuthenticationError Unit := do
  let some key := epochs.find? (·.epoch = epoch) | throw .unknownKey
  if !key.purpose.signs context then throw .keyPurposeMismatch
  -- Revocation overrides every overlap.
  if key.revokedBy nowMillis then throw .revokedKey
  if key.legacy && context.issuesAuthority then throw .legacyKeyCannotSign
  if key.notBeforeMillis > nowMillis then throw .notYetValid
  if key.expiresAtMillis.any (· ≤ nowMillis) then throw .expired
  let some current := ((epochs.filter (·.inForce nowMillis)).map (·.epoch)).max?
    | throw .epochNotAccepted
  if epoch = current ∨ nextEpoch epoch = current ∧ key.inOverlap nowMillis rotation then pure ()
  else throw .epochNotAccepted

/-- What an accepted epoch rests on: its own key is not revoked, and it is the highest epoch in force or
the one right before it with its overlap still running. -/
theorem acceptEpoch_eq_ok {epochs epoch context now rotation}
    (h : acceptEpoch epochs epoch context now rotation = .ok ()) :
    ∃ key current, epochs.find? (·.epoch = epoch) = some key ∧ key.revokedBy now = false ∧
      ((epochs.filter (·.inForce now)).map (·.epoch)).max? = some current ∧
      (epoch = current ∨ nextEpoch epoch = current ∧ key.inOverlap now rotation) := by
  unfold acceptEpoch at h
  cases hkey : epochs.find? (·.epoch = epoch) with
  | none => simp [hkey, throw, throwThe, MonadExceptOf.throw] at h
  | some key =>
    cases hcurrent : ((epochs.filter (·.inForce now)).map (·.epoch)).max? with
    | none =>
      simp only [hkey, hcurrent, bind, Except.bind, throw, throwThe, MonadExceptOf.throw] at h
      split_ifs at h
    | some current =>
      simp only [hkey, hcurrent, bind, Except.bind, throw, throwThe, MonadExceptOf.throw,
        pure, Except.pure] at h
      split_ifs at h with _ hrevoked _ _ _ haccepted
      exact ⟨key, current, rfl, by simpa using hrevoked, rfl, haccepted⟩

/-- The times that the directory can store: it counts microseconds in an `i64`. -/
def fitsMicros (millis : Int) : Bool := -2 ^ 63 ≤ millis * 1000 && millis * 1000 < 2 ^ 63

end Aseman.Identity
