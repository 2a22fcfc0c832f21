import Aseman.Identity.Keys
import Aseman.Lib.Result

/-!
# Federated envelopes

`aseman-domain`, `federation.rs`: one cross-node request and the checks that its destination makes before
it looks at who may do what.
-/

namespace Aseman.Federation

open Identity (Bytes wrappingSub)

structure Envelope where
  requestId : Uuid
  sourceNode : Uuid
  destinationNode : Uuid
  subject : String
  target : String
  action : String
  payloadDigest : String
  issuedAtMillis : Int
  expiresAtMillis : Int
  nonce : String
  hopLimit : Nat
  version : String
  deriving DecidableEq

inductive FederationError where
  | unknownVersion
  | wrongDestination
  | selfAddressed
  | expired
  | lifetimeTooLong
  | hopLimitTooHigh
  | hopLimitReached
  | invalidNonce
  | replayed
  | invalidDigest
  | incomplete
  deriving DecidableEq

def maxHopLimit : Nat := 4

def maxLifetimeMillis : Int := 60000

def isHexDigit (c : Char) : Bool :=
  ('0' ≤ c && c ≤ '9') || ('a' ≤ c && c ≤ 'f') || ('A' ≤ c && c ≤ 'F')

/-- `sha256:` and 64 hexadecimal digits. -/
def isDigest (text : String) : Bool :=
  text.toList.take 7 = "sha256:".toList && (text.toList.drop 7).length = 64 &&
    (text.toList.drop 7).all isHexDigit

def accept (envelope : Envelope) (destination : Uuid) (nowMillis : Int) (seenNonce : Bool) :
    Except FederationError Unit := do
  ensure (envelope.version = "1") .unknownVersion
  ensure (envelope.destinationNode = destination) .wrongDestination
  ensure (envelope.sourceNode ≠ envelope.destinationNode) .selfAddressed
  ensure (envelope.issuedAtMillis < envelope.expiresAtMillis) .expired
  ensure (wrappingSub envelope.expiresAtMillis envelope.issuedAtMillis ≤ maxLifetimeMillis)
    .lifetimeTooLong
  ensure (nowMillis < envelope.expiresAtMillis) .expired
  ensure (envelope.hopLimit ≤ maxHopLimit) .hopLimitTooHigh
  ensure (envelope.nonce ≠ "" ∧ envelope.nonce.utf8ByteSize ≤ 128) .invalidNonce
  -- A repeated nonce is a replay.
  ensure (!seenNonce) .replayed
  ensure (isDigest envelope.payloadDigest) .invalidDigest
  ensure (envelope.action ≠ "" ∧ envelope.subject ≠ "" ∧ envelope.target ≠ "") .incomplete

theorem accept_eq_ok {envelope destination now seen}
    (h : accept envelope destination now seen = .ok ()) :
    now < envelope.expiresAtMillis ∧ seen = false := by
  simp only [accept, bind_eq_ok, ensure_eq_ok] at h
  obtain ⟨_, -, _, -, _, -, _, -, _, -, _, hlive, _, -, _, -, _, hseen, -⟩ := h
  exact ⟨hlive, by simpa using hseen⟩

end Aseman.Federation
