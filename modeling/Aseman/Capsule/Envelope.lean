import Aseman.Capsule.Canonical

/-!
# Capsule envelopes

The typed record around a capsule's body, its translation to a `CapsuleValue` and back, and the four
operations on it: `seal`, `verify`, `canonical_bytes` and `from_canonical_bytes`. SHA-256 is outside
the source and a parameter here: a function from byte strings to digests of 32 bytes.
-/

namespace Aseman.Capsule

open CapsuleValue

/-! ## The record -/

def encodingVersion : UInt16 := 1
def digestAlgorithm : String := "sha2-256"

def integrityDomain : List UInt8 := utf8 "ASEMAN-CAPSULE-INTEGRITY-V1" ++ [0]

abbrev CapsuleId := Vector UInt8 16
abbrev CapsuleKind := String

inductive StorageClass where
  | core
  | guestData
  | telemetry
  | audit
  | finance
  | outbox
  | realtime
  | module (name : String)
  deriving DecidableEq

inductive OwnerScope where
  | global
  | node (id : Vector UInt8 16)
  | creature (id : Vector UInt8 16)
  | module (name : String)
  deriving DecidableEq

structure CapsuleDigest where
  algorithm : String
  bytes : List UInt8
  deriving DecidableEq

structure CapsuleRelationship where
  name : String
  targetKind : CapsuleKind
  targetId : CapsuleId
  deriving DecidableEq

structure CapsuleEnvelope where
  encodingVersion : UInt16
  id : CapsuleId
  kind : CapsuleKind
  storageClass : StorageClass
  ownerScope : OwnerScope
  schemaVersion : UInt32
  revision : UInt64
  createdAtMicros : Int64
  updatedAtMicros : Int64
  previousIntegrity : Option CapsuleDigest
  integrityHash : CapsuleDigest
  tombstone : Bool
  relationships : List CapsuleRelationship
  body : Option CapsuleValue

/-! ## Checks -/

/-- `is_ascii_alphanumeric`, or one of `.`, `_` and `-`. -/
def isTokenByte (b : UInt8) : Bool :=
  (48 ≤ b && b ≤ 57) || (65 ≤ b && b ≤ 90) || (97 ≤ b && b ≤ 122) || b == 46 || b == 95 || b == 45

def validateToken (label value : String) : CapsuleResult Unit :=
  ensure (value ≠ "" ∧ (utf8 value).length ≤ 128 ∧ (utf8 value).all isTokenByte)
    (.invalid (label ++ " is not a safe token"))

def validateDigest (digest : CapsuleDigest) : CapsuleResult Unit := do
  ensure (digest.algorithm = digestAlgorithm) (.unsupportedDigest digest.algorithm)
  ensure (digest.bytes.length = 32) (.invalid "sha2-256 digest must be 32 bytes")

/-- The loop over the relationships; `seen` holds the names so far. -/
def validateRelationships : List CapsuleRelationship → List String → CapsuleResult Unit
  | [], _ => .ok ()
  | relationship :: relationships, seen => do
      validateToken "relationship name" relationship.name
      validateToken "relationship target kind" relationship.targetKind
      ensure (relationship.name ∉ seen) (.invalid "relationship names must be unique")
      validateRelationships relationships (relationship.name :: seen)

def CapsuleEnvelope.validateStructure (e : CapsuleEnvelope) (validateCurrentIntegrity : Bool) :
    CapsuleResult Unit := do
  validateToken "kind" e.kind
  ensure (e.encodingVersion = Capsule.encodingVersion) (.unsupportedEncoding e.encodingVersion)
  ensure (e.schemaVersion ≠ 0 ∧ e.revision ≠ 0) (.invalid "schema_version and revision start at one")
  ensure (e.createdAtMicros ≤ e.updatedAtMicros) (.invalid "updated_at precedes created_at")
  ensure (e.tombstone = e.body.isNone)
    (.invalid "tombstones have no body and live revisions require a body")
  ensure (decide (e.revision = 1) = e.previousIntegrity.isNone)
    (.invalid "only the first revision omits previous_integrity")
  if validateCurrentIntegrity then validateDigest e.integrityHash
  if let some previous := e.previousIntegrity then validateDigest previous
  validateRelationships e.relationships []
  validateValue e.body

/-! ## To a value -/

/-- `integer`: the conversion to `i64` panics where it does not fit. -/
def integerValue (value : Int) : CapsuleResult CapsuleValue :=
  if -2 ^ 63 ≤ value ∧ value < 2 ^ 63 then .ok (.integer (Int64.ofInt value))
  else .error (.panicked "capsule integer fits i64")

def optionValue (value : Option CapsuleValue) : CapsuleValue := value.getD .null

def digestValue (digest : CapsuleDigest) : CapsuleValue :=
  .object (.ofList [("algorithm", .text digest.algorithm), ("bytes", .bytes digest.bytes)])

def relationshipValue (relationship : CapsuleRelationship) : CapsuleValue :=
  .object (.ofList [("name", .text relationship.name),
    ("target_id", .bytes relationship.targetId.toList),
    ("target_kind", .text relationship.targetKind)])

def storageClassValue (storageClass : StorageClass) : CapsuleValue :=
  let (kind, name) : String × Option String :=
    match storageClass with
    | .core => ("core", none)
    | .guestData => ("guest_data", none)
    | .telemetry => ("telemetry", none)
    | .audit => ("audit", none)
    | .finance => ("finance", none)
    | .outbox => ("outbox", none)
    | .realtime => ("realtime", none)
    | .module name => ("module", some name)
  .object (.ofList [("name", optionValue (name.map .text)), ("type", .text kind)])

def ownerValue (owner : OwnerScope) : CapsuleValue :=
  let (kind, id) : String × CapsuleValue :=
    match owner with
    | .global => ("global", .null)
    | .node id => ("node", .bytes id.toList)
    | .creature id => ("creature", .bytes id.toList)
    | .module name => ("module", .text name)
  .object (.ofList [("id", id), ("type", .text kind)])

/-- The fields of an envelope but for its integrity hash; the numbers come as values already. -/
def CapsuleEnvelope.entries (e : CapsuleEnvelope)
    (createdAt version revision schema updatedAt : CapsuleValue) : List (String × CapsuleValue) :=
  [("body", optionValue e.body), ("created_at_micros", createdAt), ("encoding_version", version),
    ("id", .bytes e.id.toList),
    ("kind", .text e.kind),
    ("owner_scope", ownerValue e.ownerScope),
    ("previous_integrity", optionValue (e.previousIntegrity.map digestValue)),
    ("relationships", .array (e.relationships.map relationshipValue)),
    ("revision", revision),
    ("schema_version", schema),
    ("storage_class", storageClassValue e.storageClass),
    ("tombstone", .bool e.tombstone),
    ("updated_at_micros", updatedAt)]

def CapsuleEnvelope.asValue (e : CapsuleEnvelope) (includeIntegrity : Bool) :
    CapsuleResult CapsuleValue := do
  let createdAt ← integerValue e.createdAtMicros.toInt
  let version ← integerValue e.encodingVersion.toNat
  let revision ← integerValue e.revision.toNat
  let schema ← integerValue e.schemaVersion.toNat
  let updatedAt ← integerValue e.updatedAtMicros.toInt
  let map : Members := .ofList (e.entries createdAt version revision schema updatedAt)
  pure (.object
    (if includeIntegrity then map.insert "integrity_hash" (digestValue e.integrityHash) else map))

/-! ## From a value -/

/-- A function that takes fields off an object, or fails. -/
abbrev Fields := StateT Members (Except CapsuleError)

variable (key : String)

def take : Fields CapsuleValue := fun map =>
  match map.get key with
  | some value => .ok (value, map.remove key)
  | none => .error (.invalid ("missing " ++ key))

def takeText : Fields String := do
  match (← take key).view with
  | .text value => pure value
  | _ => throw (.invalid (key ++ " must be text"))

def takeI64 : Fields Int64 := do
  match (← take key).view with
  | .integer value => pure value
  | _ => throw (.invalid (key ++ " must be an integer"))

def takeU64 : Fields Nat := do
  let value ← takeI64 key
  ensure (0 ≤ value.toInt) (CapsuleError.invalid (key ++ " must be non-negative"))
  pure value.toInt.toNat

def takeBool : Fields Bool := do
  match (← take key).view with
  | .bool value => pure value
  | _ => throw (.invalid (key ++ " must be a boolean"))

/-- `try_into`: a byte string of the right length is a fixed-size one. -/
def fixedBytes (n : Nat) (value : List UInt8) : Option (Vector UInt8 n) :=
  if h : value.length = n then some ⟨value.toArray, by simpa using h⟩ else none

def takeFixedBytes (n : Nat) (key : String) : Fields (Vector UInt8 n) := do
  match (← take key).view with
  | .bytes value => okOr (fixedBytes n value) (CapsuleError.invalid (key ++ " has the wrong length"))
  | _ => throw (.invalid (key ++ " must be bytes"))

variable (value : CapsuleValue)

def intoObject (label : String) : CapsuleResult Members :=
  match value.view with
  | .object members => .ok members
  | _ => .error (.invalid (label ++ " must be an object"))

def intoArray (label : String) : CapsuleResult (List CapsuleValue) :=
  match value.view with
  | .array values => .ok values
  | _ => .error (.invalid (label ++ " must be an array"))

def rejectUnknown (map : Members) (allowed : List String) : CapsuleResult Unit :=
  ensure (∀ key ∈ map.keys, key ∈ allowed) (.invalid "object contains an unknown field")

def parseOptional {α : Type} (value : CapsuleValue) (parse : CapsuleValue → CapsuleResult α) :
    CapsuleResult (Option α) :=
  match value.view with
  | .null => .ok none
  | _ => some <$> parse value

/-- What the parsers of an object share: it is an object, has no unknown field, and the fields are
taken off it. -/
def parseObject {α : Type} (label : String) (allowed : List String) (fields : Fields α)
    (value : CapsuleValue) : CapsuleResult α := do
  let map ← intoObject value label
  rejectUnknown map allowed
  let (parsed, _) ← fields map
  pure parsed

def digestFields : Fields CapsuleDigest := do
  let algorithm ← takeText "algorithm"
  match (← take "bytes").view with
  | .bytes bytes => pure ⟨algorithm, bytes⟩
  | _ => throw (.invalid "digest bytes must be bytes")

def parseDigest : CapsuleResult CapsuleDigest := do
  let digest ← parseObject "digest" ["algorithm", "bytes"] digestFields value
  validateDigest digest
  pure digest

def relationshipFields : Fields CapsuleRelationship := do
  let name ← takeText "name"
  let targetKind ← takeText "target_kind"
  let targetId ← takeFixedBytes 16 "target_id"
  pure ⟨name, targetKind, targetId⟩

def parseRelationship : CapsuleResult CapsuleRelationship :=
  parseObject "relationship" ["name", "target_id", "target_kind"] relationshipFields value

def parseClassName : CapsuleResult String :=
  match value.view with
  | .text value => .ok value
  | _ => .error (.invalid "storage class name must be text")

def storageClassOf : String → Option String → CapsuleResult StorageClass
  | "core", none => .ok .core
  | "guest_data", none => .ok .guestData
  | "telemetry", none => .ok .telemetry
  | "audit", none => .ok .audit
  | "finance", none => .ok .finance
  | "outbox", none => .ok .outbox
  | "realtime", none => .ok .realtime
  | "module", some name => .ok (.module name)
  | _, _ => .error (.invalid "invalid storage class")

def storageClassFields : Fields StorageClass := do
  let name ← parseOptional (← take "name") parseClassName
  let kind ← takeText "type"
  storageClassOf kind name

def parseStorageClass : CapsuleResult StorageClass :=
  parseObject "storage_class" ["name", "type"] storageClassFields value

def ownerOf : String → View → CapsuleResult OwnerScope
  | "global", .null => .ok .global
  | "node", .bytes value => do
      let id ← okOr (fixedBytes 16 value) (.invalid "node owner ID length")
      pure (.node id)
  | "creature", .bytes value => do
      let id ← okOr (fixedBytes 16 value) (.invalid "creature owner ID length")
      pure (.creature id)
  | "module", .text value => .ok (.module value)
  | _, _ => .error (.invalid "invalid owner scope")

def ownerFields : Fields OwnerScope := do
  let kind ← takeText "type"
  let id ← take "id"
  ownerOf kind id.view

def parseOwner : CapsuleResult OwnerScope :=
  parseObject "owner_scope" ["id", "type"] ownerFields value

/-- The fields of an envelope, in the order in which the source takes them. -/
def envelopeFields : Fields CapsuleEnvelope := do
  let version ← takeU64 "encoding_version"
  ensure (version < 2 ^ 16) (CapsuleError.invalid "encoding_version overflow")
  let id ← takeFixedBytes 16 "id"
  let kind ← takeText "kind"
  let storageClass ← parseStorageClass (← take "storage_class")
  let ownerScope ← parseOwner (← take "owner_scope")
  let schema ← takeU64 "schema_version"
  ensure (schema < 2 ^ 32) (CapsuleError.invalid "schema_version overflow")
  let revision ← takeU64 "revision"
  let createdAt ← takeI64 "created_at_micros"
  let updatedAt ← takeI64 "updated_at_micros"
  let previousIntegrity ← parseOptional (← take "previous_integrity") parseDigest
  let integrityHash ← parseDigest (← take "integrity_hash")
  let tombstone ← takeBool "tombstone"
  let relationships ← intoArray (← take "relationships") "relationships"
  let relationships ← (relationships.mapM parseRelationship : CapsuleResult _)
  let body ← parseOptional (← take "body") Except.ok
  pure { encodingVersion := UInt16.ofNat version, id, kind, storageClass, ownerScope,
         schemaVersion := UInt32.ofNat schema, revision := UInt64.ofNat revision,
         createdAtMicros := createdAt, updatedAtMicros := updatedAt, previousIntegrity,
         integrityHash, tombstone, relationships, body }

def envelopeKeys : List String :=
  ["body", "created_at_micros", "encoding_version", "id", "integrity_hash", "kind", "owner_scope",
    "previous_integrity", "relationships", "revision", "schema_version", "storage_class",
    "tombstone", "updated_at_micros"]

/-- `CapsuleEnvelope::from_value`. -/
def CapsuleEnvelope.fromValue : CapsuleResult CapsuleEnvelope :=
  parseObject "capsule envelope" envelopeKeys envelopeFields value

/-! ## Sealing, verifying, writing and reading -/

section

variable (sha256 : List UInt8 → Vector UInt8 32) (e : CapsuleEnvelope)

namespace CapsuleEnvelope

def computeIntegrity : CapsuleResult CapsuleDigest := do
  ensure (e.encodingVersion = Capsule.encodingVersion) (.unsupportedEncoding e.encodingVersion)
  let encoded ← encodeValue (← e.asValue false)
  let digest := sha256 (integrityDomain ++ bigEndian 2 Capsule.encodingVersion.toNat ++
    utf8 digestAlgorithm ++ [0] ++ encoded)
  pure ⟨digestAlgorithm, digest.toList⟩

/-- `CapsuleEnvelope::seal`. -/
def sealed : CapsuleResult CapsuleEnvelope := do
  e.validateStructure false
  let integrity ← e.computeIntegrity sha256
  pure { e with integrityHash := integrity }

def verify : CapsuleResult Unit := do
  e.validateStructure true
  let expected ← e.computeIntegrity sha256
  ensure (expected = e.integrityHash) (.invalid "integrity hash mismatch")

def canonicalBytes : CapsuleResult (List UInt8) := do
  e.verify sha256
  encodeValue (← e.asValue true)

def fromCanonicalBytes (bytes : List UInt8) : CapsuleResult CapsuleEnvelope := do
  let value ← decodeCanonicalValue bytes
  let envelope ← fromValue value
  envelope.verify sha256
  pure envelope

end CapsuleEnvelope

end

end Aseman.Capsule
