import Aseman.Capsule.RoundTrip

/-!
# Delta plans

`semantic_digest` and `plan_delta` of a migration: what a record means apart from its revision
chain, and the writes that make a target mean what the source means. `Planned` says what the plan
does with one identity; a plan applied to the target leaves nothing planned for any of them.

Outside the source, and parameters here, are SHA-256 and the `Debug` form of a string.
-/

namespace Aseman.Capsule

open CapsuleValue OrderedMap

inductive MigrationContractError where
  | invalid (message : String)
  | capsule (message : String)
  /-- Not an error value of the source: the call panics with this message. -/
  | panicked (message : String)
  deriving DecidableEq

abbrev MigrationContractResult := Except MigrationContractError

def CapsuleError.display : CapsuleError → String
  | .invalid message => "invalid capsule: " ++ message
  | .unsupportedEncoding version => "unsupported capsule encoding version: " ++ toString version
  | .unsupportedDigest algorithm => "unsupported capsule digest algorithm: " ++ algorithm
  | .nonCanonical message => "capsule CBOR is not deterministic: " ++ message
  | .truncated => "capsule CBOR is truncated"
  | .panicked message => message

def MigrationContractError.ofCapsule : CapsuleError → MigrationContractError
  | .panicked message => .panicked message
  | error => .capsule error.display

/-! ## The semantic digest -/

section

variable (sha256 : List UInt8 → Vector UInt8 32) (debugStr : String → String)

def semanticDomain : List UInt8 := utf8 "ASEMAN-CAPSULE-SEMANTIC-DIGEST-V1" ++ [0]

def semanticOwner : OwnerScope → CapsuleValue
  | .global => .text "global"
  | .node id => .array [.text "node", .bytes id.toList]
  | .creature id => .array [.text "creature", .bytes id.toList]
  | .module name => .array [.text "module", .text name]

def semanticRelationship (relationship : CapsuleRelationship) : CapsuleValue :=
  .array [.text relationship.name, .text relationship.targetKind,
    .bytes relationship.targetId.toList]

/-- The `Debug` form of `semanticRelationship`, by which the relationships are sorted. -/
def relationshipDebug (relationship : CapsuleRelationship) : String :=
  "Array([Text(" ++ debugStr relationship.name ++ "), Text(" ++
    debugStr relationship.targetKind ++ "), Bytes([" ++
    ", ".intercalate (relationship.targetId.toList.map fun b => toString b.toNat) ++ "])])"

def storageClassDebug : StorageClass → String
  | .core => "Core"
  | .guestData => "GuestData"
  | .telemetry => "Telemetry"
  | .audit => "Audit"
  | .finance => "Finance"
  | .outbox => "Outbox"
  | .realtime => "Realtime"
  | .module name => "Module(" ++ debugStr name ++ ")"

def semanticRelationships (relationships : List CapsuleRelationship) : List CapsuleValue :=
  (relationships.insertionSort fun a b =>
    relationshipDebug debugStr a ≤ relationshipDebug debugStr b).map semanticRelationship

namespace CapsuleEnvelope

def semanticEntries (e : CapsuleEnvelope) : List (String × CapsuleValue) :=
  [("kind", .text e.kind),
    ("id", .bytes e.id.toList),
    ("storage_class", .text (storageClassDebug debugStr e.storageClass)),
    ("owner", semanticOwner e.ownerScope),
    ("tombstone", .bool e.tombstone),
    ("relationships", .array (semanticRelationships debugStr e.relationships)),
    ("body", e.body.getD .null)]

def semanticDigest (e : CapsuleEnvelope) : MigrationContractResult (Vector UInt8 32) := do
  let semantic : CapsuleValue := .object (.ofList (e.semanticEntries debugStr))
  let encoded ← (encodeValue semantic).mapError .ofCapsule
  pure (sha256 (semanticDomain ++ bigEndian 8 encoded.length ++ encoded))

end CapsuleEnvelope

/-! ## The plan -/

structure DeltaWrite where
  capsule : CapsuleEnvelope
  /-- `none` inserts revision 1; `some r` replaces revision `r`. -/
  expectedRevision : Option UInt64

/-- A kind and an id, in the order of the source's map keys. -/
abbrev Identity := Lex (String × List UInt8)

def CapsuleEnvelope.key (e : CapsuleEnvelope) : Identity := toLex (e.kind, e.id.toList)

def byIdentity (capsules : List CapsuleEnvelope) : OrderedMap Identity CapsuleEnvelope :=
  .ofList (capsules.map fun c => (c.key, c))

def checkedSucc (n : UInt64) : Option UInt64 := if n.toNat + 1 < 2 ^ 64 then some (n + 1) else none

def nextRevision (now : Int64) (current record : CapsuleEnvelope) :
    MigrationContractResult DeltaWrite := do
  let revision ← okOr (checkedSucc current.revision) (.invalid "revision overflow")
  let capsule ← (CapsuleEnvelope.sealed sha256
    { record with
      revision
      createdAtMicros := current.createdAtMicros
      updatedAtMicros := max now current.updatedAtMicros
      previousIntegrity := some current.integrityHash }).mapError .ofCapsule
  pure ⟨capsule, some current.revision⟩

/-- The round of the first loop for one source record. -/
def sourceWrite (now : Int64) (targets : OrderedMap Identity CapsuleEnvelope)
    (entry : Identity × CapsuleEnvelope) : MigrationContractResult (Option DeltaWrite) :=
  match targets.get entry.1 with
  | none => pure (some ⟨entry.2, none⟩)
  | some current => do
      let currentDigest ← current.semanticDigest sha256 debugStr
      let sourceDigest ← entry.2.semanticDigest sha256 debugStr
      if currentDigest ≠ sourceDigest then some <$> nextRevision sha256 now current entry.2
      else pure none

/-- The round of the second loop for one target record. -/
def removalWrite (now : Int64) (sources : OrderedMap Identity CapsuleEnvelope)
    (entry : Identity × CapsuleEnvelope) : MigrationContractResult (Option DeltaWrite) :=
  if ¬ sources.contains entry.1 ∧ ¬ entry.2.tombstone then
    some <$> nextRevision sha256 now entry.2 { entry.2 with tombstone := true, body := none }
  else pure none

def planDelta (source target : List CapsuleEnvelope) (now : Int64) :
    MigrationContractResult (List DeltaWrite) := do
  let targets := byIdentity target
  let sources := byIdentity source
  let changed ← sources.entries.mapM (sourceWrite sha256 debugStr now targets)
  let removed ← targets.entries.mapM (removalWrite sha256 now sources)
  pure (changed.reduceOption ++ removed.reduceOption)

end

/-- The target after the writes: each replaces the capsule of the same kind and id. -/
def applyWrites (writes : List DeltaWrite) (target : List CapsuleEnvelope) :
    List CapsuleEnvelope :=
  ((byIdentity target).insertAll (writes.map fun w => (w.capsule.key, w.capsule))).entries.map
    Prod.snd

section Plan

variable {sha256 : List UInt8 → Vector UInt8 32} {debugStr : String → String}

/-! ## What the digest depends on -/

/-- The two records agree on what the digest covers. -/
structure SameMeaning (a b : CapsuleEnvelope) : Prop where
  kind : a.kind = b.kind
  id : a.id = b.id
  storageClass : a.storageClass = b.storageClass
  ownerScope : a.ownerScope = b.ownerScope
  tombstone : a.tombstone = b.tombstone
  relationships : a.relationships = b.relationships
  body : a.body = b.body

theorem SameMeaning.key {a b} (h : SameMeaning a b) : a.key = b.key := by
  rw [CapsuleEnvelope.key, CapsuleEnvelope.key, h.kind, h.id]

theorem SameMeaning.semanticDigest {a b} (h : SameMeaning a b) :
    a.semanticDigest sha256 debugStr = b.semanticDigest sha256 debugStr := by
  simp only [CapsuleEnvelope.semanticDigest, CapsuleEnvelope.semanticEntries, h.kind, h.id,
    h.storageClass, h.ownerScope, h.tombstone, h.relationships, h.body]

theorem validateAt_semanticOwner (owner : OwnerScope) :
    (semanticOwner owner).validateAt 1 = .ok () := by
  cases owner <;> simp [semanticOwner, maxValueDepth, maxCollectionItems]

theorem validateAt_semanticRelationship (relationship : CapsuleRelationship) :
    (semanticRelationship relationship).validateAt 2 = .ok () := by
  simp [semanticRelationship, maxValueDepth, maxCollectionItems]

/-- What the digest of a sealed record encodes is valid: the body and the list of relationships stand
no deeper in it than in what `seal` encoded. -/
theorem validateAt_semantic {e s : CapsuleEnvelope} (h : e.sealed sha256 = .ok s)
    (debugStr : String → String) :
    (object (.ofList (s.semanticEntries debugStr))).validateAt 0 = .ok () := by
  obtain ⟨-, digest, hdigest, rfl⟩ := sealed_eq_ok h
  obtain ⟨-, value, bytes, hvalue, hbytes⟩ := computeIntegrity_eq_ok hdigest
  have hvalid := (encodeValue_eq_ok.mp hbytes).1
  obtain ⟨version, revision, schema, -, -, -, rfl⟩ := asValue_eq_ok.mp hvalue
  simp only [Bool.false_eq_true, if_false] at hvalid
  obtain ⟨-, -, hentries⟩ := validateAt_object.mp hvalid
  have hfield : ∀ (name : String) {field : CapsuleValue},
      (e.entries (.integer e.createdAtMicros) version revision schema
        (.integer e.updatedAtMicros)).lookup name = some field → field.validateAt 1 = .ok () := by
    intro name field hlookup
    refine (hentries (name, field) (get_eq_some_iff.mp ?_)).2
    rw [get_ofList (by simp [CapsuleEnvelope.entries]), hlookup]
  have hbody : (e.body.getD .null).validateAt 1 = .ok () := hfield "body" rfl
  have hcount : e.relationships.length ≤ maxCollectionItems := by
    have hlist : (array (e.relationships.map relationshipValue)).validateAt 1 = .ok () :=
      hfield "relationships" rfl
    simpa using (validateAt_array.mp hlist).2.1
  refine validateAt_object.mpr ⟨by decide, ?_, fun entry hentry => ?_⟩
  · exact (length_ofList_le _).trans
      (by simp [CapsuleEnvelope.semanticEntries, maxCollectionItems])
  · have hmem := mem_of_mem_ofList hentry
    simp only [CapsuleEnvelope.semanticEntries, List.mem_cons, List.not_mem_nil, or_false] at hmem
    rcases hmem with rfl | rfl | rfl | rfl | rfl | rfl | rfl
    · simp [maxValueDepth]
    · simp [maxValueDepth]
    · simp [maxValueDepth]
    · exact ⟨by simp, validateAt_semanticOwner _⟩
    · exact ⟨by simp, rfl⟩
    · refine ⟨by simp, validateAt_array.mpr ⟨by decide, ?_, fun v hv => ?_⟩⟩
      · simpa [semanticRelationships] using hcount
      · obtain ⟨relationship, -, rfl⟩ := List.mem_map.mp hv
        exact validateAt_semanticRelationship relationship
    · exact ⟨by simp, hbody⟩

/-- A sealed record has a digest, unless its encoding outgrows what a `Vec` can hold. -/
theorem exists_semanticDigest {e s : CapsuleEnvelope} (h : e.sealed sha256 = .ok s)
    (hmemory : s.semanticDigest sha256 debugStr ≠ .error (.panicked "capacity overflow")) :
    ∃ digest, s.semanticDigest sha256 debugStr = .ok digest := by
  have hvalid := validateAt_semantic h debugStr
  obtain ⟨form, hform⟩ := exists_encodeInto hvalid
  by_cases hlength : form.length ≤ maxVecBytes
  · have hencode := encodeValue_eq_ok.mpr ⟨hvalid, hform, hlength⟩
    exact ⟨_, bind_eq_ok.mpr ⟨form, mapError_eq_ok.mpr hencode, rfl⟩⟩
  · refine absurd ?_ hmemory
    have hpanic : encodeValue (object (.ofList (s.semanticEntries debugStr))) =
        .error (.panicked "capacity overflow") := by
      refine bind_eq_error.mpr (.inr ⟨(), hvalid, bind_eq_error.mpr (.inr ⟨form, hform, ?_⟩)⟩)
      exact bind_eq_error.mpr (.inl (ensure_eq_error.mpr ⟨hlength, rfl⟩))
    rw [CapsuleEnvelope.semanticDigest, hpanic]
    rfl

/-! ## One write -/

structure Replaces (sha256 : List UInt8 → Vector UInt8 32) (current record : CapsuleEnvelope)
    (w : DeltaWrite) : Prop where
  expected : w.expectedRevision = some current.revision
  revision : w.capsule.revision.toNat = current.revision.toNat + 1
  previous : w.capsule.previousIntegrity = some current.integrityHash
  created : w.capsule.createdAtMicros = current.createdAtMicros
  meaning : SameMeaning w.capsule record
  verifies : w.capsule.verify sha256 = .ok ()

variable {now : Int64} {w : DeltaWrite}

theorem nextRevision_eq_ok {current record} (h : nextRevision sha256 now current record = .ok w) :
    Replaces sha256 current record w := by
  simp only [nextRevision, bind_eq_ok, okOr_eq_ok, mapError_eq_ok, pure_eq_ok] at h
  obtain ⟨revision, hrevision, capsule, hsealed, rfl⟩ := h
  have hsucc : revision.toNat = current.revision.toNat + 1 := by
    unfold checkedSucc at hrevision
    split at hrevision
    · next hfits =>
      obtain rfl := Option.some.inj hrevision
      exact Nat.mod_eq_of_lt hfits
    · cases hrevision
  have hverify := verify_of_sealed hsealed
  obtain ⟨-, digest, -, rfl⟩ := sealed_eq_ok hsealed
  exact ⟨rfl, hsucc, rfl, rfl, ⟨rfl, rfl, rfl, rfl, rfl, rfl, rfl⟩, hverify⟩

variable {entry : Identity × CapsuleEnvelope}

theorem sourceWrite_eq_some {targets}
    (h : sourceWrite sha256 debugStr now targets entry = .ok (some w)) :
    targets.get entry.1 = none ∧ w = ⟨entry.2, none⟩ ∨
      ∃ current, targets.get entry.1 = some current ∧ Replaces sha256 current entry.2 w := by
  unfold sourceWrite at h
  split at h
  · next hget =>
    simp only [pure_eq_ok, Option.some.injEq] at h
    exact .inl ⟨hget, h.symm⟩
  · next current hget =>
    simp only [bind_eq_ok] at h
    obtain ⟨_, -, _, -, h⟩ := h
    split at h
    · simp only [map_eq_pure_bind, bind_eq_ok, pure_eq_ok, Option.some.injEq] at h
      obtain ⟨_, hnext, rfl⟩ := h
      exact .inr ⟨current, hget, nextRevision_eq_ok hnext⟩
    · cases h

theorem sourceWrite_eq_none {targets} (h : sourceWrite sha256 debugStr now targets entry = .ok none) :
    ∃ current, targets.get entry.1 = some current ∧
      current.semanticDigest sha256 debugStr = entry.2.semanticDigest sha256 debugStr := by
  unfold sourceWrite at h
  split at h
  · cases h
  · next current hget =>
    simp only [bind_eq_ok] at h
    obtain ⟨digest, hcurrent, digest', hsource, h⟩ := h
    split at h
    · simp only [map_eq_pure_bind, bind_eq_ok, pure_eq_ok, reduceCtorEq, and_false,
        exists_false] at h
    · next heq => exact ⟨current, hget, by rw [hcurrent, hsource, not_not.mp heq]⟩

theorem removalWrite_eq_some {sources} (h : removalWrite sha256 now sources entry = .ok (some w)) :
    sources.get entry.1 = none ∧
      Replaces sha256 entry.2 { entry.2 with tombstone := true, body := none } w := by
  unfold removalWrite at h
  split at h
  · next hremoved =>
    simp only [map_eq_pure_bind, bind_eq_ok, pure_eq_ok, Option.some.injEq] at h
    obtain ⟨_, hnext, rfl⟩ := h
    refine ⟨?_, nextRevision_eq_ok hnext⟩
    simpa [contains] using hremoved.1
  · cases h

theorem removalWrite_eq_none {sources} :
    removalWrite sha256 now sources entry = .ok none ↔
      (sources.get entry.1).isSome ∨ entry.2.tombstone = true := by
  unfold removalWrite
  split
  · next hremoved =>
    simp only [map_eq_pure_bind, bind_eq_ok, pure_eq_ok, reduceCtorEq, and_false, exists_false,
      false_iff, not_or]
    exact hremoved
  · next hkept => exact iff_of_true rfl (by rwa [← not_or, not_not] at hkept)

/-! ## Lists by identity -/

variable {l : List CapsuleEnvelope}

theorem mem_byIdentity (h : entry ∈ (byIdentity l).entries) :
    entry.2 ∈ l ∧ entry.1 = entry.2.key := by
  obtain ⟨c, hc, rfl⟩ := List.mem_map.mp (mem_of_mem_ofList h)
  exact ⟨hc, rfl⟩

variable {c : CapsuleEnvelope}

theorem get_byIdentity (hunique : (l.map CapsuleEnvelope.key).Nodup) (hc : c ∈ l) :
    (byIdentity l).get c.key = some c := by
  have hkeys : ((l.map fun c => (c.key, c)).map Prod.fst).Nodup := by
    rwa [List.map_map]
  rw [byIdentity, get_ofList hkeys, lookup_eq_some_iff hkeys]
  exact List.mem_map_of_mem hc

variable {k : Identity}

theorem mem_of_get_byIdentity (h : (byIdentity l).get k = some c) : c ∈ l ∧ k = c.key :=
  mem_byIdentity (get_eq_some_iff.mp h)

def applied (writes : List DeltaWrite) (target : List CapsuleEnvelope) :
    OrderedMap Identity CapsuleEnvelope :=
  (byIdentity target).insertAll (writes.map fun w => (w.capsule.key, w.capsule))

section Applied

variable {writes : List DeltaWrite} {target : List CapsuleEnvelope}

theorem get_applied_of_mem (target : List CapsuleEnvelope)
    (h : (writes.map fun w => w.capsule.key).Nodup) (hw : w ∈ writes) :
    (applied writes target).get w.capsule.key = some w.capsule :=
  get_insertAll_of_mem _ (by rwa [List.map_map]) (List.mem_map_of_mem hw)

theorem get_applied_of_notMem (h : (writes.map fun w => w.capsule.key).Nodup)
    (hk : ∀ w ∈ writes, w.capsule.key ≠ k) :
    (applied writes target).get k = (byIdentity target).get k :=
  get_insertAll_of_notMem _ (by rwa [List.map_map]) (by simpa using hk)

theorem key_of_mem_applied (h : entry ∈ (applied writes target).entries) :
    entry.1 = entry.2.key := by
  rcases mem_of_mem_insertAll h with h | h
  · obtain ⟨w, -, rfl⟩ := List.mem_map.mp h
    rfl
  · exact (mem_byIdentity h).2

/-- The records of the target after the writes are listed under their own identities. -/
theorem byIdentity_applyWrites : byIdentity (applyWrites writes target) = applied writes target := by
  refine ofList_of_perm (.of_eq ?_)
  change ((applied writes target).entries.map Prod.snd).map _ = _
  rw [List.map_map]
  conv_rhs => rw [← List.map_id (applied writes target).entries]
  refine List.map_congr_left fun entry hentry => ?_
  exact Prod.ext (key_of_mem_applied hentry).symm rfl

end Applied

/-! ## The whole plan -/

section Whole

variable {source target : List CapsuleEnvelope} {now : Int64} {writes : List DeltaWrite}

/-- What the two loops of a plan that was made have done. -/
structure Planned (sha256 : List UInt8 → Vector UInt8 32) (debugStr : String → String)
    (source target : List CapsuleEnvelope) (now : Int64) (writes : List DeltaWrite) : Prop where
  mem : ∀ w, w ∈ writes ↔
    (∃ s ∈ (byIdentity source).entries,
      sourceWrite sha256 debugStr now (byIdentity target) s = .ok (some w)) ∨
    ∃ t ∈ (byIdentity target).entries, removalWrite sha256 now (byIdentity source) t = .ok (some w)
  sources : ∀ s ∈ (byIdentity source).entries,
    ∃ o, sourceWrite sha256 debugStr now (byIdentity target) s = .ok o
  removals : ∀ t ∈ (byIdentity target).entries,
    ∃ o, removalWrite sha256 now (byIdentity source) t = .ok o
  unique : (writes.map fun w => w.capsule.key).Nodup

theorem key_of_sourceWrite (hentry : entry ∈ (byIdentity source).entries)
    (h : sourceWrite sha256 debugStr now (byIdentity target) entry = .ok (some w)) :
    w.capsule.key = entry.1 := by
  rw [(mem_byIdentity hentry).2]
  rcases sourceWrite_eq_some h with ⟨-, rfl⟩ | ⟨current, -, hreplaces⟩
  · rfl
  · exact hreplaces.meaning.key

theorem key_of_removalWrite (hentry : entry ∈ (byIdentity target).entries)
    (h : removalWrite sha256 now (byIdentity source) entry = .ok (some w)) :
    w.capsule.key = entry.1 := by
  rw [(mem_byIdentity hentry).2]
  exact (removalWrite_eq_some h).2.meaning.key

theorem planDelta_eq_ok (h : planDelta sha256 debugStr source target now = .ok writes) :
    Planned sha256 debugStr source target now writes := by
  simp only [planDelta, bind_eq_ok, pure_eq_ok] at h
  obtain ⟨changed, hchanged, removed, hremoved, rfl⟩ := h
  have hmem : ∀ w, w ∈ changed.reduceOption ↔ _ := fun w => mem_reduceOption_of_mapM hchanged
  have hmem' : ∀ w, w ∈ removed.reduceOption ↔ _ := fun w => mem_reduceOption_of_mapM hremoved
  refine ⟨fun w => ?_, fun s hs => exists_of_mapM hchanged hs,
    fun t ht => exists_of_mapM hremoved ht, ?_⟩
  · rw [List.mem_append, hmem, hmem']
  · rw [List.map_append, List.nodup_append]
    refine ⟨?_, ?_, ?_⟩
    · exact (sublist_of_mapM hchanged fun s hs w => key_of_sourceWrite hs).nodup
        (byIdentity source).nodup_keys
    · exact (sublist_of_mapM hremoved fun t ht w => key_of_removalWrite ht).nodup
        (byIdentity target).nodup_keys
    · -- a removal is of an identity that the source lacks
      rintro _ hsource _ hremoval rfl
      obtain ⟨w, hw, hkey⟩ := List.mem_map.mp hsource
      obtain ⟨w', hw', hkey'⟩ := List.mem_map.mp hremoval
      obtain ⟨s, hs, hwrite⟩ := (hmem w).mp hw
      obtain ⟨t, ht, hwrite'⟩ := (hmem' w').mp hw'
      have hnone := (removalWrite_eq_some hwrite').1
      rw [← key_of_removalWrite ht hwrite', hkey', ← hkey, key_of_sourceWrite hs hwrite,
        get_eq_some_iff.mpr hs] at hnone
      cases hnone

namespace Planned

variable (h : Planned sha256 debugStr source target now writes)
include h

theorem not_written_of_sourceWrite {s} (hs : s ∈ (byIdentity source).entries)
    (hnone : sourceWrite sha256 debugStr now (byIdentity target) s = .ok none) :
    ∀ w ∈ writes, w.capsule.key ≠ s.1 := by
  rintro w hw hkey
  rcases (h.mem w).mp hw with ⟨s', hs', hwrite⟩ | ⟨t, ht, hwrite⟩
  · have hsame : s' = s := by
      rw [key_of_sourceWrite hs' hwrite] at hkey
      have hget := get_eq_some_iff.mpr hs'
      rw [hkey, get_eq_some_iff.mpr hs] at hget
      exact Prod.ext hkey (Option.some.inj hget).symm
    rw [hsame, hnone] at hwrite
    cases hwrite
  · have hget := (removalWrite_eq_some hwrite).1
    rw [← key_of_removalWrite ht hwrite, hkey, get_eq_some_iff.mpr hs] at hget
    cases hget

theorem source_settled {s} (hs : s ∈ (byIdentity source).entries) :
    ∃ c, (applied writes target).get s.1 = some c ∧
      c.semanticDigest sha256 debugStr = s.2.semanticDigest sha256 debugStr := by
  obtain ⟨o, ho⟩ := h.sources s hs
  cases o with
  | none =>
    obtain ⟨current, hget, hdigest⟩ := sourceWrite_eq_none ho
    exact ⟨current, (get_applied_of_notMem h.unique
      (h.not_written_of_sourceWrite hs ho)).trans hget, hdigest⟩
  | some w =>
    have hget := get_applied_of_mem target h.unique ((h.mem w).mpr (.inl ⟨s, hs, ho⟩))
    rw [key_of_sourceWrite hs ho] at hget
    refine ⟨w.capsule, hget, ?_⟩
    rcases sourceWrite_eq_some ho with ⟨-, rfl⟩ | ⟨current, -, hreplaces⟩
    · rfl
    · exact hreplaces.meaning.semanticDigest

theorem others_settled (hget : (applied writes target).get k = some c) :
    ((byIdentity source).get k).isSome ∨ c.tombstone = true := by
  by_cases hwritten : ∃ w ∈ writes, w.capsule.key = k
  · obtain ⟨w, hw, rfl⟩ := hwritten
    rw [get_applied_of_mem target h.unique hw, Option.some.injEq] at hget
    rcases (h.mem w).mp hw with ⟨s, hs, hwrite⟩ | ⟨t, ht, hwrite⟩
    · left
      rw [key_of_sourceWrite hs hwrite, get_eq_some_iff.mpr hs]
      rfl
    · right
      rw [← hget, (removalWrite_eq_some hwrite).2.meaning.tombstone]
  · push Not at hwritten
    rw [get_applied_of_notMem h.unique hwritten] at hget
    have ht := get_eq_some_iff.mp hget
    obtain ⟨o, ho⟩ := h.removals _ ht
    cases o with
    | none => exact removalWrite_eq_none.mp ho
    | some w => exact absurd (key_of_removalWrite ht ho) (hwritten w ((h.mem w).mpr (.inr ⟨_, ht, ho⟩)))

theorem replaces_of_expected (hw : w ∈ writes) {r} (hexpected : w.expectedRevision = some r) :
    ∃ t ∈ target, t.key = w.capsule.key ∧ t.revision = r ∧
      ∃ record, Replaces sha256 t record w := by
  rcases (h.mem w).mp hw with ⟨s, hs, hwrite⟩ | ⟨t, ht, hwrite⟩
  · rcases sourceWrite_eq_some hwrite with ⟨-, rfl⟩ | ⟨current, hget, hreplaces⟩
    · cases hexpected
    · obtain ⟨hmem, hkey⟩ := mem_of_get_byIdentity hget
      refine ⟨current, hmem, ?_, ?_, s.2, hreplaces⟩
      · rw [key_of_sourceWrite hs hwrite, hkey]
      · exact Option.some.inj (hreplaces.expected.symm.trans hexpected)
  · have hreplaces := (removalWrite_eq_some hwrite).2
    refine ⟨t.2, (mem_byIdentity ht).1, ?_, ?_, _, hreplaces⟩
    · rw [key_of_removalWrite ht hwrite, (mem_byIdentity ht).2]
    · exact Option.some.inj (hreplaces.expected.symm.trans hexpected)

theorem planDelta_applied {later}
    (hdigest : ∀ s ∈ source, ∃ digest, s.semanticDigest sha256 debugStr = .ok digest) :
    planDelta sha256 debugStr source (applyWrites writes target) later = .ok [] := by
  have hsources : ∀ s ∈ (byIdentity source).entries,
      sourceWrite sha256 debugStr later (applied writes target) s = .ok none := by
    intro s hs
    obtain ⟨c, hget, hsame⟩ := h.source_settled hs
    obtain ⟨digest, hok⟩ := hdigest s.2 (mem_byIdentity hs).1
    simp [sourceWrite, hget, hsame, hok]
  have hremovals : ∀ t ∈ (applied writes target).entries,
      removalWrite sha256 later (byIdentity source) t = .ok none := fun t ht =>
    removalWrite_eq_none.mpr (h.others_settled (get_eq_some_iff.mpr ht))
  obtain ⟨changed, hchanged, hempty⟩ := mapM_eq_none hsources
  obtain ⟨removed, hremoved, hempty'⟩ := mapM_eq_none hremovals
  simp only [planDelta, byIdentity_applyWrites, bind_eq_ok, pure_eq_ok]
  exact ⟨changed, hchanged, removed, hremoved, by rw [hempty, hempty', List.append_nil]⟩

end Planned

/-- **A delta plan converges.** Applied to the target, it leaves every source record with a
counterpart of its meaning and every other identity a tombstone or absent; a write that expects a
revision continues the chain of the record it replaces, and verifies; and nothing is planned for
what it leaves. That no digest of a source record outgrows memory is assumed. -/
theorem planDelta_converges (hunique : (source.map CapsuleEnvelope.key).Nodup)
    (hsealed : ∀ s ∈ source, ∃ e : CapsuleEnvelope, e.sealed sha256 = .ok s)
    (hmemory : ∀ s ∈ source,
      s.semanticDigest sha256 debugStr ≠ .error (.panicked "capacity overflow"))
    (hplan : planDelta sha256 debugStr source target now = .ok writes) :
    (∀ s ∈ source, ∃ c ∈ applyWrites writes target, c.key = s.key ∧
      c.semanticDigest sha256 debugStr = s.semanticDigest sha256 debugStr) ∧
    ((applyWrites writes target).map CapsuleEnvelope.key).Nodup ∧
    (∀ c ∈ applyWrites writes target, c.key ∉ source.map CapsuleEnvelope.key → c.tombstone = true) ∧
    (∀ w ∈ writes, ∀ r, w.expectedRevision = some r → ∃ t ∈ target, t.key = w.capsule.key ∧
      t.revision = r ∧ w.capsule.revision.toNat = r.toNat + 1 ∧
      w.capsule.previousIntegrity = some t.integrityHash ∧
      w.capsule.createdAtMicros = t.createdAtMicros ∧ w.capsule.verify sha256 = .ok ()) ∧
    ∀ later, now ≤ later →
      planDelta sha256 debugStr source (applyWrites writes target) later = .ok [] := by
  have hplanned := planDelta_eq_ok hplan
  refine ⟨fun s hs => ?_, ?_, fun c hc hkey => ?_, fun w hw r hexpected => ?_, fun later _ => ?_⟩
  · have hentry := get_eq_some_iff.mp (get_byIdentity hunique hs)
    obtain ⟨c, hget, hdigest⟩ := hplanned.source_settled hentry
    have hmem := get_eq_some_iff.mp hget
    exact ⟨c, List.mem_map_of_mem hmem, (key_of_mem_applied hmem).symm, hdigest⟩
  · have hkeys : (applyWrites writes target).map CapsuleEnvelope.key =
        (applied writes target).keys := by
      rw [applyWrites, List.map_map]
      exact List.map_congr_left fun entry hentry => (key_of_mem_applied hentry).symm
    rw [hkeys]
    exact (applied writes target).nodup_keys
  · obtain ⟨entry, hentry, rfl⟩ := List.mem_map.mp hc
    refine (hplanned.others_settled (get_eq_some_iff.mpr hentry)).resolve_left ?_
    rw [Option.isSome_iff_exists]
    rintro ⟨s, hget⟩
    obtain ⟨hmem, hsame⟩ := mem_of_get_byIdentity hget
    exact hkey (List.mem_map.mpr ⟨s, hmem, hsame.symm.trans (key_of_mem_applied hentry)⟩)
  · obtain ⟨t, ht, hkey, rfl, record, hreplaces⟩ := hplanned.replaces_of_expected hw hexpected
    exact ⟨t, ht, hkey, rfl, hreplaces.revision, hreplaces.previous, hreplaces.created,
      hreplaces.verifies⟩
  · refine hplanned.planDelta_applied fun s hs => ?_
    obtain ⟨e, hsealed⟩ := hsealed s hs
    exact exists_semanticDigest hsealed (hmemory s hs)

end Whole

end Plan

/-! ## A renamed record -/

/-- The fixture under another name. -/
def renamed : CapsuleEnvelope :=
  { fixture with
    body := some (.object (.ofList
      [("name", .text "sample"), ("weight", .float 0x3ff8000000000000)])) }

/-- SHA-256 on what is hashed when the fixture is renamed, told apart by its length: the integrity
and the meaning of the fixture, of its new form and of that form as the second revision. -/
def renamingSha256 (bytes : List UInt8) : Vector UInt8 32 :=
  match bytes.length with
  | 396 => digestOf 0x5f7e77f4fb8079e57aa966bf8a5e817134cb03e37d4cf5ad79e620ef51f4ec51
  | 455 => digestOf 0x143f568d7ffe5cc7f35ea2a4c2f9adbfb0ec5c3107f3951cdc6af9dfbbbd0df1
  | 226 => digestOf 0x5a9bdf56a96f9fd31bd3339e6e2c2ec1552593acb8b96522ecd8760107804df7
  | 228 => digestOf 0xb6413a473b822fac6a58c2ed438daea8452383a79e223549cb349c237403d4f3
  | _ => fixtureDigest

/-- The `Debug` form of a string without characters to escape. -/
def quoted (text : String) : String := "\"" ++ text ++ "\""

/-- One write, of revision 2, renames the fixture in a target; there is no other to make after it. -/
theorem planDelta_converges_renamed :
    ∃ source writes, renamed.sealed renamingSha256 = .ok source ∧
      planDelta renamingSha256 quoted [source] [sealedFixture] 1700000000000060 = .ok writes ∧
      writes.map (fun w => (w.expectedRevision, w.capsule.revision)) = [(some 1, 2)] ∧
      planDelta renamingSha256 quoted [source] (applyWrites writes [sealedFixture])
        1700000000000070 = .ok [] := by
  let run : MigrationContractResult (CapsuleEnvelope × List DeltaWrite) := do
    let source ← (renamed.sealed renamingSha256).mapError MigrationContractError.ofCapsule
    let writes ← planDelta renamingSha256 quoted [source] [sealedFixture] 1700000000000060
    pure (source, writes)
  have hrun : (run.toOption.any fun p =>
        errorOf (p.1.semanticDigest renamingSha256 quoted) = none ∧
        p.2.map (fun w => (w.expectedRevision, w.capsule.revision)) = [(some 1, 2)]) = true := by
    decide +kernel
  obtain ⟨⟨_, _⟩, hok, htest⟩ := exists_of_any_toOption hrun
  simp only [run, bind_eq_ok, mapError_eq_ok, pure_eq_ok, Prod.mk.injEq] at hok
  obtain ⟨source, hsealed, writes, hplan, rfl, rfl⟩ := hok
  obtain ⟨hdigest, hwrites⟩ := of_decide_eq_true htest
  refine ⟨source, writes, hsealed, hplan, hwrites, ?_⟩
  have hunique : ([source].map CapsuleEnvelope.key).Nodup := List.nodup_singleton _
  refine (planDelta_converges hunique ?_ ?_ hplan).2.2.2.2 _ (by decide)
  · intro s hs
    exact ⟨renamed, by rw [List.mem_singleton.mp hs, hsealed]⟩
  · intro s hs herror
    rw [List.mem_singleton.mp hs] at herror
    simp [herror, errorOf] at hdigest

end Aseman.Capsule
