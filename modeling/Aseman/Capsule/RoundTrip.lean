import Aseman.Capsule.Envelope

/-!
# Reading a sealed envelope back

`from_canonical_bytes` against `canonical_bytes`, on envelopes that `seal` returned. Each field is
read back from the value it was written as, one lemma for each kind of field, with one exception: a
body that is `CapsuleValue::Null` is written as `null`, as an absent body is, and read back as one.
-/

namespace Aseman.Capsule

open CapsuleValue OrderedMap CapsuleEnvelope

/-! ## Fields -/

section Fields

variable {map : Members} {key : String}

theorem take_of_get {value} (h : map.get key = some value) :
    Yields (take key) map value (map.remove key) := by
  simp only [Yields, take, h]

theorem takeText_of_get {value} (h : map.get key = some (.text value)) :
    Yields (takeText key) map value (map.remove key) :=
  (take_of_get h).bind (by exact .pure value)

theorem takeI64_of_get {value} (h : map.get key = some (.integer value)) :
    Yields (takeI64 key) map value (map.remove key) :=
  (take_of_get h).bind (by exact .pure value)

theorem takeBool_of_get {value} (h : map.get key = some (.bool value)) :
    Yields (takeBool key) map value (map.remove key) :=
  (take_of_get h).bind (by exact .pure value)

variable {n : Nat}

theorem fixedBytes_toList (value : Vector UInt8 n) : fixedBytes n value.toList = some value := by
  simp [fixedBytes, Vector.toList]

theorem takeFixedBytes_of_get {value} (h : map.get key = some (.bytes value.toList)) :
    Yields (takeFixedBytes n key) map value (map.remove key) :=
  (take_of_get h).bind (by
    exact .lift (okOr_eq_ok.mpr (fixedBytes_toList value)))

theorem integerValue_eq_ok {n value} (h : integerValue n = .ok value) :
    ∃ m : Int64, m.toInt = n ∧ value = .integer m := by
  rw [integerValue] at h
  split at h
  · next hn =>
    cases h
    exact ⟨Int64.ofInt n, Int64.toInt_ofInt_of_le hn.1 hn.2, rfl⟩
  · cases h

theorem takeU64_of_get {value} (hvalue : integerValue n = .ok value) (h : map.get key = some value) :
    Yields (takeU64 key) map n (map.remove key) := by
  obtain ⟨m, hm, rfl⟩ := integerValue_eq_ok hvalue
  refine (takeI64_of_get h).bind ((Yields.ensure (by omega)).bind ?_)
  rw [hm]
  exact .pure n

end Fields

/-! ## Objects -/

theorem intoObject_object (members : Members) (label : String) :
    intoObject (.object members) label = .ok members := by
  rw [intoObject, view_object]

theorem intoArray_array (values : List CapsuleValue) (label : String) :
    intoArray (.array values) label = .ok values := by
  rw [intoArray, view_array]

/-- The fields give `a`, whatever they leave of the object. -/
def Parses {α : Type} (fields : Fields α) (map : Members) (a : α) : Prop :=
  ∃ map', Yields fields map a map'

namespace Parses

variable {α β : Type} {map map' : Members} {a : α} {b : β}

theorem pure (a : α) : Parses (Pure.pure a) map a := ⟨map, .pure a⟩

theorem lift {x : CapsuleResult α} (h : x = .ok a) : Parses (liftM x) map a := ⟨map, .lift h⟩

theorem bind {fields rest} (h : Yields fields map a map') (hrest : Parses (rest a) map' b) :
    Parses (fields >>= rest) map b :=
  let ⟨map'', h'⟩ := hrest
  ⟨map'', h.bind h'⟩

end Parses

theorem parseObject_object {α : Type} {label : String} {allowed : List String} {fields : Fields α}
    {map : Members} {a : α} (hkeys : ∀ key ∈ map.keys, key ∈ allowed)
    (hfields : Parses fields map a) : parseObject label allowed fields (.object map) = .ok a := by
  obtain ⟨map', hfields⟩ := hfields
  exact bind_eq_ok.mpr ⟨map, intoObject_object map label,
    bind_eq_ok.mpr ⟨(), ensure_eq_ok.mpr hkeys, bind_eq_ok.mpr ⟨(a, map'), hfields, rfl⟩⟩⟩

variable {value : CapsuleValue} {key : String}

theorem get_ofList_eq {entries} (hnodup : (entries.map Prod.fst).Nodup)
    (h : entries.lookup key = some value) : (ofList entries).get key = some value := by
  rw [get_ofList hnodup, h]

theorem get_remove_of_ne {map : Members} {key' : String} {value : Option CapsuleValue}
    (hne : key' ≠ key) (h : map.get key' = value) : (map.remove key).get key' = value := by
  rw [get_remove, if_neg hne, h]

theorem parseDigest_digestValue {digest : CapsuleDigest} (h : validateDigest digest = .ok ()) :
    parseDigest (digestValue digest) = .ok digest := by
  refine bind_eq_ok.mpr ⟨digest, parseObject_object (fun _ => mem_of_mem_keys_ofList) ?_,
    bind_eq_ok.mpr ⟨(), h, rfl⟩⟩
  refine .bind (takeText_of_get (get_ofList_eq (by simp) rfl)) ?_
  refine .bind (take_of_get (get_remove_of_ne (by decide) (get_ofList_eq (by simp) rfl))) ?_
  exact .pure _

theorem parseRelationship_relationshipValue (relationship : CapsuleRelationship) :
    parseRelationship (relationshipValue relationship) = .ok relationship := by
  refine parseObject_object (fun _ => mem_of_mem_keys_ofList) ?_
  refine .bind (takeText_of_get (get_ofList_eq (by simp) rfl)) ?_
  refine .bind (takeText_of_get (get_remove_of_ne (by decide) (get_ofList_eq (by simp) rfl))) ?_
  refine .bind (takeFixedBytes_of_get (get_remove_of_ne (by decide)
    (get_remove_of_ne (by decide) (get_ofList_eq (by simp) rfl)))) ?_
  exact .pure _

theorem parseOptional_optionValue {α : Type} {o : Option α} {write : α → CapsuleValue}
    {parse : CapsuleValue → CapsuleResult α} (hnull : ∀ a ∈ o, (write a).view ≠ .null)
    (hparse : ∀ a ∈ o, parse (write a) = .ok a) :
    parseOptional (optionValue (o.map write)) parse = .ok o := by
  cases o with
  | none => rfl
  | some a =>
    have hn := hnull a rfl
    simp only [Option.map_some, optionValue, Option.getD_some, parseOptional]
    rw [hparse a rfl]
    rfl

theorem parseClassName_text (name : String) : parseClassName (.text name) = .ok name := by
  rw [parseClassName, view_text]

theorem parseStorageClass_storageClassValue (storageClass : StorageClass) :
    parseStorageClass (storageClassValue storageClass) = .ok storageClass := by
  -- the value is an object of a name, there for a module only, and a type
  suffices ∀ (kind : String) (name : Option String), storageClassOf kind name = .ok storageClass →
      parseStorageClass (.object (.ofList
        [("name", optionValue (name.map .text)), ("type", .text kind)])) = .ok storageClass by
    cases storageClass <;> exact this _ _ rfl
  intro kind name h
  refine parseObject_object (fun _ => mem_of_mem_keys_ofList) ?_
  refine .bind (take_of_get (get_ofList_eq (by simp) rfl)) ?_
  refine .bind (.lift (parseOptional_optionValue ?_ fun name _ => parseClassName_text name)) ?_
  · intro name _
    exact View.noConfusion
  · refine .bind (takeText_of_get (get_remove_of_ne (by decide) (get_ofList_eq (by simp) rfl))) ?_
    exact .lift h

theorem parseOwner_ownerValue (owner : OwnerScope) : parseOwner (ownerValue owner) = .ok owner := by
  suffices ∀ (kind : String) (id : CapsuleValue), ownerOf kind id.view = .ok owner →
      parseOwner (.object (.ofList [("id", id), ("type", .text kind)])) = .ok owner by
    cases owner with
    | global => exact this _ _ rfl
    | node id | creature id => exact this _ _ (by rw [view_bytes, ownerOf, fixedBytes_toList]; rfl)
    | module name => exact this _ _ (by rw [view_text, ownerOf])
  intro kind id h
  refine parseObject_object (fun _ => mem_of_mem_keys_ofList) ?_
  refine .bind (takeText_of_get (get_ofList_eq (by simp) rfl)) ?_
  refine .bind (take_of_get (get_remove_of_ne (by decide) (get_ofList_eq (by simp) rfl))) ?_
  exact .lift h

theorem mapM_parseRelationship (relationships : List CapsuleRelationship) :
    (relationships.map relationshipValue).mapM parseRelationship = .ok relationships := by
  induction relationships with
  | nil => rfl
  | cons relationship relationships ih =>
    rw [List.map_cons, List.mapM_cons, parseRelationship_relationshipValue, ih]
    rfl

/-! ## Envelopes -/

/-- The body that is read back: a `null` is read as no body. -/
def storedBody (body : Option CapsuleValue) : Option CapsuleValue := body.bind fun value =>
    match value.view with
    | .null => none
    | _ => some value

theorem storedBody_of_ne_null {body} (h : body ≠ some .null) : storedBody body = body := by
  cases body with
  | none => rfl
  | some value =>
    have hview : value.view ≠ .null := fun hnull => h (congrArg some (view_eq_null.mp hnull))
    simp only [storedBody, Option.bind_some]

theorem parseOptional_body (body : Option CapsuleValue) :
    parseOptional (optionValue body) Except.ok = .ok (storedBody body) := by
  cases body with
  | none => rfl
  | some value =>
    simp only [optionValue, Option.getD_some, parseOptional, storedBody, Option.bind_some]
    cases value.view <;> rfl

theorem integerValue_toInt (n : Int64) : integerValue n.toInt = .ok (.integer n) := by
  rw [integerValue, if_pos ⟨n.le_toInt, n.toInt_lt⟩, Int64.ofInt_toInt]

variable {e : CapsuleEnvelope}

/-- The value of an envelope: its numbers are those that fit an `i64`. -/
theorem asValue_eq_ok {includeIntegrity} : e.asValue includeIntegrity = .ok value ↔
    ∃ version revision schema, integerValue e.encodingVersion.toNat = .ok version ∧
      integerValue e.revision.toNat = .ok revision ∧
      integerValue e.schemaVersion.toNat = .ok schema ∧
      value = .object (if includeIntegrity then
        (ofList (e.entries (.integer e.createdAtMicros) version revision schema
          (.integer e.updatedAtMicros))).insert "integrity_hash" (digestValue e.integrityHash)
        else .ofList (e.entries (.integer e.createdAtMicros) version revision schema
          (.integer e.updatedAtMicros))) := by
  simp only [asValue, bind_eq_ok, pure_eq_ok, integerValue_toInt, Except.ok.injEq]
  constructor
  · rintro ⟨_, rfl, version, hversion, revision, hrevision, schema, hschema, _, rfl, rfl⟩
    exact ⟨version, revision, schema, hversion, hrevision, hschema, rfl⟩
  · rintro ⟨version, revision, schema, hversion, hrevision, hschema, rfl⟩
    exact ⟨_, rfl, version, hversion, revision, hrevision, schema, hschema, _, rfl, rfl⟩

structure ValidDigests (e : CapsuleEnvelope) : Prop where
  integrity : validateDigest e.integrityHash = .ok ()
  previous : ∀ digest ∈ e.previousIntegrity, validateDigest digest = .ok ()

theorem digestValue_view_ne_null (digest : CapsuleDigest) : (digestValue digest).view ≠ .null := by
  exact View.noConfusion

/-- The object holds the entries whose keys were not taken yet. -/
def Holds (map : Members) (entries : List (String × CapsuleValue)) (taken : List String) : Prop :=
  ∀ key ∉ taken, map.get key = entries.lookup key

namespace Holds

variable {map : Members} {entries : List (String × CapsuleValue)} {taken : List String}

theorem get (h : Holds map entries taken) (hkey : key ∉ taken)
    (hlookup : entries.lookup key = some value) : map.get key = some value := by
  rw [h key hkey, hlookup]

theorem remove (h : Holds map entries taken) (key : String) :
    Holds (map.remove key) entries (key :: taken) := by
  intro key' hkey'
  rw [List.mem_cons, not_or] at hkey'
  rw [get_remove, if_neg hkey'.1, h key' hkey'.2]

theorem mem_of_mem_keys (h : Holds map entries []) (hkey : key ∈ map.keys) :
    key ∈ entries.map Prod.fst := by
  rw [mem_keys_iff, h key List.not_mem_nil, Option.isSome_iff_ne_none] at hkey
  by_contra hnot
  refine hkey (List.lookup_eq_none_iff.mpr fun e he => bne_iff_ne.mpr ?_)
  rintro rfl
  exact hnot (List.mem_map_of_mem he)

end Holds

/-- **Reading back** an envelope's value: every field but the body as it was. -/
theorem fromValue_asValue (h : e.asValue true = .ok value) (hdigests : ValidDigests e) :
    fromValue value = .ok { e with body := storedBody e.body } := by
  obtain ⟨version, revision, schema, hversion, hrevision, hschema, rfl⟩ := asValue_eq_ok.mp h
  set entries := e.entries (.integer e.createdAtMicros) version revision schema
    (.integer e.updatedAtMicros) with hentries
  have hholds : Holds ((ofList entries).insert "integrity_hash"
      (digestValue e.integrityHash)) (("integrity_hash", digestValue e.integrityHash) :: entries)
      [] := by
    intro key _
    rw [get_insert, lookup_cons_eq, get_ofList]
    simp [hentries, CapsuleEnvelope.entries]
  refine parseObject_object (fun key hkey => ?_) ?_
  · have hsubset : (("integrity_hash", digestValue e.integrityHash) :: entries).map Prod.fst ⊆
        envelopeKeys := by
      simp [hentries, CapsuleEnvelope.entries, envelopeKeys]
    exact hsubset (hholds.mem_of_mem_keys hkey)
  · refine .bind (takeU64_of_get hversion (hholds.get (by decide) rfl)) ?_
    replace hholds := hholds.remove "encoding_version"
    refine .bind (.ensure e.encodingVersion.toNat_lt) ?_
    refine .bind (takeFixedBytes_of_get (hholds.get (by decide) rfl)) ?_
    replace hholds := hholds.remove "id"
    refine .bind (takeText_of_get (hholds.get (by decide) rfl)) ?_
    replace hholds := hholds.remove "kind"
    refine .bind (take_of_get (hholds.get (by decide) rfl)) ?_
    replace hholds := hholds.remove "storage_class"
    refine .bind (.lift (parseStorageClass_storageClassValue _)) ?_
    refine .bind (take_of_get (hholds.get (by decide) rfl)) ?_
    replace hholds := hholds.remove "owner_scope"
    refine .bind (.lift (parseOwner_ownerValue _)) ?_
    refine .bind (takeU64_of_get hschema (hholds.get (by decide) rfl)) ?_
    replace hholds := hholds.remove "schema_version"
    refine .bind (.ensure e.schemaVersion.toNat_lt) ?_
    refine .bind (takeU64_of_get hrevision (hholds.get (by decide) rfl)) ?_
    replace hholds := hholds.remove "revision"
    refine .bind (takeI64_of_get (hholds.get (by decide) rfl)) ?_
    replace hholds := hholds.remove "created_at_micros"
    refine .bind (takeI64_of_get (hholds.get (by decide) rfl)) ?_
    replace hholds := hholds.remove "updated_at_micros"
    refine .bind (take_of_get (hholds.get (by decide) rfl)) ?_
    replace hholds := hholds.remove "previous_integrity"
    refine .bind (.lift (parseOptional_optionValue (fun digest _ => digestValue_view_ne_null digest)
      fun digest hdigest => parseDigest_digestValue (hdigests.previous digest hdigest))) ?_
    refine .bind (take_of_get (hholds.get (by decide) rfl)) ?_
    replace hholds := hholds.remove "integrity_hash"
    refine .bind (.lift (parseDigest_digestValue hdigests.integrity)) ?_
    refine .bind (takeBool_of_get (hholds.get (by decide) rfl)) ?_
    replace hholds := hholds.remove "tombstone"
    refine .bind (take_of_get (hholds.get (by decide) rfl)) ?_
    replace hholds := hholds.remove "relationships"
    refine .bind (.lift (intoArray_array _ _)) ?_
    refine .bind (.lift (mapM_parseRelationship _)) ?_
    refine .bind (take_of_get (hholds.get (by decide) rfl)) ?_
    refine .bind (.lift (parseOptional_body _)) ?_
    rw [UInt16.ofNat_toNat, UInt32.ofNat_toNat, UInt64.ofNat_toNat]
    exact .pure _

/-! ## Sealed envelopes -/

/-- What `validate_structure` checks, but for the integrity hash. -/
structure Structured (e : CapsuleEnvelope) : Prop where
  kind : validateToken "kind" e.kind = .ok ()
  version : e.encodingVersion = Capsule.encodingVersion
  numbers : e.schemaVersion ≠ 0 ∧ e.revision ≠ 0
  times : e.createdAtMicros ≤ e.updatedAtMicros
  body : e.tombstone = e.body.isNone
  link : decide (e.revision = 1) = e.previousIntegrity.isNone
  previous : ∀ digest ∈ e.previousIntegrity, validateDigest digest = .ok ()
  relationships : validateRelationships e.relationships [] = .ok ()
  value : validateValue e.body = .ok ()

theorem validateStructure_eq_ok {current} : e.validateStructure current = .ok () ↔
      Structured e ∧ (current = true → validateDigest e.integrityHash = .ok ()) := by
  constructor
  · intro h
    simp only [validateStructure, bind_eq_ok, ensure_eq_ok, Unique.exists_iff,
      PUnit.default_eq_unit] at h
    obtain ⟨hkind, hversion, hnumbers, htimes, hbody, hlink, hrest⟩ := h
    -- the two digests are checked where they are asked for and where they are
    have hdigests : (current = true → validateDigest e.integrityHash = .ok ()) ∧
        (∀ digest ∈ e.previousIntegrity, validateDigest digest = .ok ()) ∧
        validateRelationships e.relationships [] = .ok () ∧ validateValue e.body = .ok () := by
      cases current <;> cases hprevious : e.previousIntegrity <;>
        simp only [hprevious, bind_eq_ok, Unique.exists_iff, PUnit.default_eq_unit, if_true,
          Bool.false_eq_true, if_false] at hrest <;> simp_all
    exact ⟨⟨hkind, hversion, hnumbers, htimes, hbody, hlink, hdigests.2.1, hdigests.2.2.1,
      hdigests.2.2.2⟩, hdigests.1⟩
  · rintro ⟨⟨hkind, hversion, hnumbers, htimes, hbody, hlink, hprevious, hrelationships, hvalue⟩,
      hcurrent⟩
    simp only [validateStructure, bind_eq_ok, ensure_eq_ok, Unique.exists_iff,
      PUnit.default_eq_unit]
    cases current <;> cases hsome : e.previousIntegrity <;>
      simp_all [Unique.exists_iff]

section Sealed

variable {sha256 : List UInt8 → Vector UInt8 32} {e s : CapsuleEnvelope}

theorem asValue_with_integrity (e : CapsuleEnvelope) (digest : CapsuleDigest) :
    asValue { e with integrityHash := digest } false = e.asValue false := by
  simp only [asValue, CapsuleEnvelope.entries, Bool.false_eq_true, if_false]

theorem sealed_eq_ok (h : e.sealed sha256 = .ok s) : e.validateStructure false = .ok () ∧
      ∃ digest, e.computeIntegrity sha256 = .ok digest ∧ s = { e with integrityHash := digest } := by
  simp only [sealed, bind_eq_ok, pure_eq_ok] at h
  obtain ⟨⟨⟩, hstructure, digest, hdigest, rfl⟩ := h
  exact ⟨hstructure, digest, hdigest, rfl⟩

theorem computeIntegrity_eq_ok {digest} (h : e.computeIntegrity sha256 = .ok digest) :
    validateDigest digest = .ok () ∧
      ∃ value bytes, e.asValue false = .ok value ∧ encodeValue value = .ok bytes := by
  simp only [computeIntegrity, bind_eq_ok, pure_eq_ok] at h
  obtain ⟨-, -, value, hvalue, bytes, hbytes, rfl⟩ := h
  refine ⟨?_, value, bytes, hvalue, hbytes⟩
  simp [validateDigest]

theorem computeIntegrity_with_integrity (digest : CapsuleDigest) :
    computeIntegrity sha256 { e with integrityHash := digest } = e.computeIntegrity sha256 := by
  simp only [computeIntegrity, asValue_with_integrity]

theorem structured_with_integrity (h : Structured e) (digest : CapsuleDigest) :
    Structured { e with integrityHash := digest } :=
  ⟨h.kind, h.version, h.numbers, h.times, h.body, h.link, h.previous, h.relationships, h.value⟩

theorem structured_of_sealed (h : e.sealed sha256 = .ok s) : Structured s ∧ ValidDigests s := by
  obtain ⟨hstructure, digest, hdigest, rfl⟩ := sealed_eq_ok h
  have hstructured := (validateStructure_eq_ok.mp hstructure).1
  exact ⟨structured_with_integrity hstructured digest,
    (computeIntegrity_eq_ok hdigest).1, hstructured.previous⟩

/-- **What `seal` returns verifies.** -/
theorem verify_of_sealed (h : e.sealed sha256 = .ok s) : s.verify sha256 = .ok () := by
  obtain ⟨hstructured, hdigests⟩ := structured_of_sealed h
  obtain ⟨-, digest, hdigest, rfl⟩ := sealed_eq_ok h
  refine bind_eq_ok.mpr ⟨(), validateStructure_eq_ok.mpr ⟨hstructured, fun _ => hdigests.integrity⟩,
    bind_eq_ok.mpr ⟨digest, ?_, ensure_eq_ok.mpr rfl⟩⟩
  rw [computeIntegrity_with_integrity]
  exact hdigest

theorem validateAt_digestValue (digest : CapsuleDigest) :
    (digestValue digest).validateAt 1 = .ok () := by
  refine validateAt_object.mpr ⟨by decide, ?_, fun e he => ?_⟩
  · exact (length_ofList_le _).trans (by simp [maxCollectionItems])
  · have hmem := mem_of_mem_ofList he
    simp only [List.mem_cons, List.not_mem_nil, or_false] at hmem
    rcases hmem with rfl | rfl <;> simp [maxValueDepth]

/-- The value of a sealed envelope is valid: its fields are those that `seal` encoded, and the
integrity hash. -/
theorem exists_canonicalForm (h : e.sealed sha256 = .ok s) :
    ∃ value form, s.asValue true = .ok value ∧ value.validateAt 0 = .ok () ∧
      value.encodeInto = .ok form := by
  obtain ⟨-, digest, hdigest, rfl⟩ := sealed_eq_ok h
  obtain ⟨-, value, bytes, hvalue, hbytes⟩ := computeIntegrity_eq_ok hdigest
  have hvalid := (encodeValue_eq_ok.mp hbytes).1
  obtain ⟨version, revision, schema, hversion, hrevision, hschema, rfl⟩ := asValue_eq_ok.mp hvalue
  obtain ⟨-, -, hentries⟩ := validateAt_object.mp hvalid
  set entries := e.entries (.integer e.createdAtMicros) version revision schema
    (.integer e.updatedAtMicros) with hdef
  have hvalid' : (object ((ofList entries).insert "integrity_hash"
      (digestValue digest))).validateAt 0 = .ok () := by
    refine validateAt_object.mpr ⟨by decide, ?_, fun m hm => ?_⟩
    · have hinsert := length_insert_le (.ofList entries) "integrity_hash"
        (digestValue digest)
      have hlist := length_ofList_le entries
      have hcount : entries.length = 13 := rfl
      rw [maxCollectionItems]
      omega
    · rcases mem_insert hm with rfl | hm
      · exact ⟨by simp, validateAt_digestValue digest⟩
      · exact hentries m hm
  obtain ⟨form, hform⟩ := exists_encodeInto hvalid'
  exact ⟨_, form, asValue_eq_ok.mpr ⟨version, revision, schema, hversion, hrevision, hschema, rfl⟩,
    hvalid', hform⟩

/-- **Reading back a sealed envelope.** It has a canonical form; where that is within the byte limit
`canonical_bytes` returns it, and `from_canonical_bytes` reads the envelope back from it just when
its body is not `CapsuleValue::Null`. -/
theorem fromCanonicalBytes_of_sealed (h : e.sealed sha256 = .ok s) :
    ∃ value form, s.asValue true = .ok value ∧ value.encodeInto = .ok form ∧
      (form.length ≤ maxCapsuleBytes → s.canonicalBytes sha256 = .ok form ∧
        (fromCanonicalBytes sha256 form = .ok s ↔ e.body ≠ some .null)) := by
  obtain ⟨value, form, hvalue, hvalid, hform⟩ := exists_canonicalForm h
  have hverify := verify_of_sealed h
  have hbody : s.body = e.body := by
    obtain ⟨-, digest, -, rfl⟩ := sealed_eq_ok h
    rfl
  refine ⟨value, form, hvalue, hform, fun hlength => ?_⟩
  have hencode : encodeValue value = .ok form := by
    refine encodeValue_eq_ok.mpr ⟨hvalid, hform, ?_⟩
    simp only [maxCapsuleBytes, maxVecBytes] at hlength ⊢
    omega
  have hdecode := decodeCanonicalValue_of_encodeValue hencode hlength
  have hread := fromValue_asValue hvalue (structured_of_sealed h).2
  refine ⟨bind_eq_ok.mpr ⟨(), hverify, bind_eq_ok.mpr ⟨value, hvalue, hencode⟩⟩, ?_⟩
  rw [← hbody]
  constructor
  · -- what is read back has no body where a `null` was written
    rintro hok hnull
    simp only [fromCanonicalBytes, bind_eq_ok, pure_eq_ok] at hok
    obtain ⟨value', hvalue', envelope, henvelope, -, -, rfl⟩ := hok
    rw [hdecode, Except.ok.injEq] at hvalue'
    subst hvalue'
    rw [hread, Except.ok.injEq] at henvelope
    have hstored := congrArg body henvelope
    rw [hnull] at hstored
    simp [storedBody] at hstored
  · intro hne
    rw [storedBody_of_ne_null hne] at hread
    exact bind_eq_ok.mpr ⟨value, hdecode, bind_eq_ok.mpr ⟨s, hread,
      bind_eq_ok.mpr ⟨(), hverify, rfl⟩⟩⟩

end Sealed

/-! ## The envelope of the fixture -/

/-- The envelope that `contracts/capsule/fixtures/canonical-v1.json` is the canonical form of. -/
def fixture : CapsuleEnvelope where
  encodingVersion := 1
  id := Vector.replicate 16 1
  kind := "core.program"
  storageClass := .core
  ownerScope := .creature (Vector.replicate 16 2)
  schemaVersion := 1
  revision := 1
  createdAtMicros := 1700000000000000
  updatedAtMicros := 1700000000000000
  previousIntegrity := none
  integrityHash := ⟨digestAlgorithm, List.replicate 32 0⟩
  tombstone := false
  relationships := [⟨"creature", "core.creature", Vector.replicate 16 2⟩]
  body := some (.object (.ofList [("name", .text "demo"), ("weight", .float 0x3ff8000000000000)]))

def digestOf (n : Nat) : Vector UInt8 32 := ⟨(bigEndian 32 n).toArray, by simp⟩

/-- The SHA-256 digest of what `compute_integrity` hashes for the fixture: its `integrity_hex`. -/
def fixtureDigest : Vector UInt8 32 :=
  digestOf 0x072dfdf63f5e55e376ed527fd58222727b2e821fe726773e9c5b3292c4d47377

def sealedFixture : CapsuleEnvelope :=
  { fixture with integrityHash := ⟨digestAlgorithm, fixtureDigest.toList⟩ }

/-- The fixture's `canonical_hex`. -/
def fixtureBytes : List UInt8 :=
  [0xae626964500101010101010101010101010101010164626f6479a2646e616d656464656d6f667765696768,
    0x74f93e00646b696e646c636f72652e70726f6772616d687265766973696f6e0169746f6d6273746f6e65f4,
    0x6b6f776e65725f73636f7065a2626964500202020202020202020202020202020264747970656863726561,
    0x747572656d72656c6174696f6e736869707381a3646e616d65686372656174757265697461726765745f69,
    0x6450020202020202020202020202020202026b7461726765745f6b696e646d636f72652e63726561747572,
    0x656d73746f726167655f636c617373a2646e616d65f6647479706564636f72656e696e746567726974795f,
    0x68617368a26562797465735820072dfdf63f5e55e376ed527fd58222727b2e821fe726773e9c5b3292c4d4,
    0x737769616c676f726974686d68736861322d3235366e736368656d615f76657273696f6e0170656e636f64,
    0x696e675f76657273696f6e0171637265617465645f61745f6d6963726f731b00060a24181e400071757064,
    0x617465645f61745f6d6963726f731b00060a24181e40007270726576696f75735f696e74656772697479f6].flatMap
    (bigEndian 43)

theorem fromCanonicalBytes_of_fixture :
    fixture.sealed (fun _ => fixtureDigest) = .ok sealedFixture ∧
      sealedFixture.canonicalBytes (fun _ => fixtureDigest) = .ok fixtureBytes ∧
      fromCanonicalBytes (fun _ => fixtureDigest) fixtureBytes = .ok sealedFixture := by
  have hsealed : fixture.sealed (fun _ => fixtureDigest) = .ok sealedFixture :=
    bind_eq_ok.mpr ⟨(), by decide +kernel, bind_eq_ok.mpr ⟨_, by decide +kernel, rfl⟩⟩
  have hbytes : (sealedFixture.asValue true >>= CapsuleValue.encodeInto) = .ok fixtureBytes := by
    decide +kernel
  obtain ⟨value, form, hvalue, hform, hread⟩ := fromCanonicalBytes_of_sealed hsealed
  rw [hvalue] at hbytes
  obtain ⟨hcanonical, hiff⟩ := hread (by rw [Except.ok.inj (hform.symm.trans hbytes)]; decide +kernel)
  rw [← Except.ok.inj (hform.symm.trans hbytes)]
  refine ⟨hsealed, hcanonical, hiff.mpr fun hnull => ?_⟩
  have hview := congrArg CapsuleValue.view (Option.some.inj hnull)
  cases hview

/-- The digest for the fixture with the body `CapsuleValue::Null`. -/
def nullDigest : Vector UInt8 32 :=
  digestOf 0xb10481a7695f2d5e1ad9d53a72fd4234825e58bed3a4268c9f5f768ee22e410d

/-- A live envelope whose body is `CapsuleValue::Null` is sealed and written, and what was written is
refused when it is read. -/
theorem null_body_not_read_back :
    ∃ s form, sealed (fun _ => nullDigest) { fixture with body := some .null } = .ok s ∧
      s.canonicalBytes (fun _ => nullDigest) = .ok form ∧ form.length ≤ maxCapsuleBytes ∧
      fromCanonicalBytes (fun _ => nullDigest) form =
        .error (.invalid "tombstones have no body and live revisions require a body") := by
  have hrun : ((sealed (fun _ => nullDigest) { fixture with body := some .null }
      >>= canonicalBytes fun _ => nullDigest).toOption.any fun form =>
        form.length ≤ maxCapsuleBytes ∧
        errorOf (fromCanonicalBytes (fun _ => nullDigest) form) =
          some (.invalid "tombstones have no body and live revisions require a body")) = true := by
    decide +kernel
  obtain ⟨form, hform, htest⟩ := exists_of_any_toOption hrun
  obtain ⟨s, hs, hcanonical⟩ := bind_eq_ok.mp hform
  have htest := of_decide_eq_true htest
  exact ⟨s, form, hs, hcanonical, htest.1, errorOf_eq_some.mp htest.2⟩

end Aseman.Capsule
