import Aseman.Storage.Query

/-!
# Models and capsules

The models of the catalog (`schema.rs`) and the codec between a record and the capsule that stores it
(`codec.rs`). A capsule's body and relationships are kept as the record they hold, without its nulls;
its seal, its owner and its times are not read by the engine or the memory provider.
-/

namespace Aseman.Storage

open OrderedMap

inductive StorageError
  | invalid (message : String)
  | conflict (message : String)
  | notFound (message : String)
  /-- A walk over the pages of a query did not end within its bound. -/
  | unbounded
  deriving DecidableEq

def StorageError.isConflict : StorageError → Bool
  | conflict _ => true
  | _ => false

inductive FieldType
  | text
  | integer
  | float
  | bool
  | bytes
  | timestampMicros
  /-- A 16-byte id that is not a relation. -/
  | capsuleId
  /-- A JSON object. -/
  | document
  deriving DecidableEq

def FieldType.name : FieldType → String
  | text => "text"
  | integer => "integer"
  | float => "float"
  | bool => "bool"
  | bytes => "bytes"
  | timestampMicros => "timestamp_micros"
  | capsuleId => "capsule_id"
  | document => "document"

structure Model where
  name : String
  /-- The family that the ids of a keyed model derive from. -/
  keyFamily : Option String := none
  fields : OrderedMap String FieldType
  required : List String := []
  unique : List (List String) := []
  rangeIndexes : List (List String) := []
  /-- Relation name to target model. -/
  relations : OrderedMap String String := ∅
  appendOnly : Bool := false

/-- Whether a name is a field or a relation of the model. -/
def Model.has (model : Model) (name : String) : Bool :=
  model.fields.contains name || model.relations.contains name

def Model.invalid (model : Model) (message : String) : StorageError :=
  .invalid (model.name ++ ": " ++ message)

/-! ## Validation -/

variable {I : Type}

def FieldType.takes : FieldType → Value I → Bool
  | text, .text _ => true
  | integer, .int _ => true
  | timestampMicros, .int _ => true
  | float, .float _ => true
  | float, .int _ => true
  | bool, .bool _ => true
  | bytes, .bytes _ => true
  | capsuleId, .id _ => true
  | document, .json (.object _) => true
  | _, _ => false

variable (model : Model)

/-- The check of one entry in `codec::validate`. -/
def validateEntry (entry : String × Value I) : Except StorageError Unit :=
  let (name, value) := entry
  if value.isNull then .ok ()
  else if model.relations.contains name then
    match value with
    | .id _ => .ok ()
    | _ => .error (model.invalid ("relation " ++ name ++ " takes an id"))
  else
    match model.fields.get name with
    | none => .error (model.invalid ("unknown field " ++ name))
    | some type =>
      if type.takes value then .ok ()
      else .error (model.invalid ("field " ++ name ++ " takes a " ++ type.name ++ " value"))

/-- `codec::validate`. -/
def validate (data : Data I) (complete : Bool) : Except StorageError Unit := do
  data.entries.forM (validateEntry model)
  if complete then
    match model.required.find? fun field => (data.field field).isNull with
    | some missing => .error (model.invalid ("required field " ++ missing ++ " is missing"))
    | none => .ok ()
  else .ok ()

/-! ## The codec -/

/-- A capsule that stores a record, or its tombstone. -/
structure Capsule (I : Type) where
  kind : String
  id : I
  revision : Nat
  tombstone : Bool
  data : Data I

/-- The data without its nulls. -/
def stored (data : Data I) : Data I :=
  ⟨data.entries.filter fun e => !e.2.isNull, data.sorted.filter _⟩

theorem field_stored (data : Data I) (name : String) :
    (stored data).field name = data.field name := by
  cases hget : data.get name with
  | none =>
    have hnone : (stored data).get name = none := by
      rw [get_eq_none_iff] at hget ⊢
      exact fun hmem => hget (List.Sublist.subset (List.filter_sublist.map _) hmem)
    rw [Data.field, Data.field, hget, hnone]
  | some value =>
    by_cases hnull : value.isNull
    · have hnone : (stored data).get name = none := by
        apply Option.eq_none_iff_forall_ne_some.mpr
        intro v hv
        obtain ⟨hmem, hv⟩ := List.mem_filter.mp (get_eq_some_iff.mp hv)
        rw [get_eq_some_iff.mpr hmem] at hget
        cases hget
        simp [hnull] at hv
      rw [Data.field, Data.field]
      cases value <;> simp_all [Value.isNull]
    · have hsome : (stored data).get name = some value :=
        get_eq_some_iff.mpr (List.mem_filter.mpr ⟨get_eq_some_iff.mp hget, by simp [hnull]⟩)
      rw [Data.field, Data.field, hget, hsome]

/-- `codec::encode`: the next revision of the record `id`. -/
def encode (id : I) (previous : Option (Capsule I)) (data : Data I) : Capsule I where
  kind := model.name
  id := id
  revision := previous.elim 1 (·.revision + 1)
  tombstone := false
  data := stored data

/-- `codec::tombstone`: the relationships stay. -/
def tombstone (previous : Capsule I) : Capsule I :=
  { previous with
    revision := previous.revision + 1
    tombstone := true
    data := previous.data.restrict fun name => !model.fields.contains name }

/-- `codec::decode`: what the model does not declare is dropped. -/
def decode (capsule : Capsule I) : Row I where
  id := capsule.id
  revision := capsule.revision
  data := capsule.data.restrict model.has

theorem get_decode_encode (id : I) (previous : Option (Capsule I)) (data : Data I)
    (name : String) : (decode model (encode model id previous data)).get name =
      if model.has name then data.field name else .null := by
  rw [Row.get, decode, Data.field, get_restrict]
  split
  · exact field_stored data name
  · rfl

theorem get_decode (c : Capsule I) (name : String) :
    (decode model c).get name = if model.has name then c.data.field name else .null := by
  rw [Row.get, decode, Data.field, get_restrict]
  split <;> rfl

/-- `memory::unique_claims`: the values of each unique index; one with a null value claims nothing. -/
def uniqueClaims (row : Row I) : List (Nat × List (Value I)) :=
  (model.unique.zipIdx.map fun (fields, index) => (index, fields.map row.get)).filter
    fun claim => !claim.2.any (·.isNull)

end Aseman.Storage
