import Aseman.Lib.OrderedMap
import Aseman.Lib.Bytes
import Aseman.Lib.Ieee
import Mathlib.Data.String.Basic

/-!
# Capsule values

`CapsuleValue`, the portable data of a capsule, and the limits that `validate_value` puts on it. An
object is a `BTreeMap`, so a value whose members are out of key order, or that has a key twice, does
not exist: `Tree` is the bare syntax and `CapsuleValue` a tree with ordered objects. The rest of the
development builds values with the constructors below (`CapsuleValue.array`, `CapsuleValue.object`)
and takes them apart by `CapsuleValue.induct`, and never sees a tree.
-/

namespace Aseman.Capsule

/-! ## Errors and limits -/

inductive CapsuleError where
  | invalid (message : String)
  | unsupportedEncoding (version : UInt16)
  | unsupportedDigest (algorithm : String)
  | nonCanonical (message : String)
  | truncated
  /-- Not an error value of the source: the call panics with this message. -/
  | panicked (message : String)
  deriving DecidableEq

abbrev CapsuleResult := Except CapsuleError

def maxCapsuleBytes : Nat := 64 * 1024 * 1024
def maxValueDepth : Nat := 64
def maxCollectionItems : Nat := 1000000

/-! ## Values -/

/-- The syntax of a value; `float` holds the bits of an `f64`. -/
inductive Tree where
  | null
  | bool (value : Bool)
  | integer (value : Int64)
  | float (bits : UInt64)
  | bytes (value : List UInt8)
  | text (value : String)
  | array (values : List Tree)
  | object (entries : List (String × Tree))

open Tree

/-- Every object's members stand in key order, one per key. -/
inductive Tree.Ordered : Tree → Prop
  | null : Ordered .null
  | bool (value : Bool) : Ordered (.bool value)
  | integer (value : Int64) : Ordered (.integer value)
  | float (bits : UInt64) : Ordered (.float bits)
  | bytes (value : List UInt8) : Ordered (.bytes value)
  | text (value : String) : Ordered (.text value)
  | array {values : List Tree} (h : ∀ v ∈ values, Ordered v) : Ordered (.array values)
  | object {entries : List (String × Tree)} (hsorted : entries.Pairwise fun a b => a.1 < b.1)
      (h : ∀ e ∈ entries, Ordered e.2) : Ordered (.object entries)

@[ext] structure CapsuleValue where
  tree : Tree
  ordered : tree.Ordered

namespace CapsuleValue

abbrev Members := OrderedMap String CapsuleValue

def null : CapsuleValue := ⟨.null, .null⟩
def bool (value : Bool) : CapsuleValue := ⟨.bool value, .bool value⟩
def integer (value : Int64) : CapsuleValue := ⟨.integer value, .integer value⟩
def float (bits : UInt64) : CapsuleValue := ⟨.float bits, .float bits⟩
def bytes (value : List UInt8) : CapsuleValue := ⟨.bytes value, .bytes value⟩
def text (value : String) : CapsuleValue := ⟨.text value, .text value⟩

def array (values : List CapsuleValue) : CapsuleValue :=
  ⟨.array (values.map tree), .array fun _ hv =>
    let ⟨v, _, hvt⟩ := List.mem_map.mp hv
    hvt ▸ v.ordered⟩

def object (members : Members) : CapsuleValue :=
  ⟨.object (members.entries.map fun e => (e.1, e.2.tree)), .object
    (List.pairwise_map.mpr members.sorted) fun _ he =>
      let ⟨m, _, hme⟩ := List.mem_map.mp he
      hme ▸ m.2.ordered⟩

/-! ### Taking a value apart -/

variable {values : List Tree}

theorem ordered_of_array (h : (Tree.array values).Ordered) : ∀ v ∈ values, v.Ordered := by
  cases h
  assumption

variable {entries : List (String × Tree)}

theorem ordered_of_object (h : (Tree.object entries).Ordered) :
    (entries.Pairwise fun a b => a.1 < b.1) ∧ ∀ e ∈ entries, e.2.Ordered := by
  cases h
  exact ⟨by assumption, by assumption⟩

def ofArray (values : List Tree) (h : (Tree.array values).Ordered) : List CapsuleValue :=
  values.attach.map fun v => ⟨v.1, ordered_of_array h v.1 v.2⟩

def ofObject (entries : List (String × Tree)) (h : (Tree.object entries).Ordered) : Members where
  entries := entries.attach.map fun e => (e.1.1, ⟨e.1.2, (ordered_of_object h).2 e.1 e.2⟩)
  sorted := by
    have hsorted := (ordered_of_object h).1
    rw [← List.attach_map_subtype_val entries, List.pairwise_map] at hsorted
    exact List.pairwise_map.mpr hsorted

theorem array_ofArray (h : (Tree.array values).Ordered) :
    array (ofArray values h) = ⟨.array values, h⟩ := by
  simp [array, ofArray, Function.comp_def]

theorem object_ofObject (h : (Tree.object entries).Ordered) :
    object (ofObject entries h) = ⟨.object entries, h⟩ := by
  ext1
  simp only [object, ofObject, List.map_map, Function.comp_def]
  exact congrArg Tree.object (List.attach_map_subtype_val entries)

theorem mem_ofArray {h v} (hv : v ∈ ofArray values h) : v.tree ∈ values := by
  obtain ⟨t, -, rfl⟩ := List.mem_map.mp hv
  exact t.2

theorem mem_ofObject {h e} (he : e ∈ (ofObject entries h).entries) : (e.1, e.2.tree) ∈ entries := by
  obtain ⟨t, -, rfl⟩ := List.mem_map.mp he
  exact t.2

theorem ofArray_map (values : List CapsuleValue) (h) : ofArray (values.map tree) h = values := by
  have hmap : (ofArray (values.map tree) h).map tree = values.map tree := by
    simp only [ofArray, List.map_map, Function.comp_def]
    exact List.attach_map_subtype_val _
  exact List.map_injective_iff.mpr (fun _ _ => CapsuleValue.ext) hmap

theorem ofObject_map (members : Members) (h) :
    ofObject (members.entries.map fun e => (e.1, e.2.tree)) h = members := by
  have hmap : ((ofObject (members.entries.map fun e => (e.1, e.2.tree)) h).entries.map
      fun e => (e.1, e.2.tree)) = members.entries.map fun e => (e.1, e.2.tree) := by
    simp only [ofObject, List.map_map, Function.comp_def]
    exact List.attach_map_subtype_val _
  ext1
  refine List.map_injective_iff.mpr ?_ hmap
  rintro ⟨k, v⟩ ⟨k', v'⟩ heq
  simp only [Prod.mk.injEq] at heq ⊢
  exact ⟨heq.1, CapsuleValue.ext heq.2⟩

/-- Induction over values: an array's motive may use that of its values, an object's that of its
members. -/
@[elab_as_elim, induction_eliminator]
theorem induct {motive : CapsuleValue → Prop} (null : motive null)
    (bool : ∀ value, motive (bool value)) (integer : ∀ value, motive (integer value))
    (float : ∀ bits, motive (float bits)) (bytes : ∀ value, motive (bytes value))
    (text : ∀ value, motive (text value))
    (array : ∀ values : List CapsuleValue, (∀ v ∈ values, motive v) → motive (array values))
    (object : ∀ members : Members, (∀ e ∈ members.entries, motive e.2) → motive (object members))
    (value : CapsuleValue) : motive value := by
  suffices ∀ (t : Tree) (h : t.Ordered), motive ⟨t, h⟩ from this value.tree value.ordered
  -- the motives for the lists of trees and of members that a tree holds say it of each of them
  refine @Tree.rec (fun t => ∀ h : t.Ordered, motive ⟨t, h⟩)
    (fun values => ∀ t ∈ values, ∀ h : t.Ordered, motive ⟨t, h⟩)
    (fun entries => ∀ e ∈ entries, ∀ h : e.2.Ordered, motive ⟨e.2, h⟩)
    (fun e => ∀ h : e.2.Ordered, motive ⟨e.2, h⟩)
    (fun _ => null) (fun value _ => bool value) (fun value _ => integer value)
    (fun bits _ => float bits) (fun value _ => bytes value) (fun value _ => text value)
    ?_ ?_ (by simp) (fun t values iht ih => List.forall_mem_cons.mpr ⟨iht, ih⟩)
    (by simp) (fun e entries ihe ih => List.forall_mem_cons.mpr ⟨ihe, ih⟩) (fun key t ih => ih)
  · intro values ih h
    rw [← array_ofArray h]
    exact array _ fun v hv => ih _ (mem_ofArray hv) v.ordered
  · intro entries ih h
    rw [← object_ofObject h]
    exact object _ fun e he => ih _ (mem_ofObject he) e.2.ordered

/-- A value as a program matches on it, one constructor deep. -/
inductive View where
  | null
  | bool (value : Bool)
  | integer (value : Int64)
  | float (bits : UInt64)
  | bytes (value : List UInt8)
  | text (value : String)
  | array (values : List CapsuleValue)
  | object (members : Members)

def view : CapsuleValue → View
  | ⟨.null, _⟩ => .null
  | ⟨.bool value, _⟩ => .bool value
  | ⟨.integer value, _⟩ => .integer value
  | ⟨.float bits, _⟩ => .float bits
  | ⟨.bytes value, _⟩ => .bytes value
  | ⟨.text value, _⟩ => .text value
  | ⟨.array values, h⟩ => .array (ofArray values h)
  | ⟨.object entries, h⟩ => .object (ofObject entries h)

@[simp] theorem view_null : null.view = .null := rfl
@[simp] theorem view_bool (value : Bool) : (bool value).view = .bool value := rfl
@[simp] theorem view_integer (value : Int64) : (integer value).view = .integer value := rfl
@[simp] theorem view_float (bits : UInt64) : (float bits).view = .float bits := rfl
@[simp] theorem view_bytes (value : List UInt8) : (bytes value).view = .bytes value := rfl
@[simp] theorem view_text (value : String) : (text value).view = .text value := rfl

@[simp] theorem view_array (values : List CapsuleValue) : (array values).view = .array values :=
  congrArg View.array (ofArray_map values _)

@[simp] theorem view_object (members : Members) : (object members).view = .object members :=
  congrArg View.object (ofObject_map members _)

theorem view_eq_null {value : CapsuleValue} : value.view = .null ↔ value = .null := by
  constructor
  · obtain ⟨tree, h⟩ := value
    cases tree <;> simp [view, null]
  · rintro rfl
    exact view_null

end CapsuleValue

/-! ## Validation -/

mutual
def Tree.validateAt (depth : Nat) : Tree → CapsuleResult Unit
  | .float bits => do
      ensure (depth ≤ maxValueDepth) (.invalid "capsule value nesting exceeds the limit")
      ensure (Ieee.binary64.IsFinite bits.toNat) (.invalid "non-finite floats are forbidden")
  | .array values => do
      ensure (depth ≤ maxValueDepth) (.invalid "capsule value nesting exceeds the limit")
      ensure (values.length ≤ maxCollectionItems) (.invalid "capsule array exceeds the item limit")
      validateAll (depth + 1) values
  | .object entries => do
      ensure (depth ≤ maxValueDepth) (.invalid "capsule value nesting exceeds the limit")
      ensure (entries.length ≤ maxCollectionItems)
        (.invalid "capsule object exceeds the item limit")
      validateEntries (depth + 1) entries
  | _ => ensure (depth ≤ maxValueDepth) (.invalid "capsule value nesting exceeds the limit")

/-- The loop over the values of an array. -/
def Tree.validateAll (depth : Nat) : List Tree → CapsuleResult Unit
  | [] => .ok ()
  | value :: values => do
      value.validateAt depth
      validateAll depth values

/-- The loop over the members of an object. -/
def Tree.validateEntries (depth : Nat) : List (String × Tree) → CapsuleResult Unit
  | [] => .ok ()
  | (key, value) :: entries => do
      ensure (key ≠ "") (.invalid "object keys cannot be empty")
      value.validateAt depth
      validateEntries depth entries
end

def CapsuleValue.validateAt (value : CapsuleValue) (depth : Nat) : CapsuleResult Unit :=
  value.tree.validateAt depth

def validateValue (value : Option CapsuleValue) : CapsuleResult Unit :=
  match value with
  | none => .ok ()
  | some value => value.validateAt 0

variable {depth : Nat}

theorem Tree.validateAll_eq_ok {values} :
    validateAll depth values = .ok () ↔ ∀ v ∈ values, v.validateAt depth = .ok () := by
  induction values with
  | nil => simp [validateAll]
  | cons v values ih => simp [validateAll, ih, Unique.exists_iff]

theorem Tree.validateEntries_eq_ok {entries} :
    validateEntries depth entries = .ok () ↔
      ∀ e ∈ entries, e.1 ≠ "" ∧ e.2.validateAt depth = .ok () := by
  induction entries with
  | nil => simp [validateEntries]
  | cons e entries ih => simp [validateEntries, ih, Unique.exists_iff, and_assoc]

namespace CapsuleValue

theorem depth_le_of_validateAt {value : CapsuleValue} (h : value.validateAt depth = .ok ()) :
    depth ≤ maxValueDepth := by
  obtain ⟨tree, hordered⟩ := value
  cases tree <;> simp [validateAt, Tree.validateAt] at h <;> simp [h]

@[simp] theorem validateAt_text {value} :
    (text value).validateAt depth = .ok () ↔ depth ≤ maxValueDepth := by
  simp [validateAt, text, Tree.validateAt]

@[simp] theorem validateAt_bytes {value} :
    (bytes value).validateAt depth = .ok () ↔ depth ≤ maxValueDepth := by
  simp [validateAt, bytes, Tree.validateAt]

@[simp] theorem validateAt_float {bits} : (float bits).validateAt depth = .ok () ↔
      depth ≤ maxValueDepth ∧ Ieee.binary64.IsFinite bits.toNat := by
  simp [validateAt, float, Tree.validateAt]

@[simp] theorem validateAt_array {values} :
    (array values).validateAt depth = .ok () ↔
      depth ≤ maxValueDepth ∧ values.length ≤ maxCollectionItems ∧
        ∀ v ∈ values, v.validateAt (depth + 1) = .ok () := by
  simp [validateAt, array, Tree.validateAt, validateAll_eq_ok]

@[simp] theorem validateAt_object {members} : (object members).validateAt depth = .ok () ↔
      depth ≤ maxValueDepth ∧ members.entries.length ≤ maxCollectionItems ∧
        ∀ e ∈ members.entries, e.1 ≠ "" ∧ e.2.validateAt (depth + 1) = .ok () := by
  simp only [validateAt, object, Tree.validateAt, bind_eq_ok, ensure_eq_ok, exists_const,
    List.length_map, validateEntries_eq_ok, List.forall_mem_map]

end CapsuleValue

end Aseman.Capsule
