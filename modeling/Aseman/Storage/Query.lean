import Aseman.Lib.Bytes
import Aseman.Lib.Ieee
import Aseman.Lib.Json
import Aseman.Lib.OrderedMap
import Mathlib.Data.String.Basic

/-!
# Records and filters

`aseman-storage`: the values of a record (`value.rs`), filters, orderings and pages (`query.rs`), and
their evaluation over records (`eval.rs`). A filter is true, false or unknown of a record, as in SQL,
and only a record of which it is true is kept. Ids are 16 bytes in the source; here they are of any
ordered type `I`. The lower-case form of a text is a parameter.
-/

namespace Aseman.Storage

/-! ## Values -/

/-- `Value`; a float is the bits of an `f64`. -/
inductive Value (I : Type)
  | null
  | bool (value : Bool)
  | int (value : Int)
  | float (bits : UInt64)
  | text (value : String)
  | bytes (value : List UInt8)
  /-- A document field. -/
  | json (value : Json.Value)
  /-- A relation, or a field of type `capsule_id`. -/
  | id (value : I)
  deriving DecidableEq

namespace Value

variable {I : Type}

def isNull : Value I → Bool
  | null => true
  | _ => false

def asText : Value I → Option String
  | text value => some value
  | _ => none

def asInt : Value I → Option Int
  | int value => some value
  | _ => none

def asBytes : Value I → Option (List UInt8)
  | bytes value => some value
  | _ => none

def asJson : Value I → Option Json.Value
  | json value => some value
  | _ => none

/-- `PartialEq` of a value: no NaN is equal to anything, and the two zeros are equal. -/
def same [DecidableEq I] : Value I → Value I → Bool
  | float a, float b => Ieee.binary64.Equal a.toNat b.toNat
  | a, b => a = b

/-- Whether two values have one `Debug` text: that of every NaN is `NaN`. -/
def sameText [DecidableEq I] : Value I → Value I → Bool
  | float a, float b => a = b ∨ Ieee.binary64.IsNan a.toNat ∧ Ieee.binary64.IsNan b.toNat
  | a, b => a = b

end Value

/-- A record's fields and relations, by name. -/
abbrev Data (I : Type) := OrderedMap String (Value I)

/-- `Row`, without its times. -/
structure Row (I : Type) where
  id : I
  revision : Nat
  data : Data I

def Data.field {I : Type} (data : Data I) (name : String) : Value I := (data.get name).getD .null

/-- `Row::get`. -/
def Row.get {I : Type} (row : Row I) (name : String) : Value I := row.data.field name

/-! ## Filters -/

inductive Case
  | sensitive
  | insensitive
  deriving DecidableEq

inductive Cond (I : Type)
  | equals (value : Value I)
  | not (value : Value I)
  | isIn (values : List (Value I))
  | notIn (values : List (Value I))
  | lt (bound : Value I)
  | lte (bound : Value I)
  | gt (bound : Value I)
  | gte (bound : Value I)
  | contains (pattern : String) (case : Case)
  | startsWith (pattern : String) (case : Case)
  | endsWith (pattern : String) (case : Case)
  | isNull (null : Bool)

/-- A filter. -/
inductive Where (I : Type)
  | field (name : String) (cond : Cond I)
  | and (filters : List (Where I))
  | or (filters : List (Where I))
  | not (filter : Where I)

/-- `Where::all`. -/
def Where.all {I : Type} : List (Where I) → Option (Where I)
  | [] => none
  | [filter] => some filter
  | filters => some (.and filters)

inductive Direction
  | asc
  | desc
  deriving DecidableEq

structure Order where
  field : String
  direction : Direction
  deriving DecidableEq

structure FindMany (I : Type) where
  filter : Option (Where I) := none
  orderBy : List Order := []
  skip : Nat := 0
  take : Option Nat := none

/-- How one record is named. -/
inductive Unique (I : Type)
  | id (id : I)
  /-- The natural key of a keyed model. -/
  | key (key : String)
  /-- The fields of a unique index. -/
  | fields (fields : Data I)

/-! ## Evaluation -/

variable {I : Type} [LinearOrder I]

def compareBytes : List UInt8 → List UInt8 → Ordering
  | [], [] => .eq
  | [], _ :: _ => .lt
  | _ :: _, [] => .gt
  | a :: as, b :: bs => (compare a b).then (compareBytes as bs)

/-- `eval::compare`: `none` for null and for types that do not compare. -/
def compareValues : Value I → Value I → Option Ordering
  | .bool a, .bool b => some (compare a b)
  | .int a, .int b => some (compare a b)
  | .float a, .float b => Ieee.binary64.compare a.toNat b.toNat
  | .int a, .float b => Ieee.binary64.compare (Ieee.binary64.ofInt a) b.toNat
  | .float a, .int b => Ieee.binary64.compare a.toNat (Ieee.binary64.ofInt b)
  | .text a, .text b => some (compareBytes (utf8 a) (utf8 b))
  | .bytes a, .bytes b => some (compareBytes a b)
  | .id a, .id b => some (compare a b)
  | .json a, .json b => if a = b then some .eq else none
  | _, _ => none

variable (lower : String → String)

def textCondition (value : Value I) (pattern : String) (case : Case)
    (test : List Char → List Char → Bool) : Option Bool :=
  match value with
  | .null => none
  | .text text =>
    some (match case with
      | .sensitive => test text.toList pattern.toList
      | .insensitive => test (lower text).toList (lower pattern).toList)
  | _ => some false

def anyEqual (value : Value I) (values : List (Value I)) : Bool :=
  values.any fun candidate => compareValues value candidate = some .eq

/-- `eval::condition`. -/
def condition (value : Value I) : Cond I → Option Bool
  | .isNull null => some (value.isNull = null)
  | .equals .null => some value.isNull
  | .not .null => some !value.isNull
  | .equals expected => (compareValues value expected).map (· = .eq)
  | .not expected => (compareValues value expected).map (· ≠ .eq)
  | .isIn values => if value.isNull then none else some (anyEqual value values)
  | .notIn values => if value.isNull then none else some !(anyEqual value values)
  | .lt bound => (compareValues value bound).map (· = .lt)
  | .lte bound => (compareValues value bound).map (· ≠ .gt)
  | .gt bound => (compareValues value bound).map (· = .gt)
  | .gte bound => (compareValues value bound).map (· ≠ .lt)
  | .contains pattern case =>
    textCondition lower value pattern case fun text pattern => pattern <:+: text
  | .startsWith pattern case =>
    textCondition lower value pattern case fun text pattern => pattern <+: text
  | .endsWith pattern case =>
    textCondition lower value pattern case fun text pattern => pattern <:+ text

mutual

/-- `eval::evaluate`. -/
def evaluate (row : Row I) : Where I → Option Bool
  | .field name cond => condition lower (row.get name) cond
  | .and filters => evaluateAnd row filters (some true)
  | .or filters => evaluateOr row filters (some false)
  | .not filter => (evaluate row filter).map (!·)

/-- The loop over a conjunction: a false filter ends it. -/
def evaluateAnd (row : Row I) : List (Where I) → Option Bool → Option Bool
  | [], result => result
  | filter :: filters, result =>
    match evaluate row filter with
    | some false => some false
    | none => evaluateAnd row filters none
    | some true => evaluateAnd row filters result

/-- The loop over a disjunction: a true filter ends it. -/
def evaluateOr (row : Row I) : List (Where I) → Option Bool → Option Bool
  | [], result => result
  | filter :: filters, result =>
    match evaluate row filter with
    | some true => some true
    | none => evaluateOr row filters none
    | some false => evaluateOr row filters result

end

/-- `eval::matches`. -/
def keeps (filter : Where I) (row : Row I) : Bool := evaluate lower row filter = some true

/-- The order of two values of one field, ascending: null is last. -/
def compareField : Value I → Value I → Ordering
  | .null, .null => .eq
  | .null, _ => .gt
  | _, .null => .lt
  | left, right => (compareValues left right).getD .eq

/-- `eval::order`. -/
def compareRows (left right : Row I) : List Order → Ordering
  | [] => compare left.id right.id
  | order :: orders =>
    let ascending := compareField (left.get order.field) (right.get order.field)
    let ordering := match order.direction with
      | .asc => ascending
      | .desc => ascending.swap
    if ordering ≠ .eq then ordering else compareRows left right orders

mutual

/-- `eval::fields`: every field that a filter names. -/
def Where.names : Where I → List String
  | .field name _ => [name]
  | .and filters => namesAll filters
  | .or filters => namesAll filters
  | .not filter => filter.names

def Where.namesAll : List (Where I) → List String
  | [] => []
  | filter :: filters => filter.names ++ namesAll filters

end

end Aseman.Storage
