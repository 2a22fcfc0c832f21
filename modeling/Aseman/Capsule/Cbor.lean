import Aseman.Capsule.Value
import Aseman.Capsule.Half

/-!
# Deterministic CBOR

`encode_value` and `decode_canonical_value` with the functions they are made of. The decoder is a
reader: its state is what lies ahead of the source's `offset`, and the `depth` of a call is kept as
the room that is left below the nesting limit, on which the recursion is.
-/

namespace Aseman.Capsule

open Ieee

/-! ## Encoding -/

def toF32 (value : UInt64) : UInt32 := UInt32.ofNat (narrow binary32 binary64 value.toNat)

def toF64 (value : UInt32) : UInt64 := UInt64.ofNat (widen binary32 binary64 value.toNat)

def IsF32 (value : UInt64) : Prop := binary64.Equal (toF64 (toF32 value)).toNat value.toNat

instance (value : UInt64) : Decidable (IsF32 value) := inferInstanceAs (Decidable (Format.Equal ..))

def halfToF64 (bits : UInt16) : UInt64 := toF64 (UInt32.ofNat (f16BitsToF32 bits.toNat))

def exactF16 (value : UInt64) : Option UInt16 :=
  if ¬ IsF32 value then none
  else
    let bits := UInt16.ofNat (f32ToF16Bits (toF32 value).toNat)
    if binary64.Equal (halfToF64 bits).toNat value.toNat then some bits else none

def encodeFloat (value : UInt64) : CapsuleResult (List UInt8) :=
  if ¬ binary64.IsFinite value.toNat then .error (.invalid "non-finite floats are forbidden")
  else
    match exactF16 value with
    | some bits => .ok (0xf9 :: bigEndian 2 bits.toNat)
    | none =>
      if IsF32 value then .ok (0xfa :: bigEndian 4 (toF32 value).toNat)
      else .ok (0xfb :: bigEndian 8 value.toNat)

/-- `encode_head`: the major type and an argument of 64 bits. -/
def encodeHead (major : UInt8) (value : Nat) : List UInt8 :=
  if value ≤ 23 then [major <<< 5 ||| UInt8.ofNat value]
  else if value ≤ 0xff then [major <<< 5 ||| 24, UInt8.ofNat value]
  else if value ≤ 0xffff then (major <<< 5 ||| 25) :: bigEndian 2 value
  else if value ≤ 0xffffffff then (major <<< 5 ||| 26) :: bigEndian 4 value
  else (major <<< 5 ||| 27) :: bigEndian 8 value

/-- The encoding of an integer: a negative `n` is written as `-1 - n`. -/
def encodeInteger (value : Int64) : List UInt8 :=
  if 0 ≤ value.toInt then encodeHead 0 value.toInt.toNat
  else encodeHead 1 (-1 - value.toInt).toNat

def encodeText (value : String) : List UInt8 := encodeHead 3 (utf8 value).length ++ utf8 value

/-- A member's encoding: that of its key and that of its value. -/
abbrev EncodedMember := List UInt8 × List UInt8

def sortMembers (members : List EncodedMember) : List EncodedMember :=
  members.insertionSort fun a b => a.1 ≤ b.1

/-- The loop that writes the members. -/
def membersBytes (members : List EncodedMember) : List UInt8 := members.flatMap fun m => m.1 ++ m.2

mutual
/-- `encode_into`. The source encodes the members' values after it has sorted their keys; the one
error there is, that of a float, is the same for each of them, so the order is of no account. -/
def Tree.encodeInto : Tree → CapsuleResult (List UInt8)
  | .null => .ok [0xf6]
  | .bool false => .ok [0xf4]
  | .bool true => .ok [0xf5]
  | .integer value => .ok (encodeInteger value)
  | .float bits => encodeFloat bits
  | .bytes value => .ok (encodeHead 2 value.length ++ value)
  | .text value => .ok (encodeText value)
  | .array values => do
      let items ← Tree.encodeAll values
      pure (encodeHead 4 values.length ++ items.flatten)
  | .object entries => do
      let members ← Tree.encodeEntries entries
      pure (encodeHead 5 entries.length ++ membersBytes (sortMembers members))

/-- The loop over the values of an array. -/
def Tree.encodeAll : List Tree → CapsuleResult (List (List UInt8))
  | [] => .ok []
  | value :: values => do
      let item ← value.encodeInto
      let items ← Tree.encodeAll values
      pure (item :: items)

/-- The loop over the members of an object. -/
def Tree.encodeEntries : List (String × Tree) → CapsuleResult (List EncodedMember)
  | [] => .ok []
  | (key, value) :: entries => do
      let item ← value.encodeInto
      let members ← Tree.encodeEntries entries
      pure ((encodeText key, item) :: members)
end

def CapsuleValue.encodeInto (value : CapsuleValue) : CapsuleResult (List UInt8) :=
  value.tree.encodeInto

/-- No `Vec` holds more than `isize::MAX` bytes. -/
def maxVecBytes : Nat := 2 ^ 63 - 1

/-- `encode_value`; growing the output beyond what a `Vec` can hold panics. -/
def encodeValue (value : CapsuleValue) : CapsuleResult (List UInt8) := do
  validateValue (some value)
  let output ← value.encodeInto
  ensure (output.length ≤ maxVecBytes) (.panicked "capacity overflow")
  pure output

/-! ## Decoding -/

abbrev Decoder := Reader CapsuleError

namespace Decoder

/-- `Decoder::take`. -/
def take (length : Nat) : Decoder (List UInt8) := Reader.take length .truncated

/-- `Decoder::byte`. -/
def byte : Decoder UInt8 := do
  match ← take 1 with
  | b :: _ => pure b
  | [] => throw .truncated

/-- `Decoder::u16`, `u32` and `u64`, by their width in bytes. -/
def word (width : Nat) : Decoder Nat := do
  let bytes ← take width
  pure (ofBigEndian bytes)

/-- `Decoder::length`: the argument of a head. -/
def length (additional : UInt8) : Decoder Nat :=
  if additional ≤ 23 then pure additional.toNat
  else if additional = 24 then do
    let b ← byte
    pure b.toNat
  else if additional = 25 then word 2
  else if additional = 26 then word 4
  else if additional = 27 then word 8
  else throw (.nonCanonical "indefinite lengths are forbidden")

/-- `Decoder::collection_length`. -/
def collectionLength (additional : UInt8) : Decoder Nat := do
  let length ← length additional
  let ahead ← get
  ensure (length ≤ maxCollectionItems ∧ length ≤ ahead.length)
    (CapsuleError.nonCanonical "collection exceeds the item or input bound")
  pure length

/-- The integer a head's argument stands for, if it is one of `i64`. -/
def integer (value : Int) : Decoder CapsuleValue :=
  if -2 ^ 63 ≤ value ∧ value < 2 ^ 63 then pure (.integer (Int64.ofInt value))
  else throw (.invalid "integer overflow")

/-- The loop over the members of an object. -/
def members (item : Decoder CapsuleValue) :
    Nat → CapsuleValue.Members → Decoder CapsuleValue.Members
  | 0, values => pure values
  | n + 1, values => do
      match (← item).view with
      | .text key => do
          let value ← item
          ensure (¬ values.contains key) (CapsuleError.nonCanonical "duplicate map key")
          members item n (values.insert key value)
      | _ => throw (.invalid "capsule map keys must be text")

/-- The value of a head's major type and additional information; `item` reads the values of a
collection. -/
def body (item : Decoder CapsuleValue) (major additional : UInt8) : Decoder CapsuleValue :=
  if major = 0 then do
    let value ← length additional
    integer value
  else if major = 1 then do
    let value ← length additional
    integer (-1 - value)
  else if major = 2 then do
    let length ← length additional
    let bytes ← take length
    pure (.bytes bytes)
  else if major = 3 then do
    let length ← length additional
    let bytes ← take length
    let text ← okOr (fromUtf8 bytes) (CapsuleError.invalid "CBOR text is not UTF-8")
    pure (.text text)
  else if major = 4 then do
    let length ← collectionLength additional
    let values ← item.times length
    pure (.array values)
  else if major = 5 then do
    let length ← collectionLength additional
    let values ← members item length ∅
    pure (.object values)
  else if major = 7 then
    if additional = 20 then pure (.bool false)
    else if additional = 21 then pure (.bool true)
    else if additional = 22 then pure .null
    else if additional = 25 then do
      let bits ← word 2
      pure (.float (halfToF64 (UInt16.ofNat bits)))
    else if additional = 26 then do
      let bits ← word 4
      pure (.float (toF64 (UInt32.ofNat bits)))
    else if additional = 27 then do
      let bits ← word 8
      pure (.float (UInt64.ofNat bits))
    else throw (.nonCanonical "unsupported simple value")
  else throw (.nonCanonical "unsupported CBOR major type")

/-- `Decoder::value`, with room for `room` more levels of nesting. -/
def value : Nat → Decoder CapsuleValue
  | 0 => throw (.nonCanonical "capsule nesting exceeds the limit")
  | room + 1 => do
      let initial ← byte
      body (value room) (initial >>> 5) (initial &&& 0x1f)

end Decoder

def decodeCanonicalValue (bytes : List UInt8) : CapsuleResult CapsuleValue := do
  ensure (bytes.length ≤ maxCapsuleBytes) (.nonCanonical "capsule exceeds the byte limit")
  let (value, ahead) ← Decoder.value (maxValueDepth + 1) bytes
  ensure (ahead = []) (.nonCanonical "trailing bytes")
  let encoded ← encodeValue value
  ensure (encoded = bytes) (.nonCanonical "value does not use the preferred encoding")
  pure value

end Aseman.Capsule
