import Aseman.Capsule.Decoding

/-!
# One encoding for each value

The deterministic encodings of CBOR, stated on byte strings: every head in its shortest form, every
float in the shortest format that holds it, and the keys of a map strictly increasing in the order
of their encodings (`Deterministic`). Then the results on `encode_value` and
`decode_canonical_value`: each undoes the other, what is accepted is deterministic, and no encoding
is a proper prefix of another.
-/

namespace Aseman.Capsule

open Ieee CapsuleValue

/-! ## Deterministic encodings -/

/-- The heads of an argument: in the initial byte, or in the bytes after it, whose number the
initial byte's additional information gives. -/
inductive Head (major : UInt8) (n : Nat) : List UInt8 → Prop
  | immediate (h : n < 24) : Head major n [major <<< 5 ||| UInt8.ofNat n]
  | after (width : Nat) (additional : UInt8)
      (h : (width, additional) ∈ [(1, 24), (2, 25), (4, 26), (8, 27)]) (hn : n < 256 ^ width) :
      Head major n ((major <<< 5 ||| additional) :: bigEndian width n)

/-- The floats of a number: in half, single or double precision. -/
inductive FloatItem (bits : UInt64) : List UInt8 → Prop
  | half (half : UInt16) (h : halfToF64 half = bits) :
      FloatItem bits (0xf9 :: bigEndian 2 half.toNat)
  | single (single : UInt32) (h : toF64 single = bits) :
      FloatItem bits (0xfa :: bigEndian 4 single.toNat)
  | double : FloatItem bits (0xfb :: bigEndian 8 bits.toNat)

def Shortest (Form : List UInt8 → Prop) (bytes : List UInt8) : Prop :=
  Form bytes ∧ ∀ other, Form other → bytes.length ≤ other.length

inductive Deterministic : CapsuleValue → List UInt8 → Prop
  | null : Deterministic .null [0xf6]
  | bool (b : Bool) : Deterministic (.bool b) [if b then 0xf5 else 0xf4]
  | nonnegative {n : Int64} {head : List UInt8} (hn : 0 ≤ n.toInt)
      (hhead : Shortest (Head 0 n.toInt.toNat) head) : Deterministic (.integer n) head
  | negative {n : Int64} {head : List UInt8} (hn : n.toInt < 0)
      (hhead : Shortest (Head 1 (-1 - n.toInt).toNat) head) : Deterministic (.integer n) head
  | float {bits : UInt64} {item : List UInt8} (hitem : Shortest (FloatItem bits) item) :
      Deterministic (.float bits) item
  | bytes {value head : List UInt8} (hhead : Shortest (Head 2 value.length) head) :
      Deterministic (.bytes value) (head ++ value)
  | text {value : String} {head : List UInt8} (hhead : Shortest (Head 3 (utf8 value).length) head) :
      Deterministic (.text value) (head ++ utf8 value)
  | array {values : List CapsuleValue} {head : List UInt8} {items : List (List UInt8)}
      (hhead : Shortest (Head 4 values.length) head)
      (hitems : List.Forall₂ Deterministic values items) :
      Deterministic (.array values) (head ++ items.flatten)
  | object {members : Members} {head : List UInt8} {entries : List (String × CapsuleValue)}
      {encoded : List EncodedMember} (hentries : entries.Perm members.entries)
      (hhead : Shortest (Head 5 entries.length) head)
      (hkeys : List.Forall₂ (fun e m => Deterministic (.text e.1) m.1) entries encoded)
      (hvalues : List.Forall₂ (fun e m => Deterministic e.2 m.2) entries encoded)
      (hincreasing : encoded.Pairwise fun a b => a.1 < b.1) :
      Deterministic (.object members) (head ++ membersBytes encoded)

/-! ## Heads and floats -/

theorem shortest_encodeHead (major : UInt8) {n} (hn : n < 2 ^ 64) :
    Shortest (Head major n) (encodeHead major n) := by
  have hone : bigEndian 1 n = [UInt8.ofNat n] := by simp [bigEndian]
  constructor
  · unfold encodeHead
    split
    · exact .immediate (by omega)
    · split
      · exact hone ▸ .after 1 24 (by decide) (by omega)
      · split
        · exact .after 2 25 (by decide) (by omega)
        · split
          · exact .after 4 26 (by decide) (by omega)
          · exact .after 8 27 (by decide) (by omega)
  · -- an argument that a shorter head could hold is written in that head
    intro other hother
    have hlength : (encodeHead major n).length =
        if n ≤ 23 then 1 else if n ≤ 0xff then 2 else if n ≤ 0xffff then 3
        else if n ≤ 0xffffffff then 5 else 9 := by
      unfold encodeHead
      split_ifs <;> simp
    rw [hlength]
    cases hother with
    | immediate h => split_ifs <;> simp <;> omega
    | after width additional h hwidth =>
      rw [List.length_cons, length_bigEndian]
      simp only [List.mem_cons, Prod.mk.injEq, List.not_mem_nil, or_false] at h
      rcases h with ⟨rfl, -⟩ | ⟨rfl, -⟩ | ⟨rfl, -⟩ | ⟨rfl, -⟩ <;> split_ifs <;> omega

theorem toNat_toF64 (single : UInt32) :
    (toF64 single).toNat = widen binary32 binary64 single.toNat := by
  rw [toF64, UInt64.toNat_ofNat']
  exact Nat.mod_eq_of_lt (widen_lt Format.binary32_within single.toNat_lt)

theorem isFinite_toF64 (single : UInt32) :
    binary64.IsFinite (toF64 single).toNat ↔ binary32.IsFinite single.toNat := by
  rw [toNat_toF64, (widen_sign Format.binary32_within _).2]

theorem toF32_toF64 {single} (h : binary64.IsFinite (toF64 single).toNat) :
    toF32 (toF64 single) = single := by
  rw [toF32, toNat_toF64, narrow_widen Format.binary32_within ((isFinite_toF64 single).mp h),
    UInt32.ofNat_toNat]

theorem isF32_toF64 {single} (h : binary64.IsFinite (toF64 single).toNat) :
    IsF32 (toF64 single) := by
  rw [IsF32, toF32_toF64 h]
  exact h.equal_self

theorem exactF16_halfToF64 {half} (h : binary64.IsFinite (halfToF64 half).toNat) :
    exactF16 (halfToF64 half) = some half := by
  have hsingle : (UInt32.ofNat (f16BitsToF32 half.toNat)).toNat =
      widen binary16 binary32 half.toNat := by
    rw [f16BitsToF32_eq_widen half.toNat_lt, UInt32.toNat_ofNat']
    exact Nat.mod_eq_of_lt (widen_lt Format.binary16_within half.toNat_lt)
  have hf32 : binary32.IsFinite (widen binary16 binary32 half.toNat) :=
    hsingle ▸ (isFinite_toF64 _).mp h
  have hbits : UInt16.ofNat (f32ToF16Bits (toF32 (halfToF64 half)).toNat) = half := by
    rw [halfToF64, toF32_toF64 h, hsingle,
      f32ToF16Bits_eq_narrow (widen_lt Format.binary16_within half.toNat_lt) hf32,
      narrow_widen Format.binary16_within ((widen_sign Format.binary16_within _).2.mp hf32),
      UInt16.ofNat_toNat]
  have hf32' : IsF32 (halfToF64 half) := isF32_toF64 h
  simp only [exactF16, if_neg (not_not.mpr hf32'), hbits, if_pos h.equal_self]

variable {bytes : List UInt8}

theorem shortest_encodeFloat {bits} (h : encodeFloat bits = .ok bytes) :
    Shortest (FloatItem bits) bytes := by
  simp only [encodeFloat] at h
  split at h
  · cases h
  · next hfinite =>
    rw [not_not] at hfinite
    split at h
    · next half hhalf =>
      cases h
      refine ⟨.half half (Decoder.exactF16_eq_some hhalf), fun other hother => ?_⟩
      cases hother <;> simp
    · next hnone =>
      have hnot : ∀ half : UInt16, halfToF64 half ≠ bits := by
        rintro half rfl
        simp [exactF16_halfToF64 hfinite] at hnone
      split at h
      · next hf32 =>
        cases h
        refine ⟨.single _ (Decoder.toF64_toF32 hf32), fun other hother => ?_⟩
        cases hother with
        | half half hhalf => exact absurd hhalf (hnot half)
        | _ => simp
      · next hnotf32 =>
        cases h
        refine ⟨.double, fun other hother => ?_⟩
        cases hother with
        | half half hhalf => exact absurd hhalf (hnot half)
        | single single hsingle =>
          exact absurd (hsingle ▸ isF32_toF64 (hsingle.symm ▸ hfinite)) hnotf32
        | double => simp

/-! ## The encoder is deterministic -/

theorem encodeText_inj {a b} (ha : (utf8 a).length < 2 ^ 64) (hb : (utf8 b).length < 2 ^ 64)
    (h : encodeText a = encodeText b) : a = b := by
  have heq := (Decoder.reads_text 0 ha).eq_of_extends (Decoder.reads_text 0 hb) (h ▸ List.prefix_rfl)
  have hview := congrArg CapsuleValue.view heq.1
  exact View.text.inj hview

theorem sorted_sortMembers (members : List EncodedMember) :
    (sortMembers members).Pairwise fun a b => a.1 ≤ b.1 := by
  exact List.pairwise_insertionSort _ members

variable {entries : List (String × CapsuleValue)} {encoded : List EncodedMember}

theorem map_fst_of_encodesMember (h : List.Forall₂ EncodesMember entries encoded) :
    encoded.map Prod.fst = entries.map fun e => encodeText e.1 := by
  induction h with
  | nil => rfl
  | cons hem _ ih => rw [List.map_cons, List.map_cons, hem.1, ih]

theorem length_utf8_lt (h : List.Forall₂ EncodesMember entries encoded)
    (hlength : (membersBytes encoded).length < 2 ^ 64) :
    ∀ e ∈ entries, (utf8 e.1).length < 2 ^ 64 := by
  induction h with
  | nil => simp
  | @cons e m entries encoded hem _ ih =>
    simp only [membersBytes, List.flatMap_cons, List.length_append] at hlength ih
    have hkey := congrArg List.length hem.1
    rw [encodeText, List.length_append] at hkey
    exact List.forall_mem_cons.mpr ⟨by omega, ih (by omega)⟩

/-- Distinct keys have distinct encodings, so sorting puts them in strictly increasing order. -/
theorem increasing_sortMembers (h : List.Forall₂ EncodesMember entries (sortMembers encoded))
    (hnodup : (entries.map Prod.fst).Nodup)
    (hlength : (membersBytes (sortMembers encoded)).length < 2 ^ 64) :
    (sortMembers encoded).Pairwise fun a b => a.1 < b.1 := by
  have hutf8 := length_utf8_lt h hlength
  have hkeys : ((sortMembers encoded).map Prod.fst).Nodup := by
    rw [map_fst_of_encodesMember h]
    refine List.Nodup.map_on (fun e he e' he' heq => ?_) hnodup.of_map
    exact List.inj_on_of_nodup_map hnodup he he' (encodeText_inj (hutf8 e he) (hutf8 e' he') heq)
  have hne : (sortMembers encoded).Pairwise fun a b => a.1 ≠ b.1 := List.pairwise_map.mp hkeys
  exact ((sorted_sortMembers encoded).and hne).imp fun h => lt_of_le_of_ne h.1 h.2

variable {value : CapsuleValue}

theorem deterministic_of_encodeInto (hencode : value.encodeInto = .ok bytes)
    (hlength : bytes.length < 2 ^ 64) : Deterministic value bytes := by
  induction value generalizing bytes with
  | null =>
    rw [encodeInto_null, Except.ok.injEq] at hencode
    exact hencode ▸ .null
  | bool b =>
    rw [encodeInto_bool, Except.ok.injEq] at hencode
    exact hencode ▸ .bool b
  | integer n =>
    have hle := n.le_toInt
    have hlt := n.toInt_lt
    rw [encodeInto_integer, Except.ok.injEq, encodeInteger] at hencode
    subst hencode
    split
    · next hn => exact .nonnegative hn (shortest_encodeHead 0 (by omega))
    · next hn => exact .negative (by omega) (shortest_encodeHead 1 (by omega))
  | float bits => exact .float (shortest_encodeFloat hencode)
  | bytes value =>
    rw [encodeInto_bytes, Except.ok.injEq] at hencode
    subst hencode
    rw [List.length_append] at hlength
    exact .bytes (shortest_encodeHead 2 (by omega))
  | text value =>
    rw [encodeInto_text, Except.ok.injEq] at hencode
    subst hencode
    rw [encodeText, List.length_append] at hlength
    exact .text (shortest_encodeHead 3 (by omega))
  | array values ih =>
    obtain ⟨items, hitems, rfl⟩ := encodeInto_array.mp hencode
    have hcount := length_le_flatten hitems fun _ _ => encodeInto_ne_nil
    rw [List.length_append] at hlength
    refine .array (shortest_encodeHead 4 (by omega)) (forall₂_of_mem hitems ?_)
    intro v hv item hmem hitem
    have hle : item.length ≤ items.flatten.length := (List.sublist_flatten_of_mem hmem).length_le
    exact ih v hv hitem (by omega)
  | object members ih =>
    obtain ⟨encoded, hencoded, rfl⟩ := encodeInto_object.mp hencode
    obtain ⟨entries, hperm, hentries⟩ := sortMembers_forall₂ hencoded
    have hcount := length_le_membersBytes hentries
    rw [List.length_append] at hlength
    have hnodup : (entries.map Prod.fst).Nodup :=
      (hperm.map Prod.fst).nodup_iff.mpr members.nodup_keys
    have hutf8 := length_utf8_lt hentries (by omega)
    rw [← hperm.length_eq]
    refine .object hperm (shortest_encodeHead 5 (by omega)) (forall₂_of_mem hentries ?_)
      (forall₂_of_mem hentries ?_) (increasing_sortMembers hentries hnodup (by omega))
    · intro e he m _ hem
      exact hem.1 ▸ .text (shortest_encodeHead 3 (hutf8 e he))
    · intro e he m hm hem
      have hle := length_member_le hm
      exact ih e (hperm.subset he) hem.2 (by omega)

/-! ## `encode_value` and `decode_canonical_value` -/

theorem encodeValue_eq_ok :
    encodeValue value = .ok bytes ↔ value.validateAt 0 = .ok () ∧ value.encodeInto = .ok bytes ∧
      bytes.length ≤ maxVecBytes := by
  simp only [encodeValue, validateValue, bind_eq_ok, ensure_eq_ok, pure_eq_ok]
  constructor
  · rintro ⟨⟨⟩, hvalid, output, hencode, -, hlength, rfl⟩
    exact ⟨hvalid, hencode, hlength⟩
  · rintro ⟨hvalid, hencode, hlength⟩
    exact ⟨(), hvalid, bytes, hencode, (), hlength, rfl⟩

/-- The decoder takes the encoding of a value off any input that starts with it. -/
theorem reads_encodeValue (h : encodeValue value = .ok bytes) :
    Reads (Decoder.value (maxValueDepth + 1)) bytes value := by
  obtain ⟨hvalid, hencode, hlength⟩ := encodeValue_eq_ok.mp h
  exact readBack value hvalid rfl hencode (by rw [maxVecBytes] at hlength; omega)

theorem decodeCanonicalValue_eq_ok :
    decodeCanonicalValue bytes = .ok value ↔ bytes.length ≤ maxCapsuleBytes ∧
      Decoder.value (maxValueDepth + 1) bytes = .ok (value, []) ∧ encodeValue value = .ok bytes := by
  simp only [decodeCanonicalValue, bind_eq_ok, ensure_eq_ok, pure_eq_ok, Prod.exists]
  constructor
  · rintro ⟨-, hlength, v, ahead, hread, -, rfl, encoded, hencode, -, rfl, rfl⟩
    exact ⟨hlength, hread, hencode⟩
  · rintro ⟨hlength, hread, hencode⟩
    exact ⟨(), hlength, value, [], hread, (), rfl, bytes, hencode, (), rfl, rfl⟩

/-- **Round trip**: what was encoded is decoded to the same value. -/
theorem decodeCanonicalValue_of_encodeValue (h : encodeValue value = .ok bytes)
    (hlength : bytes.length ≤ maxCapsuleBytes) : decodeCanonicalValue bytes = .ok value := by
  refine decodeCanonicalValue_eq_ok.mpr ⟨hlength, ?_, h⟩
  have hread := reads_encodeValue h []
  rwa [List.append_nil] at hread

theorem deterministic_of_encodeValue (h : encodeValue value = .ok bytes) :
    Deterministic value bytes := by
  obtain ⟨-, hencode, hlength⟩ := encodeValue_eq_ok.mp h
  exact deterministic_of_encodeInto hencode (by rw [maxVecBytes] at hlength; omega)

/-- **Canonical CBOR is a bijection on its image.** What `encode_value` accepts and fits the byte
limit is decoded to the same value; the encoding of one value is a prefix of that of another only if
they are the same; and what `decode_canonical_value` accepts is the encoding of the value it returns,
with every head and float in its shortest form and the keys of its maps strictly increasing. -/
theorem canonical_cbor :
    (∀ value bytes, encodeValue value = .ok bytes → bytes.length ≤ maxCapsuleBytes →
      decodeCanonicalValue bytes = .ok value) ∧
    (∀ value value' bytes bytes', encodeValue value = .ok bytes → encodeValue value' = .ok bytes' →
      bytes <+: bytes' → value = value' ∧ bytes = bytes') ∧
    (∀ bytes value, decodeCanonicalValue bytes = .ok value →
      encodeValue value = .ok bytes ∧ Deterministic value bytes) := by
  refine ⟨?_, ?_, ?_⟩
  · intro value bytes h hlength
    exact decodeCanonicalValue_of_encodeValue h hlength
  · intro value value' bytes bytes' h h' hextends
    exact (reads_encodeValue h).eq_of_extends (reads_encodeValue h') hextends
  · intro bytes value h
    obtain ⟨-, -, hencode⟩ := decodeCanonicalValue_eq_ok.mp h
    exact ⟨hencode, deterministic_of_encodeValue hencode⟩

/-- A map whose keys, `"b"` and `"aa"`, stand in another order in the encoding than in the map. -/
def sampleValue : CapsuleValue :=
  .object (.ofList [("aa", .array [.integer (-500), .null]), ("b", .text "é")])

def sampleBytes : List UInt8 :=
  [0xa2, 0x61, 0x62, 0x62, 0xc3, 0xa9, 0x62, 0x61, 0x61, 0x82, 0x39, 0x01, 0xf3, 0xf6]

theorem canonical_cbor_sample :
    encodeValue sampleValue = .ok sampleBytes ∧ decodeCanonicalValue sampleBytes = .ok sampleValue ∧
      Deterministic sampleValue sampleBytes ∧
      ∃ value bytes, encodeValue value = .ok bytes ∧ sampleBytes <+: bytes ∧ sampleValue = value := by
  have hencode : encodeValue sampleValue = .ok sampleBytes := by decide +kernel
  have hdecode := canonical_cbor.1 sampleValue sampleBytes hencode (by decide)
  refine ⟨hencode, hdecode, (canonical_cbor.2.2 sampleBytes sampleValue hdecode).2,
    sampleValue, sampleBytes, hencode, List.prefix_rfl, ?_⟩
  exact (canonical_cbor.2.1 _ _ _ _ hencode hencode List.prefix_rfl).1

end Aseman.Capsule
