import Aseman.Capsule.Cbor

/-!
# The decoder reads what the encoder writes

`reads_encodeInto`: from any input that starts with the encoding of a valid value, the decoder takes
exactly that encoding and returns the value. It is proved by induction on the value, one lemma for
each major type; what follows the encoding plays no part, so it also says that no encoding is a
proper prefix of another.
-/

namespace Aseman.Capsule

open Ieee CapsuleValue Decoder

/-! ## What the encoder wrote -/

theorem Tree.encodeAll_eq_ok {values items} :
    Tree.encodeAll values = .ok items ↔
      List.Forall₂ (fun v item => v.encodeInto = .ok item) values items := by
  induction values generalizing items with
  | nil => simp [Tree.encodeAll, eq_comm]
  | cons v values ih =>
    simp only [Tree.encodeAll, bind_eq_ok, pure_eq_ok, ih, List.forall₂_cons_left_iff]
    constructor
    · rintro ⟨item, hitem, items', hitems, rfl⟩
      exact ⟨item, items', hitem, hitems, rfl⟩
    · rintro ⟨item, items', hitem, hitems, rfl⟩
      exact ⟨item, hitem, items', hitems, rfl⟩

theorem Tree.encodeEntries_eq_ok {entries members} :
    Tree.encodeEntries entries = .ok members ↔
      List.Forall₂ (fun e m => m.1 = encodeText e.1 ∧ e.2.encodeInto = .ok m.2) entries members := by
  induction entries generalizing members with
  | nil => simp [Tree.encodeEntries, eq_comm]
  | cons e entries ih =>
    simp only [Tree.encodeEntries, bind_eq_ok, pure_eq_ok, ih, List.forall₂_cons_left_iff]
    constructor
    · rintro ⟨item, hitem, members', hmembers, rfl⟩
      exact ⟨(encodeText e.1, item), members', ⟨rfl, hitem⟩, hmembers, rfl⟩
    · rintro ⟨⟨key, item⟩, members', ⟨rfl, hitem⟩, hmembers, rfl⟩
      exact ⟨item, hitem, members', hmembers, rfl⟩

namespace CapsuleValue

theorem encodeInto_null : null.encodeInto = .ok [0xf6] := rfl

theorem encodeInto_bool (b : Bool) : (bool b).encodeInto = .ok [if b then 0xf5 else 0xf4] := by
  cases b <;> rfl

theorem encodeInto_integer (n : Int64) : (integer n).encodeInto = .ok (encodeInteger n) := rfl

theorem encodeInto_float (bits : UInt64) : (float bits).encodeInto = encodeFloat bits := rfl

theorem encodeInto_bytes (value : List UInt8) :
    (bytes value).encodeInto = .ok (encodeHead 2 value.length ++ value) := rfl

theorem encodeInto_text (value : String) : (text value).encodeInto = .ok (encodeText value) := rfl

theorem encodeInto_array {values bytes} :
    (array values).encodeInto = .ok bytes ↔
      ∃ items, List.Forall₂ (fun v item => v.encodeInto = .ok item) values items ∧
        bytes = encodeHead 4 values.length ++ items.flatten := by
  simp only [encodeInto, array, Tree.encodeInto, bind_eq_ok, pure_eq_ok, Tree.encodeAll_eq_ok,
    List.forall₂_map_left_iff, List.length_map, eq_comm (b := bytes)]

def EncodesMember (e : String × CapsuleValue) (m : EncodedMember) : Prop :=
  m.1 = encodeText e.1 ∧ e.2.encodeInto = .ok m.2

theorem encodeInto_object {members bytes} :
    (object members).encodeInto = .ok bytes ↔
      ∃ encoded, List.Forall₂ EncodesMember members.entries encoded ∧
        bytes = encodeHead 5 members.entries.length ++ membersBytes (sortMembers encoded) := by
  simp only [encodeInto, object, Tree.encodeInto, bind_eq_ok, pure_eq_ok, Tree.encodeEntries_eq_ok,
    List.forall₂_map_left_iff, List.length_map, eq_comm (b := bytes)]
  rfl

/-- The members in the order the encoder writes them: those of the object, each with its encoding,
sorted by their encoded keys. -/
theorem sortMembers_forall₂ {members : Members} {encoded : List EncodedMember}
    (h : List.Forall₂ EncodesMember members.entries encoded) :
    ∃ entries : List (String × CapsuleValue), entries.Perm members.entries ∧
      List.Forall₂ EncodesMember entries (sortMembers encoded) := by
  have hperm : encoded.Perm (sortMembers encoded) := (List.perm_insertionSort _ _).symm
  obtain ⟨entries, hentries, hsorted⟩ :=
    (congrFun₂ List.forall₂_comp_perm_eq_perm_comp_forall₂ members.entries
      (sortMembers encoded)).mp ⟨encoded, h, hperm⟩
  exact ⟨entries, hentries.symm, hsorted⟩

end CapsuleValue

/-! ## Heads -/

/-- A head's initial byte holds the major type and the additional information. -/
theorem initial_byte {major additional : UInt8} (hmajor : major < 8) (hadditional : additional < 32) :
    (major <<< 5 ||| additional) >>> 5 = major ∧
      (major <<< 5 ||| additional) &&& 0x1f = additional := by
  have hall : ∀ m : Fin 8, ∀ a : Fin 32,
      (UInt8.ofNat m <<< 5 ||| UInt8.ofNat a) >>> 5 = UInt8.ofNat m ∧
        (UInt8.ofNat m <<< 5 ||| UInt8.ofNat a) &&& 0x1f = UInt8.ofNat a := by decide
  have := hall ⟨major.toNat, hmajor⟩ ⟨additional.toNat, hadditional⟩
  simpa using this

namespace Decoder

theorem reads_byte (b : UInt8) : Reads byte [b] b := (Reads.take [b] _).bind_pure rfl

theorem reads_word {width n} (h : n < 256 ^ width) : Reads (word width) (bigEndian width n) n :=
  (Reads.take_of_length (length_bigEndian width n) _).bind_pure (by rw [ofBigEndian_bigEndian h])

/-- **Every head is read back**: its initial byte gives the major type, and what follows it the
argument. -/
theorem reads_encodeHead {major : UInt8} (hmajor : major < 8) {n : Nat} (hn : n < 2 ^ 64) :
    ∃ initial argument, encodeHead major n = initial :: argument ∧ initial >>> 5 = major ∧
      Reads (length (initial &&& 0x1f)) argument n := by
  -- it is enough to say which additional information the head has
  suffices ∃ additional argument, additional < 32 ∧
      encodeHead major n = (major <<< 5 ||| additional) :: argument ∧
      Reads (length additional) argument n by
    obtain ⟨additional, argument, hadditional, hhead, hreads⟩ := this
    have hinitial := initial_byte hmajor hadditional
    exact ⟨_, argument, hhead, hinitial.1, hinitial.2.symm ▸ hreads⟩
  unfold encodeHead
  split
  · next h23 =>
    have hmod : (UInt8.ofNat n).toNat = n := by rw [UInt8.toNat_ofNat']; omega
    refine ⟨UInt8.ofNat n, [], ?_, rfl, ?_⟩
    · rw [UInt8.lt_iff_toNat_lt, hmod]
      exact Nat.lt_of_le_of_lt h23 (by decide)
    · rw [length, if_pos (by rw [UInt8.le_iff_toNat_le, hmod]; exact h23), hmod]
      exact .pure n
  · split
    · next hff =>
      have hmod : (UInt8.ofNat n).toNat = n := by rw [UInt8.toNat_ofNat']; omega
      exact ⟨24, [UInt8.ofNat n], by decide, rfl, (reads_byte _).bind_pure (by rw [hmod])⟩
    · split
      · exact ⟨25, bigEndian 2 n, by decide, rfl, reads_word (by omega)⟩
      · split
        · exact ⟨26, bigEndian 4 n, by decide, rfl, reads_word (by omega)⟩
        · exact ⟨27, bigEndian 8 n, by decide, rfl, reads_word (by omega)⟩

theorem reads_value_of_head {room n major payload v} (hmajor : major < 8) (hn : n < 2 ^ 64)
    (h : ∀ additional argument, Reads (length additional) argument n →
      Reads (body (value room) major additional) (argument ++ payload) v) :
    Reads (value (room + 1)) (encodeHead major n ++ payload) v := by
  obtain ⟨initial, argument, hhead, hinitial, hargument⟩ := reads_encodeHead hmajor hn
  rw [hhead]
  exact (reads_byte initial).bind (hinitial ▸ h _ _ hargument)

/-! ## Simple values, texts and integers -/

variable (room : Nat)

theorem reads_null : Reads (value (room + 1)) [0xf6] null := (reads_byte 0xf6).bind_pure rfl

theorem reads_bool (b : Bool) : Reads (value (room + 1)) [if b then 0xf5 else 0xf4] (bool b) := by
  cases b
  · exact (reads_byte 0xf4).bind_pure rfl
  · exact (reads_byte 0xf5).bind_pure rfl

theorem integer_toInt (n : Int64) : integer n.toInt = pure (CapsuleValue.integer n) := by
  rw [integer, if_pos ⟨n.le_toInt, n.toInt_lt⟩, Int64.ofInt_toInt]

theorem reads_integer (n : Int64) : Reads (value (room + 1)) (encodeInteger n) (.integer n) := by
  have hle := n.le_toInt
  have hlt := n.toInt_lt
  rw [encodeInteger, ← List.append_nil (ite _ _ _)]
  split
  · refine reads_value_of_head (by decide) (by omega) fun additional argument h => ?_
    rw [List.append_nil]
    refine h.bind_pure ?_
    rw [← integer_toInt, Int.toNat_of_nonneg (by assumption)]
  · refine reads_value_of_head (by decide) (by omega) fun additional argument h => ?_
    rw [List.append_nil]
    refine h.bind_pure ?_
    rw [← integer_toInt]
    congr 1
    omega

theorem reads_bytes {bytes} (h : bytes.length < 2 ^ 64) :
    Reads (value (room + 1)) (encodeHead 2 bytes.length ++ bytes) (.bytes bytes) := by
  refine reads_value_of_head (by decide) h fun additional argument hargument => ?_
  exact hargument.bind ((Reads.take bytes _).bind_pure rfl)

theorem reads_text {text} (h : (utf8 text).length < 2 ^ 64) :
    Reads (value (room + 1)) (encodeText text) (.text text) := by
  refine reads_value_of_head (by decide) h fun additional argument hargument => ?_
  refine hargument.bind ((Reads.take (utf8 text) _).bind_pure ?_)
  rw [fromUtf8_utf8]
  rfl

/-! ## Floats -/

variable {bits : UInt64}

theorem eq_zero_of_mod (h : bits.toNat % binary64.signBit = 0) :
    bits = 0 ∨ bits = 0x8000000000000000 := by
  have hlt := bits.toNat_lt
  have hbits : bits.toNat = 0 ∨ bits.toNat = 0x8000000000000000 := by
    simp only [Format.signBit, binary64] at h
    omega
  exact hbits.imp (fun h => UInt64.toNat_inj.mp h) (fun h => UInt64.toNat_inj.mp h)

/-- A number that compares equal to its widened `f32` has the same bits: that leaves the zeros, and
they keep their sign. -/
theorem toF64_toF32 (h : IsF32 bits) : toF64 (toF32 bits) = bits := by
  rcases h.2.2 with h | ⟨-, h⟩
  · exact UInt64.toNat_inj.mp h
  · rcases eq_zero_of_mod h with rfl | rfl <;> decide +kernel

theorem exactF16_eq_some {half : UInt16} (h : exactF16 bits = some half) :
    halfToF64 half = bits := by
  simp only [exactF16] at h
  split at h
  · cases h
  · split at h
    · next heq =>
      cases h
      rcases heq.2.2 with h | ⟨-, h⟩
      · exact UInt64.toNat_inj.mp h
      · rcases eq_zero_of_mod h with rfl | rfl <;> decide +kernel
    · cases h

theorem reads_float {bits bytes} (h : encodeFloat bits = .ok bytes) :
    Reads (value (room + 1)) bytes (.float bits) := by
  simp only [encodeFloat] at h
  split at h
  · cases h
  · split at h
    · next half hhalf =>
      cases h
      refine (reads_byte 0xf9).bind ((reads_word half.toNat_lt).bind_pure ?_)
      rw [UInt16.ofNat_toNat, exactF16_eq_some hhalf]
    · split at h
      · next hf32 =>
        cases h
        refine (reads_byte 0xfa).bind ((reads_word (toF32 bits).toNat_lt).bind_pure ?_)
        rw [UInt32.ofNat_toNat, toF64_toF32 hf32]
      · cases h
        refine (reads_byte 0xfb).bind ((reads_word bits.toNat_lt).bind_pure ?_)
        rw [UInt64.ofNat_toNat]

/-! ## Collections -/

/-- A collection is read off its length and its items, which are at least as many bytes. -/
theorem reads_collection {additional : UInt8} {argument payload : List UInt8} {n : Nat} {α : Type}
    {f : Nat → Decoder α} {a : α} (h : Reads (length additional) argument n)
    (hmax : n ≤ maxCollectionItems) (hpayload : n ≤ payload.length) (hf : Reads (f n) payload a) :
    Reads (collectionLength additional >>= f) (argument ++ payload) a := by
  intro rest
  have hahead : n ≤ maxCollectionItems ∧ n ≤ (payload ++ rest).length := by
    rw [List.length_append]
    omega
  have hlength : collectionLength additional (argument ++ (payload ++ rest)) =
      .ok (n, payload ++ rest) := by
    rw [collectionLength, Reader.bind_apply, h]
    exact Reads.ensure (f := fun _ => pure n) hahead (Reads.pure n) (payload ++ rest)
  rw [Reader.bind_apply, List.append_assoc, hlength]
  exact hf rest

theorem reads_members {item entries encoded}
    (h : List.Forall₂ (fun e m => Reads item m.1 (.text e.1) ∧ Reads item m.2 e.2) entries encoded)
    (hnodup : (entries.map Prod.fst).Nodup) (values : Members)
    (hnew : ∀ e ∈ entries, e.1 ∉ values.keys) :
    Reads (members item entries.length values) (membersBytes encoded)
      (entries.foldl (fun m e => m.insert e.1 e.2) values) := by
  induction h generalizing values with
  | nil => exact .pure values
  | @cons e m entries encoded hem _ ih =>
    simp only [List.map_cons, List.nodup_cons] at hnodup
    rw [membersBytes, List.flatMap_cons, List.append_assoc]
    refine hem.1.bind (hem.2.bind (.ensure ?_ (ih hnodup.2 _ ?_)))
    · rw [OrderedMap.contains_iff]
      exact hnew e List.mem_cons_self
    · intro e' he'
      rw [OrderedMap.mem_keys_iff, OrderedMap.get_insert, if_neg, ← OrderedMap.mem_keys_iff]
      · exact hnew e' (List.mem_cons_of_mem _ he')
      · intro heq
        exact hnodup.1 (heq ▸ List.mem_map_of_mem he')

end Decoder

/-! ## The round trip -/

theorem encodeHead_ne_nil (major : UInt8) (n : Nat) : encodeHead major n ≠ [] := by
  unfold encodeHead
  split_ifs <;> exact List.cons_ne_nil _ _

variable {bytes : List UInt8}

theorem encodeFloat_ne_nil {bits} (h : encodeFloat bits = .ok bytes) : bytes ≠ [] := by
  simp only [encodeFloat] at h
  split at h
  · cases h
  · split at h
    · cases h
      exact List.cons_ne_nil _ _
    · split at h <;> cases h <;> exact List.cons_ne_nil _ _

variable {value : CapsuleValue}

theorem encodeInto_ne_nil (h : value.encodeInto = .ok bytes) : bytes ≠ [] := by
  induction value with
  | null =>
    rw [encodeInto_null, Except.ok.injEq] at h
    exact h ▸ List.cons_ne_nil _ _
  | bool b =>
    rw [encodeInto_bool, Except.ok.injEq] at h
    exact h ▸ List.cons_ne_nil _ _
  | integer n =>
    rw [encodeInto_integer, Except.ok.injEq, encodeInteger] at h
    subst h
    split <;> exact encodeHead_ne_nil _ _
  | float bits => exact encodeFloat_ne_nil h
  | bytes value =>
    rw [encodeInto_bytes, Except.ok.injEq] at h
    exact h ▸ List.append_ne_nil_of_left_ne_nil (encodeHead_ne_nil _ _) _
  | text value =>
    rw [encodeInto_text, Except.ok.injEq] at h
    exact h ▸ List.append_ne_nil_of_left_ne_nil (encodeHead_ne_nil _ _) _
  | array values =>
    obtain ⟨items, -, rfl⟩ := encodeInto_array.mp h
    exact List.append_ne_nil_of_left_ne_nil (encodeHead_ne_nil _ _) _
  | object members =>
    obtain ⟨encoded, -, rfl⟩ := encodeInto_object.mp h
    exact List.append_ne_nil_of_left_ne_nil (encodeHead_ne_nil _ _) _

variable {α : Type} {as : List α}

theorem forall₂_of_mem {β : Type} {R S : α → β → Prop} {bs : List β} (h : List.Forall₂ R as bs)
    (hRS : ∀ a ∈ as, ∀ b ∈ bs, R a b → S a b) : List.Forall₂ S as bs := by
  induction h with
  | nil => exact .nil
  | @cons a b as bs hab _ ih =>
    refine .cons (hRS a List.mem_cons_self b List.mem_cons_self hab) (ih fun a ha b hb => ?_)
    exact hRS a (List.mem_cons_of_mem _ ha) b (List.mem_cons_of_mem _ hb)

theorem exists_forall₂ {β : Type} {R : α → β → Prop} (h : ∀ a ∈ as, ∃ b, R a b) :
    ∃ bs, List.Forall₂ R as bs := by
  induction as with
  | nil => exact ⟨[], .nil⟩
  | cons a as ih =>
    obtain ⟨b, hb⟩ := h a List.mem_cons_self
    obtain ⟨bs, hbs⟩ := ih fun a ha => h a (List.mem_cons_of_mem _ ha)
    exact ⟨b :: bs, .cons hb hbs⟩

theorem exists_encodeInto {depth : Nat} (h : value.validateAt depth = .ok ()) :
    ∃ bytes, value.encodeInto = .ok bytes := by
  induction value generalizing depth with
  | null => exact ⟨_, encodeInto_null⟩
  | bool b => exact ⟨_, encodeInto_bool b⟩
  | integer n => exact ⟨_, encodeInto_integer n⟩
  | float bits =>
    rw [encodeInto_float, encodeFloat, if_neg (not_not.mpr (validateAt_float.mp h).2)]
    split
    · exact ⟨_, rfl⟩
    · split <;> exact ⟨_, rfl⟩
  | bytes value => exact ⟨_, encodeInto_bytes value⟩
  | text value => exact ⟨_, encodeInto_text value⟩
  | array values ih =>
    obtain ⟨-, -, hvalues⟩ := validateAt_array.mp h
    obtain ⟨items, hitems⟩ := exists_forall₂ fun v hv => ih v hv (hvalues v hv)
    exact ⟨_, encodeInto_array.mpr ⟨items, hitems, rfl⟩⟩
  | object members ih =>
    obtain ⟨-, -, hvalues⟩ := validateAt_object.mp h
    have hmembers : ∀ e ∈ members.entries, ∃ m, EncodesMember e m := by
      intro e he
      obtain ⟨item, hitem⟩ := ih e he (hvalues e he).2
      exact ⟨(encodeText e.1, item), rfl, hitem⟩
    obtain ⟨encoded, hencoded⟩ := exists_forall₂ hmembers
    exact ⟨_, encodeInto_object.mpr ⟨encoded, hencoded, rfl⟩⟩

theorem length_le_flatten {items : List (List UInt8)} {R : α → List UInt8 → Prop}
    (h : List.Forall₂ R as items) (hR : ∀ a item, R a item → item ≠ []) :
    as.length ≤ items.flatten.length := by
  induction h with
  | nil => simp
  | @cons a item as items ha _ ih =>
    have := List.length_pos_iff.mpr (hR a item ha)
    simp only [List.length_cons, List.flatten_cons, List.length_append]
    omega

theorem length_le_membersBytes {entries : List (String × CapsuleValue)}
    {encoded : List EncodedMember} (h : List.Forall₂ EncodesMember entries encoded) :
    entries.length ≤ (membersBytes encoded).length := by
  refine length_le_flatten (R := fun e item => ∃ m, EncodesMember e m ∧ item = m.1 ++ m.2)
    (List.forall₂_map_right_iff.mpr (h.imp fun e m h => ⟨m, h, rfl⟩)) ?_
  rintro e _ ⟨m, hem, rfl⟩
  exact List.append_ne_nil_of_right_ne_nil _ (encodeInto_ne_nil hem.2)

theorem length_member_le {encoded m} (h : m ∈ encoded) :
    m.1.length + m.2.length ≤ (membersBytes encoded).length := by
  have hmem : m.1 ++ m.2 ∈ encoded.map fun m => m.1 ++ m.2 := List.mem_map.mpr ⟨m, h, rfl⟩
  rw [← List.length_append]
  exact (List.sublist_flatten_of_mem hmem).length_le

/-- From any input that starts with the encoding of the value, where the value is valid, the decoder
takes that encoding and returns the value; `room` is what the depth leaves below the nesting
limit. -/
def ReadBack (value : CapsuleValue) : Prop :=
  ∀ ⦃depth room : Nat⦄ ⦃bytes : List UInt8⦄, value.validateAt depth = .ok () →
    room + depth = maxValueDepth → value.encodeInto = .ok bytes → bytes.length < 2 ^ 64 →
    Reads (Decoder.value (room + 1)) bytes value

/-- One level down: a valid item of a collection is not below the nesting limit. -/
theorem ReadBack.item (h : ReadBack value) {depth room}
    (hvalid : value.validateAt (depth + 1) = .ok ()) (hroom : room + depth = maxValueDepth)
    (hencode : value.encodeInto = .ok bytes) (hlength : bytes.length < 2 ^ 64) :
    Reads (Decoder.value room) bytes value := by
  have hdepth := depth_le_of_validateAt hvalid
  obtain ⟨room, rfl⟩ : ∃ r, room = r + 1 := ⟨room - 1, by omega⟩
  exact h hvalid (by omega) hencode hlength

theorem readBack_text (value : String) : ReadBack (text value) := by
  intro depth room bytes _ _ hencode hlength
  rw [encodeInto_text, Except.ok.injEq] at hencode
  subst hencode
  rw [encodeText, List.length_append] at hlength
  exact reads_text room (by omega)

theorem readBack_array {values : List CapsuleValue} (ih : ∀ v ∈ values, ReadBack v) :
    ReadBack (array values) := by
  intro depth room bytes hvalid hroom hencode hlength
  obtain ⟨-, hcount, hvalues⟩ := validateAt_array.mp hvalid
  obtain ⟨items, hitems, rfl⟩ := encodeInto_array.mp hencode
  rw [List.length_append] at hlength
  have hcount' := hcount
  rw [maxCollectionItems] at hcount'
  refine reads_value_of_head (by decide) (by omega) fun additional argument hargument => ?_
  refine reads_collection hargument hcount
    (length_le_flatten hitems fun _ _ => encodeInto_ne_nil) ?_
  refine (Reads.times (forall₂_of_mem hitems fun v hv item hmem hitem => ?_)).bind_pure rfl
  have hle : item.length ≤ items.flatten.length := (List.sublist_flatten_of_mem hmem).length_le
  exact (ih v hv).item (hvalues v hv) hroom hitem (by omega)

theorem readBack_object {members : Members} (ih : ∀ e ∈ members.entries, ReadBack e.2) :
    ReadBack (object members) := by
  intro depth room bytes hvalid hroom hencode hlength
  obtain ⟨-, hcount, hvalues⟩ := validateAt_object.mp hvalid
  obtain ⟨encoded, hencoded, rfl⟩ := encodeInto_object.mp hencode
  -- the members as the encoder wrote them
  obtain ⟨entries, hperm, hentries⟩ := sortMembers_forall₂ hencoded
  rw [List.length_append] at hlength
  rw [← hperm.length_eq] at hcount ⊢
  have hcount' := hcount
  rw [maxCollectionItems] at hcount'
  have hnodup : (entries.map Prod.fst).Nodup :=
    (hperm.map Prod.fst).nodup_iff.mpr members.nodup_keys
  have hreads : List.Forall₂ (fun e m => Reads (Decoder.value room) m.1 (.text e.1) ∧
      Reads (Decoder.value room) m.2 e.2) entries (sortMembers encoded) := by
    refine forall₂_of_mem hentries fun e he m hm hem => ?_
    have he' := hperm.subset he
    have hle := length_member_le hm
    refine ⟨?_, (ih e he').item (hvalues e he').2 hroom hem.2 (by omega)⟩
    exact (readBack_text e.1).item (validateAt_text.mpr (depth_le_of_validateAt (hvalues e he').2))
      hroom (hem.1 ▸ rfl) (by omega)
  refine reads_value_of_head (by decide) (by omega) fun additional argument hargument => ?_
  refine reads_collection hargument hcount (length_le_membersBytes hentries) ?_
  refine (reads_members hreads hnodup ∅ fun _ _ => List.not_mem_nil).bind_pure ?_
  exact congrArg (fun m => pure (object m)) (OrderedMap.ofList_of_perm hperm)

/-- **The decoder reads what the encoder writes.** -/
theorem readBack (value : CapsuleValue) : ReadBack value := by
  induction value with
  | null =>
    intro depth room bytes _ _ hencode _
    rw [encodeInto_null, Except.ok.injEq] at hencode
    exact hencode ▸ reads_null room
  | bool b =>
    intro depth room bytes _ _ hencode _
    rw [encodeInto_bool, Except.ok.injEq] at hencode
    exact hencode ▸ reads_bool room b
  | integer n =>
    intro depth room bytes _ _ hencode _
    rw [encodeInto_integer, Except.ok.injEq] at hencode
    exact hencode ▸ reads_integer room n
  | float bits =>
    intro depth room bytes _ _ hencode _
    exact reads_float room hencode
  | bytes value =>
    intro depth room bytes _ _ hencode hlength
    rw [encodeInto_bytes, Except.ok.injEq] at hencode
    subst hencode
    rw [List.length_append] at hlength
    exact reads_bytes room (by omega)
  | text value => exact readBack_text value
  | array values ih => exact readBack_array ih
  | object members ih => exact readBack_object ih

end Aseman.Capsule
