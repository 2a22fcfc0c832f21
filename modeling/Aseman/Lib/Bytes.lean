import Aseman.Lib.Result
import Mathlib.Data.List.Lex

/-!
# Byte strings and their readers

Big-endian words, the UTF-8 form of a text, and readers: functions that take a value off the front
of a byte string or fail. `Reads r bytes a` says that `r` takes exactly `bytes` off any input that
starts with them and returns `a`. It composes (`Reads.bind`, `Reads.times`), and two byte strings
that one reader reads are never one a proper prefix of the other (`Reads.eq_of_extends`).
-/

namespace Aseman

instance uint8LinearOrder : LinearOrder UInt8 where
  le_refl := UInt8.le_refl
  le_trans _ _ _ := UInt8.le_trans
  le_antisymm _ _ := UInt8.le_antisymm
  le_total := UInt8.le_total
  lt_iff_le_not_ge a b := by
    rw [UInt8.not_le]
    exact ⟨fun h => ⟨UInt8.le_of_lt h, h⟩, fun h => h.2⟩
  toDecidableLE := inferInstance
  toDecidableLT := inferInstance

/-! ## Big-endian words -/

/-- `to_be_bytes`: the low `width` bytes of `n`, the most significant one first. -/
def bigEndian : Nat → Nat → List UInt8
  | 0, _ => []
  | width + 1, n => UInt8.ofNat (n / 256 ^ width) :: bigEndian width n

def ofBigEndian (bytes : List UInt8) : Nat := bytes.foldl (fun n b => n * 256 + b.toNat) 0

@[simp] theorem length_bigEndian (width n : Nat) : (bigEndian width n).length = width := by
  induction width with
  | zero => rfl
  | succ width ih => rw [bigEndian, List.length_cons, ih]

theorem foldl_bigEndian (bytes : List UInt8) (n : Nat) :
    bytes.foldl (fun n b => n * 256 + b.toNat) n = n * 256 ^ bytes.length + ofBigEndian bytes := by
  induction bytes generalizing n with
  | nil => simp [ofBigEndian]
  | cons b bytes ih =>
    simp only [ofBigEndian, List.foldl_cons, List.length_cons] at ih ⊢
    rw [ih, ih (0 * 256 + b.toNat)]
    ring

theorem ofBigEndian_cons (b : UInt8) (bytes : List UInt8) :
    ofBigEndian (b :: bytes) = b.toNat * 256 ^ bytes.length + ofBigEndian bytes := by
  rw [ofBigEndian, List.foldl_cons, foldl_bigEndian]
  simp

/-- A word is read back as the low bytes of the number that was written. -/
theorem ofBigEndian_bigEndian_mod (width n : Nat) :
    ofBigEndian (bigEndian width n) = n % 256 ^ width := by
  induction width with
  | zero => simp [bigEndian, ofBigEndian, Nat.mod_one]
  | succ width ih =>
    rw [bigEndian, ofBigEndian_cons, ih, length_bigEndian, Nat.mod_pow_succ, UInt8.toNat_ofNat']
    ring

theorem ofBigEndian_bigEndian {width n} (h : n < 256 ^ width) :
    ofBigEndian (bigEndian width n) = n := by
  rw [ofBigEndian_bigEndian_mod, Nat.mod_eq_of_lt h]

/-! ## Text -/

/-- `str::as_bytes`. -/
def utf8 (s : String) : List UInt8 := s.toUTF8.data.toList

/-- `str::from_utf8`. -/
def fromUtf8 (bytes : List UInt8) : Option String := String.fromUTF8? ⟨bytes.toArray⟩

theorem fromUtf8_utf8 (s : String) : fromUtf8 (utf8 s) = some s := by
  have hbytes : (⟨(utf8 s).toArray⟩ : ByteArray) = s.toByteArray := by
    simp [utf8, String.toUTF8]
  rw [fromUtf8, hbytes, String.fromUTF8?, dif_pos s.isValidUTF8]
  rfl

theorem utf8_injective : Function.Injective utf8 := by
  intro s t h
  have hs := fromUtf8_utf8 s
  rw [h, fromUtf8_utf8] at hs
  exact (Option.some.inj hs).symm

theorem length_utf8_le (s : String) : (utf8 s).length ≤ 4 * s.toList.length := by
  have h : ∀ l : List Char, l.utf8Encode.size ≤ 4 * l.length := by
    intro l
    induction l with
    | nil => decide
    | cons c l ih =>
      have := Char.utf8Size_le_four c
      rw [List.utf8Encode_cons, ByteArray.size_append]
      simp [List.utf8Encode_singleton, String.length_utf8EncodeChar]
      omega
  simpa [utf8] using h s.toList

/-! ## Readers -/

/-- A reader: it takes a value off the front of a byte string, or fails. -/
abbrev Reader (ε : Type) := StateT (List UInt8) (Except ε)

variable {ε α β : Type}

namespace Reader

def take (length : Nat) (truncated : ε) : Reader ε (List UInt8) := fun bytes =>
  if length ≤ bytes.length then .ok (bytes.take length, bytes.drop length) else .error truncated

/-- As many values as asked for, one after the other. -/
def times (r : Reader ε α) : Nat → Reader ε (List α)
  | 0 => pure []
  | n + 1 => do
      let a ← r
      let rest ← r.times n
      pure (a :: rest)

theorem bind_apply (r : Reader ε α) (f : α → Reader ε β) (bytes : List UInt8) :
    (r >>= f) bytes = r bytes >>= fun p => f p.1 p.2 := rfl

end Reader

/-- The reader takes exactly `bytes` off any input that starts with them, and returns `a`. -/
def Reads (r : Reader ε α) (bytes : List UInt8) (a : α) : Prop :=
  ∀ rest, r (bytes ++ rest) = .ok (a, rest)

namespace Reads

theorem pure (a : α) : Reads (Pure.pure a : Reader ε α) [] a := fun _ => rfl

variable {r : Reader ε α} {bytes : List UInt8} {a : α} {b : β}

theorem bind {f bytes'} (h : Reads r bytes a) (hf : Reads (f a) bytes' b) :
    Reads (r >>= f) (bytes ++ bytes') b := by
  intro rest
  rw [Reader.bind_apply, List.append_assoc, h]
  exact hf rest

/-- A value computed from what was read. -/
theorem bind_pure {f} (h : Reads r bytes a) (hf : f a = Pure.pure b) : Reads (r >>= f) bytes b := by
  have := h.bind (hf ▸ Reads.pure b)
  rwa [List.append_nil] at this

/-- A check takes nothing off the input. -/
theorem lift {x : Except ε α} (h : x = .ok a) : Reads (liftM x : Reader ε α) [] a := by
  intro rest
  rw [h]
  rfl

theorem ensure {p : Prop} [Decidable p] {e : ε} {f : Unit → Reader ε β} (h : p)
    (hf : Reads (f ()) bytes b) : Reads (liftM (Aseman.ensure p e) >>= f) bytes b :=
  (lift (ensure_eq_ok.mpr h : Aseman.ensure p e = .ok ())).bind hf

theorem take (bytes : List UInt8) (truncated : ε) :
    Reads (Reader.take bytes.length truncated) bytes bytes := by
  intro rest
  simp [Reader.take]

theorem take_of_length {length} (h : bytes.length = length) (truncated : ε) :
    Reads (Reader.take length truncated) bytes bytes :=
  h ▸ take bytes truncated

/-- A value after value is read off their encodings in a row. -/
theorem times {as items} (h : List.Forall₂ (fun a bytes => Reads r bytes a) as items) :
    Reads (r.times as.length) items.flatten as := by
  induction h with
  | nil => exact Reads.pure []
  | @cons a bytes as items ha _ ih =>
    refine ha.bind ?_
    rw [← List.append_nil items.flatten]
    exact ih.bind (Reads.pure _)

/-- **No proper prefix.** Of two byte strings that one reader reads, neither is a proper prefix of
the other. -/
theorem eq_of_extends {bytes' a'} (h : Reads r bytes a) (h' : Reads r bytes' a')
    (hextends : bytes <+: bytes') : a = a' ∧ bytes = bytes' := by
  obtain ⟨rest, rfl⟩ := hextends
  have hread := h rest
  have hread' := h' []
  rw [List.append_nil, hread] at hread'
  obtain ⟨rfl, rfl⟩ := hread'
  exact ⟨rfl, (List.append_nil _).symm⟩

end Reads

end Aseman
