import Aseman.Lib.Bytes

/-!
# Hexadecimal text

`hex::encode`, `hex::encode_upper` and `hex::decode`. The encoders are injective; the decoder takes
digits of either case, so it is not.
-/

namespace Aseman.Hex

def digit (ten : Char) (n : Nat) : Char :=
  if n < 10 then Char.ofNat (48 + n) else Char.ofNat (ten.toNat + (n - 10))

def digits (ten : Char) (bytes : List UInt8) : List Char :=
  bytes.flatMap fun b => [digit ten (b.toNat / 16), digit ten (b.toNat % 16)]

/-- `hex::encode`. -/
def encode (bytes : List UInt8) : String := String.ofList (digits 'a' bytes)

/-- `hex::encode_upper`. -/
def encodeUpper (bytes : List UInt8) : String := String.ofList (digits 'A' bytes)

/-- The value of a digit of either case. -/
def value (b : UInt8) : Option UInt8 :=
  if 48 ≤ b ∧ b ≤ 57 then some (b - 48)
  else if 97 ≤ b ∧ b ≤ 102 then some (b - 87)
  else if 65 ≤ b ∧ b ≤ 70 then some (b - 55)
  else none

/-- `hex::decode`. -/
def decode : List UInt8 → Option (List UInt8)
  | [] => some []
  | [_] => none
  | hi :: lo :: rest => do
      let hi ← value hi
      let lo ← value lo
      let rest ← decode rest
      some ((16 * hi + lo) :: rest)

theorem digit_lower_inj : ∀ m < 16, ∀ n < 16, digit 'a' m = digit 'a' n → m = n := by decide

theorem digit_upper_inj : ∀ m < 16, ∀ n < 16, digit 'A' m = digit 'A' n → m = n := by decide

theorem digits_injective {ten} (h : ∀ m < 16, ∀ n < 16, digit ten m = digit ten n → m = n) :
    Function.Injective (digits ten) := by
  intro a b hab
  induction a generalizing b with
  | nil =>
    cases b with
    | nil => rfl
    | cons => cases hab
  | cons x a ih =>
    cases b with
    | nil => cases hab
    | cons y b =>
      simp only [digits, List.flatMap_cons, List.cons_append, List.nil_append,
        List.cons.injEq] at hab
      obtain ⟨hhi, hlo, hrest⟩ := hab
      have hx := x.toNat_lt
      have hy := y.toNat_lt
      have hhi := h _ (by omega) _ (by omega) hhi
      have hlo := h _ (by omega) _ (by omega) hlo
      rw [ih hrest, UInt8.toNat_inj.mp (by omega : x.toNat = y.toNat)]

theorem encode_injective : Function.Injective encode := fun _ _ h =>
  digits_injective digit_lower_inj (String.ofList_injective h)

theorem encodeUpper_injective : Function.Injective encodeUpper := fun _ _ h =>
  digits_injective digit_upper_inj (String.ofList_injective h)

end Aseman.Hex
