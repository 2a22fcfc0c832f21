import Aseman.Lib.Ieee
import Mathlib.Data.Nat.Bitwise

/-!
# Half-precision floats

The two conversions between `f32` and the bits of a half-precision float that the encoder brings
itself, on bit patterns, and what they are: the conversions of IEEE 754 (`f16BitsToF32_eq_widen`,
`f32ToF16Bits_eq_narrow`).
-/

namespace Aseman.Capsule

open Ieee Format

def f32ToF16Bits (bits : Nat) : Nat :=
  let sign := (bits >>> 16) &&& 0x8000
  let exponent : Int := ((bits >>> 23) &&& 0xff : Nat) - 127 + 15
  let mantissa := bits &&& 0x7fffff
  if exponent ≤ 0 then
    if exponent < -10 then sign
    else
      let mantissa := mantissa ||| 0x800000
      let shift := (14 - exponent).toNat
      let half := mantissa >>> shift
      let remainder := mantissa &&& ((1 <<< shift) - 1)
      let halfway := 1 <<< (shift - 1)
      sign ||| if halfway < remainder ∨ remainder = halfway ∧ half &&& 1 = 1 then half + 1 else half
  else if 31 ≤ exponent then sign ||| 0x7c00
  else
    let half := sign ||| (exponent.toNat <<< 10) ||| (mantissa >>> 13)
    let remainder := mantissa &&& 0x1fff
    if 0x1000 < remainder ∨ remainder = 0x1000 ∧ half &&& 1 = 1 then half + 1 else half

/-- The loop that moves the leading bit of a subnormal mantissa up to its place: at most ten rounds,
since the mantissa is not zero. -/
def normalizeHalf : Nat → Nat → Int → Nat × Int
  | 0, mantissa, exponent => (mantissa, exponent)
  | rounds + 1, mantissa, exponent =>
    if mantissa &&& 0x400 = 0 then normalizeHalf rounds (mantissa <<< 1) (exponent - 1)
    else (mantissa, exponent)

def f16BitsToF32 (bits : Nat) : Nat :=
  let sign := (bits &&& 0x8000) <<< 16
  let exponent := (bits >>> 10) &&& 0x1f
  let mantissa := bits &&& 0x03ff
  if exponent = 0 then
    if mantissa = 0 then sign
    else
      let (mantissa, exponent) := normalizeHalf 10 mantissa (-14)
      sign ||| ((exponent + 127).toNat <<< 23) ||| ((mantissa &&& 0x3ff) <<< 13)
  else if exponent = 31 then sign ||| 0x7f800000 ||| (mantissa <<< 13)
  else sign ||| (((exponent : Int) - 15 + 127).toNat <<< 23) ||| (mantissa <<< 13)

/-! ## Bit operations as arithmetic -/

theorem and_ones (n k : Nat) : n &&& (2 ^ k - 1) = n % 2 ^ k := Nat.and_two_pow_sub_one_eq_mod n k

theorem or_eq_add {a b} (k : Nat) (h : b < 2 ^ k) : a * 2 ^ k ||| b = a * 2 ^ k + b := by
  rw [Nat.mul_comm, Nat.two_pow_add_eq_or_of_lt h]

theorem and_bit_of_lt {n k} (h : n < 2 ^ (k + 1)) : n &&& 2 ^ k = n / 2 ^ k * 2 ^ k := by
  have hlt : n / 2 ^ k < 2 := by
    rw [Nat.div_lt_iff_lt_mul (by positivity), Nat.mul_comm]
    exact h
  rw [Nat.and_two_pow, Nat.testBit_eq_decide_div_mod_eq]
  interval_cases n / 2 ^ k <;> simp

/-! ## The conversions of IEEE 754 -/

theorem binary32_fields {n} (hn : n < 2 ^ 32) :
    (n >>> 16) &&& 0x8000 = binary32.sign n * 2 ^ 15 ∧
      (n >>> 23) &&& 0xff = binary32.exponent n ∧ n &&& 0x7fffff = binary32.mantissa n := by
  refine ⟨?_, ?_, and_ones n 23⟩
  · rw [Nat.shiftRight_eq_div_pow]
    rw [show (0x8000 : Nat) = 2 ^ 15 from rfl, and_bit_of_lt (by omega), Nat.div_div_eq_div_mul]
    rfl
  · refine (and_ones _ 8).trans ?_
    simp only [exponent, signBit, binary32]
    omega

/-- Rounding as `f32_to_f16_bits` does it: against half of the last place that is kept. -/
theorem roundShift_succ (n shift : Nat) : roundShift n (shift + 1) =
      if 2 ^ shift < n % 2 ^ (shift + 1) ∨
          n % 2 ^ (shift + 1) = 2 ^ shift ∧ n / 2 ^ (shift + 1) % 2 = 1 then
        n / 2 ^ (shift + 1) + 1
      else n / 2 ^ (shift + 1) := by
  simp only [roundShift]
  congr 1
  simp only [eq_iff_iff]
  omega

theorem roundShift_eq_zero {n shift} (h : 2 * n < 2 ^ shift) : roundShift n shift = 0 := by
  have hlt : n < 2 ^ shift := by omega
  simp only [roundShift, Nat.div_eq_of_lt hlt, Nat.mod_eq_of_lt hlt]
  rw [if_neg (by omega)]

/-- The fields of the narrowed number, for each range of exponents. -/
theorem narrow_half {n} (h : binary32.IsFinite n) :
    narrow binary16 binary32 n = binary32.sign n * 2 ^ 15 +
      min (31 * 2 ^ 10) ((binary32.scale n - 113) * 2 ^ 10 +
        roundShift (binary32.significand n) (13 + (113 - binary32.scale n))) := by
  rw [narrow, if_neg h.not_isNan]
  rfl

theorem f32ToF16Bits_eq_narrow {n} (hn : n < 2 ^ 32) (h : binary32.IsFinite n) :
    f32ToF16Bits n = narrow binary16 binary32 n := by
  obtain ⟨hsign, hexponent, hmantissa⟩ := binary32_fields hn
  have hm : binary32.mantissa n < 2 ^ 23 := binary32.mantissa_lt n
  simp only [f32ToF16Bits, hsign, hexponent, hmantissa]
  rw [narrow_half h]
  by_cases hsmall : binary32.exponent n < 102
  · -- below the smallest subnormal half: rounded to zero
    have hscale : binary32.scale n < 102 := by rw [scale]; omega
    rw [if_pos (by omega), if_pos (by omega), roundShift_eq_zero, Nat.sub_eq_zero_of_le (by omega)]
    · simp
    · have hsig := binary32.significand_lt n
      have hpow : 2 ^ 25 ≤ 2 ^ (13 + (113 - binary32.scale n)) :=
        Nat.pow_le_pow_right (by norm_num) (by omega)
      simp only [binary32] at hsig hpow ⊢
      omega
  · have hscale : binary32.scale n = binary32.exponent n := by rw [scale]; omega
    have hsig : binary32.significand n = 2 ^ 23 + binary32.mantissa n := by
      rw [significand, if_neg (by omega)]
      rfl
    rw [hscale, hsig]
    by_cases hsub : binary32.exponent n ≤ 112
    · -- a subnormal half
      obtain ⟨k, hk⟩ : ∃ k, 126 - binary32.exponent n = k + 1 := ⟨125 - binary32.exponent n, by omega⟩
      have hshift : (14 - ((binary32.exponent n : Int) - 127 + 15)).toNat = k + 1 := by omega
      have hor : binary32.mantissa n ||| 0x800000 = 2 ^ 23 + binary32.mantissa n := by
        rw [Nat.or_comm]
        exact or_eq_add (a := 1) 23 hm
      have hquotient : (2 ^ 23 + binary32.mantissa n) / 2 ^ (k + 1) < 2 ^ 10 := by
        have hpow : 2 ^ 14 ≤ 2 ^ (k + 1) := Nat.pow_le_pow_right (by norm_num) (by omega)
        calc _ ≤ (2 ^ 23 + binary32.mantissa n) / 2 ^ 14 := Nat.div_le_div_left hpow (by norm_num)
          _ < _ := by omega
      rw [if_pos (by omega), if_neg (by omega), hshift, hor, Nat.one_shiftLeft, Nat.one_shiftLeft,
        and_ones, Nat.shiftRight_eq_div_pow, Nat.and_one_is_mod, Nat.add_sub_cancel,
        ← roundShift_succ, show 13 + (113 - binary32.exponent n) = k + 1 by omega]
      have hround : roundShift (2 ^ 23 + binary32.mantissa n) (k + 1) ≤ 2 ^ 10 := by
        rw [roundShift_succ]
        split <;> omega
      rw [or_eq_add 15 (by omega)]
      omega
    · have hround := roundShift_succ (2 ^ 23 + binary32.mantissa n) 12
      rw [show 13 + (113 - binary32.exponent n) = 12 + 1 by omega, if_neg (by omega)]
      by_cases hlarge : 143 ≤ binary32.exponent n
      · -- too large for a half
        rw [if_pos (by omega), Nat.min_eq_left]
        · exact or_eq_add 15 (by norm_num)
        · rw [hround]
          split <;> omega
      · have hfields : binary32.sign n * 2 ^ 15 |||
              ((binary32.exponent n : Int) - 127 + 15).toNat <<< 10 ||| binary32.mantissa n >>> 13 =
            binary32.sign n * 2 ^ 15 + (binary32.exponent n - 112) * 2 ^ 10 +
              binary32.mantissa n / 2 ^ 13 := by
          rw [Nat.shiftLeft_eq, Nat.shiftRight_eq_div_pow,
            show ((binary32.exponent n : Int) - 127 + 15).toNat = binary32.exponent n - 112 by omega,
            or_eq_add 15 (by omega)]
          have := or_eq_add (a := binary32.sign n * 2 ^ 5 + (binary32.exponent n - 112))
            (b := binary32.mantissa n / 2 ^ 13) 10 (by omega)
          rw [Nat.add_mul, Nat.mul_assoc] at this
          exact this
        have hremainder : binary32.mantissa n &&& 0x1fff = binary32.mantissa n % 2 ^ 13 :=
          and_ones _ 13
        rw [if_neg (by omega), hfields, Nat.and_one_is_mod, Nat.min_eq_right, hround]
        · split <;> split <;> omega
        · rw [hround]
          split <;> omega

theorem binary16_fields {n} (hn : n < 2 ^ 16) :
    (n &&& 0x8000) <<< 16 = binary16.sign n * 2 ^ 31 ∧
      (n >>> 10) &&& 0x1f = binary16.exponent n ∧ n &&& 0x03ff = binary16.mantissa n := by
  refine ⟨?_, ?_, and_ones n 10⟩
  · rw [show (0x8000 : Nat) = 2 ^ 15 from rfl, and_bit_of_lt hn, Nat.shiftLeft_eq, Nat.mul_assoc]
    rfl
  · refine (and_ones _ 5).trans ?_
    simp only [exponent, signBit, binary16]
    omega

/-- The loop moves the leading bit, at place `Nat.log 2` of the mantissa, up to place ten. -/
theorem normalizeHalf_eq {rounds mantissa} (exponent : Int) (hpos : mantissa ≠ 0)
    (hlt : mantissa < 2 ^ 11) (hrounds : 10 ≤ rounds + Nat.log 2 mantissa) :
    normalizeHalf rounds mantissa exponent =
      (mantissa * 2 ^ (10 - Nat.log 2 mantissa), exponent - (10 - Nat.log 2 mantissa : Nat)) := by
  have hlog : Nat.log 2 mantissa ≤ 10 := Nat.lt_succ_iff.mp (Nat.log_lt_of_lt_pow hpos hlt)
  induction rounds generalizing mantissa exponent with
  | zero => simp [normalizeHalf, show Nat.log 2 mantissa = 10 by omega]
  | succ rounds ih =>
    have hbit : mantissa &&& 0x400 = mantissa / 2 ^ 10 * 2 ^ 10 := and_bit_of_lt hlt
    rw [normalizeHalf]
    by_cases hsmall : mantissa < 2 ^ 10
    · have hdouble : Nat.log 2 (mantissa * 2) = Nat.log 2 mantissa + 1 :=
        Nat.log_mul_base (by norm_num) hpos
      have hsucc : Nat.log 2 mantissa < 10 := Nat.log_lt_of_lt_pow hpos hsmall
      rw [if_pos (by rw [hbit, Nat.div_eq_of_lt hsmall, Nat.zero_mul]), Nat.shiftLeft_eq,
        pow_one, ih _ (by omega) (by omega) (by omega) (by omega), Prod.mk.injEq]
      refine ⟨?_, by omega⟩
      rw [Nat.mul_assoc, ← pow_succ']
      congr 2
      omega
    · have hten : Nat.log 2 mantissa = 10 :=
        Nat.log_eq_of_pow_le_of_lt_pow (by omega) hlt
      rw [if_neg (by omega), hten]
      simp

theorem widen_half (n : Nat) : widen binary16 binary32 n = binary16.sign n * 2 ^ 31 +
      if binary16.exponent n = 31 then 255 * 2 ^ 23 + binary16.mantissa n * 2 ^ 13
      else if binary16.significand n = 0 then 0
      else
        (binary16.scale n + 112 - (10 - Nat.log 2 (binary16.significand n)) - 1) * 2 ^ 23 +
          binary16.significand n * 2 ^ (23 - Nat.log 2 (binary16.significand n)) := rfl

theorem or_fields {s e m} (he : e < 2 ^ 8) (hm : m < 2 ^ 10) :
    s * 2 ^ 31 ||| e <<< 23 ||| m <<< 13 = s * 2 ^ 31 + (e * 2 ^ 23 + m * 2 ^ 13) := by
  rw [Nat.shiftLeft_eq, Nat.shiftLeft_eq, or_eq_add 31 (by omega)]
  have := or_eq_add (a := s * 2 ^ 8 + e) (b := m * 2 ^ 13) 23 (by omega)
  rw [Nat.add_mul, Nat.mul_assoc, show 2 ^ 8 * 2 ^ 23 = 2 ^ 31 from rfl] at this
  rw [this, Nat.add_assoc]

theorem f16BitsToF32_eq_widen {n} (hn : n < 2 ^ 16) :
    f16BitsToF32 n = widen binary16 binary32 n := by
  obtain ⟨hsign, hexponent, hmantissa⟩ := binary16_fields hn
  have hm : binary16.mantissa n < 2 ^ 10 := binary16.mantissa_lt n
  have he : binary16.exponent n ≤ 31 := binary16.exponent_le_top n
  simp only [f16BitsToF32, hsign, hexponent, hmantissa]
  rw [widen_half]
  by_cases hzero : binary16.exponent n = 0
  · have hsig : binary16.significand n = binary16.mantissa n := by
      rw [significand, if_pos hzero]
    have hscale : binary16.scale n = 1 := by rw [scale, hzero]; rfl
    rw [if_pos hzero, if_neg (show ¬ binary16.exponent n = 31 by omega), hsig, hscale]
    by_cases hm0 : binary16.mantissa n = 0
    · rw [if_pos hm0, if_pos hm0, Nat.add_zero]
    · -- a subnormal half: the loop finds the leading bit
      have hlog : Nat.log 2 (binary16.mantissa n) < 10 := Nat.log_lt_of_lt_pow hm0 hm
      rw [if_neg hm0, if_neg hm0, normalizeHalf_eq _ hm0 (by omega) (by omega)]
      set place := Nat.log 2 (binary16.mantissa n) with hplace
      have hlow : 2 ^ 10 ≤ binary16.mantissa n * 2 ^ (10 - place) := by
        calc 2 ^ 10 = 2 ^ place * 2 ^ (10 - place) := by
              rw [← pow_add, Nat.add_sub_cancel' hlog.le]
          _ ≤ _ := Nat.mul_le_mul_right _ (Nat.pow_log_le_self 2 hm0)
      have hhigh : binary16.mantissa n * 2 ^ (10 - place) < 2 ^ 11 := by
        calc _ < 2 ^ (place + 1) * 2 ^ (10 - place) :=
              Nat.mul_lt_mul_of_pos_right (Nat.lt_pow_succ_log_self (by norm_num) _) (by positivity)
          _ = _ := by
              rw [← pow_add]
              congr 1
              omega
      have hand : binary16.mantissa n * 2 ^ (10 - place) &&& 0x3ff =
          binary16.mantissa n * 2 ^ (10 - place) % 2 ^ 10 := and_ones _ 10
      have hmove : binary16.mantissa n * 2 ^ (23 - place) =
          binary16.mantissa n * 2 ^ (10 - place) * 2 ^ 13 := by
        rw [Nat.mul_assoc, ← pow_add]
        congr 2
        omega
      rw [hand, or_fields (by omega) (by omega), hmove,
        show ((-14 : Int) - (10 - place : Nat) + 127).toNat = 103 + place by omega]
      omega
  · have hsig : binary16.significand n = 2 ^ 10 + binary16.mantissa n := by
      rw [significand, if_neg hzero]
      rfl
    have hscale : binary16.scale n = binary16.exponent n := by rw [scale]; omega
    rw [if_neg hzero]
    by_cases htop : binary16.exponent n = 31
    · rw [if_pos htop, if_pos htop]
      exact or_fields (e := 255) (by norm_num) hm
    · have hlog : Nat.log 2 (2 ^ 10 + binary16.mantissa n) = 10 :=
        Nat.log_eq_of_pow_le_of_lt_pow (by omega) (by omega)
      rw [if_neg htop, if_neg htop, hsig, hscale, if_neg (by omega), hlog, or_fields (by omega) hm]
      omega

end Aseman.Capsule
