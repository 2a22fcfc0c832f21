import Mathlib.Data.Nat.Log
import Mathlib.Tactic

/-!
# Binary floating-point formats

The interchange formats of IEEE 754 on their bit patterns: fields, comparison, the exact conversion
to a wider format and the conversion to a narrower one, which rounds to nearest, ties to even. The
fact that a program relies on when it stores a number in the narrowest format that holds it is
`narrow_widen`: narrowing undoes widening.
-/

namespace Aseman.Ieee

/-- A binary format: a sign bit, then an exponent field and a mantissa field. -/
structure Format where
  exponentBits : Nat
  mantissaBits : Nat

open Format

def binary16 : Format := ⟨5, 10⟩
def binary32 : Format := ⟨8, 23⟩
def binary64 : Format := ⟨11, 52⟩

namespace Format

variable (F : Format)

/-- The exponent field of infinities and NaNs. -/
def top : Nat := 2 ^ F.exponentBits - 1

def bias : Nat := 2 ^ (F.exponentBits - 1) - 1

/-- The sign bit's place: the patterns below are those of the numbers that are not negative. -/
def signBit : Nat := 2 ^ (F.exponentBits + F.mantissaBits)

variable (n : Nat)

def sign : Nat := n / F.signBit

def exponent : Nat := n % F.signBit / 2 ^ F.mantissaBits

def mantissa : Nat := n % 2 ^ F.mantissaBits

/-- The exponent field a number is computed with: a subnormal number has that of the smallest
normal ones. -/
def scale : Nat := max (F.exponent n) 1

/-- The significand, with the leading bit that a normal number's mantissa field leaves out. -/
def significand : Nat :=
  if F.exponent n = 0 then F.mantissa n else 2 ^ F.mantissaBits + F.mantissa n

/-- Neither infinite nor a NaN. -/
def IsFinite : Prop := F.exponent n ≠ F.top

instance (n : Nat) : Decidable (F.IsFinite n) := inferInstanceAs (Decidable (_ ≠ _))

def IsNan : Prop := F.exponent n = F.top ∧ F.mantissa n ≠ 0

instance (n : Nat) : Decidable (F.IsNan n) := inferInstanceAs (Decidable (_ ∧ _))

/-- The comparison `==`: no NaN is equal to anything, and the two zeros are equal. -/
def Equal (a b : Nat) : Prop :=
  ¬ F.IsNan a ∧ ¬ F.IsNan b ∧ (a = b ∨ a % F.signBit = 0 ∧ b % F.signBit = 0)

instance (a b : Nat) : Decidable (F.Equal a b) := inferInstanceAs (Decidable (_ ∧ _ ∧ _))

theorem IsFinite.not_isNan {F : Format} {n : Nat} (h : F.IsFinite n) : ¬ F.IsNan n :=
  fun hnan => h hnan.1

theorem IsFinite.equal_self {F : Format} {n : Nat} (h : F.IsFinite n) : F.Equal n n :=
  ⟨h.not_isNan, h.not_isNan, Or.inl rfl⟩

end Format

/-- `n / 2 ^ shift`, rounded to nearest, ties to even. -/
def roundShift (n shift : Nat) : Nat :=
  let quotient := n / 2 ^ shift
  let twice := 2 * (n % 2 ^ shift)
  if 2 ^ shift < twice ∨ twice = 2 ^ shift ∧ quotient % 2 = 1 then quotient + 1 else quotient

/-- Where a number that is not a NaN stands in the order of the format: the patterns of the numbers
that are not negative rise with them, those of the others fall. -/
def Format.rank (F : Format) (n : Nat) : Int := if n < F.signBit then n else F.signBit - n

/-- `partial_cmp`: a NaN is not comparable. -/
def Format.compare (F : Format) (a b : Nat) : Option Ordering :=
  if F.IsNan a ∨ F.IsNan b then none else some (Ord.compare (F.rank a) (F.rank b))

/-- The number next to `m`, ties to even. The leading bit of the significand is added to the exponent
field, and so is the carry of a significand that is rounded up to the next power of two. -/
def Format.ofNat (F : Format) (m : Nat) : Nat :=
  if m = 0 then 0
  else
    let e := Nat.log2 m
    (e + F.bias - 1) * 2 ^ F.mantissaBits +
      if e ≤ F.mantissaBits then m * 2 ^ (F.mantissaBits - e) else roundShift m (e - F.mantissaBits)

/-- `as f64` of an integer. -/
def Format.ofInt (F : Format) (n : Int) : Nat :=
  if n < 0 then F.signBit + F.ofNat n.natAbs else F.ofNat n.natAbs

/-- The exact conversion from `F` to the wider `G`. A subnormal number of `F` is normal in `G`: its
leading bit, at place `Nat.log 2` of its significand, is moved up to the place `G` leaves out. -/
def widen (F G : Format) (n : Nat) : Nat :=
  F.sign n * G.signBit + if F.exponent n = F.top then
      G.top * 2 ^ G.mantissaBits + F.mantissa n * 2 ^ (G.mantissaBits - F.mantissaBits)
    else if F.significand n = 0 then 0
    else
      let place := Nat.log 2 (F.significand n)
      (F.scale n + (G.bias - F.bias) - (F.mantissaBits - place) - 1) * 2 ^ G.mantissaBits +
        F.significand n * 2 ^ (G.mantissaBits - place)

/-- The conversion from `G` to the narrower `F`: a carry of the rounding goes into the exponent
field, and what is too large becomes infinite. -/
def narrow (F G : Format) (n : Nat) : Nat :=
  G.sign n * F.signBit + if G.IsNan n then F.top * 2 ^ F.mantissaBits + 2 ^ (F.mantissaBits - 1)
    else
      min (F.top * 2 ^ F.mantissaBits)
        ((G.scale n - (G.bias - F.bias + 1)) * 2 ^ F.mantissaBits + roundShift (G.significand n)
            (G.mantissaBits - F.mantissaBits + (G.bias - F.bias + 1 - G.scale n)))

/-! ## Narrowing undoes widening -/

theorem roundShift_mul (n shift : Nat) : roundShift (n * 2 ^ shift) shift = n := by
  have hpos : 0 < 2 ^ shift := by positivity
  simp [roundShift, Nat.mul_div_cancel _ hpos]
  omega

namespace Format

variable {F G : Format}

theorem signBit_eq (F : Format) : F.signBit = 2 ^ F.exponentBits * 2 ^ F.mantissaBits :=
  pow_add 2 _ _

theorem mantissa_lt (F : Format) (n : Nat) : F.mantissa n < 2 ^ F.mantissaBits :=
  Nat.mod_lt _ (by positivity)

theorem exponent_le_top (F : Format) (n : Nat) : F.exponent n ≤ F.top := by
  have hlt : F.exponent n < 2 ^ F.exponentBits := by
    rw [exponent, Nat.div_lt_iff_lt_mul (by positivity), ← signBit_eq]
    exact Nat.mod_lt _ (by rw [signBit]; positivity)
  rw [top]
  omega

/-- A pattern is its sign, its scale and its significand: the leading bit that the mantissa field
leaves out is the lowest bit of the exponent field. -/
theorem eq_sign_scale_significand (F : Format) (n : Nat) :
    n = F.sign n * F.signBit + ((F.scale n - 1) * 2 ^ F.mantissaBits + F.significand n) := by
  have hmantissa : F.mantissa n = n % F.signBit % 2 ^ F.mantissaBits := by
    rw [mantissa, Nat.mod_mod_of_dvd _ (signBit_eq F ▸ Nat.dvd_mul_left _ _)]
  have hlow : n % F.signBit = F.exponent n * 2 ^ F.mantissaBits + F.mantissa n := by
    rw [hmantissa, exponent, Nat.div_add_mod']
  have hn : n = F.sign n * F.signBit + n % F.signBit := (Nat.div_add_mod' n F.signBit).symm
  conv_lhs => rw [hn, hlow]
  rw [scale, significand]
  split
  · next h => simp [h]
  · next h =>
    obtain ⟨e, he⟩ := Nat.exists_eq_succ_of_ne_zero h
    rw [he, Nat.max_eq_left (by omega), Nat.succ_sub_one, Nat.succ_mul]
    omega

/-- The fields of a pattern put together from a sign, an exponent field and a mantissa. -/
theorem fields_of_eq {s e m n} (hm : m < 2 ^ F.mantissaBits) (he : e ≤ F.top)
    (hn : n = s * F.signBit + (e * 2 ^ F.mantissaBits + m)) :
    F.sign n = s ∧ F.exponent n = e ∧ F.mantissa n = m := by
  have hpos : 0 < F.signBit := by rw [signBit]; positivity
  have hlow : e * 2 ^ F.mantissaBits + m < F.signBit := by
    rw [signBit_eq]
    have htop : e + 1 ≤ 2 ^ F.exponentBits := by
      have : 0 < 2 ^ F.exponentBits := by positivity
      rw [top] at he
      omega
    calc e * 2 ^ F.mantissaBits + m < (e + 1) * 2 ^ F.mantissaBits := by rw [Nat.succ_mul]; omega
      _ ≤ _ := Nat.mul_le_mul_right _ htop
  have hmod : n % F.signBit = e * 2 ^ F.mantissaBits + m := by
    rw [hn, Nat.mul_add_mod', Nat.mod_eq_of_lt hlow]
  refine ⟨?_, ?_, ?_⟩
  · rw [sign, hn, Nat.add_comm, Nat.add_mul_div_right _ _ hpos, Nat.div_eq_of_lt hlow, Nat.zero_add]
  · rw [exponent, hmod, Nat.add_comm, Nat.add_mul_div_right _ _ (by positivity),
      Nat.div_eq_of_lt hm, Nat.zero_add]
  · rw [mantissa, ← Nat.mod_mod_of_dvd n (signBit_eq F ▸ Nat.dvd_mul_left _ _), hmod,
      Nat.mul_add_mod', Nat.mod_eq_of_lt hm]

/-- Every number of `F` is a number of `G`, and one that is subnormal in `F` is normal in `G`. -/
structure Within (F G : Format) : Prop where
  mantissa : F.mantissaBits ≤ G.mantissaBits
  subnormal : F.mantissaBits ≤ G.bias - F.bias
  range : F.top + (G.bias - F.bias) ≤ G.top

theorem binary16_within : binary16.Within binary32 := by constructor <;> decide

theorem binary32_within : binary32.Within binary64 := by constructor <;> decide

theorem significand_lt (F : Format) (n : Nat) : F.significand n < 2 ^ (F.mantissaBits + 1) := by
  have := F.mantissa_lt n
  rw [significand]
  split <;> omega

/-- A finite number's scale and significand stay below those of the infinities. -/
theorem IsFinite.lt_top {n} (h : F.IsFinite n) :
    (F.scale n - 1) * 2 ^ F.mantissaBits + F.significand n ≤ F.top * 2 ^ F.mantissaBits := by
  have hle : F.exponent n + 1 ≤ F.top := Nat.lt_of_le_of_ne (F.exponent_le_top n) h
  have hmantissa := F.mantissa_lt n
  have hmul := Nat.mul_le_mul_right (2 ^ F.mantissaBits) hle
  rw [scale, significand]
  split
  · next h0 =>
    rw [h0] at hmul
    simp [h0]
    omega
  · next h0 =>
    obtain ⟨e, he⟩ := Nat.exists_eq_succ_of_ne_zero h0
    rw [he, Nat.add_mul, Nat.succ_mul] at hmul
    rw [he, Nat.max_eq_left (by omega), Nat.succ_sub_one]
    omega

theorem scale_of_significand_eq_zero {n} (h : F.significand n = 0) : F.scale n = 1 := by
  have hpos : 0 < 2 ^ F.mantissaBits := by positivity
  rw [significand] at h
  split at h
  · next h0 => simp [scale, h0]
  · omega

/-- A significand fills its places, but for that of a subnormal number. -/
theorem log_significand {n} (h : F.IsFinite n) (hzero : F.significand n ≠ 0) :
    Nat.log 2 (F.significand n) = F.mantissaBits ∧ F.scale n < F.top ∨
      Nat.log 2 (F.significand n) < F.mantissaBits ∧ F.scale n = 1 ∧ 1 ≤ F.top := by
  have hle : F.exponent n < F.top := Nat.lt_of_le_of_ne (F.exponent_le_top n) h
  have hmantissa := F.mantissa_lt n
  rw [scale]
  by_cases h0 : F.exponent n = 0
  · right
    rw [significand, if_pos h0] at hzero ⊢
    exact ⟨Nat.log_lt_of_lt_pow hzero hmantissa, by rw [h0]; rfl, by omega⟩
  · left
    rw [significand, if_neg h0]
    refine ⟨Nat.log_eq_of_pow_le_of_lt_pow (Nat.le_add_right _ _) ?_, by omega⟩
    omega

end Format

section Widen

variable {F G : Format} (hFG : F.Within G) {n : Nat} (h : F.IsFinite n)
include hFG h

/-- The widened pattern of a finite number that is not zero, by its fields. -/
theorem widen_fields (hzero : F.significand n ≠ 0) : G.sign (widen F G n) = F.sign n ∧
      G.exponent (widen F G n) =
        F.scale n + (G.bias - F.bias) - (F.mantissaBits - Nat.log 2 (F.significand n)) ∧
      G.significand (widen F G n) =
        F.significand n * 2 ^ (G.mantissaBits - Nat.log 2 (F.significand n)) := by
  obtain ⟨hmantissa, hsubnormal, hrange⟩ := hFG
  have hlog := F.log_significand h hzero
  set place := Nat.log 2 (F.significand n) with hplace
  have hplace_le : place ≤ G.mantissaBits := by omega
  have hscale : 1 ≤ F.scale n := le_max_right _ _
  -- the significand fills the places of the wider format
  have hlow : 2 ^ G.mantissaBits ≤ F.significand n * 2 ^ (G.mantissaBits - place) := by
    calc 2 ^ G.mantissaBits = 2 ^ place * 2 ^ (G.mantissaBits - place) := by
          rw [← pow_add, Nat.add_sub_cancel' hplace_le]
      _ ≤ _ := Nat.mul_le_mul_right _ (Nat.pow_log_le_self 2 hzero)
  have hhigh : F.significand n * 2 ^ (G.mantissaBits - place) < 2 ^ G.mantissaBits * 2 := by
    calc _ < 2 ^ (place + 1) * 2 ^ (G.mantissaBits - place) :=
          Nat.mul_lt_mul_of_pos_right (Nat.lt_pow_succ_log_self (by norm_num) _) (by positivity)
      _ = _ := by
          rw [← pow_add, ← pow_succ]
          congr 1
          omega
  obtain ⟨m, hm⟩ := Nat.exists_eq_add_of_le hlow
  obtain ⟨e, he⟩ : ∃ e, F.scale n + (G.bias - F.bias) - (F.mantissaBits - place) = e + 1 :=
    ⟨_, (Nat.succ_pred_eq_of_pos (by omega)).symm⟩
  have hwiden : widen F G n = F.sign n * G.signBit + ((e + 1) * 2 ^ G.mantissaBits + m) := by
    simp only [widen, if_neg (show ¬ F.exponent n = F.top from h), if_neg hzero, ← hplace, he, hm]
    rw [Nat.add_sub_cancel, Nat.succ_mul]
    omega
  obtain ⟨hs, hexp, hman⟩ := G.fields_of_eq (by omega) (by omega) hwiden
  refine ⟨hs, by rw [hexp, he], ?_⟩
  rw [significand, if_neg (by omega), hman, hm]

omit hFG in
theorem widen_zero_fields (hzero : F.significand n = 0) :
    G.sign (widen F G n) = F.sign n ∧ G.exponent (widen F G n) = 0 ∧
      G.mantissa (widen F G n) = 0 := by
  refine G.fields_of_eq (by positivity) (Nat.zero_le _) ?_
  simp [widen, if_neg (show ¬ F.exponent n = F.top from h), hzero]

/-- **Narrowing undoes widening.** -/
theorem narrow_widen : narrow F G (widen F G n) = n := by
  by_cases hzero : F.significand n = 0
  · obtain ⟨hs, he, hm⟩ := widen_zero_fields (G := G) h hzero
    have hscale : F.scale n = 1 := F.scale_of_significand_eq_zero hzero
    conv_rhs => rw [F.eq_sign_scale_significand n, hzero, hscale]
    simp [narrow, IsNan, scale, significand, hs, he, hm, roundShift]
  · obtain ⟨hs, he, hsig⟩ := widen_fields hFG h hzero
    obtain ⟨hmantissa, hsubnormal, hrange⟩ := hFG
    have hlog := F.log_significand h hzero
    have hscale : 1 ≤ F.scale n := le_max_right _ _
    have hnan : ¬ G.IsNan (widen F G n) := by
      rintro ⟨htop, -⟩
      omega
    have hscale' : G.scale (widen F G n) = G.exponent (widen F G n) := by
      rw [scale]
      omega
    rw [narrow, if_neg hnan, hs, hsig, hscale']
    have hshift : G.mantissaBits - F.mantissaBits +
          (G.bias - F.bias + 1 - G.exponent (widen F G n)) =
        G.mantissaBits - Nat.log 2 (F.significand n) := by
      omega
    have hexp : G.exponent (widen F G n) - (G.bias - F.bias + 1) = F.scale n - 1 := by
      omega
    rw [hshift, roundShift_mul, hexp, Nat.min_eq_right h.lt_top]
    exact (F.eq_sign_scale_significand n).symm

end Widen

/-- Widening keeps the sign, and gives a finite number just when it is given one. -/
theorem widen_sign {F G : Format} (hFG : F.Within G) (n : Nat) :
    G.sign (widen F G n) = F.sign n ∧ (G.IsFinite (widen F G n) ↔ F.IsFinite n) := by
  by_cases h : F.IsFinite n
  · have htop : F.exponent n < F.top := Nat.lt_of_le_of_ne (F.exponent_le_top n) h
    have hrange := hFG.range
    by_cases hzero : F.significand n = 0
    · obtain ⟨hs, he, -⟩ := widen_zero_fields h hzero
      refine ⟨hs, iff_of_true ?_ h⟩
      rw [IsFinite]
      omega
    · obtain ⟨hs, he, -⟩ := widen_fields hFG h hzero
      have hlog := F.log_significand h hzero
      refine ⟨hs, iff_of_true ?_ h⟩
      rw [IsFinite]
      omega
  · have hmantissa : F.mantissa n * 2 ^ (G.mantissaBits - F.mantissaBits) < 2 ^ G.mantissaBits := by
      calc _ < 2 ^ F.mantissaBits * 2 ^ (G.mantissaBits - F.mantissaBits) :=
            Nat.mul_lt_mul_of_pos_right (F.mantissa_lt n) (by positivity)
        _ = _ := by rw [← pow_add, Nat.add_sub_cancel' hFG.mantissa]
    have hwiden : widen F G n = F.sign n * G.signBit + (G.top * 2 ^ G.mantissaBits +
        F.mantissa n * 2 ^ (G.mantissaBits - F.mantissaBits)) := by
      rw [widen, if_pos (not_ne_iff.mp h)]
    obtain ⟨hs, he, -⟩ := G.fields_of_eq hmantissa le_rfl hwiden
    exact ⟨hs, iff_of_false (not_not.mpr he) h⟩

/-- A widened pattern fits the wider format. -/
theorem widen_lt {F G : Format} (hFG : F.Within G) {n : Nat} (h : n < 2 * F.signBit) :
    widen F G n < 2 * G.signBit := by
  have hsign := (widen_sign hFG n).1
  rw [sign, sign] at hsign
  rw [← Nat.div_lt_iff_lt_mul (by rw [signBit]; positivity)] at h ⊢
  omega

end Aseman.Ieee
