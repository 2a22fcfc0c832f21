import Mathlib.Tactic

/-!
# Checked 64-bit arithmetic

`i64::checked_add`, `checked_sub`, `checked_abs` and their saturating forms, over the core type
`Int64`. Every checked operation is characterized by *one* equation between integers: the result
exists exactly when the exact sum fits, and then it is the exact sum. Proofs about amounts
therefore never mention the wrap-around; they work in `ℤ` through `Int64.toInt`.
-/

namespace Aseman

/-- `i64::checked_add`. -/
def checkedAdd (a b : Int64) : Option Int64 :=
  if -2 ^ 63 ≤ a.toInt + b.toInt ∧ a.toInt + b.toInt < 2 ^ 63 then some (a + b) else none

/-- `i64::checked_sub`. -/
def checkedSub (a b : Int64) : Option Int64 :=
  if -2 ^ 63 ≤ a.toInt - b.toInt ∧ a.toInt - b.toInt < 2 ^ 63 then some (a - b) else none

/-- `i64::checked_abs`: fails on `i64::MIN` only. -/
def checkedAbs (a : Int64) : Option Int64 :=
  if a.toInt = -2 ^ 63 then none else if a.toInt < 0 then some (-a) else some a

/-- `i64::saturating_add`. -/
def saturatingAdd (a b : Int64) : Int64 := Int64.ofIntClamp (a.toInt + b.toInt)

/-- `i64::saturating_sub`. -/
def saturatingSub (a b : Int64) : Int64 := Int64.ofIntClamp (a.toInt - b.toInt)

/-! ## Exactness -/

variable {a b : Int64}

theorem toInt_add_of_fits (h₁ : -2 ^ 63 ≤ a.toInt + b.toInt) (h₂ : a.toInt + b.toInt < 2 ^ 63) :
    (a + b).toInt = a.toInt + b.toInt := by
  rw [Int64.toInt_add]
  exact Int.bmod_eq_of_le h₁ h₂

theorem toInt_sub_of_fits (h₁ : -2 ^ 63 ≤ a.toInt - b.toInt) (h₂ : a.toInt - b.toInt < 2 ^ 63) :
    (a - b).toInt = a.toInt - b.toInt := by
  rw [Int64.toInt_sub]
  exact Int.bmod_eq_of_le h₁ h₂

theorem toInt_neg_of_ne (h : a.toInt ≠ -2 ^ 63) : (-a).toInt = -a.toInt := by
  have h₁ := a.le_toInt
  have h₂ := a.toInt_lt
  rw [Int64.toInt_neg]
  exact Int.bmod_eq_of_le (by omega) (by omega)

variable {c : Int64}

/-- A checked sum exists iff the exact sum is an `i64`, and then it is that sum. -/
@[simp] theorem checkedAdd_eq_some : checkedAdd a b = some c ↔ c.toInt = a.toInt + b.toInt := by
  unfold checkedAdd
  constructor
  · intro h
    split at h
    · next hfit =>
      cases h
      exact toInt_add_of_fits hfit.1 hfit.2
    · cases h
  · intro h
    have h₁ := c.le_toInt
    have h₂ := c.toInt_lt
    rw [if_pos (by omega)]
    congr 1
    apply Int64.toInt_inj.mp
    rw [toInt_add_of_fits (by omega) (by omega), h]

@[simp] theorem checkedSub_eq_some : checkedSub a b = some c ↔ c.toInt = a.toInt - b.toInt := by
  unfold checkedSub
  constructor
  · intro h
    split at h
    · next hfit =>
      cases h
      exact toInt_sub_of_fits hfit.1 hfit.2
    · cases h
  · intro h
    have h₁ := c.le_toInt
    have h₂ := c.toInt_lt
    rw [if_pos (by omega)]
    congr 1
    apply Int64.toInt_inj.mp
    rw [toInt_sub_of_fits (by omega) (by omega), h]

@[simp] theorem checkedAbs_eq_some : checkedAbs a = some c ↔ c.toInt = |a.toInt| := by
  have hc := c.toInt_lt
  unfold checkedAbs
  split
  · next hmin =>
    simp only [reduceCtorEq, false_iff]
    rw [hmin, abs_of_neg (by norm_num)]
    omega
  · next hmin =>
    split
    · next hneg =>
      rw [Option.some.injEq, ← Int64.toInt_inj, toInt_neg_of_ne hmin, abs_of_neg hneg, eq_comm]
    · next hpos =>
      rw [Option.some.injEq, ← Int64.toInt_inj, abs_of_nonneg (by omega), eq_comm]

/-! ## Existence -/

theorem exists_checkedAdd (h₁ : -2 ^ 63 ≤ a.toInt + b.toInt) (h₂ : a.toInt + b.toInt < 2 ^ 63) :
    ∃ c, checkedAdd a b = some c ∧ c.toInt = a.toInt + b.toInt :=
  ⟨a + b, by simp [toInt_add_of_fits h₁ h₂], toInt_add_of_fits h₁ h₂⟩

theorem exists_checkedSub (h₁ : -2 ^ 63 ≤ a.toInt - b.toInt) (h₂ : a.toInt - b.toInt < 2 ^ 63) :
    ∃ c, checkedSub a b = some c ∧ c.toInt = a.toInt - b.toInt :=
  ⟨a - b, by simp [toInt_sub_of_fits h₁ h₂], toInt_sub_of_fits h₁ h₂⟩

/-! ## Saturation -/

theorem toInt_saturatingSub_of_fits (h₁ : -2 ^ 63 ≤ a.toInt - b.toInt)
    (h₂ : a.toInt - b.toInt < 2 ^ 63) : (saturatingSub a b).toInt = a.toInt - b.toInt :=
  Int64.toInt_ofIntClamp h₁ (by rw [Int64.toInt_maxValue]; omega)

/-- Saturating addition of nonnegative amounts is the sum, cut off at `i64::MAX`. -/
theorem toInt_saturatingAdd_of_nonneg (ha : 0 ≤ a.toInt) (hb : 0 ≤ b.toInt) :
    (saturatingAdd a b).toInt = min (a.toInt + b.toInt) (2 ^ 63 - 1) := by
  unfold saturatingAdd Int64.ofIntClamp
  have hmin := Int64.toInt_minValue
  have hmax := Int64.toInt_maxValue
  split
  · split
    · rw [Int64.toInt_ofIntLE]
      omega
    · omega
  · omega

/-- An addition that sticks at the largest value is the saturating one. -/
theorem getD_checkedAdd_maxValue (ha : 0 ≤ a.toInt) (hb : 0 ≤ b.toInt) :
    (checkedAdd a b).getD Int64.maxValue = saturatingAdd a b := by
  refine Int64.toInt_inj.mp ?_
  rw [toInt_saturatingAdd_of_nonneg ha hb]
  have hmax := Int64.toInt_maxValue
  cases h : checkedAdd a b with
  | none =>
    have hover : ¬ a.toInt + b.toInt < 2 ^ 63 := fun hfits => by
      obtain ⟨c, hc, -⟩ := exists_checkedAdd (by omega) hfits
      simp [hc] at h
    rw [Option.getD_none]
    omega
  | some c =>
    have hc := checkedAdd_eq_some.mp h
    have hlt := c.toInt_lt
    rw [Option.getD_some]
    omega

@[simp] theorem saturatingAdd_zero (a : Int64) : saturatingAdd a 0 = a := by
  simp [saturatingAdd]

/-- A saturating sum of nonnegative amounts is their sum, cut off at `i64::MAX`. -/
theorem toInt_foldl_saturatingAdd {α : Type*} (f : α → Int64) {l : List α}
    (hl : ∀ x ∈ l, 0 ≤ (f x).toInt) {acc : Int64} (hacc : 0 ≤ acc.toInt) :
    (l.foldl (fun acc x => saturatingAdd acc (f x)) acc).toInt =
      min (acc.toInt + (l.map fun x => (f x).toInt).sum) (2 ^ 63 - 1) := by
  induction l generalizing acc with
  | nil =>
    have := acc.toInt_lt
    simp only [List.foldl_nil, List.map_nil, List.sum_nil]
    omega
  | cons x l ih =>
    simp only [List.mem_cons, forall_eq_or_imp] at hl
    have hsum : 0 ≤ (l.map fun x => (f x).toInt).sum := List.sum_nonneg (by simpa using hl.2)
    have hx := toInt_saturatingAdd_of_nonneg hacc hl.1
    rw [List.foldl_cons, ih hl.2 (by omega), List.map_cons, List.sum_cons]
    omega

/-! ## Order and literals -/

theorem toInt_min (a b : Int64) : (min a b).toInt = min a.toInt b.toInt := by
  rw [show min a b = if a ≤ b then a else b from rfl]
  split
  · next h => rw [min_eq_left (Int64.le_iff_toInt_le.mp h)]
  · next h =>
    rw [Int64.le_iff_toInt_le] at h
    omega

theorem toInt_max (a b : Int64) : (max a b).toInt = max a.toInt b.toInt := by
  rw [show max a b = if a ≤ b then b else a from rfl]
  split
  · next h => rw [max_eq_right (Int64.le_iff_toInt_le.mp h)]
  · next h =>
    rw [Int64.le_iff_toInt_le] at h
    omega

/-! ## Guards -/

theorem not_lt_iff_toInt : ¬ a < b ↔ b.toInt ≤ a.toInt := by
  rw [Int64.not_lt, Int64.le_iff_toInt_le]

theorem not_le_iff_toInt : ¬ a ≤ b ↔ b.toInt < a.toInt := by
  rw [Int64.not_le, Int64.lt_iff_toInt_lt]

theorem not_neg_iff_toInt : ¬ a < 0 ↔ 0 ≤ a.toInt := not_lt_iff_toInt

theorem not_nonpos_iff_toInt : ¬ a ≤ 0 ↔ 0 < a.toInt := not_le_iff_toInt

end Aseman
