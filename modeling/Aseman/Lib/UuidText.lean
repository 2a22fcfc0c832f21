import Aseman.Lib.Hex
import Mathlib.Data.List.OfFn

/-!
# The text of a UUID

The hyphenated form, in lower case: 32 hexadecimal digits in groups of 8, 4, 4, 4 and 12. It has no other
characters, and it tells which UUID it is of.
-/

namespace Aseman

variable (u : Fin (2 ^ 128))

/-- The hexadecimal digits of a 128-bit number, the highest first. -/
def uuidDigits : List Char :=
  List.ofFn fun i : Fin 32 => Hex.digit 'a' (u.val / 16 ^ (31 - i.val) % 16)

/-- `Uuid::to_string`. -/
def uuidText : String :=
  let digits := uuidDigits u
  String.ofList (digits.take 8 ++ '-' :: (digits.drop 8).take 4 ++ '-' :: (digits.drop 12).take 4 ++
    '-' :: (digits.drop 16).take 4 ++ '-' :: digits.drop 20)

/-- Numbers below `16 ^ k` with the same `k` digits are the same. -/
theorem eq_of_hexDigits {k m n} (hm : m < 16 ^ k) (hn : n < 16 ^ k)
    (h : ∀ i < k, m / 16 ^ i % 16 = n / 16 ^ i % 16) : m = n := by
  induction k generalizing m n with
  | zero => omega
  | succ k ih =>
    have hlow : m % 16 = n % 16 := by simpa using h 0 (Nat.succ_pos k)
    have hhigh : m / 16 = n / 16 := by
      refine ih (by omega) (by omega) fun i hi => ?_
      rw [Nat.div_div_eq_div_mul, Nat.div_div_eq_div_mul, ← pow_succ']
      exact h (i + 1) (Nat.succ_lt_succ hi)
    omega

theorem uuidDigits_injective : Function.Injective uuidDigits := by
  intro u v h
  have hfun := List.ofFn_injective h
  refine Fin.ext (eq_of_hexDigits (k := 32) (by omega) (by omega)
    fun i hi => ?_)
  have hdigit := congrFun hfun ⟨31 - i, by omega⟩
  have hi' : 31 - (31 - i) = i := by omega
  simp only [hi'] at hdigit
  exact Hex.digit_lower_inj _ (Nat.mod_lt _ (by decide)) _ (Nat.mod_lt _ (by decide)) hdigit

theorem digit_ne_hyphen : ∀ n < 16, Hex.digit 'a' n ≠ '-' ∧ Hex.digit 'a' n ≠ ':' := by decide

theorem mem_uuidDigits {u c} (h : c ∈ uuidDigits u) : c ≠ '-' ∧ c ≠ ':' := by
  obtain ⟨i, rfl⟩ := (List.mem_ofFn' _ _).mp h
  exact digit_ne_hyphen _ (Nat.mod_lt _ (by decide))

/-- Without its hyphens a text is its digits. -/
theorem filter_uuidText : (uuidText u).toList.filter (· ≠ '-') = uuidDigits u := by
  have hkeep : ∀ l : List Char, (∀ c ∈ l, c ∈ uuidDigits u) → l.filter (· ≠ '-') = l := by
    intro l hl
    exact List.filter_eq_self.mpr fun c hc => by simpa using (mem_uuidDigits (hl c hc)).1
  have hsplit : uuidDigits u = (uuidDigits u).take 8 ++ ((uuidDigits u).drop 8).take 4 ++
      ((uuidDigits u).drop 12).take 4 ++ ((uuidDigits u).drop 16).take 4 ++ (uuidDigits u).drop 20 := by
    have hdrop : ∀ n k, (uuidDigits u).drop n =
        ((uuidDigits u).drop n).take k ++ (uuidDigits u).drop (n + k) := by
      intro n k
      rw [← List.drop_drop, List.take_append_drop]
    conv_lhs => rw [← List.take_append_drop 8 (uuidDigits u), hdrop 8 4, hdrop 12 4, hdrop 16 4]
    simp only [List.append_assoc]
  simp only [uuidText, String.toList_ofList, List.filter_append, ne_eq, decide_not,
    List.filter_cons, decide_true, Bool.not_true, Bool.false_eq_true, if_false]
  simp only [ne_eq, decide_not] at hkeep
  rw [hkeep _ fun c hc => List.mem_of_mem_take hc,
    hkeep _ fun c hc => List.mem_of_mem_drop (List.mem_of_mem_take hc),
    hkeep _ fun c hc => List.mem_of_mem_drop (List.mem_of_mem_take hc),
    hkeep _ fun c hc => List.mem_of_mem_drop (List.mem_of_mem_take hc),
    hkeep _ fun c hc => List.mem_of_mem_drop hc, ← hsplit]

theorem uuidText_injective : Function.Injective uuidText := by
  intro u v h
  apply uuidDigits_injective
  rw [← filter_uuidText, h, filter_uuidText]

theorem length_uuidText : (uuidText u).toList.length = 36 := by
  have hdigits : (uuidDigits u).length = 32 := List.length_ofFn
  simp [uuidText, hdigits]

theorem colon_notMem_uuidText : ':' ∉ (uuidText u).toList := by
  intro h
  have hfilter : ':' ∈ uuidDigits u := by
    rw [← filter_uuidText]
    exact List.mem_filter.mpr ⟨h, by decide⟩
  exact (mem_uuidDigits hfilter).2 rfl

end Aseman
