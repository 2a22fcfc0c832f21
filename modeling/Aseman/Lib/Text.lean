import Mathlib.Tactic

/-!
# Text

The string operations of the source language's standard library that the core library has in
another form: Unicode `trim`, `char::is_control`, `split_once` and the first piece of a `split`.
-/

namespace Aseman.Text

/-- `char::is_whitespace`: the Unicode property `White_Space`. -/
def isWhiteSpace (c : Char) : Bool :=
  let n := c.toNat
  (0x09 ≤ n && n ≤ 0x0d) || n == 0x20 || n == 0x85 || n == 0xa0 || n == 0x1680 ||
    (0x2000 ≤ n && n ≤ 0x200a) || n == 0x2028 || n == 0x2029 || n == 0x202f || n == 0x205f ||
    n == 0x3000

/-- `char::is_control`: the Unicode category `Cc`. -/
def isControl (c : Char) : Bool :=
  let n := c.toNat
  n ≤ 0x1f || (0x7f ≤ n && n ≤ 0x9f)

/-- `str::trim`. -/
def trim (s : String) : String :=
  String.ofList (((s.toList.dropWhile isWhiteSpace).reverse.dropWhile isWhiteSpace).reverse)

/-- `str::to_ascii_lowercase`. -/
def asciiLower (s : String) : String := String.ofList (s.toList.map Char.toLower)

/-- What stands before the first `c`: the first piece of `str::split`. -/
def before (c : Char) (s : String) : String := String.ofList (s.toList.takeWhile (· ≠ c))

/-- `str::split_once`: what stands before and after the first `c`. -/
def splitOnce (s : String) (c : Char) : Option (String × String) :=
  if c ∈ s.toList then
    some (before c s, String.ofList ((s.toList.dropWhile (· ≠ c)).drop 1))
  else none

/-- The first piece of a joined string is the first part, when that has no separator in it. -/
theorem before_append {c a b} (h : c ∉ a.toList) : before c (a ++ String.ofList [c] ++ b) = a := by
  have hall : ∀ x ∈ a.toList, decide (x ≠ c) = true := by
    intro x hx
    simp only [ne_eq, decide_eq_true_eq]
    rintro rfl
    exact h hx
  simp only [before, String.toList_append, String.toList_ofList, List.append_assoc]
  rw [List.takeWhile_append_of_pos hall]
  simp

/-- Joining is injective on first parts without the separator. -/
theorem append_inj_of_notMem {c a b a' b'} (ha : c ∉ a.toList) (ha' : c ∉ a'.toList)
    (h : a ++ String.ofList [c] ++ b = a' ++ String.ofList [c] ++ b') : a = a' ∧ b = b' := by
  have hfst : a = a' := by
    rw [← before_append ha, h, before_append ha']
  subst hfst
  exact ⟨rfl, (String.append_right_inj _).mp h⟩

/-- Splitting at the last occurrence is injective. -/
theorem append_cons_inj_of_notMem {α : Type} {c : α} {l l' m m' : List α} (hm : c ∉ m)
    (hm' : c ∉ m') (h : l ++ c :: m = l' ++ c :: m') : l = l' ∧ m = m' := by
  rcases List.append_eq_append_iff.mp h with ⟨k, rfl, hk⟩ | ⟨k, rfl, hk⟩
  · cases k with
    | nil => simpa using hk
    | cons x k =>
      rw [List.cons_append, List.cons.injEq] at hk
      exact absurd (hk.2 ▸ by simp) hm
  · cases k with
    | nil => simpa [eq_comm] using hk
    | cons x k =>
      rw [List.cons_append, List.cons.injEq] at hk
      exact absurd (hk.2 ▸ by simp) hm'

/-- Splitting at the first occurrence is injective. -/
theorem cons_inj_of_notMem {α : Type} {c : α} {l l' m m' : List α} (hl : c ∉ l) (hl' : c ∉ l')
    (h : l ++ c :: m = l' ++ c :: m') : l = l' ∧ m = m' := by
  have h := congrArg List.reverse h
  simp only [List.reverse_append, List.reverse_cons, List.append_assoc, List.singleton_append] at h
  obtain ⟨hm, hl⟩ := append_cons_inj_of_notMem (by simpa using hl) (by simpa using hl') h
  exact ⟨List.reverse_injective hl, List.reverse_injective hm⟩

/-- Joining by `::` is injective on last parts without a colon. -/
theorem append_colons_inj {a b a' b' : String} (hb : ':' ∉ b.toList) (hb' : ':' ∉ b'.toList)
    (h : a ++ "::" ++ b = a' ++ "::" ++ b') : a = a' ∧ b = b' := by
  have hchars := congrArg String.toList h
  simp only [String.toList_append, show "::".toList = [':', ':'] by decide,
    List.append_assoc, List.cons_append, List.nil_append] at hchars
  rw [List.append_cons, List.append_cons a'.toList] at hchars
  obtain ⟨hfst, hsnd⟩ := append_cons_inj_of_notMem hb hb' hchars
  exact ⟨String.toList_inj.mp (List.append_cancel_right hfst), String.toList_inj.mp hsnd⟩

end Aseman.Text
