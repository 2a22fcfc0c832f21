import Aseman.Lib.Checked
import Aseman.Lib.Store
import Mathlib.Algebra.BigOperators.Finsupp.Basic
import Mathlib.Data.Finsupp.Basic

/-!
# Books

A book says what stands on every account; only finitely many accounts stand at a nonzero amount.
A movement of value is a sum of postings, each on one account, and the effect of an operation is
that its postings are *added* to the book. Everything one asks of a book is additive: what stands
on one account, and the total over all accounts with a weight for each. So the totals after a
movement are the totals before plus the totals of the postings, whatever the accounts are.

A store of `i64` amounts is a book, and adding to one of its amounts is a posting.
-/

namespace Aseman

variable {A B : Type*}

/-- What stands on every account. -/
abbrev Book (A : Type*) := A →₀ ℤ

namespace Book

noncomputable def post (a : A) (x : ℤ) : Book A := Finsupp.single a x

/-- The total over all accounts, each counted with its weight. -/
noncomputable def total (w : A → ℤ) : Book A →+ ℤ :=
  Finsupp.liftAddHom fun a => AddMonoidHom.mulLeft (w a)

@[simp] theorem post_zero (a : A) : post a 0 = 0 := Finsupp.single_zero a

theorem post_apply [DecidableEq A] (a a' : A) (x : ℤ) : post a x a' = if a = a' then x else 0 :=
  Finsupp.single_apply

@[simp] theorem total_post (w : A → ℤ) (a : A) (x : ℤ) : total w (post a x) = w a * x := by
  simp [total, post]

/-- The total is the weighted sum over any finite set that holds every account in use. -/
theorem total_eq_sum (w : A → ℤ) (b : Book A) (s : Finset A) (hs : b.support ⊆ s) :
    total w b = ∑ a ∈ s, w a * b a := by
  exact Finsupp.sum_of_support_subset b hs _ (fun a _ => map_zero _)

/-- What stands on one account is a total. -/
theorem total_ite [DecidableEq A] (a : A) (b : Book A) :
    total (fun a' => if a' = a then 1 else 0) b = b a := by
  induction b using Finsupp.induction_linear with
  | zero => simp
  | add b b' hb hb' => rw [map_add, hb, hb', Finsupp.add_apply]
  | single a' x =>
    rw [show Finsupp.single a' x = post a' x from rfl, total_post, post_apply]
    split <;> simp

/-! ## The postings of a list of rows -/

/-- The postings of a list of rows, each row on one account. -/
noncomputable def ofRows (key : B → A) (amount : B → ℤ) (rows : List B) : Book A :=
  (rows.map fun b => post (key b) (amount b)).sum

variable (key : B → A) (amount : B → ℤ)

@[simp] theorem ofRows_nil : ofRows key amount [] = 0 := rfl

@[simp] theorem ofRows_cons (b : B) (rows : List B) :
    ofRows key amount (b :: rows) = post (key b) (amount b) + ofRows key amount rows := by
  simp [ofRows]

@[simp] theorem ofRows_append (rows rows' : List B) :
    ofRows key amount (rows ++ rows') = ofRows key amount rows + ofRows key amount rows' := by
  simp [ofRows]

theorem ofRows_apply [DecidableEq A] (rows : List B) (a : A) :
    ofRows key amount rows a = (rows.map fun b => if key b = a then amount b else 0).sum := by
  induction rows with
  | nil => rfl
  | cons b rows ih => simp [ih, post_apply]

theorem total_ofRows (w : A → ℤ) (rows : List B) :
    total w (ofRows key amount rows) = (rows.map fun b => w (key b) * amount b).sum := by
  induction rows with
  | nil => simp
  | cons b rows ih => simp [ih]

theorem ofRows_perm {rows rows'} (h : rows.Perm rows') :
    ofRows key amount rows = ofRows key amount rows' :=
  (h.map _).sum_eq

theorem ofRows_nonneg [DecidableEq A] {rows} (h : ∀ b ∈ rows, 0 ≤ amount b) (a : A) :
    0 ≤ ofRows key amount rows a := by
  rw [ofRows_apply]
  apply List.sum_nonneg
  intro x hx
  obtain ⟨b, hb, rfl⟩ := List.mem_map.mp hx
  split
  · exact h b hb
  · exact le_rfl

end Book

/-! ## Stores of amounts -/

namespace Store

variable {κ : Type*} [DecidableEq κ] (m : Store κ Int64)

/-- The amount at a key; an absent one is zero. -/
def value (k : κ) : ℤ := ((m.get k).getD 0).toInt

theorem value_put (k k' : κ) (x : Int64) :
    (m.put k x).value k' = if k' = k then x.toInt else m.value k' := by
  rw [value, get_put]
  split <;> rfl

noncomputable def book : Book κ := Finsupp.onFinset m.keys.toFinset m.value fun k h => by
    rw [List.mem_toFinset, mem_keys_iff]
    by_contra hnone
    apply h
    simp only [Bool.not_eq_true, Option.isSome_eq_false_iff, Option.isNone_iff_eq_none] at hnone
    simp [value, hnone]

@[simp] theorem book_apply (k : κ) : m.book k = m.value k := rfl

@[simp] theorem book_empty : (∅ : Store κ Int64).book = 0 := by
  ext k
  simp [value]

/-- **Adding to one amount** of a store is a posting. -/
theorem book_put {m : Store κ Int64} {k : κ} {x : Int64} {d : ℤ} (h : x.toInt = m.value k + d) :
    (m.put k x).book = m.book + Book.post k d := by
  ext k'
  rw [Finsupp.add_apply, Book.post_apply, book_apply, value_put]
  by_cases hk : k' = k
  · subst hk
    simp [h]
  · simp [hk, Ne.symm hk]

theorem book_put_of_checkedAdd {m : Store κ Int64} {k : κ} {x y : Int64}
    (h : checkedAdd ((m.get k).getD 0) x = some y) :
    (m.put k y).book = m.book + Book.post k x.toInt :=
  book_put (by rw [checkedAdd_eq_some.mp h, value])

theorem total_book (w : κ → ℤ) (m : Store κ Int64) :
    Book.total w m.book = m.sumBy fun k x => w k * x.toInt := by
  rw [Book.total_eq_sum w m.book m.keys.toFinset Finsupp.support_onFinset_subset,
    List.sum_toFinset _ m.nodup_keys, ← map_fst_toList, List.map_map]
  congr 1
  apply List.map_congr_left
  rintro ⟨k, x⟩ he
  simp [value, mem_toList_iff.mp he]

/-- The book of a store is made of the postings of its records. -/
theorem book_eq_ofRows : m.book = Book.ofRows Prod.fst (fun e => e.2.toInt) m.toList := by
  ext k
  rw [← Book.total_ite k m.book, ← Book.total_ite k (Book.ofRows _ _ _), total_book,
    Book.total_ofRows, sumBy]

end Store

end Aseman
