import Aseman.Finance.Ledger
import Aseman.Lib.Book

/-!
# Postings

What the wallets hold, as a book: one account for every user and bucket (the available balance or
one of the six counters). A use case changes the wallets by a short list of reads and writes;
`Posted w w' δ` says what such a list amounts to, namely that `δ` was added to the book. The
operations' own lemmas state their postings, and everything about money that is proved afterwards
is read off those postings.
-/

namespace Aseman.Finance

open Wallets

open Book (post post_apply)

/-- Where a user's money stands. -/
inductive Bucket where
  | available
  | counter (kind : WalletCounter)
  deriving DecidableEq

def Bucket.all : Finset Bucket :=
  {.available, .counter .held, .counter .debt, .counter .withdrawable, .counter .payoutHeld,
    .counter .earned, .counter .spent}

theorem Bucket.mem_all (b : Bucket) : b ∈ Bucket.all := by
  cases b with
  | available => decide
  | counter kind => cases kind <;> decide

namespace Wallets

variable (w : Wallets)

/-- What stands on one account; an absent balance or counter is zero. -/
def amount : String × Bucket → ℤ
  | (user, .available) => ((w.balances.get user).getD 0).toInt
  | (user, .counter kind) => (w.counterValue kind user).toInt

def users : Finset String := (w.balances.keys ++ w.accounts.keys).toFinset

theorem mem_users_of_amount_ne_zero (a : String × Bucket) (h : w.amount a ≠ 0) : a.1 ∈ w.users := by
  obtain ⟨user, bucket⟩ := a
  simp only [users, List.mem_toFinset, List.mem_append, Store.mem_keys_iff]
  by_contra hnone
  simp only [not_or, Bool.not_eq_true, Option.isSome_eq_false_iff, Option.isNone_iff_eq_none]
    at hnone
  apply h
  cases bucket <;> simp [amount, counterValue, hnone]

noncomputable def book : Book (String × Bucket) :=
  Finsupp.onFinset (w.users ×ˢ Bucket.all) w.amount fun a h =>
    Finset.mem_product.mpr ⟨w.mem_users_of_amount_ne_zero a h, Bucket.mem_all _⟩

@[simp] theorem book_apply (a : String × Bucket) : w.book a = w.amount a := rfl

theorem total_book (weight : String × Bucket → ℤ) (w : Wallets) : Book.total weight w.book =
      ∑ user ∈ w.users, ∑ b ∈ Bucket.all, weight (user, b) * w.amount (user, b) := by
  rw [Book.total_eq_sum weight w.book _ Finsupp.support_onFinset_subset, Finset.sum_product]
  rfl

def Nonneg : Prop := ∀ user kind, 0 ≤ w.amount (user, .counter kind)

theorem amount_putCounter (kind : WalletCounter) (user : String) (x : Int64) (a : String × Bucket) :
    (w.putCounter kind user x).amount a =
      if a = (user, .counter kind) then x.toInt else w.amount a := by
  obtain ⟨user', bucket⟩ := a
  cases bucket with
  | available => simp [amount, putCounter]
  | counter kind' =>
    simp only [amount, counterValue, putCounter, Store.get_put, Prod.mk.injEq, Bucket.counter.injEq]
    by_cases hu : user' = user
    · subst hu
      by_cases hk : kind' = kind
      · simp [FinanceAccount.value_withValue, hk]
      · cases hacc : w.accounts.get user' <;>
          simp [FinanceAccount.value_withValue, hk]
        cases kind' <;> rfl
    · simp [hu]

theorem amount_putBalance (user : String) (x : Int64) (a : String × Bucket) :
    (w.putBalance user x).amount a = if a = (user, .available) then x.toInt else w.amount a := by
  obtain ⟨user', bucket⟩ := a
  cases bucket with
  | available =>
    simp only [amount, putBalance, Store.get_put, Prod.mk.injEq, and_true]
    split <;> rfl
  | counter kind => simp [amount, putBalance, counterValue]

theorem amount_putPoolOfUser (user poolId : String) (a : String × Bucket) :
    (w.putPoolOfUser user poolId).amount a = w.amount a := by
  obtain ⟨user', bucket⟩ := a
  cases bucket with
  | available => rfl
  | counter kind =>
    simp only [amount, counterValue, putPoolOfUser, Store.get_put]
    by_cases hu : user' = user
    · subst hu
      cases hacc : w.accounts.get user' <;> cases kind <;> simp [FinanceAccount.value]
    · simp [hu]

theorem amount_of_account {w : Wallets} {user : String} {balance : Int64}
    (h : w.account user = some balance) : w.amount (user, .available) = balance.toInt := by
  rw [account] at h
  simp [amount, h]

theorem counter_ok {w : Wallets} {kind : WalletCounter} {user : String} {x : Int64}
    (h : w.counter kind user = .ok x) : x.toInt = w.amount (user, .counter kind) ∧ 0 ≤ x.toInt := by
  unfold counter at h
  split at h
  · cases h
  · next hneg =>
    cases h
    exact ⟨rfl, not_neg_iff_toInt.mp hneg⟩

theorem counter_of_nonneg {w : Wallets} {kind : WalletCounter} {user : String}
    (h : 0 ≤ w.amount (user, .counter kind)) :
    w.counter kind user = .ok (w.counterValue kind user) := by
  exact if_neg (not_neg_iff_toInt.mpr h)

end Wallets

/-! ## Posted -/

/-- `δ` was added to the book of `w`, which gave `w'`; no creature came or went, and no counter
became negative. -/
structure Posted (w w' : Wallets) (δ : Book (String × Bucket)) : Prop where
  book : w'.book = w.book + δ
  account : ∀ user, (w'.account user).isSome = (w.account user).isSome
  nonneg : w.Nonneg → w'.Nonneg

namespace Posted

variable {w w' w'' : Wallets} {δ δ' : Book (String × Bucket)}

theorem amount (h : Posted w w' δ) (a : String × Bucket) : w'.amount a = w.amount a + δ a := by
  rw [← book_apply, h.book, Finsupp.add_apply, book_apply]

theorem refl (w : Wallets) : Posted w w 0 := ⟨(add_zero _).symm, fun _ => rfl, id⟩

theorem trans (h : Posted w w' δ) (h' : Posted w' w'' δ') : Posted w w'' (δ + δ') where
  book := by rw [h'.book, h.book, add_assoc]
  account user := (h'.account user).trans (h.account user)
  nonneg hw := h'.nonneg (h.nonneg hw)

theorem congr (h : Posted w w' δ) (hδ : δ = δ') : Posted w w' δ' := hδ ▸ h

theorem total (h : Posted w w' δ) (weight : String × Bucket → ℤ) :
    Book.total weight w'.book = Book.total weight w.book + Book.total weight δ := by
  rw [h.book, map_add]

theorem of_setCounter {kind user x d} (h : w.setCounter kind user x = .ok w')
    (hx : x.toInt = w.amount (user, .counter kind) + d) :
    Posted w w' (post (user, .counter kind) d) ∧ 0 ≤ x.toInt := by
  unfold setCounter at h
  split at h
  · cases h
  · next hneg =>
    cases h
    have hnn := not_neg_iff_toInt.mp hneg
    refine ⟨⟨?_, fun _ => rfl, fun hw user' kind' => ?_⟩, hnn⟩
    · ext a
      rw [book_apply, amount_putCounter, Finsupp.add_apply, post_apply]
      by_cases ha : a = (user, .counter kind)
      · simp [ha, hx]
      · simp [ha, Ne.symm ha]
    · rw [amount_putCounter]
      split
      · exact hnn
      · exact hw user' kind'

theorem of_storeAccount {user x d} (h : w.storeAccount user x = .ok w')
    (hx : x.toInt = w.amount (user, .available) + d) : Posted w w' (post (user, .available) d) := by
  unfold storeAccount at h
  split at h
  · cases h
  · next b hb =>
    cases h
    refine ⟨?_, fun user' => ?_, fun hw user' kind' => ?_⟩
    · ext a
      rw [book_apply, amount_putBalance, Finsupp.add_apply, post_apply]
      by_cases ha : a = (user, .available)
      · simp [ha, hx]
      · simp [ha, Ne.symm ha]
    · simp only [Wallets.account, Wallets.putBalance, Store.get_put]
      split
      · next hu => rw [hu, hb]; rfl
      · rfl
    · rw [amount_putBalance]
      simpa using hw user' kind'

theorem of_addCounter {kind : WalletCounter} {user : String} {x : Int64}
    (h : w.addCounter kind user x = .ok w') :
    Posted w w' (post (user, .counter kind) x.toInt) ∧ 0 ≤ x.toInt := by
  simp only [addCounter, bind_eq_ok, ensure_eq_ok, okOr_eq_ok, checkedAdd_eq_some,
    not_neg_iff_toInt, exists_const] at h
  obtain ⟨hx, current, hcur, next, hnext, hset⟩ := h
  obtain ⟨hval, -⟩ := counter_ok hcur
  exact ⟨(of_setCounter hset (by rw [hnext, hval])).1, hx⟩

theorem of_putPoolOfUser (w : Wallets) (user poolId : String) :
    Posted w (w.putPoolOfUser user poolId) 0 := by
  refine ⟨?_, fun _ => rfl, fun hw user' kind' => ?_⟩
  · ext a
    simp [amount_putPoolOfUser]
  · rw [amount_putPoolOfUser]
    exact hw user' kind'

end Posted

end Aseman.Finance
