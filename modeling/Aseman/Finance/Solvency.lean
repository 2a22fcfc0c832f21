import Aseman.Finance.Withdrawable

/-!
# Withdrawable money is there

The withdrawable counter says how much of a wallet's balance may be paid out, so it must not
exceed the balance; `create_hold`, `open_pool`, `refresh_pool`, `transfer` and
`payment_adjustment` refuse to work on a wallet where it does. Every finance operation keeps the
counter within the balance. The one that could break it is a refund of a hold, which adds to the
counter what the hold has drawn from it; a hold has never drawn more than it holds.
-/

namespace Aseman.Finance

open Wallets

open Book (post post_apply)

/-! ## Wallets -/

/-- No wallet has more withdrawable money than money. -/
def Wallets.Covered (w : Wallets) : Prop := ∀ user, 0 ≤ w.nonwithdrawable user

variable {w w' : Wallets} {δ : Book (String × Bucket)}

theorem Posted.nonwithdrawable (h : Posted w w' δ) (user : String) : w'.nonwithdrawable user =
      w.nonwithdrawable user + (δ (user, .available) - δ (user, .counter .withdrawable)) := by
  rw [Wallets.nonwithdrawable, Wallets.nonwithdrawable, h.amount, h.amount]
  ring

/-- Postings that give every wallet at least as much money as withdrawable money. -/
theorem Posted.covered (h : Posted w w' δ)
    (hδ : ∀ user, δ (user, .counter .withdrawable) ≤ δ (user, .available)) (hw : w.Covered) :
    w'.Covered := by
  intro user
  have hle := hδ user
  have hnonneg := hw user
  rw [h.nonwithdrawable]
  omega

theorem Posted.covered_of_user (h : Posted w w' δ) (user : String)
    (hδ : ∀ user', user' ≠ user → δ (user', .counter .withdrawable) ≤ δ (user', .available))
    (huser : 0 ≤ w'.nonwithdrawable user) (hw : w.Covered) : w'.Covered := by
  intro user'
  by_cases heq : user' = user
  · exact heq ▸ huser
  · have hle := hδ user' heq
    have hnonneg := hw user'
    rw [h.nonwithdrawable]
    omega

/-- A debit takes all money of its payer that is not withdrawable, and then some of the rest. -/
theorem Funded.wallets_covered {payerId amount portion} (h : Funded w w' payerId amount portion)
    (hw : w.Covered) : w'.Covered := by
  refine h.posted.covered_of_user payerId (fun user hne => ?_) ?_ hw
  · simp [post_apply, Ne.symm hne]
  · have hportion := h.portion_eq
    rw [h.posted.nonwithdrawable, Wallets.nonwithdrawable]
    simp [post_apply]
    omega

theorem refund_covered {user amount share held}
    (h : Posted w w' (post (user, .counter .withdrawable) share + post (user, .available) amount +
      post (user, .counter .held) held)) (hle : share ≤ amount) (hw : w.Covered) : w'.Covered := by
  refine h.covered (fun user' => ?_) hw
  by_cases heq : user = user' <;> simp [post_apply, heq, hle]

theorem Credited.covered {credits cs} (h : Credited w w' credits cs) (hw : w.Covered) :
    w'.Covered :=
  h.posted.covered (fun user => (creditsBook_withdrawable cs user).le) hw

/-! ## The invariant -/

/-- Every wallet is covered, and every hold has drawn at most what it holds. -/
structure Solvent (s : Ledger) : Prop where
  nonneg : s.wallets.Nonneg
  covered : s.wallets.Covered
  hold : ∀ id h, s.holds.get id = some h → h.withdrawableAmount.toInt ≤ h.maxAmount.toInt

namespace Solvent

variable {s s' : Ledger}

theorem wallets_of_applied {r c} (ha : Applied s r s' c) (h : Solvent s) : s'.wallets.Covered := by
  have hw := h.covered
  cases ha with
  | publishFinanceQuote a | startHold a | reservePool a | releasePool a => simpa [a.state] using hw
  | createHold a | openPool a | refreshPool a => simpa [a.state] using a.funded.wallets_covered hw
  | settleHold a =>
    have hspent : a.charged.Covered := a.spend.covered (by simp [post_apply]) hw
    simpa [a.state] using refund_covered a.refund (by rw [toInt_min]; exact min_le_left _ _)
      (a.credit.covered hspent)
  | releaseHold a => simpa [a.state] using refund_covered a.posted (h.hold _ _ a.hold_get) hw
  | closePool a =>
    have hposted := a.posted
    split at hposted
    · simpa [a.state] using refund_covered hposted (by rw [toInt_min]; exact min_le_left _ _) hw
    · simpa [a.state] using hposted.covered (by simp) hw
  | settlePool a | debitPool a =>
    simpa [a.state] using a.charge.covered (by simp [post_apply]) (a.credit.covered hw)
  | requestPayout a => simpa [a.state] using a.posted.covered (by simp [post_apply]) hw
  | resolvePayout a =>
    refine (show s'.wallets = a.wallets by simp [a.state]) ▸ a.posted.covered (fun user => ?_) hw
    split <;> simp [post_apply]
  | @paymentAdjustment ports caller input a =>
    refine (show s'.wallets = a.wallets by simp [a.state]) ▸
      a.adjusted.posted.covered_of_user input.userId (fun user hne => ?_) ?_ hw
    · simp [post_apply, Ne.symm hne]
    · have hbacked := a.adjusted.backed
      rw [a.adjusted.posted.nonwithdrawable, Wallets.nonwithdrawable]
      simp [post_apply]
      omega
  | @transfer ports fromId input a =>
    refine (show s'.wallets = a.wallets by simp [a.state]) ▸
      a.posted.covered_of_user fromId (fun user hne => ?_) ?_ hw
    · simp [post_apply, Ne.symm hne]
    · have hsent := a.sent_eq
      rw [a.posted.nonwithdrawable, Wallets.nonwithdrawable]
      simp [post_apply, a.distinct]
      omega
  | mint a =>
    have hle : 0 ≤ a.walletCredit.toInt := by
      have hrepaid := a.repaid_eq
      have hcredit := a.credit_eq
      omega
    refine (show s'.wallets = a.wallets by simp [a.state]) ▸ a.posted.covered (fun user => ?_) hw
    by_cases heq : a.toUserId = user <;> simp [post_apply, heq, hle]

theorem holds_of_applied {r c} (ha : Applied s r s' c) (h : Solvent s) :
    Store.Wrote (fun _ h => h.withdrawableAmount.toInt ≤ h.maxAmount.toInt) s.holds s'.holds := by
  cases ha with
  | createHold a =>
    have hportion := a.funded.portion_eq
    have hbacked := a.funded.backed
    rw [a.state]
    exact .put _ _ (by dsimp only [newHold]; omega)
  | startHold a | settleHold a | releaseHold a =>
    have hle := h.hold _ _ a.hold_get
    rw [a.state]
    exact .put _ _ hle
  | _ a => rw [a.state]; exact .same

/-- **Every applied call** keeps the wallets covered. -/
theorem of_applied {r c} (ha : Applied s r s' c) (h : Solvent s) : Solvent s' where
  nonneg := let ⟨_, hposted⟩ := ha.posted; hposted.nonneg h.nonneg
  covered := h.wallets_of_applied ha
  hold := (h.holds_of_applied ha).get h.hold

theorem initial (creatures : Creatures) : Solvent (.initial creatures) where
  nonneg _ _ := by simp [Ledger.initial, amount, counterValue]
  covered user := by
    simp only [Wallets.nonwithdrawable, Ledger.initial, amount, counterValue,
      Store.get_empty, Option.bind_none, Option.getD_none, Int64.toInt_zero, sub_zero]
    cases hget : creatures.balances.get user with
    | none => simp
    | some balance => exact creatures.nonneg _ (Store.mem_toList_iff.mpr hget)
  hold := by simp [Ledger.initial]

/-- In every ledger that a run of the finance operations reaches, the wallets are covered. -/
theorem of_run {creatures es t} (h : Run Step (.initial creatures) es t) : Solvent t :=
  h.invariant (Step.keeps fun _ ha hs => hs.of_applied ha) (initial creatures)

end Solvent

/-! ## The refusal

The five operations that compare the counter with the balance fail with the refusal only if the
comparison fails: none of their other errors has its text. -/

/-- The error of an operation on a wallet that is not covered. -/
def notCovered : ApplicationError := denied "withdrawable balance exceeds available balance"

/-- The operations that refuse a wallet that is not covered. -/
def Operation.checksCover : Operation → Bool
  | .createHold _ | .openPool _ | .refreshPool _ | .transfer _ | .paymentAdjustment _ => true
  | _ => false

namespace Wallets

variable {w : Wallets}

theorem counter_ne_notCovered {kind user} : w.counter kind user = .error notCovered ↔ False := by
  unfold counter
  split <;> simp [notCovered, denied]

theorem setCounter_ne_notCovered {kind user x} :
    w.setCounter kind user x = .error notCovered ↔ False := by
  unfold setCounter
  split <;> simp [notCovered, denied]

theorem storeAccount_ne_notCovered {user x} :
    w.storeAccount user x = .error notCovered ↔ False := by
  unfold storeAccount
  split <;> simp [notCovered, denied]

theorem Covered.not_lt (hw : w.Covered) {user balance withdrawable}
    (hbalance : w.account user = some balance)
    (hwithdrawable : w.counter .withdrawable user = .ok withdrawable) :
    ¬ withdrawable > balance := by
  have hnonneg := hw user
  rw [nonwithdrawable, amount_of_account hbalance, ← (counter_ok hwithdrawable).1] at hnonneg
  rw [not_lt_iff_toInt]
  omega

end Wallets

section Refusal

variable {ports : Ports} {s : Ledger}

theorem budgetField_ne (field : String) :
    denied ("invalid project budget field: " ++ field) ≠ notCovered := by
  intro h
  have hhead := congrArg (·.toList.head?) (ApplicationError.denied.inj h)
  simp at hhead

theorem nonnegativeBudgetField_ne_notCovered {field amount} :
    nonnegativeBudgetField field amount = .error notCovered ↔ False := by
  unfold nonnegativeBudgetField
  split <;> simp [budgetField_ne]

theorem financeNonnegativeField_ne_notCovered {map field} :
    financeNonnegativeField map field = .error notCovered ↔ False := by
  unfold financeNonnegativeField
  split
  · simp
  · split <;> simp [budgetField_ne, nonnegativeBudgetField_ne_notCovered]

theorem denied_eq_notCovered {message} : denied message = notCovered ↔
    message = "withdrawable balance exceeds available balance" := by
  simp [denied, notCovered]

theorem reserveProjectBudget_ne_notCovered {projectId amount} :
    reserveProjectBudget ports projectId amount s = .error notCovered ↔ False := by
  unfold reserveProjectBudget
  split
  · simp
  · simp only [bind_eq_error, ensure_eq_error, okOr_eq_error, pure_eq_error, denied_eq_notCovered,
      String.reduceEq, and_false, exists_false, or_false, financeNonnegativeField_ne_notCovered,
      nonnegativeBudgetField_ne_notCovered]

theorem createHold_ne_notCovered {payerId input} (hw : s.wallets.Covered) :
    createHold ports payerId input s ≠ .error notCovered := by
  intro h
  simp only [createHold, bind_eq_error, ensure_eq_error, okOr_eq_error, denied_eq_notCovered,
    String.reduceEq, and_false, false_or, Ledger.billingQuote, ensure_eq_ok, exists_const] at h
  obtain ⟨-, -, -, -, -, -, -, -, quote, -, -, -, -, -, -, -, -, h⟩ := h
  split at h
  · simp only [bind_eq_error, ensure_eq_error, okOr_eq_error, pure_eq_error, denied_eq_notCovered,
      String.reduceEq, and_false, exists_false, or_false, Ledger.getHold] at h
  · rw [bind_eq_error] at h
    rcases h with h | ⟨plan, -, h⟩
    · obtain ⟨plan, row, h⟩ := exists_of_foldlM_eq_error h
      simp only [planBeneficiary, bind_eq_error, ensure_eq_error, okOr_eq_error, pure_eq_error,
        denied_eq_notCovered, String.reduceEq, and_false, exists_false, or_false] at h
    · simp only [bind_eq_error, ensure_eq_error, okOr_eq_error, pure_eq_error, denied_eq_notCovered,
        String.reduceEq, and_false, and_true, exists_false, or_false, false_or, ensure_eq_ok,
        okOr_eq_ok, exists_const, counter_ne_notCovered, setCounter_ne_notCovered,
        storeAccount_ne_notCovered, reserveProjectBudget_ne_notCovered] at h
      obtain ⟨-, balance, hbalance, -, -, -, withdrawable, hwithdrawable, h⟩ := h
      exact h (hw.not_lt hbalance hwithdrawable)

theorem fundPool_ne_notCovered {insufficient w payerId amount} (hw : w.Covered)
    (hinsufficient : insufficient ≠ "withdrawable balance exceeds available balance") :
    fundPool insufficient w payerId amount ≠ .error notCovered := by
  intro h
  simp only [fundPool, bind_eq_error, ensure_eq_error, okOr_eq_error, pure_eq_error,
    denied_eq_notCovered, String.reduceEq, hinsufficient, and_false, and_true, exists_false,
    or_false, false_or, okOr_eq_ok, counter_ne_notCovered,
    setCounter_ne_notCovered, storeAccount_ne_notCovered] at h
  obtain ⟨balance, hbalance, withdrawable, hwithdrawable, h⟩ := h
  exact h (hw.not_lt hbalance hwithdrawable)

theorem openPool_ne_notCovered {payerId input} (hw : s.wallets.Covered) :
    openPool ports payerId input s ≠ .error notCovered := by
  intro h
  have hfund := @fundPool_ne_notCovered "insufficient available balance to open this pool"
    s.wallets payerId input.maxAmount hw (by decide)
  simp only [openPool, bind_eq_error, ensure_eq_error, denied_eq_notCovered, String.reduceEq,
    and_false, false_or] at h
  split at h <;>
    simp only [bind_eq_error, ensure_eq_error, okOr_eq_error, pure_eq_error, denied_eq_notCovered,
      String.reduceEq, and_false, exists_false, or_false, Ledger.getPool,
      counter_ne_notCovered, hfund] at h

theorem refreshPool_ne_notCovered {payerId input} (hw : s.wallets.Covered) :
    refreshPool ports payerId input s ≠ .error notCovered := by
  intro h
  have hfund := @fundPool_ne_notCovered "insufficient available balance to refresh this pool"
    s.wallets payerId input.amount hw (by decide)
  simp only [refreshPool, bind_eq_error, ensure_eq_error, denied_eq_notCovered, String.reduceEq,
    and_false, false_or] at h
  split at h <;>
    simp only [bind_eq_error, ensure_eq_error, okOr_eq_error, pure_eq_error, denied_eq_notCovered,
      String.reduceEq, and_false, exists_false, or_false, Ledger.getPool,
      counter_ne_notCovered, hfund] at h

theorem transfer_ne_notCovered {fromId input} (hw : s.wallets.Covered) :
    transfer ports fromId input s ≠ .error notCovered := by
  intro h
  simp only [transfer, bind_eq_error, ensure_eq_error, okOr_eq_error, pure_eq_error,
    denied_eq_notCovered, String.reduceEq, and_false, and_true, exists_false, or_false, false_or,
    ensure_eq_ok, okOr_eq_ok, exists_const, counter_ne_notCovered,
    setCounter_ne_notCovered, storeAccount_ne_notCovered] at h
  obtain ⟨-, balance, hbalance, -, -, -, -, -, -, withdrawable, hwithdrawable, h⟩ := h
  exact h (hw.not_lt hbalance hwithdrawable)

theorem adjustWallet_ne_notCovered {w userId balance debt withdrawable amount} :
    adjustWallet w userId balance debt withdrawable amount = .error notCovered ↔ False := by
  unfold adjustWallet
  split <;>
    simp only [reversePayment, creditPayment, bind_eq_error, okOr_eq_error, pure_eq_error,
      denied_eq_notCovered, String.reduceEq, and_false, exists_false, or_false,
      setCounter_ne_notCovered, storeAccount_ne_notCovered]

theorem financialAccountSnapshot_ne_notCovered {userId limit} :
    financialAccountSnapshot s userId limit = .error notCovered ↔ False := by
  simp only [financialAccountSnapshot, bind_eq_error, okOr_eq_error, pure_eq_error,
    denied_eq_notCovered, String.reduceEq, and_false, exists_false, or_false,
    counter_ne_notCovered]

theorem paymentAdjustment_ne_notCovered {caller input} (hw : s.wallets.Covered) :
    paymentAdjustment ports caller input s ≠ .error notCovered := by
  intro h
  simp only [paymentAdjustment, bind_eq_error, ensure_eq_error, denied_eq_notCovered,
    String.reduceEq, and_false, false_or, ensure_eq_ok, exists_const] at h
  obtain ⟨-, -, -, -, h⟩ := h
  split at h <;>
    simp only [bind_eq_error, ensure_eq_error, okOr_eq_error, pure_eq_error, denied_eq_notCovered,
      String.reduceEq, and_false, and_true, exists_false, or_false, false_or, okOr_eq_ok,
      counter_ne_notCovered, adjustWallet_ne_notCovered,
      financialAccountSnapshot_ne_notCovered] at h
  obtain ⟨balance, hbalance, -, -, withdrawable, hwithdrawable, h⟩ := h
  exact h (hw.not_lt hbalance hwithdrawable)

end Refusal

/-- **No operation is refused** on covered wallets. -/
theorem Call.run_ne_notCovered {c : Call} {s : Ledger} (hop : c.op.checksCover)
    (hw : s.wallets.Covered) : c.run s ≠ .error notCovered := by
  obtain ⟨ports, caller, op⟩ := c
  cases op with
  | createHold input => exact createHold_ne_notCovered hw
  | openPool input => exact openPool_ne_notCovered hw
  | refreshPool input => exact refreshPool_ne_notCovered hw
  | transfer input => exact transfer_ne_notCovered hw
  | paymentAdjustment input => exact paymentAdjustment_ne_notCovered hw
  | _ => cases hop

end Aseman.Finance
