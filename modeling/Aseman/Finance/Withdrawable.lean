import Aseman.Finance.Earnings

/-!
# Withdrawable money is earned

A payer's debit takes the money that is not withdrawable first and draws the rest from the
withdrawable counter. The share it draws is computed by a signed subtraction: when the debit is
smaller than the money that is not withdrawable, the share is negative, and taking it away *adds*
to the counter. So minted money turns into withdrawable money as soon as a hold, a pool or a
transfer leaves some of it in the wallet.

As long as no debit does that, withdrawable money is backed by earnings. What is backed is not only
the counter: withdrawable money also stands in pending payouts and in open holds and pools, which
give it back when they are closed.
-/

namespace Aseman.Finance

open Wallets Ledger

open Book (post)

/-! ## Sums over all users -/

def Wallets.sum (w : Wallets) (kind : WalletCounter) : ℤ :=
  ∑ user ∈ w.users, w.amount (user, .counter kind)

theorem Wallets.sum_eq_total (w : Wallets) (kind : WalletCounter) :
    w.sum kind = Book.total (fun a => if a.2 = .counter kind then 1 else 0) w.book := by
  rw [total_book, sum]
  cases kind <;> simp [Bucket.all]

variable {w w' : Wallets}

theorem Posted.sum {δ} (h : Posted w w' δ) (kind : WalletCounter) :
    w'.sum kind = w.sum kind + Book.total (fun a => if a.2 = .counter kind then 1 else 0) δ := by
  rw [sum_eq_total, sum_eq_total, h.total]

/-- Rows that say what a counter holds add up to the sum of the counter. -/
theorem Wallets.sum_of_rowBook {kind rows}
    (h : ∀ user, rowBook rows user = w.amount (user, .counter kind)) :
    (rows.map fun row => row.2.toInt).sum = w.sum kind := by
  have hsupport : (rowBook rows).support ⊆ w.users := by
    intro user huser
    rw [Finsupp.mem_support_iff, h] at huser
    exact w.mem_users_of_amount_ne_zero _ huser
  have hrows := Book.total_ofRows Prod.fst (fun row : String × Int64 => row.2.toInt)
    (fun _ => 1) rows
  rw [← rowBook, Book.total_eq_sum _ _ w.users hsupport] at hrows
  simp only [one_mul, h] at hrows
  exact hrows.symm

/-! ## What earnings must back -/

/-- How a bucket counts towards the withdrawable money that no earnings back. -/
def backingWeight : String × Bucket → ℤ
  | (_, .counter .withdrawable) | (_, .counter .payoutHeld) => 1
  | (_, .counter .earned) => -1
  | (_, .available) | (_, .counter _) => 0

/-- Withdrawable and pending payouts, less earnings, over all users. -/
noncomputable def Wallets.unbacked (w : Wallets) : ℤ := Book.total backingWeight w.book

theorem Wallets.unbacked_eq (w : Wallets) :
    w.unbacked = w.sum .withdrawable + w.sum .payoutHeld - w.sum .earned := by
  rw [unbacked, total_book, sum, sum, sum, ← Finset.sum_add_distrib, ← Finset.sum_sub_distrib]
  refine Finset.sum_congr rfl fun user _ => ?_
  simp [Bucket.all, backingWeight]
  ring

theorem Posted.unbacked {δ} (h : Posted w w' δ) :
    w'.unbacked = w.unbacked + Book.total backingWeight δ := h.total _

/-- Credits are earned in full, so what they add to the withdrawable counters is backed. -/
theorem Credited.unbacked_le {credits cs} (h : Credited w w' credits cs) :
    w'.unbacked ≤ w.unbacked := by
  have hδ : Book.total backingWeight (creditsBook cs) ≤ 0 := by
    simp only [creditsBook, map_add, Book.total_ofRows, backingWeight, zero_mul, one_mul, neg_mul,
      List.map_const', List.sum_replicate, smul_zero, add_zero]
    have hle := List.sum_le_card_nsmul
      (cs.map fun c => -c.grossAmount.toInt + c.walletCredit.toInt) 0 ?_
    · simpa using hle
    · intro x hx
      obtain ⟨c, hc, rfl⟩ := List.mem_map.mp hx
      have := (h.split c hc).gross
      have := (h.split c hc).repaid_nonneg
      omega
  rw [h.posted.unbacked]
  omega

/-- The withdrawable money a hold has drawn, while it is open or running. -/
def Hold.drawn (h : Hold) : ℤ := if h.status.active = true then h.withdrawableAmount.toInt else 0

def Pool.drawn (p : Pool) : ℤ := if p.status = .opened then p.withdrawableAmount.toInt else 0

def Ledger.drawn (s : Ledger) : ℤ :=
  (s.holds.sumBy fun _ h => h.drawn) + s.pools.sumBy fun _ p => p.drawn

/-! ## Debits that leave no minted money behind -/

/-- The money of a wallet that is not withdrawable. -/
def Wallets.nonwithdrawable (w : Wallets) (user : String) : ℤ :=
  w.amount (user, .available) - w.amount (user, .counter .withdrawable)

/-- A hold or a pool takes all of the payer's money that is not withdrawable, and a transfer moves
it into the repayment of debt: the share drawn from the withdrawable counter is not negative, and
the receiver gains no more of it than the sender loses. -/
def Call.drawsForward (c : Call) (s : Ledger) : Bool :=
  match c.op with
  | .createHold input => s.wallets.nonwithdrawable c.caller ≤ input.maxAmount.toInt
  | .openPool input => s.wallets.nonwithdrawable c.caller ≤ input.maxAmount.toInt
  | .refreshPool input => s.wallets.nonwithdrawable c.caller ≤ input.amount.toInt
  | .transfer input => (c.ports.creatureIdByUsername input.toUsername).all fun toId =>
    s.wallets.nonwithdrawable c.caller ≤
      min (s.wallets.amount (toId, .counter .debt)) input.amount.toInt
  | _ => true

/-! ## The invariant -/

/-- Open holds and pools have drawn no negative share, and earnings back what is withdrawable. -/
structure Backed (s : Ledger) : Prop where
  hold : ∀ id h, s.holds.get id = some h → 0 ≤ h.drawn
  pool : ∀ id p, s.pools.get id = some p → 0 ≤ p.drawn
  le : s.wallets.unbacked + s.drawn ≤ 0

namespace Backed

variable {s s' : Ledger}

variable (h : Backed s)

include h

theorem drawn_nonneg : 0 ≤ s.drawn :=
  add_nonneg (Store.sumBy_nonneg _ _ fun _ he => h.hold _ _ (Store.mem_toList_iff.mp he))
    (Store.sumBy_nonneg _ _ fun _ he => h.pool _ _ (Store.mem_toList_iff.mp he))

/-- The wallets hold no more unbacked money, and no hold or pool was written. -/
theorem of_wallets (hholds : s'.holds = s.holds) (hpools : s'.pools = s.pools)
    (hle : s'.wallets.unbacked ≤ s.wallets.unbacked) : Backed s' := by
  refine ⟨by rw [hholds]; exact h.hold, by rw [hpools]; exact h.pool, ?_⟩
  have := h.le
  rw [drawn, hholds, hpools, ← drawn]
  omega

variable {id : String}

/-- One hold was written, and what the wallets and the hold gain together is backed. -/
theorem of_hold {h'} (hholds : s'.holds = s.holds.put id h')
    (hpools : s'.pools = s.pools) (hdrawn : 0 ≤ h'.drawn) (hle : s'.wallets.unbacked + h'.drawn ≤
      s.wallets.unbacked + (s.holds.get id).elim 0 Hold.drawn) : Backed s' := by
  refine ⟨?_, by rw [hpools]; exact h.pool, ?_⟩
  · rw [hholds]
    exact (Store.Wrote.put id h' hdrawn).get h.hold
  · have hsum : ((s.holds.put id h').sumBy fun _ h => h.drawn) =
        (s.holds.sumBy fun _ h => h.drawn) - (s.holds.get id).elim 0 Hold.drawn + h'.drawn :=
      Store.sumBy_put ..
    have hle' := h.le
    rw [drawn] at hle' ⊢
    rw [hholds, hpools]
    omega

/-- One pool was written, and what the wallets and the pool gain together is backed. -/
theorem of_pool {p'} (hholds : s'.holds = s.holds)
    (hpools : s'.pools = s.pools.put id p') (hdrawn : 0 ≤ p'.drawn)
    (hle : s'.wallets.unbacked + p'.drawn ≤
      s.wallets.unbacked + (s.pools.get id).elim 0 Pool.drawn) : Backed s' := by
  refine ⟨by rw [hholds]; exact h.hold, ?_, ?_⟩
  · rw [hpools]
    exact (Store.Wrote.put id p' hdrawn).get h.pool
  · have hsum : ((s.pools.put id p').sumBy fun _ p => p.drawn) =
        (s.pools.sumBy fun _ p => p.drawn) - (s.pools.get id).elim 0 Pool.drawn + p'.drawn :=
      Store.sumBy_put ..
    have hle' := h.le
    rw [drawn] at hle' ⊢
    rw [hholds, hpools]
    omega

/-- One pool was written that has drawn what it had, and the wallets gain nothing unbacked. -/
theorem of_movedPool {p p'} (hget : s.pools.get id = some p)
    (hholds : s'.holds = s.holds) (hpools : s'.pools = s.pools.put id p') (hp : p'.drawn = p.drawn)
    (hle : s'.wallets.unbacked ≤ s.wallets.unbacked) : Backed s' := by
  refine h.of_pool hholds hpools (hp ▸ h.pool id p hget) ?_
  rw [hget, hp]
  exact add_le_add_left hle _

omit h

/-- The share that a debit draws is not negative when the debit takes all minted money. -/
theorem portion_nonneg {payerId amount portion} (h : Funded w w' payerId amount portion)
    (hcovers : w.nonwithdrawable payerId ≤ amount.toInt) : 0 ≤ portion.toInt := by
  have := h.portion_eq
  rw [nonwithdrawable] at hcovers
  omega

theorem unbacked_of_funded {payerId amount portion} (h : Funded w w' payerId amount portion) :
    w'.unbacked = w.unbacked - portion.toInt := by
  rw [h.posted.unbacked]
  simp [backingWeight]
  ring

/-- **Every applied call** whose debit leaves no minted money behind keeps earnings ahead. -/
theorem of_applied {r c} (hfresh : c.Fresh s) (ha : Applied s r s' c) (hforward : c.drawsForward s)
    (h : Backed s) : Backed s' := by
  cases ha with
  | publishFinanceQuote a =>
    rw [a.state]
    exact h.of_wallets rfl rfl le_rfl
  | @createHold ports payerId input a =>
    rw [a.state]
    have hportion := portion_nonneg a.funded (of_decide_eq_true hforward)
    refine h.of_hold rfl rfl (by simpa [Hold.drawn, newHold] using hportion) ?_
    simp [unbacked_of_funded a.funded, hfresh.hold, Hold.drawn, newHold]
  | startHold a =>
    rw [a.state]
    have hdrawn := h.hold _ _ a.hold_get
    refine h.of_hold rfl rfl ?_ ?_
    · simpa [Hold.drawn, startedHold, a.opened] using hdrawn
    · simp [a.hold_get, Hold.drawn, startedHold, a.opened]
  | settleHold a =>
    rw [a.state]
    have hcredit := a.credit.unbacked_le
    have hspend := a.spend.unbacked
    have hrefund := a.refund.unbacked
    simp only [map_add, Book.total_post, backingWeight, toInt_min] at hspend hrefund
    have hle : a.wallets.unbacked ≤ s.wallets.unbacked + a.hold.withdrawableAmount.toInt := by
      omega
    refine h.of_hold rfl rfl (by simp [Hold.drawn, settledHold]) ?_
    simpa [a.hold_get, Hold.drawn, settledHold, a.running] using hle
  | releaseHold a =>
    rw [a.state]
    refine h.of_hold rfl rfl (by simp [Hold.drawn]) ?_
    simp [a.hold_get, Hold.drawn, a.active, a.posted.unbacked, backingWeight]
  | openPool a =>
    rw [a.state]
    have hportion := portion_nonneg a.funded (of_decide_eq_true hforward)
    refine h.of_pool rfl rfl (by simpa [Pool.drawn, newPool] using hportion) ?_
    simp [unbacked_of_funded a.funded, hfresh.pool, Pool.drawn, newPool]
  | refreshPool a =>
    rw [a.state]
    have hportion := portion_nonneg a.funded (of_decide_eq_true hforward)
    have hdrawn := h.pool _ _ a.pool_get
    simp only [Pool.drawn, a.opened, if_true] at hdrawn
    refine h.of_pool rfl rfl ?_ ?_
    · simp only [Pool.drawn, refreshedPool, a.opened, if_true, a.withdrawable_eq]
      omega
    · simp [unbacked_of_funded a.funded, a.pool_get, Pool.drawn, refreshedPool, a.opened,
        a.withdrawable_eq]
  | closePool a =>
    rw [a.state]
    have hdrawn := h.pool _ _ a.pool_get
    simp only [Pool.drawn, a.opened, if_true] at hdrawn
    have hle : a.wallets.unbacked ≤ s.wallets.unbacked + a.pool.withdrawableAmount.toInt := by
      rw [a.posted.unbacked]
      split
      · simp only [map_add, Book.total_post, backingWeight, toInt_min]
        omega
      · simpa using hdrawn
    refine h.of_pool rfl rfl (by simp [Pool.drawn, closedPool]) ?_
    simpa [a.pool_get, Pool.drawn, closedPool, a.opened] using hle
  | reservePool a | releasePool a =>
    rw [a.state]
    exact h.of_movedPool a.pool_get rfl rfl rfl le_rfl
  | settlePool a | debitPool a =>
    rw [a.state]
    have hcharge : a.wallets.unbacked = a.credited.unbacked := by
      simp [a.charge.unbacked, backingWeight]
    refine h.of_movedPool a.pool_get rfl rfl rfl ?_
    simpa [hcharge] using a.credit.unbacked_le
  | requestPayout a | mint a =>
    rw [a.state]
    refine h.of_wallets rfl rfl ?_
    simp [a.posted.unbacked, backingWeight]
  | resolvePayout a =>
    rw [a.state]
    have hpositive := a.positive
    have hle : a.wallets.unbacked ≤ s.wallets.unbacked := by
      rw [a.posted.unbacked]
      split
      · simp [backingWeight]
      · simp only [map_add, Book.total_post, backingWeight, map_zero]
        omega
    exact h.of_wallets rfl rfl hle
  | paymentAdjustment a =>
    rw [a.state]
    have := a.adjusted.withdrawable_le
    refine h.of_wallets rfl rfl ?_
    simpa [a.adjusted.posted.unbacked, backingWeight] using this
  | @transfer ports fromId input a =>
    rw [a.state]
    have hcovers : s.wallets.nonwithdrawable fromId ≤
        min (s.wallets.amount (a.toId, .counter .debt)) input.amount.toInt := by
      simpa [Call.drawsForward, a.to_eq] using hforward
    have hle : a.wallets.unbacked ≤ s.wallets.unbacked := by
      have hsent := a.sent_eq
      have hrepaid := a.repaid_eq
      have hcredit := a.credit_eq
      have hposted := a.posted.unbacked
      simp only [map_add, Book.total_post, backingWeight] at hposted
      rw [nonwithdrawable] at hcovers
      omega
    exact h.of_wallets rfl rfl hle

theorem initial (creatures : Creatures) : Backed (.initial creatures) where
  hold := by simp [Ledger.initial]
  pool := by simp [Ledger.initial]
  le := by
    rw [unbacked_eq]
    simp [sum, Ledger.initial, drawn, amount, counterValue]

/-- Earnings stay ahead in every ledger that a run without such debits reaches. -/
theorem of_run {creatures es t} (h : Run (GuardedStep Call.drawsForward) (.initial creatures) es t) :
    Backed t :=
  h.invariant
    (fun s e s' hstep => GuardedStep.keeps_of (J := fun _ => True)
      (fun hfresh ha hforward _ => of_applied hfresh ha hforward) s e s' hstep trivial)
    (initial creatures)

theorem withdrawable_le (h : Backed s) (hn : s.wallets.Nonneg) :
    s.wallets.sum .withdrawable ≤ s.wallets.sum .earned := by
  have hle := h.le
  have hdrawn := h.drawn_nonneg
  have hpayouts : 0 ≤ s.wallets.sum .payoutHeld :=
    Finset.sum_nonneg fun user _ => hn user .payoutHeld
  rw [unbacked_eq] at hle
  omega

end Backed

/-! ## What the reconciler expects -/

/-- Withdrawable counters that earnings back are not reported as unbacked. -/
theorem Ledger.withdrawable_silent {s} (hd : Documented s) (hp : PoolInvariant s)
    (hn : s.wallets.Nonneg) (he : EarnedIdentity s)
    (hle : s.wallets.sum .withdrawable ≤ s.wallets.sum .earned) (ports : Ports) (maxIssues : Nat) :
    (s.records.audit ports maxIssues).Silent .withdrawableUnbackedTotal := by
  have hrows := earnedRows_valid hd
  have hearned : ∀ user, s.wallets.amount (user, .counter .earned) = rowBook s.earnedRows user :=
    fun user => by rw [he user, rowBook_earnedRows]
  have hbook : (tallyAll ∅ s.earnedRows).book = rowBook s.earnedRows :=
    book_tallyAll_of_counter hrows hearned
  refine Records.audit_silent ports _ _ (by decide) (.inl (by decide)) (.inr ?_)
    (.inl (by decide)) (.inl (by decide))
  rw [(scan_totals hd hp _).2.2]
  refine ⟨counterLinks_nonneg hn _, fun e hmem => ?_, ?_⟩
  · have hvalue : (tallyAll ∅ s.earnedRows).value e.1 = e.2.toInt := by
      simp [Store.value, Store.mem_toList_iff.mp hmem]
    rw [← hvalue, ← Store.book_apply, hbook]
    exact Book.ofRows_nonneg _ _ (fun row hrow => (hrows row hrow).2) e.1
  · have hlinks := sum_of_rowBook (s.rowBook_counterLinks .withdrawable)
    have htotal : (tallyAll ∅ s.earnedRows).sumBy (fun _ x => x.toInt) = s.wallets.sum .earned := by
      have h := Store.total_book (fun _ => 1) (tallyAll ∅ s.earnedRows)
      rw [hbook, rowBook, Book.total_ofRows] at h
      simp only [one_mul] at h
      rw [← h, sum_of_rowBook fun user => (hearned user).symm]
    exact (hlinks.trans_le hle).trans htotal.ge

/-! ## Runs -/

/-- The operations that debit a wallet in favour of a hold, a pool or another wallet. -/
def Operation.debits : Operation → Bool
  | .createHold _ | .openPool _ | .refreshPool _ | .transfer _ => true
  | _ => false

theorem Funded.sum_withdrawable_le {w w' payerId amount portion}
    (h : Funded w w' payerId amount portion) (hcovers : w.nonwithdrawable payerId ≤ amount.toInt) :
    w'.sum .withdrawable ≤ w.sum .withdrawable := by
  simpa [h.posted.sum] using Backed.portion_nonneg h hcovers

theorem Applied.withdrawable_le {s s' r c} (ha : Applied s r s' c) (hforward : c.drawsForward s)
    (hop : c.op.debits) : s'.wallets.sum .withdrawable ≤ s.wallets.sum .withdrawable := by
  cases ha with
  | createHold a | openPool a | refreshPool a =>
    simpa [a.state] using a.funded.sum_withdrawable_le (of_decide_eq_true hforward)
  | @transfer ports fromId input a =>
    have hcovers : s.wallets.nonwithdrawable fromId ≤
        min (s.wallets.amount (a.toId, .counter .debt)) input.amount.toInt := by
      simpa [Call.drawsForward, a.to_eq] using hforward
    have hle : a.wallets.sum .withdrawable ≤ s.wallets.sum .withdrawable := by
      have hsent := a.sent_eq
      have hrepaid := a.repaid_eq
      have hcredit := a.credit_eq
      have hposted := a.posted.sum .withdrawable
      simp only [map_add, Book.total_post, reduceCtorEq, Bucket.counter.injEq, if_true, if_false]
        at hposted
      rw [nonwithdrawable] at hcovers
      omega
    simpa [a.state] using hle
  | _ => cases hop

/-- **Withdrawable money is earned**: in every ledger that a run reaches whose debits leave no
minted money behind, the withdrawable counters sum up to at most the earned counters, no debit
adds to them, and a reconciliation does not report them as unbacked. -/
theorem withdrawable_backed_of_run {creatures : Creatures} {es : List Event} {t : Ledger}
    (h : Run (GuardedStep Call.drawsForward) (.initial creatures) es t) :
    t.wallets.sum .withdrawable ≤ t.wallets.sum .earned ∧
      (∀ e t', GuardedStep Call.drawsForward t e t' → e.call.op.debits →
        t'.wallets.sum .withdrawable ≤ t.wallets.sum .withdrawable) ∧
      ∀ ports caller input report,
        reconcileFinancialSystem ports t.records caller input = .ok report →
        ∀ i ∈ report.issues, i.code ≠ .withdrawableUnbackedTotal := by
  have hrun := GuardedStep.run h
  have hn := nonneg_of_run hrun
  have hle := (Backed.of_run h).withdrawable_le hn
  refine ⟨hle, fun e t' hstep hop => ?_, fun ports caller input report hreport => ?_⟩
  · rcases hstep.1.cases with ⟨rfl, -⟩ | ⟨r, hr, ha, -⟩
    · exact le_rfl
    · exact ha.withdrawable_le (hstep.2 (by simp [hr])) hop
  · rw [reconcileFinancialSystem_ok hreport]
    exact withdrawable_silent (Documented.of_run hrun) (PoolInvariant.of_run hrun) hn
      (EarnedIdentity.of_run hrun) hle ports _

/-- A mint of 400, and a pool that takes all of it. -/
def Sample.wholePool : List Call :=
  [Sample.mint "id1" "alice" 400, Sample.openPool "id2" "alice" 400]

theorem withdrawable_backed_of_whole_pool :
    (runCalls Sample.wholePool Sample.ledger).wallets.sum .withdrawable ≤
      (runCalls Sample.wholePool Sample.ledger).wallets.sum .earned :=
  (withdrawable_backed_of_run (guarded_runCalls Call.drawsForward Sample.wholePool Sample.ledger
    (by decide) (by decide))).1

/-- A pool of 400 out of a minted 1000 makes the other 600 withdrawable, though nobody has earned
anything, and the reconciler reports it. -/
theorem withdrawable_unbacked_of_pooled :
    Run Step Sample.ledger (callEvents Sample.pooled Sample.ledger)
        (runCalls Sample.pooled Sample.ledger) ∧
      (runCalls Sample.pooled Sample.ledger).wallets.sum .withdrawable = 600 ∧
      (runCalls Sample.pooled Sample.ledger).wallets.sum .earned = 0 ∧
      ∃ report, reconcileFinancialSystem (Sample.ports "id3" "id3")
          (runCalls Sample.pooled Sample.ledger).records legacyRoot {} = .ok report ∧
        ∃ i ∈ report.issues, i.code = .withdrawableUnbackedTotal := by
  obtain ⟨report, hreport, hissues⟩ := reconcileFinancialSystem_root (Sample.ports "id3" "id3")
    (runCalls Sample.pooled Sample.ledger).records {}
  refine ⟨run_runCalls _ _ (by decide), by decide +kernel, by decide +kernel, report, hreport, ?_⟩
  rw [hissues]
  decide +kernel

end Aseman.Finance
