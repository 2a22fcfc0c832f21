import Aseman.Finance.Listing

/-!
# Held balances

A user's held counter is exactly what its documents hold: the amounts of its open and running
holds, and what remains or is reserved in its open pools. Reservations move money inside a pool
without touching the counter, so the identity rests on the pool accounting of `PoolAccounts`. The
reconciler adds up the same documents, so it never reports the counter.
-/

namespace Aseman.Finance

open Ledger

open Book (post_apply)

/-! ## What the documents hold -/

/-- What a hold holds of a user's money: its amount, while it is open or running. -/
def Hold.heldFor (h : Hold) (user : String) : ℤ :=
  if h.payerUserId = user ∧ h.status.active = true then h.maxAmount.toInt else 0

/-- What a pool holds of a user's money: what remains or is reserved, while it is open. -/
def Pool.heldFor (p : Pool) (user : String) : ℤ :=
  if p.payerUserId = user ∧ p.status = .opened then p.remaining.toInt + p.reserved.toInt else 0

/-- What the documents hold of a user's money. -/
def Ledger.heldFor (s : Ledger) (user : String) : ℤ :=
  (s.holds.sumBy fun _ h => h.heldFor user) + s.pools.sumBy fun _ p => p.heldFor user

theorem Hold.heldFor_of_active {h : Hold} (hactive : h.status.active = true) (user : String) :
    h.heldFor user = if h.payerUserId = user then h.maxAmount.toInt else 0 := by
  simp [heldFor, hactive]

theorem Hold.heldFor_of_not_active {h : Hold} (hactive : h.status.active = false)
    (user : String) : h.heldFor user = 0 := by
  simp [heldFor, hactive]

theorem Pool.heldFor_of_opened {p : Pool} (hopen : p.status = .opened) (user : String) :
    p.heldFor user = if p.payerUserId = user then p.remaining.toInt + p.reserved.toInt else 0 := by
  simp [heldFor, hopen]

theorem Ledger.heldFor_putHold (s : Ledger) {s' : Ledger} {id : String} {h' : Hold}
    (hholds : s'.holds = s.holds.put id h') (hpools : s'.pools = s.pools) (user : String) :
    s'.heldFor user =
      s.heldFor user - ((s.holds.get id).elim 0 fun h => h.heldFor user) + h'.heldFor user := by
  simp only [heldFor, hholds, hpools, Store.sumBy_put]
  ring

theorem Ledger.heldFor_putPool (s : Ledger) {s' : Ledger} {id : String} {p' : Pool}
    (hholds : s'.holds = s.holds) (hpools : s'.pools = s.pools.put id p') (user : String) :
    s'.heldFor user =
      s.heldFor user - ((s.pools.get id).elim 0 fun p => p.heldFor user) + p'.heldFor user := by
  simp only [heldFor, hholds, hpools, Store.sumBy_put]
  ring

theorem Ledger.heldFor_movePool (s : Ledger) {s' : Ledger} {id : String} {p p' : Pool} {d : ℤ}
    (hget : s.pools.get id = some p) (hholds : s'.holds = s.holds)
    (hpools : s'.pools = s.pools.put id p') (hpayer : p'.payerUserId = p.payerUserId)
    (hstatus : p'.status = p.status)
    (hsum : p'.remaining.toInt + p'.reserved.toInt = p.remaining.toInt + p.reserved.toInt + d)
    (user : String) :
    s'.heldFor user =
      s.heldFor user + if p.payerUserId = user ∧ p.status = .opened then d else 0 := by
  rw [s.heldFor_putPool hholds hpools, hget, Option.elim_some, Pool.heldFor, Pool.heldFor, hpayer,
    hstatus, hsum]
  split <;> ring

/-! ## The identity -/

abbrev HeldIdentity : Ledger → Prop := CounterIdentity .held heldFor

namespace HeldIdentity

variable {s s' : Ledger}

/-- **Every applied call** moves the counter and the documents alike. -/
theorem of_applied {reply : Reply} {c : Call} (hfresh : c.Fresh s) (ha : Applied s reply s' c)
    (hpools : PoolInvariant s) (h : HeldIdentity s) : HeldIdentity s' := by
  cases ha with
  | publishFinanceQuote a =>
    rw [a.state]
    exact h.of_unmoved (fun _ => rfl) fun _ => rfl
  | @createHold ports payerId input a =>
    refine h.of_moved (fun user => if payerId = user then input.maxAmount.toInt else 0)
      (fun user => by simp [a.state, a.funded.posted.amount, post_apply]) fun user => ?_
    rw [s.heldFor_putHold (congrArg holds a.state) (by simp [a.state]),
      hfresh.hold, Hold.heldFor_of_active rfl, Option.elim_none, sub_zero]
    rfl
  | startHold a =>
    refine h.of_moved (fun _ => 0) (fun user => by simp [a.state]) fun user => ?_
    rw [s.heldFor_putHold (congrArg holds a.state) (by simp [a.state]),
      a.hold_get, Option.elim_some, Hold.heldFor_of_active (by rw [a.opened]; rfl),
      Hold.heldFor_of_active rfl, add_zero]
    exact sub_add_cancel _ _
  | @settleHold ports authorityId input a =>
    refine h.of_moved (fun user => if input.payerUserId = user then -a.hold.maxAmount.toInt else 0)
      (fun user => by
        simp [a.state, a.refund.amount, a.credit.posted.amount, a.spend.amount, post_apply])
      fun user => ?_
    rw [s.heldFor_putHold (congrArg holds a.state) (by simp [a.state]),
      a.hold_get, Hold.heldFor_of_not_active rfl, Option.elim_some,
      Hold.heldFor_of_active (by rw [a.running]; rfl), a.payer]
    split <;> ring
  | @releaseHold ports callerId input a =>
    refine h.of_moved (fun user => if input.payerUserId = user then -a.hold.maxAmount.toInt else 0)
      (fun user => by simp [a.state, a.posted.amount, post_apply]) fun user => ?_
    rw [s.heldFor_putHold (congrArg holds a.state) (by simp [a.state]),
      a.hold_get, Hold.heldFor_of_not_active (releasedHold_active ..), Option.elim_some,
      Hold.heldFor_of_active a.active, a.payer]
    split <;> ring
  | @openPool ports payerId input a =>
    refine h.of_moved (fun user => if payerId = user then input.maxAmount.toInt else 0)
      (fun user => by simp [a.state, a.funded.posted.amount, post_apply]) fun user => ?_
    rw [s.heldFor_putPool (by simp [a.state]) (congrArg pools a.state),
      hfresh.pool, Pool.heldFor_of_opened rfl]
    simp [newPool]
  | @refreshPool ports payerId input a =>
    refine h.of_moved (fun user => if payerId = user then input.amount.toInt else 0)
      (fun user => by simp [a.state, a.funded.posted.amount, post_apply]) fun user => ?_
    rw [s.heldFor_movePool (d := input.amount.toInt) a.pool_get (by simp [a.state])
      (congrArg pools a.state) rfl rfl (by simp only [refreshedPool, a.remaining_eq]; ring)]
    simp [a.payer, a.opened]
  | closePool a =>
    have hrem := (hpools.balanced _ _ a.pool_get).remaining_nonneg
    refine h.of_moved (fun user => if a.pool.payerUserId = user then -a.pool.remaining.toInt else 0)
      (fun user => ?_) fun user => ?_
    · rw [show s'.wallets = a.wallets by simp [a.state], a.posted.amount]
      split
      · simp [post_apply]
      · simp [show a.pool.remaining.toInt = 0 by omega]
    · rw [s.heldFor_putPool (by simp [a.state]) (congrArg pools a.state), a.pool_get, Option.elim_some,
        Pool.heldFor_of_opened a.opened, a.unreserved]
      simp only [Pool.heldFor, closedPool, reduceCtorEq, and_false, if_false]
      split <;> ring
  | reservePool a | releasePool a =>
    refine h.of_moved (fun _ => 0) (fun user => by simp [a.state]) fun user => ?_
    rw [s.heldFor_movePool (d := 0) a.pool_get (by simp [a.state]) (congrArg pools a.state)
      rfl rfl (by simp only [movedPool, a.remaining_eq, a.reserved_eq]; ring)]
    simp
  | @settlePool ports authorityId input a =>
    have hpayer := (hpools.payer_eq a.reservation_get a.reservation_pool a.pool_get).trans
      a.reservation_payer
    refine h.of_moved
      (fun user => if input.payerUserId = user then -a.allocation.actualAmount.toInt else 0)
      (fun user => by simp [a.state, a.charge.amount, a.credit.posted.amount, post_apply])
      fun user => ?_
    rw [s.heldFor_movePool (d := -a.allocation.actualAmount.toInt) a.pool_get (by simp [a.state])
      (congrArg pools a.state) rfl rfl
      (by simp only [movedPool, a.remaining_eq, a.reserved_eq, a.refund_eq]; ring)]
    simp [hpayer, a.opened]
  | @debitPool ports authorityId input a =>
    refine h.of_moved (fun user => if input.payerUserId = user then -a.totals.delta.toInt else 0)
      (fun user => by simp [a.state, a.charge.amount, a.credit.posted.amount, post_apply])
      fun user => ?_
    rw [s.heldFor_movePool (d := -a.totals.delta.toInt) a.pool_get (by simp [a.state])
      (congrArg pools a.state) rfl rfl (by simp only [movedPool, a.remaining_eq]; ring)]
    simp [a.payer, a.opened]
  | resolvePayout a =>
    rw [a.state]
    refine h.of_unmoved (fun user => (a.posted.amount _).trans ?_) fun _ => rfl
    split <;> simp [post_apply]
  | paymentAdjustment a =>
    rw [a.state]
    exact h.of_unmoved (fun user => by simp [a.adjusted.posted.amount, post_apply]) fun _ => rfl
  | _ a =>
    rw [a.state]
    exact h.of_unmoved (fun user => by simp [a.posted.amount, post_apply]) fun _ => rfl

theorem initial (creatures : Creatures) : HeldIdentity (.initial creatures) := by
  intro user
  simp [Ledger.initial, heldFor, Wallets.amount, Wallets.counterValue]

theorem of_run {creatures es t} (h : Run Step (.initial creatures) es t) : HeldIdentity t :=
  h.invariant_of (Step.keeps PoolInvariant.of_applied) (Step.keeps_of of_applied)
    (.initial creatures) (initial creatures)

end HeldIdentity

/-! ## What the reconciler expects -/

theorem Hold.rowBook_heldRows (h : Hold) (user : String) :
    rowBook h.heldRows user = h.heldFor user := by
  unfold heldRows heldFor
  split <;> simp_all [rowBook_apply]

theorem Pool.toInt_heldRow {p : Pool} {reserved : ℤ} (hp : p.Balanced reserved) :
    (saturatingAdd p.remaining p.reserved).toInt = p.remaining.toInt + p.reserved.toInt := by
  rw [toInt_saturatingAdd_of_nonneg hp.remaining_nonneg hp.reserved_nonneg]
  have := hp.sum
  have := hp.spent_nonneg
  have := hp.refunded_nonneg
  have := p.maxAmount.toInt_lt
  omega

theorem Pool.rowBook_heldRows {p : Pool} {reserved : ℤ} (hp : p.Balanced reserved)
    (user : String) : rowBook p.heldRows user = p.heldFor user := by
  have hrow := toInt_heldRow hp
  unfold heldRows heldFor
  split <;> simp_all [rowBook_apply]

namespace Ledger

variable {s : Ledger}

theorem rowBook_heldRows (hp : PoolInvariant s) (user : String) :
    rowBook s.heldRows user = s.heldFor user := by
  rw [heldRows, rowBook, Book.ofRows_append, Finsupp.add_apply, ← rowBook, ← rowBook,
    rowBook_sortedRows _ Hold.heldRows, rowBook_sortedRows _ Pool.heldRows]
  congr 1
  · exact Store.sumBy_congr fun _ h _ => h.rowBook_heldRows user
  · exact Store.sumBy_congr fun id p hget => Pool.rowBook_heldRows (hp.balanced id p hget) user

theorem heldRows_valid (hd : Documented s) (hp : PoolInvariant s) :
    ∀ row ∈ s.heldRows, row.1 ≠ "" ∧ 0 ≤ row.2.toInt := by
  intro row hrow
  rcases List.mem_append.mp hrow with hrow | hrow <;>
    obtain ⟨e, he, hrow⟩ := List.mem_flatMap.mp hrow
  · have hhold := hd.hold _ _ (mem_sortedRows he)
    unfold Hold.heldRows at hrow
    split at hrow
    · rw [List.mem_singleton.mp hrow]
      exact ⟨validFinanceId_ne_empty hhold.payer, hhold.positive.le⟩
    · cases hrow
  · have hpool := hp.balanced _ _ (mem_sortedRows he)
    unfold Pool.heldRows at hrow
    split at hrow
    · rw [List.mem_singleton.mp hrow]
      refine ⟨(hd.pool _ _ (mem_sortedRows he)).2, ?_⟩
      rw [Pool.toInt_heldRow hpool]
      have := hpool.remaining_nonneg
      have := hpool.reserved_nonneg
      omega
    · cases hrow

/-- The reconciler never reports a held counter that is the sum of its documents. -/
theorem held_silent (hd : Documented s) (hp : PoolInvariant s) (hn : s.wallets.Nonneg)
    (h : HeldIdentity s) (ports : Ports) (maxIssues : Nat) :
    (s.records.audit ports maxIssues).Silent .heldMismatch := by
  refine Records.audit_silent ports _ _ (by decide) (.inr ?_) (.inl (by decide))
    (.inl (by decide)) (.inl (by decide))
  rw [(scan_totals hd hp _).1]
  exact agrees_of_rows hn (heldRows_valid hd hp) fun user => by rw [h user, rowBook_heldRows hp]

end Ledger

/-- **Held balances**: in every ledger a run reaches, a user's held counter is what its open and
running holds and its open pools hold, and a reconciliation never reports it. -/
theorem held_of_run {creatures : Creatures} {es : List Event} {t : Ledger}
    (h : Run Step (.initial creatures) es t) :
    (∀ user, t.wallets.amount (user, .counter .held) = t.heldFor user) ∧
      ∀ ports caller input report,
        reconcileFinancialSystem ports t.records caller input = .ok report →
        ∀ i ∈ report.issues, i.code ≠ .heldMismatch := by
  refine ⟨HeldIdentity.of_run h, fun ports caller input report hreport => ?_⟩
  rw [reconcileFinancialSystem_ok hreport]
  exact held_silent (Documented.of_run h) (PoolInvariant.of_run h) (nonneg_of_run h)
    (HeldIdentity.of_run h) ports _

theorem held_of_pooled : (runCalls Sample.pooled Sample.ledger).heldFor "alice" = 400 ∧
      (runCalls Sample.pooled Sample.ledger).wallets.amount ("alice", .counter .held) = 400 := by
  have h := (held_of_run (run_runCalls Sample.pooled Sample.ledger (by decide))).1 "alice"
  exact ⟨by decide, h.trans (by decide)⟩

end Aseman.Finance
