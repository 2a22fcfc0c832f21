import Aseman.Finance.Operation

/-!
# Well-formed documents

Every document of a ledger that a run reaches names a payer, carries positive amounts, and, once
it is settled, accounts for what was paid out of it. The reconciler skips a document that is not
well formed, so its totals say something only because all of them are.
-/

namespace Aseman.Finance

/-! ## Documents -/

structure SettledLines (actualAmount : Option Int64)
    (settlementLines : Option (List SettlementLine)) (actual : Int64)
    (lines : List SettlementLine) : Prop where
  actual_eq : actualAmount = some actual
  lines_eq : settlementLines = some lines
  valid : ∀ line ∈ lines, line.valid
  total : actual.toInt = linesTotal lines

theorem SettledLines.actual_nonneg {actualAmount settlementLines actual lines}
    (h : SettledLines actualAmount settlementLines actual lines) : 0 ≤ actual.toInt := by
  rw [h.total]
  apply List.sum_nonneg
  intro x hx
  obtain ⟨line, hline, rfl⟩ := List.mem_map.mp hx
  exact (h.valid line hline).pos.le

structure Hold.Settled (h : Hold) (actual refunded : Int64) (lines : List SettlementLine) :
    Prop where
  lines : SettledLines h.actualAmount h.settlementLines actual lines
  refunded_eq : h.refundedAmount = some refunded
  refunded_nonneg : 0 ≤ refunded.toInt
  sum : actual.toInt + refunded.toInt = h.maxAmount.toInt
  remaining : h.remainingAmount = 0

structure Hold.WellFormed (h : Hold) : Prop where
  payer : validFinanceId h.payerUserId = true
  positive : 0 < h.maxAmount.toInt
  settled : h.status = .settled → ∃ actual refunded lines, h.Settled actual refunded lines

structure Reservation.WellFormed (r : Reservation) : Prop where
  payer : r.payerUserId ≠ ""
  pool : r.poolId ≠ ""
  positive : 0 < r.amount.toInt
  settled : r.status = .settled →
    ∃ actual lines, SettledLines r.actualAmount r.settlementLines actual lines

/-- A live debit's credits are positive amounts under the keys of valid lines. -/
structure LiveDebit.WellFormed (d : LiveDebit) : Prop where
  payer : d.payerUserId ≠ ""
  charged_nonneg : 0 ≤ d.chargedTotal.toInt
  credits_pos : ∀ key x, d.credits.get key = some x → 0 < x.toInt
  credits_key : ∀ key, (d.credits.get key).isSome →
    ∃ userId role, validFinanceId userId = true ∧ key = capKey userId role

/-! ## Ledgers -/

structure Documented (s : Ledger) : Prop where
  creature : s.wallets.account "" = none
  quote : ∀ id q, s.quotes.get id = some q →
    ∃ payer, strField q "payerUserId" = some payer ∧ validFinanceId payer = true
  hold : ∀ id h, s.holds.get id = some h → h.WellFormed
  pool : ∀ id p, s.pools.get id = some p → id ≠ "" ∧ p.payerUserId ≠ ""
  reservation : ∀ id r, s.reservations.get id = some r → r.WellFormed
  liveDebit : ∀ id d, s.liveDebits.get id = some d → d.WellFormed

namespace Documented

variable {s s' : Ledger}

/-- Each family is unchanged, or one well-formed document of it was written. -/
theorem of_wrote (h : Documented s) {t : Ledger} (hstate : s' = t)
    (haccount : ∀ user, (s'.wallets.account user).isSome = (s.wallets.account user).isSome)
    (hquotes : s.quotes.Wrote (fun _ q => ∃ payer, strField q "payerUserId" = some payer ∧
      validFinanceId payer = true) t.quotes)
    (hholds : s.holds.Wrote (fun _ h => h.WellFormed) t.holds)
    (hpools : s.pools.Wrote (fun id p => id ≠ "" ∧ p.payerUserId ≠ "") t.pools)
    (hreservations : s.reservations.Wrote (fun _ r => r.WellFormed) t.reservations)
    (hliveDebits : s.liveDebits.Wrote (fun _ d => d.WellFormed) t.liveDebits) :
    Documented s' where
  creature := by
    have := haccount ""
    simpa [h.creature] using this
  quote := hstate ▸ hquotes.get h.quote
  hold := hstate ▸ hholds.get h.hold
  pool := hstate ▸ hpools.get h.pool
  reservation := hstate ▸ hreservations.get h.reservation
  liveDebit := hstate ▸ hliveDebits.get h.liveDebit

theorem ne_empty (h : Documented s) {user} (haccount : (s.wallets.account user).isSome) :
    user ≠ "" := by
  rintro rfl
  simp [h.creature] at haccount

theorem debitedRecord (h : Documented s) {ports authorityId input reply}
    (a : DebitPoolApplied ports authorityId input s reply s') :
    (debitedRecord ports input a.chargedTotal a.recordCredits a.record).WellFormed := by
  -- the record so far is well formed, whether it is stored or new
  have hrecord : a.record.WellFormed := by
    rw [a.record_eq]
    cases hget : s.liveDebits.get input.runId with
    | some d => exact h.liveDebit _ _ hget
    | none => exact ⟨validFinanceId_ne_empty a.payer_valid, le_rfl, by simp [newLiveDebit],
        by simp [newLiveDebit]⟩
  have hcharged := a.chargedTotal_eq
  have := hrecord.charged_nonneg
  have := a.positive
  refine ⟨hrecord.payer, by dsimp only [Finance.debitedRecord]; omega,
    a.run_credits.positive hrecord.credits_pos a.totaled.credits_pos, fun key hkey => ?_⟩
  rcases a.run_credits.mem key hkey with hbefore | hnew
  · exact hrecord.credits_key key hbefore
  · obtain ⟨line, hline, rfl⟩ := a.totaled.credits_mem key hnew
    exact ⟨line.userId, line.role, (a.totaled.valid line hline).2.1, rfl⟩

/-- **Every applied call** writes well-formed documents. -/
theorem of_applied {reply c} (hfresh : c.Fresh s) (ha : Applied s reply s' c) (h : Documented s) :
    Documented s' := by
  obtain ⟨δ, hposted⟩ := ha.posted
  have hw := hposted.account
  cases ha with
  | publishFinanceQuote a =>
    refine h.of_wrote a.state hw (.put _ _ ⟨a.payer, ?_, a.payer_valid⟩) .same .same .same .same
    rw [← a.payer_eq, publishedQuote, strField, strField, Json.Map.get_insert, Json.Map.get_insert]
    simp
  | createHold a =>
    obtain ⟨payer, hpayer, hvalid⟩ := h.quote _ _ a.quote_get
    rw [a.quote_payer, Option.some_inj] at hpayer
    subst hpayer
    exact h.of_wrote a.state hw .same (.put _ _ ⟨hvalid, a.positive, nofun⟩) .same .same .same
  | startHold a =>
    have hhold := h.hold _ _ a.hold_get
    exact h.of_wrote a.state hw .same (.put _ _ ⟨hhold.payer, hhold.positive, nofun⟩) .same .same
      .same
  | @settleHold ports authorityId input a =>
    have hhold := h.hold _ _ a.hold_get
    refine h.of_wrote a.state hw .same (.put _ _ ⟨hhold.payer, hhold.positive, fun _ =>
      ⟨a.allocation.actualAmount, a.refundAmount, input.lines, ?_⟩⟩) .same .same .same
    exact ⟨⟨rfl, rfl, a.allocated.valid, a.allocated.actual⟩, rfl, a.refund_nonneg,
      by have := a.refund_eq; dsimp only [settledHold]; omega, rfl⟩
  | releaseHold a =>
    have hhold := h.hold _ _ a.hold_get
    exact h.of_wrote a.state hw .same (.put _ _ ⟨hhold.payer, hhold.positive, fun hsettled =>
      absurd hsettled (releasedHold_not_settled _ _ _)⟩) .same .same .same
  | openPool a =>
    exact h.of_wrote a.state hw .same .same
      (.put _ _ ⟨validFinanceId_ne_empty hfresh.valid, h.ne_empty a.funded.account⟩) .same .same
  | refreshPool a | closePool a =>
    have hpool := h.pool _ _ a.pool_get
    exact h.of_wrote a.state hw .same .same (.put _ _ hpool) .same .same
  | reservePool a =>
    have hpool := h.pool _ _ a.pool_get
    exact h.of_wrote a.state hw .same .same (.put _ _ hpool)
      (.put _ _ ⟨validFinanceId_ne_empty a.payer_valid, hpool.1, a.positive, nofun⟩) .same
  | settlePool a =>
    have hpool := h.pool _ _ a.pool_get
    have hreservation := h.reservation _ _ a.reservation_get
    exact h.of_wrote a.state hw .same .same (.put _ _ hpool)
      (.put _ _ ⟨hreservation.payer, hreservation.pool, hreservation.positive, fun _ =>
        ⟨_, _, rfl, rfl, a.allocated.valid, a.allocated.actual⟩⟩) .same
  | releasePool a =>
    have hpool := h.pool _ _ a.pool_get
    have hreservation := h.reservation _ _ a.reservation_get
    exact h.of_wrote a.state hw .same .same (.put _ _ hpool)
      (.put _ _ ⟨hreservation.payer, hreservation.pool, hreservation.positive, nofun⟩) .same
  | debitPool a =>
    have hpool := h.pool _ _ a.pool_get
    exact h.of_wrote a.state hw .same .same (.put _ _ hpool) .same (.put _ _ (h.debitedRecord a))
  | _ a => exact h.of_wrote a.state hw .same .same .same .same .same

theorem initial (creatures : Creatures) : Documented (.initial creatures) where
  creature := creatures.named
  quote := by simp [Ledger.initial]
  hold := by simp [Ledger.initial]
  pool := by simp [Ledger.initial]
  reservation := by simp [Ledger.initial]
  liveDebit := by simp [Ledger.initial]

theorem of_run {creatures es t} (h : Run Step (.initial creatures) es t) : Documented t :=
  h.invariant (Step.keeps of_applied) (initial creatures)

end Documented

/-! ## Wallets -/

/-- No wallet of a ledger that a run reaches holds a negative amount. -/
theorem nonneg_of_run {creatures es t} (h : Run Step (.initial creatures) es t) :
    t.wallets.Nonneg := by
  have hstep : ∀ s e s', Step s e s' → s.wallets.Nonneg → s'.wallets.Nonneg :=
    Step.keeps fun _ ha hs => by
      obtain ⟨δ, hposted⟩ := ha.posted
      exact hposted.nonneg hs
  refine h.invariant (I := fun s => s.wallets.Nonneg) hstep fun user kind => ?_
  simp [Ledger.initial, Wallets.amount, Wallets.counterValue]

end Aseman.Finance
