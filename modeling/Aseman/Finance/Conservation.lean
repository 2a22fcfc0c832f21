import Aseman.Finance.Operation

/-!
# Conservation of money

The worth of the wallets, `balance + held + payoutHeld - debt` summed over all users, changes only
where money enters or leaves the system: by the amounts of mints and payment adjustments, and by
the payouts resolved as paid. Every other operation moves it between the four quantities.
-/

namespace Aseman.Finance

open Ledger

open Book (post)

/-! ## Worth -/

/-- The sum over all users of `balance + held + payoutHeld - debt`. -/
def Wallets.worth (w : Wallets) : ℤ :=
  ∑ user ∈ w.users, (w.amount (user, .available) + w.amount (user, .counter .held) +
    w.amount (user, .counter .payoutHeld) - w.amount (user, .counter .debt))

def worthWeight : String × Bucket → ℤ
  | (_, .available) | (_, .counter .held) | (_, .counter .payoutHeld) => 1
  | (_, .counter .debt) => -1
  | (_, .counter _) => 0

theorem Wallets.worth_eq_total (w : Wallets) : w.worth = Book.total worthWeight w.book := by
  rw [Wallets.total_book]
  refine Finset.sum_congr rfl fun user _ => ?_
  simp [Bucket.all, worthWeight]
  ring

theorem Posted.worth {w w' δ} (h : Posted w w' δ) :
    w'.worth = w.worth + Book.total worthWeight δ := by
  rw [Wallets.worth_eq_total, Wallets.worth_eq_total, h.total]

/-- The credits of a settlement are worth what was settled: each splits its amount between the
balance and the debt. -/
theorem Credited.worth {w w' credits cs} (h : Credited w w' credits cs) :
    w'.worth = w.worth + credits.sumBy fun _ x => x.toInt := by
  rw [h.posted.worth, ← h.sum_eq fun _ x => x.toInt, creditsBook]
  simp only [map_add, Book.total_ofRows, worthWeight, zero_mul, one_mul, List.map_const',
    List.sum_replicate, smul_zero, neg_mul, neg_neg]
  rw [zero_add, add_zero, ← List.sum_map_add]
  congr 2
  exact List.map_congr_left fun c hc => (h.split c hc).gross

/-! ## The flow of an event -/

/-- The amount of an applied mint. -/
def Event.minted (e : Event) : ℤ :=
  match e.appliedReply, e.call.op with
  | some _, .mint input => input.amount.toInt
  | _, _ => 0

/-- The signed amount of an applied payment adjustment. -/
def Event.adjusted (e : Event) : ℤ :=
  match e.appliedReply, e.call.op with
  | some _, .paymentAdjustment input => input.amount.toInt
  | _, _ => 0

/-- The amount of a payout resolved as paid. -/
def Event.paidOut (e : Event) : ℤ :=
  match e.appliedReply, e.call.op with
  | some (.payout _ payout _), .resolvePayout _ =>
    if payout.status = .paid then payout.amount.toInt else 0
  | _, _ => 0

/-- **One step** moves the worth by what its event brings into the system. -/
theorem Step.worth (s : Ledger) (e : Event) (s' : Ledger) (h : Step s e s') :
    s'.wallets.worth = s.wallets.worth + (e.minted + e.adjusted - e.paidOut) := by
  obtain ⟨call, result⟩ := e
  rcases h.cases with ⟨rfl, hnone⟩ | ⟨r, hsome, ha, -⟩
  · simp [Event.minted, Event.adjusted, Event.paidOut, hnone]
  · simp only [Event.minted, Event.adjusted, Event.paidOut, hsome]
    cases ha with
    | publishFinanceQuote a | startHold a | reservePool a | releasePool a => simp [a.state]
    | createHold a =>
      have hworth := a.funded.posted.worth
      simpa [a.state, worthWeight] using hworth
    | settleHold a =>
      have hspend := a.spend.worth
      have hcredit := a.credit.worth
      have hrefund := a.refund.worth
      rw [a.allocated.sum_credits] at hcredit
      simp only [map_add, Book.total_post, worthWeight] at hspend hrefund
      simp only [a.state, putHold, putMarker, writeJournal]
      have := a.refund_eq
      omega
    | releaseHold a | requestPayout a => simpa [a.state, worthWeight] using a.posted.worth
    | openPool a | refreshPool a => simpa [a.state, worthWeight] using a.funded.posted.worth
    | closePool a =>
      have hworth := a.posted.worth
      split at hworth <;> simpa [a.state, worthWeight] using hworth
    | settlePool a =>
      have hcredit := a.credit.worth
      have hcharge := a.charge.worth
      rw [a.allocated.sum_credits] at hcredit
      simp only [map_add, Book.total_post, worthWeight] at hcharge
      simp only [a.state, putPool, putReservation, putMarker, writeJournal]
      omega
    | debitPool a =>
      have hcredit := a.credit.worth
      have hcharge := a.charge.worth
      rw [a.totaled.sum_userCredits] at hcredit
      simp only [map_add, Book.total_post, worthWeight] at hcharge
      simp only [a.state, putPool, putLiveDebit, putMarker, writeJournal]
      omega
    | resolvePayout a =>
      have hworth := a.posted.worth
      rcases a.status_eq with hstatus | hstatus <;>
        simpa [a.state, a.reply, resolvedPayout, hstatus, worthWeight] using hworth
    | paymentAdjustment a =>
      have hworth := a.adjusted.posted.worth
      have hnet := a.adjusted.net
      simp [a.state, worthWeight] at hworth ⊢
      omega
    | transfer a | mint a =>
      have hworth := a.posted.worth
      have hcredit := a.credit_eq
      simp [a.state, worthWeight] at hworth ⊢
      omega

/-- **Conservation of money** over whole runs, from any ledger. -/
theorem worth_of_run {s t : Ledger} {es : List Event} (h : Run Step s es t) :
    t.wallets.worth = s.wallets.worth + (es.map Event.minted).sum +
      (es.map Event.adjusted).sum - (es.map Event.paidOut).sum := by
  rw [Run.total Step.worth h]
  have hneg : (es.map fun e => -e.paidOut).sum = -(es.map Event.paidOut).sum := by
    rw [List.sum_neg, List.map_map]
    rfl
  simp only [sub_eq_add_neg, List.sum_map_add, hneg]
  ring

/-- A mint of 1000 and a transfer of 300. -/
def Sample.payments : List Call :=
  [Sample.mint "id1" "alice" 1000, Sample.transfer "id2" "alice" "bob" 300]

theorem worth_of_payments : (runCalls Sample.payments Sample.ledger).wallets.worth =
        Sample.ledger.wallets.worth +
          ((callEvents Sample.payments Sample.ledger).map Event.minted).sum +
          ((callEvents Sample.payments Sample.ledger).map Event.adjusted).sum -
          ((callEvents Sample.payments Sample.ledger).map Event.paidOut).sum ∧
      ((callEvents Sample.payments Sample.ledger).map Event.minted).sum = 1000 :=
  ⟨worth_of_run (run_runCalls _ _ (by decide)), by decide⟩

end Aseman.Finance
