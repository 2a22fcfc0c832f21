import Aseman.Finance.Listing

/-!
# Spent and earned

What a user has spent and earned can be added up again from the documents: from the settled holds,
the settled reservations and the live debits. Only `settle_hold`, `settle_pool` and `debit_pool`
move the two counters, and each writes what it moved into one document.

The live debits of a run are one record, under the run id alone, and the record keeps the payer of
its first debit. So the sum for the earned counter always holds, and the sum for the spent counter
holds as long as a run id is debited for one payer only.
-/

namespace Aseman.Finance

open Ledger

open Book (post_apply)

/-! ## What the documents say -/

def lineCredits (lines : List SettlementLine) (user : String) : ℤ :=
  (lines.map fun line => if line.userId = user then line.amount.toInt else 0).sum

theorem userBook_apply (lines : List SettlementLine) (user : String) :
    userBook lines user = lineCredits lines user :=
  Book.ofRows_apply _ _ _ _

def Hold.spentFor (h : Hold) (user : String) : ℤ :=
  if h.payerUserId = user ∧ h.status = .settled then (h.actualAmount.getD 0).toInt else 0

def Hold.earnedFor (h : Hold) (user : String) : ℤ :=
  if h.status = .settled then lineCredits (h.settlementLines.getD []) user else 0

def Reservation.spentFor (r : Reservation) (user : String) : ℤ :=
  if r.payerUserId = user ∧ r.status = .settled then (r.actualAmount.getD 0).toInt else 0

def Reservation.earnedFor (r : Reservation) (user : String) : ℤ :=
  if r.status = .settled then lineCredits (r.settlementLines.getD []) user else 0

def LiveDebit.spentFor (d : LiveDebit) (user : String) : ℤ :=
  if d.payerUserId = user then d.chargedTotal.toInt else 0

/-- A credit belongs to the user before the bar of its key. -/
def LiveDebit.earnedFor (d : LiveDebit) (user : String) : ℤ :=
  d.credits.sumBy fun key x => if Text.before '|' key = user then x.toInt else 0

/-- The settled amounts of a payer's holds and reservations, and what its runs were charged live. -/
def Ledger.spentFor (s : Ledger) (user : String) : ℤ :=
  (s.holds.sumBy fun _ h => h.spentFor user) + (s.reservations.sumBy fun _ r => r.spentFor user) +
    s.liveDebits.sumBy fun _ d => d.spentFor user

/-- The credits of a user in settled holds, settled reservations and live debits. -/
def Ledger.earnedFor (s : Ledger) (user : String) : ℤ :=
  (s.holds.sumBy fun _ h => h.earnedFor user) + (s.reservations.sumBy fun _ r => r.earnedFor user) +
    s.liveDebits.sumBy fun _ d => d.earnedFor user

/-! ## Sums over settled documents -/

/-- A quantity of the documents that is zero where nothing is settled. -/
structure Contribution where
  hold : Hold → ℤ
  reservation : Reservation → ℤ
  liveDebit : LiveDebit → ℤ
  hold_unsettled : ∀ h, h.status ≠ .settled → hold h = 0
  reservation_unsettled : ∀ r, r.status ≠ .settled → reservation r = 0

open Contribution

def Contribution.spent (user : String) : Contribution where
  hold h := h.spentFor user
  reservation r := r.spentFor user
  liveDebit d := d.spentFor user
  hold_unsettled h hs := by simp [Hold.spentFor, hs]
  reservation_unsettled r hs := by simp [Reservation.spentFor, hs]

def Contribution.earned (user : String) : Contribution where
  hold h := h.earnedFor user
  reservation r := r.earnedFor user
  liveDebit d := d.earnedFor user
  hold_unsettled h hs := by simp [Hold.earnedFor, hs]
  reservation_unsettled r hs := by simp [Reservation.earnedFor, hs]

namespace Contribution

variable (f : Contribution)

def sum (s : Ledger) : ℤ :=
  (s.holds.sumBy fun _ h => f.hold h) + (s.reservations.sumBy fun _ r => f.reservation r) +
    s.liveDebits.sumBy fun _ d => f.liveDebit d

variable {s' : Ledger}

variable {id : String} (s : Ledger)

theorem sum_putHold {h'} (hunsettled : ∀ h, s.holds.get id = some h → h.status ≠ .settled)
    (hholds : s'.holds = s.holds.put id h') (hreservations : s'.reservations = s.reservations)
    (hliveDebits : s'.liveDebits = s.liveDebits) : f.sum s' = f.sum s + f.hold h' := by
  have hold : (s.holds.get id).elim 0 f.hold = 0 := by
    cases hget : s.holds.get id with
    | none => rfl
    | some h => exact f.hold_unsettled h (hunsettled h hget)
  rw [sum, sum, hholds, hreservations, hliveDebits, Store.sumBy_put, hold]
  ring

theorem sum_keepHold {h'} (hunsettled : ∀ h, s.holds.get id = some h → h.status ≠ .settled)
    (hholds : s'.holds = s.holds.put id h') (hreservations : s'.reservations = s.reservations)
    (hliveDebits : s'.liveDebits = s.liveDebits) (hstatus : h'.status ≠ .settled) :
    f.sum s' = f.sum s := by
  rw [f.sum_putHold s hunsettled hholds hreservations hliveDebits, f.hold_unsettled h' hstatus,
    add_zero]

theorem sum_putReservation {r'}
    (hunsettled : ∀ r, s.reservations.get id = some r → r.status ≠ .settled)
    (hholds : s'.holds = s.holds) (hreservations : s'.reservations = s.reservations.put id r')
    (hliveDebits : s'.liveDebits = s.liveDebits) : f.sum s' = f.sum s + f.reservation r' := by
  have hold : (s.reservations.get id).elim 0 f.reservation = 0 := by
    cases hget : s.reservations.get id with
    | none => rfl
    | some r => exact f.reservation_unsettled r (hunsettled r hget)
  rw [sum, sum, hholds, hreservations, hliveDebits, Store.sumBy_put, hold]
  ring

theorem sum_keepReservation {r'}
    (hunsettled : ∀ r, s.reservations.get id = some r → r.status ≠ .settled)
    (hholds : s'.holds = s.holds) (hreservations : s'.reservations = s.reservations.put id r')
    (hliveDebits : s'.liveDebits = s.liveDebits) (hstatus : r'.status ≠ .settled) :
    f.sum s' = f.sum s := by
  rw [f.sum_putReservation s hunsettled hholds hreservations hliveDebits,
    f.reservation_unsettled r' hstatus, add_zero]

/-- Writing a live debit over the record so far, or over a new record that contributes nothing. -/
theorem sum_putLiveDebit {d d' new} (hrecord : d = (s.liveDebits.get id).getD new)
    (hnew : f.liveDebit new = 0) (hholds : s'.holds = s.holds)
    (hreservations : s'.reservations = s.reservations)
    (hliveDebits : s'.liveDebits = s.liveDebits.put id d') :
    f.sum s' = f.sum s + (f.liveDebit d' - f.liveDebit d) := by
  have hold : (s.liveDebits.get id).elim 0 f.liveDebit = f.liveDebit d := by
    rw [hrecord]
    cases s.liveDebits.get id with
    | none => exact hnew.symm
    | some d => rfl
  rw [sum, sum, hholds, hreservations, hliveDebits, Store.sumBy_put, hold]
  ring

end Contribution

/-! ## The operations that settle nothing -/

/-- The operations that pay beneficiaries. -/
def Operation.settles : Operation → Bool
  | .settleHold _ | .settlePool _ | .debitPool _ => true
  | _ => false

variable {r : Reply} {c : Call}

/-- An operation that pays nobody moves neither the counters nor the sums. -/
theorem Applied.unsettled {s s'} (hfresh : c.Fresh s) (ha : Applied s r s' c)
    (hop : c.op.settles = false) :
    (∀ user, s'.wallets.amount (user, .counter .spent) = s.wallets.amount (user, .counter .spent)) ∧
      (∀ user, s'.wallets.amount (user, .counter .earned) =
        s.wallets.amount (user, .counter .earned)) ∧
      ∀ f : Contribution, f.sum s' = f.sum s := by
  cases ha with
  | settleHold => cases hop
  | settlePool => cases hop
  | debitPool => cases hop
  | publishFinanceQuote a =>
    rw [a.state]
    exact ⟨fun _ => rfl, fun _ => rfl, fun f => rfl⟩
  | @createHold ports payerId input a =>
    rw [a.state]
    refine ⟨by simp [a.funded.posted.amount, post_apply],
      by simp [a.funded.posted.amount, post_apply], fun f => ?_⟩
    exact f.sum_keepHold s (by simp [hfresh.hold]) rfl
      rfl rfl (by nofun)
  | startHold a =>
    rw [a.state]
    refine ⟨fun _ => rfl, fun _ => rfl, fun f => ?_⟩
    exact f.sum_keepHold s (by simp [a.hold_get, a.opened]) rfl
      rfl rfl (by nofun)
  | releaseHold a =>
    rw [a.state]
    refine ⟨by simp [a.posted.amount, post_apply],
      by simp [a.posted.amount, post_apply], fun f => ?_⟩
    have hunsettled : a.hold.status ≠ .settled := fun h => by simpa [h] using a.active
    exact f.sum_keepHold s (by simp [a.hold_get, hunsettled]) rfl
      rfl rfl (releasedHold_not_settled _ _ _)
  | reservePool a =>
    rw [a.state]
    refine ⟨fun _ => rfl, fun _ => rfl, fun f => ?_⟩
    exact f.sum_keepReservation s (by simp [a.fresh]) rfl
      rfl rfl (by nofun)
  | releasePool a =>
    rw [a.state]
    refine ⟨fun _ => rfl, fun _ => rfl, fun f => ?_⟩
    exact f.sum_keepReservation s (by simp [a.reservation_get, a.open_reservation])
      rfl rfl rfl (by nofun)
  | closePool a | resolvePayout a =>
    rw [a.state]
    refine ⟨fun user => (a.posted.amount _).trans ?_, fun user => (a.posted.amount _).trans ?_,
      fun f => rfl⟩ <;> split <;> simp [post_apply]
  | openPool a | refreshPool a =>
    rw [a.state]
    exact ⟨by simp [a.funded.posted.amount, post_apply],
      by simp [a.funded.posted.amount, post_apply], fun f => rfl⟩
  | paymentAdjustment a =>
    rw [a.state]
    exact ⟨by simp [a.adjusted.posted.amount, post_apply],
      by simp [a.adjusted.posted.amount, post_apply], fun f => rfl⟩
  | _ a =>
    rw [a.state]
    exact ⟨by simp [a.posted.amount, post_apply],
      by simp [a.posted.amount, post_apply], fun f => rfl⟩

/-! ## The earned counter -/

abbrev EarnedIdentity : Ledger → Prop := CounterIdentity .earned earnedFor

theorem DebitPoolApplied.earnedFor {ports authorityId input s s'}
    (a : DebitPoolApplied ports authorityId input s r s') (user : String) :
    (debitedRecord ports input a.chargedTotal a.recordCredits a.record).earnedFor user =
      a.record.earnedFor user + lineCredits input.lines user := by
  have hsum : ∀ credits : Store String Int64,
      (credits.sumBy fun key x => if Text.before '|' key = user then x.toInt else 0) =
        Book.total (fun key => if Text.before '|' key = user then 1 else 0) credits.book := by
    intro credits
    rw [Store.total_book]
    simp only [ite_mul, one_mul, zero_mul]
  simp only [LiveDebit.earnedFor, debitedRecord, hsum, a.run_credits.book, map_add,
    a.totaled.credits, roleBook, Book.total_ofRows, lineCredits]
  congr 2
  refine List.map_congr_left fun line hline => ?_
  rw [before_capKey (a.totaled.valid line hline).2.1]
  simp only [ite_mul, one_mul, zero_mul]

namespace EarnedIdentity

variable {s s' : Ledger}

/-- **Every applied call** writes the credits it makes into a document. -/
theorem of_applied (hfresh : c.Fresh s) (ha : Applied s r s' c) (h : EarnedIdentity s) :
    EarnedIdentity s' := by
  cases hop : c.op.settles with
  | false =>
    obtain ⟨-, hearned, hdocs⟩ := ha.unsettled hfresh hop
    exact h.of_unmoved hearned fun user => hdocs (.earned user)
  | true =>
    cases ha with
    | @settleHold ports authorityId input a =>
      refine h.of_moved (lineCredits input.lines) (fun user => ?_) fun user => ?_
      · simp [a.state, a.refund.amount, a.credit.posted.amount, a.spend.amount, post_apply,
          a.credit.earned, ← Store.book_apply, a.allocated.credits, userBook_apply]
      · exact (earned user).sum_putHold s (by simp [a.hold_get, a.running])
          (congrArg holds a.state) (by simp [a.state]) (by simp [a.state])
    | @settlePool ports authorityId input a =>
      refine h.of_moved (lineCredits input.lines) (fun user => ?_) fun user => ?_
      · simp [a.state, a.charge.amount, a.credit.posted.amount, post_apply,
          a.credit.earned, ← Store.book_apply, a.allocated.credits, userBook_apply]
      · exact (earned user).sum_putReservation s
          (by simp [a.reservation_get, a.open_reservation]) (by simp [a.state])
          (congrArg reservations a.state) (by simp [a.state])
    | @debitPool ports authorityId input a =>
      refine h.of_moved (lineCredits input.lines) (fun user => ?_) fun user => ?_
      · simp [a.state, a.charge.amount, a.credit.posted.amount, post_apply,
          a.credit.earned, ← Store.book_apply, a.totaled.userCredits, userBook_apply]
      · refine ((earned user).sum_putLiveDebit s a.record_eq rfl
          (by simp [a.state]) (by simp [a.state]) (congrArg liveDebits a.state)).trans ?_
        congr 1
        simp [earned, a.earnedFor user]
    | _ => cases hop

theorem initial (creatures : Creatures) : EarnedIdentity (.initial creatures) := by
  intro user
  simp [Ledger.initial, earnedFor, Wallets.amount, Wallets.counterValue]

theorem of_run {creatures es t} (h : Run Step (.initial creatures) es t) : EarnedIdentity t :=
  h.invariant (Step.keeps of_applied) (initial creatures)

end EarnedIdentity

/-! ## The spent counter -/

abbrev SpentIdentity : Ledger → Prop := CounterIdentity .spent spentFor

/-- A debit under a run id that was debited before is for the payer of that record. -/
def Call.onePayer (c : Call) (s : Ledger) : Bool :=
  match c.op with
  | .debitPool input =>
    (s.liveDebits.get input.runId).all fun d => d.payerUserId = input.payerUserId
  | _ => true

namespace SpentIdentity

variable {s s' : Ledger}

/-- An applied call writes what it spends into a document **of the payer**, unless it debits a run
under another payer's record. -/
theorem of_applied (hfresh : c.Fresh s) (ha : Applied s r s' c) (hone : c.onePayer s)
    (h : SpentIdentity s) : SpentIdentity s' := by
  cases hop : c.op.settles with
  | false =>
    obtain ⟨hspent, -, hdocs⟩ := ha.unsettled hfresh hop
    exact h.of_unmoved hspent fun user => hdocs (.spent user)
  | true =>
    cases ha with
    | @settleHold ports authorityId input a =>
      refine h.of_moved
        (fun user => if input.payerUserId = user then a.allocation.actualAmount.toInt else 0)
        (fun user => by
          simp [a.state, a.refund.amount, a.credit.posted.amount, a.spend.amount, post_apply])
        fun user => ?_
      refine ((spent user).sum_putHold s (by simp [a.hold_get, a.running])
        (congrArg holds a.state) (by simp [a.state]) (by simp [a.state])).trans ?_
      congr 1
      simp [spent, Hold.spentFor, settledHold, a.payer]
    | @settlePool ports authorityId input a =>
      refine h.of_moved
        (fun user => if input.payerUserId = user then a.allocation.actualAmount.toInt else 0)
        (fun user => by simp [a.state, a.charge.amount, a.credit.posted.amount, post_apply])
        fun user => ?_
      refine ((spent user).sum_putReservation s
        (by simp [a.reservation_get, a.open_reservation]) (by simp [a.state])
        (congrArg reservations a.state) (by simp [a.state])).trans ?_
      congr 1
      simp [spent, Reservation.spentFor, settledReservation, a.reservation_payer]
    | @debitPool ports authorityId input a =>
      have hpayer : a.record.payerUserId = input.payerUserId := by
        rw [a.record_eq]
        cases hget : s.liveDebits.get input.runId with
        | none => rfl
        | some d => simpa [Call.onePayer, hget] using hone
      refine h.of_moved (fun user => if input.payerUserId = user then a.totals.delta.toInt else 0)
        (fun user => by simp [a.state, a.charge.amount, a.credit.posted.amount, post_apply])
        fun user => ?_
      refine ((spent user).sum_putLiveDebit s a.record_eq
        (by simp [spent, LiveDebit.spentFor, newLiveDebit]) (by simp [a.state])
        (by simp [a.state]) (congrArg liveDebits a.state)).trans ?_
      congr 1
      simp only [spent, LiveDebit.spentFor, debitedRecord, hpayer, a.chargedTotal_eq]
      split <;> ring
    | _ => cases hop

theorem initial (creatures : Creatures) : SpentIdentity (.initial creatures) := by
  intro user
  simp [Ledger.initial, spentFor, Wallets.amount, Wallets.counterValue]

/-- The identity holds in every ledger that a run with one payer for each run id reaches. -/
theorem of_run {creatures es t} (h : Run (GuardedStep Call.onePayer) (.initial creatures) es t) :
    SpentIdentity t :=
  h.invariant
    (fun s e s' hstep => GuardedStep.keeps_of (J := fun _ => True)
      (fun hfresh ha hone _ => of_applied hfresh ha hone) s e s' hstep trivial)
    (initial creatures)

end SpentIdentity

/-! ## What the reconciler expects -/

theorem Hold.rowBook_spentRows {h : Hold} (hh : h.WellFormed) (user : String) :
    rowBook h.spentRows user = h.spentFor user := by
  unfold spentRows spentFor
  split
  · next hs =>
    obtain ⟨actual, refunded, lines, hsettled⟩ := hh.settled hs
    simp [rowBook_apply, hs, hsettled.lines.actual_eq]
  · next hs => simp [rowBook_apply, hs]

theorem rowBook_lineRows (lines : Option (List SettlementLine)) (user : String) :
    rowBook ((lineRows lines).map fun l => (l.userId, l.amount)) user =
      lineCredits (lines.getD []) user := by
  simp [rowBook_apply, lineRows, lineCredits, Function.comp_def]

theorem Hold.rowBook_earnedRows (h : Hold) (user : String) :
    rowBook h.earnedRows user = h.earnedFor user := by
  unfold earnedRows earnedFor
  split
  · exact rowBook_lineRows _ _
  · rfl

theorem Reservation.rowBook_spentRows {r : Reservation} (hr : r.WellFormed) (user : String) :
    rowBook r.spentRows user = r.spentFor user := by
  unfold spentRows spentFor
  split
  · next hs =>
    obtain ⟨actual, lines, hsettled⟩ := hr.settled hs
    simp [rowBook_apply, hs, hsettled.actual_eq]
  · next hs => simp [rowBook_apply, hs]

theorem Reservation.rowBook_earnedRows (r : Reservation) (user : String) :
    rowBook r.earnedRows user = r.earnedFor user := by
  unfold earnedRows earnedFor
  split
  · exact rowBook_lineRows _ _
  · rfl

theorem LiveDebit.rowBook_spentRows (d : LiveDebit) (user : String) :
    rowBook d.spentRows user = d.spentFor user := by
  simp [rowBook_apply, spentRows, spentFor]

theorem LiveDebit.rowBook_earnedRows (d : LiveDebit) (user : String) :
    rowBook d.earnedRows user = d.earnedFor user := by
  rw [rowBook, earnedRows, Book.ofRows_perm _ _ (d.readCredits_perm.map _), ← rowBook]
  simp [rowBook_apply, earnedFor, Store.sumBy, Function.comp_def]

namespace Ledger

variable {s : Ledger}

theorem rowBook_spentRows (hd : Documented s) (user : String) :
    rowBook s.spentRows user = s.spentFor user := by
  rw [spentRows, rowBook, Book.ofRows_append, Book.ofRows_append, Finsupp.add_apply,
    Finsupp.add_apply, ← rowBook, ← rowBook, ← rowBook, rowBook_sortedRows _ Hold.spentRows,
    rowBook_sortedRows _ Reservation.spentRows, rowBook_sortedRows _ LiveDebit.spentRows, spentFor,
    add_assoc]
  congr 1
  · exact Store.sumBy_congr fun id h hget => Hold.rowBook_spentRows (hd.hold id h hget) user
  congr 1
  · exact Store.sumBy_congr fun id r hget =>
      Reservation.rowBook_spentRows (hd.reservation id r hget) user
  · exact Store.sumBy_congr fun _ d _ => d.rowBook_spentRows user

theorem rowBook_earnedRows (user : String) : rowBook s.earnedRows user = s.earnedFor user := by
  rw [earnedRows, rowBook, Book.ofRows_append, Book.ofRows_append, Finsupp.add_apply,
    Finsupp.add_apply, ← rowBook, ← rowBook, ← rowBook, rowBook_sortedRows _ Hold.earnedRows,
    rowBook_sortedRows _ Reservation.earnedRows, rowBook_sortedRows _ LiveDebit.earnedRows,
    earnedFor, add_assoc]
  simp only [Hold.rowBook_earnedRows, Reservation.rowBook_earnedRows, LiveDebit.rowBook_earnedRows]

theorem spentRows_valid (hd : Documented s) :
    ∀ row ∈ s.spentRows, row.1 ≠ "" ∧ 0 ≤ row.2.toInt := by
  intro row hrow
  rcases List.mem_append.mp hrow with hrow | hrow
  · obtain ⟨e, he, hrow⟩ := List.mem_flatMap.mp hrow
    have hhold := hd.hold _ _ (mem_sortedRows he)
    unfold Hold.spentRows at hrow
    split at hrow
    · next hs =>
      obtain ⟨actual, refunded, lines, hsettled⟩ := hhold.settled hs
      rw [List.mem_singleton.mp hrow, hsettled.lines.actual_eq]
      exact ⟨validFinanceId_ne_empty hhold.payer, hsettled.lines.actual_nonneg⟩
    · cases hrow
  rcases List.mem_append.mp hrow with hrow | hrow
  · obtain ⟨e, he, hrow⟩ := List.mem_flatMap.mp hrow
    have hreservation := hd.reservation _ _ (mem_sortedRows he)
    unfold Reservation.spentRows at hrow
    split at hrow
    · next hs =>
      obtain ⟨actual, lines, hsettled⟩ := hreservation.settled hs
      rw [List.mem_singleton.mp hrow, hsettled.actual_eq]
      exact ⟨hreservation.payer, hsettled.actual_nonneg⟩
    · cases hrow
  · obtain ⟨e, he, hrow⟩ := List.mem_flatMap.mp hrow
    have hliveDebit := hd.liveDebit _ _ (mem_sortedRows he)
    rw [List.mem_singleton.mp hrow]
    exact ⟨hliveDebit.payer, hliveDebit.charged_nonneg⟩

theorem lineRows_valid {actualAmount settlementLines actual lines}
    (h : SettledLines actualAmount settlementLines actual lines) :
    ∀ row ∈ (lineRows settlementLines).map fun l => (l.userId, l.amount),
      row.1 ≠ "" ∧ 0 ≤ row.2.toInt := by
  intro row hrow
  simp only [lineRows, h.lines_eq, Option.getD_some, List.map_map, List.mem_map,
    Function.comp_apply] at hrow
  obtain ⟨line, hline, rfl⟩ := hrow
  have hvalid := h.valid line hline
  exact ⟨validFinanceId_ne_empty hvalid.2.1, hvalid.pos.le⟩

theorem earnedRows_valid (hd : Documented s) :
    ∀ row ∈ s.earnedRows, row.1 ≠ "" ∧ 0 ≤ row.2.toInt := by
  intro row hrow
  rcases List.mem_append.mp hrow with hrow | hrow
  · obtain ⟨e, he, hrow⟩ := List.mem_flatMap.mp hrow
    unfold Hold.earnedRows at hrow
    split at hrow
    · next hs =>
      obtain ⟨actual, refunded, lines, hsettled⟩ := (hd.hold _ _ (mem_sortedRows he)).settled hs
      exact lineRows_valid hsettled.lines row hrow
    · cases hrow
  rcases List.mem_append.mp hrow with hrow | hrow
  · obtain ⟨e, he, hrow⟩ := List.mem_flatMap.mp hrow
    unfold Reservation.earnedRows at hrow
    split at hrow
    · next hs =>
      obtain ⟨actual, lines, hsettled⟩ := (hd.reservation _ _ (mem_sortedRows he)).settled hs
      exact lineRows_valid hsettled row hrow
    · cases hrow
  · obtain ⟨e, he, hrow⟩ := List.mem_flatMap.mp hrow
    obtain ⟨credit, hcredit, rfl⟩ := List.mem_map.mp hrow
    have hvalid := (hd.liveDebit _ _ (mem_sortedRows he)).credit credit hcredit
    exact ⟨hvalid.1, hvalid.2.le⟩

theorem spent_silent (hd : Documented s) (hp : PoolInvariant s) (hn : s.wallets.Nonneg)
    (h : SpentIdentity s) (ports : Ports) (maxIssues : Nat) :
    (s.records.audit ports maxIssues).Silent .spentMismatch := by
  refine Records.audit_silent ports _ _ (by decide) (.inl (by decide)) (.inl (by decide)) (.inr ?_)
    (.inl (by decide))
  rw [(scan_totals hd hp _).2.1]
  exact agrees_of_rows hn (spentRows_valid hd) fun user => by rw [h user, rowBook_spentRows hd]

theorem earned_silent (hd : Documented s) (hp : PoolInvariant s) (hn : s.wallets.Nonneg)
    (h : EarnedIdentity s) (ports : Ports) (maxIssues : Nat) :
    (s.records.audit ports maxIssues).Silent .earnedMismatch := by
  refine Records.audit_silent ports _ _ (by decide) (.inl (by decide)) (.inl (by decide))
    (.inl (by decide)) (.inr ?_)
  rw [(scan_totals hd hp _).2.2]
  exact agrees_of_rows hn (earnedRows_valid hd) fun user => by rw [h user, rowBook_earnedRows]

end Ledger

/-- **Spent and earned**: in every ledger that a run with one payer for each run id reaches, both
counters are what the documents add up to, and a reconciliation reports neither. -/
theorem spent_earned_of_run {creatures : Creatures} {es : List Event} {t : Ledger}
    (h : Run (GuardedStep Call.onePayer) (.initial creatures) es t) :
    (∀ user, t.wallets.amount (user, .counter .spent) = t.spentFor user) ∧
      (∀ user, t.wallets.amount (user, .counter .earned) = t.earnedFor user) ∧
      ∀ ports caller input report,
        reconcileFinancialSystem ports t.records caller input = .ok report →
        ∀ i ∈ report.issues, i.code ≠ .spentMismatch ∧ i.code ≠ .earnedMismatch := by
  have hrun := GuardedStep.run h
  have hd := Documented.of_run hrun
  have hp := PoolInvariant.of_run hrun
  have hn := nonneg_of_run hrun
  refine ⟨SpentIdentity.of_run h, EarnedIdentity.of_run hrun,
    fun ports caller input report hreport i hi => ?_⟩
  rw [reconcileFinancialSystem_ok hreport] at hi
  exact ⟨spent_silent hd hp hn (SpentIdentity.of_run h) ports _ i hi,
    earned_silent hd hp hn (EarnedIdentity.of_run hrun) ports _ i hi⟩

/-- A payer is debited twice for the run `run1`. -/
def Sample.onePayer : List Call :=
  [Sample.mint "id1" "alice" 1000, Sample.openPool "id2" "alice" 100,
    Sample.publish "id3" "q1" "alice", Sample.debit "id4" "alice" "id2" "q1" 10,
    Sample.debit "id5" "alice" "id2" "q1" 20]

theorem spent_of_one_payer : (runCalls Sample.onePayer Sample.ledger).spentFor "alice" = 30 ∧
      (runCalls Sample.onePayer Sample.ledger).wallets.amount ("alice", .counter .spent) = 30 := by
  have hrun : allFresh Sample.onePayer Sample.ledger = true ∧
      allGuarded Call.onePayer Sample.onePayer Sample.ledger = true ∧
      (runCalls Sample.onePayer Sample.ledger).spentFor "alice" = 30 := by decide +kernel
  obtain ⟨hfresh, hone, hspent⟩ := hrun
  have h := spent_earned_of_run (guarded_runCalls _ _ _ hfresh hone)
  exact ⟨hspent, (h.1 "alice").trans hspent⟩

/-- Two payers open pools, and both are debited for the run `run1`. -/
def Sample.twoPayers : List Call :=
  [Sample.mint "id1" "alice" 1000, Sample.mint "id2" "carol" 1000,
    Sample.openPool "id3" "alice" 100, Sample.openPool "id4" "carol" 100,
    Sample.publish "id5" "q1" "alice", Sample.publish "id6" "q2" "carol",
    Sample.debit "id7" "alice" "id3" "q1" 10, Sample.debit "id8" "carol" "id4" "q2" 20]

/-- What `carol` was charged stands in the record of `alice`, and the reconciler reports both. -/
theorem spent_mismatch_of_two_payers :
    Run Step Sample.ledger (callEvents Sample.twoPayers Sample.ledger)
        (runCalls Sample.twoPayers Sample.ledger) ∧
      (runCalls Sample.twoPayers Sample.ledger).wallets.amount ("carol", .counter .spent) = 20 ∧
      (runCalls Sample.twoPayers Sample.ledger).spentFor "carol" = 0 ∧
      ∃ report, reconcileFinancialSystem (Sample.ports "id9" "id9")
          (runCalls Sample.twoPayers Sample.ledger).records legacyRoot {} = .ok report ∧
        ∃ i ∈ report.issues, i.code = .spentMismatch := by
  -- the run is evaluated once
  have hrun : allFresh Sample.twoPayers Sample.ledger = true ∧
      (runCalls Sample.twoPayers Sample.ledger).wallets.amount ("carol", .counter .spent) = 20 ∧
      (runCalls Sample.twoPayers Sample.ledger).spentFor "carol" = 0 ∧
      ∃ i ∈ ((runCalls Sample.twoPayers Sample.ledger).records.audit
        (Sample.ports "id9" "id9") 100).issues, i.code = .spentMismatch := by
    decide +kernel
  obtain ⟨hfresh, hspent, hdocs, hissue⟩ := hrun
  obtain ⟨report, hreport, hissues⟩ := reconcileFinancialSystem_root (Sample.ports "id9" "id9")
    (runCalls Sample.twoPayers Sample.ledger).records {}
  refine ⟨run_runCalls _ _ hfresh, hspent, hdocs, report, hreport, ?_⟩
  rw [hissues]
  exact hissue

end Aseman.Finance
