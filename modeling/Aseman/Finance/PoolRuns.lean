import Aseman.Finance.Settlement

/-!
# Runs charged to a pool

The pool's settlement authority reserves a slice of a pool for a run and settles or releases it
(`reserve_pool`, `settle_pool`, `release_pool`), or charges the pool while the run goes on
(`debit_pool`).
-/

namespace Aseman.Finance

open Json Ledger
open Book (post ofRows)

/-! ## reserve_pool -/

/-- A pool whose money moved between its parts: what `reserve_pool`, `settle_pool`, `release_pool`
and `debit_pool` write. -/
def movedPool (ports : Ports) (remaining reserved spent : Int64) (pool : Pool) : Pool :=
  { pool with remaining, reserved, spent, updatedAt := ports.now }

def newReservation (ports : Ports) (input : ReservePoolInput) : Reservation where
  runId := input.runId
  poolId := input.poolId
  payerUserId := input.payerUserId
  quoteId := input.quoteId
  amount := input.maxAmount
  status := .reserved
  createdAt := ports.now

def reservePool (ports : Ports) (authorityId : String) (input : ReservePoolInput) (s : Ledger) :
    Result (Reply × Ledger) := do
  ensure (validFinanceId input.poolId ∧ validFinanceId input.payerUserId ∧
      validFinanceId input.quoteId ∧ validFinanceId input.runId)
    (denied "invalid pool, payer, quote, or run identifier")
  ensure (¬ input.maxAmount ≤ 0) (denied "reservation amount must be greater than zero")
  match s.reservations.get input.runId with
  | some existing => do
      ensure (existing.poolId = input.poolId) (denied "run already reserved against another pool")
      pure (.reservation false existing none, s)
  | none => do
      let pool ← s.getPool input.poolId
      ensure (pool.settlementAuthority = authorityId)
        (denied "caller is not this pool's settlement authority")
      ensure (pool.payerUserId = input.payerUserId) (denied "payer does not match pool")
      ensure (pool.status = .opened) (denied "pool is not open")
      ensure (¬ pool.expiresAt ≤ 0 ∧ ¬ ports.now > pool.expiresAt) (denied "pool expired")
      let quote ← s.billingQuote input.quoteId
      ensure (strField quote "payerUserId" = some input.payerUserId)
        (denied "quote payer does not match reservation")
      ensure (strField quote "requestId" = some input.runId)
        (denied "quote is not bound to this run")
      ensure (i64Field quote "maxAmount" = some input.maxAmount)
        (denied "reservation amount does not match the quote")
      ensure (¬ pool.remaining < input.maxAmount)
        (denied "pool has insufficient remaining balance for this run")
      let reserved ← okOr (checkedAdd pool.reserved input.maxAmount)
        (denied "pool reserved overflow")
      let pool := movedPool ports (pool.remaining - input.maxAmount) reserved pool.spent pool
      let reservation := newReservation ports input
      let s := (s.putPool input.poolId pool).putReservation input.runId reservation
      let s := s.writeJournal ports "pool.reserved" input.poolId input.payerUserId
        (obj [("runId", .string input.runId), ("amount", .ofI64 input.maxAmount)])
        [input.payerUserId, authorityId]
      pure (.reservation true reservation (some ports.genJournalId), s)

structure ReservePoolApplied (ports : Ports) (authorityId : String) (input : ReservePoolInput)
    (s : Ledger) (r : Reply) (s' : Ledger) where
  pool : Pool
  reserved : Int64
  payload : Value
  participants : List String
  run_valid : validFinanceId input.runId = true
  payer_valid : validFinanceId input.payerUserId = true
  fresh : s.reservations.get input.runId = none
  positive : 0 < input.maxAmount.toInt
  pool_get : s.pools.get input.poolId = some pool
  authority : pool.settlementAuthority = authorityId
  payer : pool.payerUserId = input.payerUserId
  opened : pool.status = .opened
  covered : input.maxAmount.toInt ≤ pool.remaining.toInt
  reserved_eq : reserved.toInt = pool.reserved.toInt + input.maxAmount.toInt
  remaining_eq : (pool.remaining - input.maxAmount).toInt =
    pool.remaining.toInt - input.maxAmount.toInt
  reply : r = .reservation true (newReservation ports input) (some ports.genJournalId)
  state : s' = ((s.putPool input.poolId (movedPool ports (pool.remaining - input.maxAmount)
      reserved pool.spent pool)).putReservation input.runId
      (newReservation ports input)).writeJournal ports "pool.reserved" input.poolId
      input.payerUserId payload participants

variable {ports : Ports} {authorityId : String} {s s' : Ledger} {r : Reply}

theorem reservePool_ok {input} (h : reservePool ports authorityId input s = .ok (r, s')) :
    (s' = s ∧ ∃ reservation, s.reservations.get input.runId = some reservation ∧
      reservation.poolId = input.poolId ∧ r = .reservation false reservation none) ∨
    Nonempty (ReservePoolApplied ports authorityId input s r s') := by
  simp only [reservePool, bind_eq_ok, ensure_eq_ok, exists_const, not_nonpos_iff_toInt] at h
  obtain ⟨hids, positive, h⟩ := h
  split at h <;>
    simp only [bind_eq_ok, ensure_eq_ok, okOr_eq_ok, pure_eq_ok, getPool,
      billingQuote, exists_const, not_lt_iff_toInt, checkedAdd_eq_some,
      Prod.mk.injEq] at h
  · next reservation hget =>
    obtain ⟨hpool, rfl, rfl⟩ := h
    exact .inl ⟨rfl, reservation, hget, hpool, rfl⟩
  · next fresh =>
    obtain ⟨pool, pool_get, authority, payer, opened, -, quote, -, -, -, -, covered, reserved,
      reserved_eq, rfl, rfl⟩ := h
    have hremaining := pool.remaining.toInt_lt
    exact .inr ⟨{
      pool, reserved, fresh, positive, pool_get, authority, payer, opened, covered, reserved_eq
      payload := _
      participants := _
      run_valid := hids.2.2.2
      payer_valid := hids.2.1
      remaining_eq := by apply toInt_sub_of_fits <;> omega
      reply := rfl
      state := rfl }⟩

/-! ## settle_pool -/

/-- A row of a quote's `beneficiaries` as the settlement reads it. -/
def beneficiaryRow (item : Value) : HoldBeneficiary where
  userId := ((item.get "userId").bind Value.asStr).getD ""
  role := ((item.get "role").bind Value.asStr).getD ""
  maxAmount := ((item.get "maxAmount").bind asI64).getD 0

/-- `quote.get("beneficiaries").and_then(Value::as_array)`. -/
def quoteBeneficiaries (quote : Map) : Result (List HoldBeneficiary) := do
  let items ← okOr ((quote.get "beneficiaries").bind Value.asArray)
    (denied "quote beneficiaries missing")
  pure (items.map beneficiaryRow)

def settlePoolLine (payerUserId : String) (caps : Store String Int64) (acc : Allocation)
    (line : SettlementLine) : Result Allocation := do
  ensure line.valid (denied "invalid settlement line")
  ensure (line.userId ≠ payerUserId) (denied "payer cannot be a settlement beneficiary")
  allocateLine "settlement beneficiary role not authorized by quote" caps acc line

def chargePool (w : Wallets) (payerId : String) (amount : Int64) : Result Wallets :=
  if amount > 0 then chargeHeld w payerId amount else .ok w

def settledReservation (ports : Ports) (input : SettlePoolInput) (actualAmount : Int64)
    (reservation : Reservation) : Reservation :=
  { reservation with
    status := .settled, settlementId := some input.settlementId,
    actualAmount := some actualAmount, usageHash := some input.usageHash,
    settlementLines := some input.lines, settledAt := some ports.now }

def settlePool (ports : Ports) (authorityId : String) (input : SettlePoolInput) (s : Ledger) :
    Result (Reply × Ledger) := do
  ensure (validFinanceId input.poolId ∧ validFinanceId input.payerUserId ∧
      validFinanceId input.quoteId ∧ validFinanceId input.runId ∧
      validFinanceId input.settlementId ∧ validFinanceHash input.usageHash)
    (denied "invalid settlement identifiers or usageHash")
  let settlementMarker := FinanceMarker.poolSettlement authorityId input.settlementId
  if s.marker settlementMarker ≠ "" then do
    let pool ← s.getPool input.poolId
    pure (.pool false pool none, s)
  else do
    let reservation ← s.getReservation input.runId
    ensure (reservation.status = .reserved) (denied "run reservation is not open for settlement")
    ensure (reservation.poolId = input.poolId ∧ reservation.payerUserId = input.payerUserId ∧
        reservation.quoteId = input.quoteId)
      (denied "settlement does not match the run reservation")
    let slice := reservation.amount
    ensure (¬ slice ≤ 0) (denied "invalid reservation amount")
    let pool ← s.getPool input.poolId
    ensure (pool.settlementAuthority = authorityId)
      (denied "caller is not this pool's settlement authority")
    ensure (pool.status = .opened) (denied "pool is not open")
    let quote ← s.billingQuote input.quoteId
    ensure (strField quote "payerUserId" = some input.payerUserId)
      (denied "quote payer does not match settlement")
    let beneficiaries ← quoteBeneficiaries quote
    let caps ← beneficiaries.foldlM (readCap "invalid quote beneficiary") ∅
    let allocation ← input.lines.foldlM (settlePoolLine input.payerUserId caps) {}
    let actualAmount := allocation.actualAmount
    ensure (¬ actualAmount > slice) (denied "settlement exceeds the run reservation")
    let (w, credits) ← creditAll (creditEarnings "settlement beneficiary not found")
      (ports.iter allocation.credits) s.wallets
    let refundToPool ← okOr (checkedSub slice actualAmount) (denied "reservation refund underflow")
    let w ← chargePool w input.payerUserId actualAmount
    let remaining ← okOr (checkedAdd pool.remaining refundToPool) (denied "pool remaining overflow")
    let reserved ← okOr (checkedSub pool.reserved slice) (denied "pool reserved underflow")
    let spent ← okOr (checkedAdd pool.spent actualAmount) (denied "pool spent overflow")
    let pool := movedPool ports remaining reserved spent pool
    let reservation := settledReservation ports input actualAmount reservation
    let s := ({ s with wallets := w }.putPool input.poolId pool).putReservation input.runId
      reservation
    let s := s.putMarker settlementMarker input.runId
    let s := s.writeJournal ports "pool.settled" input.poolId input.payerUserId
      (obj [("runId", .string input.runId), ("actual", .ofI64 actualAmount),
        ("refundedToPool", .ofI64 refundToPool)])
      ([input.payerUserId, authorityId] ++ credits.map Credit.userId)
    pure (.poolSettled actualAmount refundToPool ports.genJournalId, s)

variable {lines : List SettlementLine}

theorem settlePoolLines_ok {payerUserId caps allocation}
    (h : lines.foldlM (settlePoolLine payerUserId caps) {} = .ok allocation) :
    allocation.Of caps lines := by
  refine foldlM_induct (fun acc done => acc.Of caps done) ?_ Allocation.Of.nil h
  intro acc done line acc' hacc hline
  simp only [settlePoolLine, bind_eq_ok, ensure_eq_ok, exists_const] at hline
  exact hacc.snoc hline.1 hline.2.2

theorem chargePool_ok {w w' payerId amount} (hnonneg : 0 ≤ amount.toInt)
    (h : chargePool w payerId amount = .ok w') :
    Posted w w' (post (payerId, .counter .held) (-amount.toInt) +
      post (payerId, .counter .spent) amount.toInt) := by
  unfold chargePool at h
  split at h
  · exact chargeHeld_ok h
  · next hpos =>
    cases h
    have hzero : amount.toInt = 0 := le_antisymm (not_lt_iff_toInt.mp hpos) hnonneg
    exact (Posted.refl w).congr (by simp [hzero])

structure SettlePoolApplied (ports : Ports) (authorityId : String) (input : SettlePoolInput)
    (s : Ledger) (r : Reply) (s' : Ledger) where
  reservation : Reservation
  pool : Pool
  quote : Map
  rows : List HoldBeneficiary
  caps : Store String Int64
  allocation : Allocation
  refundToPool : Int64
  remaining : Int64
  reserved : Int64
  spent : Int64
  credits : List Credit
  credited : Wallets
  wallets : Wallets
  payload : Value
  participants : List String
  fresh : s.marker (.poolSettlement authorityId input.settlementId) = ""
  run_valid : validFinanceId input.runId = true
  reservation_get : s.reservations.get input.runId = some reservation
  open_reservation : reservation.status = .reserved
  reservation_pool : reservation.poolId = input.poolId
  reservation_payer : reservation.payerUserId = input.payerUserId
  reservation_quote : reservation.quoteId = input.quoteId
  positive : 0 < reservation.amount.toInt
  pool_get : s.pools.get input.poolId = some pool
  authority : pool.settlementAuthority = authorityId
  opened : pool.status = .opened
  quote_get : s.quotes.get input.quoteId = some quote
  rows_read : quoteBeneficiaries quote = .ok rows
  caps_read : rows.foldlM (readCap "invalid quote beneficiary") ∅ = .ok caps
  allocated : allocation.Of caps input.lines
  refund_eq : refundToPool.toInt = reservation.amount.toInt - allocation.actualAmount.toInt
  refund_nonneg : 0 ≤ refundToPool.toInt
  remaining_eq : remaining.toInt = pool.remaining.toInt + refundToPool.toInt
  reserved_eq : reserved.toInt = pool.reserved.toInt - reservation.amount.toInt
  spent_eq : spent.toInt = pool.spent.toInt + allocation.actualAmount.toInt
  credit : Credited s.wallets credited allocation.credits credits
  charge : Posted credited wallets
    (post (input.payerUserId, .counter .held) (-allocation.actualAmount.toInt) +
      post (input.payerUserId, .counter .spent) allocation.actualAmount.toInt)
  reply : r = .poolSettled allocation.actualAmount refundToPool ports.genJournalId
  state : s' = ((({ s with wallets }.putPool input.poolId
      (movedPool ports remaining reserved spent pool)).putReservation input.runId
      (settledReservation ports input allocation.actualAmount reservation)).putMarker
      (.poolSettlement authorityId input.settlementId) input.runId).writeJournal ports
      "pool.settled" input.poolId input.payerUserId payload participants

theorem settlePool_ok {input} (h : settlePool ports authorityId input s = .ok (r, s')) :
    (s' = s ∧ s.marker (.poolSettlement authorityId input.settlementId) ≠ "" ∧
      ∃ pool, s.pools.get input.poolId = some pool ∧ r = .pool false pool none) ∨
    Nonempty (SettlePoolApplied ports authorityId input s r s') := by
  simp only [settlePool, bind_eq_ok, ensure_eq_ok, exists_const] at h
  obtain ⟨hids, h⟩ := h
  split at h <;>
    simp only [bind_eq_ok, ensure_eq_ok, okOr_eq_ok, pure_eq_ok, getPool,
      getReservation, billingQuote, exists_const, Prod.exists, not_nonpos_iff_toInt,
      not_lt_iff_toInt, gt_iff_lt, checkedAdd_eq_some, checkedSub_eq_some, Prod.mk.injEq] at h
  · next hmarker =>
    obtain ⟨pool, hget, rfl, rfl⟩ := h
    exact .inl ⟨rfl, hmarker, pool, hget, rfl⟩
  · next hfresh =>
    obtain ⟨reservation, reservation_get, open_reservation, ⟨reservation_pool, reservation_payer, reservation_quote⟩, positive, pool, pool_get, authority,
      opened, quote, quote_get, -, rows, rows_read, caps, caps_read, allocation, hlines, hle, w₁, credits, hcredits,
      refund, refund_eq, w₂, hcharge, remaining, remaining_eq, reserved, reserved_eq, spent, spent_eq,
      rfl, rfl⟩ := h
    have allocated := settlePoolLines_ok hlines
    exact .inr ⟨{
      reservation, pool, quote, rows, caps, allocation, remaining, reserved, spent, credits,
      reservation_get, open_reservation, reservation_pool, reservation_payer, reservation_quote,
      positive, pool_get, authority, opened, quote_get, rows_read, caps_read, allocated, refund_eq,
      remaining_eq, reserved_eq, spent_eq
      refundToPool := refund
      credited := w₁
      wallets := w₂
      payload := _
      participants := _
      fresh := not_ne_iff.mp hfresh
      run_valid := hids.2.2.2.1
      refund_nonneg := by omega
      credit := .of_creditAll creditEarnings_ok hcredits
      charge := chargePool_ok allocated.actual_nonneg hcharge
      reply := rfl
      state := rfl }⟩

/-! ## release_pool -/

def releasedReservation (ports : Ports) (input : ReleasePoolInput) (reservation : Reservation) :
    Reservation :=
  { reservation with
    status := .released, releaseId := some input.releaseId, releaseReason := some input.reason,
    releasedAt := some ports.now }

def releasePool (ports : Ports) (callerId : String) (input : ReleasePoolInput) (s : Ledger) :
    Result (Reply × Ledger) := do
  ensure (validFinanceId input.poolId ∧ validFinanceId input.payerUserId ∧
      validFinanceId input.runId ∧ validFinanceId input.releaseId)
    (denied "invalid pool, payer, run, or release identifier")
  let reservation ← s.getReservation input.runId
  if reservation.status = .released ∧ reservation.releaseId = some input.releaseId then
    pure (.reservation false reservation none, s)
  else do
    ensure (reservation.status = .reserved) (denied "run reservation is not open for release")
    ensure (reservation.poolId = input.poolId ∧ reservation.payerUserId = input.payerUserId)
      (denied "release does not match the run reservation")
    let slice := reservation.amount
    let pool ← s.getPool input.poolId
    let authority := pool.settlementAuthority
    ensure (callerId = authority ∨
        (callerId = input.payerUserId ∧ pool.expiresAt > 0 ∧ ports.now > pool.expiresAt))
      (denied "caller may not release this reservation")
    let remaining ← okOr (checkedAdd pool.remaining slice) (denied "pool remaining overflow")
    let reserved ← okOr (checkedSub pool.reserved slice) (denied "pool reserved underflow")
    let pool := movedPool ports remaining reserved pool.spent pool
    let reservation := releasedReservation ports input reservation
    let s := (s.putPool input.poolId pool).putReservation input.runId reservation
    let s := s.writeJournal ports "pool.released" input.poolId input.payerUserId
      (obj [("runId", .string input.runId), ("amount", .ofI64 slice)])
      [input.payerUserId, authority]
    pure (.poolReleased slice ports.genJournalId, s)

structure ReleasePoolApplied (ports : Ports) (callerId : String) (input : ReleasePoolInput)
    (s : Ledger) (r : Reply) (s' : Ledger) where
  reservation : Reservation
  pool : Pool
  remaining : Int64
  reserved : Int64
  payload : Value
  participants : List String
  run_valid : validFinanceId input.runId = true
  reservation_get : s.reservations.get input.runId = some reservation
  open_reservation : reservation.status = .reserved
  reservation_pool : reservation.poolId = input.poolId
  reservation_payer : reservation.payerUserId = input.payerUserId
  pool_get : s.pools.get input.poolId = some pool
  remaining_eq : remaining.toInt = pool.remaining.toInt + reservation.amount.toInt
  reserved_eq : reserved.toInt = pool.reserved.toInt - reservation.amount.toInt
  reply : r = .poolReleased reservation.amount ports.genJournalId
  state : s' = ((s.putPool input.poolId
      (movedPool ports remaining reserved pool.spent pool)).putReservation input.runId
      (releasedReservation ports input reservation)).writeJournal ports "pool.released"
      input.poolId input.payerUserId payload participants

theorem releasePool_ok {callerId input} (h : releasePool ports callerId input s = .ok (r, s')) :
    (s' = s ∧ r.applied = false) ∨
      Nonempty (ReleasePoolApplied ports callerId input s r s') := by
  simp only [releasePool, bind_eq_ok, ensure_eq_ok, okOr_eq_ok, getReservation,
    exists_const] at h
  obtain ⟨hids, reservation, reservation_get, h⟩ := h
  split at h <;>
    simp only [bind_eq_ok, ensure_eq_ok, okOr_eq_ok, pure_eq_ok, getPool, exists_const,
      checkedAdd_eq_some, checkedSub_eq_some, Prod.mk.injEq] at h
  · obtain ⟨rfl, rfl⟩ := h
    exact .inl ⟨rfl, rfl⟩
  · obtain ⟨open_reservation, ⟨reservation_pool, reservation_payer⟩, pool, pool_get, -, remaining, remaining_eq, reserved, reserved_eq,
      rfl, rfl⟩ := h
    exact .inr ⟨{
      reservation, pool, remaining, reserved, reservation_get, open_reservation, reservation_pool,
      reservation_payer, pool_get, remaining_eq, reserved_eq
      payload := _
      participants := _
      run_valid := hids.2.2.1
      reply := rfl
      state := rfl }⟩

/-! ## debit_pool -/

/-- One round of the loop that reads which `(user, role)` pairs a quote authorizes. -/
def readRole (authorized : Store String Bool) (row : HoldBeneficiary) :
    Result (Store String Bool) := do
  ensure (row.userId ≠ "" ∧ row.role ≠ "") (denied "invalid quote beneficiary")
  pure (authorized.put (capKey row.userId row.role) true)

/-- What the loop over the lines of a debit has added up. -/
structure DebitTotals where
  delta : Int64 := 0
  credits : Store String Int64 := ∅
  userCredits : Store String Int64 := ∅

def debitPoolLine (payerUserId : String) (authorized : Store String Bool) (acc : DebitTotals)
    (line : SettlementLine) : Result DebitTotals := do
  ensure line.valid (denied "invalid debit line")
  ensure (line.userId ≠ payerUserId) (denied "payer cannot be a debit beneficiary")
  let key := capKey line.userId line.role
  ensure ((authorized.get key).isSome) (denied "debit beneficiary role not authorized by quote")
  let delta ← okOr (checkedAdd acc.delta line.amount) (denied "debit amount overflow")
  let credited ← okOr (checkedAdd ((acc.credits.get key).getD 0) line.amount)
    (denied "beneficiary amount overflow")
  let userCredited ← okOr (checkedAdd ((acc.userCredits.get line.userId).getD 0) line.amount)
    (denied "beneficiary amount overflow")
  pure
    { delta, credits := acc.credits.put key credited,
      userCredits := acc.userCredits.put line.userId userCredited }

/-- One round of the loop over the credits of `debit_pool`. -/
def creditDebit (w : Wallets) (userId : String) (amount : Int64) : Result (Wallets × Credit) := do
  ensure (userId ≠ "") (denied "invalid credit beneficiary")
  creditEarnings "debit beneficiary not found" w userId amount

/-- One round of the loop that adds a debit's credits to those of its run. -/
def addRunCredit (credits : Store String Int64) (credit : String × Int64) :
    Result (Store String Int64) := do
  let prior ← okOr (checkedAdd ((credits.get credit.1).getD 0) credit.2)
    (denied "run credit overflow")
  pure (credits.put credit.1 prior)

/-- The record of a run that was not charged before. -/
def newLiveDebit (ports : Ports) (input : DebitPoolInput) : LiveDebit where
  runId := input.runId
  poolId := input.poolId
  payerUserId := input.payerUserId
  quoteId := input.quoteId
  createdAt := ports.now
  chargedTotal := 0
  credits := ∅
  lastDebitId := input.debitId
  lastUsageHash := input.usageHash
  updatedAt := ports.now

/-- The record `debit_pool` writes; the run, pool, payer and quote stay those of the first
debit. -/
def debitedRecord (ports : Ports) (input : DebitPoolInput) (chargedTotal : Int64)
    (credits : Store String Int64) (record : LiveDebit) : LiveDebit :=
  { record with
    chargedTotal, credits, lastDebitId := input.debitId, lastUsageHash := input.usageHash,
    updatedAt := ports.now }

def debitPool (ports : Ports) (authorityId : String) (input : DebitPoolInput) (s : Ledger) :
    Result (Reply × Ledger) := do
  ensure (validFinanceId input.poolId ∧ validFinanceId input.payerUserId ∧
      validFinanceId input.quoteId ∧ validFinanceId input.runId ∧
      validFinanceId input.debitId ∧ validFinanceHash input.usageHash)
    (denied "invalid debit identifiers or usageHash")
  let debitMarker := FinanceMarker.poolDebit authorityId input.debitId
  if s.marker debitMarker ≠ "" then do
    let pool ← s.getPool input.poolId
    pure (.poolDebitReplay pool.remaining, s)
  else do
    let pool ← s.getPool input.poolId
    ensure (pool.settlementAuthority = authorityId)
      (denied "caller is not this pool's settlement authority")
    ensure (pool.payerUserId = input.payerUserId) (denied "payer does not match pool")
    ensure (pool.status = .opened) (denied "pool is not open")
    ensure (¬ pool.expiresAt ≤ 0 ∧ ¬ ports.now > pool.expiresAt) (denied "pool expired")
    let quote ← s.billingQuote input.quoteId
    ensure (strField quote "payerUserId" = some input.payerUserId)
      (denied "quote payer does not match debit")
    let beneficiaries ← quoteBeneficiaries quote
    let authorized ← beneficiaries.foldlM readRole ∅
    let totals ← input.lines.foldlM (debitPoolLine input.payerUserId authorized) {}
    let delta := totals.delta
    ensure (¬ delta ≤ 0) (denied "debit must charge a positive amount")
    let remaining := pool.remaining
    if remaining < delta then
      pure (.poolExhausted remaining, s)
    else do
      let (w, credits) ← creditAll creditDebit (ports.iter totals.userCredits) s.wallets
      let w ← chargeHeld w input.payerUserId delta
      let newRemaining ← okOr (checkedSub remaining delta) (denied "pool remaining underflow")
      let spent ← okOr (checkedAdd pool.spent delta) (denied "pool spent overflow")
      let pool := movedPool ports newRemaining pool.reserved spent pool
      let record := (s.liveDebits.get input.runId).getD (newLiveDebit ports input)
      let chargedTotal ← okOr (checkedAdd record.chargedTotal delta)
        (denied "run charged total overflow")
      let recordCredits ← (ports.iter totals.credits).foldlM addRunCredit record.credits
      let record := debitedRecord ports input chargedTotal recordCredits record
      let s := ({ s with wallets := w }.putPool input.poolId pool).putLiveDebit input.runId record
      let s := s.putMarker debitMarker input.runId
      let s := s.writeJournal ports "pool.debited" input.poolId input.payerUserId
        (obj [("runId", .string input.runId), ("amount", .ofI64 delta),
          ("remaining", .ofI64 newRemaining)])
        ([input.payerUserId, authorityId] ++ credits.map Credit.userId)
      pure (.poolDebited delta newRemaining ports.genJournalId, s)

structure DebitTotals.Of (acc : DebitTotals) (lines : List SettlementLine) : Prop where
  valid : ∀ line ∈ lines, line.valid
  delta : acc.delta.toInt = linesTotal lines
  credits : acc.credits.book = roleBook lines
  userCredits : acc.userCredits.book = userBook lines
  credits_pos : ∀ key x, acc.credits.get key = some x → 0 < x.toInt
  userCredits_pos : ∀ user x, acc.userCredits.get user = some x → 0 < x.toInt
  credits_mem : ∀ key, (acc.credits.get key).isSome →
    ∃ line ∈ lines, key = capKey line.userId line.role

theorem debitPoolLines_ok {payerUserId authorized totals}
    (h : lines.foldlM (debitPoolLine payerUserId authorized) {} = .ok totals) :
    totals.Of lines := by
  refine foldlM_induct (fun acc done => acc.Of done) ?_
    ⟨by simp, rfl, by simp [roleBook], by simp [userBook], by simp, by simp, by simp⟩ h
  intro acc done line acc' hacc hline
  simp only [debitPoolLine, bind_eq_ok, ensure_eq_ok, okOr_eq_ok, pure_eq_ok, exists_const] at hline
  obtain ⟨hvalid, -, -, delta, hdelta, credited, hcredited, user, huser, rfl⟩ := hline
  refine ⟨?_, ?_, ?_, ?_, forall_put_pos hacc.credits_pos hvalid.pos hcredited,
    forall_put_pos hacc.userCredits_pos hvalid.pos huser, ?_⟩
  · intro l hl
    rcases List.mem_append.mp hl with hl | hl
    · exact hacc.valid l hl
    · rwa [List.mem_singleton.mp hl]
  · rw [checkedAdd_eq_some.mp hdelta, hacc.delta]
    simp [linesTotal]
  · rw [Store.book_put_of_checkedAdd hcredited, hacc.credits]
    simp [roleBook]
  · rw [Store.book_put_of_checkedAdd huser, hacc.userCredits]
    simp [userBook]
  · intro key hkey
    rw [Store.get_put] at hkey
    split at hkey
    · next hk => exact ⟨line, by simp, hk⟩
    · obtain ⟨l, hl, hk⟩ := hacc.credits_mem key hkey
      exact ⟨l, List.mem_append_left _ hl, hk⟩

theorem DebitTotals.Of.sum_userCredits {acc : DebitTotals} (h : acc.Of lines) :
    acc.userCredits.sumBy (fun _ x => x.toInt) = acc.delta.toInt := by
  rw [sumBy_of_userBook h.userCredits, h.delta]

theorem creditDebit_ok {w w' userId amount c} (h : creditDebit w userId amount = .ok (w', c)) :
    Posted w w' (creditsBook [c]) ∧ c.Split (w.amount (userId, .counter .debt)) ∧
      c.userId = userId ∧ c.grossAmount = amount := by
  simp only [creditDebit, bind_eq_ok, ensure_eq_ok, exists_const] at h
  exact creditEarnings_ok h.2

/-- What the loop over a debit's credits makes of the credits of its run. -/
structure RunCredited (before : Store String Int64) (credits after : Store String Int64) :
    Prop where
  book : after.book = before.book + credits.book
  positive : (∀ key x, before.get key = some x → 0 < x.toInt) →
    (∀ key x, credits.get key = some x → 0 < x.toInt) →
    ∀ key x, after.get key = some x → 0 < x.toInt
  mem : ∀ key, (after.get key).isSome → (before.get key).isSome ∨ (credits.get key).isSome

theorem runCredits_ok {before credits after}
    (h : (ports.iter credits).foldlM addRunCredit before = .ok after) :
    RunCredited before credits after := by
  have hperm := ports.iter_perm credits
  have hbook := foldlM_induct
    (fun m done => m.book = before.book + ofRows Prod.fst (fun e => e.2.toInt) done) ?_
    (by simp) h
  refine ⟨?_, fun hbefore hcredits => ?_, ?_⟩
  · rw [hbook, credits.book_eq_ofRows, Book.ofRows_perm _ _ hperm]
  · refine foldlM_invariant (fun m => ∀ key x, m.get key = some x → 0 < x.toInt) ?_ hbefore h
    rintro m ⟨key, x⟩ m' hmem hm hadd
    simp only [addRunCredit, bind_eq_ok, okOr_eq_ok, pure_eq_ok] at hadd
    obtain ⟨y, hy, rfl⟩ := hadd
    exact forall_put_pos hm (hcredits key x (Store.mem_toList_iff.mp (hperm.mem_iff.mp hmem))) hy
  · refine foldlM_invariant (fun m => ∀ key, (m.get key).isSome →
      (before.get key).isSome ∨ (credits.get key).isSome) ?_ (fun _ hk => .inl hk) h
    rintro m ⟨key, x⟩ m' hmem hm hadd k hk
    simp only [addRunCredit, bind_eq_ok, okOr_eq_ok, pure_eq_ok] at hadd
    obtain ⟨y, -, rfl⟩ := hadd
    rw [Store.get_put] at hk
    split at hk
    · next heq =>
      rw [heq, Store.mem_toList_iff.mp (hperm.mem_iff.mp hmem)]
      exact .inr rfl
    · exact hm k hk
  · rintro m done ⟨key, x⟩ m' hm hadd
    simp only [addRunCredit, bind_eq_ok, okOr_eq_ok, pure_eq_ok] at hadd
    obtain ⟨y, hy, rfl⟩ := hadd
    rw [Store.book_put_of_checkedAdd hy, hm]
    simp [add_assoc]

structure DebitPoolApplied (ports : Ports) (authorityId : String) (input : DebitPoolInput)
    (s : Ledger) (r : Reply) (s' : Ledger) where
  pool : Pool
  totals : DebitTotals
  remaining : Int64
  spent : Int64
  record : LiveDebit
  chargedTotal : Int64
  recordCredits : Store String Int64
  credits : List Credit
  credited : Wallets
  wallets : Wallets
  payload : Value
  participants : List String
  fresh : s.marker (.poolDebit authorityId input.debitId) = ""
  run_valid : validFinanceId input.runId = true
  payer_valid : validFinanceId input.payerUserId = true
  pool_get : s.pools.get input.poolId = some pool
  authority : pool.settlementAuthority = authorityId
  payer : pool.payerUserId = input.payerUserId
  opened : pool.status = .opened
  totaled : totals.Of input.lines
  positive : 0 < totals.delta.toInt
  remaining_eq : remaining.toInt = pool.remaining.toInt - totals.delta.toInt
  remaining_nonneg : 0 ≤ remaining.toInt
  spent_eq : spent.toInt = pool.spent.toInt + totals.delta.toInt
  record_eq : record = (s.liveDebits.get input.runId).getD (newLiveDebit ports input)
  chargedTotal_eq : chargedTotal.toInt = record.chargedTotal.toInt + totals.delta.toInt
  run_credits : RunCredited record.credits totals.credits recordCredits
  credit : Credited s.wallets credited totals.userCredits credits
  charge : Posted credited wallets
    (post (input.payerUserId, .counter .held) (-totals.delta.toInt) +
      post (input.payerUserId, .counter .spent) totals.delta.toInt)
  reply : r = .poolDebited totals.delta remaining ports.genJournalId
  state : s' = ((({ s with wallets }.putPool input.poolId
      (movedPool ports remaining pool.reserved spent pool)).putLiveDebit input.runId
      (debitedRecord ports input chargedTotal recordCredits record)).putMarker
      (.poolDebit authorityId input.debitId) input.runId).writeJournal ports "pool.debited"
      input.poolId input.payerUserId payload participants

theorem debitPool_ok {input} (h : debitPool ports authorityId input s = .ok (r, s')) :
    (s' = s ∧ r.applied = false) ∨
      Nonempty (DebitPoolApplied ports authorityId input s r s') := by
  simp only [debitPool, bind_eq_ok, ensure_eq_ok, exists_const] at h
  obtain ⟨hids, h⟩ := h
  split at h <;>
    simp only [bind_eq_ok, ensure_eq_ok, okOr_eq_ok, pure_eq_ok, getPool,
      billingQuote, exists_const, not_nonpos_iff_toInt, Prod.mk.injEq] at h
  · obtain ⟨pool, -, rfl, rfl⟩ := h
    exact .inl ⟨rfl, rfl⟩
  · next hfresh =>
    obtain ⟨pool, pool_get, authority, payer, opened, -, quote, -, -, rows, -, authorized, -, totals,
      hlines, positive, h⟩ := h
    split at h <;>
      simp only [bind_eq_ok, okOr_eq_ok, pure_eq_ok, Prod.exists, checkedAdd_eq_some,
        checkedSub_eq_some, Prod.mk.injEq] at h
    · obtain ⟨rfl, rfl⟩ := h
      exact .inl ⟨rfl, rfl⟩
    · next hcovered =>
      obtain ⟨w₁, credits, hcredits, w₂, hcharge, remaining, remaining_eq, spent, spent_eq, charged,
        chargedTotal_eq, recordCredits, hrecord, rfl, rfl⟩ := h
      have hcovered := not_lt_iff_toInt.mp hcovered
      exact .inr ⟨{
        pool, totals, remaining, spent, recordCredits, credits, pool_get, authority, payer, opened,
        positive, remaining_eq, spent_eq, chargedTotal_eq
        record := _
        chargedTotal := charged
        credited := w₁
        wallets := w₂
        payload := _
        participants := _
        fresh := not_ne_iff.mp hfresh
        run_valid := hids.2.2.2.1
        payer_valid := hids.2.1
        totaled := debitPoolLines_ok hlines
        remaining_nonneg := by omega
        record_eq := rfl
        run_credits := runCredits_ok hrecord
        credit := .of_creditAll creditDebit_ok hcredits
        charge := chargeHeld_ok hcharge
        reply := rfl
        state := rfl }⟩

end Aseman.Finance
