import Aseman.Finance.Settlement

/-!
# Pools

A payer sets an amount aside in a pool (`open_pool`), adds to it (`refresh_pool`), and gets back
what remains (`close_pool`). What happens to the money in between is in `PoolRuns`.
-/

namespace Aseman.Finance

open Json
open Book (post post_apply)

/-! ## open_pool and refresh_pool -/

/-- The portion of `amount` a wallet must draw from its withdrawable balance. -/
def withdrawableDebitPortion (balance withdrawable amount : Int64) : Int64 :=
  saturatingSub amount (saturatingSub balance withdrawable)

/-- Move `amount` from a wallet's balance to its held counter; the second component is the
withdrawable portion. The part `open_pool` and `refresh_pool` share. -/
def fundPool (insufficient : String) (w : Wallets) (payerId : String) (amount : Int64) :
    Result (Wallets × Int64) := do
  let balance ← okOr (w.account payerId) (denied "payer creature not found")
  let withdrawable ← w.counter .withdrawable payerId
  ensure (¬ withdrawable > balance) (denied "withdrawable balance exceeds available balance")
  let portion := withdrawableDebitPortion balance withdrawable amount
  let balance' ← okOr (checkedSub balance amount) (denied insufficient)
  let withdrawable' ← okOr (checkedSub withdrawable portion)
    (denied "withdrawable composition underflow")
  let w ← w.setCounter .withdrawable payerId withdrawable'
  let w ← w.storeAccount payerId balance'
  let heldBefore ← w.counter .held payerId
  let held ← okOr (checkedAdd heldBefore amount) (denied "held balance overflow")
  let w ← w.setCounter .held payerId held
  pure (w, portion)

def newPool (ports : Ports) (payerId : String) (input : OpenPoolInput)
    (withdrawableAmount : Int64) : Pool where
  poolId := ports.genId
  payerUserId := payerId
  maxAmount := input.maxAmount
  remaining := input.maxAmount
  reserved := 0
  spent := 0
  refunded := 0
  withdrawableAmount
  settlementAuthority := input.settlementAuthority
  meterProgramId := input.meterProgramId
  status := .opened
  expiresAt := input.expiresAt
  idempotencyKey := input.idempotencyKey
  createdAt := ports.now
  updatedAt := ports.now

def openPool (ports : Ports) (payerId : String) (input : OpenPoolInput) (s : Ledger) :
    Result (Reply × Ledger) := do
  ensure (validFinanceId input.settlementAuthority ∧ validFinanceId input.meterProgramId ∧
      validFinanceId input.idempotencyKey)
    (denied "invalid authority, meter, or idempotency identifier")
  ensure (¬ input.maxAmount ≤ 0) (denied "maxAmount must be greater than zero")
  ensure (¬ input.expiresAt ≤ ports.now) (denied "pool expiry must be in the future")
  let marker := FinanceMarker.poolOpen payerId input.idempotencyKey
  let existing := s.marker marker
  if existing ≠ "" then do
    let pool ← s.getPool existing
    pure (.pool false pool none, s)
  else do
    let debt ← s.wallets.counter .debt payerId
    ensure (¬ debt > 0) (denied "wallet has outstanding payment debt")
    let (w, withdrawableAmount) ← fundPool "insufficient available balance to open this pool"
      s.wallets payerId input.maxAmount
    let pool := newPool ports payerId input withdrawableAmount
    let s := ({ s with wallets := w.putPoolOfUser payerId ports.genId }.putPool
      ports.genId pool).putMarker marker ports.genId
    let s := s.writeJournal ports "pool.opened" ports.genId payerId
      (obj [("maxAmount", .ofI64 input.maxAmount),
        ("withdrawableAmount", .ofI64 withdrawableAmount)])
      [payerId, input.settlementAuthority]
    pure (.pool true pool (some ports.genJournalId), s)

def refreshedPool (ports : Ports) (input : RefreshPoolInput)
    (maxAmount remaining withdrawableAmount : Int64) (pool : Pool) : Pool :=
  { pool with
    expiresAt := if input.expiresAt > ports.now then input.expiresAt else pool.expiresAt,
    maxAmount, remaining, withdrawableAmount, updatedAt := ports.now }

def refreshPool (ports : Ports) (payerId : String) (input : RefreshPoolInput) (s : Ledger) :
    Result (Reply × Ledger) := do
  ensure (validFinanceId input.poolId ∧ validFinanceId input.refreshId)
    (denied "invalid pool or refresh identifier")
  ensure (¬ input.amount ≤ 0) (denied "refresh amount must be greater than zero")
  let marker := FinanceMarker.poolRefresh payerId input.refreshId
  if s.marker marker ≠ "" then do
    let pool ← s.getPool input.poolId
    pure (.pool false pool none, s)
  else do
    let debt ← s.wallets.counter .debt payerId
    ensure (¬ debt > 0) (denied "wallet has outstanding payment debt")
    let pool ← s.getPool input.poolId
    ensure (pool.payerUserId = payerId) (denied "pool does not belong to caller")
    ensure (pool.status = .opened) (denied "pool is not open")
    let (w, withdrawableAdd) ← fundPool "insufficient available balance to refresh this pool"
      s.wallets payerId input.amount
    let maxAmount ← okOr (checkedAdd pool.maxAmount input.amount) (denied "pool maxAmount overflow")
    let remaining ← okOr (checkedAdd pool.remaining input.amount) (denied "pool remaining overflow")
    let poolWithdrawable ← okOr (checkedAdd pool.withdrawableAmount withdrawableAdd)
      (denied "pool withdrawable overflow")
    let pool := refreshedPool ports input maxAmount remaining poolWithdrawable pool
    let s := ({ s with wallets := w }.putPool input.poolId pool).putMarker marker input.poolId
    let s := s.writeJournal ports "pool.refreshed" input.poolId payerId
      (obj [("amount", .ofI64 input.amount), ("maxAmount", .ofI64 maxAmount)])
      [payerId, pool.settlementAuthority]
    pure (.pool true pool (some ports.genJournalId), s)

variable {payerId : String}

theorem fundPool_ok {insufficient w w' amount portion} (hpos : 0 < amount.toInt)
    (h : fundPool insufficient w payerId amount = .ok (w', portion)) :
    Funded w w' payerId amount portion := by
  simp only [fundPool, bind_eq_ok, ensure_eq_ok, okOr_eq_ok, pure_eq_ok, checkedAdd_eq_some,
    checkedSub_eq_some, exists_const, not_lt_iff_toInt, gt_iff_lt, Prod.mk.injEq,
    withdrawableDebitPortion] at h
  obtain ⟨balance, hbal, wd, hwd, hle, balance', hbal', wd', hwd', w₁, hset, w₂, hstore, held,
    hheld, held', hheld', w₃, hset', rfl, rfl⟩ := h
  obtain ⟨hwd, hwd₀⟩ := Wallets.counter_ok hwd
  obtain ⟨hheld, -⟩ := Wallets.counter_ok hheld
  have hbal₀ := Wallets.amount_of_account hbal
  have hbalance := balance.toInt_lt
  have hmax := amount.toInt_lt
  have hsub : (saturatingSub balance wd).toInt = balance.toInt - wd.toInt := by
    rw [toInt_saturatingSub_of_fits] <;> omega
  have hportion : (saturatingSub amount (saturatingSub balance wd)).toInt =
      amount.toInt - (balance.toInt - wd.toInt) := by
    rw [toInt_saturatingSub_of_fits] <;> omega
  obtain ⟨p₁, hwd₁⟩ := Posted.of_setCounter
    (d := -(saturatingSub amount (saturatingSub balance wd)).toInt) hset (by omega)
  have p₂ := Posted.of_storeAccount (d := -amount.toInt) hstore (by
    rw [hbal', ← hbal₀, p₁.amount]; simp [post_apply, sub_eq_add_neg])
  have p₃ := (Posted.of_setCounter hset' (by
    rw [hheld', hheld])).1
  exact ⟨by rw [hbal]; rfl, by omega, by omega, by omega, (p₁.trans p₂).trans p₃⟩

structure OpenPoolApplied (ports : Ports) (payerId : String) (input : OpenPoolInput)
    (s : Ledger) (r : Reply) (s' : Ledger) where
  portion : Int64
  wallets : Wallets
  payload : Value
  participants : List String
  key_valid : validFinanceId input.idempotencyKey = true
  fresh : s.marker (.poolOpen payerId input.idempotencyKey) = ""
  positive : 0 < input.maxAmount.toInt
  noDebt : s.wallets.amount (payerId, .counter .debt) = 0
  funded : Funded s.wallets wallets payerId input.maxAmount portion
  reply : r = .pool true (newPool ports payerId input portion) (some ports.genJournalId)
  state : s' = (({ s with wallets }.putPool ports.genId
      (newPool ports payerId input portion)).putMarker (.poolOpen payerId input.idempotencyKey)
      ports.genId).writeJournal ports "pool.opened" ports.genId payerId payload participants

variable {ports : Ports} {s s' : Ledger} {r : Reply}

theorem openPool_ok {input} (h : openPool ports payerId input s = .ok (r, s')) :
    (s' = s ∧ validFinanceId input.idempotencyKey ∧
      s.marker (.poolOpen payerId input.idempotencyKey) ≠ "" ∧
      ∃ pool, s.pools.get (s.marker (.poolOpen payerId input.idempotencyKey)) = some pool ∧
        r = .pool false pool none) ∨
    Nonempty (OpenPoolApplied ports payerId input s r s') := by
  simp only [openPool, bind_eq_ok, ensure_eq_ok, exists_const, not_nonpos_iff_toInt] at h
  obtain ⟨hids, positive, -, h⟩ := h
  split at h <;>
    simp only [bind_eq_ok, ensure_eq_ok, okOr_eq_ok, pure_eq_ok, Ledger.getPool, exists_const,
      Prod.exists, not_lt_iff_toInt, gt_iff_lt, Int64.toInt_zero, Prod.mk.injEq] at h
  · next hmarker =>
    obtain ⟨pool, hget, rfl, rfl⟩ := h
    exact .inl ⟨rfl, hids.2.2, hmarker, pool, hget, rfl⟩
  · next hfresh =>
    obtain ⟨debt, hdebt, hnodebt, w, portion, hfund, rfl, rfl⟩ := h
    obtain ⟨hdebt, hdebt₀⟩ := Wallets.counter_ok hdebt
    have hfunded := fundPool_ok positive hfund
    have hposted := (hfunded.posted.trans (.of_putPoolOfUser w payerId ports.genId)).congr
      (add_zero _)
    exact .inr ⟨{
      portion, positive
      wallets := w.putPoolOfUser payerId ports.genId
      payload := _
      participants := _
      key_valid := hids.2.2
      fresh := not_ne_iff.mp hfresh
      noDebt := by omega
      funded := { hfunded with posted := hposted }
      reply := rfl
      state := rfl }⟩

structure RefreshPoolApplied (ports : Ports) (payerId : String) (input : RefreshPoolInput)
    (s : Ledger) (r : Reply) (s' : Ledger) where
  pool : Pool
  portion : Int64
  maxAmount : Int64
  remaining : Int64
  poolWithdrawable : Int64
  wallets : Wallets
  payload : Value
  participants : List String
  pool_valid : validFinanceId input.poolId = true
  fresh : s.marker (.poolRefresh payerId input.refreshId) = ""
  positive : 0 < input.amount.toInt
  noDebt : s.wallets.amount (payerId, .counter .debt) = 0
  pool_get : s.pools.get input.poolId = some pool
  payer : pool.payerUserId = payerId
  opened : pool.status = .opened
  funded : Funded s.wallets wallets payerId input.amount portion
  maxAmount_eq : maxAmount.toInt = pool.maxAmount.toInt + input.amount.toInt
  remaining_eq : remaining.toInt = pool.remaining.toInt + input.amount.toInt
  withdrawable_eq : poolWithdrawable.toInt = pool.withdrawableAmount.toInt + portion.toInt
  reply : r = .pool true (refreshedPool ports input maxAmount remaining poolWithdrawable pool)
    (some ports.genJournalId)
  state : s' = (({ s with wallets }.putPool input.poolId
      (refreshedPool ports input maxAmount remaining poolWithdrawable pool)).putMarker
      (.poolRefresh payerId input.refreshId) input.poolId).writeJournal ports "pool.refreshed"
      input.poolId payerId payload participants

theorem refreshPool_ok {input} (h : refreshPool ports payerId input s = .ok (r, s')) :
    (s' = s ∧ s.marker (.poolRefresh payerId input.refreshId) ≠ "" ∧
      ∃ pool, s.pools.get input.poolId = some pool ∧ r = .pool false pool none) ∨
    Nonempty (RefreshPoolApplied ports payerId input s r s') := by
  simp only [refreshPool, bind_eq_ok, ensure_eq_ok, exists_const, not_nonpos_iff_toInt] at h
  obtain ⟨hids, positive, h⟩ := h
  split at h <;>
    simp only [bind_eq_ok, ensure_eq_ok, okOr_eq_ok, pure_eq_ok, Ledger.getPool, exists_const,
      Prod.exists, not_lt_iff_toInt, gt_iff_lt, Int64.toInt_zero, checkedAdd_eq_some,
      Prod.mk.injEq] at h
  · next hmarker =>
    obtain ⟨pool, hget, rfl, rfl⟩ := h
    exact .inl ⟨rfl, hmarker, pool, hget, rfl⟩
  · next hfresh =>
    obtain ⟨debt, hdebt, hnodebt, pool, pool_get, payer, opened, w, portion, hfund, maxAmount, maxAmount_eq,
      remaining, remaining_eq, poolWithdrawable, withdrawable_eq, rfl, rfl⟩ := h
    obtain ⟨hdebt, hdebt₀⟩ := Wallets.counter_ok hdebt
    exact .inr ⟨{
      pool, portion, maxAmount, remaining, poolWithdrawable, positive, pool_get, payer, opened,
      maxAmount_eq, remaining_eq, withdrawable_eq
      wallets := w
      payload := _
      participants := _
      pool_valid := hids.1
      fresh := not_ne_iff.mp hfresh
      noDebt := by omega
      funded := fundPool_ok positive hfund
      reply := rfl
      state := rfl }⟩

/-! ## close_pool -/

def refundPool (w : Wallets) (payerId : String) (remaining withdrawableRefund : Int64) :
    Result Wallets :=
  if remaining > 0 then refundHeld w payerId remaining withdrawableRefund else .ok w

def closedPool (ports : Ports) (input : ClosePoolInput) (refunded : Int64) (pool : Pool) : Pool :=
  { pool with
    status := .closed, refunded, remaining := 0, closeId := some input.closeId,
    closeReason := some input.reason, updatedAt := ports.now }

def closePool (ports : Ports) (callerId : String) (input : ClosePoolInput) (s : Ledger) :
    Result (Reply × Ledger) := do
  ensure (validFinanceId input.poolId ∧ validFinanceId input.closeId)
    (denied "invalid pool or close identifier")
  let pool ← s.getPool input.poolId
  let payerId := pool.payerUserId
  let authority := pool.settlementAuthority
  ensure (callerId = payerId ∨ callerId = authority) (denied "caller may not close this pool")
  let closeMarker := FinanceMarker.poolClose input.poolId
  if pool.status = .closed then do
    ensure (s.marker closeMarker = input.closeId) (denied "pool is already closed")
    pure (.pool false pool none, s)
  else do
    ensure (pool.status = .opened) (denied "pool is not open")
    ensure (pool.reserved = 0) (denied "pool has in-flight run reservations; cannot close yet")
    let remaining := pool.remaining
    let withdrawableRefund := min remaining pool.withdrawableAmount
    let w ← refundPool s.wallets payerId remaining withdrawableRefund
    let refunded ← okOr (checkedAdd pool.refunded remaining) (denied "pool refunded overflow")
    let pool := closedPool ports input refunded pool
    let s := ({ s with wallets := w }.putPool input.poolId pool).putMarker closeMarker input.closeId
    let s := s.writeJournal ports "pool.closed" input.poolId payerId
      (obj [("refunded", .ofI64 remaining), ("withdrawableRefunded", .ofI64 withdrawableRefund)])
      [payerId, authority]
    pure (.pool true pool (some ports.genJournalId), s)

theorem refundPool_ok {w w' remaining withdrawableRefund}
    (h : refundPool w payerId remaining withdrawableRefund = .ok w') :
    Posted w w' (if 0 < remaining.toInt then
      post (payerId, .counter .withdrawable) withdrawableRefund.toInt +
        post (payerId, .available) remaining.toInt +
        post (payerId, .counter .held) (-remaining.toInt) else 0) := by
  unfold refundPool at h
  split at h
  · next hpos =>
    have hpos : 0 < remaining.toInt := Int64.lt_iff_toInt_lt.mp hpos
    rw [if_pos hpos]
    exact refundHeld_ok h
  · next hpos =>
    have hpos : remaining.toInt ≤ 0 := not_lt_iff_toInt.mp hpos
    cases h
    rw [if_neg (not_lt.mpr hpos)]
    exact Posted.refl _

structure ClosePoolApplied (ports : Ports) (callerId : String) (input : ClosePoolInput)
    (s : Ledger) (r : Reply) (s' : Ledger) where
  pool : Pool
  refunded : Int64
  wallets : Wallets
  payload : Value
  participants : List String
  close_valid : validFinanceId input.closeId = true
  pool_get : s.pools.get input.poolId = some pool
  caller : callerId = pool.payerUserId ∨ callerId = pool.settlementAuthority
  opened : pool.status = .opened
  unreserved : pool.reserved.toInt = 0
  refunded_eq : refunded.toInt = pool.refunded.toInt + pool.remaining.toInt
  posted : Posted s.wallets wallets (if 0 < pool.remaining.toInt then
    post (pool.payerUserId, .counter .withdrawable)
        (min pool.remaining pool.withdrawableAmount).toInt +
      post (pool.payerUserId, .available) pool.remaining.toInt +
      post (pool.payerUserId, .counter .held) (-pool.remaining.toInt) else 0)
  reply : r = .pool true (closedPool ports input refunded pool) (some ports.genJournalId)
  state : s' = (({ s with wallets }.putPool input.poolId
      (closedPool ports input refunded pool)).putMarker (.poolClose input.poolId)
      input.closeId).writeJournal ports "pool.closed" input.poolId pool.payerUserId payload
      participants

theorem closePool_ok {callerId input} (h : closePool ports callerId input s = .ok (r, s')) :
    (s' = s ∧ ∃ pool, (callerId = pool.payerUserId ∨ callerId = pool.settlementAuthority) ∧
      r = .pool false pool none) ∨ Nonempty (ClosePoolApplied ports callerId input s r s') := by
  simp only [closePool, bind_eq_ok, ensure_eq_ok, okOr_eq_ok, Ledger.getPool, exists_const] at h
  obtain ⟨hids, pool, pool_get, caller, h⟩ := h
  split at h <;>
    simp only [bind_eq_ok, ensure_eq_ok, okOr_eq_ok, pure_eq_ok, exists_const,
      checkedAdd_eq_some, Prod.mk.injEq] at h
  · obtain ⟨-, rfl, rfl⟩ := h
    exact .inl ⟨rfl, pool, caller, rfl⟩
  · obtain ⟨opened, hreserved, w, hrefund, refunded, refunded_eq, rfl, rfl⟩ := h
    exact .inr ⟨{
      pool, refunded, pool_get, caller, opened, refunded_eq
      wallets := w
      payload := _
      participants := _
      close_valid := hids.2
      unreserved := by rw [hreserved]; rfl
      posted := refundPool_ok hrefund
      reply := rfl
      state := rfl }⟩

end Aseman.Finance
