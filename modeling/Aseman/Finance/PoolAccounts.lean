import Aseman.Finance.Operation

/-!
# Pool accounting

A pool's money is in four parts, `remaining`, `reserved`, `spent` and `refunded`. They are never
negative, they add up to what was put into the pool, the reserved part is the sum of the open
reservations of the pool, and a closed pool holds nothing. The identity links two families of
documents, so the invariant also says which pool a reservation belongs to.
-/

namespace Aseman.Finance

open Ledger

/-! ## The invariant -/

/-- The sum of the amounts of a pool's open reservations. -/
def Ledger.reservedFor (s : Ledger) (poolId : String) : ℤ := s.reservations.sumBy fun _ r =>
    if r.poolId = poolId ∧ r.status = .reserved then r.amount.toInt else 0

/-- A pool whose books balance, given the sum of its open reservations. -/
structure Pool.Balanced (p : Pool) (reservations : ℤ) : Prop where
  remaining_nonneg : 0 ≤ p.remaining.toInt
  reserved_nonneg : 0 ≤ p.reserved.toInt
  spent_nonneg : 0 ≤ p.spent.toInt
  refunded_nonneg : 0 ≤ p.refunded.toInt
  sum : p.remaining.toInt + p.reserved.toInt + p.spent.toInt + p.refunded.toInt = p.maxAmount.toInt
  reserved : p.reserved.toInt = reservations
  closed : p.status = .closed → p.remaining.toInt = 0 ∧ p.reserved.toInt = 0

structure PoolInvariant (s : Ledger) : Prop where
  balanced : ∀ id p, s.pools.get id = some p → p.Balanced (s.reservedFor id)
  amount : ∀ run r, s.reservations.get run = some r → 0 < r.amount.toInt
  payer : ∀ run r, s.reservations.get run = some r →
    ∃ p, s.pools.get r.poolId = some p ∧ p.payerUserId = r.payerUserId

namespace PoolInvariant

variable {s s' : Ledger} {id run : String} {p p' : Pool} {r r' : Reservation}

variable (h : PoolInvariant s)

include h

theorem congr (hpools : s'.pools = s.pools)
    (hres : s'.reservations = s.reservations) : PoolInvariant s' where
  balanced id p hp := by
    rw [hpools] at hp
    simpa only [reservedFor, hres] using h.balanced id p hp
  amount := by rw [hres]; exact h.amount
  payer := by rw [hpools, hres]; exact h.payer

theorem le_reservedFor (hr : s.reservations.get run = some r)
    (hopen : r.status = .reserved) : r.amount.toInt ≤ s.reservedFor r.poolId := by
  have hle := Store.le_sumBy hr (fun _ r' =>
    if r'.poolId = r.poolId ∧ r'.status = .reserved then r'.amount.toInt else 0) ?_
  · simpa [reservedFor, hopen] using hle
  · rintro ⟨run', r'⟩ hmem
    have hpos := h.amount run' r' (Store.mem_toList_iff.mp hmem)
    dsimp only
    split <;> omega

theorem payer_eq (hr : s.reservations.get run = some r) (hid : r.poolId = id)
    (hp : s.pools.get id = some p) : p.payerUserId = r.payerUserId := by
  obtain ⟨q, hq, hpay⟩ := h.payer run r hr
  rw [hid, hp] at hq
  cases hq
  exact hpay

theorem putPool (hpools : s'.pools = s.pools.put id p')
    (hres : s'.reservations = s.reservations) (hbal : p'.Balanced (s.reservedFor id))
    (hpayer : ∀ p, s.pools.get id = some p → p'.payerUserId = p.payerUserId) :
    PoolInvariant s' where
  balanced id' q hq := by
    rw [hpools, Store.get_put] at hq
    rw [reservedFor, hres]
    split at hq
    · next heq =>
      cases hq
      exact heq ▸ hbal
    · exact h.balanced id' q hq
  amount := by rw [hres]; exact h.amount
  payer run r hr := by
    rw [hres] at hr
    obtain ⟨q, hq, hpay⟩ := h.payer run r hr
    rw [hpools, Store.get_put]
    split
    · next heq => exact ⟨p', rfl, (hpayer q (heq ▸ hq)).trans hpay⟩
    · exact ⟨q, hq, hpay⟩

/-- Writing one reservation of a pool together with the pool: `d` is the change of the pool's open
reservations. -/
theorem putBoth {d} (hp : s.pools.get id = some p)
    (hpools : s'.pools = s.pools.put id p') (hres : s'.reservations = s.reservations.put run r')
    (hpool : r'.poolId = id) (hold : ∀ r, s.reservations.get run = some r → r.poolId = id)
    (hamount : 0 < r'.amount.toInt) (hpayer : p'.payerUserId = p.payerUserId)
    (hpayer' : p'.payerUserId = r'.payerUserId)
    (hd : d = (if r'.status = .reserved then r'.amount.toInt else 0) -
      ((s.reservations.get run).elim 0 fun r =>
        if r.status = .reserved then r.amount.toInt else 0))
    (hbal : p'.Balanced (s.reservedFor id + d)) : PoolInvariant s' := by
  have hsum : ∀ id', s'.reservedFor id' = s.reservedFor id' + if id' = id then d else 0 := by
    intro id'
    simp only [reservedFor, hres, Store.sumBy_put, hpool]
    cases hget : s.reservations.get run with
    | none =>
      simp only [hd, hget, Option.elim_none]
      by_cases hid : id' = id
      · simp [hid]
      · simp [hid, Ne.symm hid]
    | some r =>
      have hrid := hold r hget
      simp only [hd, hget, Option.elim_some, hrid]
      by_cases hid : id' = id
      · simp only [hid, true_and, if_true]
        ring
      · simp [hid, Ne.symm hid]
  refine ⟨fun id' q hq => ?_, fun run' q hq => ?_, fun run' q hq => ?_⟩
  · rw [hpools, Store.get_put] at hq
    rw [hsum]
    split at hq
    · next heq =>
      cases hq
      simpa [heq] using hbal
    · next hne => simpa [hne] using h.balanced id' q hq
  · rw [hres] at hq
    obtain ⟨-, rfl⟩ | ⟨-, hq⟩ := Store.get_put_eq_some hq
    · exact hamount
    · exact h.amount run' q hq
  · rw [hres, Store.get_put] at hq
    rw [hpools, Store.get_put]
    split at hq
    · cases hq
      exact ⟨p', by simp [hpool], hpayer'⟩
    · obtain ⟨q', hq', hpay⟩ := h.payer run' q hq
      split
      · next heq =>
        rw [heq, hp] at hq'
        cases hq'
        exact ⟨p', rfl, hpayer.trans hpay⟩
      · exact ⟨q', hq', hpay⟩

omit h

/-! ## Each operation keeps it -/

variable {ports : Ports} {reply : Reply}

variable (h : PoolInvariant s)

include h

theorem of_openPool {payerId input} (hfresh : s.pools.get ports.genId = none)
    (a : OpenPoolApplied ports payerId input s reply s') : PoolInvariant s' := by
  have hnone : s.reservedFor ports.genId = 0 := by
    apply List.sum_eq_zero
    intro x hx
    obtain ⟨⟨run, r⟩, hmem, rfl⟩ := List.mem_map.mp hx
    obtain ⟨p, hp, -⟩ := h.payer run r (Store.mem_toList_iff.mp hmem)
    have hne : r.poolId ≠ ports.genId := by
      rintro heq
      rw [heq, hfresh] at hp
      cases hp
    simp [hne]
  have hpos := a.positive
  refine h.putPool (congrArg pools a.state) (by simp [a.state]) ?_ (by simp [hfresh])
  rw [hnone]
  exact ⟨hpos.le, le_rfl, le_rfl, le_rfl, by simp [newPool], rfl, by simp [newPool]⟩

theorem of_refreshPool {payerId input}
    (a : RefreshPoolApplied ports payerId input s reply s') : PoolInvariant s' := by
  have hb := h.balanced _ _ a.pool_get
  have hpos := a.positive
  have hrem := a.remaining_eq
  have hmax := a.maxAmount_eq
  refine h.putPool (congrArg pools a.state) (by simp [a.state]) ?_
    (by simp [a.pool_get, refreshedPool])
  have := hb.remaining_nonneg
  have := hb.sum
  exact ⟨by dsimp only [refreshedPool]; omega, hb.reserved_nonneg, hb.spent_nonneg,
    hb.refunded_nonneg, by dsimp only [refreshedPool]; omega, hb.reserved,
    by simp [refreshedPool, a.opened]⟩

theorem of_closePool {callerId input}
    (a : ClosePoolApplied ports callerId input s reply s') : PoolInvariant s' := by
  have hb := h.balanced _ _ a.pool_get
  have hzero := a.unreserved
  have href := a.refunded_eq
  refine h.putPool (congrArg pools a.state) (by simp [a.state]) ?_
    (by simp [a.pool_get, closedPool])
  have := hb.remaining_nonneg
  have := hb.refunded_nonneg
  have := hb.sum
  exact ⟨le_rfl, hb.reserved_nonneg, hb.spent_nonneg, by dsimp only [closedPool]; omega,
    by dsimp only [closedPool]; simp only [Int64.toInt_zero]; omega, hb.reserved,
    fun _ => ⟨rfl, hzero⟩⟩

variable {authorityId : String}

theorem of_reservePool {input}
    (a : ReservePoolApplied ports authorityId input s reply s') : PoolInvariant s' := by
  have hb := h.balanced _ _ a.pool_get
  have hpos := a.positive
  have hcov := a.covered
  have hrem := a.remaining_eq
  have hres := a.reserved_eq
  refine h.putBoth (d := input.maxAmount.toInt) a.pool_get (congrArg pools a.state)
    (congrArg reservations a.state) rfl (by simp [a.fresh]) hpos rfl a.payer
    (by simp [a.fresh, newReservation]) ?_
  have := hb.reserved_nonneg
  have := hb.sum
  have := hb.reserved
  exact ⟨by dsimp only [movedPool]; omega, by dsimp only [movedPool]; omega, hb.spent_nonneg,
    hb.refunded_nonneg, by dsimp only [movedPool]; omega, by dsimp only [movedPool]; omega,
    by simp [movedPool, a.opened]⟩

theorem of_settlePool {input}
    (a : SettlePoolApplied ports authorityId input s reply s') : PoolInvariant s' := by
  have hb := h.balanced _ _ a.pool_get
  have hpos := a.positive
  have hrem := a.remaining_eq
  have hres := a.reserved_eq
  have hspent := a.spent_eq
  have hactual := a.allocated.actual_nonneg
  have href := a.refund_eq
  have href₀ := a.refund_nonneg
  have hle := h.le_reservedFor a.reservation_get a.open_reservation
  rw [a.reservation_pool] at hle
  have hpay := h.payer_eq a.reservation_get a.reservation_pool a.pool_get
  refine h.putBoth (d := -a.reservation.amount.toInt) a.pool_get (congrArg pools a.state)
    (congrArg reservations a.state) a.reservation_pool
    (by simp [a.reservation_get, a.reservation_pool]) hpos rfl hpay
    (by simp [a.reservation_get, a.open_reservation, settledReservation]) ?_
  have := hb.remaining_nonneg
  have := hb.spent_nonneg
  have := hb.sum
  have := hb.reserved
  exact ⟨by dsimp only [movedPool]; omega, by dsimp only [movedPool]; omega,
    by dsimp only [movedPool]; omega, hb.refunded_nonneg, by dsimp only [movedPool]; omega,
    by dsimp only [movedPool]; omega, by simp [movedPool, a.opened]⟩

/-- `release_pool` does not look at the pool's status; it need not, as a closed pool has no open
reservation. -/
theorem of_releasePool {callerId input}
    (a : ReleasePoolApplied ports callerId input s reply s') : PoolInvariant s' := by
  have hb := h.balanced _ _ a.pool_get
  have hpos := h.amount _ _ a.reservation_get
  have hrem := a.remaining_eq
  have hres := a.reserved_eq
  have hle := h.le_reservedFor a.reservation_get a.open_reservation
  rw [a.reservation_pool] at hle
  have hpay := h.payer_eq a.reservation_get a.reservation_pool a.pool_get
  refine h.putBoth (d := -a.reservation.amount.toInt) a.pool_get (congrArg pools a.state)
    (congrArg reservations a.state) a.reservation_pool
    (by simp [a.reservation_get, a.reservation_pool]) hpos rfl hpay
    (by simp [a.reservation_get, a.open_reservation, releasedReservation]) ?_
  have := hb.remaining_nonneg
  have := hb.sum
  have := hb.reserved
  refine ⟨by dsimp only [movedPool]; omega, by dsimp only [movedPool]; omega, hb.spent_nonneg,
    hb.refunded_nonneg, by dsimp only [movedPool]; omega, by dsimp only [movedPool]; omega, ?_⟩
  intro hclosed
  have := (hb.closed hclosed).2
  omega

theorem of_debitPool {input}
    (a : DebitPoolApplied ports authorityId input s reply s') : PoolInvariant s' := by
  have hb := h.balanced _ _ a.pool_get
  have hpos := a.positive
  have hrem := a.remaining_eq
  have hspent := a.spent_eq
  refine h.putPool (congrArg pools a.state) (by simp [a.state]) ?_ (by simp [a.pool_get, movedPool])
  have := hb.spent_nonneg
  have := hb.sum
  exact ⟨a.remaining_nonneg, hb.reserved_nonneg, by dsimp only [movedPool]; omega,
    hb.refunded_nonneg, by dsimp only [movedPool]; omega, hb.reserved,
    by simp [movedPool, a.opened]⟩

omit h

/-- **Every applied call** keeps the pools balanced. -/
theorem of_applied {c} (hfresh : c.Fresh s) (ha : Applied s reply s' c) (h : PoolInvariant s) :
    PoolInvariant s' := by
  cases ha with
  | openPool a => exact h.of_openPool hfresh.pool a
  | refreshPool a => exact h.of_refreshPool a
  | closePool a => exact h.of_closePool a
  | reservePool a => exact h.of_reservePool a
  | settlePool a => exact h.of_settlePool a
  | releasePool a => exact h.of_releasePool a
  | debitPool a => exact h.of_debitPool a
  | _ a => exact h.congr (by simp [a.state]) (by simp [a.state])

theorem initial (creatures : Creatures) : PoolInvariant (.initial creatures) where
  balanced := by simp [Ledger.initial]
  amount := by simp [Ledger.initial]
  payer := by simp [Ledger.initial]

theorem of_run {creatures es t} (h : Run Step (.initial creatures) es t) : PoolInvariant t :=
  h.invariant (Step.keeps of_applied) (initial creatures)

end PoolInvariant

/-- **Pool accounting**: in every ledger a run reaches, every pool balances. -/
theorem pool_balanced_of_run {creatures : Creatures} {es : List Event} {t : Ledger}
    (h : Run Step (.initial creatures) es t) {id : String} {p : Pool}
    (hp : t.pools.get id = some p) : p.Balanced (t.reservedFor id) :=
  (PoolInvariant.of_run h).balanced id p hp

def Sample.pooled : List Call := [Sample.mint "id1" "alice" 1000, Sample.openPool "id2" "alice" 400]

theorem pool_balanced_of_pooled :
    (newPool (Sample.ports "id2" "id2") "alice" (Sample.poolInput "id2" 400) (-600)).Balanced
      ((runCalls Sample.pooled Sample.ledger).reservedFor "id2") :=
  pool_balanced_of_run (run_runCalls Sample.pooled Sample.ledger (by decide)) (by decide)

end Aseman.Finance
