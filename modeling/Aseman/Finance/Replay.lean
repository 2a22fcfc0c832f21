import Aseman.Finance.Operation

/-!
# Replays

A client that lost a reply sends its call again. What makes the second call a repetition is an
identity the client chose: most operations record it as a marker, a reservation is the record of
its own run id, a release is told by the status of its reservation and a close by the status of
its pool. An identity that was spent stays spent, and a call whose identity is spent changes
nothing, whatever its other fields say.

The identity of a close is the pool together with the close id. The close id alone does not make
a close a repetition: two pools may be closed under the same one.
-/

namespace Aseman.Finance

open Ledger

/-! ## Identities -/

/-- What makes a call a repetition of an earlier one. -/
inductive Identity where
  | marker (m : FinanceMarker)
  | reservation (runId : String)
  | release (runId releaseId : String)
  | close (poolId closeId : String)
  deriving DecidableEq

/-- The marker an operation records, with its caller where that is part of it. A mint with a blank
key records none. -/
def Call.marker (c : Call) : Option FinanceMarker :=
  match c.op with
  | .createHold input => some (.holdRequest c.caller input.idempotencyKey)
  | .startHold input => some (.run c.caller input.runId)
  | .settleHold input => some (.settlement c.caller input.settlementId)
  | .releaseHold input => some (.release c.caller input.releaseId)
  | .openPool input => some (.poolOpen c.caller input.idempotencyKey)
  | .refreshPool input => some (.poolRefresh c.caller input.refreshId)
  | .closePool input => some (.poolClose input.poolId)
  | .settlePool input => some (.poolSettlement c.caller input.settlementId)
  | .debitPool input => some (.poolDebit c.caller input.debitId)
  | .requestPayout input => some (.payoutRequest c.caller input.requestId)
  | .resolvePayout input => some (.payoutResolution input.resolutionId)
  | .paymentAdjustment input => some (.paymentAdjustment input.idempotencyKey)
  | .mint input => mintMarker input.idempotencyKey
  | .reservePool _ | .releasePool _ | .publishFinanceQuote _ | .transfer _ => none

/-- The identity a call carries. Transfers, quotes and mints with a blank key carry none. -/
def Call.identity (c : Call) : Option Identity :=
  match c.op with
  | .reservePool input => some (.reservation input.runId)
  | .releasePool input => some (.release input.runId input.releaseId)
  | .closePool input => some (.close input.poolId input.closeId)
  | _ => c.marker.map .marker

def Identity.Spent (k : Identity) (s : Ledger) : Prop :=
  match k with
  | .marker m => s.markers.Has (markerKey m) (· ≠ "")
  | .reservation runId => s.reservations.Has runId fun _ => True
  | .release runId _ => s.reservations.Has runId (·.status ≠ .reserved)
  | .close poolId _ => s.pools.Has poolId (·.status = .closed)

theorem not_spent_of_marker {s m} (h : s.marker m = "") : ¬ (Identity.marker m).Spent s := by
  rintro ⟨v, hget, hv⟩
  rw [marker, hget] at h
  exact hv h

/-! ## What one applied call does to the records -/

section Applied

variable {s s' : Ledger} {r : Reply} {c : Call} {k : Identity}

theorem append_bar_ne_empty (a b : String) : a ++ "|" ++ b ≠ "" := by
  intro h
  have := congrArg String.length h
  simp [String.length_append] at this

theorem append_colon_ne_empty (a b c : String) : a ++ ":" ++ b ++ ":" ++ c ≠ "" := by
  intro h
  have := congrArg String.length h
  simp [String.length_append] at this

theorem Applied.markers (hfresh : c.Fresh s) (ha : Applied s r s' c) :
    ∃ v ≠ "", s'.markers = c.marker.elim s.markers fun m => s.markers.put (markerKey m) v := by
  cases ha with
  | createHold a | requestPayout a | resolvePayout a | paymentAdjustment a =>
    exact ⟨_, append_bar_ne_empty _ _, congrArg markers a.state⟩
  | startHold a | settleHold a | releaseHold a =>
    exact ⟨_, validFinanceId_ne_empty a.hold_valid, congrArg markers a.state⟩
  | openPool a => exact ⟨_, validFinanceId_ne_empty hfresh.valid, congrArg markers a.state⟩
  | refreshPool a =>
    exact ⟨_, validFinanceId_ne_empty a.pool_valid, congrArg markers a.state⟩
  | closePool a =>
    exact ⟨_, validFinanceId_ne_empty a.close_valid, congrArg markers a.state⟩
  | settlePool a =>
    exact ⟨_, validFinanceId_ne_empty a.run_valid, congrArg markers a.state⟩
  | debitPool a => exact ⟨_, validFinanceId_ne_empty a.run_valid, congrArg markers a.state⟩
  | mint a => exact ⟨_, append_colon_ne_empty _ _ _, congrArg markers a.state⟩
  | _ a => exact ⟨"-", by decide, by rw [a.state]; rfl⟩

/-- A reservation is written once under its run id, and never reopened. -/
theorem Applied.reservations (ha : Applied s r s' c) :
    s.reservations.Wrote (fun runId reservation =>
      s.reservations.Has runId (·.status ≠ .reserved) → reservation.status ≠ .reserved)
      s'.reservations := by
  cases ha with
  | reservePool a =>
    rw [a.state]
    refine .put _ _ fun ⟨v, hget, _⟩ => ?_
    rw [a.fresh] at hget
    cases hget
  | settlePool a | releasePool a => rw [a.state]; exact .put _ _ fun _ => nofun
  | _ a => rw [a.state]; exact .same

theorem Applied.pools (hfresh : c.Fresh s) (ha : Applied s r s' c) :
    s.pools.Wrote (fun poolId pool => s.pools.Has poolId (·.status = .closed) →
      pool.status = .closed) s'.pools := by
  -- but for a new pool and a close, the pool that is written has the status of the stored one
  have hkept : ∀ {poolId : String} {pool pool' : Pool}, s.pools.get poolId = some pool →
      pool'.status = pool.status → s.pools.Has poolId (·.status = .closed) →
      pool'.status = .closed := by
    rintro poolId pool pool' hpool hstatus ⟨v, hget, hv⟩
    rw [hpool] at hget
    cases hget
    rw [hstatus, hv]
  cases ha with
  | openPool a =>
    rw [a.state]
    refine .put _ _ fun ⟨v, hget, _⟩ => ?_
    rw [hfresh.pool] at hget
    cases hget
  | closePool a => rw [a.state]; exact .put _ _ fun _ => rfl
  | refreshPool a | reservePool a | settlePool a | releasePool a | debitPool a =>
    rw [a.state]; exact .put _ _ (hkept a.pool_get rfl)
  | _ a => rw [a.state]; exact .same

theorem Identity.Spent.of_applied (hfresh : c.Fresh s) (ha : Applied s r s' c) (h : k.Spent s) :
    k.Spent s' := by
  cases k with
  | marker m =>
    obtain ⟨v, hv, hmarkers⟩ := ha.markers hfresh
    show s'.markers.Has (markerKey m) (· ≠ "")
    rw [hmarkers]
    cases c.marker with
    | none => exact h
    | some m' => exact (Store.Wrote.put _ v fun _ => hv).has h
  | reservation runId =>
    have hwrote : s.reservations.Wrote (fun runId _ =>
        s.reservations.Has runId (fun _ => True) → True) s'.reservations :=
      ha.reservations.mono fun _ _ _ _ => trivial
    exact hwrote.has h
  | release runId releaseId => exact ha.reservations.has h
  | close poolId closeId => exact (ha.pools hfresh).has h

theorem Applied.not_spent (ha : Applied s r s' c) (hk : c.identity = some k) : ¬ k.Spent s := by
  cases ha with
  | publishFinanceQuote a => cases hk
  | transfer a => cases hk
  | reservePool a =>
    cases hk
    rintro ⟨v, hget, -⟩
    rw [a.fresh] at hget
    cases hget
  | releasePool a =>
    cases hk
    rintro ⟨v, hget, hv⟩
    rw [a.reservation_get] at hget
    cases hget
    exact hv a.open_reservation
  | closePool a =>
    cases hk
    rintro ⟨v, hget, hv⟩
    rw [a.pool_get] at hget
    cases hget
    rw [a.opened] at hv
    cases hv
  | mint a =>
    obtain ⟨m, hm, rfl⟩ := Option.map_eq_some_iff.mp hk
    exact not_spent_of_marker (a.fresh m hm)
  | _ a =>
    cases hk
    exact not_spent_of_marker a.fresh

theorem Applied.spent (hfresh : c.Fresh s) (ha : Applied s r s' c) (hk : c.identity = some k) :
    k.Spent s' := by
  -- the operations told by a marker have written it
  have hmarked : c.marker.map .marker = some k → k.Spent s' := by
    intro hmap
    obtain ⟨m, hm, rfl⟩ := Option.map_eq_some_iff.mp hmap
    obtain ⟨v, hv, hmarkers⟩ := ha.markers hfresh
    rw [hm] at hmarkers
    exact ⟨v, by rw [hmarkers]; exact Store.get_put_self _ _ _, hv⟩
  cases ha with
  | reservePool a =>
    cases hk
    rw [a.state]
    exact Store.has_put_self trivial
  | releasePool a =>
    cases hk
    rw [a.state]
    exact Store.has_put_self nofun
  | closePool a =>
    cases hk
    rw [a.state]
    exact Store.has_put_self rfl
  | _ a => exact hmarked hk

end Applied

/-! ## Runs -/

theorem Call.transact_of_spent {c : Call} {k : Identity} {t : Ledger} (hk : c.identity = some k)
    (hspent : k.Spent t) : (c.transact t).2 = t := by
  unfold Call.transact
  split
  · next r t' hrun =>
    rcases Call.run_ok hrun with ⟨hsame, -⟩ | ha
    · exact hsame
    · exact absurd hspent (ha.not_spent hk)
  · rfl

/-- **Idempotent replay**: once a call was applied under an identity, every later call that carries
the same identity leaves the ledger as it is, whatever happened in between and whatever its other
fields are. -/
theorem replay_of_run {s s' t : Ledger} {e : Event} {es : List Event} {r : Reply} {c : Call}
    {k : Identity} (h : Step s e s') (hr : e.appliedReply = some r)
    (he : e.call.identity = some k) (hrun : Run Step s' es t) (hc : c.identity = some k) :
    (c.transact t).2 = t := by
  rcases h.cases with ⟨-, hnone⟩ | ⟨r', -, ha, hfresh⟩
  · rw [hnone] at hr
    cases hr
  · apply Call.transact_of_spent hc
    exact hrun.invariant (Step.keeps Identity.Spent.of_applied) (ha.spent hfresh he)

/-- After another mint, the key of the pool asks for a pool of 30. -/
theorem replay_of_openPool : ((Sample.openPool "id2" "alice" 30).transact (runCalls
      [Sample.mint "id1" "alice" 400, Sample.openPool "id2" "alice" 400,
        Sample.mint "id3" "alice" 7] Sample.ledger)).2 =
      runCalls [Sample.mint "id1" "alice" 400, Sample.openPool "id2" "alice" 400,
        Sample.mint "id3" "alice" 7] Sample.ledger := by
  have hfresh : (Sample.openPool "id2" "alice" 400).Fresh
      (runCalls [Sample.mint "id1" "alice" 400] Sample.ledger) := by decide
  have happlied : (Event.appliedReply ⟨Sample.openPool "id2" "alice" 400,
      ((Sample.openPool "id2" "alice" 400).transact
        (runCalls [Sample.mint "id1" "alice" 400] Sample.ledger)).1⟩).isSome := by decide
  obtain ⟨r, hr⟩ := Option.isSome_iff_exists.mp happlied
  have hrun := run_runCalls [Sample.mint "id3" "alice" 7]
    (runCalls [Sample.mint "id1" "alice" 400, Sample.openPool "id2" "alice" 400] Sample.ledger)
    (by decide)
  exact replay_of_run (Step.of_fresh hfresh) hr rfl hrun rfl

def Sample.closePool (id poolId : String) : Call :=
  ⟨Sample.ports id id, "alice", .closePool { poolId, closeId := "c1", reason := "" }⟩

/-- Two pools, the first of them closed. -/
def Sample.closed : List Call :=
  [Sample.mint "id1" "alice" 400, Sample.openPool "id2" "alice" 400, Sample.mint "id3" "alice" 300,
    Sample.openPool "id4" "alice" 300, Sample.closePool "id5" "id2"]

/-- The close id alone is no identity: the second pool is closed under the one that closed the
first, and its 300 come back. -/
theorem close_applies_under_used_close_id :
    Run Step Sample.ledger (callEvents Sample.closed Sample.ledger)
        (runCalls Sample.closed Sample.ledger) ∧
      ((callEvents Sample.closed Sample.ledger)[4]?.bind Event.appliedReply).isSome ∧
      (runCalls Sample.closed Sample.ledger).wallets.amount ("alice", .available) = 400 ∧
      ((Sample.closePool "id6" "id4").transact
        (runCalls Sample.closed Sample.ledger)).2.wallets.amount ("alice", .available) = 700 :=
  ⟨run_runCalls _ _ (by decide), by decide, by decide, by decide⟩

end Aseman.Finance
