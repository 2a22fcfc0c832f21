import Aseman.Finance.PoolAccounts
import Aseman.Finance.Replay

/-!
# What the pool operations disclose

A pool belongs to its payer and its settlement authority. The seven pool operations answer with
the pool, with one of its reservations, or with amounts of them. The answer to an applied call
goes to a party of the pool, and so does the answer to a repeated `open_pool` or `close_pool`. The
other five operations look for a repetition before they look at the caller: what they answer to a
repeated call goes to anyone who names the pool or the run.
-/

namespace Aseman.Finance

open Ledger

/-! ## Parties and answers -/

/-- The user pays for the pool or settles its runs. -/
def Pool.party (p : Pool) (user : String) : Prop :=
  user = p.payerUserId ∨ user = p.settlementAuthority

def Operation.onPool : Operation → Bool
  | .openPool _ | .refreshPool _ | .closePool _ | .reservePool _ | .settlePool _
  | .releasePool _ | .debitPool _ => true
  | _ => false

def Operation.poolNamed : Operation → Option String
  | .refreshPool input => some input.poolId
  | .closePool input => some input.poolId
  | .reservePool input => some input.poolId
  | .settlePool input => some input.poolId
  | .releasePool input => some input.poolId
  | .debitPool input => some input.poolId
  | _ => none

/-- The caller is a party of the pool that the answer shows: as a whole, by one of its
reservations, or by amounts of the pool or the reservation that the call names. -/
def Call.mayRead (c : Call) (s : Ledger) : Reply → Prop
  | .pool _ pool _ => pool.party c.caller
  | .reservation _ reservation _ => s.pools.Has reservation.poolId (·.party c.caller)
  | .poolSettled .. | .poolReleased .. | .poolDebitReplay .. | .poolExhausted ..
  | .poolDebited .. => ∃ poolId, c.op.poolNamed = some poolId ∧ s.pools.Has poolId (·.party c.caller)
  | _ => True

/-- The call repeats a refresh, settlement, debit, reservation or release, and the pool it names (for
a release: the pool of the run it names) is not the caller's. -/
def Call.repeatsForeign (c : Call) (s : Ledger) : Prop :=
  match c.op with
  | .refreshPool input => s.marker (.poolRefresh c.caller input.refreshId) ≠ "" ∧
      s.pools.Has input.poolId (¬ ·.party c.caller)
  | .settlePool input => s.marker (.poolSettlement c.caller input.settlementId) ≠ "" ∧
      s.pools.Has input.poolId (¬ ·.party c.caller)
  | .debitPool input => s.marker (.poolDebit c.caller input.debitId) ≠ "" ∧
      s.pools.Has input.poolId (¬ ·.party c.caller)
  | .reservePool input => s.reservations.Has input.runId (·.poolId = input.poolId) ∧
      s.pools.Has input.poolId (¬ ·.party c.caller)
  | .releasePool input => s.reservations.Has input.runId fun reservation =>
    reservation.status = .released ∧ reservation.releaseId = some input.releaseId ∧
      s.pools.Has reservation.poolId (¬ ·.party c.caller)
  | _ => False

/-! ## The marker of a new pool -/

/-- The texts that tell the marker rows of the operations apart. -/
def FinanceMarker.tag : FinanceMarker → String
  | .holdRequest .. => "FinanceHoldRequest::"
  | .run .. => "FinanceRun::"
  | .settlement .. => "FinanceSettlement::"
  | .release .. => "FinanceRelease::"
  | .payoutRequest .. => "FinancePayoutRequest::"
  | .payoutResolution .. => "FinancePayoutResolution::"
  | .poolOpen .. => "FinancePoolOpen::"
  | .poolRefresh .. => "FinancePoolRefresh::"
  | .poolClose .. => "FinancePoolClose::"
  | .poolSettlement .. => "FinancePoolSettlement::"
  | .poolDebit .. => "FinancePoolDebit::"
  | .paymentAdjustment .. => "PaymentAdjustment::"
  | .mintApplied .. => "MintApplied::"

/-- What follows the tag in a marker row's key. -/
def FinanceMarker.names : FinanceMarker → String
  | .holdRequest owner key | .run owner key | .settlement owner key | .release owner key
  | .payoutRequest owner key | .poolOpen owner key | .poolRefresh owner key
  | .poolSettlement owner key | .poolDebit owner key => owner ++ "::" ++ key
  | .payoutResolution key | .poolClose key | .paymentAdjustment key | .mintApplied key => key

variable (m : FinanceMarker)

theorem markerKey_eq : markerKey m = m.tag ++ m.names := by
  have hassoc : ∀ tag owner key : String,
      tag ++ owner ++ "::" ++ key = tag ++ (owner ++ "::" ++ key) := by
    intro tag owner key
    rw [String.append_assoc, String.append_assoc, String.append_assoc]
  cases m with
  | payoutResolution key => rfl
  | poolClose key => rfl
  | paymentAdjustment key => rfl
  | mintApplied key => rfl
  | _ owner key => exact hassoc _ owner key

theorem le_length_tag : 12 ≤ m.tag.toList.length := by
  cases m <;> dsimp only [FinanceMarker.tag] <;> decide

theorem take_markerKey : (markerKey m).toList.take 12 = m.tag.toList.take 12 := by
  rw [markerKey_eq, String.toList_append]
  exact List.take_append_of_le_length (le_length_tag m)

theorem markerKey_poolOpen_inj {m payer key} (h : markerKey m = markerKey (.poolOpen payer key)) :
    ∃ payer' key', m = .poolOpen payer' key' ∧ payer' ++ "::" ++ key' = payer ++ "::" ++ key := by
  have htag : m.tag.toList.take 12 = "FinancePoolOpen::".toList.take 12 := by
    rw [← take_markerKey, h, take_markerKey]
    rfl
  rw [markerKey_eq] at h
  cases m with
  | poolOpen payer' key' => exact ⟨payer', key', rfl, (String.append_right_inj _).mp h⟩
  | _ =>
    dsimp only [FinanceMarker.tag] at htag
    exact absurd htag (by decide)

/-! ## Pools keep their parties -/

section Applied

variable {s s' : Ledger} {r : Reply} {c : Call}

theorem Applied.pools_kept {P} (hfresh : c.Fresh s) (ha : Applied s r s' c)
    (hP : ∀ {p p' : Pool}, p'.payerUserId = p.payerUserId →
      p'.settlementAuthority = p.settlementAuthority → P p → P p') :
    s.pools.Wrote (fun id p => s.pools.Has id P → P p) s'.pools := by
  have hkept : ∀ {poolId : String} {pool pool' : Pool}, s.pools.get poolId = some pool →
      pool'.payerUserId = pool.payerUserId →
      pool'.settlementAuthority = pool.settlementAuthority → s.pools.Has poolId P → P pool' := by
    rintro poolId pool pool' hpool hpayer hauthority ⟨v, hget, hv⟩
    rw [hpool] at hget
    cases hget
    exact hP hpayer hauthority hv
  cases ha with
  | openPool a =>
    rw [a.state]
    refine .put _ _ fun ⟨v, hget, _⟩ => ?_
    rw [hfresh.pool] at hget
    cases hget
  | refreshPool a | closePool a | reservePool a | settlePool a | releasePool a | debitPool a =>
    rw [a.state]; exact .put _ _ (hkept a.pool_get rfl rfl)
  | _ a => rw [a.state]; exact .same

end Applied

/-- The marker of a new pool names a pool of the payer. -/
def OpenedByPayer (s : Ledger) : Prop :=
  ∀ payer key, validFinanceId key = true → s.marker (.poolOpen payer key) ≠ "" →
    s.pools.Has (s.marker (.poolOpen payer key)) (·.payerUserId = payer)

namespace OpenedByPayer

variable {s s' : Ledger} {r : Reply} {c : Call}

theorem of_applied (hfresh : c.Fresh s) (ha : Applied s r s' c) (h : OpenedByPayer s) :
    OpenedByPayer s' := by
  intro payer key hkey hne
  obtain ⟨v, -, hmarkers⟩ := ha.markers hfresh
  -- the marker is an old one, or this call opened the pool
  by_cases hold : s'.marker (.poolOpen payer key) = s.marker (.poolOpen payer key)
  · rw [hold] at hne ⊢
    have hkept := ha.pools_kept (P := (·.payerUserId = payer)) hfresh
      fun hpayer _ hp => hpayer.trans hp
    exact hkept.has (h payer key hkey hne)
  · cases hm : c.marker with
    | none =>
      rw [hm, Option.elim_none] at hmarkers
      exact absurd (by rw [marker, marker, hmarkers]) hold
    | some m =>
      rw [hm, Option.elim_some] at hmarkers
      have hsame : markerKey (.poolOpen payer key) = markerKey m := by
        by_contra hdiff
        exact hold (by rw [marker, marker, hmarkers, Store.get_put_of_ne hdiff])
      obtain ⟨payer', key', rfl, hnames⟩ := markerKey_poolOpen_inj hsame.symm
      cases ha with
      | openPool a =>
        cases hm
        obtain ⟨rfl, rfl⟩ := Text.append_colons_inj
          (colon_notMem_of_validFinanceId a.key_valid) (colon_notMem_of_validFinanceId hkey)
          hnames
        rw [a.state]
        simp only [marker, putMarker, putPool, writeJournal, Store.get_put_self, Option.getD_some]
        exact Store.has_put_self rfl
      | mint a =>
        simp only [Call.marker, mintMarker] at hm
        split at hm <;> cases hm
      | _ a => cases hm

theorem of_run {creatures es t} (h : Run Step (.initial creatures) es t) : OpenedByPayer t :=
  h.invariant (Step.keeps of_applied) (by simp [OpenedByPayer, initial, marker])

end OpenedByPayer

/-! ## Who reads the answers -/

section Answers

variable {ports : Ports} {caller : String} {s s' : Ledger} {r : Reply}

/-- An answer that shows the pool a call names, when the call repeats an earlier one. -/
theorem has_party_iff {poolId pool} (hget : s.pools.get poolId = some pool) :
    s.pools.Has poolId (·.party caller) ↔ ¬ s.pools.Has poolId (¬ ·.party caller) := by
  constructor
  · rintro ⟨p, hp, hparty⟩ ⟨p', hp', hforeign⟩
    rw [hp] at hp'
    cases hp'
    exact hforeign hparty
  · intro h
    refine ⟨pool, hget, ?_⟩
    by_contra hforeign
    exact h ⟨pool, hget, hforeign⟩

theorem party_iff {poolId pool} (hget : s.pools.get poolId = some pool) :
    pool.party caller ↔ ¬ s.pools.Has poolId (¬ ·.party caller) := by
  rw [← has_party_iff hget]
  constructor
  · intro hparty
    exact ⟨pool, hget, hparty⟩
  · rintro ⟨p, hp, hparty⟩
    rw [hget] at hp
    cases hp
    exact hparty

theorem refreshPool_reads {input} (h : refreshPool ports caller input s = .ok (r, s')) :
    (⟨ports, caller, .refreshPool input⟩ : Call).mayRead s' r ↔
      ¬ (⟨ports, caller, .refreshPool input⟩ : Call).repeatsForeign s := by
  rcases refreshPool_ok h with ⟨rfl, hmarker, pool, hget, rfl⟩ | ⟨⟨a⟩⟩
  · simpa [Call.mayRead, Call.repeatsForeign, hmarker] using party_iff hget
  · rw [a.reply]
    exact iff_of_true (.inl a.payer.symm) fun hforeign => hforeign.1 a.fresh

theorem settlePool_reads {input} (h : settlePool ports caller input s = .ok (r, s')) :
    (⟨ports, caller, .settlePool input⟩ : Call).mayRead s' r ↔
      ¬ (⟨ports, caller, .settlePool input⟩ : Call).repeatsForeign s := by
  rcases settlePool_ok h with ⟨rfl, hmarker, pool, hget, rfl⟩ | ⟨⟨a⟩⟩
  · simpa [Call.mayRead, Call.repeatsForeign, hmarker] using party_iff hget
  · rw [a.reply]
    refine iff_of_true ⟨_, rfl, ?_⟩ fun hforeign => hforeign.1 a.fresh
    rw [a.state]
    exact Store.has_put_self (.inr a.authority.symm)

theorem debitPool_reads {input} (h : debitPool ports caller input s = .ok (r, s')) :
    (⟨ports, caller, .debitPool input⟩ : Call).mayRead s' r ↔
      ¬ (⟨ports, caller, .debitPool input⟩ : Call).repeatsForeign s := by
  simp only [debitPool, bind_eq_ok, ensure_eq_ok, exists_const] at h
  obtain ⟨-, h⟩ := h
  split at h <;>
    simp only [bind_eq_ok, ensure_eq_ok, okOr_eq_ok, pure_eq_ok, getPool, exists_const,
      Prod.mk.injEq] at h
  · next hmarker =>
    obtain ⟨pool, hget, rfl, rfl⟩ := h
    simpa [Call.mayRead, Operation.poolNamed, Call.repeatsForeign, hmarker] using has_party_iff hget
  · next hmarker =>
    obtain ⟨pool, hget, hauth, -, -, -, quote, -, -, rows, -, authorized, -, totals, -, -, h⟩ := h
    refine iff_of_true ?_ fun hforeign => hmarker hforeign.1
    -- the pool may be too poor for the debit, and says so
    split at h <;>
      simp only [bind_eq_ok, okOr_eq_ok, pure_eq_ok, Prod.exists, Prod.mk.injEq] at h
    · obtain ⟨rfl, rfl⟩ := h
      exact ⟨_, rfl, pool, hget, .inr hauth.symm⟩
    · obtain ⟨w, credits, -, w', -, remaining, -, spent, -, charged, -, record, -, rfl, rfl⟩ := h
      exact ⟨_, rfl, Store.has_put_self (.inr hauth.symm)⟩

theorem reservePool_reads {input} (hinv : PoolInvariant s)
    (h : reservePool ports caller input s = .ok (r, s')) :
    (⟨ports, caller, .reservePool input⟩ : Call).mayRead s' r ↔
      ¬ (⟨ports, caller, .reservePool input⟩ : Call).repeatsForeign s := by
  rcases reservePool_ok h with ⟨rfl, reservation, hget, hpool, rfl⟩ | ⟨⟨a⟩⟩
  · obtain ⟨pool, hgetPool, -⟩ := hinv.payer _ _ hget
    have hrun : s'.reservations.Has input.runId (·.poolId = input.poolId) :=
      ⟨reservation, hget, hpool⟩
    simpa [Call.mayRead, Call.repeatsForeign, hrun, hpool] using has_party_iff hgetPool
  · rw [a.reply, a.state]
    refine iff_of_true (Store.has_put_self (.inr a.authority.symm)) ?_
    rintro ⟨⟨reservation, hget, -⟩, -⟩
    rw [a.fresh] at hget
    cases hget

theorem releasePool_reads {input} (hinv : PoolInvariant s)
    (h : releasePool ports caller input s = .ok (r, s')) :
    (⟨ports, caller, .releasePool input⟩ : Call).mayRead s' r ↔
      ¬ (⟨ports, caller, .releasePool input⟩ : Call).repeatsForeign s := by
  simp only [releasePool, bind_eq_ok, ensure_eq_ok, okOr_eq_ok, getReservation, exists_const] at h
  obtain ⟨-, reservation, hget, h⟩ := h
  obtain ⟨pool, hgetPool, hpayer⟩ := hinv.payer _ _ hget
  split at h <;>
    simp only [bind_eq_ok, ensure_eq_ok, okOr_eq_ok, pure_eq_ok, getPool, exists_const,
      Prod.mk.injEq] at h
  · next hreleased =>
    obtain ⟨rfl, rfl⟩ := h
    simpa [Call.mayRead, Call.repeatsForeign, Store.Has, hget, hreleased] using
      has_party_iff hgetPool
  · next hreleased =>
    obtain ⟨-, ⟨hpool, huser⟩, pool', hgetPool', hcaller, remaining, -, reserved, -, rfl, rfl⟩ := h
    rw [hpool, hgetPool'] at hgetPool
    cases hgetPool
    -- the authority, or the payer of an expired pool
    have hparty : pool.party caller := by
      rcases hcaller with hcaller | ⟨hcaller, -⟩
      · exact .inr hcaller
      · exact .inl (by rw [hcaller, hpayer, huser])
    refine iff_of_true ⟨_, rfl, Store.has_put_self hparty⟩ ?_
    rintro ⟨reservation', hget', hstatus, hrelease, -⟩
    rw [hget] at hget'
    cases hget'
    exact hreleased ⟨hstatus, hrelease⟩

theorem openPool_reads {input} (hopened : OpenedByPayer s)
    (h : openPool ports caller input s = .ok (r, s')) :
    (⟨ports, caller, .openPool input⟩ : Call).mayRead s' r := by
  rcases openPool_ok h with ⟨rfl, hkey, hmarker, pool, hget, rfl⟩ | ⟨⟨a⟩⟩
  · obtain ⟨pool', hget', hpayer⟩ := hopened caller input.idempotencyKey hkey hmarker
    rw [hget] at hget'
    cases hget'
    exact .inl hpayer.symm
  · rw [a.reply]
    exact .inl rfl

theorem closePool_reads {input} (h : closePool ports caller input s = .ok (r, s')) :
    (⟨ports, caller, .closePool input⟩ : Call).mayRead s' r := by
  rcases closePool_ok h with ⟨rfl, pool, hcaller, rfl⟩ | ⟨⟨a⟩⟩
  · exact hcaller
  · rw [a.reply]
    exact a.caller

end Answers

/-- **Who reads about a pool**: in every ledger a run reaches, the answer to a pool operation goes to
a party of the pool it shows, unless the call repeats a refresh, settlement, debit, reservation or
release and names a pool or run of somebody else; then it does not. -/
theorem pool_read_iff {creatures : Creatures} {es : List Event} {t s' : Ledger} {c : Call}
    {r : Reply} (h : Run Step (.initial creatures) es t) (hop : c.op.onPool = true)
    (hok : c.run t = .ok (r, s')) : c.mayRead s' r ↔ ¬ c.repeatsForeign t := by
  have hinv := PoolInvariant.of_run h
  obtain ⟨ports, caller, op⟩ := c
  cases op with
  | openPool input => exact iff_of_true (openPool_reads (.of_run h) hok) id
  | closePool input => exact iff_of_true (closePool_reads hok) id
  | refreshPool input => exact refreshPool_reads hok
  | reservePool input => exact reservePool_reads hinv hok
  | settlePool input => exact settlePool_reads hok
  | releasePool input => exact releasePool_reads hinv hok
  | debitPool input => exact debitPool_reads hok
  | _ => cases hop

namespace Sample

def refreshPool (id poolId : String) : Call :=
  ⟨ports id id, "carol", .refreshPool { poolId, refreshId := "f1", amount := 10, expiresAt := 0 }⟩

/-- A pool of `alice`, and a pool of `carol` that is refreshed. -/
def refreshed : List Call :=
  [mint "id1" "alice" 400, openPool "id2" "alice" 400, mint "id3" "carol" 50,
    openPool "id4" "carol" 40, refreshPool "id5" "id4"]

def poolAnswered (c : Call) (s : Ledger) : Option Pool :=
  match c.run s with
  | .ok (.pool _ pool _, _) => some pool
  | _ => none

end Sample

open Sample

/-- `carol` repeats the refresh of the own pool, and reads it. -/
theorem pool_read_of_refreshed :
    ∃ r s', (Sample.refreshPool "id6" "id4").run (runCalls refreshed ledger) = .ok (r, s') ∧
      (Sample.refreshPool "id6" "id4").mayRead s' r := by
  have hpool : (poolAnswered (Sample.refreshPool "id6" "id4") (runCalls refreshed ledger)).isSome ∧
      ((runCalls refreshed ledger).pools.get "id4").any (·.payerUserId = "carol") := by
    decide
  obtain ⟨hsome, hpayer⟩ := hpool
  unfold poolAnswered at hsome
  split at hsome
  · next hok =>
    refine ⟨_, _, hok, (pool_read_iff (run_runCalls _ _ (by decide)) rfl hok).mpr ?_⟩
    rintro ⟨-, pool, hget, hforeign⟩
    rw [show (runCalls refreshed ledger).pools.get "id4" = some pool from hget,
      Option.any_some, decide_eq_true_eq] at hpayer
    exact hforeign (.inl hpayer.symm)
  · cases hsome

/-- `carol` repeats the refresh and names the pool of `alice`: the answer is that pool. -/
theorem pool_read_by_stranger : Run Step ledger (callEvents refreshed ledger)
        (runCalls refreshed ledger) ∧
      ∃ r s', (Sample.refreshPool "id6" "id2").run (runCalls refreshed ledger) = .ok (r, s') ∧
        ¬ (Sample.refreshPool "id6" "id2").mayRead s' r := by
  have hpool : (poolAnswered (Sample.refreshPool "id6" "id2")
      (runCalls refreshed ledger)).any fun pool =>
        pool.payerUserId = "alice" ∧ pool.settlementAuthority = "node" := by
    decide
  refine ⟨run_runCalls _ _ (by decide), ?_⟩
  unfold poolAnswered at hpool
  split at hpool
  · next hok =>
    simp only [Option.any_some, decide_eq_true_eq] at hpool
    refine ⟨_, _, hok, ?_⟩
    rintro (hpayer | hauthority)
    · exact absurd (hpayer.trans hpool.1) (by decide)
    · exact absurd (hauthority.trans hpool.2) (by decide)
  · cases hpool

end Aseman.Finance
