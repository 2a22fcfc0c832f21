import Aseman.Finance.Holds
import Aseman.Finance.Payments
import Aseman.Finance.PoolRuns
import Aseman.Finance.Pools
import Aseman.Finance.Quote
import Aseman.Lib.Run

/-!
# Runs of the finance operations

A call is one of the finance operations with its caller and the ports it sees. `Call.transact` is
the call inside its transaction: on an error the ledger stays as it was. A run is any sequence of
calls, by any callers, with any inputs and any clock readings; the only thing assumed of a call is
that the identifiers `gen_id` returns to it are new.

`Applied` says once, over all operations, what an applied call did; every invariant is proved from
it.
-/

namespace Aseman.Finance

/-! ## Calls -/

inductive Operation where
  | publishFinanceQuote (input : PublishFinanceQuoteInput)
  | createHold (input : CreateHoldInput)
  | startHold (input : StartHoldInput)
  | settleHold (input : SettleHoldInput)
  | releaseHold (input : ReleaseHoldInput)
  | openPool (input : OpenPoolInput)
  | refreshPool (input : RefreshPoolInput)
  | closePool (input : ClosePoolInput)
  | reservePool (input : ReservePoolInput)
  | settlePool (input : SettlePoolInput)
  | releasePool (input : ReleasePoolInput)
  | debitPool (input : DebitPoolInput)
  | requestPayout (input : RequestPayoutInput)
  | resolvePayout (input : ResolvePayoutInput)
  | paymentAdjustment (input : PaymentAdjustmentInput)
  | transfer (input : TransferInput)
  | mint (input : MintInput)

structure Call where
  ports : Ports
  caller : String
  op : Operation

namespace Call

/-- The operation a call names. -/
def run (c : Call) (s : Ledger) : Result (Reply × Ledger) :=
  match c.op with
  | .publishFinanceQuote input => publishFinanceQuote c.ports c.caller input s
  | .createHold input => createHold c.ports c.caller input s
  | .startHold input => startHold c.ports c.caller input s
  | .settleHold input => settleHold c.ports c.caller input s
  | .releaseHold input => releaseHold c.ports c.caller input s
  | .openPool input => openPool c.ports c.caller input s
  | .refreshPool input => refreshPool c.ports c.caller input s
  | .closePool input => closePool c.ports c.caller input s
  | .reservePool input => reservePool c.ports c.caller input s
  | .settlePool input => settlePool c.ports c.caller input s
  | .releasePool input => releasePool c.ports c.caller input s
  | .debitPool input => debitPool c.ports c.caller input s
  | .requestPayout input => requestPayout c.ports c.caller input s
  | .resolvePayout input => resolvePayout c.ports c.caller input s
  | .paymentAdjustment input => paymentAdjustment c.ports c.caller input s
  | .transfer input => transfer c.ports c.caller input s
  | .mint input => mint c.ports c.caller input s

/-- The call in its transaction: an error rolls the ledger back. -/
def transact (c : Call) (s : Ledger) : Result Reply × Ledger :=
  match c.run s with
  | .ok (reply, s') => (.ok reply, s')
  | .error e => (.error e, s)

/-- The identifiers `gen_id` returns to the call are accepted by `valid_finance_id` and name no
record yet. -/
structure Fresh (c : Call) (s : Ledger) : Prop where
  valid : validFinanceId c.ports.genId = true
  hold : s.holds.get c.ports.genId = none
  pool : s.pools.get c.ports.genId = none
  payout : s.payouts.get c.ports.genId = none
  journal : s.journals.get c.ports.genJournalId = none

instance (c : Call) (s : Ledger) : Decidable (c.Fresh s) :=
  decidable_of_iff
    (validFinanceId c.ports.genId = true ∧ (s.holds.get c.ports.genId).isNone ∧
      (s.pools.get c.ports.genId).isNone ∧ (s.payouts.get c.ports.genId).isNone ∧
      (s.journals.get c.ports.genJournalId).isNone)
    ⟨fun ⟨h₁, h₂, h₃, h₄, h₅⟩ => ⟨h₁, Option.isNone_iff_eq_none.mp h₂,
        Option.isNone_iff_eq_none.mp h₃, Option.isNone_iff_eq_none.mp h₄,
        Option.isNone_iff_eq_none.mp h₅⟩,
      fun ⟨h₁, h₂, h₃, h₄, h₅⟩ => ⟨h₁, Option.isNone_iff_eq_none.mpr h₂,
        Option.isNone_iff_eq_none.mpr h₃, Option.isNone_iff_eq_none.mpr h₄,
        Option.isNone_iff_eq_none.mpr h₅⟩⟩

end Call

/-! ## Runs -/

/-- A call and what it returned. -/
structure Event where
  call : Call
  result : Result Reply

/-- The reply of an applied call: none for an error, and none for a replay or a refusal that
leaves the ledger alone. -/
def Event.appliedReply (e : Event) : Option Reply :=
  match e.result with
  | .ok reply => if reply.applied then some reply else none
  | .error _ => none

/-- One call. -/
def Step (s : Ledger) (e : Event) (s' : Ledger) : Prop :=
  e.call.Fresh s ∧ e.call.transact s = (e.result, s')

variable {c : Call} {s : Ledger}

theorem Step.of_fresh (h : c.Fresh s) : Step s ⟨c, (c.transact s).1⟩ (c.transact s).2 := ⟨h, rfl⟩

/-- The calls made one after another, each from the ledger the last one left. -/
def runCalls : List Call → Ledger → Ledger
  | [], s => s
  | c :: cs, s => runCalls cs (c.transact s).2

def callEvents : List Call → Ledger → List Event
  | [], _ => []
  | c :: cs, s => ⟨c, (c.transact s).1⟩ :: callEvents cs (c.transact s).2

/-- Whether every call of a list finds its identifiers new. -/
def allFresh : List Call → Ledger → Bool
  | [], _ => true
  | c :: cs, s => decide (c.Fresh s) && allFresh cs (c.transact s).2

theorem run_runCalls (cs : List Call) (s : Ledger) (h : allFresh cs s = true) :
    Run Step s (callEvents cs s) (runCalls cs s) := by
  induction cs generalizing s with
  | nil => exact .nil
  | cons c cs ih =>
    simp only [allFresh, Bool.and_eq_true, decide_eq_true_eq] at h
    exact Run.append (Run.single (.of_fresh h.1)) (ih _ h.2)

/-! ## What an applied call did -/

inductive Applied (s : Ledger) (r : Reply) (s' : Ledger) : Call → Prop
  | publishFinanceQuote {ports caller input}
      (a : PublishFinanceQuoteApplied ports caller input s r s') :
      Applied s r s' ⟨ports, caller, .publishFinanceQuote input⟩
  | createHold {ports caller input} (a : CreateHoldApplied ports caller input s r s') :
      Applied s r s' ⟨ports, caller, .createHold input⟩
  | startHold {ports caller input} (a : StartHoldApplied ports caller input s r s') :
      Applied s r s' ⟨ports, caller, .startHold input⟩
  | settleHold {ports caller input} (a : SettleHoldApplied ports caller input s r s') :
      Applied s r s' ⟨ports, caller, .settleHold input⟩
  | releaseHold {ports caller input} (a : ReleaseHoldApplied ports caller input s r s') :
      Applied s r s' ⟨ports, caller, .releaseHold input⟩
  | openPool {ports caller input} (a : OpenPoolApplied ports caller input s r s') :
      Applied s r s' ⟨ports, caller, .openPool input⟩
  | refreshPool {ports caller input} (a : RefreshPoolApplied ports caller input s r s') :
      Applied s r s' ⟨ports, caller, .refreshPool input⟩
  | closePool {ports caller input} (a : ClosePoolApplied ports caller input s r s') :
      Applied s r s' ⟨ports, caller, .closePool input⟩
  | reservePool {ports caller input} (a : ReservePoolApplied ports caller input s r s') :
      Applied s r s' ⟨ports, caller, .reservePool input⟩
  | settlePool {ports caller input} (a : SettlePoolApplied ports caller input s r s') :
      Applied s r s' ⟨ports, caller, .settlePool input⟩
  | releasePool {ports caller input} (a : ReleasePoolApplied ports caller input s r s') :
      Applied s r s' ⟨ports, caller, .releasePool input⟩
  | debitPool {ports caller input} (a : DebitPoolApplied ports caller input s r s') :
      Applied s r s' ⟨ports, caller, .debitPool input⟩
  | requestPayout {ports caller input} (a : RequestPayoutApplied ports caller input s r s') :
      Applied s r s' ⟨ports, caller, .requestPayout input⟩
  | resolvePayout {ports caller input} (a : ResolvePayoutApplied ports caller input s r s') :
      Applied s r s' ⟨ports, caller, .resolvePayout input⟩
  | paymentAdjustment {ports caller input}
      (a : PaymentAdjustmentApplied ports caller input s r s') :
      Applied s r s' ⟨ports, caller, .paymentAdjustment input⟩
  | transfer {ports caller input} (a : TransferApplied ports caller input s r s') :
      Applied s r s' ⟨ports, caller, .transfer input⟩
  | mint {ports caller input} (a : MintApplied ports caller input s r s') :
      Applied s r s' ⟨ports, caller, .mint input⟩

variable {s' : Ledger} {r : Reply}

theorem Applied.reply_applied (h : Applied s r s' c) : r.applied = true := by
  cases h <;> next a => rw [a.reply]; rfl

theorem Applied.posted (h : Applied s r s' c) : ∃ δ, Posted s.wallets s'.wallets δ := by
  cases h with
  | publishFinanceQuote a | startHold a | reservePool a | releasePool a =>
    exact ⟨0, by rw [a.state]; exact .refl _⟩
  | createHold a | openPool a | refreshPool a => exact ⟨_, by rw [a.state]; exact a.funded.posted⟩
  | settleHold a => exact ⟨_, by rw [a.state]; exact (a.spend.trans a.credit.posted).trans a.refund⟩
  | releaseHold a | closePool a | requestPayout a | resolvePayout a | transfer a | mint a =>
    exact ⟨_, by rw [a.state]; exact a.posted⟩
  | settlePool a | debitPool a => exact ⟨_, by rw [a.state]; exact a.credit.posted.trans a.charge⟩
  | paymentAdjustment a => exact ⟨_, by rw [a.state]; exact a.adjusted.posted⟩

/-- **What a successful call did**: nothing, or it was applied. -/
theorem Call.run_ok (h : c.run s = .ok (r, s')) :
    (s' = s ∧ r.applied = false) ∨ Applied s r s' c := by
  obtain ⟨ports, caller, op⟩ := c
  cases op with
  | publishFinanceQuote input =>
    exact (publishFinanceQuote_ok h).imp_right fun ⟨a⟩ => .publishFinanceQuote a
  | createHold input => exact (createHold_ok h).imp_right fun ⟨a⟩ => .createHold a
  | startHold input => exact (startHold_ok h).imp_right fun ⟨a⟩ => .startHold a
  | settleHold input => exact (settleHold_ok h).imp_right fun ⟨a⟩ => .settleHold a
  | releaseHold input => exact (releaseHold_ok h).imp_right fun ⟨a⟩ => .releaseHold a
  | openPool input => exact (openPool_ok h).imp (by grind [Reply.applied]) fun ⟨a⟩ => .openPool a
  | refreshPool input =>
    exact (refreshPool_ok h).imp (by grind [Reply.applied]) fun ⟨a⟩ => .refreshPool a
  | closePool input => exact (closePool_ok h).imp (by grind [Reply.applied]) fun ⟨a⟩ => .closePool a
  | reservePool input =>
    exact (reservePool_ok h).imp (by grind [Reply.applied]) fun ⟨a⟩ => .reservePool a
  | settlePool input =>
    exact (settlePool_ok h).imp (by grind [Reply.applied]) fun ⟨a⟩ => .settlePool a
  | releasePool input => exact (releasePool_ok h).imp_right fun ⟨a⟩ => .releasePool a
  | debitPool input => exact (debitPool_ok h).imp_right fun ⟨a⟩ => .debitPool a
  | requestPayout input => exact (requestPayout_ok h).imp_right fun ⟨a⟩ => .requestPayout a
  | resolvePayout input => exact (resolvePayout_ok h).imp_right fun ⟨a⟩ => .resolvePayout a
  | paymentAdjustment input =>
    exact (paymentAdjustment_ok h).imp_right fun ⟨a⟩ => .paymentAdjustment a
  | transfer input => exact .inr (let ⟨a⟩ := transfer_ok h; .transfer a)
  | mint input => exact (mint_ok h).imp_right fun ⟨a⟩ => .mint a

/-- **One step**: the ledger stays, or a call with new identifiers was applied to it. -/
theorem Step.cases {e} (h : Step s e s') :
    (s' = s ∧ e.appliedReply = none) ∨
      ∃ r, e.appliedReply = some r ∧ Applied s r s' e.call ∧ e.call.Fresh s := by
  obtain ⟨hfresh, h⟩ := h
  unfold Call.transact at h
  split at h <;> simp only [Prod.mk.injEq] at h <;> obtain ⟨hres, rfl⟩ := h
  · next r s₁ hrun =>
    rcases Call.run_ok hrun with ⟨rfl, happ⟩ | happ
    · exact .inl ⟨rfl, by simp [Event.appliedReply, ← hres, happ]⟩
    · refine .inr ⟨r, ?_, happ, hfresh⟩
      simp [Event.appliedReply, ← hres, happ.reply_applied]
  · exact .inl ⟨rfl, by simp [Event.appliedReply, ← hres]⟩

variable {I : Ledger → Prop}

/-- A property of ledgers that every applied call keeps is an invariant of every step. -/
theorem Step.keeps
    (happ : ∀ {s s' : Ledger} {r : Reply} {c : Call}, c.Fresh s → Applied s r s' c → I s → I s')
    (s : Ledger) (e : Event) (s' : Ledger) (h : Step s e s') (hs : I s) : I s' := by
  rcases h.cases with ⟨rfl, -⟩ | ⟨r, -, ha, hfresh⟩
  · exact hs
  · exact happ hfresh ha hs

/-- As `keeps`, where an applied call may use another property known before it. -/
theorem Step.keeps_of {J : Ledger → Prop}
    (happ : ∀ {s s' : Ledger} {r : Reply} {c : Call}, c.Fresh s → Applied s r s' c → J s → I s → I s')
    (s : Ledger) (e : Event) (s' : Ledger) (h : Step s e s') (hJ : J s) (hs : I s) : I s' := by
  rcases h.cases with ⟨rfl, -⟩ | ⟨r, -, ha, hfresh⟩
  · exact hs
  · exact happ hfresh ha hJ hs

/-! ## Runs under a condition -/

/-- The steps in which every applied call meets a condition on the ledger it was applied to. -/
def GuardedStep (P : Call → Ledger → Bool) (s : Ledger) (e : Event) (s' : Ledger) : Prop :=
  Step s e s' ∧ (e.appliedReply.isSome → P e.call s)

theorem GuardedStep.run {P t es} (h : Run (GuardedStep P) s es t) : Run Step s es t :=
  h.mono fun _ _ _ hstep => hstep.1

theorem GuardedStep.keeps_of {P : Call → Ledger → Bool} {J : Ledger → Prop}
    (happ : ∀ {s s' : Ledger} {r : Reply} {c : Call}, c.Fresh s → Applied s r s' c → P c s → J s →
      I s → I s') (s : Ledger) (e : Event) (s' : Ledger) (h : GuardedStep P s e s') (hJ : J s)
    (hs : I s) : I s' := by
  rcases h.1.cases with ⟨rfl, -⟩ | ⟨r, hr, ha, hfresh⟩
  · exact hs
  · exact happ hfresh ha (h.2 (by simp [hr])) hJ hs

def allGuarded (P : Call → Ledger → Bool) : List Call → Ledger → Bool
  | [], _ => true
  | c :: cs, s => P c s && allGuarded P cs (c.transact s).2

theorem guarded_runCalls (P : Call → Ledger → Bool) (cs : List Call) (s : Ledger)
    (hfresh : allFresh cs s = true) (hP : allGuarded P cs s = true) :
    Run (GuardedStep P) s (callEvents cs s) (runCalls cs s) := by
  induction cs generalizing s with
  | nil => exact .nil
  | cons c cs ih =>
    simp only [allFresh, allGuarded, Bool.and_eq_true, decide_eq_true_eq] at hfresh hP
    exact Run.append (Run.single ⟨.of_fresh hfresh.1, fun _ => hP.1⟩) (ih _ hfresh.2 hP.2)

/-! ## A small node

A node with four creatures besides the root, one billing catalogue and one registered node, for
concrete runs. The digests are the SHA-256 digests of the texts they stand for. -/

namespace Sample

open Json

def beneficiaries : List HoldBeneficiary := [{ userId := "bob", role := "dev", maxAmount := 100 }]

def planHash : String := "deedb751352a489eddbfdd7adb81bfaa55d1e0ee3a4330d1f0cc2d0e1b1a3a67"

def usageHash : String := "c0ffee00c0ffee00c0ffee00c0ffee00c0ffee00c0ffee00c0ffee00c0ffee00"

def holdInput : CreateHoldInput where
  quoteId := "q1"
  pricingVersion := "v1"
  maxAmount := 100
  settlementAuthority := "node"
  meterProgramId := "meter"
  expiresAt := 50000
  idempotencyKey := "key1"
  contextHash := usageHash
  beneficiaryPlanHash := planHash
  beneficiaries := beneficiaries

def payoutInput : RequestPayoutInput where
  requestId := "p1"
  amount := 900
  destinationRef := "iban"

def chargebackInput : PaymentAdjustmentInput where
  userId := "alice"
  amount := -150
  kind := "chargeback"
  reference := "ref"
  idempotencyKey := "a1"
  metadata := .null

def sha256Hex (text : String) : String :=
  if text = beneficiaryPlanText beneficiaries then planHash
  else if text = holdInput.toJson.print then
    "e208ed58a55281adc20cdcdebccf0c4831b2f65cc7af78d46b3dce4bcf11e53d"
  else if text = payoutInput.toJson.print then
    "eb5388bb7901ce3bb83de3194f7e96a042a4d7a0667dafec7b81c2913010d0c9"
  else if text = chargebackInput.toJson.print then
    "04794f3e6071c8db095ae8fa627bdd7142a7286d5407af9098b7fc7859907e11"
  else ""

/-- The ports of a call that is given these two identifiers. -/
def ports (genId genJournalId : String) : Ports where
  now := 1000
  creatureIdByUsername := some
  emailToId := id
  store _ := false
  storeMetadataObject _ := none
  isMember _ _ := false
  program _ := true
  billingCurrent := Map.ofList [("version", .string "v1")]
  billingCatalog _ := some (Map.ofList [("version", .string "v1")])
  billingNodes := Map.ofList [("node", obj [("status", .string "active"),
    ("talentMeterProgramId", .string "meter")])]
  marketDoc _ := []
  genId
  genJournalId
  sha256Hex
  hashMap := ⟨id, fun _ => .refl _⟩

/-- Five creatures with empty wallets. -/
def creatures : Creatures where
  balances := ["alice", "bob", "carol", "node", legacyRoot].foldl (fun m user => m.put user 0) ∅
  named := by decide
  nonneg := by decide

def ledger : Ledger := .initial creatures

/-- A quote of 100 for a payer, under which `bob` may be paid. -/
def quote (quoteId payer : String) : Value :=
  obj [("quoteId", .string quoteId), ("payerUserId", .string payer), ("maxAmount", .ofI64 100),
    ("kind", .string "talent"), ("pricingVersion", .string "v1"), ("expiresAt", .ofI64 50000),
    ("requestId", .string "run1"), ("holdRequest", { holdInput with quoteId }.toJson),
    ("beneficiaries", .array (beneficiaries.map HoldBeneficiary.toJson)),
    ("executionPlan", obj [("settlementAuthority", .string "node"),
      ("meterProgramId", .string "meter"), ("resources", .array [])])]

def mint (id user : String) (amount : Int64) : Call :=
  ⟨ports id id, legacyRoot, .mint { toUserEmail := user, amount, idempotencyKey := "" }⟩

def transfer (id payer user : String) (amount : Int64) : Call :=
  ⟨ports id id, payer, .transfer { amount, toUsername := user }⟩

def publish (id quoteId payer : String) : Call :=
  ⟨ports id id, "node", .publishFinanceQuote { quote := quote quoteId payer }⟩

def createHold (id payer : String) : Call := ⟨ports id id, payer, .createHold holdInput⟩

/-- A hold of 100 on a wallet of the given amount. -/
def held (amount : Int64) : List Call :=
  [mint "id1" "alice" amount, publish "id2" "q1" "alice", createHold "id3" "alice"]

/-- A pool of the given amount, under the call's identifier as idempotency key. -/
def poolInput (id : String) (amount : Int64) : OpenPoolInput where
  maxAmount := amount
  settlementAuthority := "node"
  meterProgramId := "meter"
  expiresAt := 50000
  idempotencyKey := id

def openPool (id payer : String) (amount : Int64) : Call :=
  ⟨ports id id, payer, .openPool (poolInput id amount)⟩

/-- A debit of the run `run1` that pays `bob`, under the call's identifier as debit id. -/
def debit (id payer poolId quoteId : String) (amount : Int64) : Call :=
  ⟨ports id id, "node", .debitPool
    { poolId, payerUserId := payer, quoteId, runId := "run1", debitId := id, usageHash,
      lines := [{ userId := "bob", role := "dev", amount, sourceRef := "" }] }⟩

end Sample

end Aseman.Finance
