import Aseman.Finance.Settlement

/-!
# Holds

`create_hold`, `start_hold`, `settle_hold` and `release_hold`: a payer's amount is set aside under
a published quote, started by the settlement authority, and then either settled to beneficiaries
within the caps of the quote or released.
-/

namespace Aseman.Finance

open Json
open Book (post post_apply)

/-! ## create_hold -/

/-- The text `finance_beneficiary_plan_hash` digests. -/
def beneficiaryPlanText (beneficiaries : List HoldBeneficiary) : String :=
  String.join (beneficiaries.map fun b =>
    b.userId ++ "\x00" ++ b.role ++ "\x00" ++ toString b.maxAmount.toInt ++ "\n")

def financeBeneficiaryPlanHash (ports : Ports) (beneficiaries : List HoldBeneficiary) : String :=
  ports.sha256Hex (beneficiaryPlanText beneficiaries)

/-- What the loop over a hold request's beneficiaries has collected. -/
structure CapPlan where
  capTotal : Int64 := 0
  caps : Store String Int64 := ∅
  participants : List String := []

/-- One round of the loop over the beneficiaries of a hold request. -/
def planBeneficiary (s : Ledger) (payerId : String) (plan : CapPlan)
    (beneficiary : HoldBeneficiary) : Result CapPlan := do
  ensure (validFinanceId beneficiary.userId ∧ validFinanceId beneficiary.role ∧
    ¬ beneficiary.maxAmount ≤ 0) (denied "invalid beneficiary")
  ensure (beneficiary.userId ≠ payerId) (denied "payer cannot be a hold beneficiary")
  let key := capKey beneficiary.userId beneficiary.role
  ensure (plan.caps.get key = none) (denied "duplicate beneficiary role")
  ensure ((s.wallets.account beneficiary.userId).isSome) (denied "beneficiary not found")
  let capTotal ← okOr (checkedAdd plan.capTotal beneficiary.maxAmount)
    (denied "beneficiary cap overflow")
  pure
    { capTotal, caps := plan.caps.put key beneficiary.maxAmount,
      participants := plan.participants ++ [beneficiary.userId] }

/-- The project a quote is for; empty when it is for none. -/
def quoteProjectId (quote : Map) : String := (strField quote "projectId").getD ""

def newHold (ports : Ports) (payerId : String) (input : CreateHoldInput) (projectId : String)
    (withdrawableAmount : Int64) (requestHash : String) : Hold where
  holdId := ports.genId
  payerUserId := payerId
  quoteId := input.quoteId
  pricingVersion := input.pricingVersion
  maxAmount := input.maxAmount
  remainingAmount := input.maxAmount
  withdrawableAmount
  meterProgramId := input.meterProgramId
  settlementAuthority := input.settlementAuthority
  expiresAt := input.expiresAt
  projectId
  contextHash := input.contextHash
  beneficiaryPlanHash := Text.asciiLower input.beneficiaryPlanHash
  beneficiaries := input.beneficiaries
  requestHash
  status := .opened
  createdAt := ports.now

def createHoldPayload (payerId : String) (input : CreateHoldInput) (projectId : String) : Value :=
  obj [
    ("entries", .array [
      entry ("wallet:" ++ payerId ++ ":available") (-input.maxAmount),
      entry ("wallet:" ++ payerId ++ ":held") input.maxAmount]),
    ("quoteId", .string input.quoteId),
    ("pricingVersion", .string input.pricingVersion),
    ("projectId", .string projectId)]

def createHold (ports : Ports) (payerId : String) (input : CreateHoldInput) (s : Ledger) :
    Result (Reply × Ledger) := do
  ensure (validFinanceId input.quoteId ∧ validFinanceId input.pricingVersion ∧
      validFinanceId input.idempotencyKey ∧ validFinanceId input.settlementAuthority ∧
      validFinanceId input.meterProgramId)
    (denied "invalid quote, pricing, meter, authority, or idempotency identifier")
  ensure (validFinanceHash input.contextHash ∧ validFinanceHash input.beneficiaryPlanHash)
    (denied "contextHash and beneficiaryPlanHash must be sha256 hex")
  ensure (¬ input.maxAmount ≤ 0) (denied "maxAmount must be greater than zero")
  ensure (¬ input.expiresAt ≤ ports.now)
    (denied "expiresAt must be in the future and within 24 hours")
  let latest ← okOr (checkedAdd ports.now financeHoldMaxTtlMs) (denied "hold expiry overflow")
  ensure (¬ input.expiresAt > latest) (denied "expiresAt must be in the future and within 24 hours")
  ensure (input.beneficiaries ≠ [] ∧ input.beneficiaries.length ≤ financeMaxBeneficiaries)
    (denied "beneficiaries must contain between 1 and 64 entries")
  let quote ← s.billingQuote input.quoteId
  ensure (strField quote "payerUserId" = some payerId) (denied "billing quote payer mismatch")
  let quoteExpiresAt := (i64Field quote "expiresAt").getD 0
  ensure (¬ quoteExpiresAt ≤ 0 ∧ ¬ ports.now > quoteExpiresAt) (denied "billing quote expired")
  ensure (quote.get "holdRequest" = some input.toJson)
    (denied "hold request does not match server quote")
  let projectId := quoteProjectId quote
  ensure (projectId = "" ∨ ports.isMember projectId payerId)
    (denied "payer is not a project member")
  ensure ((s.wallets.account input.settlementAuthority).isSome)
    (denied "settlement authority not found")
  ensure (ports.program input.meterProgramId) (denied "meter program not found")
  ensure (financeBeneficiaryPlanHash ports input.beneficiaries =
      Text.asciiLower input.beneficiaryPlanHash)
    (denied "beneficiary plan hash mismatch")
  let requestHash := financeHash ports input.toJson
  let requestMarker := FinanceMarker.holdRequest payerId input.idempotencyKey
  let previous := s.marker requestMarker
  if previous ≠ "" then do
    let (holdId, previousHash) ← okOr (Text.splitOnce previous '|')
      (denied "invalid hold idempotency record")
    ensure (previousHash = requestHash)
      (denied "idempotency key already used with different request")
    let hold ← s.getHold holdId
    pure (.hold false hold none, s)
  else do
    let plan ← input.beneficiaries.foldlM (planBeneficiary s payerId) {}
    ensure (plan.capTotal = input.maxAmount) (denied "beneficiary caps must equal maxAmount")
    let balance ← okOr (s.wallets.account payerId) (denied "payer creature not found")
    let debt ← s.wallets.counter .debt payerId
    ensure (¬ debt > 0) (denied "wallet has outstanding payment debt")
    let withdrawable ← s.wallets.counter .withdrawable payerId
    ensure (¬ withdrawable > balance) (denied "withdrawable balance exceeds available balance")
    let nonwithdrawable := balance - withdrawable
    let withdrawableAmount := saturatingSub input.maxAmount nonwithdrawable
    let balance' ← okOr (checkedSub balance input.maxAmount)
      (denied "insufficient available balance to authorize this run (funds may be held by another active run)")
    let withdrawable' ← okOr (checkedSub withdrawable withdrawableAmount)
      (denied "could not authorize this run against the current balance (concurrent authorization in progress) — please retry")
    let w ← s.wallets.setCounter .withdrawable payerId withdrawable'
    let heldBefore ← w.counter .held payerId
    let held ← okOr (checkedAdd heldBefore input.maxAmount) (denied "held balance overflow")
    let s ← reserveProjectBudget ports projectId input.maxAmount { s with wallets := w }
    let hold := newHold ports payerId input projectId withdrawableAmount requestHash
    let w ← s.wallets.storeAccount payerId balance'
    let w ← w.setCounter .held payerId held
    let s := ({ s with wallets := w }.putHold ports.genId hold).putMarker requestMarker
      (ports.genId ++ "|" ++ requestHash)
    let s := s.writeJournal ports "hold.created" ports.genId payerId
      (createHoldPayload payerId input projectId)
      ([payerId, input.settlementAuthority] ++ plan.participants)
    pure (.hold true hold (some ports.genJournalId), s)

structure CapPlan.Of (payerId : String) (plan : CapPlan) (rows : List HoldBeneficiary) : Prop where
  valid : ∀ row ∈ rows, validFinanceId row.userId = true ∧ validFinanceId row.role = true ∧
    0 < row.maxAmount.toInt ∧ row.userId ≠ payerId
  mem : ∀ row ∈ rows, (plan.caps.get (capKey row.userId row.role)).isSome
  nodup : (rows.map fun row => capKey row.userId row.role).Nodup

variable {s : Ledger}

theorem CapPlan.Of.of_foldlM {payerId : String} {rows : List HoldBeneficiary} {plan : CapPlan}
    (h : rows.foldlM (planBeneficiary s payerId) {} = .ok plan) : plan.Of payerId rows := by
  refine foldlM_induct (fun plan done => plan.Of payerId done) ?_ ⟨by simp, by simp, by simp⟩ h
  intro plan done row plan' hplan hrow
  simp only [planBeneficiary, bind_eq_ok, ensure_eq_ok, okOr_eq_ok, pure_eq_ok, exists_const,
    not_nonpos_iff_toInt] at hrow
  obtain ⟨⟨huser, hrole, hpos⟩, hpayer, hnew, -, total, -, rfl⟩ := hrow
  refine ⟨?_, ?_, ?_⟩
  · intro r hr
    rcases List.mem_append.mp hr with hr | hr
    · exact hplan.valid r hr
    · rw [List.mem_singleton.mp hr]
      exact ⟨huser, hrole, hpos, hpayer⟩
  · intro r hr
    rw [Store.get_put]
    split
    · rfl
    · next hne =>
      rcases List.mem_append.mp hr with hr | hr
      · exact hplan.mem r hr
      · rw [List.mem_singleton.mp hr] at hne
        exact absurd rfl hne
  · rw [List.map_append, List.nodup_append]
    refine ⟨hplan.nodup, by simp, ?_⟩
    intro key hkey key' hkey' heq
    obtain ⟨r, hr, rfl⟩ := List.mem_map.mp hkey
    have hsome := hplan.mem r hr
    simp only [List.map_cons, List.map_nil, List.mem_singleton] at hkey'
    rw [heq, hkey', hnew] at hsome
    cases hsome

structure CreateHoldApplied (ports : Ports) (payerId : String) (input : CreateHoldInput)
    (s : Ledger) (r : Reply) (s' : Ledger) where
  quote : Map
  plan : CapPlan
  portion : Int64
  wallets : Wallets
  budgets : Store String ProjectBudget
  fresh : s.marker (.holdRequest payerId input.idempotencyKey) = ""
  positive : 0 < input.maxAmount.toInt
  authority_valid : validFinanceId input.settlementAuthority = true
  quote_get : s.quotes.get input.quoteId = some quote
  quote_payer : strField quote "payerUserId" = some payerId
  quote_request : quote.get "holdRequest" = some input.toJson
  planned : plan.Of payerId input.beneficiaries
  noDebt : s.wallets.amount (payerId, .counter .debt) = 0
  funded : Funded s.wallets wallets payerId input.maxAmount portion
  budget : BudgetMoved (quoteProjectId quote) input.maxAmount.toInt s.budgets budgets
  within : quoteProjectId quote ≠ "" → ∀ limit : Int64,
    financeNonnegativeField ((ports.storeMetadataObject (quoteProjectId quote)).getD [])
      "budgetMinor" = .ok limit → 0 < limit.toInt →
    committedMinor budgets (quoteProjectId quote) ≤ limit.toInt
  reply : r = .hold true (newHold ports payerId input (quoteProjectId quote) portion
    (financeHash ports input.toJson)) (some ports.genJournalId)
  state : s' = (({ s with wallets, budgets }.putHold ports.genId
      (newHold ports payerId input (quoteProjectId quote) portion
        (financeHash ports input.toJson))).putMarker
      (.holdRequest payerId input.idempotencyKey)
      (ports.genId ++ "|" ++ financeHash ports input.toJson)).writeJournal ports "hold.created"
      ports.genId payerId (createHoldPayload payerId input (quoteProjectId quote))
      ([payerId, input.settlementAuthority] ++ plan.participants)

variable {ports : Ports} {s' : Ledger} {r : Reply}

theorem createHold_ok {payerId : String} {input : CreateHoldInput}
    (h : createHold ports payerId input s = .ok (r, s')) :
    (s' = s ∧ r.applied = false) ∨ Nonempty (CreateHoldApplied ports payerId input s r s') := by
  simp only [createHold, bind_eq_ok, ensure_eq_ok, okOr_eq_ok, exists_const, Ledger.billingQuote,
    not_nonpos_iff_toInt] at h
  obtain ⟨hids, -, positive, -, -, -, -, -, quote, quote_get, quote_payer, -, quote_request, -, -, -, -, h⟩ := h
  split at h
  · simp only [bind_eq_ok, ensure_eq_ok, okOr_eq_ok, pure_eq_ok, Ledger.getHold, exists_const,
      Prod.mk.injEq] at h
    obtain ⟨_, -, -, hold, -, rfl, rfl⟩ := h
    exact .inl ⟨rfl, rfl⟩
  · next hfresh =>
    simp only [bind_eq_ok, ensure_eq_ok, okOr_eq_ok, pure_eq_ok, checkedAdd_eq_some,
      checkedSub_eq_some, exists_const, not_lt_iff_toInt, gt_iff_lt, Prod.mk.injEq,
      Int64.toInt_zero] at h
    obtain ⟨plan, hplan, -, balance, hbal, debt, hdebt, hnodebt, wd, hwd, hle, balance', hbal',
      wd', hwd', w₁, hset, held, hheld, held', hheld', s₁, hbudget, w₂, hstore, w₃, hset', rfl,
      rfl⟩ := h
    obtain ⟨hs₁, budget⟩ := reserveProjectBudget_ok hbudget
    obtain ⟨hdebt, hdebt₀⟩ := Wallets.counter_ok hdebt
    obtain ⟨hwd, hwd₀⟩ := Wallets.counter_ok hwd
    obtain ⟨hheld, -⟩ := Wallets.counter_ok hheld
    have hbal₀ := Wallets.amount_of_account hbal
    have hbalance := balance.toInt_lt
    have hmax := input.maxAmount.toInt_lt
    have hsub : (balance - wd).toInt = balance.toInt - wd.toInt := by
      apply toInt_sub_of_fits <;> omega
    have hportion : (saturatingSub input.maxAmount (balance - wd)).toInt =
        input.maxAmount.toInt - (balance.toInt - wd.toInt) := by
      rw [toInt_saturatingSub_of_fits] <;> omega
    obtain ⟨p₁, hwd₁⟩ := Posted.of_setCounter
      (d := -(saturatingSub input.maxAmount (balance - wd)).toInt) hset (by omega)
    rw [show s₁.wallets = w₁ by rw [hs₁]] at hstore
    have p₂ := Posted.of_storeAccount (d := -input.maxAmount.toInt) hstore (by
      rw [hbal', ← hbal₀, p₁.amount]; simp [post_apply, sub_eq_add_neg])
    have p₃ := (Posted.of_setCounter (d := input.maxAmount.toInt) hset' (by
      rw [hheld', hheld, p₂.amount]; simp [post_apply])).1
    exact .inr ⟨{
      quote, plan, positive, quote_get, quote_payer, quote_request, budget
      portion := saturatingSub input.maxAmount (balance - wd)
      wallets := w₃
      budgets := s₁.budgets
      fresh := not_ne_iff.mp hfresh
      authority_valid := hids.2.2.2.1
      planned := .of_foldlM hplan
      noDebt := by omega
      funded := ⟨by rw [hbal]; rfl, by omega, by omega, by omega, (p₁.trans p₂).trans p₃⟩
      within := fun hne limit hlimit => reserveProjectBudget_within hbudget hne hlimit
      reply := rfl
      state := by rw [hs₁] }⟩

/-! ## start_hold -/

def startedHold (ports : Ports) (input : StartHoldInput) (hold : Hold) : Hold :=
  { hold with status := .running, runId := some input.runId, startedAt := some ports.now }

def startHoldPayload (input : StartHoldInput) : Value :=
  obj [("entries", .array []), ("quoteId", .string input.quoteId), ("runId", .string input.runId)]

def startHold (ports : Ports) (authorityId : String) (input : StartHoldInput) (s : Ledger) :
    Result (Reply × Ledger) := do
  ensure (validFinanceId input.holdId ∧ validFinanceId input.payerUserId ∧
      validFinanceId input.quoteId ∧ validFinanceId input.runId)
    (denied "invalid run authorization")
  let runMarker := FinanceMarker.run authorityId input.runId
  let previousHoldId := s.marker runMarker
  if previousHoldId ≠ "" then do
    ensure (previousHoldId = input.holdId) (denied "run id already used for another hold")
    let hold ← s.getHold input.holdId
    pure (.hold false hold none, s)
  else do
    let hold ← s.getHold input.holdId
    ensure (hold.status = .opened) (denied "hold is not open")
    ensure (hold.payerUserId = input.payerUserId) (denied "payer does not match hold")
    ensure (hold.quoteId = input.quoteId) (denied "quote does not match hold")
    ensure (hold.settlementAuthority = authorityId)
      (denied "caller is not the settlement authority")
    ensure (¬ hold.expiresAt ≤ 0 ∧ ¬ ports.now > hold.expiresAt) (denied "hold expired")
    let hold := startedHold ports input hold
    let s := (s.putHold input.holdId hold).putMarker runMarker input.holdId
    let s := s.writeJournal ports "hold.started" input.holdId input.payerUserId
      (startHoldPayload input) [input.payerUserId, authorityId]
    pure (.hold true hold (some ports.genJournalId), s)

structure StartHoldApplied (ports : Ports) (authorityId : String) (input : StartHoldInput)
    (s : Ledger) (r : Reply) (s' : Ledger) where
  hold : Hold
  hold_valid : validFinanceId input.holdId = true
  fresh : s.marker (.run authorityId input.runId) = ""
  hold_get : s.holds.get input.holdId = some hold
  opened : hold.status = .opened
  authority : hold.settlementAuthority = authorityId
  reply : r = .hold true (startedHold ports input hold) (some ports.genJournalId)
  state : s' = ((s.putHold input.holdId (startedHold ports input hold)).putMarker
      (.run authorityId input.runId) input.holdId).writeJournal ports "hold.started" input.holdId
      input.payerUserId (startHoldPayload input) [input.payerUserId, authorityId]

theorem startHold_ok {authorityId input} (h : startHold ports authorityId input s = .ok (r, s')) :
    (s' = s ∧ r.applied = false) ∨ Nonempty (StartHoldApplied ports authorityId input s r s') := by
  simp only [startHold, bind_eq_ok, ensure_eq_ok, exists_const] at h
  obtain ⟨hids, h⟩ := h
  split at h <;>
    simp only [bind_eq_ok, ensure_eq_ok, okOr_eq_ok, pure_eq_ok, Ledger.getHold, exists_const,
      Prod.mk.injEq] at h
  · obtain ⟨-, hold, -, rfl, rfl⟩ := h
    exact .inl ⟨rfl, rfl⟩
  · next hfresh =>
    obtain ⟨hold, hget, hopen, -, -, hauth, -, rfl, rfl⟩ := h
    exact .inr ⟨⟨hold, hids.1, not_ne_iff.mp hfresh, hget, hopen, hauth, rfl, rfl⟩⟩

/-! ## settle_hold -/

def settleHoldLine (caps : Store String Int64) (acc : Allocation) (line : SettlementLine) :
    Result Allocation := do
  ensure line.valid (denied "invalid settlement line")
  allocateLine "settlement beneficiary role not authorized by hold" caps acc line

def settledHold (ports : Ports) (input : SettleHoldInput)
    (actualAmount refundAmount withdrawableRefund withdrawableSpent : Int64) (hold : Hold) : Hold :=
  { hold with
    status := .settled, remainingAmount := 0, actualAmount := some actualAmount,
    refundedAmount := some refundAmount, withdrawableRefundedAmount := some withdrawableRefund,
    withdrawableSpentAmount := some withdrawableSpent, settlementId := some input.settlementId,
    usageHash := some input.usageHash, settlementLines := some input.lines,
    finalizedAt := some ports.now }

def settleHoldEntries (payerUserId : String) (maxAmount refundAmount : Int64)
    (credits : List Credit) : List Value :=
  [entry ("wallet:" ++ payerUserId ++ ":held") (-maxAmount),
    entry ("wallet:" ++ payerUserId ++ ":available") refundAmount] ++ creditEntries credits

def settleHoldPayload (input : SettleHoldInput) (maxAmount actualAmount refundAmount : Int64)
    (credits : List Credit) : Value :=
  obj [
    ("entries", .array (settleHoldEntries input.payerUserId maxAmount refundAmount credits)),
    ("quoteId", .string input.quoteId),
    ("settlementId", .string input.settlementId), ("usageHash", .string input.usageHash),
    ("actualAmount", .ofI64 actualAmount), ("refundedAmount", .ofI64 refundAmount),
    ("settlementLines", .array (input.lines.map SettlementLine.toJson))]

def settleHold (ports : Ports) (authorityId : String) (input : SettleHoldInput) (s : Ledger) :
    Result (Reply × Ledger) := do
  ensure (validFinanceId input.holdId ∧ validFinanceId input.payerUserId ∧
      validFinanceId input.quoteId ∧ validFinanceId input.settlementId ∧
      validFinanceHash input.usageHash)
    (denied "invalid settlement identifiers or usageHash")
  let settlementMarker := FinanceMarker.settlement authorityId input.settlementId
  let previousHoldId := s.marker settlementMarker
  if previousHoldId ≠ "" then do
    ensure (previousHoldId = input.holdId) (denied "settlement id already used for another hold")
    let hold ← s.getHold input.holdId
    pure (.hold false hold none, s)
  else do
    let hold ← s.getHold input.holdId
    ensure (hold.status = .running) (denied "hold is not running")
    ensure (hold.payerUserId = input.payerUserId) (denied "payer does not match hold")
    ensure (hold.quoteId = input.quoteId) (denied "quote does not match hold")
    ensure (hold.runId = some input.settlementId)
      (denied "settlement does not match authorized run")
    ensure (hold.settlementAuthority = authorityId)
      (denied "caller is not the settlement authority")
    ensure (¬ hold.expiresAt ≤ 0 ∧ ¬ ports.now > hold.expiresAt) (denied "hold expired")
    let maxAmount := hold.maxAmount
    ensure (¬ maxAmount ≤ 0) (denied "invalid hold amount")
    let caps ← hold.beneficiaries.foldlM (readCap "invalid hold beneficiary") ∅
    let allocation ← input.lines.foldlM (settleHoldLine caps) {}
    let actualAmount := allocation.actualAmount
    ensure (¬ actualAmount > maxAmount) (denied "settlement exceeds hold")
    let refundAmount ← okOr (checkedSub maxAmount actualAmount) (denied "refund underflow")
    let s ← finalizeProjectBudget ports hold.projectId maxAmount actualAmount s
    let w ← s.wallets.addCounter .spent input.payerUserId actualAmount
    let (w, credits) ← creditAll (creditEarnings "settlement beneficiary not found")
      (ports.iter allocation.credits) w
    let balance ← okOr (w.account input.payerUserId) (denied "payer creature not found")
    let balance' ← okOr (checkedAdd balance refundAmount) (denied "payer balance overflow")
    let heldWithdrawable := hold.withdrawableAmount
    let withdrawableRefund := min refundAmount heldWithdrawable
    let withdrawableSpent ← okOr (checkedSub heldWithdrawable withdrawableRefund)
      (denied "withdrawable settlement underflow")
    let withdrawable ← w.counter .withdrawable input.payerUserId
    let withdrawable' ← okOr (checkedAdd withdrawable withdrawableRefund)
      (denied "withdrawable refund overflow")
    let w ← w.setCounter .withdrawable input.payerUserId withdrawable'
    let w ← w.storeAccount input.payerUserId balance'
    let heldBefore ← w.counter .held input.payerUserId
    let held ← okOr (checkedSub heldBefore maxAmount) (denied "held balance underflow")
    let w ← w.setCounter .held input.payerUserId held
    let hold := settledHold ports input actualAmount refundAmount withdrawableRefund
      withdrawableSpent hold
    let s := ({ s with wallets := w }.putHold input.holdId hold).putMarker settlementMarker
      input.holdId
    let s := s.writeJournal ports "hold.settled" input.holdId input.payerUserId
      (settleHoldPayload input maxAmount actualAmount refundAmount credits)
      ([input.payerUserId, authorityId] ++ credits.map Credit.userId)
    pure (.hold true hold (some ports.genJournalId), s)

theorem settleHoldLines_ok {caps : Store String Int64} {lines : List SettlementLine}
    {allocation : Allocation} (h : lines.foldlM (settleHoldLine caps) {} = .ok allocation) :
    allocation.Of caps lines := by
  refine foldlM_induct (fun acc done => acc.Of caps done) ?_ Allocation.Of.nil h
  intro acc done line acc' hacc hline
  simp only [settleHoldLine, bind_eq_ok, ensure_eq_ok, exists_const] at hline
  exact hacc.snoc hline.1 hline.2

structure SettleHoldApplied (ports : Ports) (authorityId : String) (input : SettleHoldInput)
    (s : Ledger) (r : Reply) (s' : Ledger) where
  hold : Hold
  caps : Store String Int64
  allocation : Allocation
  refundAmount : Int64
  withdrawableSpent : Int64
  credits : List Credit
  charged : Wallets
  credited : Wallets
  wallets : Wallets
  budgets : Store String ProjectBudget
  hold_valid : validFinanceId input.holdId = true
  fresh : s.marker (.settlement authorityId input.settlementId) = ""
  hold_get : s.holds.get input.holdId = some hold
  running : hold.status = .running
  payer : hold.payerUserId = input.payerUserId
  quote : hold.quoteId = input.quoteId
  authority : hold.settlementAuthority = authorityId
  positive : 0 < hold.maxAmount.toInt
  caps_read : hold.beneficiaries.foldlM (readCap "invalid hold beneficiary") ∅ = .ok caps
  allocated : allocation.Of caps input.lines
  refund_eq : refundAmount.toInt = hold.maxAmount.toInt - allocation.actualAmount.toInt
  refund_nonneg : 0 ≤ refundAmount.toInt
  spend : Posted s.wallets charged
    (post (input.payerUserId, .counter .spent) allocation.actualAmount.toInt)
  credit : Credited charged credited allocation.credits credits
  refund : Posted credited wallets
    (post (input.payerUserId, .counter .withdrawable)
        (min refundAmount hold.withdrawableAmount).toInt +
      post (input.payerUserId, .available) refundAmount.toInt +
      post (input.payerUserId, .counter .held) (-hold.maxAmount.toInt))
  budget : BudgetMoved hold.projectId (-hold.maxAmount.toInt) s.budgets budgets
  committed : hold.projectId ≠ "" → committedMinor budgets hold.projectId =
    committedMinor s.budgets hold.projectId - refundAmount.toInt
  reply : r = .hold true (settledHold ports input allocation.actualAmount refundAmount
    (min refundAmount hold.withdrawableAmount) withdrawableSpent hold) (some ports.genJournalId)
  state : s' = (({ s with wallets, budgets }.putHold input.holdId
      (settledHold ports input allocation.actualAmount refundAmount
        (min refundAmount hold.withdrawableAmount) withdrawableSpent hold)).putMarker
      (.settlement authorityId input.settlementId) input.holdId).writeJournal ports "hold.settled"
      input.holdId input.payerUserId
      (settleHoldPayload input hold.maxAmount allocation.actualAmount refundAmount credits)
      ([input.payerUserId, authorityId] ++ credits.map Credit.userId)

theorem settleHold_ok {authorityId : String} {input : SettleHoldInput}
    (h : settleHold ports authorityId input s = .ok (r, s')) :
    (s' = s ∧ r.applied = false) ∨ Nonempty (SettleHoldApplied ports authorityId input s r s') := by
  simp only [settleHold, bind_eq_ok, ensure_eq_ok, exists_const] at h
  obtain ⟨hids, h⟩ := h
  split at h <;>
    simp only [bind_eq_ok, ensure_eq_ok, okOr_eq_ok, pure_eq_ok, Ledger.getHold, exists_const,
      Prod.exists, not_nonpos_iff_toInt, not_lt_iff_toInt, gt_iff_lt, checkedAdd_eq_some,
      checkedSub_eq_some, Prod.mk.injEq] at h
  · obtain ⟨-, hold, -, rfl, rfl⟩ := h
    exact .inl ⟨rfl, rfl⟩
  · next hfresh =>
    obtain ⟨hold, hold_get, running, payer, quote, -, authority, -, positive, caps, caps_read, allocation, hlines,
      hle, refund, refund_eq, s₁, hbudget, w₁, hspent, w₂, credits, hcredits, balance, hbal,
      balance', hbal', spent, -, wd, hwd, wd', hwd', w₃, hset, w₄, hstore, held, hheld, held',
      hheld', w₅, hset', rfl, rfl⟩ := h
    have allocated := settleHoldLines_ok hlines
    obtain ⟨hs₁, budget⟩ := finalizeProjectBudget_ok allocated.actual_nonneg hbudget
    rw [show s₁.wallets = s.wallets by rw [hs₁]] at hspent
    have hbal := Wallets.amount_of_account hbal
    obtain ⟨hwd, -⟩ := Wallets.counter_ok hwd
    obtain ⟨hheld, -⟩ := Wallets.counter_ok hheld
    have p₁ := (Posted.of_setCounter hset (by rw [hwd', hwd])).1
    have p₂ := Posted.of_storeAccount (d := refund.toInt) hstore (by
      rw [hbal', ← hbal, p₁.amount]; simp [post_apply])
    have p₃ := (Posted.of_setCounter (d := -hold.maxAmount.toInt) hset' (by
      rw [hheld', hheld]; ring)).1
    exact .inr ⟨{
      hold, caps, allocation, credits, hold_get, running, payer, quote, authority, positive,
      caps_read, allocated, refund_eq, budget
      refundAmount := refund
      withdrawableSpent := spent
      charged := w₁
      credited := w₂
      wallets := w₅
      budgets := s₁.budgets
      hold_valid := hids.1
      fresh := not_ne_iff.mp hfresh
      refund_nonneg := by omega
      spend := (Posted.of_addCounter hspent).1
      credit := .of_creditAll creditEarnings_ok hcredits
      refund := (p₁.trans p₂).trans p₃
      committed := fun hne => by
        have hcommitted := finalizeProjectBudget_committed hbudget hne
        omega
      reply := rfl
      state := by rw [hs₁] }⟩

/-! ## release_hold -/

/-- The hold `release_hold` writes: expired when its time has passed. -/
def releasedHold (ports : Ports) (input : ReleaseHoldInput) (hold : Hold) : Hold :=
  { hold with
    status := if ports.now ≥ hold.expiresAt then .expired else .released, remainingAmount := 0,
    refundedAmount := some hold.maxAmount,
    withdrawableRefundedAmount := some hold.withdrawableAmount,
    releaseId := some input.releaseId, releaseReason := some input.reason,
    finalizedAt := some ports.now }

@[simp] theorem releasedHold_active (ports : Ports) (input : ReleaseHoldInput) (hold : Hold) :
    (releasedHold ports input hold).status.active = false := by
  simp only [releasedHold]
  split <;> rfl

theorem releasedHold_not_settled (ports : Ports) (input : ReleaseHoldInput) (hold : Hold) :
    (releasedHold ports input hold).status ≠ .settled := by
  simp only [releasedHold]
  split <;> nofun

def releaseHoldPayload (input : ReleaseHoldInput) (maxAmount : Int64) (status : HoldStatus) :
    Value :=
  obj [
    ("entries", .array [
      entry ("wallet:" ++ input.payerUserId ++ ":held") (-maxAmount),
      entry ("wallet:" ++ input.payerUserId ++ ":available") maxAmount]),
    ("status", .string status.text), ("reason", .string input.reason)]

def releaseHold (ports : Ports) (callerId : String) (input : ReleaseHoldInput) (s : Ledger) :
    Result (Reply × Ledger) := do
  ensure (validFinanceId input.holdId ∧ validFinanceId input.payerUserId ∧
      validFinanceId input.releaseId ∧ ¬ input.reason.utf8ByteSize > 256)
    (denied "invalid release request")
  let releaseMarker := FinanceMarker.release callerId input.releaseId
  let previousHoldId := s.marker releaseMarker
  if previousHoldId ≠ "" then do
    ensure (previousHoldId = input.holdId) (denied "release id already used for another hold")
    let hold ← s.getHold input.holdId
    pure (.hold false hold none, s)
  else do
    let hold ← s.getHold input.holdId
    ensure (hold.status.active) (denied "hold is not active")
    ensure (hold.payerUserId = input.payerUserId) (denied "payer does not match hold")
    let authority := hold.settlementAuthority
    ensure (callerId = authority ∨ (callerId = input.payerUserId ∧ hold.status = .opened) ∨
        (callerId = input.payerUserId ∧ ports.now ≥ hold.expiresAt))
      (denied "only the authority may release an active hold")
    let maxAmount := hold.maxAmount
    ensure (¬ maxAmount ≤ 0) (denied "invalid hold amount")
    let s ← finalizeProjectBudget ports hold.projectId maxAmount 0 s
    let w ← refundHeld s.wallets input.payerUserId maxAmount hold.withdrawableAmount
    let hold := releasedHold ports input hold
    let s := ({ s with wallets := w }.putHold input.holdId hold).putMarker releaseMarker
      input.holdId
    let s := s.writeJournal ports "hold.released" input.holdId input.payerUserId
      (releaseHoldPayload input maxAmount hold.status) [input.payerUserId, authority]
    pure (.hold true hold (some ports.genJournalId), s)

structure ReleaseHoldApplied (ports : Ports) (callerId : String) (input : ReleaseHoldInput)
    (s : Ledger) (r : Reply) (s' : Ledger) where
  hold : Hold
  wallets : Wallets
  budgets : Store String ProjectBudget
  hold_valid : validFinanceId input.holdId = true
  fresh : s.marker (.release callerId input.releaseId) = ""
  hold_get : s.holds.get input.holdId = some hold
  active : hold.status.active = true
  payer : hold.payerUserId = input.payerUserId
  positive : 0 < hold.maxAmount.toInt
  posted : Posted s.wallets wallets
    (post (input.payerUserId, .counter .withdrawable) hold.withdrawableAmount.toInt +
      post (input.payerUserId, .available) hold.maxAmount.toInt +
      post (input.payerUserId, .counter .held) (-hold.maxAmount.toInt))
  budget : BudgetMoved hold.projectId (-hold.maxAmount.toInt) s.budgets budgets
  committed : hold.projectId ≠ "" → committedMinor budgets hold.projectId =
    committedMinor s.budgets hold.projectId - hold.maxAmount.toInt
  reply : r = .hold true (releasedHold ports input hold) (some ports.genJournalId)
  state : s' = (({ s with wallets, budgets }.putHold input.holdId
      (releasedHold ports input hold)).putMarker (.release callerId input.releaseId)
      input.holdId).writeJournal ports "hold.released" input.holdId input.payerUserId
      (releaseHoldPayload input hold.maxAmount (releasedHold ports input hold).status)
      [input.payerUserId, hold.settlementAuthority]

theorem releaseHold_ok {callerId input} (h : releaseHold ports callerId input s = .ok (r, s')) :
    (s' = s ∧ r.applied = false) ∨ Nonempty (ReleaseHoldApplied ports callerId input s r s') := by
  simp only [releaseHold, bind_eq_ok, ensure_eq_ok, exists_const] at h
  obtain ⟨hids, h⟩ := h
  split at h <;>
    simp only [bind_eq_ok, ensure_eq_ok, okOr_eq_ok, pure_eq_ok, Ledger.getHold, exists_const,
      not_nonpos_iff_toInt, Prod.mk.injEq] at h
  · obtain ⟨-, hold, -, rfl, rfl⟩ := h
    exact .inl ⟨rfl, rfl⟩
  · next hfresh =>
    obtain ⟨hold, hold_get, active, payer, -, positive, s₁, hbudget, w, hrefund, rfl, rfl⟩ := h
    obtain ⟨hs₁, budget⟩ := finalizeProjectBudget_ok le_rfl hbudget
    rw [show s₁.wallets = s.wallets by rw [hs₁]] at hrefund
    exact .inr ⟨{
      hold, hold_get, active, payer, positive, budget
      wallets := w
      budgets := s₁.budgets
      hold_valid := hids.1
      fresh := not_ne_iff.mp hfresh
      posted := refundHeld_ok hrefund
      committed := fun hne => by
        have hcommitted := finalizeProjectBudget_committed hbudget hne
        simpa [sub_eq_add_neg] using hcommitted
      reply := rfl
      state := by rw [hs₁] }⟩

end Aseman.Finance
