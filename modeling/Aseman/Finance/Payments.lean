import Aseman.Finance.Postings

/-!
# Payouts, payment adjustments, transfers and mints

The operations that move value between wallets and in and out of the system: a user requests a
payout of its withdrawable earnings and the operator resolves it; the operator credits, reverses
and mints; users transfer to one another. A credit repays the receiver's payment debt first.
-/

namespace Aseman.Finance

open Json Wallets Posted Text
open Book (post post_apply)

/-! ## request_payout -/

def newPayout (ports : Ports) (userId : String) (input : RequestPayoutInput) : Payout where
  payoutId := ports.genId
  requestId := input.requestId
  userId
  amount := input.amount
  destinationRef := trim input.destinationRef
  status := .pending
  createdAt := ports.now
  requestHash := financeHash ports input.toJson

def requestPayoutPayload (ports : Ports) (userId : String) (input : RequestPayoutInput) : Value :=
  obj [
    ("entries", .array [
      entry ("wallet:" ++ userId ++ ":available") (-input.amount),
      entry ("wallet:" ++ userId ++ ":payout_held") input.amount]),
    ("payoutId", .string ports.genId),
    ("destinationRef", .string (trim input.destinationRef))]

def requestPayout (ports : Ports) (userId : String) (input : RequestPayoutInput) (s : Ledger) :
    Result (Reply × Ledger) := do
  let destination := trim input.destinationRef
  ensure (validFinanceId input.requestId ∧ ¬ input.amount ≤ 0 ∧ destination ≠ "" ∧
      ¬ destination.utf8ByteSize > 256 ∧ ¬ destination.toList.any isControl)
    (denied "invalid payout request")
  let requestHash := financeHash ports input.toJson
  let marker := FinanceMarker.payoutRequest userId input.requestId
  let previous := s.marker marker
  if previous ≠ "" then do
    let (payoutId, previousHash) ← okOr (splitOnce previous '|')
      (denied "invalid payout idempotency record")
    ensure (previousHash = requestHash) (denied "requestId already used with different payout data")
    let payout ← s.getPayout payoutId
    pure (.payout false payout none, s)
  else do
    let debt ← s.wallets.counter .debt userId
    ensure (¬ debt > 0) (denied "wallet has outstanding payment debt")
    let balance ← okOr (s.wallets.account userId) (denied "financial account not found")
    let withdrawable ← s.wallets.counter .withdrawable userId
    ensure (¬ input.amount > withdrawable ∧ ¬ input.amount > balance)
      (denied "withdrawable earnings are not enough")
    let balance' ← okOr (checkedSub balance input.amount) (denied "wallet payout underflow")
    let nextWithdrawable ← okOr (checkedSub withdrawable input.amount)
      (denied "withdrawable payout underflow")
    let heldBefore ← s.wallets.counter .payoutHeld userId
    let payoutHeld ← okOr (checkedAdd heldBefore input.amount) (denied "payout held overflow")
    let payout := newPayout ports userId input
    let w ← s.wallets.storeAccount userId balance'
    let w ← w.setCounter .withdrawable userId nextWithdrawable
    let w ← w.setCounter .payoutHeld userId payoutHeld
    let s := ({ s with wallets := w }.putPayout ports.genId payout).putMarker marker
      (ports.genId ++ "|" ++ requestHash)
    let s := s.writeJournal ports "payout.requested" "" userId
      (requestPayoutPayload ports userId input) [userId]
    pure (.payout true payout (some ports.genJournalId), s)

structure RequestPayoutApplied (ports : Ports) (userId : String) (input : RequestPayoutInput)
    (s : Ledger) (r : Reply) (s' : Ledger) where
  wallets : Wallets
  fresh : s.marker (.payoutRequest userId input.requestId) = ""
  positive : 0 < input.amount.toInt
  account : (s.wallets.account userId).isSome
  noDebt : s.wallets.amount (userId, .counter .debt) = 0
  withdrawable : input.amount.toInt ≤ s.wallets.amount (userId, .counter .withdrawable)
  covered : input.amount.toInt ≤ s.wallets.amount (userId, .available)
  posted : Posted s.wallets wallets
    (post (userId, .available) (-input.amount.toInt) +
      post (userId, .counter .withdrawable) (-input.amount.toInt) +
      post (userId, .counter .payoutHeld) input.amount.toInt)
  reply : r = .payout true (newPayout ports userId input) (some ports.genJournalId)
  state : s' = (({ s with wallets }.putPayout ports.genId
      (newPayout ports userId input)).putMarker (.payoutRequest userId input.requestId)
      (ports.genId ++ "|" ++ financeHash ports input.toJson)).writeJournal ports
      "payout.requested" "" userId (requestPayoutPayload ports userId input) [userId]

variable {ports : Ports} {userId : String} {s s' : Ledger} {r : Reply}

theorem requestPayout_ok {input} (h : requestPayout ports userId input s = .ok (r, s')) :
    (s' = s ∧ r.applied = false) ∨
      Nonempty (RequestPayoutApplied ports userId input s r s') := by
  simp only [requestPayout, bind_eq_ok, ensure_eq_ok, exists_const, not_nonpos_iff_toInt] at h
  obtain ⟨⟨-, positive, -⟩, h⟩ := h
  split at h <;>
    simp only [bind_eq_ok, ensure_eq_ok, okOr_eq_ok, pure_eq_ok, Ledger.getPayout, exists_const,
      not_lt_iff_toInt, gt_iff_lt, Int64.toInt_zero, checkedAdd_eq_some, checkedSub_eq_some,
      Prod.mk.injEq] at h
  · obtain ⟨_, -, -, payout, -, rfl, rfl⟩ := h
    exact .inl ⟨rfl, rfl⟩
  · next hfresh =>
    obtain ⟨debt, hdebt, hnodebt, balance, hbal, wd, hwd, ⟨hle, hle'⟩, balance', hbal', wd',
      hwd', held, hheld, held', hheld', w₁, hstore, w₂, hset, w₃, hset', rfl, rfl⟩ := h
    obtain ⟨hdebt, hdebt₀⟩ := counter_ok hdebt
    obtain ⟨hwd, -⟩ := counter_ok hwd
    obtain ⟨hheld, -⟩ := counter_ok hheld
    have hbal₀ := amount_of_account hbal
    have p₁ := of_storeAccount (d := -input.amount.toInt) hstore (by omega)
    have p₂ := (of_setCounter (d := -input.amount.toInt) hset (by
      rw [hwd', hwd, p₁.amount]; simp [post_apply, sub_eq_add_neg])).1
    have p₃ := (of_setCounter (d := input.amount.toInt) hset' (by
      rw [hheld', hheld, p₂.amount, p₁.amount]; simp [post_apply])).1
    exact .inr ⟨{
      positive
      wallets := w₃
      fresh := not_ne_iff.mp hfresh
      account := by rw [hbal]; rfl
      noDebt := by omega
      withdrawable := by omega
      covered := by omega
      posted := (p₁.trans p₂).trans p₃
      reply := rfl
      state := rfl }⟩

/-! ## resolve_payout -/

def resolutionStatus (status : String) : Option PayoutStatus :=
  if status = "paid" then some .paid
  else if status = "rejected" then some .rejected
  else none

/-- Return a rejected payout to its owner. -/
def refundPayout (w : Wallets) (userId : String) (amount : Int64) : Result Wallets := do
  let balance ← okOr (w.account userId) (denied "payout owner not found")
  let balance' ← okOr (checkedAdd balance amount) (denied "payout refund overflow")
  let withdrawable ← w.counter .withdrawable userId
  let withdrawable' ← okOr (checkedAdd withdrawable amount)
    (denied "withdrawable payout refund overflow")
  let w ← w.storeAccount userId balance'
  w.setCounter .withdrawable userId withdrawable'

/-- A rejected payout goes back to the wallet; a paid one has left. -/
def returnPayout (w : Wallets) (status : PayoutStatus) (userId : String) (amount : Int64) :
    Result Wallets :=
  if status = .rejected then refundPayout w userId amount else .ok w

def resolvedPayout (ports : Ports) (input : ResolvePayoutInput) (status : PayoutStatus)
    (payout : Payout) : Payout :=
  { payout with
    status, providerReference := some input.providerReference, reason := some input.reason,
    resolutionId := some input.resolutionId, resolvedAt := some ports.now }

def resolvePayoutPayload (input : ResolvePayoutInput) (status : PayoutStatus) (userId : String)
    (amount : Int64) : Value :=
  obj [
    ("entries", .array [
      entry ("wallet:" ++ userId ++ ":payout_held") (-amount),
      if status = .rejected then entry ("wallet:" ++ userId ++ ":available") amount
      else entry "external:payouts" amount]),
    ("payoutId", .string input.payoutId),
    ("providerReference", .string input.providerReference),
    ("reason", .string input.reason)]

def resolvePayout (ports : Ports) (caller : String) (input : ResolvePayoutInput) (s : Ledger) :
    Result (Reply × Ledger) := do
  ensure (caller = legacyRoot) (denied "access denied")
  let status ← okOr (resolutionStatus input.status) (denied "invalid payout resolution")
  ensure (validFinanceId input.payoutId ∧ validFinanceId input.resolutionId ∧
      ¬ input.providerReference.utf8ByteSize > 256 ∧
      ¬ input.providerReference.toList.any isControl ∧
      ¬ input.reason.utf8ByteSize > 256 ∧ ¬ input.reason.toList.any isControl ∧
      ¬ (input.status = "paid" ∧ trim input.providerReference = ""))
    (denied "invalid payout resolution")
  let requestHash := financeHash ports input.toJson
  let marker := FinanceMarker.payoutResolution input.resolutionId
  let previous := s.marker marker
  if previous ≠ "" then do
    let (payoutId, previousHash) ← okOr (splitOnce previous '|')
      (denied "invalid payout resolution idempotency record")
    ensure (payoutId = input.payoutId ∧ previousHash = requestHash)
      (denied "resolutionId already used with different payout data")
    let payout ← s.getPayout payoutId
    pure (.payout false payout none, s)
  else do
    let payout ← s.getPayout input.payoutId
    ensure (payout.status = .pending) (denied "payout is not pending")
    let userId := payout.userId
    let amount := payout.amount
    ensure (userId ≠ "" ∧ ¬ amount ≤ 0) (denied "invalid payout record")
    let heldBefore ← s.wallets.counter .payoutHeld userId
    let payoutHeld ← okOr (checkedSub heldBefore amount) (denied "payout held underflow")
    let w ← s.wallets.setCounter .payoutHeld userId payoutHeld
    let w ← returnPayout w status userId amount
    let payout := resolvedPayout ports input status payout
    let s := ({ s with wallets := w }.putPayout input.payoutId payout).putMarker marker
      (input.payoutId ++ "|" ++ requestHash)
    let s := s.writeJournal ports ("payout." ++ input.status) "" userId
      (resolvePayoutPayload input status userId amount) [userId, caller]
    pure (.payout true payout (some ports.genJournalId), s)

variable {w w' : Wallets} {amount : Int64}

theorem returnPayout_ok {status} (h : returnPayout w status userId amount = .ok w') :
    Posted w w' (if status = .rejected then post (userId, .available) amount.toInt +
      post (userId, .counter .withdrawable) amount.toInt else 0) := by
  unfold returnPayout at h
  split at h
  · next hrejected =>
    rw [if_pos hrejected]
    simp only [refundPayout, bind_eq_ok, okOr_eq_ok, checkedAdd_eq_some] at h
    obtain ⟨balance, hbal, balance', hbal', wd, hwd, wd', hwd', w₁, hstore, hset⟩ := h
    obtain ⟨hwd, -⟩ := counter_ok hwd
    have hbal := amount_of_account hbal
    have p₁ := of_storeAccount hstore (by rw [hbal', hbal])
    have p₂ := (of_setCounter (d := amount.toInt) hset (by
      rw [hwd', hwd, p₁.amount]; simp [post_apply])).1
    exact p₁.trans p₂
  · next hpaid =>
    rw [if_neg hpaid]
    cases h
    exact refl w

structure ResolvePayoutApplied (ports : Ports) (caller : String) (input : ResolvePayoutInput)
    (s : Ledger) (r : Reply) (s' : Ledger) where
  status : PayoutStatus
  payout : Payout
  wallets : Wallets
  fresh : s.marker (.payoutResolution input.resolutionId) = ""
  status_eq : status = .paid ∨ status = .rejected
  payout_get : s.payouts.get input.payoutId = some payout
  pending : payout.status = .pending
  user : payout.userId ≠ ""
  positive : 0 < payout.amount.toInt
  posted : Posted s.wallets wallets
    (post (payout.userId, .counter .payoutHeld) (-payout.amount.toInt) +
      if status = .rejected then post (payout.userId, .available) payout.amount.toInt +
        post (payout.userId, .counter .withdrawable) payout.amount.toInt else 0)
  reply : r = .payout true (resolvedPayout ports input status payout) (some ports.genJournalId)
  state : s' = (({ s with wallets }.putPayout input.payoutId
      (resolvedPayout ports input status payout)).putMarker
      (.payoutResolution input.resolutionId)
      (input.payoutId ++ "|" ++ financeHash ports input.toJson)).writeJournal ports
      ("payout." ++ input.status) "" payout.userId
      (resolvePayoutPayload input status payout.userId payout.amount) [payout.userId, caller]

theorem resolutionStatus_eq_some {text status} (h : resolutionStatus text = some status) :
    status = .paid ∨ status = .rejected := by
  unfold resolutionStatus at h
  split at h
  · exact .inl (Option.some.inj h).symm
  · split at h
    · exact .inr (Option.some.inj h).symm
    · cases h

variable {caller : String}

theorem resolvePayout_ok {input} (h : resolvePayout ports caller input s = .ok (r, s')) :
    (s' = s ∧ r.applied = false) ∨
      Nonempty (ResolvePayoutApplied ports caller input s r s') := by
  simp only [resolvePayout, bind_eq_ok, ensure_eq_ok, okOr_eq_ok, exists_const] at h
  obtain ⟨-, status, hstatus, -, h⟩ := h
  split at h <;>
    simp only [bind_eq_ok, ensure_eq_ok, okOr_eq_ok, pure_eq_ok, Ledger.getPayout, exists_const,
      not_nonpos_iff_toInt, checkedSub_eq_some, Prod.mk.injEq] at h
  · obtain ⟨_, -, -, payout, -, rfl, rfl⟩ := h
    exact .inl ⟨rfl, rfl⟩
  · next hfresh =>
    obtain ⟨payout, payout_get, pending, ⟨user, positive⟩, held, hheld, held', hheld', w₁, hset, w₂,
      hreturn, rfl, rfl⟩ := h
    obtain ⟨hheld, -⟩ := counter_ok hheld
    have p₁ := (of_setCounter (d := -payout.amount.toInt) hset (by omega)).1
    exact .inr ⟨{
      status, payout, payout_get, pending, user, positive
      wallets := w₂
      fresh := not_ne_iff.mp hfresh
      status_eq := resolutionStatus_eq_some hstatus
      posted := p₁.trans (returnPayout_ok hreturn)
      reply := rfl
      state := rfl }⟩

/-! ## payment_adjustment -/

def adjustmentKinds : List String :=
  ["refund", "chargeback", "dispute", "manual_debit", "manual_credit"]

/-- The debit of a negative adjustment: what the balance cannot cover becomes debt. Returns the
change of the wallet and of the debt. -/
def reversePayment (w : Wallets) (userId : String) (balance debt withdrawable amount : Int64) :
    Result (Wallets × Int64 × Int64) := do
  let reversal ← okOr (checkedAbs amount) (denied "payment adjustment overflow")
  let availableDebit := min balance reversal
  let debtAdded ← okOr (checkedSub reversal availableDebit) (denied "payment adjustment underflow")
  let balance' ← okOr (checkedSub balance availableDebit) (denied "wallet adjustment underflow")
  let w ← w.setCounter .withdrawable userId (min withdrawable balance')
  let debt' ← okOr (checkedAdd debt debtAdded) (denied "wallet debt overflow")
  let w ← w.setCounter .debt userId debt'
  let w ← w.storeAccount userId balance'
  pure (w, -availableDebit, debtAdded)

/-- The credit of a positive adjustment. -/
def creditPayment (w : Wallets) (userId : String) (balance debt amount : Int64) :
    Result (Wallets × Int64 × Int64) := do
  let debtRepaid := min debt amount
  let walletCredit ← okOr (checkedSub amount debtRepaid) (denied "payment adjustment underflow")
  let balance' ← okOr (checkedAdd balance walletCredit) (denied "wallet balance overflow")
  let w ← w.setCounter .debt userId (debt - debtRepaid)
  let w ← w.storeAccount userId balance'
  pure (w, walletCredit, -debtRepaid)

/-- The change of the wallet, by the sign of the adjustment. -/
def adjustWallet (w : Wallets) (userId : String) (balance debt withdrawable amount : Int64) :
    Result (Wallets × Int64 × Int64) :=
  if amount < 0 then reversePayment w userId balance debt withdrawable amount
  else creditPayment w userId balance debt amount

def adjustmentPayload (input : PaymentAdjustmentInput) (walletDelta debtDelta : Int64) : Value :=
  obj [
    ("entries", .array [
      entry ("wallet:" ++ input.userId ++ ":available") walletDelta,
      entry ("wallet:" ++ input.userId ++ ":debt") debtDelta,
      entry "external:payments" (-input.amount)]),
    ("adjustmentAmount", .ofI64 input.amount), ("kind", .string input.kind),
    ("reference", .string input.reference), ("metadata", input.metadata)]

def paymentAdjustment (ports : Ports) (caller : String) (input : PaymentAdjustmentInput)
    (s : Ledger) : Result (Reply × Ledger) := do
  ensure (caller = legacyRoot) (denied "access denied")
  ensure (validFinanceId input.userId ∧ validFinanceId input.kind ∧
      validFinanceId input.idempotencyKey ∧ input.reference ≠ "" ∧
      ¬ input.reference.utf8ByteSize > 256 ∧ input.amount ≠ 0)
    (denied "invalid payment adjustment")
  ensure (input.kind ∈ adjustmentKinds ∧ ¬ (input.amount > 0 ∧ input.kind ≠ "manual_credit"))
    (denied "unsupported payment adjustment kind")
  ensure (¬ input.metadata.print.utf8ByteSize > 4096)
    (denied "payment adjustment metadata is too large")
  let requestHash := financeHash ports input.toJson
  let marker := FinanceMarker.paymentAdjustment input.idempotencyKey
  let previous := s.marker marker
  if previous ≠ "" then do
    let (previousHash, journalId) ← okOr (splitOnce previous '|')
      (denied "invalid payment adjustment idempotency record")
    ensure (previousHash = requestHash)
      (denied "idempotency key already used with different adjustment")
    let account ← financialAccountSnapshot s input.userId 20
    pure (.adjustment false journalId account, s)
  else do
    let balance ← okOr (s.wallets.account input.userId)
      (denied "payment adjustment target not found")
    let oldDebt ← s.wallets.counter .debt input.userId
    let oldWithdrawable ← s.wallets.counter .withdrawable input.userId
    ensure (¬ oldWithdrawable > balance) (denied "withdrawable balance exceeds available balance")
    let (w, walletDelta, debtDelta) ← adjustWallet s.wallets input.userId balance oldDebt
      oldWithdrawable input.amount
    let s := { s with wallets := w }.writeJournal ports ("payment." ++ input.kind) "" input.userId
      (adjustmentPayload input walletDelta debtDelta) [input.userId, caller]
    let s := s.putMarker marker (requestHash ++ "|" ++ ports.genJournalId)
    let account ← financialAccountSnapshot s input.userId 20
    pure (.adjustment true ports.genJournalId account, s)

/-- A wallet adjusted by `amount`: the balance moved by `walletDelta`, the debt by `debtDelta` and
the withdrawable part by `withdrawableDelta`. -/
structure Adjusted (w w' : Wallets) (userId : String) (amount walletDelta debtDelta : Int64)
    (withdrawableDelta : ℤ) : Prop where
  posted : Posted w w' (post (userId, .counter .withdrawable) withdrawableDelta +
    post (userId, .counter .debt) debtDelta.toInt +
    post (userId, .available) walletDelta.toInt)
  proper : amount.toInt ≠ -2 ^ 63
  net : walletDelta.toInt - debtDelta.toInt = amount.toInt
  debt_eq : debtDelta.toInt = if amount.toInt < 0
    then -amount.toInt - min (w.amount (userId, .available)) (-amount.toInt)
    else -min (w.amount (userId, .counter .debt)) amount.toInt
  withdrawable_le : withdrawableDelta ≤ 0
  backed : w.amount (userId, .counter .withdrawable) + withdrawableDelta ≤
    w.amount (userId, .available) + walletDelta.toInt

theorem reversePayment_ok {balance debt withdrawable walletDelta debtDelta}
    (hbal : balance.toInt = w.amount (userId, .available))
    (hdebt : debt.toInt = w.amount (userId, .counter .debt))
    (hwd : withdrawable.toInt = w.amount (userId, .counter .withdrawable))
    (hwd₀ : 0 ≤ withdrawable.toInt) (hle : withdrawable.toInt ≤ balance.toInt)
    (hneg : amount.toInt < 0) (h : reversePayment w userId balance debt withdrawable amount =
      .ok (w', walletDelta, debtDelta)) :
    ∃ d, Adjusted w w' userId amount walletDelta debtDelta d := by
  simp only [reversePayment, bind_eq_ok, okOr_eq_ok, pure_eq_ok, checkedAbs_eq_some,
    checkedAdd_eq_some, checkedSub_eq_some, Prod.mk.injEq] at h
  obtain ⟨reversal, hrev, added, hadded, balance', hbal', w₁, hset, debt', hdebt', w₂, hset', w₃,
    hstore, rfl, rfl, rfl⟩ := h
  rw [abs_of_neg hneg] at hrev
  have hmin := toInt_min balance reversal
  have hminW := toInt_min withdrawable balance'
  have hnegd : (-min balance reversal).toInt = -(min balance reversal).toInt := by
    apply toInt_neg_of_ne
    omega
  have p₁ := (of_setCounter (d := min withdrawable.toInt balance'.toInt -
    withdrawable.toInt) hset (by omega)).1
  have p₂ := (of_setCounter (d := added.toInt) hset' (by
    rw [hdebt', hdebt, p₁.amount]; simp [post_apply])).1
  have p₃ := of_storeAccount (d := -(min balance reversal).toInt) hstore (by
    rw [hbal', hbal, p₂.amount, p₁.amount]; simp [post_apply, sub_eq_add_neg])
  have hrevlt := reversal.toInt_lt
  refine ⟨_, ((p₁.trans p₂).trans p₃).congr (by rw [hnegd]), by omega, ?_, ?_, ?_, ?_⟩
  · omega
  · omega
  · omega
  · omega

theorem creditPayment_ok {balance debt walletDelta debtDelta}
    (hbal : balance.toInt = w.amount (userId, .available))
    (hdebt : debt.toInt = w.amount (userId, .counter .debt)) (hdebt₀ : 0 ≤ debt.toInt)
    (hle : w.amount (userId, .counter .withdrawable) ≤ balance.toInt) (hpos : 0 ≤ amount.toInt)
    (h : creditPayment w userId balance debt amount = .ok (w', walletDelta, debtDelta)) :
    ∃ d, Adjusted w w' userId amount walletDelta debtDelta d := by
  simp only [creditPayment, bind_eq_ok, okOr_eq_ok, pure_eq_ok, checkedAdd_eq_some,
    checkedSub_eq_some, Prod.mk.injEq] at h
  obtain ⟨credit, hcredit, balance', hbal', w₁, hset, w₂, hstore, rfl, rfl, rfl⟩ := h
  have hmin := toInt_min debt amount
  have hfits := debt.toInt_lt
  have hnegd : (-min debt amount).toInt = -(min debt amount).toInt := by
    apply toInt_neg_of_ne
    omega
  have hsub : (debt - min debt amount).toInt = debt.toInt - (min debt amount).toInt := by
    apply toInt_sub_of_fits <;> omega
  have p₁ := (of_setCounter (d := -(min debt amount).toInt) hset (by omega)).1
  have p₂ := of_storeAccount (d := credit.toInt) hstore (by
    rw [hbal', hbal, p₁.amount]; simp [post_apply])
  refine ⟨0, (p₁.trans p₂).congr (by rw [hnegd]; simp), by omega, ?_, ?_, le_rfl, ?_⟩
  · omega
  · omega
  · omega

structure PaymentAdjustmentApplied (ports : Ports) (caller : String)
    (input : PaymentAdjustmentInput) (s : Ledger) (r : Reply) (s' : Ledger) where
  walletDelta : Int64
  debtDelta : Int64
  withdrawableDelta : ℤ
  wallets : Wallets
  account : AccountSnapshot
  fresh : s.marker (.paymentAdjustment input.idempotencyKey) = ""
  nonzero : input.amount.toInt ≠ 0
  exists_account : (s.wallets.account input.userId).isSome
  backed : s.wallets.amount (input.userId, .counter .withdrawable) ≤
    s.wallets.amount (input.userId, .available)
  debt_nonneg : 0 ≤ s.wallets.amount (input.userId, .counter .debt)
  adjusted : Adjusted s.wallets wallets input.userId input.amount walletDelta debtDelta
    withdrawableDelta
  reply : r = .adjustment true ports.genJournalId account
  state : s' = ({ s with wallets }.writeJournal ports ("payment." ++ input.kind) "" input.userId
      (adjustmentPayload input walletDelta debtDelta) [input.userId, caller]).putMarker
      (.paymentAdjustment input.idempotencyKey)
      (financeHash ports input.toJson ++ "|" ++ ports.genJournalId)

theorem paymentAdjustment_ok {input} (h : paymentAdjustment ports caller input s = .ok (r, s')) :
    (s' = s ∧ r.applied = false) ∨
      Nonempty (PaymentAdjustmentApplied ports caller input s r s') := by
  simp only [paymentAdjustment, bind_eq_ok, ensure_eq_ok, exists_const] at h
  obtain ⟨-, ⟨-, -, -, -, -, hne⟩, -, -, h⟩ := h
  split at h <;>
    simp only [bind_eq_ok, ensure_eq_ok, okOr_eq_ok, pure_eq_ok, exists_const, Prod.exists,
      not_lt_iff_toInt, gt_iff_lt, Prod.mk.injEq] at h
  · obtain ⟨_, -, -, -, account, -, rfl, rfl⟩ := h
    exact .inl ⟨rfl, rfl⟩
  · next hfresh =>
    obtain ⟨balance, hbal, debt, hdebt, wd, hwd, hle, w, walletDelta, debtDelta, hadjust,
      account, -, rfl, rfl⟩ := h
    obtain ⟨hdebt, hdebt₀⟩ := counter_ok hdebt
    obtain ⟨hwd, hwd₀⟩ := counter_ok hwd
    have hbal₀ := (amount_of_account hbal).symm
    have nonzero : input.amount.toInt ≠ 0 := fun hzero =>
      hne (Int64.toInt_inj.mp (hzero.trans Int64.toInt_zero.symm))
    obtain ⟨d, adjusted⟩ :
        ∃ d, Adjusted s.wallets w input.userId input.amount walletDelta debtDelta d := by
      unfold adjustWallet at hadjust
      split at hadjust
      · next hneg =>
        exact reversePayment_ok hbal₀ hdebt hwd hwd₀ hle (Int64.lt_iff_toInt_lt.mp hneg) hadjust
      · next hneg =>
        exact creditPayment_ok hbal₀ hdebt hdebt₀ (hwd ▸ hle) (not_neg_iff_toInt.mp hneg) hadjust
    exact .inr ⟨{
      walletDelta, debtDelta, account, nonzero, adjusted
      withdrawableDelta := d
      wallets := w
      fresh := not_ne_iff.mp hfresh
      exists_account := by rw [hbal]; rfl
      backed := by omega
      debt_nonneg := by omega
      reply := rfl
      state := rfl }⟩

/-! ## transfer -/

def transferPayload (fromId toId : String) (amount walletCredit sentWithdrawable debtRepaid : Int64) :
    Value :=
  obj [
    ("entries", .array [
      entry ("wallet:" ++ fromId ++ ":available") (-amount),
      entry ("wallet:" ++ toId ++ ":available") walletCredit,
      entry ("wallet:" ++ toId ++ ":debt") (-debtRepaid)]),
    ("amount", .ofI64 amount), ("withdrawableAmount", .ofI64 sentWithdrawable),
    ("debtRepaid", .ofI64 debtRepaid)]

def transfer (ports : Ports) (fromId : String) (input : TransferInput) (s : Ledger) :
    Result (Reply × Ledger) := do
  ensure (¬ input.amount ≤ 0) (denied "amount must be greater than zero")
  let fromBalance ← okOr (s.wallets.account fromId) (denied "sender creature not found")
  ensure (¬ fromBalance < input.amount) (denied "your balance is not enough")
  let toId ← okOr (ports.creatureIdByUsername input.toUsername) (denied "target creature not found")
  ensure (toId ≠ fromId) (denied "cannot transfer to the same wallet")
  let toBalance ← okOr (s.wallets.account toId) (denied "target creature not found")
  let fromWithdrawable ← s.wallets.counter .withdrawable fromId
  ensure (¬ fromWithdrawable > fromBalance)
    (denied "withdrawable balance exceeds available balance")
  let nonwithdrawable := fromBalance - fromWithdrawable
  let sentWithdrawable := saturatingSub input.amount nonwithdrawable
  let fromBalance' ← okOr (checkedSub fromBalance input.amount) (denied "sender balance underflow")
  let fromWithdrawable' ← okOr (checkedSub fromWithdrawable sentWithdrawable)
    (denied "sender withdrawable underflow")
  let w ← s.wallets.setCounter .withdrawable fromId fromWithdrawable'
  let debt ← w.counter .debt toId
  let debtRepaid := min debt input.amount
  let walletCredit := input.amount - debtRepaid
  let sentNonwithdrawable := input.amount - sentWithdrawable
  let withdrawableUsedForDebt := saturatingSub debtRepaid sentNonwithdrawable
  let receivedWithdrawable ← okOr (checkedSub sentWithdrawable withdrawableUsedForDebt)
    (denied "target withdrawable underflow")
  let toBalance' ← okOr (checkedAdd toBalance walletCredit) (denied "target balance overflow")
  let toWithdrawable ← w.counter .withdrawable toId
  let toWithdrawable' ← okOr (checkedAdd toWithdrawable receivedWithdrawable)
    (denied "target withdrawable overflow")
  let w ← w.setCounter .debt toId (debt - debtRepaid)
  let w ← w.setCounter .withdrawable toId toWithdrawable'
  let w ← w.storeAccount fromId fromBalance'
  let w ← w.storeAccount toId toBalance'
  let s := { s with wallets := w }.writeJournal ports "wallet.transfer" "" fromId
    (transferPayload fromId toId input.amount walletCredit sentWithdrawable debtRepaid)
    [fromId, toId]
  pure (.transferred input.amount toId debtRepaid ports.genJournalId, s)

/-- What an applied `transfer` did. Whatever the sender's mix was, the receiver's credit counts as
withdrawable in full. -/
structure TransferApplied (ports : Ports) (fromId : String) (input : TransferInput)
    (s : Ledger) (r : Reply) (s' : Ledger) where
  toId : String
  sentWithdrawable : Int64
  debtRepaid : Int64
  walletCredit : Int64
  wallets : Wallets
  positive : 0 < input.amount.toInt
  to_eq : ports.creatureIdByUsername input.toUsername = some toId
  distinct : toId ≠ fromId
  from_account : (s.wallets.account fromId).isSome
  to_account : (s.wallets.account toId).isSome
  covered : input.amount.toInt ≤ s.wallets.amount (fromId, .available)
  backed : s.wallets.amount (fromId, .counter .withdrawable) ≤ s.wallets.amount (fromId, .available)
  withdrawable_nonneg : 0 ≤ s.wallets.amount (fromId, .counter .withdrawable)
  debt_nonneg : 0 ≤ s.wallets.amount (toId, .counter .debt)
  sent_eq : sentWithdrawable.toInt = input.amount.toInt -
    (s.wallets.amount (fromId, .available) - s.wallets.amount (fromId, .counter .withdrawable))
  repaid_eq : debtRepaid.toInt = min (s.wallets.amount (toId, .counter .debt)) input.amount.toInt
  credit_eq : walletCredit.toInt = input.amount.toInt - debtRepaid.toInt
  posted : Posted s.wallets wallets
    (post (fromId, .counter .withdrawable) (-sentWithdrawable.toInt) +
      post (toId, .counter .debt) (-debtRepaid.toInt) +
      post (toId, .counter .withdrawable) walletCredit.toInt +
      post (fromId, .available) (-input.amount.toInt) +
      post (toId, .available) walletCredit.toInt)
  reply : r = .transferred input.amount toId debtRepaid ports.genJournalId
  state : s' = { s with wallets }.writeJournal ports "wallet.transfer" "" fromId
      (transferPayload fromId toId input.amount walletCredit sentWithdrawable debtRepaid)
      [fromId, toId]

theorem transfer_ok {fromId input} (h : transfer ports fromId input s = .ok (r, s')) :
    Nonempty (TransferApplied ports fromId input s r s') := by
  simp only [transfer, bind_eq_ok, ensure_eq_ok, okOr_eq_ok, pure_eq_ok, exists_const,
    not_nonpos_iff_toInt, not_lt_iff_toInt, gt_iff_lt, checkedAdd_eq_some, checkedSub_eq_some,
    Prod.mk.injEq] at h
  obtain ⟨positive, fb, hfb, hcovered, toId, to_eq, distinct, tb, htb, fw, hfw, hle, fb', hfb', fw', hfw', w₁,
    hset₁, debt, hdebt, received, hreceived, tb', htb', tw, htw, tw', htw', w₂, hset₂, w₃, hset₃,
    w₄, hstore₄, w₅, hstore₅, rfl, rfl⟩ := h
  obtain ⟨hfw, hfw₀⟩ := counter_ok hfw
  obtain ⟨hdebt, hdebt₀⟩ := counter_ok hdebt
  obtain ⟨htw, -⟩ := counter_ok htw
  have hfb₀ := amount_of_account hfb
  have htb₀ := amount_of_account htb
  have hfits := fb.toInt_lt
  have hmin := toInt_min debt input.amount
  have hnon : (fb - fw).toInt = fb.toInt - fw.toInt := by
    apply toInt_sub_of_fits <;> omega
  have hsent : (saturatingSub input.amount (fb - fw)).toInt =
      input.amount.toInt - (fb.toInt - fw.toInt) := by
    rw [toInt_saturatingSub_of_fits] <;> omega
  have credit_eq : (input.amount - min debt input.amount).toInt =
      input.amount.toInt - (min debt input.amount).toInt := by
    apply toInt_sub_of_fits <;> omega
  have hrest : (debt - min debt input.amount).toInt =
      debt.toInt - (min debt input.amount).toInt := by
    have := debt.toInt_lt
    apply toInt_sub_of_fits <;> omega
  have hsentNon : (input.amount - saturatingSub input.amount (fb - fw)).toInt =
      fb.toInt - fw.toInt := by
    rw [toInt_sub_of_fits] <;> omega
  have hused : (saturatingSub (min debt input.amount)
      (input.amount - saturatingSub input.amount (fb - fw))).toInt =
      (min debt input.amount).toInt - (fb.toInt - fw.toInt) := by
    rw [toInt_saturatingSub_of_fits] <;> omega
  have hrec : received.toInt = (input.amount - min debt input.amount).toInt := by omega
  have p₁ := (of_setCounter (d := -(saturatingSub input.amount (fb - fw)).toInt) hset₁ (by omega)).1
  have hdebt₁ : debt.toInt = s.wallets.amount (toId, .counter .debt) := by
    rw [hdebt, p₁.amount]; simp [post_apply]
  have p₂ := (of_setCounter (d := -(min debt input.amount).toInt) hset₂ (by omega)).1
  have p₃ := (of_setCounter (d := (input.amount - min debt input.amount).toInt) hset₃ (by
    rw [htw', htw, hrec, p₂.amount]; simp [post_apply])).1
  have p₄ := of_storeAccount (d := -input.amount.toInt) hstore₄ (by
    rw [hfb', ← hfb₀, p₃.amount, p₂.amount, p₁.amount]; simp [post_apply, sub_eq_add_neg])
  have p₅ := of_storeAccount (d := (input.amount - min debt input.amount).toInt) hstore₅ (by
    rw [htb', ← htb₀, p₄.amount, p₃.amount, p₂.amount, p₁.amount]
    simp [post_apply, Ne.symm distinct])
  exact ⟨{
    toId, positive, to_eq, distinct, credit_eq
    sentWithdrawable := saturatingSub input.amount (fb - fw)
    debtRepaid := min debt input.amount
    walletCredit := input.amount - min debt input.amount
    wallets := w₅
    from_account := by rw [hfb]; rfl
    to_account := by rw [htb]; rfl
    covered := by omega
    backed := by omega
    withdrawable_nonneg := by omega
    debt_nonneg := by omega
    sent_eq := by omega
    repaid_eq := by rw [hmin, hdebt₁]
    posted := (((p₁.trans p₂).trans p₃).trans p₄).trans p₅
    reply := rfl
    state := rfl }⟩

/-! ## mint -/

/-- The marker of a mint: none when the trimmed key is blank. -/
def mintMarker (idempotencyKey : String) : Option FinanceMarker :=
  if trim idempotencyKey = "" then none
  else some (.mintApplied (trim idempotencyKey))

@[simp] def Ledger.putMintMarker (s : Ledger) (marker : Option FinanceMarker) (value : String) :
    Ledger :=
  { s with markers := marker.elim s.markers fun m => s.markers.put (markerKey m) value }

def mintPayload (input : MintInput) (toUserId : String) (walletCredit debtRepaid : Int64) : Value :=
  obj [
    ("entries", .array [
      entry "external:payments" (-input.amount),
      entry ("wallet:" ++ toUserId ++ ":available") walletCredit,
      entry ("wallet:" ++ toUserId ++ ":debt") (-debtRepaid)]),
    ("grossAmount", .ofI64 input.amount), ("walletCredit", .ofI64 walletCredit),
    ("debtRepaid", .ofI64 debtRepaid), ("paymentReference", .string input.idempotencyKey)]

def mint (ports : Ports) (caller : String) (input : MintInput) (s : Ledger) :
    Result (Reply × Ledger) := do
  ensure (caller = legacyRoot) (denied "access denied")
  ensure (¬ input.amount ≤ 0) (denied "amount must be greater than zero")
  let marker := mintMarker input.idempotencyKey
  let applied := (marker.map s.marker).getD ""
  if applied ≠ "" then
    pure (.mintReplay applied, s)
  else do
    let toUserId := ports.emailToId input.toUserEmail
    ensure (toUserId ≠ "") (denied "target user not found")
    let balance ← okOr (s.wallets.account toUserId) (denied "target user not found")
    let debt ← s.wallets.counter .debt toUserId
    let debtRepaid := min debt input.amount
    let walletCredit ← okOr (checkedSub input.amount debtRepaid) (denied "mint credit underflow")
    let balance' ← okOr (checkedAdd balance walletCredit) (denied "balance overflow")
    let w ← s.wallets.storeAccount toUserId balance'
    let w ← w.setCounter .debt toUserId (debt - debtRepaid)
    let s := { s with wallets := w }.writeJournal ports "payment.credited" "" toUserId
      (mintPayload input toUserId walletCredit debtRepaid) [toUserId, caller]
    let s := s.putMintMarker marker
      (toUserId ++ ":" ++ toString input.amount.toInt ++ ":" ++ ports.genJournalId)
    pure (.minted balance' walletCredit debtRepaid (debt - debtRepaid) ports.genJournalId, s)

structure MintApplied (ports : Ports) (caller : String) (input : MintInput)
    (s : Ledger) (r : Reply) (s' : Ledger) where
  toUserId : String
  balance : Int64
  walletCredit : Int64
  debtRepaid : Int64
  debt : Int64
  wallets : Wallets
  to_eq : toUserId = ports.emailToId input.toUserEmail
  positive : 0 < input.amount.toInt
  fresh : ∀ m, mintMarker input.idempotencyKey = some m → s.marker m = ""
  account : (s.wallets.account toUserId).isSome
  debt_nonneg : 0 ≤ s.wallets.amount (toUserId, .counter .debt)
  repaid_eq : debtRepaid.toInt =
    min (s.wallets.amount (toUserId, .counter .debt)) input.amount.toInt
  credit_eq : walletCredit.toInt = input.amount.toInt - debtRepaid.toInt
  posted : Posted s.wallets wallets (post (toUserId, .available) walletCredit.toInt +
    post (toUserId, .counter .debt) (-debtRepaid.toInt))
  reply : r = .minted balance walletCredit debtRepaid debt ports.genJournalId
  state : s' = ({ s with wallets }.writeJournal ports "payment.credited" "" toUserId
      (mintPayload input toUserId walletCredit debtRepaid) [toUserId, caller]).putMintMarker
      (mintMarker input.idempotencyKey)
      (toUserId ++ ":" ++ toString input.amount.toInt ++ ":" ++ ports.genJournalId)

theorem mint_ok {input} (h : mint ports caller input s = .ok (r, s')) :
    (s' = s ∧ r.applied = false) ∨ Nonempty (MintApplied ports caller input s r s') := by
  simp only [mint, bind_eq_ok, ensure_eq_ok, exists_const, not_nonpos_iff_toInt] at h
  obtain ⟨-, positive, h⟩ := h
  split at h <;>
    simp only [bind_eq_ok, ensure_eq_ok, okOr_eq_ok, pure_eq_ok, exists_const,
      checkedAdd_eq_some, checkedSub_eq_some, Prod.mk.injEq] at h
  · obtain ⟨rfl, rfl⟩ := h
    exact .inl ⟨rfl, rfl⟩
  · next hfresh =>
    obtain ⟨-, balance, hbal, debt, hdebt, credit, credit_eq, balance', hbal', w₁, hstore, w₂,
      hset, rfl, rfl⟩ := h
    obtain ⟨hdebt, hdebt₀⟩ := counter_ok hdebt
    have hbal₀ := amount_of_account hbal
    have hmin := toInt_min debt input.amount
    have hrest : (debt - min debt input.amount).toInt =
        debt.toInt - (min debt input.amount).toInt := by
      have := debt.toInt_lt
      apply toInt_sub_of_fits <;> omega
    have p₁ := of_storeAccount (d := credit.toInt) hstore (by omega)
    have p₂ := (of_setCounter (d := -(min debt input.amount).toInt) hset (by
      rw [hrest, hdebt, p₁.amount]; simp [post_apply, sub_eq_add_neg])).1
    exact .inr ⟨{
      positive, credit_eq
      debt := debt - min debt input.amount
      toUserId := _
      balance := balance'
      walletCredit := credit
      debtRepaid := min debt input.amount
      wallets := w₂
      to_eq := rfl
      fresh := fun m hm => by simpa [hm] using hfresh
      account := by rw [hbal]; rfl
      debt_nonneg := by omega
      repaid_eq := by rw [hmin, hdebt]
      posted := p₁.trans p₂
      reply := rfl
      state := rfl }⟩

end Aseman.Finance
