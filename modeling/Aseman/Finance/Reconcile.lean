import Aseman.Finance.Documents
import Aseman.Finance.Ledger

/-!
# Reconciliation

`reconcile_financial_system` reads every finance record and reports what does not fit together. It
adds up what the documents say should be held, spent, earned and reserved, and compares the totals
with the stored counters. A record that fails a check is reported and mostly skipped, so the
totals depend on every check before them.

The reconciler works on the JSON objects, whatever they hold: `Records` is what one storage
snapshot lists, and `Ledger.records` is the listing of a ledger of the model.
-/

namespace Aseman.Finance

open Json

/-! ## Issues -/

inductive IssueCode where
  | holdUnreadable
  | holdInvalid
  | holdRemainingMismatch
  | heldOverflow
  | projectReservedOverflow
  | holdSettlementMismatch
  | settlementLineInvalid
  | settlementLinesMismatch
  | spentOverflow
  | projectSpentOverflow
  | holdReleaseMismatch
  | holdStatusInvalid
  | poolUnreadable
  | poolInvalid
  | poolBalanceMismatch
  | reservationUnreadable
  | reservationInvalid
  | reservationOverflow
  | reservationSettlementInvalid
  | reservationLineInvalid
  | reservationLinesMismatch
  | reservationStatusInvalid
  | liveDebitUnreadable
  | liveDebitInvalid
  | liveDebitCreditInvalid
  | liveDebitCreditMismatch
  | poolReservedMismatch
  | heldInvalid
  | heldMismatch
  | payoutUnreadable
  | payoutInvalid
  | payoutHeldInvalid
  | payoutHeldMismatch
  | withdrawableInvalid
  | withdrawableUnbackedTotal
  | spentMismatch
  | earnedMismatch
  | projectReservedMismatch
  | projectSpentUndercount
  deriving DecidableEq

def IssueCode.text : IssueCode → String
  | holdUnreadable => "hold.unreadable"
  | holdInvalid => "hold.invalid"
  | holdRemainingMismatch => "hold.remaining_mismatch"
  | heldOverflow => "held.overflow"
  | projectReservedOverflow => "project.reserved_overflow"
  | holdSettlementMismatch => "hold.settlement_mismatch"
  | settlementLineInvalid => "settlement.line_invalid"
  | settlementLinesMismatch => "settlement.lines_mismatch"
  | spentOverflow => "spent.overflow"
  | projectSpentOverflow => "project.spent_overflow"
  | holdReleaseMismatch => "hold.release_mismatch"
  | holdStatusInvalid => "hold.status_invalid"
  | poolUnreadable => "pool.unreadable"
  | poolInvalid => "pool.invalid"
  | poolBalanceMismatch => "pool.balance_mismatch"
  | reservationUnreadable => "reservation.unreadable"
  | reservationInvalid => "reservation.invalid"
  | reservationOverflow => "reservation.overflow"
  | reservationSettlementInvalid => "reservation.settlement_invalid"
  | reservationLineInvalid => "reservation.line_invalid"
  | reservationLinesMismatch => "reservation.lines_mismatch"
  | reservationStatusInvalid => "reservation.status_invalid"
  | liveDebitUnreadable => "livedebit.unreadable"
  | liveDebitInvalid => "livedebit.invalid"
  | liveDebitCreditInvalid => "livedebit.credit_invalid"
  | liveDebitCreditMismatch => "livedebit.credit_mismatch"
  | poolReservedMismatch => "pool.reserved_mismatch"
  | heldInvalid => "held.invalid"
  | heldMismatch => "held.mismatch"
  | payoutUnreadable => "payout.unreadable"
  | payoutInvalid => "payout.invalid"
  | payoutHeldInvalid => "payout.held_invalid"
  | payoutHeldMismatch => "payout.held_mismatch"
  | withdrawableInvalid => "withdrawable.invalid"
  | withdrawableUnbackedTotal => "withdrawable.unbacked_total"
  | spentMismatch => "spent.mismatch"
  | earnedMismatch => "earned.mismatch"
  | projectReservedMismatch => "project.reserved_mismatch"
  | projectSpentUndercount => "project.spent_undercount"

structure Issue where
  code : IssueCode
  reference : String
  detail : String
  deriving DecidableEq

/-! ## Totals -/

/-- The totals the reconciler expects. -/
inductive Tally where
  | held
  | projectReserved
  | projectSpent
  | spent
  | earned
  | poolReserved
  | payoutHeld
  deriving DecidableEq

/-- `finance_map_add`: `none` where it returns `false`. -/
def financeMapAdd (totals : Store String Int64) (key : String) (amount : Int64) :
    Option (Store String Int64) :=
  if key = "" ∨ amount < 0 then none
  else (checkedAdd ((totals.get key).getD 0) amount).map (totals.put key)

/-- The reconciler's variables. -/
structure Audit where
  maxIssues : Nat
  issues : List Issue := []
  totals : Tally → Store String Int64 := fun _ => ∅
  holdCount : Nat := 0
  activeHoldCount : Nat := 0
  payoutCount : Nat := 0
  pendingPayoutCount : Nat := 0

variable (a : Audit)

namespace Audit

/-- An issue beyond the limit is dropped. -/
def report (code : IssueCode) (reference detail : String) : Audit :=
  if a.issues.length < a.maxIssues then
    { a with issues := a.issues ++ [{ code, reference, detail }] }
  else a

def reportIf (c : Prop) [Decidable c] (code : IssueCode) (reference detail : String) : Audit :=
  if c then a.report code reference detail else a

/-- Add to a total, or fail as `finance_map_add` does. -/
def add (t : Tally) (key : String) (amount : Int64) : Option Audit :=
  (financeMapAdd (a.totals t) key amount).map fun m =>
    { a with totals := Function.update a.totals t m }

/-- Add to a total, or report. -/
def tally (t : Tally) (key : String) (amount : Int64) (code : IssueCode)
    (reference detail : String) : Audit :=
  (a.add t key amount).getD (a.report code reference detail)

/-- One credit: reported when it is bad or cannot be added, and else counted in the line total,
which sticks at the largest value when it overflows. -/
def creditLine (code : IssueCode) (reference detail : String) (bad : LineRow → Bool)
    (state : Audit × Int64) (line : LineRow) : Audit × Int64 :=
  if bad line then (state.1.report code reference detail, state.2)
  else
    match state.1.add .earned line.userId line.amount with
    | none => (state.1.report code reference detail, state.2)
    | some a => (a, (checkedAdd state.2 line.amount).getD Int64.maxValue)

def creditLines (code : IssueCode) (reference detail : String) (bad : LineRow → Bool)
    (lines : List LineRow) : Audit × Int64 :=
  lines.foldl (creditLine code reference detail bad) (a, 0)

end Audit

/-! ## The documents -/

namespace Audit

def activeHold (holdId : String) (row : HoldRow) : Audit :=
  let a := { a with activeHoldCount := a.activeHoldCount + 1 }
  let a := a.reportIf (row.remaining ≠ row.maxAmount) .holdRemainingMismatch holdId
    ("remaining=" ++ toString row.remaining ++ ", max=" ++ toString row.maxAmount)
  let a := a.tally .held row.payer row.maxAmount .heldOverflow row.payer
    "expected held balance overflow"
  if row.project ≠ "" then
    a.tally .projectReserved row.project row.maxAmount .projectReservedOverflow row.project
      "expected reservation overflow"
  else a

def settledHoldRow (holdId : String) (row : HoldRow) : Audit :=
  if row.remaining ≠ 0 ∨ row.actual < 0 ∨ row.refunded < 0 ∨
      checkedAdd row.actual row.refunded ≠ some row.maxAmount then
    a.report .holdSettlementMismatch holdId
      ("actual=" ++ toString row.actual ++ ", refunded=" ++ toString row.refunded ++ ", max=" ++
        toString row.maxAmount ++ ", remaining=" ++ toString row.remaining)
  else
    let credited := a.creditLines .settlementLineInvalid holdId
      "invalid beneficiary settlement line" (fun line => line.amount ≤ 0) row.lines
    let a := credited.1.reportIf (credited.2 ≠ row.actual) .settlementLinesMismatch holdId
      ("lines=" ++ toString credited.2 ++ ", actual=" ++ toString row.actual)
    let a := a.tally .spent row.payer row.actual .spentOverflow row.payer
      "expected spent counter overflow"
    if row.project ≠ "" then
      a.tally .projectSpent row.project row.actual .projectSpentOverflow row.project
        "expected project spend overflow"
    else a

def holdRow (holdId : String) (row : HoldRow) : Audit :=
  if row.payer = "" ∨ row.maxAmount ≤ 0 then
    a.report .holdInvalid holdId "payer or maxAmount is invalid"
  else if row.status = "open" ∨ row.status = "running" then a.activeHold holdId row
  else if row.status = "settled" then a.settledHoldRow holdId row
  else if row.status = "released" ∨ row.status = "expired" then
    a.reportIf (row.remaining ≠ 0 ∨ row.refunded ≠ row.maxAmount) .holdReleaseMismatch holdId
      ("refunded=" ++ toString row.refunded ++ ", max=" ++ toString row.maxAmount ++
        ", remaining=" ++ toString row.remaining)
  else a.report .holdStatusInvalid holdId ("status=" ++ row.status)

def hold : String × Option Map → Audit
  | (holdId, none) => a.report .holdUnreadable holdId "hold JSON cannot be read"
  | (holdId, some hold) =>
    { a with holdCount := a.holdCount + 1 }.holdRow holdId (HoldRow.read hold)

def poolRow (poolId : String) (row : PoolRow) : Audit :=
  if row.payer = "" ∨ row.maxAmount < 0 ∨ row.remaining < 0 ∨ row.reserved < 0 ∨ row.spent < 0 ∨
      row.refunded < 0 then
    a.report .poolInvalid poolId "payer or pool amounts are invalid"
  else
    let sum := ((checkedAdd row.remaining row.reserved).bind (checkedAdd · row.spent)).bind
      (checkedAdd · row.refunded)
    let a := a.reportIf (sum ≠ some row.maxAmount) .poolBalanceMismatch poolId
      ("remaining=" ++ toString row.remaining ++ ", reserved=" ++ toString row.reserved ++
        ", spent=" ++ toString row.spent ++ ", refunded=" ++ toString row.refunded ++ ", max=" ++
        toString row.maxAmount)
    if row.status = "open" then
      a.tally .held row.payer (saturatingAdd row.remaining row.reserved) .heldOverflow row.payer
        "expected held (pool) overflow"
    else a

def pool : String × Option Map → Audit
  | (poolId, none) => a.report .poolUnreadable poolId "pool JSON cannot be read"
  | (poolId, some pool) => a.poolRow poolId (PoolRow.read pool)

def settledReservationRow (runId : String) (row : ReservationRow) : Audit :=
  if row.actual < 0 then
    a.report .reservationSettlementInvalid runId "settled reservation missing actualAmount"
  else
    let credited := a.creditLines .reservationLineInvalid runId "invalid pool settlement line"
      (fun line => line.amount ≤ 0) row.lines
    let a := credited.1.reportIf (credited.2 ≠ row.actual) .reservationLinesMismatch runId
      ("lines=" ++ toString credited.2 ++ ", actual=" ++ toString row.actual)
    a.tally .spent row.payer row.actual .spentOverflow row.payer "expected spent (pool) overflow"

def reservationRow (runId : String) (row : ReservationRow) : Audit :=
  if row.payer = "" ∨ row.poolId = "" ∨ row.amount < 0 then
    a.report .reservationInvalid runId "reservation fields are invalid"
  else if row.status = "reserved" then
    a.tally .poolReserved row.poolId row.amount .reservationOverflow row.poolId
      "expected pool reserved overflow"
  else if row.status = "settled" then a.settledReservationRow runId row
  else a.reportIf (row.status ≠ "released") .reservationStatusInvalid runId
    ("status=" ++ row.status)

def reservation : String × Option Map → Audit
  | (runId, none) => a.report .reservationUnreadable runId "reservation JSON cannot be read"
  | (runId, some reservation) => a.reservationRow runId (ReservationRow.read reservation)

def liveDebitRow (runId : String) (row : LiveDebitRow) : Audit :=
  if row.payer = "" ∨ row.charged < 0 then
    a.report .liveDebitInvalid runId "live debit fields are invalid"
  else
    let credited := a.creditLines .liveDebitCreditInvalid runId "invalid live debit credit"
      (fun line => line.userId = "" ∨ line.amount ≤ 0) row.credits
    let a := credited.1.reportIf (credited.2 ≠ row.charged) .liveDebitCreditMismatch runId
      ("credits=" ++ toString credited.2 ++ ", charged=" ++ toString row.charged)
    a.tally .spent row.payer row.charged .spentOverflow row.payer
      "expected spent (live debit) overflow"

def liveDebit : String × Option Map → Audit
  | (runId, none) => a.report .liveDebitUnreadable runId "live debit JSON cannot be read"
  | (runId, some record) => a.liveDebitRow runId (LiveDebitRow.read record)

/-- The second reading of the pools, after the reservations; an unreadable one is skipped. -/
def poolReserved : String × Option Map → Audit
  | (_, none) => a
  | (poolId, some pool) =>
    let stored := (i64Field pool "reserved").getD 0
    let expected := ((a.totals .poolReserved).get poolId).getD 0
    a.reportIf (stored ≠ expected) .poolReservedMismatch poolId
      ("stored=" ++ toString stored ++ ", expected=" ++ toString expected)

def payoutRow (payoutId : String) (row : PayoutRow) : Audit :=
  if row.status = some "pending" then
    let a := { a with pendingPayoutCount := a.pendingPayoutCount + 1 }
    if row.amount ≤ 0 then
      a.report .payoutInvalid payoutId "pending payout owner or amount is invalid"
    else
      a.tally .payoutHeld row.userId row.amount .payoutInvalid payoutId
        "pending payout owner or amount is invalid"
  else a

def payout : String × Option Map → Audit
  | (payoutId, none) => a.report .payoutUnreadable payoutId "payout JSON cannot be read"
  | (payoutId, some payout) =>
    { a with payoutCount := a.payoutCount + 1 }.payoutRow payoutId (PayoutRow.read payout)

end Audit

/-! ## The counters -/

def sortDedup (keys : List String) : List String := keys.dedup.insertionSort (· ≤ ·)

theorem mem_sortDedup {keys k} : k ∈ sortDedup keys ↔ k ∈ keys := by
  rw [sortDedup, List.mem_insertionSort, List.mem_dedup]

variable (links : List (String × Int64))

def validLinks : Store String Int64 :=
  links.foldl (fun m link => if 0 ≤ link.2 then m.put link.1 link.2 else m) ∅

namespace Audit

def invalidLinks (code : IssueCode) (detail : Int64 → String) : Audit :=
  links.foldl (fun a link => a.reportIf (¬ 0 ≤ link.2) code link.1 (detail link.2)) a

def compareCounter (t : Tally) (links : List (String × Int64))
    (invalid mismatch : IssueCode) (detail : Int64 → String) : Audit :=
  let expected := a.totals t
  let actual := validLinks links
  (sortDedup (expected.keys ++ actual.keys)).foldl (fun a user =>
      let expectedValue := (expected.get user).getD 0
      let actualValue := (actual.get user).getD 0
      a.reportIf (actualValue ≠ expectedValue) mismatch user
        ("stored=" ++ toString actualValue ++ ", expected=" ++ toString expectedValue))
    (a.invalidLinks links invalid detail)

def held : Audit :=
  a.compareCounter .held links .heldInvalid .heldMismatch fun raw => "stored=" ++ toString raw

def payoutHeld : Audit :=
  a.compareCounter .payoutHeld links .payoutHeldInvalid .payoutHeldMismatch fun _ =>
    "stored payout held amount is invalid"

def spent : Audit :=
  a.compareCounter .spent links .spentMismatch .spentMismatch fun _ => "stored counter is invalid"

def earned : Audit := a.compareCounter .earned links .earnedMismatch .earnedMismatch fun _ =>
    "stored counter is invalid"

def withdrawableLink (account : String → Option Int64) (state : Audit × Int64)
    (link : String × Int64) : Audit × Int64 :=
  let available := account link.1
  (state.1.reportIf (link.2 < 0 ∨ available.all (link.2 > ·)) .withdrawableInvalid link.1
      ("withdrawable=" ++ toString link.2 ++ ", available=" ++ toString (available.getD 0)),
    if link.2 > 0 then saturatingAdd state.2 link.2 else state.2)

def withdrawable (ports : Ports) (a : Audit) (links : List (String × Int64))
    (account : String → Option Int64) : Audit :=
  let checked := links.foldl (withdrawableLink account) (a, 0)
  let earnedTotal :=
    (ports.iter (checked.1.totals .earned)).foldl (fun acc e => saturatingAdd acc e.2) 0
  checked.1.reportIf (checked.2 > earnedTotal) .withdrawableUnbackedTotal ""
    ("withdrawable_total=" ++ toString checked.2 ++ ", earned_total=" ++ toString earnedTotal)

def project (budget : String → Map) (a : Audit) (project : String) : Audit :=
  let storedReserved := (i64Field (budget project) "reservedMinor").getD 0
  let storedSpent := (i64Field (budget project) "spentMinor").getD 0
  let expectedReserved := ((a.totals .projectReserved).get project).getD 0
  let expectedSpent := ((a.totals .projectSpent).get project).getD 0
  let a := a.reportIf (storedReserved ≠ expectedReserved) .projectReservedMismatch project
    ("stored=" ++ toString storedReserved ++ ", expected=" ++ toString expectedReserved)
  a.reportIf (storedSpent < expectedSpent) .projectSpentUndercount project
    ("stored=" ++ toString storedSpent ++ ", minimum=" ++ toString expectedSpent)

end Audit

/-! ## The whole reconciliation -/

/-- What the ledger port lists: the documents of each family in the order of their keys, `none`
where one cannot be read, the stored counters, and the balances of the creatures. -/
structure Records where
  holds : List (String × Option Map)
  pools : List (String × Option Map)
  reservations : List (String × Option Map)
  liveDebits : List (String × Option Map)
  payouts : List (String × Option Map)
  budgets : List (String × Option Map)
  counterLinks : WalletCounter → List (String × Int64)
  account : String → Option Int64

/-- `get_doc(ProjectBudget, project).unwrap_or_default()`. -/
def Records.budget (r : Records) (project : String) : Map := ((r.budgets.lookup project).join).getD []

structure Reconciliation where
  healthy : Bool
  checkedAt : Int64
  holdCount : Nat
  activeHoldCount : Nat
  payoutCount : Nat
  pendingPayoutCount : Nat
  payerCount : Nat
  projectCount : Nat
  issueCount : Nat
  issues : List Issue

/-- The readings of the documents, up to the first comparison. -/
def Records.scan (r : Records) (a : Audit) : Audit :=
  r.liveDebits.foldl .liveDebit <| r.reservations.foldl .reservation <|
    r.pools.foldl .pool <| r.holds.foldl .hold a

/-- The projects a total or a budget names. -/
def Records.projects (r : Records) (a : Audit) : List String :=
  sortDedup ((a.totals .projectReserved).keys ++ (a.totals .projectSpent).keys ++
    r.budgets.map Prod.fst)

/-- The checks of `reconcile_financial_system`, in its order. -/
def Records.audit (ports : Ports) (r : Records) (maxIssues : Nat) : Audit :=
  let a := r.pools.foldl .poolReserved (r.scan { maxIssues })
  let a := a.held (r.counterLinks .held)
  let a := (r.payouts.foldl .payout a).payoutHeld (r.counterLinks .payoutHeld)
  let a := Audit.withdrawable ports a (r.counterLinks .withdrawable) r.account
  let a := (a.spent (r.counterLinks .spent)).earned (r.counterLinks .earned)
  (r.projects a).foldl (Audit.project r.budget) a

def sortedRows {α : Type} (m : Store String α) : List (String × α) :=
  m.toList.insertionSort fun a b => a.1 ≤ b.1

theorem sortedRows_perm {α : Type} (m : Store String α) : (sortedRows m).Perm m.toList :=
  List.perm_insertionSort _ _

/-- The listing of a ledger of the model. -/
def Ledger.records (s : Ledger) : Records where
  holds := (sortedRows s.holds).map fun e => (e.1, some e.2.toJson)
  pools := (sortedRows s.pools).map fun e => (e.1, some e.2.toJson)
  reservations := (sortedRows s.reservations).map fun e => (e.1, some e.2.toJson)
  liveDebits := (sortedRows s.liveDebits).map fun e => (e.1, some e.2.toJson)
  payouts := (sortedRows s.payouts).map fun e => (e.1, some e.2.toJson)
  budgets := (sortedRows s.budgets).map fun e => (e.1, some e.2.toJson)
  counterLinks kind := (sortedRows s.wallets.accounts).filterMap fun e =>
    (e.2.value kind).map fun amount => (e.1, amount)
  account := s.wallets.account

structure ReconcileFinancialSystemInput where
  maxIssues : Int64 := 0

/-- `max_issues`. -/
def ReconcileFinancialSystemInput.limit (input : ReconcileFinancialSystemInput) : Nat :=
  if input.maxIssues ≤ 0 then 100 else (min input.maxIssues 1000).toNatClampNeg

def reconcileFinancialSystem (ports : Ports) (r : Records) (caller : String)
    (input : ReconcileFinancialSystemInput) : Result Reconciliation := do
  ensure (caller = legacyRoot) (denied "access denied")
  let a := r.audit ports input.limit
  return {
    healthy := a.issues.length = 0
    checkedAt := ports.now
    holdCount := a.holdCount
    activeHoldCount := a.activeHoldCount
    payoutCount := a.payoutCount
    pendingPayoutCount := a.pendingPayoutCount
    payerCount := (a.totals .held).keys.length
    projectCount := ((a.totals .projectReserved).keys ++ (a.totals .projectSpent).keys).dedup.length
    issueCount := a.issues.length
    issues := a.issues }

end Aseman.Finance
