import Aseman.Finance.Reconcile

/-!
# The reconciliation of a legacy snapshot

Before the legacy finance records are exported, `reconcile_legacy_finance` enforces the invariants
of `reconcile_financial_system` on them. It is a second writing of the same checks: it reads money
as exact integers, reports through its own list of texts, keeps its totals in ordered maps whose
keys may be empty, and any issue at all fails the export.

`LegacyFinance` is what the export passes to it, and `LegacyFinance.records` is the same content as
the ledger port would list it.
-/

namespace Aseman.Finance

open Json

inductive LegacyMigrationError where
  | invalid (text : String)
  deriving DecidableEq

/-! ## Issues -/

/-- The codes of the legacy reconciliation: those of `reconcile_financial_system`, and two of its
own. -/
inductive LegacyIssueCode where
  | shared (code : IssueCode)
  | amountNotInteger
  | amountOverflow

def LegacyIssueCode.text : LegacyIssueCode → String
  | shared code => code.text
  | amountNotInteger => "amount.not_integer"
  | amountOverflow => "amount.overflow"

/-- The variables of `reconcile_legacy_finance`. -/
structure LegacyAudit where
  issues : List String := []
  totals : Tally → Store String Int64 := fun _ => ∅

namespace LegacyAudit

variable (l : LegacyAudit)

def push (code : LegacyIssueCode) (reference detail : String) : LegacyAudit :=
  { l with issues := l.issues ++ [code.text ++ " [" ++ reference ++ "]: " ++ detail] }

def pushIf (c : Prop) [Decidable c] (code : LegacyIssueCode)
    (reference detail : String) : LegacyAudit :=
  if c then l.push code reference detail else l

/-- `into_result`: the number of issues and the first twenty of them. -/
def intoResult : Except LegacyMigrationError Unit :=
  if l.issues = [] then .ok ()
  else
    .error (.invalid ("legacy finance reconciliation failed with " ++ toString l.issues.length ++
      " issue(s): " ++ "; ".intercalate (l.issues.take 20)))

/-! ## Money -/

/-- A field that is absent reads as -1, and one that is no integer is reported and reads so. -/
def money (id : String) (doc : Map) (field : String) : LegacyAudit × Int64 :=
  match doc.get field with
  | none => (l, -1)
  | some value =>
    match value.asI64 with
    | some amount => (l, amount)
    | none => (l.push .amountNotInteger id field, -1)

/-- Add to a total. The entry is made even when the sum overflows, and any key is accepted. -/
def add (t : Tally) (key : String) (amount : Int64) : LegacyAudit :=
  let total := ((l.totals t).get key).getD 0
  match checkedAdd total amount with
  | some next => { l with totals := Function.update l.totals t ((l.totals t).put key next) }
  | none =>
    { l with totals := Function.update l.totals t ((l.totals t).put key total) }.push
      .amountOverflow key "expected total overflows"

def settlementLine (id : String) (state : LegacyAudit × Int64) (line : Value) :
    LegacyAudit × Int64 :=
  let user := ((line.get "userId").bind Value.asStr).getD ""
  let amount := ((line.get "amount").bind Value.asI64).getD (-1)
  if amount ≤ 0 then
    (state.1.push (.shared .settlementLineInvalid) id "invalid beneficiary line", state.2)
  else (state.1.add .earned user amount, saturatingAdd state.2 amount)

def settlementLines (id : String) (doc : Map) : LegacyAudit × Int64 :=
  (((doc.get "settlementLines").bind Value.asArray).getD []).foldl (settlementLine id) (l, 0)

/-! ## The documents -/

def hold : String × Map → LegacyAudit
  | (id, hold) =>
    let payer := readStr hold "payerUserId"
    let project := readStr hold "projectId"
    let status := readStr hold "status"
    let (l, max) := l.money id hold "maxAmount"
    let (l, remaining) := l.money id hold "remainingAmount"
    if payer = "" ∨ max ≤ 0 then
      l.push (.shared .holdInvalid) id "payer or maxAmount is invalid"
    else if status = "open" ∨ status = "running" then
      let l := l.pushIf (remaining ≠ max) (.shared .holdRemainingMismatch) id
        "remaining differs from max"
      let l := l.add .held payer max
      if project ≠ "" then l.add .projectReserved project max else l
    else if status = "settled" then
      let (l, actual) := l.money id hold "actualAmount"
      let (l, refunded) := l.money id hold "refundedAmount"
      if remaining ≠ 0 ∨ actual < 0 ∨ refunded < 0 ∨ checkedAdd actual refunded ≠ some max then
        l.push (.shared .holdSettlementMismatch) id "amounts do not balance"
      else
        let (l, lines) := l.settlementLines id hold
        let l := l.pushIf (lines ≠ actual) (.shared .settlementLinesMismatch) id
          "lines differ from actual"
        let l := l.add .spent payer actual
        if project ≠ "" then l.add .projectSpent project actual else l
    else if status = "released" ∨ status = "expired" then
      let (l, refunded) := l.money id hold "refundedAmount"
      l.pushIf (remaining ≠ 0 ∨ refunded ≠ max) (.shared .holdReleaseMismatch) id
        "refund differs from max"
    else l.push (.shared .holdStatusInvalid) id "unknown status"

def pool : String × Map → LegacyAudit
  | (id, pool) =>
    let payer := readStr pool "payerUserId"
    let (l, max) := l.money id pool "maxAmount"
    let (l, remaining) := l.money id pool "remaining"
    let (l, reserved) := l.money id pool "reserved"
    let (l, used) := l.money id pool "spent"
    let (l, refunded) := l.money id pool "refunded"
    if payer = "" ∨ [max, remaining, reserved, used, refunded].any (· < 0) then
      l.push (.shared .poolInvalid) id "payer or pool amounts are invalid"
    else
      let sum := ((checkedAdd remaining reserved).bind (checkedAdd · used)).bind
        (checkedAdd · refunded)
      let l := l.pushIf (sum ≠ some max) (.shared .poolBalanceMismatch) id
        "amounts do not sum to max"
      if readStr pool "status" = "open" then
        l.add .held payer (saturatingAdd remaining reserved)
      else l

def reservation : String × Map → LegacyAudit
  | (id, reservation) =>
    let payer := readStr reservation "payerUserId"
    let pool := readStr reservation "poolId"
    let status := readStr reservation "status"
    let (l, amount) := l.money id reservation "amount"
    if payer = "" ∨ pool = "" ∨ amount < 0 then
      l.push (.shared .reservationInvalid) id "reservation fields are invalid"
    else if status = "reserved" then l.add .poolReserved pool amount
    else if status = "settled" then
      let (l, actual) := l.money id reservation "actualAmount"
      if actual < 0 then
        l.push (.shared .reservationSettlementInvalid) id "missing actual"
      else
        let (l, lines) := l.settlementLines id reservation
        let l := l.pushIf (lines ≠ actual) (.shared .reservationLinesMismatch) id
          "lines differ from actual"
        l.add .spent payer actual
    else l.pushIf (status ≠ "released") (.shared .reservationStatusInvalid) id "unknown status"

def credit (id : String) (state : LegacyAudit × Int64) (credit : String × Value) :
    LegacyAudit × Int64 :=
  let user := Text.before '|' credit.1
  let amount := credit.2.asI64.getD (-1)
  if user = "" ∨ amount ≤ 0 then
    (state.1.push (.shared .liveDebitCreditInvalid) id "invalid credit", state.2)
  else (state.1.add .earned user amount, saturatingAdd state.2 amount)

def liveDebit : String × Map → LegacyAudit
  | (id, debit) =>
    let payer := readStr debit "payerUserId"
    let (l, charged) := l.money id debit "chargedTotal"
    if payer = "" ∨ charged < 0 then
      l.push (.shared .liveDebitInvalid) id "live debit fields are invalid"
    else
      let (l, credited) :=
        (((debit.get "credits").bind Value.asObject).getD []).foldl (credit id) (l, 0)
      let l := l.pushIf (credited ≠ charged) (.shared .liveDebitCreditMismatch) id
        "credits differ from charged"
      l.add .spent payer charged

/-- The second reading of the pools, after the reservations. -/
def poolReserved : String × Map → LegacyAudit
  | (id, pool) =>
    let stored := (((pool.get "reserved").getD (.ofI64 0)).asI64).getD (-1)
    l.pushIf (stored ≠ ((l.totals .poolReserved).get id).getD 0) (.shared .poolReservedMismatch)
      id "reserved differs from reservations"

def payout : String × Map → LegacyAudit
  | (id, payout) =>
    if readStr payout "status" = "pending" then
      let user := readStr payout "userId"
      let (l, amount) := l.money id payout "amount"
      if user = "" ∨ amount ≤ 0 then
        l.push (.shared .payoutInvalid) id "pending payout owner or amount is invalid"
      else l.add .payoutHeld user amount
    else l

/-! ## The counters -/

/-- Compare a total with a derived counter. -/
def compare (t : Tally) (actual : Store String Int64) (code : IssueCode) : LegacyAudit :=
  let expected := l.totals t
  (expected.keys ++ actual.keys).foldl
    (fun l user => l.pushIf ((expected.get user).getD 0 ≠ (actual.get user).getD 0) (.shared code)
      user "stored counter differs from its reconstruction") l

def withdrawableCounter (balance : String → Option Int64) (state : LegacyAudit × Int64)
    (record : String × Map) : LegacyAudit × Int64 :=
  let withdrawable := ((record.2.get "amount").bind Value.asI64).getD (-1)
  (state.1.pushIf (¬ (balance record.1).any fun balance => 0 ≤ withdrawable ∧ withdrawable ≤ balance)
      (.shared .withdrawableInvalid) record.1 "exceeds balance or has no creature",
    saturatingAdd state.2 (max withdrawable 0))

/-- `stored`: an amount of a budget, zero where the budget or the field is absent. -/
def stored (budget : Option Map) (field : String) : Int64 :=
  (((budget.bind (·.get field)).map Value.asI64).getD (some 0)).getD (-1)

def project (budget : String → Option Map) (l : LegacyAudit) (project : String) : LegacyAudit :=
  let l := l.pushIf
    (stored (budget project) "reservedMinor" ≠ ((l.totals .projectReserved).get project).getD 0)
    (.shared .projectReservedMismatch) project "reserved differs"
  l.pushIf (stored (budget project) "spentMinor" < ((l.totals .projectSpent).get project).getD 0)
    (.shared .projectSpentUndercount) project "spent below minimum"

end LegacyAudit

/-! ## The whole reconciliation -/

/-- The finance content of a snapshot: the verified documents of each family in the order of their
ids, the counters as their links carry them, and the balances of the creatures. -/
structure LegacyFinance where
  holds : List (String × Map)
  pools : List (String × Map)
  reservations : List (String × Map)
  liveDebits : List (String × Map)
  payouts : List (String × Map)
  budgets : List (String × Map)
  links : WalletCounter → List (String × Int64)
  balance : String → Option Int64

namespace LegacyFinance

variable (f : LegacyFinance)

def derived (kind : WalletCounter) : Store String Int64 :=
  (f.links kind).foldl (fun m link => m.put link.1 link.2) ∅

/-- The records of an authoritative counter, as `transform_legacy_finance` inserts them. -/
def counterRecords (kind : WalletCounter) : List (String × Map) :=
  (f.links kind).map fun link => (link.1, [("amount", .ofI64 link.2)])

/-- The readings of the documents. -/
def scan (l : LegacyAudit) : LegacyAudit :=
  f.payouts.foldl .payout <| f.pools.foldl .poolReserved <| f.liveDebits.foldl .liveDebit <|
    f.reservations.foldl .reservation <| f.pools.foldl .pool <| f.holds.foldl .hold l

def withdrawable (l : LegacyAudit) : LegacyAudit :=
  let checked :=
    (f.counterRecords .withdrawable).foldl (LegacyAudit.withdrawableCounter f.balance) (l, 0)
  let earnedTotal :=
    (sortedRows (checked.1.totals .earned)).foldl (fun acc e => saturatingAdd acc e.2) 0
  checked.1.pushIf (checked.2 > earnedTotal) (.shared .withdrawableUnbackedTotal) ""
    "withdrawable exceeds lifetime earnings"

def projects (l : LegacyAudit) : List String :=
  sortDedup ((l.totals .projectReserved).keys ++ (l.totals .projectSpent).keys ++
    f.budgets.map Prod.fst)

/-- The checks of `reconcile_legacy_finance`, in its order. -/
def audit : LegacyAudit :=
  let l := f.scan {}
  let l := l.compare .held (f.derived .held) .heldMismatch
  let l := l.compare .payoutHeld (f.derived .payoutHeld) .payoutHeldMismatch
  let l := l.compare .spent (f.derived .spent) .spentMismatch
  let l := l.compare .earned (f.derived .earned) .earnedMismatch
  let l := f.withdrawable l
  (f.projects l).foldl (LegacyAudit.project fun project => f.budgets.lookup project) l

def reconcileLegacyFinance : Except LegacyMigrationError Unit := f.audit.intoResult

/-- The same content as the ledger port lists it. -/
def records : Records where
  holds := f.holds.map fun e => (e.1, some e.2)
  pools := f.pools.map fun e => (e.1, some e.2)
  reservations := f.reservations.map fun e => (e.1, some e.2)
  liveDebits := f.liveDebits.map fun e => (e.1, some e.2)
  payouts := f.payouts.map fun e => (e.1, some e.2)
  budgets := f.budgets.map fun e => (e.1, some e.2)
  counterLinks := f.links
  account := f.balance

/-! ## Exact content -/

/-- The amounts of a document are integers of an `i64`, those that are there. -/
def ExactFields (doc : Map) (fields : List String) : Prop :=
  ∀ field ∈ fields, (doc.get field).all (·.asI64.isSome)

instance (doc : Map) (fields : List String) : Decidable (ExactFields doc fields) :=
  inferInstanceAs (Decidable (∀ field ∈ fields, (doc.get field).all (·.asI64.isSome)))

/-- So are the amounts of its settlement lines. -/
def ExactLines (doc : Map) : Prop :=
  ∀ line ∈ ((doc.get "settlementLines").bind Value.asArray).getD [],
    (line.get "amount").all (·.asI64.isSome)

instance (doc : Map) : Decidable (ExactLines doc) :=
  inferInstanceAs (Decidable (∀ line ∈ ((doc.get "settlementLines").bind Value.asArray).getD [],
    (line.get "amount").all (·.asI64.isSome)))

/-- Every money field is an integer of an `i64`, and every counter is nonnegative. -/
structure Exact (f : LegacyFinance) : Prop where
  holds : ∀ e ∈ f.holds,
    ExactFields e.2 ["maxAmount", "remainingAmount", "actualAmount", "refundedAmount"] ∧
      ExactLines e.2
  pools : ∀ e ∈ f.pools, ExactFields e.2 ["maxAmount", "remaining", "reserved", "spent", "refunded"]
  reservations : ∀ e ∈ f.reservations, ExactFields e.2 ["amount", "actualAmount"] ∧ ExactLines e.2
  liveDebits : ∀ e ∈ f.liveDebits, ExactFields e.2 ["chargedTotal"] ∧
    ∀ credit ∈ ((e.2.get "credits").bind Value.asObject).getD [], credit.2.asI64.isSome
  payouts : ∀ e ∈ f.payouts, ExactFields e.2 ["amount"]
  budgets : ∀ e ∈ f.budgets, ExactFields e.2 ["reservedMinor", "spentMinor"]
  counters : ∀ kind, ∀ link ∈ f.links kind, 0 ≤ link.2

end LegacyFinance

end Aseman.Finance
