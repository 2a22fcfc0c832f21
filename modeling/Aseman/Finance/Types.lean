import Aseman.Lib.Json
import Aseman.Lib.Result
import Aseman.Lib.Store
import Aseman.Lib.Text

/-!
# The finance records

What the finance use cases read and write: the identifiers they accept, the documents of each
family (holds, pools, reservations, live debits, budgets, payouts, journal records), the wire
inputs, and the idempotency markers. A document is a record of the fields the use cases write;
fields that a later operation adds are optional. Amounts and times are `i64`.
-/

namespace Aseman.Finance

open Json

/-! ## Errors -/

inductive PortError where
  | notFound
  | denied (message : String)
  | failed (message : String)
  deriving DecidableEq

inductive ApplicationError where
  | denied (message : String)
  | port (error : PortError)
  deriving DecidableEq

abbrev Result (α : Type) := Except ApplicationError α

def denied (message : String) : ApplicationError := .denied message

/-! ## Constants and identifiers -/

/-- The root creature, the operator of the finance surfaces. -/
def legacyRoot : String := "1@global"

def financeHoldMaxTtlMs : Int64 := 86400000

def financeMaxBeneficiaries : Nat := 64

def federatedFinanceMaxRecordBytes : Nat := 262144

/-- A byte `valid_finance_id` accepts; all are ASCII, so bytes and characters agree. -/
def isFinanceIdChar (c : Char) : Bool :=
  c.isAlphanum || c == '-' || c == '_' || c == '.' || c == '@'

def validFinanceId (value : String) : Bool :=
  value ≠ "" && value.utf8ByteSize ≤ 128 && value.toList.all isFinanceIdChar

def isHexDigit (c : Char) : Bool := c.isDigit || ('a' ≤ c && c ≤ 'f') || ('A' ≤ c && c ≤ 'F')

def validFinanceHash (value : String) : Bool :=
  value.utf8ByteSize = 64 && value.toList.all isHexDigit

/-- The key a beneficiary's cap, allocation and live credit stand under: `{user}|{role}`. -/
def capKey (userId role : String) : String := userId ++ String.ofList ['|'] ++ role

theorem validFinanceId_ne_empty {value} (h : validFinanceId value = true) : value ≠ "" := by
  rintro rfl
  exact absurd h (by decide)

theorem notMem_of_validFinanceId {value} (h : validFinanceId value = true) {c}
    (hc : isFinanceIdChar c = false) : c ∉ value.toList := by
  intro hmem
  have hall : value.toList.all isFinanceIdChar = true := by
    simp only [validFinanceId, Bool.and_eq_true] at h
    exact h.2
  rw [List.all_eq_true.mp hall c hmem] at hc
  cases hc

theorem bar_notMem_of_validFinanceId {value} (h : validFinanceId value = true) :
    '|' ∉ value.toList := notMem_of_validFinanceId h (by decide)

theorem colon_notMem_of_validFinanceId {value} (h : validFinanceId value = true) :
    ':' ∉ value.toList := notMem_of_validFinanceId h (by decide)

/-- A number of a document: integers beyond `i64` and fractions are cut, as `as i64` cuts them. -/
def asI64 : Value → Option Int64
  | .number (.int n) => some (Int64.ofIntClamp n)
  | .number (.float _ truncated) => some truncated
  | _ => none

@[simp] theorem asI64_ofI64 (n : Int64) : asI64 (Value.ofI64 n) = some n := by
  simp [Value.ofI64, asI64]

/-! ## Reading documents -/

/-- `doc.get(field).and_then(Value::as_str)`. -/
def strField (doc : Map) (field : String) : Option String := (doc.get field).bind Value.asStr

/-- `as_i64(doc.get(field).unwrap_or(&Value::Null))`. -/
def i64Field (doc : Map) (field : String) : Option Int64 := (doc.get field).bind asI64

def obj (members : List (String × Value)) : Value := .object (Map.ofList members)

/-! ## Wallet counters -/

inductive WalletCounter where
  | held
  | debt
  | withdrawable
  | payoutHeld
  | earned
  | spent
  deriving DecidableEq

/-! ## Documents -/

structure HoldBeneficiary where
  userId : String
  role : String
  maxAmount : Int64
  deriving DecidableEq

structure SettlementLine where
  userId : String
  role : String
  amount : Int64
  sourceRef : String
  deriving DecidableEq

/-- `"open"`, `"running"`, `"settled"`, `"released"`, `"expired"`. -/
inductive HoldStatus where
  | opened
  | running
  | settled
  | released
  | expired
  deriving DecidableEq

def HoldStatus.text : HoldStatus → String
  | opened => "open"
  | running => "running"
  | settled => "settled"
  | released => "released"
  | expired => "expired"

/-- The statuses in which the amount of a hold is still held. -/
def HoldStatus.active : HoldStatus → Bool
  | opened | running => true
  | _ => false

@[simp] theorem HoldStatus.active_opened : HoldStatus.opened.active = true := rfl

@[simp] theorem HoldStatus.active_running : HoldStatus.running.active = true := rfl

@[simp] theorem HoldStatus.active_settled : HoldStatus.settled.active = false := rfl

@[simp] theorem HoldStatus.active_released : HoldStatus.released.active = false := rfl

@[simp] theorem HoldStatus.active_expired : HoldStatus.expired.active = false := rfl

structure Hold where
  holdId : String
  payerUserId : String
  quoteId : String
  pricingVersion : String
  maxAmount : Int64
  remainingAmount : Int64
  withdrawableAmount : Int64
  meterProgramId : String
  settlementAuthority : String
  expiresAt : Int64
  projectId : String
  contextHash : String
  beneficiaryPlanHash : String
  beneficiaries : List HoldBeneficiary
  requestHash : String
  status : HoldStatus
  createdAt : Int64
  runId : Option String := none
  startedAt : Option Int64 := none
  actualAmount : Option Int64 := none
  refundedAmount : Option Int64 := none
  withdrawableRefundedAmount : Option Int64 := none
  withdrawableSpentAmount : Option Int64 := none
  settlementId : Option String := none
  usageHash : Option String := none
  settlementLines : Option (List SettlementLine) := none
  releaseId : Option String := none
  releaseReason : Option String := none
  finalizedAt : Option Int64 := none
  deriving DecidableEq

/-- `"open"`, `"closed"`. -/
inductive PoolStatus where
  | opened
  | closed
  deriving DecidableEq

def PoolStatus.text : PoolStatus → String
  | opened => "open"
  | closed => "closed"

structure Pool where
  poolId : String
  payerUserId : String
  maxAmount : Int64
  remaining : Int64
  reserved : Int64
  spent : Int64
  refunded : Int64
  withdrawableAmount : Int64
  settlementAuthority : String
  meterProgramId : String
  status : PoolStatus
  expiresAt : Int64
  idempotencyKey : String
  createdAt : Int64
  updatedAt : Int64
  closeId : Option String := none
  closeReason : Option String := none
  deriving DecidableEq

/-- `"reserved"`, `"settled"`, `"released"`. -/
inductive ReservationStatus where
  | reserved
  | settled
  | released
  deriving DecidableEq

def ReservationStatus.text : ReservationStatus → String
  | reserved => "reserved"
  | settled => "settled"
  | released => "released"

structure Reservation where
  runId : String
  poolId : String
  payerUserId : String
  quoteId : String
  amount : Int64
  status : ReservationStatus
  createdAt : Int64
  settlementId : Option String := none
  actualAmount : Option Int64 := none
  usageHash : Option String := none
  settlementLines : Option (List SettlementLine) := none
  settledAt : Option Int64 := none
  releaseId : Option String := none
  releaseReason : Option String := none
  releasedAt : Option Int64 := none
  deriving DecidableEq

/-- What a run was charged live, over all its debits; `credits` is keyed by `capKey`. -/
structure LiveDebit where
  runId : String
  poolId : String
  payerUserId : String
  quoteId : String
  createdAt : Int64
  chargedTotal : Int64
  credits : Store String Int64
  lastDebitId : String
  lastUsageHash : String
  updatedAt : Int64

structure ProjectBudget where
  projectId : String
  budgetMinor : Int64
  spentMinor : Int64
  reservedMinor : Int64
  updatedAt : Int64
  deriving DecidableEq

/-- `"pending"`, `"paid"`, `"rejected"`. -/
inductive PayoutStatus where
  | pending
  | paid
  | rejected
  deriving DecidableEq

def PayoutStatus.text : PayoutStatus → String
  | pending => "pending"
  | paid => "paid"
  | rejected => "rejected"

structure Payout where
  payoutId : String
  requestId : String
  userId : String
  amount : Int64
  destinationRef : String
  status : PayoutStatus
  createdAt : Int64
  requestHash : String
  providerReference : Option String := none
  reason : Option String := none
  resolutionId : Option String := none
  resolvedAt : Option Int64 := none
  deriving DecidableEq

/-- A journal record with the users it is indexed under. -/
structure Journal where
  journalId : String
  kind : String
  holdId : String
  payerUserId : String
  createdAt : Int64
  payload : Value
  participants : List String

/-- The six counters of one `core.finance_account`, and the user's current pool. -/
structure FinanceAccount where
  heldMinor : Option Int64 := none
  debtMinor : Option Int64 := none
  withdrawableMinor : Option Int64 := none
  payoutHeldMinor : Option Int64 := none
  earnedMinor : Option Int64 := none
  spentMinor : Option Int64 := none
  poolRef : Option String := none
  deriving DecidableEq

def FinanceAccount.value (account : FinanceAccount) : WalletCounter → Option Int64
  | .held => account.heldMinor
  | .debt => account.debtMinor
  | .withdrawable => account.withdrawableMinor
  | .payoutHeld => account.payoutHeldMinor
  | .earned => account.earnedMinor
  | .spent => account.spentMinor

/-- The update of one counter field (`account_field`). -/
def FinanceAccount.withValue (account : FinanceAccount) (kind : WalletCounter) (amount : Int64) :
    FinanceAccount :=
  match kind with
  | .held => { account with heldMinor := some amount }
  | .debt => { account with debtMinor := some amount }
  | .withdrawable => { account with withdrawableMinor := some amount }
  | .payoutHeld => { account with payoutHeldMinor := some amount }
  | .earned => { account with earnedMinor := some amount }
  | .spent => { account with spentMinor := some amount }

theorem FinanceAccount.value_withValue (account : FinanceAccount) (kind kind' : WalletCounter)
    (amount : Int64) :
    (account.withValue kind amount).value kind' =
      if kind' = kind then some amount else account.value kind' := by
  cases kind <;> cases kind' <;> rfl

/-! ## Wire inputs -/

structure CreateHoldInput where
  quoteId : String
  pricingVersion : String
  maxAmount : Int64
  settlementAuthority : String
  meterProgramId : String
  expiresAt : Int64
  idempotencyKey : String
  contextHash : String
  beneficiaryPlanHash : String
  beneficiaries : List HoldBeneficiary

structure StartHoldInput where
  holdId : String
  payerUserId : String
  quoteId : String
  runId : String

structure SettleHoldInput where
  holdId : String
  payerUserId : String
  quoteId : String
  settlementId : String
  usageHash : String
  lines : List SettlementLine

structure ReleaseHoldInput where
  holdId : String
  payerUserId : String
  releaseId : String
  reason : String

structure RequestPayoutInput where
  requestId : String
  amount : Int64
  destinationRef : String

structure ResolvePayoutInput where
  payoutId : String
  resolutionId : String
  status : String
  providerReference : String
  reason : String

structure OpenPoolInput where
  maxAmount : Int64
  settlementAuthority : String
  meterProgramId : String
  expiresAt : Int64
  idempotencyKey : String

structure RefreshPoolInput where
  poolId : String
  refreshId : String
  amount : Int64
  expiresAt : Int64

structure ClosePoolInput where
  poolId : String
  closeId : String
  reason : String

structure ReservePoolInput where
  poolId : String
  payerUserId : String
  quoteId : String
  runId : String
  maxAmount : Int64

structure SettlePoolInput where
  poolId : String
  payerUserId : String
  quoteId : String
  runId : String
  settlementId : String
  usageHash : String
  lines : List SettlementLine

structure ReleasePoolInput where
  poolId : String
  payerUserId : String
  runId : String
  releaseId : String
  reason : String

structure DebitPoolInput where
  poolId : String
  payerUserId : String
  quoteId : String
  runId : String
  debitId : String
  usageHash : String
  lines : List SettlementLine

structure PaymentAdjustmentInput where
  userId : String
  amount : Int64
  kind : String
  reference : String
  idempotencyKey : String
  metadata : Value

structure TransferInput where
  amount : Int64
  toUsername : String

structure MintInput where
  toUserEmail : String
  amount : Int64
  idempotencyKey : String

structure PublishFinanceQuoteInput where
  quote : Value

/-! ### What is hashed and compared: `serde_json::to_value` -/

def HoldBeneficiary.toJson (beneficiary : HoldBeneficiary) : Value :=
  obj [("userId", .string beneficiary.userId), ("role", .string beneficiary.role),
    ("maxAmount", .ofI64 beneficiary.maxAmount)]

def SettlementLine.toJson (line : SettlementLine) : Value :=
  obj [("userId", .string line.userId), ("role", .string line.role),
    ("amount", .ofI64 line.amount), ("sourceRef", .string line.sourceRef)]

def CreateHoldInput.toJson (input : CreateHoldInput) : Value :=
  obj [("quoteId", .string input.quoteId), ("pricingVersion", .string input.pricingVersion),
    ("maxAmount", .ofI64 input.maxAmount),
    ("settlementAuthority", .string input.settlementAuthority),
    ("meterProgramId", .string input.meterProgramId), ("expiresAt", .ofI64 input.expiresAt),
    ("idempotencyKey", .string input.idempotencyKey), ("contextHash", .string input.contextHash),
    ("beneficiaryPlanHash", .string input.beneficiaryPlanHash),
    ("beneficiaries", .array (input.beneficiaries.map HoldBeneficiary.toJson))]

def RequestPayoutInput.toJson (input : RequestPayoutInput) : Value :=
  obj [("requestId", .string input.requestId), ("amount", .ofI64 input.amount),
    ("destinationRef", .string input.destinationRef)]

def ResolvePayoutInput.toJson (input : ResolvePayoutInput) : Value :=
  obj [("payoutId", .string input.payoutId), ("resolutionId", .string input.resolutionId),
    ("status", .string input.status), ("providerReference", .string input.providerReference),
    ("reason", .string input.reason)]

def PaymentAdjustmentInput.toJson (input : PaymentAdjustmentInput) : Value :=
  obj [("userId", .string input.userId), ("amount", .ofI64 input.amount),
    ("kind", .string input.kind), ("reference", .string input.reference),
    ("idempotencyKey", .string input.idempotencyKey), ("metadata", input.metadata)]

/-! ## Idempotency markers -/

inductive FinanceMarker where
  | holdRequest (payer key : String)
  | run (authority runId : String)
  | settlement (authority settlementId : String)
  | release (caller releaseId : String)
  | payoutRequest (user requestId : String)
  | payoutResolution (resolutionId : String)
  | poolOpen (payer key : String)
  | poolRefresh (payer refreshId : String)
  | poolClose (poolId : String)
  | poolSettlement (authority settlementId : String)
  | poolDebit (authority debitId : String)
  | paymentAdjustment (key : String)
  | mintApplied (key : String)
  deriving DecidableEq

def markerKey : FinanceMarker → String
  | .holdRequest payer key => "FinanceHoldRequest::" ++ payer ++ "::" ++ key
  | .run authority runId => "FinanceRun::" ++ authority ++ "::" ++ runId
  | .settlement authority settlementId =>
    "FinanceSettlement::" ++ authority ++ "::" ++ settlementId
  | .release caller releaseId => "FinanceRelease::" ++ caller ++ "::" ++ releaseId
  | .payoutRequest user requestId => "FinancePayoutRequest::" ++ user ++ "::" ++ requestId
  | .payoutResolution resolutionId => "FinancePayoutResolution::" ++ resolutionId
  | .poolOpen payer key => "FinancePoolOpen::" ++ payer ++ "::" ++ key
  | .poolRefresh payer refreshId => "FinancePoolRefresh::" ++ payer ++ "::" ++ refreshId
  | .poolClose poolId => "FinancePoolClose::" ++ poolId
  | .poolSettlement authority settlementId =>
    "FinancePoolSettlement::" ++ authority ++ "::" ++ settlementId
  | .poolDebit authority debitId => "FinancePoolDebit::" ++ authority ++ "::" ++ debitId
  | .paymentAdjustment key => "PaymentAdjustment::" ++ key
  | .mintApplied key => "MintApplied::" ++ key

end Aseman.Finance
