import Aseman.Finance.Types

/-!
# Finance documents as JSON

The documents are stored as JSON objects, and the reconciler reads them back as such, with a
default for a field that is missing or of another type. Here is the object each document is
written as, under the field names of the source, and the reading of its fields.
-/

namespace Aseman.Finance

open Json Value

/-! ## Writing -/

def Hold.toJson (h : Hold) : Map :=
  Map.ofFields [("version", some (.ofI64 2)), ("holdId", some (.string h.holdId)),
    ("payerUserId", some (.string h.payerUserId)), ("quoteId", some (.string h.quoteId)),
    ("pricingVersion", some (.string h.pricingVersion)), ("maxAmount", some (.ofI64 h.maxAmount)),
    ("remainingAmount", some (.ofI64 h.remainingAmount)),
    ("withdrawableAmount", some (.ofI64 h.withdrawableAmount)),
    ("meterProgramId", some (.string h.meterProgramId)),
    ("settlementAuthority", some (.string h.settlementAuthority)),
    ("expiresAt", some (.ofI64 h.expiresAt)), ("projectId", some (.string h.projectId)),
    ("contextHash", some (.string h.contextHash)),
    ("beneficiaryPlanHash", some (.string h.beneficiaryPlanHash)),
    ("beneficiaries", some (.array (h.beneficiaries.map HoldBeneficiary.toJson))),
    ("requestHash", some (.string h.requestHash)), ("status", some (.string h.status.text)),
    ("createdAt", some (.ofI64 h.createdAt)), ("runId", h.runId.map .string),
    ("startedAt", h.startedAt.map .ofI64), ("actualAmount", h.actualAmount.map .ofI64),
    ("refundedAmount", h.refundedAmount.map .ofI64),
    ("withdrawableRefundedAmount", h.withdrawableRefundedAmount.map .ofI64),
    ("withdrawableSpentAmount", h.withdrawableSpentAmount.map .ofI64),
    ("settlementId", h.settlementId.map .string), ("usageHash", h.usageHash.map .string),
    ("settlementLines", h.settlementLines.map fun l => .array (l.map SettlementLine.toJson)),
    ("releaseId", h.releaseId.map .string), ("releaseReason", h.releaseReason.map .string),
    ("finalizedAt", h.finalizedAt.map .ofI64)]

def Pool.toJson (p : Pool) : Map :=
  Map.ofFields [("version", some (.ofI64 1)), ("poolId", some (.string p.poolId)),
    ("payerUserId", some (.string p.payerUserId)), ("maxAmount", some (.ofI64 p.maxAmount)),
    ("remaining", some (.ofI64 p.remaining)), ("reserved", some (.ofI64 p.reserved)),
    ("spent", some (.ofI64 p.spent)), ("refunded", some (.ofI64 p.refunded)),
    ("withdrawableAmount", some (.ofI64 p.withdrawableAmount)),
    ("settlementAuthority", some (.string p.settlementAuthority)),
    ("meterProgramId", some (.string p.meterProgramId)), ("status", some (.string p.status.text)),
    ("expiresAt", some (.ofI64 p.expiresAt)), ("idempotencyKey", some (.string p.idempotencyKey)),
    ("createdAt", some (.ofI64 p.createdAt)), ("updatedAt", some (.ofI64 p.updatedAt)),
    ("closeId", p.closeId.map .string), ("closeReason", p.closeReason.map .string)]

def Reservation.toJson (r : Reservation) : Map :=
  Map.ofFields [("runId", some (.string r.runId)), ("poolId", some (.string r.poolId)),
    ("payerUserId", some (.string r.payerUserId)), ("quoteId", some (.string r.quoteId)),
    ("amount", some (.ofI64 r.amount)), ("status", some (.string r.status.text)),
    ("createdAt", some (.ofI64 r.createdAt)), ("settlementId", r.settlementId.map .string),
    ("actualAmount", r.actualAmount.map .ofI64), ("usageHash", r.usageHash.map .string),
    ("settlementLines", r.settlementLines.map fun l => .array (l.map SettlementLine.toJson)),
    ("settledAt", r.settledAt.map .ofI64), ("releaseId", r.releaseId.map .string),
    ("releaseReason", r.releaseReason.map .string), ("releasedAt", r.releasedAt.map .ofI64)]

def LiveDebit.creditsJson (d : LiveDebit) : Map :=
  Map.ofList (d.credits.toList.map fun e => (e.1, .ofI64 e.2))

def LiveDebit.toJson (d : LiveDebit) : Map :=
  Map.ofFields [("runId", some (.string d.runId)), ("poolId", some (.string d.poolId)),
    ("payerUserId", some (.string d.payerUserId)), ("quoteId", some (.string d.quoteId)),
    ("createdAt", some (.ofI64 d.createdAt)), ("chargedTotal", some (.ofI64 d.chargedTotal)),
    ("credits", some (.object d.creditsJson)), ("lastDebitId", some (.string d.lastDebitId)),
    ("lastUsageHash", some (.string d.lastUsageHash)), ("updatedAt", some (.ofI64 d.updatedAt))]

def ProjectBudget.toJson (b : ProjectBudget) : Map :=
  Map.ofFields [("projectId", some (.string b.projectId)),
    ("budgetMinor", some (.ofI64 b.budgetMinor)), ("spentMinor", some (.ofI64 b.spentMinor)),
    ("reservedMinor", some (.ofI64 b.reservedMinor)), ("updatedAt", some (.ofI64 b.updatedAt))]

def Payout.toJson (p : Payout) : Map :=
  Map.ofFields [("payoutId", some (.string p.payoutId)), ("requestId", some (.string p.requestId)),
    ("userId", some (.string p.userId)), ("amount", some (.ofI64 p.amount)),
    ("destinationRef", some (.string p.destinationRef)), ("status", some (.string p.status.text)),
    ("createdAt", some (.ofI64 p.createdAt)), ("requestHash", some (.string p.requestHash)),
    ("providerReference", p.providerReference.map .string), ("reason", p.reason.map .string),
    ("resolutionId", p.resolutionId.map .string), ("resolvedAt", p.resolvedAt.map .ofI64)]

/-! ## Reading -/

/-- `doc.get(field).and_then(Value::as_str).unwrap_or("")`. -/
def readStr (doc : Map) (field : String) : String := (strField doc field).getD ""

/-- `as_i64(doc.get(field).unwrap_or(&Value::Null)).unwrap_or(-1)`. -/
def readAmount (doc : Map) (field : String) : Int64 := (i64Field doc field).getD (-1)

/-- What the reconciler reads of a settlement line. -/
structure LineRow where
  userId : String
  amount : Int64

open LineRow

def LineRow.read (line : Value) : LineRow where
  userId := ((line.get "userId").bind asStr).getD ""
  amount := ((line.get "amount").bind asI64).getD (-1)

/-- `doc.get("settlementLines").and_then(Value::as_array).cloned().unwrap_or_default()`. -/
def readLines (doc : Map) : List LineRow :=
  (((doc.get "settlementLines").bind asArray).getD []).map read

theorem LineRow.read_toJson (line : SettlementLine) :
    read line.toJson = { userId := line.userId, amount := line.amount } := by
  simp [read, SettlementLine.toJson, obj, Map.ofList, Value.get, Value.asObject,
    Map.get_insert, asStr]

/-- What the reconciler reads of a hold. -/
structure HoldRow where
  payer : String
  project : String
  status : String
  maxAmount : Int64
  remaining : Int64
  actual : Int64
  refunded : Int64
  lines : List LineRow

def HoldRow.read (hold : Map) : HoldRow where
  payer := readStr hold "payerUserId"
  project := readStr hold "projectId"
  status := readStr hold "status"
  maxAmount := readAmount hold "maxAmount"
  remaining := readAmount hold "remainingAmount"
  actual := readAmount hold "actualAmount"
  refunded := readAmount hold "refundedAmount"
  lines := readLines hold

/-- What the reconciler reads of the lines a document carries. -/
def lineRows (lines : Option (List SettlementLine)) : List LineRow :=
  (lines.getD []).map fun line => { userId := line.userId, amount := line.amount }

theorem readLines_of {doc lines}
    (h : doc.get "settlementLines" = lines.map fun l => .array (l.map SettlementLine.toJson)) :
    readLines doc = lineRows lines := by
  cases lines with
  | none => simp [readLines, lineRows, h]
  | some lines =>
    simp only [readLines, lineRows, h, Option.map_some, Option.bind_some, asArray,
      Option.getD_some, List.map_map]
    exact List.map_congr_left fun line _ => read_toJson line

theorem HoldRow.read_toJson (h : Hold) : HoldRow.read h.toJson =
      { payer := h.payerUserId, project := h.projectId, status := h.status.text,
        maxAmount := h.maxAmount, remaining := h.remainingAmount,
        actual := h.actualAmount.getD (-1), refunded := h.refundedAmount.getD (-1),
        lines := lineRows h.settlementLines } := by
  have hlines : readLines h.toJson = lineRows h.settlementLines :=
    readLines_of (by simp [Hold.toJson])
  have hactual : i64Field h.toJson "actualAmount" = h.actualAmount := by
    cases ha : h.actualAmount <;> simp [i64Field, Hold.toJson, ha]
  have hrefunded : i64Field h.toJson "refundedAmount" = h.refundedAmount := by
    cases hr : h.refundedAmount <;> simp [i64Field, Hold.toJson, hr]
  simp only [HoldRow.read, hlines, readAmount, hactual, hrefunded, readStr]
  simp [strField, i64Field, Hold.toJson, asStr]

/-- What the reconciler reads of a pool. -/
structure PoolRow where
  payer : String
  status : String
  maxAmount : Int64
  remaining : Int64
  reserved : Int64
  spent : Int64
  refunded : Int64

def PoolRow.read (pool : Map) : PoolRow where
  payer := readStr pool "payerUserId"
  status := readStr pool "status"
  maxAmount := readAmount pool "maxAmount"
  remaining := readAmount pool "remaining"
  reserved := readAmount pool "reserved"
  spent := readAmount pool "spent"
  refunded := readAmount pool "refunded"

theorem PoolRow.read_toJson (p : Pool) : PoolRow.read p.toJson =
      { payer := p.payerUserId, status := p.status.text, maxAmount := p.maxAmount,
        remaining := p.remaining, reserved := p.reserved, spent := p.spent,
        refunded := p.refunded } := by
  simp [PoolRow.read, readStr, readAmount, strField, i64Field, Pool.toJson, asStr]

/-- What the reconciler reads of a reservation. -/
structure ReservationRow where
  payer : String
  poolId : String
  status : String
  amount : Int64
  actual : Int64
  lines : List LineRow

def ReservationRow.read (reservation : Map) : ReservationRow where
  payer := readStr reservation "payerUserId"
  poolId := readStr reservation "poolId"
  status := readStr reservation "status"
  amount := readAmount reservation "amount"
  actual := readAmount reservation "actualAmount"
  lines := readLines reservation

theorem ReservationRow.read_toJson (r : Reservation) : ReservationRow.read r.toJson =
      { payer := r.payerUserId, poolId := r.poolId, status := r.status.text, amount := r.amount,
        actual := r.actualAmount.getD (-1), lines := lineRows r.settlementLines } := by
  have hlines : readLines r.toJson = lineRows r.settlementLines :=
    readLines_of (by simp [Reservation.toJson])
  have hactual : i64Field r.toJson "actualAmount" = r.actualAmount := by
    cases ha : r.actualAmount <;> simp [i64Field, Reservation.toJson, ha]
  simp only [ReservationRow.read, hlines, readAmount, hactual, readStr]
  simp [strField, i64Field, Reservation.toJson, asStr]

/-- What the reconciler reads of a live debit; a credit's user is what stands before the bar. -/
structure LiveDebitRow where
  payer : String
  charged : Int64
  credits : List LineRow

/-- One member of a live debit's credits. -/
def LineRow.readCredit (credit : String × Value) : LineRow where
  userId := Text.before '|' credit.1
  amount := credit.2.asI64.getD (-1)

def LiveDebitRow.read (record : Map) : LiveDebitRow where
  payer := readStr record "payerUserId"
  charged := readAmount record "chargedTotal"
  credits := (((record.get "credits").bind Value.asObject).getD []).map readCredit

theorem LiveDebitRow.read_toJson (d : LiveDebit) : LiveDebitRow.read d.toJson =
      { payer := d.payerUserId, charged := d.chargedTotal,
        credits := d.creditsJson.map readCredit } := by
  simp [LiveDebitRow.read, readStr, readAmount, strField, i64Field, LiveDebit.toJson, asStr,
    Value.asObject]

theorem LiveDebit.readCredits_perm (d : LiveDebit) : (d.creditsJson.map readCredit).Perm
      (d.credits.toList.map fun e => { userId := Text.before '|' e.1, amount := e.2 }) := by
  have hkeys : ((d.credits.toList.map fun e => (e.1, ofI64 e.2)).map Prod.fst).Nodup := by
    simpa [Function.comp_def] using d.credits.map_fst_toList ▸ d.credits.nodup_keys
  refine ((Map.ofList_perm hkeys).map readCredit).trans (.of_eq ?_)
  simp [Function.comp_def, readCredit]

/-- What the reconciler reads of a payout. -/
structure PayoutRow where
  status : Option String
  userId : String
  amount : Int64

def PayoutRow.read (payout : Map) : PayoutRow where
  status := strField payout "status"
  userId := readStr payout "userId"
  amount := readAmount payout "amount"

end Aseman.Finance
