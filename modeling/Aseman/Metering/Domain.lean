import Aseman.Lib.Checked
import Aseman.Lib.OrderedMap
import Aseman.Lib.Text
import Aseman.Lib.UuidText
import Aseman.Ports

/-!
# Metering, pricing and the ledger

`finance.rs` of the domain, as far as the meter uses it: samples of a workload's cumulative counters, the
interval between two of them, its price, and the journal record that settles it. Counters are `u64` and
amounts are `i64`.
-/

namespace Aseman.Metering

/-- What a runtime can be metered on. -/
inductive Dimension where
  | cpuMillis
  | memoryMibSeconds
  | storageMibSeconds
  | diskReadBytes
  | diskWriteBytes
  | networkIngressBytes
  | networkEgressBytes
  | acceleratorMillis
  deriving DecidableEq

/-- Where a dimension stands in the order of their declaration. -/
def Dimension.rank : Dimension → ℕ
  | cpuMillis => 0
  | memoryMibSeconds => 1
  | storageMibSeconds => 2
  | diskReadBytes => 3
  | diskWriteBytes => 4
  | networkIngressBytes => 5
  | networkEgressBytes => 6
  | acceleratorMillis => 7

theorem Dimension.rank_injective : Function.Injective Dimension.rank := by
  intro a b h
  cases a <;> cases b <;> first | rfl | cases h

instance : LinearOrder Dimension := LinearOrder.lift' Dimension.rank Dimension.rank_injective

/-- Ingress is not billable: a workload cannot refuse what is sent to it. -/
def Dimension.billable : Dimension → Bool
  | networkIngressBytes => false
  | _ => true

inductive FinanceError where
  | overflow
  | differentWorkloads
  | outOfOrder
  | unpricedDimension (dimension : Dimension)
  | unbalanced
  deriving DecidableEq

def Dimension.debug : Dimension → String
  | cpuMillis => "CpuMillis"
  | memoryMibSeconds => "MemoryMibSeconds"
  | storageMibSeconds => "StorageMibSeconds"
  | diskReadBytes => "DiskReadBytes"
  | diskWriteBytes => "DiskWriteBytes"
  | networkIngressBytes => "NetworkIngressBytes"
  | networkEgressBytes => "NetworkEgressBytes"
  | acceleratorMillis => "AcceleratorMillis"

def FinanceError.text : FinanceError → String
  | overflow => "the amount does not fit"
  | differentWorkloads => "two samples of different workloads are not an interval"
  | outOfOrder => "a sample must be newer than the one before it"
  | unpricedDimension dimension => "the price list does not price " ++ dimension.debug
  | unbalanced => "a journal record's entries must sum to zero"

/-! ## Samples and intervals -/

abbrev Counters := OrderedMap Dimension ℕ

/-- One provider reading, as collected. -/
structure UsageSample where
  workloadId : Uuid
  providerSampleId : String
  provider : String
  collectedAtMillis : Int
  cumulative : Counters

/-- What a workload consumed between two samples. -/
structure UsageInterval where
  workloadId : Uuid
  intervalStartMillis : Int
  intervalEndMillis : Int
  providerSampleId : String
  deltas : Counters

def UsageInterval.settlementKey (interval : UsageInterval) : String :=
  uuidText interval.workloadId ++ ":" ++
    (toString interval.intervalStartMillis ++ ":" ++ interval.providerSampleId)

/-- A counter that went backwards has been reset: the new counter is what was consumed. -/
def delta (previous : Counters) (dimension : Dimension) (now : ℕ) : ℕ :=
  let before := (previous.get dimension).getD 0
  if before ≤ now then now - before else now

/-- The interval between two samples, without the checks. -/
def between (previous current : UsageSample) : UsageInterval where
  workloadId := current.workloadId
  intervalStartMillis := previous.collectedAtMillis
  intervalEndMillis := current.collectedAtMillis
  providerSampleId := current.providerSampleId
  deltas := OrderedMap.ofList
    (current.cumulative.entries.map fun e => (e.1, delta previous.cumulative e.1 e.2))

def intervalBetween (previous current : UsageSample) : Except FinanceError UsageInterval := do
  ensure (previous.workloadId = current.workloadId) .differentWorkloads
  ensure (¬ current.collectedAtMillis ≤ previous.collectedAtMillis) .outOfOrder
  pure (between previous current)

theorem intervalBetween_of_lt {previous current}
    (hworkload : previous.workloadId = current.workloadId)
    (htime : previous.collectedAtMillis < current.collectedAtMillis) :
    intervalBetween previous current = .ok (between previous current) := by
  simp only [intervalBetween, bind_eq_ok, ensure_eq_ok, pure_eq_ok]
  exact ⟨(), hworkload, (), not_le.mpr htime, trivial⟩

theorem colon_notMem_natText (m : ℕ) : ':' ∉ (toString m).toList := by
  intro hmem
  rw [Nat.toString_eq_repr, Nat.toList_repr] at hmem
  exact absurd (Nat.isDigit_of_mem_toDigits (by decide) (by decide) hmem) (by decide)

theorem colon_notMem_toString (n : Int) : ':' ∉ (toString n).toList := by
  intro hmem
  rw [Int.toString_eq_repr, Int.repr_eq_if] at hmem
  split at hmem
  · exact colon_notMem_natText _ hmem
  · rw [String.toList_append, List.mem_append] at hmem
    rcases hmem with hmem | hmem
    · exact absurd hmem (by decide)
    · exact colon_notMem_natText _ hmem

theorem UsageInterval.settlementKey_inj {a b : UsageInterval}
    (h : a.settlementKey = b.settlementKey) :
    a.workloadId = b.workloadId ∧ a.providerSampleId = b.providerSampleId := by
  obtain ⟨hworkload, hrest⟩ := Text.append_inj_of_notMem (c := ':')
    (colon_notMem_uuidText a.workloadId) (colon_notMem_uuidText b.workloadId) h
  obtain ⟨-, hsample⟩ := Text.append_inj_of_notMem (c := ':')
    (colon_notMem_toString a.intervalStartMillis) (colon_notMem_toString b.intervalStartMillis) hrest
  exact ⟨uuidText_injective hworkload, hsample⟩

/-! ## Prices -/

structure PriceList where
  version : String
  effectiveFromMillis : Int
  rates : OrderedMap Dimension ℕ

/-- A rate of 1 costs one minor unit per so many units. -/
def priceScale : ℕ := 1000000000

structure Charge where
  settlementKey : String
  workloadId : Uuid
  amount : Int64
  priceVersion : String
  lines : OrderedMap Dimension Int64

/-- `u64::checked_mul`. -/
def checkedMulU64 (a b : ℕ) : Option ℕ := if a * b < 2 ^ 64 then some (a * b) else none

/-- `i64::try_from` of a `u64`. -/
def tryI64 (n : ℕ) : Option Int64 := if n < 2 ^ 63 then some (Int64.ofNat n) else none

/-- One round of the loop of `price`. -/
def priceLine (prices : PriceList) (acc : OrderedMap Dimension Int64 × Int64) (line : Dimension × ℕ) :
    Except FinanceError (OrderedMap Dimension Int64 × Int64) :=
  if !line.1.billable then .ok acc
  else if line.2 = 0 then .ok acc
  else do
    let rate ← okOr (prices.rates.get line.1) (.unpricedDimension line.1)
    -- rounded up: a fraction of a minor unit is owed
    let cost ← okOr ((checkedMulU64 line.2 rate).map fun product =>
      (product + priceScale - 1) / priceScale) .overflow
    let cost ← okOr (tryI64 cost) .overflow
    if 0 < cost then do
      let total ← okOr (checkedAdd acc.2 cost) .overflow
      pure (acc.1.insert line.1 cost, total)
    else pure acc

def price (interval : UsageInterval) (prices : PriceList) : Except FinanceError Charge := do
  let (lines, total) ← interval.deltas.entries.foldlM (priceLine prices) (∅, 0)
  pure
    { settlementKey := interval.settlementKey
      workloadId := interval.workloadId
      amount := total
      priceVersion := prices.version
      lines := lines }

/-- The last element with the largest key, as `Iterator::max_by_key` finds it. -/
def maxByKey (lists : List PriceList) : Option PriceList :=
  lists.foldl (fun best list => match best with
    | none => some list
    | some best =>
      if best.effectiveFromMillis ≤ list.effectiveFromMillis then some list else some best) none

/-- `price_list_at`: the newest list that had taken effect. -/
def priceListAt (lists : List PriceList) (atMillis : Int) : Option PriceList :=
  maxByKey (lists.filter fun list => list.effectiveFromMillis ≤ atMillis)

/-! ## The journal -/

structure Entry where
  account : String
  amount : Int64
  deriving DecidableEq

structure JournalRecord where
  idempotencyKey : String
  atMillis : Int
  entries : List Entry
  priceVersion : Option String
  deriving DecidableEq

/-- The sum of the amounts, if no partial sum overflows. -/
def checkedTotal (entries : List Entry) : Option Int64 :=
  entries.foldlM (fun total entry => checkedAdd total entry.amount) 0

/-- `JournalRecord::balances`. -/
def JournalRecord.balances (record : JournalRecord) : Bool := checkedTotal record.entries = some 0

/-- `i64::checked_neg`. -/
def checkedNeg (a : Int64) : Option Int64 := checkedSub 0 a

def settle (charge : Charge) (wallet revenue : String) (atMillis : Int) :
    Except FinanceError JournalRecord := do
  let negated ← okOr (checkedNeg charge.amount) .overflow
  let record : JournalRecord :=
    { idempotencyKey := charge.settlementKey
      atMillis := atMillis
      entries := [⟨wallet, negated⟩, ⟨revenue, charge.amount⟩]
      priceVersion := some charge.priceVersion }
  ensure record.balances .unbalanced
  pure record

end Aseman.Metering
