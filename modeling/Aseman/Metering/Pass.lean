import Aseman.Lib.Interleaving
import Aseman.Metering.Domain

/-!
# The meter's pass

`RunMeterPass::execute`, as a program over the ports it calls: each port call is one operation. The usage
store, the price lists and the journal of the capsule protocol are modelled; the workload manager answers
as the surroundings say at that moment, and a call of the stores may fail before or after it has taken
effect.
-/

namespace Aseman.Metering

/-- A reading of a workload's counters. -/
structure Usage where
  windowStartMillis : Int
  windowEndMillis : Int
  sequence : ℕ
  cpuMillis : ℕ
  memoryPeakBytes : ℕ
  networkRxBytes : ℕ
  networkTxBytes : ℕ
  storageBytes : ℕ
  invocations : ℕ
  deriving DecidableEq

/-- `usage_sample`: gauges are not counters and are left out. -/
def usageSample (workload : Uuid) (reading : Usage) : UsageSample where
  workloadId := workload
  providerSampleId := "a501:" ++ toString reading.windowEndMillis ++ ":" ++ toString reading.sequence
  provider := "a501"
  collectedAtMillis := reading.windowEndMillis
  cumulative := OrderedMap.ofList
    [(.cpuMillis, reading.cpuMillis), (.networkIngressBytes, reading.networkRxBytes),
      (.networkEgressBytes, reading.networkTxBytes)]

/-! ## The stores -/

def UsageSample.key (sample : UsageSample) : String :=
  uuidText sample.workloadId ++ "::" ++ sample.providerSampleId

def samplesOf (workload : Uuid) (samples : List UsageSample) : List UsageSample :=
  samples.filter (·.workloadId = workload)

def intervalsOf (workload : Uuid) (intervals : List UsageInterval) : List UsageInterval :=
  intervals.filter (·.workloadId = workload)

def later : Option UsageSample → UsageSample → Option UsageSample
  | none, x => some x
  | some best, x => if best.collectedAtMillis < x.collectedAtMillis then some x else some best

/-- `previous_sample`: the last sample of a workload before a time. -/
def latestBefore (samples : List UsageSample) (workload : Uuid) (atMillis : Int) : Option UsageSample :=
  ((samplesOf workload samples).filter (·.collectedAtMillis < atMillis)).foldl later none

/-- Intervals examined per page while looking for unsettled ones. -/
def pageRows : ℕ := 256

/-- The loop of `unsettled` over one page, and whether it has found as many as it may. -/
def scanPage (settled : UsageInterval → Bool) (limit : ℕ) :
    List UsageInterval → List UsageInterval → List UsageInterval × Bool
  | [], found => (found, false)
  | row :: rows, found =>
    if settled row then scanPage settled limit rows found
    else if (found ++ [row]).length = limit then (found ++ [row], true)
    else scanPage settled limit rows (found ++ [row])

/-- The loop of `unsettled` over the pages. -/
def scanPages (settled : UsageInterval → Bool) (limit : ℕ) :
    ℕ → List UsageInterval → List UsageInterval → List UsageInterval
  | 0, _, found => found
  | pages + 1, rows, found =>
    let (found', full) := scanPage settled limit (rows.take pageRows) found
    if full then found'
    else if (rows.take pageRows).length < pageRows then found'
    else scanPages settled limit pages (rows.drop pageRows) found'

/-- By their start, and then by their key. -/
def inOrder (intervals : List UsageInterval) : List UsageInterval :=
  intervals.insertionSort fun a b => a.intervalStartMillis < b.intervalStartMillis ∨
    a.intervalStartMillis = b.intervalStartMillis ∧ a.settlementKey ≤ b.settlementKey

def firstUnsettled (intervals : List UsageInterval) (journal : List JournalRecord) (limit : ℕ) :
    List UsageInterval :=
  scanPages (fun row => journal.any (·.idempotencyKey = row.settlementKey)) (max limit 1)
    (intervals.length / pageRows + 1) (inOrder intervals) []

/-- Rows that a query without a bound of its own returns. -/
def defaultTake : ℕ := 10000

/-- `price_lists`: by the time they take effect, and then by their version. -/
def listsInOrder (prices : List PriceList) : List PriceList :=
  (prices.insertionSort fun a b => a.effectiveFromMillis < b.effectiveFromMillis ∨
    a.effectiveFromMillis = b.effectiveFromMillis ∧ a.version ≤ b.version).take defaultTake

/-! ## The ports -/

/-- What the workload manager answers at a moment, and what happens to a store call. -/
structure Ports where
  /-- A page of workloads and the cursor of the next. -/
  workloads : Option String → ℕ → Except PortError (List Uuid × Option String)
  usage : Uuid → Except PortError Usage
  /-- The creature that a workload is labelled with. -/
  creature : Uuid → Except PortError (Option Uuid)
  fault : Option Fault

structure Meters where
  samples : List UsageSample
  intervals : List UsageInterval
  journal : List JournalRecord
  prices : List PriceList
  ports : Ports
  /-- The readings that the workload manager has given, in their order. -/
  readings : List (Uuid × Usage)
  /-- The pass that recorded a sample of the workload and has not recorded the interval before it. -/
  pending : Uuid → Option ℕ

/-- The port calls. -/
inductive Op where
  | workloads (cursor : Option String) (limit : ℕ)
  | usage (workload : Uuid)
  | previousSample (workload : Uuid) (atMillis : Int)
  | recordSample (sample : UsageSample)
  | recordInterval (interval : UsageInterval)
  | priceLists
  | unsettled (limit : ℕ)
  | workload (workload : Uuid)
  | commit (record : JournalRecord)

abbrev Op.Ans : Op → Type
  | .workloads .. => Except PortError (List Uuid × Option String)
  | .usage _ => Except PortError Usage
  | .previousSample .. => Except PortError (Option UsageSample)
  | .recordSample _ => Except PortError Unit
  | .recordInterval _ => Except PortError Unit
  | .priceLists => Except PortError (List PriceList)
  | .unsettled _ => Except PortError (List UsageInterval)
  | .workload _ => Except PortError (Option Uuid)
  | .commit _ => Except PortError Unit

/-- What a pass keeps of itself: how many samples of its workload there were when it read the workload's
usage, and whether it found a sample before it. -/
structure Own where
  slot : ℕ
  seen : ℕ := 0
  follows : Bool := false

/-- A store call: it may fail before or after it has taken effect. -/
def stored {α : Type} (meters : Meters) (reply : Except PortError α) (done : Meters) :
    Except PortError α × Meters :=
  match meters.ports.fault with
  | none => (reply, done)
  | some fault => (.error fault.error, if fault.applied then done else meters)

/-- `record_sample`: a repeated collection is refused. -/
def recordedSample (meters : Meters) (own : Own) (sample : UsageSample) :
    Except PortError Unit × Meters :=
  if meters.samples.any (·.key = sample.key) then (.error .conflict, meters)
  else (.ok (), { meters with
    samples := meters.samples ++ [sample]
    pending := if own.follows
      then Function.update meters.pending sample.workloadId (some own.slot) else meters.pending })

def recordedInterval (meters : Meters) (interval : UsageInterval) : Except PortError Unit × Meters :=
  if meters.intervals.any (·.settlementKey = interval.settlementKey) then (.error .conflict, meters)
  else (.ok (), { meters with
    intervals := meters.intervals ++ [interval]
    pending := Function.update meters.pending interval.workloadId none })

/-- `Ledger::commit`: a key that is there already is left as it is. -/
def committed (meters : Meters) (record : JournalRecord) : Except PortError Unit × Meters :=
  if !record.balances then (.error (.denied "a journal record must balance"), meters)
  else if meters.journal.any (·.idempotencyKey = record.idempotencyKey) then (.ok (), meters)
  else (.ok (), { meters with journal := meters.journal ++ [record] })

def exec : (o : Op) → Meters → Own → Op.Ans o × Meters × Own
  | .workloads cursor limit, meters, own => (meters.ports.workloads cursor limit, meters, own)
  | .usage workload, meters, own =>
    match meters.ports.usage workload with
    | .ok reading =>
      (.ok reading, { meters with readings := meters.readings ++ [(workload, reading)] },
        { own with seen := (samplesOf workload meters.samples).length })
    | .error e => (.error e, meters, own)
  | .previousSample workload atMillis, meters, own =>
    let found := latestBefore meters.samples workload atMillis
    let (reply, meters) := stored meters (.ok found) meters
    (reply, meters, { own with follows := found.isSome })
  | .recordSample sample, meters, own =>
    let recorded := recordedSample meters own sample
    let (reply, meters) := stored meters recorded.1 recorded.2
    (reply, meters, own)
  | .recordInterval interval, meters, own =>
    let recorded := recordedInterval meters interval
    let (reply, meters) := stored meters recorded.1 recorded.2
    (reply, meters, own)
  | .priceLists, meters, own =>
    let (reply, meters) := stored meters (.ok (listsInOrder meters.prices)) meters
    (reply, meters, own)
  | .unsettled limit, meters, own =>
    let (reply, meters) := stored meters
      (.ok (firstUnsettled meters.intervals meters.journal limit)) meters
    (reply, meters, own)
  | .workload workload, meters, own => (meters.ports.creature workload, meters, own)
  | .commit record, meters, own =>
    let recorded := committed meters record
    let (reply, meters) := stored meters recorded.1 recorded.2
    (reply, meters, own)

/-! ## The pass -/

abbrev Code (α : Type) := Prog Op Op.Ans PortError α

structure MeterReport where
  workloadsSeen : ℕ := 0
  samplesRecorded : ℕ := 0
  intervalsRecorded : ℕ := 0
  intervalsSettled : ℕ := 0
  deriving DecidableEq

structure Config where
  revenueAccount : String
  pageSize : ℕ
  settlementBatch : ℕ

/-- A domain error, as the pass reports it. -/
def checked {α : Type} (r : Except FinanceError α) : Except PortError α :=
  r.mapError fun e => .failed e.text

def recordBetween (previous : Option UsageSample) (sample : UsageSample) (report : MeterReport) :
    Code MeterReport :=
  match previous with
  | none => pure report
  | some previous => do
      let interval ← Prog.ofExcept (checked (intervalBetween previous sample))
      let reply : Except PortError Unit ← Prog.perform (Op.recordInterval interval)
      match reply with
      | .ok () => pure { report with intervalsRecorded := report.intervalsRecorded + 1 }
      | .error .conflict => pure report
      | .error e => Prog.fail e

/-- What follows on the recording of a sample: one that is there already is left as it is. -/
def sampled (previous : Option UsageSample) (sample : UsageSample) (report : MeterReport) :
    Except PortError Unit → Code MeterReport
  | .ok () => recordBetween previous sample { report with samplesRecorded := report.samplesRecorded + 1 }
  | .error .conflict => pure report
  | .error e => Prog.fail e

/-- The body of the loop over the workloads of a page. -/
def collect (report : MeterReport) (workload : Uuid) : Code MeterReport := do
  let report := { report with workloadsSeen := report.workloadsSeen + 1 }
  let reading ← Prog.ofExcept (← Prog.perform (Op.usage workload))
  let sample := usageSample workload reading
  let previous ← Prog.ofExcept
    (← Prog.perform (Op.previousSample sample.workloadId sample.collectedAtMillis))
  sampled previous sample report (← Prog.perform (Op.recordSample sample))

/-- The body of the loop over the unsettled intervals. -/
def settleInterval (config : Config) (prices : List PriceList) (report : MeterReport)
    (interval : UsageInterval) : Code MeterReport := do
  let list ← Prog.ofExcept (okOr (priceListAt prices interval.intervalStartMillis)
    (.failed "no price list covers the interval"))
  let charge ← Prog.ofExcept (checked (price interval list))
  let found ← Prog.ofExcept (← Prog.perform (Op.workload interval.workloadId))
  let creature ← Prog.ofExcept (okOr found .notFound)
  let record ← Prog.ofExcept (checked (settle charge ("wallet:creature:" ++ uuidText creature)
    config.revenueAccount interval.intervalEndMillis))
  Prog.ofExcept (← Prog.perform (Op.commit record))
  pure { report with intervalsSettled := report.intervalsSettled + 1 }

/-- The end of a pass: the oldest pending intervals are settled. -/
def settlePending (config : Config) (report : MeterReport) : Code MeterReport := do
  let prices ← Prog.ofExcept (← Prog.perform Op.priceLists)
  let intervals ← Prog.ofExcept (← Prog.perform (Op.unsettled (max config.settlementBatch 1)))
  Prog.fold (settleInterval config prices) intervals report

/-- `RunMeterPass::execute`, followed for so many pages of workloads: the source sets no bound, and a pass
that is given more pages is left there. -/
def execute (config : Config) : ℕ → Option String → MeterReport → Code MeterReport
  | 0, _, _ => Prog.fail .deadline
  | pages + 1, cursor, report => do
      let (items, next) ← Prog.ofExcept
        (← Prog.perform (Op.workloads cursor (max config.pageSize 1)))
      let report ← Prog.fold collect items report
      match next with
      | some cursor => execute config pages (some cursor) report
      | none => settlePending config report

/-! ## The system -/

/-- A pass, in the slot in which it runs. -/
structure PassCall where
  slot : ℕ
  config : Config
  pages : ℕ

/-- What happens around the passes. -/
inductive Change where
  | ports (ports : Ports)
  | publish (list : PriceList)
  /-- Another writer commits a record. -/
  | commit (record : JournalRecord)

def surroundings : Change → Meters → Meters
  | .ports ports, meters => { meters with ports := ports }
  | .publish list, meters => { meters with prices := meters.prices ++ [list] }
  | .commit record, meters => (committed meters record).2

def metering : Machine Meters Own PassCall Op Op.Ans PortError MeterReport Change where
  exec := exec
  environment := surroundings
  prog call := execute call.config call.pages none {}
  own call := { slot := call.slot }

abbrev MeterSys := Sys ℕ Meters Own PassCall Op Op.Ans PortError MeterReport

abbrev MeterEvent := Event ℕ PassCall Change

end Aseman.Metering
