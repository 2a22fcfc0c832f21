import Aseman.Finance.Types

/-!
# The ledger and the ports

`Ledger` is what the finance use cases keep: the wallets (every creature's balance and counters),
one store per document family, the idempotency markers and the journal. A use case is a function
from a ledger to a reply and the next ledger, or an error; the transaction of a failed operation
is rolled back, so an error carries no ledger.

`Ports` is everything else one operation sees: the clock, the directories, the billing documents,
the identifiers `gen_id` returns, SHA-256, and the order in which this process iterates a hash
map. Nothing about it is assumed to stay the same between two operations.
-/

namespace Aseman.Finance

open Json

/-! ## Ports -/

/-- The order in which a `HashMap` is iterated: unspecified, but each entry is met once. -/
structure IterationOrder where
  order : List (String × Int64) → List (String × Int64)
  perm : ∀ l, (order l).Perm l

/-- The finance ports of one state action. -/
structure Ports where
  /-- `clock.unix_millis()`. -/
  now : Int64
  creatureIdByUsername : String → Option String
  emailToId : String → String
  /-- Whether a store with this id exists. -/
  store : String → Bool
  /-- `store_metadata_object(store, "metadata")`. -/
  storeMetadataObject : String → Option Map
  /-- `access.is_member(store, user)`. -/
  isMember : String → String → Bool
  /-- Whether a program with this id exists. -/
  program : String → Bool
  billingCurrent : Map
  billingCatalog : String → Option Map
  billingNodes : Map
  marketDoc : String → Map
  /-- What `gen_id` returns for the record the operation creates. -/
  genId : String
  /-- What `gen_id` returns for its journal record. -/
  genJournalId : String
  /-- SHA-256 of a text's UTF-8 bytes, in hexadecimal. -/
  sha256Hex : String → String
  hashMap : IterationOrder

variable (ports : Ports)

def Ports.iter (map : Store String Int64) : List (String × Int64) :=
  ports.hashMap.order map.toList

theorem Ports.iter_perm (map : Store String Int64) :
    (ports.iter map).Perm map.toList := ports.hashMap.perm _

def financeHash (value : Value) : String := ports.sha256Hex value.print

/-! ## Wallets -/

/-- The creatures' balances and the finance accounts. -/
structure Wallets where
  balances : Store String Int64
  accounts : Store String FinanceAccount

namespace Wallets

variable (w : Wallets) (kind : WalletCounter) (user : String)

/-- A stored counter; an absent one reads as zero. -/
def counterValue : Int64 := ((w.accounts.get user).bind (·.value kind)).getD 0

/-- `put_account_field`: an upsert of one counter field. -/
def putCounter (amount : Int64) : Wallets :=
  { w with accounts :=
      w.accounts.put user (((w.accounts.get user).getD {}).withValue kind amount) }

def putBalance (balance : Int64) : Wallets := { w with balances := w.balances.put user balance }

def putPoolOfUser (user poolId : String) : Wallets :=
  { w with accounts :=
      w.accounts.put user { (w.accounts.get user).getD {} with poolRef := some poolId } }

/-- `counter`: a stored negative is an error. -/
def counter : Result Int64 :=
  if w.counterValue kind user < 0 then .error (.port (.failed "invalid finance counter"))
  else .ok (w.counterValue kind user)

def setCounter (amount : Int64) : Result Wallets :=
  if amount < 0 then .error (.port (.denied "finance counter underflow"))
  else .ok (w.putCounter kind user amount)

/-- `add_counter`; the new value it returns is read by no use case. -/
def addCounter (amount : Int64) : Result Wallets := do
  ensure (¬ amount < 0) (.port (.denied "finance counter amount must be nonnegative"))
  let current ← w.counter kind user
  let next ← okOr (checkedAdd current amount) (.port (.failed "finance counter overflow"))
  w.setCounter kind user next

def account (creatureId : String) : Option Int64 := w.balances.get creatureId

/-- `store_account`: writing the balance of an absent creature fails. -/
def storeAccount (creatureId : String) (balance : Int64) : Result Wallets :=
  match w.balances.get creatureId with
  | none => .error (.port .notFound)
  | some _ => .ok (w.putBalance creatureId balance)

end Wallets

/-! ## The ledger -/

structure Ledger where
  wallets : Wallets
  holds : Store String Hold
  pools : Store String Pool
  reservations : Store String Reservation
  liveDebits : Store String LiveDebit
  budgets : Store String ProjectBudget
  payouts : Store String Payout
  quotes : Store String Map
  markers : Store String String
  journals : Store String Journal

/-- The creatures of a node with the balances they start with: an identifier is never empty, a
balance never negative. -/
structure Creatures where
  balances : Store String Int64
  named : balances.get "" = none
  nonneg : ∀ e ∈ balances.toList, 0 ≤ e.2.toInt

namespace Ledger

/-- A ledger where nothing has happened: the creatures with their balances, and nothing else. -/
def initial (creatures : Creatures) : Ledger where
  wallets := { balances := creatures.balances, accounts := ∅ }
  holds := ∅
  pools := ∅
  reservations := ∅
  liveDebits := ∅
  budgets := ∅
  payouts := ∅
  quotes := ∅
  markers := ∅
  journals := ∅

variable (s : Ledger)

def marker (m : FinanceMarker) : String := (s.markers.get (markerKey m)).getD ""

@[simp] def putMarker (m : FinanceMarker) (value : String) : Ledger :=
  { s with markers := s.markers.put (markerKey m) value }

def getHold (holdId : String) : Result Hold := okOr (s.holds.get holdId) (denied "hold not found")

@[simp] def putHold (holdId : String) (hold : Hold) : Ledger :=
  { s with holds := s.holds.put holdId hold }

def getPool (poolId : String) : Result Pool := okOr (s.pools.get poolId) (denied "pool not found")

@[simp] def putPool (poolId : String) (pool : Pool) : Ledger :=
  { s with pools := s.pools.put poolId pool }

def getReservation (runId : String) : Result Reservation :=
  okOr (s.reservations.get runId) (denied "run reservation not found")

@[simp] def putReservation (runId : String) (reservation : Reservation) : Ledger :=
  { s with reservations := s.reservations.put runId reservation }

@[simp] def putLiveDebit (runId : String) (record : LiveDebit) : Ledger :=
  { s with liveDebits := s.liveDebits.put runId record }

def getPayout (payoutId : String) : Result Payout :=
  okOr (s.payouts.get payoutId) (denied "payout not found")

@[simp] def putPayout (payoutId : String) (payout : Payout) : Ledger :=
  { s with payouts := s.payouts.put payoutId payout }

def billingQuote (quoteId : String) : Result Map :=
  okOr (s.quotes.get quoteId) (denied "billing quote not found")

/-- `write_journal`: the record is indexed once under each participant that is not empty. -/
@[simp] def writeJournal (ports : Ports) (kind holdId payerId : String) (payload : Value)
    (participants : List String) : Ledger :=
  let entry : Journal :=
    { journalId := ports.genJournalId, kind, holdId, payerUserId := payerId,
      createdAt := ports.now, payload,
      participants := (participants.filter (· ≠ "")).eraseDups }
  { s with journals := s.journals.put ports.genJournalId entry }

end Ledger

/-- One line of a journal record's `entries`. -/
def entry (account : String) (amount : Int64) : Value :=
  obj [("account", .string account), ("amount", .ofI64 amount)]

/-! ## Project budgets -/

/-- The check on every stored or configured budget figure. -/
def nonnegativeBudgetField (field : String) (amount : Int64) : Result Int64 :=
  if amount < 0 then .error (denied ("invalid project budget field: " ++ field)) else .ok amount

/-- `finance_nonnegative_field`: an absent figure is zero. -/
def financeNonnegativeField (map : Map) (field : String) : Result Int64 :=
  match map.get field with
  | none => .ok 0
  | some value =>
    match asI64 value with
    | none => .error (denied ("invalid project budget field: " ++ field))
    | some amount => nonnegativeBudgetField field amount

def reserveProjectBudget (projectId : String) (amount : Int64) (s : Ledger) : Result Ledger :=
  if projectId = "" then .ok s
  else do
    ensure (ports.store projectId = true) (denied "project not found")
    let metadata := (ports.storeMetadataObject projectId).getD []
    let configuredBudget ← financeNonnegativeField metadata "budgetMinor"
    let metadataSpent ← financeNonnegativeField metadata "spentMinor"
    let state := s.budgets.get projectId
    let ledgerSpent ← nonnegativeBudgetField "spentMinor" ((state.map (·.spentMinor)).getD 0)
    let spent := max ledgerSpent metadataSpent
    let reserved ← nonnegativeBudgetField "reservedMinor" ((state.map (·.reservedMinor)).getD 0)
    let committed ← okOr ((checkedAdd spent reserved).bind (checkedAdd · amount))
      (denied "project budget overflow")
    ensure (¬ (configuredBudget > 0 ∧ committed > configuredBudget))
      (denied "project budget exceeded")
    let reservedMinor ← okOr (checkedAdd reserved amount) (denied "project reservation overflow")
    let state' : ProjectBudget :=
      { projectId, budgetMinor := configuredBudget, spentMinor := spent, reservedMinor,
        updatedAt := ports.now }
    pure { s with budgets := s.budgets.put projectId state' }

def finalizeProjectBudget (projectId : String)
    (reservedAmount spentAmount : Int64) (s : Ledger) : Result Ledger :=
  if projectId = "" then .ok s
  else do
    let state ← okOr (s.budgets.get projectId) (denied "project budget reservation not found")
    let reserved ← nonnegativeBudgetField "reservedMinor" state.reservedMinor
    let spent ← nonnegativeBudgetField "spentMinor" state.spentMinor
    let remaining ← okOr (checkedSub reserved reservedAmount)
      (denied "project budget reservation underflow")
    let totalSpent ← okOr (checkedAdd spent spentAmount) (denied "project spend overflow")
    let state' : ProjectBudget :=
      { state with reservedMinor := remaining, spentMinor := totalSpent, updatedAt := ports.now }
    pure { s with budgets := s.budgets.put projectId state' }

variable {amount : Int64}

theorem nonnegativeBudgetField_eq_ok {field x} :
    nonnegativeBudgetField field amount = .ok x ↔ x = amount ∧ 0 ≤ amount.toInt := by
  unfold nonnegativeBudgetField
  rw [← not_neg_iff_toInt]
  split
  · next h => simp [h]
  · next h => simp [h, eq_comm]

def reservedMinor (budgets : Store String ProjectBudget) (projectId : String) : ℤ :=
  ((budgets.get projectId).map (·.reservedMinor.toInt)).getD 0

/-- What reserving and finalizing do to the budgets: the project's reserved figure moves by `d`;
for the empty project id nothing happens. -/
inductive BudgetMoved (projectId : String) (d : ℤ) (budgets : Store String ProjectBudget) :
    Store String ProjectBudget → Prop
  | none (hempty : projectId = "") : BudgetMoved projectId d budgets budgets
  | put (b : ProjectBudget) (hne : projectId ≠ "")
      (hreserved : b.reservedMinor.toInt = reservedMinor budgets projectId + d)
      (hspent : 0 ≤ b.spentMinor.toInt) :
      BudgetMoved projectId d budgets (budgets.put projectId b)

variable {ports : Ports} {projectId : String} {s s' : Ledger}

theorem reserveProjectBudget_ok (h : reserveProjectBudget ports projectId amount s = .ok s') :
    s' = { s with budgets := s'.budgets } ∧
      BudgetMoved projectId amount.toInt s.budgets s'.budgets := by
  unfold reserveProjectBudget at h
  split at h
  · next hempty =>
    cases h
    exact ⟨rfl, .none hempty⟩
  · next hne =>
    simp only [bind_eq_ok, ensure_eq_ok, okOr_eq_ok, pure_eq_ok, exists_const,
      nonnegativeBudgetField_eq_ok, checkedAdd_eq_some] at h
    obtain ⟨-, budget, -, metaSpent, -, spent, ⟨rfl, hspent⟩, reserved, ⟨rfl, -⟩, -, -, -, next,
      hnext, rfl⟩ := h
    refine ⟨rfl, .put _ hne ?_ ?_⟩
    · rw [hnext, reservedMinor]
      cases s.budgets.get projectId <;> rfl
    · rw [toInt_max]
      exact le_max_of_le_left hspent

theorem finalizeProjectBudget_ok {reservedAmount spentAmount} (hnonneg : 0 ≤ spentAmount.toInt)
    (h : finalizeProjectBudget ports projectId reservedAmount spentAmount s = .ok s') :
    s' = { s with budgets := s'.budgets } ∧
      BudgetMoved projectId (-reservedAmount.toInt) s.budgets s'.budgets := by
  unfold finalizeProjectBudget at h
  split at h
  · next hempty =>
    cases h
    exact ⟨rfl, .none hempty⟩
  · next hne =>
    simp only [bind_eq_ok, okOr_eq_ok, pure_eq_ok, nonnegativeBudgetField_eq_ok,
      checkedAdd_eq_some, checkedSub_eq_some] at h
    obtain ⟨state, hstate, reserved, ⟨rfl, -⟩, spent, ⟨rfl, hspent⟩, remaining, hremaining,
      total, htotal, rfl⟩ := h
    refine ⟨rfl, .put _ hne ?_ ?_⟩
    · simp only [hremaining, reservedMinor, hstate]
      rfl
    · simp only [htotal]
      omega

/-- What a project has spent and reserved; nothing when it has no budget document. -/
def committedMinor (budgets : Store String ProjectBudget) (projectId : String) : ℤ :=
  (budgets.get projectId).elim 0 fun b => b.spentMinor.toInt + b.reservedMinor.toInt

/-- A reservation stays within the budget that the project's metadata configures. -/
theorem reserveProjectBudget_within {limit}
    (h : reserveProjectBudget ports projectId amount s = .ok s') (hne : projectId ≠ "")
    (hlimit : financeNonnegativeField ((ports.storeMetadataObject projectId).getD []) "budgetMinor" =
      .ok limit) (hpos : 0 < limit.toInt) : committedMinor s'.budgets projectId ≤ limit.toInt := by
  rw [reserveProjectBudget, if_neg hne] at h
  simp only [bind_eq_ok, ensure_eq_ok, okOr_eq_ok, pure_eq_ok, exists_const,
    nonnegativeBudgetField_eq_ok, checkedAdd_eq_some, Option.bind_eq_some_iff, hlimit,
    Except.ok.injEq, exists_eq_left'] at h
  obtain ⟨-, metaSpent, -, spent, ⟨rfl, -⟩, reserved, ⟨rfl, -⟩, committed,
    ⟨sum, hsum, hcommitted⟩, hwithin, next, hnext, rfl⟩ := h
  have hle : ¬ limit < committed := fun hover => hwithin ⟨Int64.lt_iff_toInt_lt.mpr hpos, hover⟩
  rw [not_lt_iff_toInt] at hle
  simp only [committedMinor, Store.get_put_self, Option.elim_some]
  omega

theorem finalizeProjectBudget_committed {reservedAmount spentAmount}
    (h : finalizeProjectBudget ports projectId reservedAmount spentAmount s = .ok s')
    (hne : projectId ≠ "") :
    committedMinor s'.budgets projectId =
      committedMinor s.budgets projectId + (spentAmount.toInt - reservedAmount.toInt) := by
  rw [finalizeProjectBudget, if_neg hne] at h
  simp only [bind_eq_ok, okOr_eq_ok, pure_eq_ok, nonnegativeBudgetField_eq_ok,
    checkedAdd_eq_some, checkedSub_eq_some] at h
  obtain ⟨state, hstate, reserved, ⟨rfl, -⟩, spent, ⟨rfl, -⟩, remaining, hremaining, total, htotal,
    rfl⟩ := h
  simp only [committedMinor, Store.get_put_self, hstate, Option.elim_some]
  omega

/-! ## Replies -/

structure AccountSnapshot where
  userId : String
  availableMinor : Int64
  heldMinor : Int64
  debtMinor : Int64
  withdrawableMinor : Int64
  payoutHeldMinor : Int64
  earnedMinor : Int64
  spentMinor : Int64
  activeHolds : List Hold
  pool : Option Pool
  transactions : List Journal
  payouts : List Payout

/-- What a use case returns; `applied` is false on a replay. -/
inductive Reply where
  | hold (applied : Bool) (hold : Hold) (journalId : Option String)
  | payout (applied : Bool) (payout : Payout) (journalId : Option String)
  | pool (applied : Bool) (pool : Pool) (journalId : Option String)
  | reservation (applied : Bool) (reservation : Reservation) (journalId : Option String)
  | poolSettled (actualAmount refundedToPool : Int64) (journalId : String)
  | poolReleased (amount : Int64) (journalId : String)
  | poolDebitReplay (remaining : Int64)
  | poolExhausted (remaining : Int64)
  | poolDebited (charged remaining : Int64) (journalId : String)
  | adjustment (applied : Bool) (journalId : String) (account : AccountSnapshot)
  | transferred (amount : Int64) (toUserId : String) (debtRepaid : Int64) (journalId : String)
  | mintReplay (previous : String)
  | minted (balance walletCredit debtRepaid debt : Int64) (journalId : String)
  | quote (alreadyPublished : Bool) (quote : Map)

/-- Whether the reply says that the operation took effect now. -/
def Reply.applied : Reply → Bool
  | .hold applied .. | .payout applied .. | .pool applied .. | .reservation applied ..
  | .adjustment applied .. => applied
  | .poolSettled .. | .poolReleased .. | .poolDebited .. | .transferred .. | .minted .. => true
  | .poolDebitReplay .. | .poolExhausted .. | .mintReplay .. => false
  | .quote alreadyPublished _ => !alreadyPublished

/-- The newest `limit` keys of a listing: by creation time, then by key, both descending. -/
def newestKeys (rows : List (String × Int64)) (limit : Nat) : List String :=
  ((rows.insertionSort fun a b => b.2 < a.2 ∨ (a.2 = b.2 ∧ b.1 ≤ a.1)).take limit).map Prod.fst

def descending (keys : List String) : List String := keys.insertionSort (fun a b => b ≤ a)

def financePayoutRecords (s : Ledger) (userId : String) (limit : Nat) : List Payout :=
  let rows := (s.payouts.toList.filter (·.2.userId = userId)).map fun e => (e.1, e.2.createdAt)
  ((descending (newestKeys rows limit)).take limit).filterMap s.payouts.get

def financialAccountSnapshot (s : Ledger) (userId : String) (limit : Nat) :
    Result AccountSnapshot := do
  let balance ← okOr (s.wallets.account userId) (denied "financial account not found")
  let journalRows := (s.journals.toList.filter (userId ∈ ·.2.participants)).map
    fun e => (e.1, e.2.createdAt)
  let holdRows := (s.holds.toList.filter (·.2.payerUserId = userId)).map
    fun e => (e.1, e.2.createdAt)
  let holds := ((descending (newestKeys holdRows 100)).take 100).filterMap s.holds.get
  let pool := (((s.wallets.accounts.get userId).bind (·.poolRef)).filter (· ≠ "")).bind s.pools.get
  let heldMinor ← s.wallets.counter .held userId
  let debtMinor ← s.wallets.counter .debt userId
  let withdrawableMinor ← s.wallets.counter .withdrawable userId
  let payoutHeldMinor ← s.wallets.counter .payoutHeld userId
  let earnedMinor ← s.wallets.counter .earned userId
  let spentMinor ← s.wallets.counter .spent userId
  pure
    { userId, availableMinor := balance, heldMinor, debtMinor, withdrawableMinor,
      payoutHeldMinor, earnedMinor, spentMinor,
      activeHolds := holds.filter (·.status.active),
      pool := pool.filter (·.status = .opened),
      transactions :=
        ((descending (newestKeys journalRows limit)).take limit).filterMap s.journals.get,
      payouts := financePayoutRecords s userId limit }

end Aseman.Finance
