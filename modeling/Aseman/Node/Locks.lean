import Aseman.Finance.Postings

/-!
# Token locks

A payer locks part of its balance for a payee, as one amount or as a schedule of steps, and the
payee consumes the steps one by one, each from its `unlockAt` on and on the payer's signature. A
lock is a JSON document under its owner and its identifier; the two operations read and write it
as such.

Neither operation knows of the finance counters: what they do to the wallets is one posting on an
available balance.
-/

namespace Aseman.Node

open Json Finance
open Book (post post_apply)

/-! ## The store of locks -/

def lockKey (owner lockId : String) : String := owner ++ "::" ++ lockId

/-- The lock documents by their keys. -/
abbrev TokenLocks := Store String Map

variable (locks : TokenLocks) (owner lockId : String)

/-- `token_locks::lock`. -/
def TokenLocks.lock : Option Map := locks.get (lockKey owner lockId)

/-- `token_locks::put_lock` with `merge`: the document is merged into the stored one. -/
def TokenLocks.putLock (document : Map) : TokenLocks :=
  locks.put (lockKey owner lockId) (mergeObjects ((locks.lock owner lockId).getD []) document)

/-- `token_locks::delete_lock`. -/
def TokenLocks.deleteLock : TokenLocks := locks.erase (lockKey owner lockId)

/-- What the two operations see of the node besides its state. -/
structure LockPorts where
  /-- `Utc::now().timestamp_millis()`. -/
  now : Int64
  /-- `secure_unique_string()`. -/
  lockId : String
  /-- The verdict of `auth_with_signature` on a user, a text and a signature. -/
  authWithSignature : String → String → String → Bool

/-- `account_or_empty`: an absent creature reads as one with an empty wallet. -/
def accountOrEmpty (w : Wallets) (userId : String) : Int64 := (w.account userId).getD 0

theorem toInt_accountOrEmpty (w : Wallets) (userId : String) :
    (accountOrEmpty w userId).toInt = w.amount (userId, .available) := rfl

/-- `store_account`; an absent creature is its only failure. -/
def storeAccount (w : Wallets) (userId : String) (balance : Int64) : Except String Wallets :=
  okOr (w.storeAccount userId balance).toOption "not found"

/-! ## lock_token -/

structure LockTokenStepInput where
  amount : Int64
  unlockAt : Int64

structure LockTokenInput where
  amount : Int64 := 0
  type : String
  target : String
  unlockAt : Int64 := 0
  steps : List LockTokenStepInput := []

/-- The document of a step that is not consumed yet. -/
def stepJson (amount unlockAt : Int64) : Value :=
  obj [("amount", .ofI64 amount), ("unlockAt", .ofI64 unlockAt), ("consumed", .bool false)]

/-- One round of the loop over the steps of a schedule. -/
def lockStep (step : LockTokenStepInput × Nat) : Except String Value := do
  ensure (¬ step.1.amount ≤ 0) ("step " ++ toString step.2 ++ " amount must be greater than zero")
  ensure (¬ step.1.unlockAt ≤ 0)
    ("step " ++ toString step.2 ++ " unlockAt must be a unix timestamp in milliseconds")
  pure (stepJson step.1.amount step.1.unlockAt)

/-- The steps of a lock: the schedule, or the one amount as a schedule of one step. -/
def lockSteps (input : LockTokenInput) : Except String (List Value) :=
  if input.steps = [] then do
    ensure (¬ input.amount ≤ 0) "amount must be greater than zero"
    ensure (¬ input.unlockAt ≤ 0) "unlockAt must be a unix timestamp in milliseconds"
    pure [stepJson input.amount input.unlockAt]
  else input.steps.zipIdx.mapM lockStep

def lockJson (total : Int64) (target : String) (steps : List Value) : Map :=
  Map.ofList [("type", .string "pay"), ("amount", .ofI64 total), ("remainingAmount", .ofI64 total),
    ("userId", .string target), ("steps", .array steps)]

def stepAmount (step : Value) : Int64 := ((step.get "amount").bind Value.asI64).getD 0

def lockToken (ports : LockPorts) (userId : String) (input : LockTokenInput) (w : Wallets)
    (locks : TokenLocks) : Except String (String × Wallets × TokenLocks) := do
  let balance := accountOrEmpty w userId
  let steps ← lockSteps input
  let total ← steps.foldlM
    (fun total step => okOr (checkedAdd total (stepAmount step)) "lock amount overflow") 0
  ensure (¬ balance < total) "your balance is not enough"
  ensure (input.type = "pay") "unknown lock type"
  ensure ((w.account input.target).isSome) "target user not acceptable"
  let balance' ← okOr (checkedSub balance total) "balance underflow"
  let w ← storeAccount w userId balance'
  pure (ports.lockId, w, locks.putLock userId ports.lockId (lockJson total input.target steps))

/-- What a lock takes out of the wallet. -/
def LockTokenInput.total (input : LockTokenInput) : ℤ :=
  if input.steps = [] then input.amount.toInt else (input.steps.map (·.amount.toInt)).sum

@[simp] theorem stepAmount_stepJson (amount unlockAt : Int64) :
    stepAmount (stepJson amount unlockAt) = amount := by
  simp [stepAmount, stepJson, obj, Value.get, Value.asObject, Map.ofList, Map.get_insert]

/-- The steps written for a schedule carry its amounts, all of them positive. -/
theorem mapM_lockStep_ok {l : List LockTokenStepInput} {i : ℕ} {steps : List Value}
    (h : (l.zipIdx i).mapM lockStep = .ok steps) :
    steps.map stepAmount = l.map (·.amount) ∧ ∀ step ∈ l, 0 < step.amount.toInt := by
  induction l generalizing i steps with
  | nil =>
    simp only [List.zipIdx_nil, List.mapM_nil, pure_eq_ok] at h
    simp [← h]
  | cons step l ih =>
    simp only [List.zipIdx_cons, List.mapM_cons, lockStep, bind_eq_ok, ensure_eq_ok, pure_eq_ok,
      exists_const, not_nonpos_iff_toInt] at h
    obtain ⟨_, ⟨hpos, -, rfl⟩, rest, hrest, rfl⟩ := h
    obtain ⟨hamounts, hall⟩ := ih hrest
    exact ⟨by simp [hamounts], List.forall_mem_cons.mpr ⟨hpos, hall⟩⟩

theorem lockSteps_ok {input : LockTokenInput} {steps : List Value}
    (h : lockSteps input = .ok steps) :
    (steps.map fun step => (stepAmount step).toInt).sum = input.total ∧ 0 < input.total := by
  unfold lockSteps at h
  split at h
  · next hnil =>
    simp only [bind_eq_ok, ensure_eq_ok, pure_eq_ok, exists_const, not_nonpos_iff_toInt] at h
    obtain ⟨hpos, -, rfl⟩ := h
    simpa [LockTokenInput.total, hnil] using hpos
  · next hne =>
    obtain ⟨hamounts, hall⟩ := mapM_lockStep_ok h
    simp only [LockTokenInput.total, hne, if_false]
    refine ⟨?_, List.sum_pos _ ?_ (by simpa using hne)⟩
    · simpa [Function.comp_def] using congrArg (fun l => (l.map Int64.toInt).sum) hamounts
    · simpa using hall

theorem storeAccount_ok {w w' userId balance d} (h : storeAccount w userId balance = .ok w')
    (hd : balance.toInt = (accountOrEmpty w userId).toInt + d) :
    Posted w w' (post (userId, .available) d) := by
  simp only [storeAccount, okOr_eq_ok] at h
  cases hstore : w.storeAccount userId balance with
  | error e => simp [hstore, Except.toOption] at h
  | ok w'' =>
    simp only [hstore, Except.toOption, Option.some.injEq] at h
    subst h
    exact Posted.of_storeAccount hstore (by rw [hd, toInt_accountOrEmpty])

structure LockTokenApplied (ports : LockPorts) (userId : String) (input : LockTokenInput)
    (w : Wallets) (locks : TokenLocks) (id : String) (w' : Wallets) (locks' : TokenLocks) where
  steps : List Value
  total : Int64
  steps_eq : lockSteps input = .ok steps
  total_eq : total.toInt = input.total
  positive : 0 < input.total
  covered : input.total ≤ w.amount (userId, .available)
  target : (w.account input.target).isSome
  posted : Posted w w' (post (userId, .available) (-input.total))
  reply : id = ports.lockId
  locks_eq : locks' = locks.putLock userId ports.lockId (lockJson total input.target steps)

theorem lockToken_ok {ports userId input w w' locks locks' id}
    (h : lockToken ports userId input w locks = .ok (id, w', locks')) :
    Nonempty (LockTokenApplied ports userId input w locks id w' locks') := by
  simp only [lockToken, bind_eq_ok, ensure_eq_ok, okOr_eq_ok, pure_eq_ok, exists_const,
    not_lt_iff_toInt, checkedSub_eq_some, Prod.mk.injEq] at h
  obtain ⟨steps, hsteps, total, hfold, hle, -, htarget, balance', hbal', w₁, hstore, rfl, rfl,
    rfl⟩ := h
  obtain ⟨hsum, hpos⟩ := lockSteps_ok hsteps
  have htotal : total.toInt = input.total := by
    rw [← hsum]
    refine foldlM_induct (fun total done =>
      total.toInt = (done.map fun step => (stepAmount step).toInt).sum) ?_ rfl hfold
    intro total done step total' ih hstep
    rw [okOr_eq_ok, checkedAdd_eq_some] at hstep
    simp [hstep, ih]
  exact ⟨{
    steps, total
    steps_eq := hsteps
    total_eq := htotal
    positive := hpos
    covered := by rw [← htotal]; exact hle
    target := htarget
    posted := storeAccount_ok hstore (by omega)
    reply := rfl
    locks_eq := rfl }⟩

/-! ## consume_lock -/

structure ConsumeLockInput where
  type : String
  userId : String
  lockId : String
  signature : String
  amount : Int64
  step : Option Int64 := none

structure LockStep where
  step : Map
  amount : Int64
  unlockAt : Int64

def LockStep.consumed (s : LockStep) : Bool := ((s.step.get "consumed").bind Value.asBool).getD false

/-- The index of the selected step, `-1` for none yet, and the steps read so far. -/
structure StepScan where
  index : ℤ
  steps : List LockStep := []

/-- One round of the loop over the steps: without a selection, the first step of the given amount
that can be consumed now is selected. -/
def scanStep (now amount : Int64) (scan : StepScan) (raw : Value) : Except String StepScan := do
  let step ← okOr raw.asObject "invalid lock step"
  let s : LockStep :=
    { step, amount := ((step.get "amount").bind asI64).getD 0,
      unlockAt := ((step.get "unlockAt").bind asI64).getD 0 }
  ensure (¬ s.amount ≤ 0) "invalid lock step amount"
  ensure (¬ s.unlockAt ≤ 0) "invalid lock step unlockAt"
  pure
    { index := if scan.index = -1 ∧ ¬ s.consumed ∧ now ≥ s.unlockAt ∧ s.amount = amount
        then scan.steps.length else scan.index,
      steps := scan.steps ++ [s] }

def StepScan.selected (scan : StepScan) : Option LockStep :=
  if scan.index < 0 then none else scan.steps[scan.index.toNat]?

/-- The text a payer signs to let its payee consume a step. -/
def stepText (lockId : String) (index : Nat) (s : LockStep) (payee : String) : String :=
  lockId ++ ":" ++ toString index ++ ":" ++ toString s.unlockAt.toInt ++ ":" ++
    toString s.amount.toInt ++ ":" ++ payee

def LockStep.consume (s : LockStep) (now : Int64) : LockStep :=
  { s with step := (s.step.insert "consumed" (.bool true)).insert "consumedAt" (.ofI64 now) }

/-- The sum of the steps that are not consumed. -/
def remainingAmount (steps : List LockStep) : Except String Int64 :=
  steps.foldlM (fun remaining s =>
    if s.consumed then pure remaining
    else okOr (checkedAdd remaining s.amount) "remaining lock amount overflow") 0

/-- What is left of a lock: nothing once its last step is consumed. -/
def storeRemaining (payment : Map)
    (steps : List LockStep) (remaining : Int64) : Except String TokenLocks :=
  if remaining = 0 then pure (locks.deleteLock owner lockId)
  else do
    let total := ((payment.get "amount").bind asI64).getD 0
    ensure (¬ total ≤ 0) "invalid lock total amount"
    pure (locks.putLock owner lockId
      (((payment.insert "steps" (.array (steps.map fun s => .object s.step))).insert
        "remainingAmount" (.ofI64 remaining)).insert
        "consumedAmount" (.ofI64 (total - remaining))))

/-- `consume_lock`; it returns the index of the step and what remains of the lock. -/
def consumeLock (ports : LockPorts) (userId : String) (input : ConsumeLockInput) (w : Wallets)
    (locks : TokenLocks) : Except String ((Nat × Int64) × Wallets × TokenLocks) := do
  let balance := accountOrEmpty w userId
  ensure (input.type = "pay") "unknown lock type"
  ensure ((w.account input.userId).isSome) "payer user not found"
  let payment ← okOr (locks.lock input.userId input.lockId) "lock not found"
  let stepsRaw ← okOr (((payment.get "steps").bind Value.asArray).filter (· ≠ []))
    "lock does not include steps"
  let scan ← stepsRaw.foldlM (scanStep ports.now input.amount)
    { index := (input.step.map (·.toInt)).getD (-1) }
  let step ← okOr scan.selected "lock step not found"
  let index := scan.index.toNat
  ensure (¬ ports.now < step.unlockAt) "lock step is not consumable yet"
  ensure (¬ step.consumed) "lock step already consumed"
  ensure (input.amount = step.amount) "amount of payment not matched"
  ensure (ports.authWithSignature input.userId (stepText input.lockId index step userId)
    input.signature) "signature not verified"
  ensure ((payment.get "type").bind Value.asStr = some "pay") "type is not payment"
  ensure ((payment.get "userId").bind Value.asStr = some userId) "you are not target"
  let steps := scan.steps.set index (step.consume ports.now)
  let balance' ← okOr (checkedAdd balance input.amount) "receiver balance overflow"
  let w ← storeAccount w userId balance'
  let remaining ← remainingAmount steps
  let locks ← storeRemaining locks input.userId input.lockId payment steps remaining
  pure ((index, remaining), w, locks)

theorem scanStep_ok {now amount scan scan' raw} (h : scanStep now amount scan raw = .ok scan') :
    ∃ s : LockStep, 0 < s.amount.toInt ∧ scan'.steps = scan.steps ++ [s] := by
  simp only [scanStep, bind_eq_ok, ensure_eq_ok, okOr_eq_ok, pure_eq_ok, exists_const,
    not_nonpos_iff_toInt] at h
  obtain ⟨step, -, hpos, -, rfl⟩ := h
  exact ⟨⟨step, _, _⟩, hpos, rfl⟩

theorem StepScan.selected_mem {scan : StepScan} {s : LockStep} (h : scan.selected = some s) :
    s ∈ scan.steps := by
  unfold selected at h
  split at h
  · cases h
  · exact List.mem_of_getElem? h

structure ConsumeLockApplied (userId : String) (input : ConsumeLockInput) (w w' : Wallets) :
    Prop where
  positive : 0 < input.amount.toInt
  posted : Posted w w' (post (userId, .available) input.amount.toInt)

theorem consumeLock_ok {ports : LockPorts} {userId : String} {input : ConsumeLockInput}
    {w w' : Wallets} {locks locks' : TokenLocks} {r : Nat × Int64}
    (h : consumeLock ports userId input w locks = .ok (r, w', locks')) :
    ConsumeLockApplied userId input w w' := by
  simp only [consumeLock, bind_eq_ok, ensure_eq_ok, okOr_eq_ok, pure_eq_ok, exists_const,
    checkedAdd_eq_some, Prod.mk.injEq] at h
  obtain ⟨-, -, payment, -, raws, -, scan, hscan, step, hstep, -, -, hamount, -, -, -, balance',
    hbal', w₁, hstore, remaining, -, locks₁, -, -, rfl, -⟩ := h
  have hpositive : ∀ s ∈ scan.steps, 0 < s.amount.toInt := by
    refine foldlM_invariant (fun scan => ∀ s ∈ scan.steps, 0 < s.amount.toInt) ?_ (by simp) hscan
    intro scan raw scan' _ ih hraw
    obtain ⟨s, hpos, hsteps⟩ := scanStep_ok hraw
    simpa [hsteps, or_imp, forall_and] using ⟨ih, hpos⟩
  refine ⟨?_, storeAccount_ok hstore hbal'⟩
  rw [hamount]
  exact hpositive step (StepScan.selected_mem hstep)

end Aseman.Node
