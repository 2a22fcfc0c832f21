import Aseman.Node.Runs

/-!
# Token locks as an escrow

A lock takes money out of its payer's balance and gives it to its payee step by step. Read as a
`Lock`, a document is a payee and a schedule of steps, each consumed or not; `lock_token` writes a
schedule with no step consumed, and `consume_lock` consumes one step of it or removes the document
when that was the last one. The document is written by a deep merge and its steps are JSON, so this
reading is what has to be kept: the merge replaces the array of steps and leaves the rest of the
document as it was.
-/

namespace Aseman.Node

open Json Finance
open Book (post post_apply)

/-! ## What a lock document says -/

structure ScheduledStep where
  amount : Int64
  unlockAt : Int64
  consumed : Bool
  deriving DecidableEq

/-- A payee and the schedule by which it is paid. -/
structure Lock where
  payee : String
  steps : List ScheduledStep
  deriving DecidableEq

def ScheduledStep.read (raw : Value) : ScheduledStep where
  amount := ((raw.get "amount").bind asI64).getD 0
  unlockAt := ((raw.get "unlockAt").bind asI64).getD 0
  consumed := ((raw.get "consumed").bind Value.asBool).getD false

def Lock.read (doc : Map) : Lock where
  payee := ((doc.get "userId").bind Value.asStr).getD ""
  steps := (((doc.get "steps").bind Value.asArray).getD []).map ScheduledStep.read

namespace ScheduledStep

def locked (s : ScheduledStep) : ℤ := if s.consumed then 0 else s.amount.toInt

def consume (s : ScheduledStep) : ScheduledStep := { s with consumed := true }

end ScheduledStep

namespace Lock

def locked (l : Lock) : ℤ := (l.steps.map ScheduledStep.locked).sum

def consume (l : Lock) (i : Nat) : Lock := { l with steps := l.steps.modify i .consume }

def spent (l : Lock) : Bool := l.steps.all (·.consumed)

/-- What never changes of a lock: its payee, and the amounts and times of its steps. -/
def terms (l : Lock) : String × List (Int64 × Int64) :=
  (l.payee, l.steps.map fun s => (s.amount, s.unlockAt))

theorem terms_consume (l : Lock) (i : Nat) : (l.consume i).terms = l.terms := by
  have h : ∀ (steps : List ScheduledStep) (i : Nat),
      (steps.modify i .consume).map (fun s => (s.amount, s.unlockAt)) =
        steps.map fun s => (s.amount, s.unlockAt) := by
    intro steps
    induction steps with
    | nil => simp
    | cons s steps ih =>
      intro i
      cases i with
      | zero => rfl
      | succ i => simpa using ih i
  simp only [terms, consume, h]

variable {l : Lock}

theorem locked_consume {i s} (hget : l.steps[i]? = some s) (hs : s.consumed = false) :
    (l.consume i).locked = l.locked - s.amount.toInt := by
  have h : ∀ (steps : List ScheduledStep) (i : Nat), steps[i]? = some s →
      ((steps.modify i .consume).map ScheduledStep.locked).sum =
        (steps.map ScheduledStep.locked).sum - s.amount.toInt := by
    intro steps
    induction steps with
    | nil => simp
    | cons s' steps ih =>
      intro i hget
      cases i with
      | zero =>
        simp only [List.getElem?_cons_zero, Option.some.injEq] at hget
        subst hget
        simp [ScheduledStep.locked, ScheduledStep.consume, hs]
      | succ i =>
        have hrest := ih i hget
        simp only [List.modify_succ_cons, List.map_cons, List.sum_cons, hrest]
        ring
  exact h l.steps i hget

theorem locked_of_spent (h : l.spent = true) : l.locked = 0 := by
  rw [spent, List.all_eq_true] at h
  refine List.sum_eq_zero fun x hx => ?_
  obtain ⟨s, hs, rfl⟩ := List.mem_map.mp hx
  exact if_pos (h s hs)

theorem spent_iff_locked (hpos : ∀ s ∈ l.steps, 0 < s.amount.toInt) :
    l.spent = true ↔ l.locked = 0 := by
  have hnonneg : ∀ s ∈ l.steps, 0 ≤ s.locked := by
    intro s hs
    have := hpos s hs
    unfold ScheduledStep.locked
    split <;> omega
  have hzero : ∀ s ∈ l.steps, (s.locked = 0 ↔ s.consumed = true) := by
    intro s hs
    have := hpos s hs
    unfold ScheduledStep.locked
    split
    · next hc => simp [hc]
    · next hc => simp [hc]; omega
  rw [spent, locked, List.all_eq_true]
  generalize l.steps = steps at hnonneg hzero
  induction steps with
  | nil => simp
  | cons s steps ih =>
    simp only [List.mem_cons, forall_eq_or_imp] at hnonneg hzero
    have hrest := ih hnonneg.2 hzero.2
    have hsum : 0 ≤ (steps.map ScheduledStep.locked).sum := by
      refine List.sum_nonneg fun x hx => ?_
      obtain ⟨s', hs', rfl⟩ := List.mem_map.mp hx
      exact hnonneg.2 s' hs'
    simp only [List.mem_cons, forall_eq_or_imp, hrest, ← hzero.1, List.map_cons, List.sum_cons]
    omega

end Lock

/-! ## Locking -/

def LockTokenInput.schedule (input : LockTokenInput) : List ScheduledStep :=
  if input.steps = [] then [⟨input.amount, input.unlockAt, false⟩]
  else input.steps.map fun step => ⟨step.amount, step.unlockAt, false⟩

@[simp] theorem ScheduledStep.read_stepJson (amount unlockAt : Int64) :
    read (stepJson amount unlockAt) = ⟨amount, unlockAt, false⟩ := by
  simp [read, stepJson, obj, Value.get, Value.asObject, Map.ofList, Map.get_insert, Value.asBool]

variable {steps : List Value}

theorem read_mapM_lockStep {l : List LockTokenStepInput} {i : ℕ}
    (h : (l.zipIdx i).mapM lockStep = .ok steps) :
    steps.map ScheduledStep.read = l.map fun step => ⟨step.amount, step.unlockAt, false⟩ := by
  induction l generalizing i steps with
  | nil =>
    simp only [List.zipIdx_nil, List.mapM_nil, pure_eq_ok] at h
    simp [← h]
  | cons step l ih =>
    simp only [List.zipIdx_cons, List.mapM_cons, lockStep, bind_eq_ok, ensure_eq_ok, pure_eq_ok,
      exists_const] at h
    obtain ⟨_, ⟨-, -, rfl⟩, rest, hrest, rfl⟩ := h
    simp [ih hrest]

variable {input : LockTokenInput}

theorem read_lockSteps (h : lockSteps input = .ok steps) :
    steps.map ScheduledStep.read = input.schedule := by
  unfold lockSteps at h
  unfold LockTokenInput.schedule
  split at h
  · next hnil =>
    simp only [bind_eq_ok, ensure_eq_ok, pure_eq_ok, exists_const] at h
    obtain ⟨-, -, rfl⟩ := h
    simp [hnil]
  · next hne =>
    rw [if_neg hne]
    exact read_mapM_lockStep h

theorem sum_schedule (input : LockTokenInput) :
    (input.schedule.map ScheduledStep.locked).sum = input.total := by
  unfold LockTokenInput.schedule LockTokenInput.total
  split
  · simp [ScheduledStep.locked]
  · simp [ScheduledStep.locked, Function.comp_def]

theorem read_lockJson (h : lockSteps input = .ok steps) (total : Int64) :
    Lock.read (mergeObjects [] (lockJson total input.target steps)) =
      ⟨input.target, input.schedule⟩ := by
  have hnodup : ((lockJson total input.target steps).map Prod.fst).Nodup := Map.nodup_ofList _
  have huser : (lockJson total input.target steps).get "userId" = some (.string input.target) := by
    simp [lockJson, Map.ofList, Map.get_insert]
  have hsteps : (lockJson total input.target steps).get "steps" = some (.array steps) := by
    simp [lockJson, Map.ofList, Map.get_insert]
  rw [Lock.read, get_mergeObjects hnodup _ huser, get_mergeObjects hnodup _ hsteps,
    mergeValue_of_not_object (by simp), mergeValue_of_not_object (by simp), ← read_lockSteps h]
  simp [Value.asStr, Value.asArray]

theorem LockTokenApplied.lock {ports userId w w' locks locks' id}
    (a : LockTokenApplied ports userId input w locks id w' locks')
    (hfresh : locks.lock userId ports.lockId = none) :
    ∃ doc, locks' = locks.put (lockKey userId ports.lockId) doc ∧
      Lock.read doc = ⟨input.target, input.schedule⟩ ∧ (doc.map Prod.fst).Nodup := by
  refine ⟨_, a.locks_eq, ?_⟩
  rw [hfresh]
  exact ⟨read_lockJson a.steps_eq a.total, nodup_mergeObjects (by simp) _⟩

/-! ## Consuming -/

def LockStep.view (s : LockStep) : ScheduledStep := ⟨s.amount, s.unlockAt, s.consumed⟩

/-- The loop reads each step as the document has it. -/
structure Scanned (raws : List Value) (steps : List LockStep) : Prop where
  raws_eq : raws = steps.map fun s => .object s.step
  read : ∀ s ∈ steps, ScheduledStep.read (.object s.step) = s.view
  positive : ∀ s ∈ steps, 0 < s.amount.toInt

theorem scanned_of_foldlM {now amount raws start scan} (hstart : start.steps = [])
    (h : raws.foldlM (scanStep now amount) start = .ok scan) : Scanned raws scan.steps := by
  refine foldlM_induct (fun (scan : StepScan) done => Scanned done scan.steps) ?_
    (by rw [hstart]; exact ⟨rfl, by simp, by simp⟩) h
  intro scan done raw scan' ih hraw
  simp only [scanStep, bind_eq_ok, ensure_eq_ok, okOr_eq_ok, pure_eq_ok, exists_const,
    not_nonpos_iff_toInt] at hraw
  obtain ⟨step, hstep, hpos, -, rfl⟩ := hraw
  have hobject : raw = .object step := by
    cases raw <;> simp_all [Value.asObject]
  refine ⟨?_, ?_, ?_⟩
  · simp [← ih.raws_eq, hobject]
  · simp only [List.mem_append, List.mem_singleton, or_imp, forall_and, forall_eq]
    exact ⟨ih.read, rfl⟩
  · simp only [List.mem_append, List.mem_singleton, or_imp, forall_and, forall_eq]
    exact ⟨ih.positive, hpos⟩

theorem LockStep.read_consume {s : LockStep} (h : ScheduledStep.read (.object s.step) = s.view)
    (now : Int64) :
    ScheduledStep.read (.object (s.consume now).step) = s.view.consume := by
  simp only [ScheduledStep.read, view, ScheduledStep.mk.injEq] at h
  obtain ⟨hamount, hunlock, -⟩ := h
  simp only [Value.get, Value.asObject, Option.bind_some] at hamount hunlock
  simp [ScheduledStep.read, consume, ScheduledStep.consume, view, Value.get, Value.asObject,
    Map.get_insert, hamount, hunlock, Value.asBool]

theorem LockStep.view_consume (s : LockStep) (now : Int64) :
    (s.consume now).view = s.view.consume := by
  simp [view, consumed, consume, ScheduledStep.consume, Map.get_insert, Value.asBool]

theorem map_set_eq_modify {α β : Type*} {g : α → β} {f : β → β} {l : List α} {i : Nat} {x y : α}
    (hget : l[i]? = some x) (hy : g y = f (g x)) : (l.set i y).map g = (l.map g).modify i f := by
  induction l generalizing i with
  | nil => simp at hget
  | cons z l ih =>
    cases i with
    | zero =>
      simp only [List.getElem?_cons_zero, Option.some.injEq] at hget
      simp [hget, hy]
    | succ i =>
      simp [ih hget]

theorem remainingAmount_ok {steps remaining} (h : remainingAmount steps = .ok remaining) :
    remaining.toInt = (steps.map fun s => s.view.locked).sum := by
  refine foldlM_induct (fun (remaining : Int64) done =>
    remaining.toInt = (done.map fun s => s.view.locked).sum) ?_ rfl h
  intro remaining done s remaining' ih hs
  have hview : s.view.locked = if s.consumed then 0 else s.amount.toInt := rfl
  rw [List.map_append, List.sum_append, ← ih, List.map_singleton, List.sum_singleton, hview]
  split at hs
  · next hc =>
    rw [pure_eq_ok] at hs
    rw [if_pos hc, add_zero, hs]
  · next hc =>
    rw [okOr_eq_ok, checkedAdd_eq_some] at hs
    rw [if_neg hc, hs]

/-- The documents of a store have distinct members. -/
def TokenLocks.Formed (locks : TokenLocks) : Prop :=
  ∀ key doc, locks.get key = some doc → (doc.map Prod.fst).Nodup

/-- What an applied `consume_lock` did: it paid a step that was due to the lock's payee, and the
step is consumed or the lock, spent, is gone. -/
structure StepConsumed (ports : LockPorts) (userId : String) (input : ConsumeLockInput)
    (w : Wallets) (locks : TokenLocks) (index : Nat) (w' : Wallets) (locks' : TokenLocks) where
  doc : Map
  step : ScheduledStep
  doc_get : locks.get (lockKey input.userId input.lockId) = some doc
  payee : (Lock.read doc).payee = userId
  step_get : (Lock.read doc).steps[index]? = some step
  unconsumed : step.consumed = false
  due : step.unlockAt.toInt ≤ ports.now.toInt
  posted : Posted w w' (post (userId, .available) step.amount.toInt)
  after : ((Lock.read doc).consume index).spent = true ∧
      locks' = locks.erase (lockKey input.userId input.lockId) ∨
    ∃ doc', locks' = locks.put (lockKey input.userId input.lockId) doc' ∧
      Lock.read doc' = (Lock.read doc).consume index ∧ (doc'.map Prod.fst).Nodup

/-- The document that is written back reads as the lock with the step consumed. -/
theorem read_storeRemaining {doc : Map} (hdoc : (doc.map Prod.fst).Nodup) {payee : String}
    (hpayee : (doc.get "userId").bind Value.asStr = some payee) {steps : List LockStep}
    {l : Lock} (hl : l = ⟨payee, (steps.map fun s => Value.object s.step).map ScheduledStep.read⟩)
    (remaining consumed : Int64) :
    Lock.read (mergeObjects doc (((doc.insert "steps"
      (.array (steps.map fun s => .object s.step))).insert "remainingAmount"
      (.ofI64 remaining)).insert "consumedAmount" (.ofI64 consumed))) = l := by
  obtain ⟨value, huser, hvalue⟩ := Option.bind_eq_some_iff.mp hpayee
  have hstring : value = .string payee := by
    cases value <;> simp_all [Value.asStr]
  subst hstring
  have hnodup := Map.nodup_insert (Map.nodup_insert (Map.nodup_insert hdoc "steps"
    (.array (steps.map fun s => .object s.step))) "remainingAmount" (.ofI64 remaining))
    "consumedAmount" (.ofI64 consumed)
  rw [Lock.read, get_mergeObjects hnodup "userId" (by simpa [Map.get_insert] using huser),
    get_mergeObjects hnodup "steps" (by simp [Map.get_insert]; rfl),
    mergeValue_of_not_object (by simp), mergeValue_of_not_object (by simp), hl]
  simp [Value.asStr, Value.asArray]

theorem consumeLock_consumed {ports : LockPorts} {userId : String} {input : ConsumeLockInput}
    {w w' : Wallets} {locks locks' : TokenLocks} {index : Nat} {remaining : Int64}
    (hformed : locks.Formed)
    (h : consumeLock ports userId input w locks = .ok ((index, remaining), w', locks')) :
    Nonempty (StepConsumed ports userId input w locks index w' locks') := by
  simp only [consumeLock, bind_eq_ok, ensure_eq_ok, okOr_eq_ok, pure_eq_ok, exists_const,
    checkedAdd_eq_some, not_lt_iff_toInt, Prod.mk.injEq, Option.filter_eq_some_iff] at h
  obtain ⟨-, -, doc, hdoc, raws, ⟨hraws, -⟩, scan, hscan, step, hstep, hdue, hfresh, hamount, -, -,
    huser, balance', hbal', w₁, hstore, r, hr, locks₁, hlocks, ⟨rfl, rfl⟩, rfl, rfl⟩ := h
  have hscanned := scanned_of_foldlM rfl hscan
  have hmem := StepScan.selected_mem hstep
  have hget : scan.steps[scan.index.toNat]? = some step := by
    unfold StepScan.selected at hstep
    split at hstep
    · cases hstep
    · exact hstep
  have hread : (Lock.read doc) = ⟨userId, scan.steps.map LockStep.view⟩ := by
    rw [Lock.read, huser, hraws, hscanned.raws_eq]
    simp only [Option.getD_some, List.map_map, Lock.mk.injEq, true_and]
    exact List.map_congr_left hscanned.read
  have hconsumed : (Lock.read doc).consume scan.index.toNat =
      ⟨userId, (scan.steps.set scan.index.toNat (step.consume ports.now)).map LockStep.view⟩ := by
    rw [hread, Lock.consume, map_set_eq_modify hget (LockStep.view_consume step ports.now)]
  have hreread : (Lock.read doc).consume scan.index.toNat =
      ⟨userId, ((scan.steps.set scan.index.toNat (step.consume ports.now)).map fun s =>
        Value.object s.step).map ScheduledStep.read⟩ := by
    have hstored : (scan.steps.map fun s => ScheduledStep.read (.object s.step)) =
        scan.steps.map LockStep.view := List.map_congr_left hscanned.read
    have hstep := LockStep.read_consume (hscanned.read step hmem) ports.now
    rw [← hscanned.read step hmem] at hstep
    rw [hread, List.map_map, ← hstored]
    exact congrArg (Lock.mk userId) (map_set_eq_modify hget hstep).symm
  refine ⟨{
    doc
    step := step.view
    doc_get := hdoc
    payee := by rw [hread]
    step_get := by rw [hread, List.getElem?_map, hget]; rfl
    unconsumed := by simpa [LockStep.view] using hfresh
    due := hdue
    posted := storeAccount_ok hstore (by rw [hbal', hamount]; rfl)
    after := ?_ }⟩
  have hpos : ∀ s ∈ ((Lock.read doc).consume scan.index.toNat).steps, 0 < s.amount.toInt := by
    rw [hconsumed]
    intro s hs
    obtain ⟨s', hs', rfl⟩ := List.mem_map.mp hs
    rcases List.mem_or_eq_of_mem_set hs' with hs' | rfl
    · exact hscanned.positive s' hs'
    · exact hscanned.positive step hmem
  have hlocked : r.toInt = ((Lock.read doc).consume scan.index.toNat).locked := by
    rw [remainingAmount_ok hr, hconsumed, Lock.locked, List.map_map]
    rfl
  unfold storeRemaining at hlocks
  split at hlocks
  · next hzero =>
    rw [pure_eq_ok] at hlocks
    refine .inl ⟨(Lock.spent_iff_locked hpos).mpr ?_, hlocks.symm⟩
    rw [← hlocked, hzero]
    rfl
  · simp only [bind_eq_ok, ensure_eq_ok, pure_eq_ok, exists_const] at hlocks
    obtain ⟨-, rfl⟩ := hlocks
    have hstored : (locks.lock input.userId input.lockId).getD [] = doc := by rw [hdoc]; rfl
    refine .inr ⟨_, rfl, ?_, nodup_mergeObjects ?_ _⟩
    · rw [hstored]
      exact read_storeRemaining (hformed _ _ hdoc) huser hreread ..
    · rw [hstored]
      exact hformed _ _ hdoc

end Aseman.Node
