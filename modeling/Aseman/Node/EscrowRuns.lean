import Aseman.Node.Escrow

/-!
# Runs of the token locks

Whatever calls are made by whomever, the balances and the unconsumed steps together are worth the
same before and after every call on the locks. A lock keeps its payee and its schedule as long as
it is stored; a step of it is paid once, to the payee, when it is due; and the document goes with
its last step.

A lock is named by the key of its document. The keys of two locks may be equal, when an owner's
name contains the separator or an identifier is issued again after its lock is gone, so a step is
said to be paid no more often than locks were made under its key.
-/

namespace Aseman.Node

open Finance Lock
open Book (post post_apply)

/-! ## What is in escrow -/

def balancesTotal (w : Wallets) : ℤ := ∑ user ∈ w.users, w.amount (user, .available)

theorem balancesTotal_of_posted {w w' user x} (h : Posted w w' (post (user, .available) x)) :
    balancesTotal w' = balancesTotal w + x := by
  let weight : String × Bucket → ℤ := fun account => if account.2 = .available then 1 else 0
  have htotal (w : Wallets) : balancesTotal w = Book.total weight w.book := by
    rw [Wallets.total_book, balancesTotal]
    simp [Bucket.all, weight]
  rw [htotal, htotal, h.total]
  simp [weight]

def TokenLocks.locked (locks : TokenLocks) : ℤ := locks.sumBy fun _ doc => (read doc).locked

/-- What the balances and the locks are worth together. -/
def State.escrowed (n : State) : ℤ := balancesTotal n.ledger.wallets + n.locks.locked

/-! ## Events of a lock -/

def Event.locks (key : String) (e : Event) : Bool :=
  match e.call, e.outcome with
  | .lockToken _ caller _, .locked (.ok id) => lockKey caller id = key
  | _, _ => false

/-- Whether the event paid a step of the lock under a key. -/
def Event.pays (key : String) (index : Nat) (e : Event) : Bool :=
  match e.call, e.outcome with
  | .consumeLock _ _ input, .consumed (.ok (i, _)) =>
    lockKey input.userId input.lockId = key ∧ i = index
  | _, _ => false

def Call.onLocks : Call → Bool
  | .finance _ => false
  | _ => true

/-- One call, seen from the locks. -/
inductive LockCases (n n' : State) (e : Event) : Prop
  /-- Nothing happened to the locks, nor to anything if the call was one on them. -/
  | idle (hlocks : n'.locks = n.locks) (hmade : ∀ key, e.locks key = false)
      (hpaid : ∀ key index, e.pays key index = false) (hsame : e.call.onLocks = true → n' = n)
  | locked {ports : LockPorts} {caller : String} {input : LockTokenInput} {doc : Json.Map}
      (hcall : e.call = .lockToken ports caller input)
      (hmade : ∀ key, e.locks key = decide (lockKey caller ports.lockId = key))
      (hpaid : ∀ key index, e.pays key index = false)
      (hfresh : n.locks.get (lockKey caller ports.lockId) = none)
      (hposted : Posted n.ledger.wallets n'.ledger.wallets
        (post (caller, .available) (-input.total)))
      (hlocks : n'.locks = n.locks.put (lockKey caller ports.lockId) doc)
      (hread : read doc = ⟨input.target, input.schedule⟩) (hdoc : (doc.map Prod.fst).Nodup)
  | consumed {ports : LockPorts} {caller : String} {input : ConsumeLockInput} {index : Nat}
      (hcall : e.call = .consumeLock ports caller input)
      (hmade : ∀ key, e.locks key = false)
      (hpaid : ∀ key i, e.pays key i = decide (lockKey input.userId input.lockId = key ∧ index = i))
      (a : StepConsumed ports caller input n.ledger.wallets n.locks index n'.ledger.wallets
        n'.locks)

variable {n n' : State} {e : Event}

theorem Step.lockCases (h : Step n e n') (hformed : n.locks.Formed) : LockCases n n' e := by
  obtain ⟨call, outcome⟩ := e
  obtain ⟨hfresh, h⟩ := h
  cases call with
  | finance call =>
    obtain ⟨-, rfl⟩ := h
    exact .idle rfl (fun _ => rfl) (fun _ _ => rfl) (by simp [Call.onLocks])
  | lockToken ports caller input =>
    simp only [Call.transact] at h
    split at h <;> simp only [Prod.mk.injEq] at h <;> obtain ⟨rfl, rfl⟩ := h
    · next id w locks hok =>
      obtain ⟨a⟩ := lockToken_ok hok
      obtain ⟨doc, hlocks, hread, hdoc⟩ := a.lock hfresh
      obtain rfl := a.reply
      exact .locked rfl (fun _ => rfl) (fun _ _ => rfl) hfresh a.posted hlocks hread hdoc
    · exact .idle rfl (fun _ => rfl) (fun _ _ => rfl) fun _ => rfl
  | consumeLock ports caller input =>
    simp only [Call.transact] at h
    split at h <;> simp only [Prod.mk.injEq] at h <;> obtain ⟨rfl, rfl⟩ := h
    · next reply w locks hok =>
      obtain ⟨a⟩ := consumeLock_consumed hformed hok
      exact .consumed rfl (fun _ => rfl) (fun _ _ => rfl) a
    · exact .idle rfl (fun _ => rfl) (fun _ _ => rfl) fun _ => rfl

/-! ## One step -/

theorem Step.keeps_formed (n : State) (e : Event) (n' : State) (h : Step n e n')
    (hn : n.locks.Formed) : n'.locks.Formed := by
  cases h.lockCases hn with
  | idle hlocks => rwa [hlocks]
  | locked hcall hmade hpaid hfresh hposted hlocks hread hdoc =>
    rw [hlocks]
    exact (Store.Wrote.put (P := fun _ (doc : Json.Map) => (doc.map Prod.fst).Nodup) _ _ hdoc).get
      hn
  | consumed hcall hmade hpaid a =>
    rcases a.after with ⟨-, hlocks⟩ | ⟨doc', hlocks, -, hdoc⟩ <;> rw [hlocks]
    · intro key doc hget
      rw [Store.get_erase] at hget
      split at hget
      · cases hget
      · exact hn key doc hget
    · exact (Store.Wrote.put (P := fun _ (doc : Json.Map) => (doc.map Prod.fst).Nodup) _ _
        hdoc).get hn

theorem formed_of_run {creatures es} (h : Run Step (.initial creatures) es n) : n.locks.Formed :=
  h.invariant (I := fun n => n.locks.Formed) Step.keeps_formed (by simp [State.initial, TokenLocks.Formed])

/-- **A call on the locks** moves money between the balances and the locks. -/
theorem Step.escrowed (h : Step n e n') (hn : n.locks.Formed) (hcall : e.call.onLocks = true) :
    n'.escrowed = n.escrowed := by
  unfold State.escrowed TokenLocks.locked
  cases h.lockCases hn with
  | idle hlocks hmade hpaid hsame => rw [hsame hcall]
  | locked hcall hmade hpaid hfresh hposted hlocks hread hdoc =>
    rw [balancesTotal_of_posted hposted, hlocks, Store.sumBy_put_of_none hfresh, hread,
      locked, sum_schedule]
    ring
  | consumed hcall hmade hpaid a =>
    obtain ⟨doc, step, hget, -, hstep, hunconsumed, -, hposted, hafter⟩ := a
    have hlocked := locked_consume hstep hunconsumed
    rw [balancesTotal_of_posted hposted]
    rcases hafter with ⟨hspent, hlocks⟩ | ⟨doc', hlocks, hread, -⟩ <;> rw [hlocks]
    · rw [locked_of_spent hspent] at hlocked
      rw [Store.sumBy_erase, hget, Option.elim_some]
      linarith
    · rw [Store.sumBy_put_of_some hget, hread, hlocked]
      ring

/-- Whether a step of the lock under a key is stored and not consumed. -/
def TokenLocks.owes (locks : TokenLocks) (key : String) (index : Nat) : Bool :=
  (locks.get key).any fun doc => (read doc).steps[index]?.any (!·.consumed)

/-- **A payment discharges its step**, and only a new lock under the key makes one due again. -/
theorem Step.owes (h : Step n e n') (hn : n.locks.Formed) (key : String) (index : Nat) :
    ((if n'.locks.owes key index then 1 else 0) + if e.pays key index then 1 else 0) ≤
      (if n.locks.owes key index then 1 else 0) + if e.locks key then 1 else 0 := by
  cases h.lockCases hn with
  | idle hlocks hmade hpaid hsame => simp [hlocks, hpaid]
  | @locked ports caller input doc hcall hmade hpaid hfresh hposted hlocks hread hdoc =>
    simp only [hpaid, hmade, Bool.false_eq_true, if_false, add_zero]
    by_cases hkey : key = lockKey caller ports.lockId
    · rw [if_pos (decide_eq_true hkey.symm)]
      split <;> omega
    · rw [TokenLocks.owes, hlocks, Store.get_put_of_ne hkey]
      exact Nat.le_add_right _ _
  | @consumed ports caller input i hcall hmade hpaid a =>
    obtain ⟨doc, step, hget, -, hstep, hunconsumed, -, -, hafter⟩ := a
    rw [hpaid, hmade]
    by_cases hkey : key = lockKey input.userId input.lockId
    · subst hkey
      by_cases hi : i = index
      · subst hi
        -- the step was owed, and is not any more
        have howed : n.locks.owes (lockKey input.userId input.lockId) i = true := by
          simp [TokenLocks.owes, hget, hstep, hunconsumed]
        have hnot : n'.locks.owes (lockKey input.userId input.lockId) i = false := by
          rcases hafter with ⟨-, hlocks⟩ | ⟨doc', hlocks, hread, -⟩
          · simp [TokenLocks.owes, hlocks]
          · simp [TokenLocks.owes, hlocks, hread, consume, hstep, ScheduledStep.consume]
        simp [howed, hnot]
      · have hle : n'.locks.owes (lockKey input.userId input.lockId) index = true →
            n.locks.owes (lockKey input.userId input.lockId) index = true := by
          rcases hafter with ⟨-, hlocks⟩ | ⟨doc', hlocks, hread, -⟩
          · simp [TokenLocks.owes, hlocks]
          · simp [TokenLocks.owes, hlocks, hread, consume, hget, hi]
        simp only [hi, and_false, decide_false, Bool.false_eq_true, if_false, add_zero]
        split
        · next hafter => rw [if_pos (hle hafter)]
        · exact Nat.zero_le _
    · have hsame : n'.locks.get key = n.locks.get key := by
        rcases hafter with ⟨-, hlocks⟩ | ⟨doc', hlocks, -, -⟩ <;> rw [hlocks]
        · exact Store.get_erase_of_ne hkey
        · exact Store.get_put_of_ne hkey
      have howes : n'.locks.owes key index = n.locks.owes key index := by
        rw [TokenLocks.owes, TokenLocks.owes, hsame]
      simp [howes, Ne.symm hkey]

structure LocksKept (n : State) (e : Event) (n' : State) : Prop where
  /-- A new lock is the one that was asked for. -/
  made : ∀ key, e.locks key = true → ∃ ports caller input doc,
    e.call = .lockToken ports caller input ∧ key = lockKey caller ports.lockId ∧
    n.locks.get key = none ∧ n'.locks.get key = some doc ∧
    read doc = ⟨input.target, input.schedule⟩
  /-- A step is paid to the payee of the lock, when it is due, with its amount. -/
  paid : ∀ key index, e.pays key index = true → ∃ ports caller input doc step,
    e.call = .consumeLock ports caller input ∧ n.locks.get key = some doc ∧
    (read doc).steps[index]? = some step ∧ step.consumed = false ∧
    (read doc).payee = caller ∧ step.unlockAt.toInt ≤ ports.now.toInt ∧
    ∀ user, n'.ledger.wallets.amount (user, .available) =
      n.ledger.wallets.amount (user, .available) + if user = caller then step.amount.toInt else 0
  /-- A stored lock keeps its terms; where a step was paid it is consumed, and no other step
  changes. -/
  kept : ∀ key doc doc', n.locks.get key = some doc → n'.locks.get key = some doc' →
    (read doc').terms = (read doc).terms ∧
      ((read doc' = read doc ∧ ∀ index, e.pays key index = false) ∨
        ∃ index, e.pays key index = true ∧ read doc' = (read doc).consume index)
  /-- A lock goes with its last step. -/
  gone : ∀ key doc, n.locks.get key = some doc → n'.locks.get key = none →
    ∃ index, e.pays key index = true ∧ ((read doc).consume index).spent = true

theorem Step.locksKept (h : Step n e n') (hn : n.locks.Formed) : LocksKept n e n' := by
  cases h.lockCases hn with
  | idle hlocks hmade hpaid hsame =>
    refine ⟨by simp [hmade], by simp [hpaid], fun key doc doc' hget hget' => ?_,
      fun key doc hget hgone => ?_⟩
    · rw [hlocks, hget] at hget'
      cases hget'
      exact ⟨rfl, .inl ⟨rfl, hpaid key⟩⟩
    · rw [hlocks, hget] at hgone
      cases hgone
  | @locked ports caller input doc₀ hcall hmade hpaid hfresh hposted hlocks hread hdoc =>
    refine ⟨fun key hkey => ?_, by simp [hpaid], fun key doc doc' hget hget' => ?_,
      fun key doc hget hgone => ?_⟩
    · rw [hmade, decide_eq_true_eq] at hkey
      subst hkey
      exact ⟨ports, caller, input, doc₀, hcall, rfl, hfresh, by rw [hlocks, Store.get_put_self],
        hread⟩
    · have hne : key ≠ lockKey caller ports.lockId := by
        rintro rfl
        rw [hfresh] at hget
        cases hget
      rw [hlocks, Store.get_put_of_ne hne, hget] at hget'
      cases hget'
      exact ⟨rfl, .inl ⟨rfl, hpaid key⟩⟩
    · rw [hlocks, Store.get_put] at hgone
      split at hgone
      · cases hgone
      · rw [hget] at hgone
        cases hgone
  | @consumed ports caller input i hcall hmade hpaid a =>
    obtain ⟨doc₀, step, hget₀, hpayee, hstep, hunconsumed, hdue, hposted, hafter⟩ := a
    have hpays : e.pays (lockKey input.userId input.lockId) i = true := by
      rw [hpaid]
      simp
    have hother : ∀ key, key ≠ lockKey input.userId input.lockId →
        n'.locks.get key = n.locks.get key := by
      intro key hkey
      rcases hafter with ⟨-, hlocks⟩ | ⟨doc', hlocks, -, -⟩ <;> rw [hlocks]
      · exact Store.get_erase_of_ne hkey
      · exact Store.get_put_of_ne hkey
    refine ⟨by simp [hmade], fun key index hkey => ?_, fun key doc doc' hget hget' => ?_,
      fun key doc hget hgone => ?_⟩
    · rw [hpaid, decide_eq_true_eq] at hkey
      obtain ⟨rfl, rfl⟩ := hkey
      refine ⟨ports, caller, input, doc₀, step, hcall, hget₀, hstep, hunconsumed, hpayee, hdue,
        fun user => ?_⟩
      rw [hposted.amount, post_apply]
      simp [eq_comm]
    · by_cases hkey : key = lockKey input.userId input.lockId
      · subst hkey
        rw [hget₀] at hget
        cases hget
        rcases hafter with ⟨-, hlocks⟩ | ⟨doc'', hlocks, hread, -⟩
        · rw [hlocks, Store.get_erase_self] at hget'
          cases hget'
        · rw [hlocks, Store.get_put_self] at hget'
          cases hget'
          exact ⟨by rw [hread, terms_consume], .inr ⟨i, hpays, hread⟩⟩
      · rw [hother key hkey, hget] at hget'
        cases hget'
        exact ⟨rfl, .inl ⟨rfl, fun index => by rw [hpaid]; simp [Ne.symm hkey]⟩⟩
    · by_cases hkey : key = lockKey input.userId input.lockId
      · subst hkey
        rw [hget₀] at hget
        cases hget
        rcases hafter with ⟨hspent, -⟩ | ⟨doc'', hlocks, -, -⟩
        · exact ⟨i, hpays, hspent⟩
        · rw [hlocks, Store.get_put_self] at hgone
          cases hgone
      · rw [hother key hkey, hget] at hgone
        cases hgone

/-! ## Runs -/

def LockCall (n : State) (e : Event) (n' : State) : Prop := Step n e n' ∧ e.call.onLocks = true

/-- **Token locks conserve value and pay each step once**. From every state that a run has reached,
calls on locks leave the balances and the unconsumed steps together unchanged. In every further run
a step is paid once if it is owed now, and once more for each lock made under its key: a step of a
lock is paid at most once. And every call makes, keeps, pays and removes locks as `LocksKept`
says. -/
theorem locks_of_run {creatures : Creatures} {es : List Event} {n : State}
    (h : Run Step (.initial creatures) es n) :
    (∀ es' n', Run LockCall n es' n' → n'.escrowed = n.escrowed) ∧
      (∀ es' n' key index, Run Step n es' n' → es'.countP (Event.pays key index) ≤
        (if n.locks.owes key index then 1 else 0) + es'.countP (Event.locks key)) ∧
      ∀ e n', Step n e n' → LocksKept n e n' := by
  have hformed := formed_of_run h
  refine ⟨fun es' n' hrun => ?_, fun es' n' key index hrun => ?_,
    fun e n' hstep => hstep.locksKept hformed⟩
  · have hkept : n'.locks.Formed ∧ n'.escrowed = n.escrowed :=
      hrun.invariant (I := fun m => m.locks.Formed ∧ m.escrowed = n.escrowed)
        (fun m e m' hstep hm => ⟨Step.keeps_formed m e m' hstep.1 hm.1,
          (hstep.1.escrowed hm.1 hstep.2).trans hm.2⟩) ⟨hformed, rfl⟩
    exact hkept.2
  · have hcount := hrun.countP_le_of Step.keeps_formed
      (fun m e m' hstep hm => hstep.owes hm key index) hformed
    exact (Nat.le_add_left _ _).trans hcount

namespace Sample

/-- A consumption of the lock of `alice`, by `bob`, of whichever step has the amount. -/
def consume (amount : Int64) : Call :=
  .consumeLock lockPorts "bob"
    { type := "pay", userId := "alice", lockId := "lock1", signature := "", amount }

def locked : State := ((lock "alice" 40).transact (after minted)).2

def consumed : State := ((consume 40).transact locked).2

end Sample

open Sample

/-- Of 100 coins, 40 are locked for `bob`, who takes them. -/
theorem locks_of_consumed : consumed.escrowed = (after minted).escrowed ∧
      locked.locks.locked = 40 ∧ consumed.locks.locked = 0 ∧
      consumed.ledger.wallets.amount ("bob", .available) = 40 := by
  have hrun : Run Step (.initial Finance.Sample.creatures) _ (after minted) :=
    (run_after minted (by decide)).mono fun _ _ _ h => h.1
  have hlock : LockCall (after minted)
      ⟨lock "alice" 40, ((lock "alice" 40).transact (after minted)).1⟩
      locked :=
    ⟨step_lock "alice" 40 (show _ = none by decide), rfl⟩
  have hconsume : LockCall locked ⟨consume 40, ((consume 40).transact locked).1⟩ consumed :=
    ⟨⟨trivial, rfl⟩, rfl⟩
  exact ⟨(locks_of_run hrun).1 _ _ ((Run.single hlock).snoc hconsume), by decide +kernel,
    by decide +kernel, by decide +kernel⟩

end Aseman.Node
