import Aseman.Finance.Solvency
import Aseman.Node.Locks

/-!
# Runs of the node

The operations of the node that change a balance: the finance operations, which work on the
ledger, and the two operations on token locks, which work on the balances alone. A run is any
sequence of them.

`lock_token` lowers a balance without looking at the withdrawable counter, so a wallet may end up
with more withdrawable money than money. As long as every lock is paid from money that is not
withdrawable, it does not.
-/

namespace Aseman.Node

open Finance Sample Finance
open Book (post post_apply)

/-! ## Calls -/

/-- The ledger and the token locks. -/
structure State where
  ledger : Ledger
  locks : TokenLocks

def State.initial (creatures : Creatures) : State := { ledger := .initial creatures, locks := ∅ }

inductive Call where
  | finance (call : Finance.Call)
  | lockToken (ports : LockPorts) (caller : String) (input : LockTokenInput)
  | consumeLock (ports : LockPorts) (caller : String) (input : ConsumeLockInput)

/-- What a call returned. -/
inductive Outcome where
  | finance (result : Result Reply)
  | locked (result : Except String String)
  | consumed (result : Except String (Nat × Int64))

def State.withWallets (n : State) (w : Wallets) (locks : TokenLocks) : State :=
  { ledger := { n.ledger with wallets := w }, locks }

namespace Call

/-- The call in its transaction: an error rolls the state back. -/
def transact (c : Call) (n : State) : Outcome × State :=
  match c with
  | finance call =>
    let (result, ledger) := call.transact n.ledger
    (.finance result, { n with ledger })
  | lockToken ports caller input =>
    match Node.lockToken ports caller input n.ledger.wallets n.locks with
    | .ok (id, w, locks) => (.locked (.ok id), n.withWallets w locks)
    | .error e => (.locked (.error e), n)
  | consumeLock ports caller input =>
    match Node.consumeLock ports caller input n.ledger.wallets n.locks with
    | .ok (reply, w, locks) => (.consumed (.ok reply), n.withWallets w locks)
    | .error e => (.consumed (.error e), n)

/-- The identifiers that the call is given name no record yet. -/
def Fresh (c : Call) (n : State) : Prop :=
  match c with
  | finance call => call.Fresh n.ledger
  | lockToken ports caller _ => n.locks.lock caller ports.lockId = none
  | consumeLock .. => True

end Call

/-! ## Runs -/

/-- A call and what it returned. -/
structure Event where
  call : Call
  outcome : Outcome

/-- One call. -/
def Step (n : State) (e : Event) (n' : State) : Prop :=
  e.call.Fresh n ∧ e.call.transact n = (e.outcome, n')

def Event.ofFinance (e : Finance.Event) : Event := ⟨.finance e.call, .finance e.result⟩

theorem Step.of_finance {s s' e} (h : Finance.Step s e s') (locks : TokenLocks) :
    Step ⟨s, locks⟩ (.ofFinance e) ⟨s', locks⟩ := by
  refine ⟨h.1, ?_⟩
  simp [Event.ofFinance, Call.transact, h.2]

theorem Step.cases {n n' e} (h : Step n e n') :
    n' = n ∨ (∃ e', Finance.Step n.ledger e' n'.ledger) ∨
      (∃ ports caller input id w locks, e.call = .lockToken ports caller input ∧
        e.outcome = .locked (.ok id) ∧ n' = n.withWallets w locks ∧
        Nonempty (LockTokenApplied ports caller input n.ledger.wallets n.locks id w locks)) ∨
      ∃ caller input w locks, n' = n.withWallets w locks ∧
        ConsumeLockApplied caller input n.ledger.wallets w := by
  obtain ⟨call, outcome⟩ := e
  obtain ⟨hfresh, h⟩ := h
  cases call with
  | finance call =>
    obtain ⟨-, rfl⟩ := h
    exact .inr (.inl ⟨⟨call, (call.transact n.ledger).1⟩, hfresh, rfl⟩)
  | lockToken ports caller input =>
    simp only [Call.transact] at h
    split at h <;> simp only [Prod.mk.injEq] at h <;> obtain ⟨hout, rfl⟩ := h
    · next id w locks hok =>
      exact .inr (.inr (.inl ⟨ports, caller, input, id, w, locks, rfl, hout.symm, rfl,
        lockToken_ok hok⟩))
    · exact .inl rfl
  | consumeLock ports caller input =>
    simp only [Call.transact] at h
    split at h <;> simp only [Prod.mk.injEq] at h <;> obtain ⟨-, rfl⟩ := h
    · next reply w locks hok =>
      exact .inr (.inr (.inr ⟨caller, input, w, locks, rfl, consumeLock_ok hok⟩))
    · exact .inl rfl

/-! ## Locks paid from money that is not withdrawable -/

/-- What a lock takes out of a wallet is not withdrawable money. -/
def Call.locksFreeMoney (c : Call) (n : State) : Prop :=
  match c with
  | lockToken _ caller input => input.total ≤ n.ledger.wallets.nonwithdrawable caller
  | _ => True

/-- The steps in which every applied `lock_token` takes money that is not withdrawable. -/
def FreeStep (n : State) (e : Event) (n' : State) : Prop :=
  Step n e n' ∧ ∀ id, e.outcome = .locked (.ok id) → e.call.locksFreeMoney n

theorem run_of_finance {s t es} (h : Run Finance.Step s es t) (locks : TokenLocks) :
    Run FreeStep ⟨s, locks⟩ (es.map .ofFinance) ⟨t, locks⟩ := by
  induction h with
  | nil => exact .nil
  | snoc _ hstep ih =>
    rw [List.map_append]
    exact ih.snoc ⟨.of_finance hstep locks, by simp [Event.ofFinance]⟩

theorem solvent_withWallets {n : State} {w : Wallets} {locks : TokenLocks}
    (h : Solvent n.ledger) (hnonneg : w.Nonneg) (hcovered : w.Covered) :
    Solvent (n.withWallets w locks).ledger :=
  ⟨hnonneg, hcovered, h.hold⟩

/-- **One step** of the node keeps the wallets covered. -/
theorem FreeStep.keeps_solvent {n n' : State} {e : Event} (h : FreeStep n e n')
    (hn : Solvent n.ledger) : Solvent n'.ledger := by
  rcases h.1.cases with rfl | ⟨e', hstep⟩ |
    ⟨ports, caller, input, id, w, locks, hcall, hout, rfl, ⟨a⟩⟩ | ⟨caller, input, w, locks, rfl, a⟩
  · exact hn
  · exact Finance.Step.keeps (fun _ ha hs => hs.of_applied ha) _ _ _ hstep hn
  · have hfree : input.total ≤ n.ledger.wallets.nonwithdrawable caller := by
      simpa [hcall, Call.locksFreeMoney] using h.2 id hout
    refine solvent_withWallets hn (a.posted.nonneg hn.nonneg)
      (a.posted.covered_of_user caller (fun user hne => ?_) ?_ hn.covered)
    · simp [post_apply, Ne.symm hne]
    · rw [a.posted.nonwithdrawable]
      simp [post_apply]
      omega
  · have hpos := a.positive
    refine solvent_withWallets hn (a.posted.nonneg hn.nonneg)
      (a.posted.covered (fun user => ?_) hn.covered)
    simp only [post_apply, Prod.mk.injEq, reduceCtorEq, and_false, if_false]
    split <;> omega

/-- **Withdrawable money is there**: in every state that a run of the node reaches whose locks are
paid from money that is not withdrawable, a wallet's withdrawable money is between zero and its
balance, and no operation refuses a wallet because it is not. -/
theorem withdrawable_covered_of_run {creatures : Creatures} {es : List Event} {n : State}
    (h : Run FreeStep (.initial creatures) es n) :
    (∀ user, 0 ≤ n.ledger.wallets.amount (user, .counter .withdrawable) ∧
      n.ledger.wallets.amount (user, .counter .withdrawable) ≤
        n.ledger.wallets.amount (user, .available)) ∧
      ∀ c : Finance.Call, c.op.checksCover → c.run n.ledger ≠ .error notCovered := by
  have hn : Solvent n.ledger :=
    h.invariant (I := fun n => Solvent n.ledger) (fun _ _ _ => FreeStep.keeps_solvent)
      (Solvent.initial creatures)
  refine ⟨fun user => ⟨hn.nonneg user .withdrawable, ?_⟩,
    fun c hop => Call.run_ne_notCovered hop hn.covered⟩
  have hcovered := hn.covered user
  rw [Wallets.nonwithdrawable] at hcovered
  omega

namespace Sample

def lockPorts : LockPorts where
  now := 1000
  lockId := "lock1"
  authWithSignature _ _ _ := true

def lock (payer : String) (amount : Int64) : Call :=
  .lockToken lockPorts payer { amount, type := "pay", target := "bob", unlockAt := 1 }

def after (cs : List Finance.Call) : State := ⟨runCalls cs ledger, ∅⟩

/-- A wallet of 100. -/
def minted : List Finance.Call := [mint "id1" "alice" 100]

/-- A wallet of 100, of which half goes into a pool; the pool makes the other half withdrawable. -/
def pooled : List Finance.Call := [mint "id1" "alice" 100, openPool "id2" "alice" 50]

theorem run_after (cs : List Finance.Call) (hfresh : allFresh cs ledger = true) :
    Run FreeStep (.initial creatures) ((callEvents cs ledger).map .ofFinance) (after cs) :=
  run_of_finance (run_runCalls cs ledger hfresh) ∅

theorem step_lock {n} (payer : String) (amount : Int64) (hfresh : (lock payer amount).Fresh n) :
    Step n ⟨lock payer amount, ((lock payer amount).transact n).1⟩
      ((lock payer amount).transact n).2 :=
  ⟨hfresh, rfl⟩

end Sample

open Sample

theorem withdrawable_covered_of_lock :
    ((lock "alice" 40).transact (after minted)).2.ledger.wallets.amount ("alice", .available) = 60 ∧
      ((lock "alice" 40).transact (after minted)).2.ledger.wallets.amount
          ("alice", .counter .withdrawable) ≤
        ((lock "alice" 40).transact (after minted)).2.ledger.wallets.amount
          ("alice", .available) := by
  have hfree : (lock "alice" 40).locksFreeMoney (after minted) := by
    show LockTokenInput.total _ ≤ _
    decide
  exact ⟨by decide, ((withdrawable_covered_of_run ((run_after minted (by decide)).snoc
    ⟨step_lock "alice" 40 (show _ = none by decide), fun _ _ => hfree⟩)).1 "alice").2⟩

/-- A wallet of 50 that is withdrawable in full pays a lock of 20: the balance falls to 30, the
withdrawable counter stays at 50, and from then on the wallet is refused. -/
theorem withdrawable_not_covered_of_lock : Run Step (.initial creatures)
        ((callEvents Sample.pooled ledger).map .ofFinance ++
          [⟨lock "alice" 20, ((lock "alice" 20).transact (after Sample.pooled)).1⟩])
        ((lock "alice" 20).transact (after Sample.pooled)).2 ∧
      ((lock "alice" 20).transact (after Sample.pooled)).2.ledger.wallets.amount
        ("alice", .available) = 30 ∧
      ((lock "alice" 20).transact (after Sample.pooled)).2.ledger.wallets.amount
        ("alice", .counter .withdrawable) = 50 ∧
      (openPool "id3" "alice" 10).run
        ((lock "alice" 20).transact (after Sample.pooled)).2.ledger =
        .error notCovered := by
  refine ⟨?_, by decide, by decide, by rfl⟩
  exact ((run_after Sample.pooled (by decide)).mono fun _ _ _ h => h.1).snoc
    (step_lock "alice" 20 (show _ = none by decide))

end Aseman.Node
