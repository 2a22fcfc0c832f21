import Aseman.Finance.Held
import Aseman.Finance.Solvency

/-!
# Releasing a hold

A release gives the payer the hold's amount back. It computes the new counters from amounts that
were recorded when the hold was created, and writes fail that would make a counter negative; so
whether a release goes through depends on everything that happened in between. The checks on the
held counter, on the project's budget and on the accounts never fail: what they read is kept in
step with the active holds. The write of the withdrawable counter is the one that can fail, and
does when the hold recorded a negative share and the payer was paid out since.
-/

namespace Aseman.Finance

open Wallets Ledger

open Book (post_apply)

/-! ## Project budgets -/

/-- What a hold reserves of a project's budget: its amount, while it is open or running. -/
def Hold.committedFor (h : Hold) (projectId : String) : ℤ :=
  if h.projectId = projectId ∧ h.status.active = true then h.maxAmount.toInt else 0

/-- What the active holds reserve of a project's budget. -/
def Ledger.committedFor (s : Ledger) (projectId : String) : ℤ :=
  s.holds.sumBy fun _ h => h.committedFor projectId

theorem Hold.committedFor_of_active {h : Hold} (hactive : h.status.active = true)
    (projectId : String) :
    h.committedFor projectId = if h.projectId = projectId then h.maxAmount.toInt else 0 := by
  simp [committedFor, hactive]

theorem Hold.committedFor_of_not_active {h : Hold} (hactive : h.status.active = false)
    (projectId : String) : h.committedFor projectId = 0 := by
  simp [committedFor, hactive]

/-- The budgets' reserved figures are what the active holds reserve. -/
structure Budgeted (s : Ledger) : Prop where
  reserved : ∀ projectId, projectId ≠ "" → reservedMinor s.budgets projectId = s.committedFor projectId
  spent : ∀ id b, s.budgets.get id = some b → 0 ≤ b.spentMinor.toInt

variable {projectId : String} {d : ℤ}

theorem BudgetMoved.reservedMinor {budgets budgets'} (h : BudgetMoved projectId d budgets budgets')
    {id} (hid : id ≠ "") :
    reservedMinor budgets' id = Finance.reservedMinor budgets id + if projectId = id then d else 0 := by
  cases h with
  | none hempty => simp [hempty, Ne.symm hid]
  | put b hne hreserved hspent =>
    by_cases heq : id = projectId
    · subst heq
      simp [Finance.reservedMinor, hreserved]
    · simp [Finance.reservedMinor, Store.get_put, heq, Ne.symm heq]

theorem BudgetMoved.spent {budgets budgets'} (h : BudgetMoved projectId d budgets budgets')
    (hbudgets : ∀ id b, budgets.get id = some b → 0 ≤ b.spentMinor.toInt) :
    ∀ id b, budgets'.get id = some b → 0 ≤ b.spentMinor.toInt := by
  cases h with
  | none hempty => exact hbudgets
  | put b hne hreserved hspent =>
    exact (Store.Wrote.put projectId b hspent).get hbudgets

namespace Budgeted

variable {s s' : Ledger}

theorem of_unmoved (h : Budgeted s) (hholds : s'.holds = s.holds) (hbudgets : s'.budgets = s.budgets) :
    Budgeted s' where
  reserved projectId hne := by
    rw [hbudgets, h.reserved projectId hne, committedFor, committedFor, hholds]
  spent := by rw [hbudgets]; exact h.spent

/-- One hold was written, and the budget moved by the difference it makes. -/
theorem of_moved (h : Budgeted s) {id h'} (hholds : s'.holds = s.holds.put id h')
    (hmoved : BudgetMoved projectId d s.budgets s'.budgets)
    (hd : ∀ project, h'.committedFor project =
      ((s.holds.get id).elim 0 fun h => h.committedFor project) +
        if projectId = project then d else 0) : Budgeted s' where
  reserved project hne := by
    rw [hmoved.reservedMinor hne, h.reserved project hne, committedFor,
      committedFor, hholds, Store.sumBy_put, hd]
    ring
  spent := hmoved.spent h.spent

/-- **Every applied call** moves the budgets and the active holds alike. -/
theorem of_applied {r : Reply} {c : Call} (hfresh : c.Fresh s) (ha : Applied s r s' c)
    (h : Budgeted s) : Budgeted s' := by
  cases ha with
  | createHold a =>
    rw [a.state]
    refine h.of_moved rfl a.budget fun project => ?_
    rw [Hold.committedFor_of_active rfl, hfresh.hold, Option.elim_none, zero_add]
    rfl
  | startHold a =>
    -- the hold stays active, for the same project
    rw [a.state]
    refine h.of_moved rfl (.none rfl : BudgetMoved "" 0 s.budgets _) fun project => ?_
    rw [Hold.committedFor_of_active rfl, a.hold_get, Option.elim_some,
      Hold.committedFor_of_active (by rw [a.opened]; rfl), ite_self, add_zero]
    rfl
  | settleHold a =>
    rw [a.state]
    refine h.of_moved rfl a.budget fun project => ?_
    rw [Hold.committedFor_of_not_active rfl, a.hold_get, Option.elim_some,
      Hold.committedFor_of_active (by rw [a.running]; rfl)]
    split <;> simp
  | releaseHold a =>
    rw [a.state]
    refine h.of_moved rfl a.budget fun project => ?_
    rw [Hold.committedFor_of_not_active (releasedHold_active ..), a.hold_get,
      Option.elim_some, Hold.committedFor_of_active a.active]
    split <;> simp
  | _ a => rw [a.state]; exact h.of_unmoved rfl rfl

theorem initial (creatures : Creatures) : Budgeted (.initial creatures) where
  reserved projectId _ := by simp [Ledger.initial, committedFor, reservedMinor]
  spent := by simp [Ledger.initial]

theorem of_run {creatures es t} (h : Run Step (.initial creatures) es t) : Budgeted t :=
  h.invariant (Step.keeps of_applied) (initial creatures)

end Budgeted

/-! ## Holds and their payers -/

/-- Every hold has a valid identifier, and its payer has an account. -/
def Paid (s : Ledger) : Prop :=
  ∀ id h, s.holds.get id = some h →
    validFinanceId id = true ∧ (s.wallets.account h.payerUserId).isSome

namespace Paid

variable {s s' : Ledger}

theorem of_wrote (h : Paid s)
    (haccount : ∀ user, (s'.wallets.account user).isSome = (s.wallets.account user).isSome)
    (hholds : s.holds.Wrote (fun id h => validFinanceId id = true ∧
      (s.wallets.account h.payerUserId).isSome) s'.holds) : Paid s' := by
  intro id hold hget
  rw [haccount]
  exact hholds.get h id hold hget

theorem of_applied {r c} (hfresh : c.Fresh s) (ha : Applied s r s' c) (h : Paid s) : Paid s' := by
  obtain ⟨δ, hposted⟩ := ha.posted
  refine h.of_wrote hposted.account ?_
  cases ha with
  | createHold a => rw [a.state]; exact .put _ _ ⟨hfresh.valid, a.funded.account⟩
  | startHold a | settleHold a | releaseHold a =>
    have hpaid := h _ _ a.hold_get
    rw [a.state]
    exact .put _ _ hpaid
  | _ a => rw [a.state]; exact .same

theorem of_run {creatures es t} (h : Run Step (.initial creatures) es t) : Paid t :=
  h.invariant (Step.keeps of_applied) (by simp [Paid, Ledger.initial])

end Paid

/-! ## The steps of a release -/

variable {w : Wallets}

theorem Wallets.setCounter_of_nonneg {kind user x} (h : 0 ≤ x.toInt) :
    w.setCounter kind user x = .ok (w.putCounter kind user x) :=
  if_neg (not_neg_iff_toInt.mpr h)

theorem Wallets.storeAccount_of_account {user balance x} (h : w.account user = some balance) :
    w.storeAccount user x = .ok (w.putBalance user x) := by
  rw [account] at h
  simp [storeAccount, h]

/-- A refund goes through when the new balance and the new counters are in range. -/
theorem refundHeld_returns {payerId amount share balance} (hn : w.Nonneg)
    (hbalance : w.account payerId = some balance) (hamount : 0 ≤ amount.toInt)
    (hfits : balance.toInt + amount.toInt < 2 ^ 63)
    (hnonneg : 0 ≤ w.amount (payerId, .counter .withdrawable) + share.toInt)
    (hshare : w.amount (payerId, .counter .withdrawable) + share.toInt < 2 ^ 63)
    (hheld : amount.toInt ≤ w.amount (payerId, .counter .held)) :
    Returns (refundHeld w payerId amount share) fun _ => True := by
  have hbalance₀ := balance.le_toInt
  obtain ⟨balance', hbalance', -⟩ := exists_checkedAdd (by omega) hfits
  obtain ⟨withdrawable', hadd, hwithdrawable'⟩ :=
    exists_checkedAdd ((by norm_num : (-2 ^ 63 : ℤ) ≤ 0).trans hnonneg) hshare
  have haccount : (w.putCounter .withdrawable payerId withdrawable').account payerId =
      some balance := hbalance
  -- the two writes before the held counter is read
  obtain ⟨w₂, hw₂⟩ : ∃ w₂, w₂ =
    (w.putCounter .withdrawable payerId withdrawable').putBalance payerId balance' := ⟨_, rfl⟩
  have hread : w₂.amount (payerId, .counter .held) = w.amount (payerId, .counter .held) := by
    simp [hw₂, amount_putBalance, amount_putCounter]
  have hlt := (w₂.counterValue .held payerId).toInt_lt
  have hvalue : (w₂.counterValue .held payerId).toInt = w₂.amount (payerId, .counter .held) := rfl
  obtain ⟨held', hsub, hheld'⟩ := exists_checkedSub (a := w₂.counterValue .held payerId)
    (b := amount) (by omega) (by omega)
  simp only [refundHeld, returns_bind, returns_okOr]
  refine ⟨balance, hbalance, balance', hbalance', ?_⟩
  rw [returns_of_eq (counter_of_nonneg (hn payerId .withdrawable))]
  refine ⟨withdrawable', hadd, ?_⟩
  rw [returns_of_eq (setCounter_of_nonneg (hwithdrawable'.symm ▸ hnonneg)),
    returns_of_eq (storeAccount_of_account haccount), ← hw₂,
    returns_of_eq (counter_of_nonneg (by omega))]
  refine ⟨held', hsub, ?_⟩
  rw [returns_of_eq (setCounter_of_nonneg (by omega))]
  trivial

theorem finalizeProjectBudget_returns (ports : Ports) {amount s} (h : Budgeted s)
    (hpos : 0 < amount.toInt) (hle : amount.toInt ≤ s.committedFor projectId) :
    Returns (finalizeProjectBudget ports projectId amount 0 s) fun _ => True := by
  unfold finalizeProjectBudget
  split
  · exact ⟨s, rfl, trivial⟩
  · next hne =>
    have hreserved := h.reserved projectId hne
    cases hget : s.budgets.get projectId with
    | none =>
      -- a project without a budget has reserved nothing
      simp [reservedMinor, hget] at hreserved
      omega
    | some budget =>
      have hspent := h.spent _ _ hget
      simp only [reservedMinor, hget, Option.map_some, Option.getD_some] at hreserved
      have hlt := budget.reservedMinor.toInt_lt
      have hlt' := budget.spentMinor.toInt_lt
      obtain ⟨remaining, hremaining, -⟩ := exists_checkedSub (a := budget.reservedMinor)
        (b := amount) (by omega) (by omega)
      obtain ⟨total, htotal, -⟩ := exists_checkedAdd (a := budget.spentMinor) (b := 0)
        (by simp only [Int64.toInt_zero]; omega) (by simp only [Int64.toInt_zero]; omega)
      simp only [returns_bind, returns_okOr, returns_pure]
      refine ⟨budget, rfl, ?_⟩
      rw [returns_of_eq (nonnegativeBudgetField_eq_ok.mpr ⟨rfl, by omega⟩),
        returns_of_eq (nonnegativeBudgetField_eq_ok.mpr ⟨rfl, hspent⟩)]
      exact ⟨remaining, hremaining, total, htotal, trivial⟩

/-! ## When a release goes through -/

/-- What the checks of a release read. -/
structure Releasable (s : Ledger) : Prop where
  documented : Documented s
  pools : PoolInvariant s
  held : HeldIdentity s
  solvent : Solvent s
  budgeted : Budgeted s
  paid : Paid s

namespace Releasable

variable {s : Ledger} {id : String} {hold : Hold}

theorem of_run {creatures es t} (h : Run Step (.initial creatures) es t) : Releasable t where
  documented := .of_run h
  pools := .of_run h
  held := .of_run h
  solvent := .of_run h
  budgeted := .of_run h
  paid := .of_run h

theorem le_held (h : Releasable s) (hget : s.holds.get id = some hold)
    (hactive : hold.status.active = true) :
    hold.maxAmount.toInt ≤ s.wallets.amount (hold.payerUserId, .counter .held) := by
  rw [h.held, heldFor]
  have hhold : hold.heldFor hold.payerUserId ≤
      s.holds.sumBy fun _ h => h.heldFor hold.payerUserId := by
    refine Store.le_sumBy hget (fun _ h => h.heldFor hold.payerUserId) fun e he => ?_
    have hpos := (h.documented.hold _ _ (Store.mem_toList_iff.mp he)).positive
    unfold Hold.heldFor
    split <;> omega
  have hpools : 0 ≤ s.pools.sumBy fun _ p => p.heldFor hold.payerUserId := by
    refine Store.sumBy_nonneg _ _ fun e he => ?_
    have hbalanced := h.pools.balanced _ _ (Store.mem_toList_iff.mp he)
    have := hbalanced.remaining_nonneg
    have := hbalanced.reserved_nonneg
    unfold Pool.heldFor
    split <;> omega
  rw [Hold.heldFor_of_active hactive, if_pos rfl] at hhold
  omega

theorem le_committedFor (h : Releasable s) (hget : s.holds.get id = some hold)
    (hactive : hold.status.active = true) :
    hold.maxAmount.toInt ≤ s.committedFor hold.projectId := by
  have hle : hold.committedFor hold.projectId ≤ s.committedFor hold.projectId := by
    refine Store.le_sumBy hget (fun _ h => h.committedFor hold.projectId) fun e he => ?_
    have hpos := (h.documented.hold _ _ (Store.mem_toList_iff.mp he)).positive
    unfold Hold.committedFor
    split <;> omega
  rwa [Hold.committedFor_of_active hactive, if_pos rfl] at hle

/-- **A release goes through** when the payer's withdrawable counter covers the share that the hold
recorded; no other check of it can fail. -/
theorem releaseHold_returns (h : Releasable s) (hget : s.holds.get id = some hold)
    (hactive : hold.status.active = true) (ports : Ports) {releaseId reason}
    (hrelease : validFinanceId releaseId = true) (hreason : ¬ reason.utf8ByteSize > 256)
    (hfresh : s.marker (.release hold.settlementAuthority releaseId) = "")
    (hfits : s.wallets.amount (hold.payerUserId, .available) + hold.maxAmount.toInt < 2 ^ 63)
    (hdrawn : 0 ≤ s.wallets.amount (hold.payerUserId, .counter .withdrawable) +
      hold.withdrawableAmount.toInt) :
    Returns (releaseHold ports hold.settlementAuthority
      { holdId := id, payerUserId := hold.payerUserId, releaseId, reason } s)
      fun reply => reply.1.applied = true := by
  have hformed := h.documented.hold _ _ hget
  obtain ⟨hid, haccount⟩ := h.paid _ _ hget
  obtain ⟨balance, hbalance⟩ := Option.isSome_iff_exists.mp haccount
  obtain ⟨s₁, hbudget, -⟩ := finalizeProjectBudget_returns ports h.budgeted
    hformed.positive (h.le_committedFor hget hactive)
  have hwallets : s₁.wallets = s.wallets := by rw [(finalizeProjectBudget_ok le_rfl hbudget).1]
  have hcovered := h.solvent.covered hold.payerUserId
  have hshare := h.solvent.hold _ _ hget
  rw [nonwithdrawable] at hcovered
  rw [amount_of_account hbalance] at hfits hcovered
  have hrefund := refundHeld_returns h.solvent.nonneg hbalance hformed.positive.le hfits
    hdrawn (by omega) (h.le_held hget hactive)
  simp only [releaseHold, returns_bind, returns_ensure, hfresh, ne_eq, not_true_eq_false, if_false,
    getHold, returns_okOr, returns_pure]
  refine ⟨⟨hid, hformed.payer, hrelease, hreason⟩, hold, hget, hactive, rfl, .inl rfl,
    not_nonpos_iff_toInt.mpr hformed.positive, ?_⟩
  rw [returns_of_eq hbudget, hwallets]
  exact hrefund.mono fun _ _ => rfl

end Releasable

/-! ## Runs -/

/-- A hold takes all of the payer's money that is not withdrawable. -/
def Call.holdDrawsForward (c : Call) (s : Ledger) : Bool :=
  match c.op with
  | .createHold input => s.wallets.nonwithdrawable c.caller ≤ input.maxAmount.toInt
  | _ => true

/-- No hold has recorded a negative share. -/
def DrawnForward (s : Ledger) : Prop :=
  ∀ id h, s.holds.get id = some h → 0 ≤ h.withdrawableAmount.toInt

namespace DrawnForward

variable {s s' : Ledger}

theorem of_applied {r c} (ha : Applied s r s' c) (hforward : c.holdDrawsForward s)
    (h : DrawnForward s) : DrawnForward s' := by
  have hwrote : s.holds.Wrote (fun _ h => 0 ≤ h.withdrawableAmount.toInt) s'.holds := by
    cases ha with
    | createHold a =>
      have hportion := Backed.portion_nonneg a.funded (of_decide_eq_true hforward)
      rw [a.state]
      exact .put _ _ hportion
    | startHold a | settleHold a | releaseHold a =>
      have hdrawn := h _ _ a.hold_get
      rw [a.state]
      exact .put _ _ hdrawn
    | _ a => rw [a.state]; exact .same
  exact hwrote.get h

theorem of_run {creatures es t}
    (h : Run (GuardedStep Call.holdDrawsForward) (.initial creatures) es t) : DrawnForward t :=
  h.invariant
    (fun s e s' hstep => GuardedStep.keeps_of (J := fun _ => True)
      (fun _ ha hforward _ => of_applied ha hforward) s e s' hstep trivial)
    (by simp [DrawnForward, Ledger.initial])

end DrawnForward

/-- **A hold can be released**: in every ledger that a run reaches whose holds leave no minted money
behind, the authority of an active hold can release it under a new release id, and the payer's
balance then grows by the hold's amount; unless it would overflow. -/
theorem release_of_run {creatures : Creatures} {es : List Event} {t : Ledger}
    (h : Run (GuardedStep Call.holdDrawsForward) (.initial creatures) es t) {id : String}
    {hold : Hold} (hget : t.holds.get id = some hold) (hactive : hold.status.active = true)
    (ports : Ports) (releaseId reason : String) (hrelease : validFinanceId releaseId = true)
    (hreason : ¬ reason.utf8ByteSize > 256)
    (hfresh : t.marker (.release hold.settlementAuthority releaseId) = "")
    (hfits : t.wallets.amount (hold.payerUserId, .available) + hold.maxAmount.toInt ≤
      Int64.maxValue.toInt) :
    ∃ r s', releaseHold ports hold.settlementAuthority
        { holdId := id, payerUserId := hold.payerUserId, releaseId, reason } t = .ok (r, s') ∧
      r.applied = true ∧
      s'.wallets.amount (hold.payerUserId, .available) =
        t.wallets.amount (hold.payerUserId, .available) + hold.maxAmount.toInt := by
  have hreleasable := Releasable.of_run (GuardedStep.run h)
  have hdrawn := DrawnForward.of_run h id hold hget
  have hnonneg := hreleasable.solvent.nonneg hold.payerUserId .withdrawable
  rw [Int64.toInt_maxValue] at hfits
  obtain ⟨⟨r, s'⟩, hok, happlied⟩ := hreleasable.releaseHold_returns hget hactive ports
    hrelease hreason hfresh (by omega) (by omega)
  refine ⟨r, s', hok, happlied, ?_⟩
  rcases releaseHold_ok hok with ⟨-, hreplay⟩ | ⟨⟨a⟩⟩
  · simp [hreplay] at happlied
  · have hhold : a.hold = hold := Option.some.inj (a.hold_get.symm.trans hget)
    simp [a.state, a.posted.amount, post_apply, hhold]

namespace Sample

/-- A payout of the 900 that the hold leaves in a wallet of 1000. -/
def heldAndPaid : List Call :=
  held 1000 ++ [⟨ports "id4" "id4", "alice", .requestPayout payoutInput⟩]

end Sample

open Sample

theorem release_of_held : ∃ hold r s', (runCalls (held 100) ledger).holds.get "id3" = some hold ∧
      releaseHold (ports "id4" "id4") hold.settlementAuthority
        { holdId := "id3", payerUserId := hold.payerUserId, releaseId := "r1", reason := "" }
        (runCalls (held 100) ledger) = .ok (r, s') ∧ r.applied = true := by
  -- the run is evaluated once
  have hrun : allFresh (held 100) ledger = true ∧
      allGuarded Call.holdDrawsForward (held 100) ledger = true ∧
      ((runCalls (held 100) ledger).holds.get "id3").any (fun hold =>
        hold.status.active ∧
        (runCalls (held 100) ledger).marker (.release hold.settlementAuthority "r1") = "" ∧
        (runCalls (held 100) ledger).wallets.amount (hold.payerUserId, .available) +
          hold.maxAmount.toInt ≤ Int64.maxValue.toInt) = true := by
    decide +kernel
  obtain ⟨hfresh, hguarded, hhold⟩ := hrun
  obtain ⟨hold, hget, hhold⟩ := (Option.any_eq_true _ _).mp hhold
  obtain ⟨hactive, hmarker, hfits⟩ := of_decide_eq_true hhold
  obtain ⟨r, s', hok, happlied, -⟩ := release_of_run
    (guarded_runCalls Call.holdDrawsForward _ _ hfresh hguarded) hget hactive
    (ports "id4" "id4") "r1" "" (by decide) (by decide) hmarker hfits
  exact ⟨hold, r, s', hget, hok, happlied⟩

/-- A hold of 100 on a wallet of 1000 records a share of minus 900, since it leaves 900 that count
as withdrawable from then on. Once these are paid out, the hold cannot be released. -/
theorem release_fails_of_payout : Run Step ledger (callEvents heldAndPaid ledger)
        (runCalls heldAndPaid ledger) ∧
      (∃ hold, (runCalls heldAndPaid ledger).holds.get "id3" = some hold ∧
        hold.status = .opened ∧ hold.payerUserId = "alice" ∧ hold.settlementAuthority = "node" ∧
        hold.maxAmount = 100) ∧
      (runCalls heldAndPaid ledger).wallets.amount ("alice", .available) = 0 ∧
      (runCalls heldAndPaid ledger).marker (.release "node" "r1") = "" ∧
      releaseHold (ports "id5" "id5") "node"
        { holdId := "id3", payerUserId := "alice", releaseId := "r1", reason := "" }
        (runCalls heldAndPaid ledger) =
        .error (.port (.denied "finance counter underflow")) := by
  have hrun : allFresh heldAndPaid ledger = true ∧
      ((runCalls heldAndPaid ledger).holds.get "id3").any (fun hold =>
        hold.status = .opened ∧ hold.payerUserId = "alice" ∧ hold.settlementAuthority = "node" ∧
        hold.maxAmount = 100) = true ∧
      (runCalls heldAndPaid ledger).wallets.amount ("alice", .available) = 0 ∧
      (runCalls heldAndPaid ledger).marker (.release "node" "r1") = "" ∧
      errorOf (releaseHold (ports "id5" "id5") "node"
        { holdId := "id3", payerUserId := "alice", releaseId := "r1", reason := "" }
        (runCalls heldAndPaid ledger)) =
        some (.port (.denied "finance counter underflow")) := by
    decide +kernel
  obtain ⟨hfresh, hhold, hbalance, hmarker, herror⟩ := hrun
  obtain ⟨hold, hget, hhold⟩ := (Option.any_eq_true _ _).mp hhold
  exact ⟨run_runCalls _ _ hfresh, ⟨hold, hget, of_decide_eq_true hhold⟩, hbalance, hmarker,
    errorOf_eq_some.mp herror⟩

end Aseman.Finance
