import Aseman.Finance.Operation

/-!
# A hold is finalised once

A hold is opened, may start to run, and ends settled or released; nothing reopens it. The terms it
was created under (payer, amount, beneficiaries and their caps) stay on it until then, so what a
settlement pays is bounded by the caps its payer agreed to, and a release gives the whole amount
back.
-/

namespace Aseman.Finance

open Book (post_apply ofRows)

/-! ## Terms and status of a hold -/

structure Hold.Under (h : Hold) (payerId : String) (input : CreateHoldInput) : Prop where
  payer : h.payerUserId = payerId
  maxAmount : h.maxAmount = input.maxAmount
  beneficiaries : h.beneficiaries = input.beneficiaries

/-- One for a hold that was settled or released, zero for any other. -/
def Ledger.finalised (s : Ledger) (holdId : String) : ℕ :=
  (s.holds.get holdId).elim 0 fun h => if h.status.active then 0 else 1

/-- Whether a call of this operation is to settle or release the hold. -/
def Operation.finalises (op : Operation) (holdId : String) : Bool :=
  match op with
  | .settleHold input => input.holdId = holdId
  | .releaseHold input => input.holdId = holdId
  | _ => false

/-- The call settled or released the hold. -/
def Event.finalises (e : Event) (holdId : String) : Bool :=
  e.appliedReply.isSome && e.call.op.finalises holdId

section Applied

variable {s s' : Ledger} {r : Reply} {c : Call} {payerId holdId : String}
  {input : CreateHoldInput}

theorem Applied.holds (hfresh : c.Fresh s) (ha : Applied s r s' c) :
    s.holds.Wrote (fun id h => s.holds.Has id (·.Under payerId input) → h.Under payerId input)
      s'.holds := by
  have hkept : ∀ {id : String} {h h' : Hold}, s.holds.get id = some h →
      h'.payerUserId = h.payerUserId → h'.maxAmount = h.maxAmount →
      h'.beneficiaries = h.beneficiaries → s.holds.Has id (·.Under payerId input) →
      h'.Under payerId input := by
    rintro id h h' hhold hpayer hmax hrows ⟨v, hget, hv⟩
    rw [hhold] at hget
    cases hget
    exact ⟨hpayer.trans hv.payer, hmax.trans hv.maxAmount, hrows.trans hv.beneficiaries⟩
  cases ha with
  | createHold a =>
    rw [a.state]
    refine .put _ _ fun ⟨v, hget, _⟩ => ?_
    rw [hfresh.hold] at hget
    cases hget
  | startHold a | settleHold a | releaseHold a =>
    rw [a.state]; exact .put _ _ (hkept a.hold_get rfl rfl rfl)
  | _ a => rw [a.state]; exact .same

theorem Ledger.finalised_put (s : Ledger) {s' : Ledger} {id : String} {h : Hold}
    (hholds : s'.holds = s.holds.put id h) (holdId : String) :
    s'.finalised holdId = if holdId = id then (if h.status.active then 0 else 1)
      else s.finalised holdId := by
  rw [finalised, hholds, Store.get_put]
  split <;> rfl

theorem Ledger.finalised_of_active {h} (hget : s.holds.get holdId = some h)
    (hactive : h.status.active = true) : s.finalised holdId = 0 := by
  simp [finalised, hget, hactive]

/-- **One applied call** finalises the hold that it settles or releases, which was active before,
and no other. -/
theorem Applied.finalised (hfresh : c.Fresh s) (ha : Applied s r s' c)
    (hhold : (s.holds.get holdId).isSome) :
    s'.finalised holdId = s.finalised holdId + if c.op.finalises holdId then 1 else 0 := by
  cases ha with
  | @createHold ports caller input a =>
    -- the new hold stands under an identifier that no hold had
    have hne : holdId ≠ ports.genId := by
      rintro rfl
      rw [hfresh.hold] at hhold
      cases hhold
    rw [Ledger.finalised_put s (congrArg Ledger.holds a.state), if_neg hne]
    rfl
  | startHold a =>
    rw [Ledger.finalised_put s (congrArg Ledger.holds a.state)]
    split
    · next heq =>
      subst heq
      rw [Ledger.finalised_of_active a.hold_get (by rw [a.opened]; rfl)]
      rfl
    · rfl
  | @settleHold ports caller input a =>
    rw [Ledger.finalised_put s (congrArg Ledger.holds a.state)]
    split
    · next heq =>
      subst heq
      rw [Ledger.finalised_of_active a.hold_get (by rw [a.running]; rfl)]
      simp [Operation.finalises, settledHold]
    · next hne => simp [Operation.finalises, Ne.symm hne]
  | @releaseHold ports caller input a =>
    rw [Ledger.finalised_put s (congrArg Ledger.holds a.state)]
    split
    · next heq =>
      subst heq
      rw [Ledger.finalised_of_active a.hold_get a.active]
      simp [Operation.finalises]
    · next hne => simp [Operation.finalises, Ne.symm hne]
  | _ a => simp [Ledger.finalised, a.state, Operation.finalises]

end Applied

variable {holdId : String}

/-- One step, seen from a hold that exists: it is finalised by the event or stays as it is. -/
theorem Step.finalised {s s' e} (h : Step s e s') (hhold : (s.holds.get holdId).isSome) :
    s'.finalised holdId = s.finalised holdId + if e.finalises holdId then 1 else 0 := by
  rcases h.cases with ⟨rfl, hnone⟩ | ⟨r, hr, ha, hfresh⟩
  · simp [Event.finalises, hnone]
  · rw [ha.finalised hfresh hhold]
    simp [Event.finalises, hr]

/-! ## What a settlement pays -/

def creditedTo (lines : List SettlementLine) (userId role : String) : ℤ := (lines.map fun line =>
    if line.userId = userId ∧ line.role = role then line.amount.toInt else 0).sum

def creditedToUser (lines : List SettlementLine) (userId : String) : ℤ :=
  (lines.map fun line => if line.userId = userId then line.amount.toInt else 0).sum

variable {lines : List SettlementLine} {userId : String}

theorem creditedTo_eq_zero {role} (h : ¬ ∃ line ∈ lines, line.userId = userId ∧ line.role = role) :
    creditedTo lines userId role = 0 := by
  apply List.sum_eq_zero
  intro x hx
  obtain ⟨line, hline, rfl⟩ := List.mem_map.mp hx
  exact if_neg fun hpair => h ⟨line, hline, hpair⟩

theorem capKey_inj {role userId' role'} (h : validFinanceId userId = true)
    (h' : validFinanceId userId' = true) :
    capKey userId role = capKey userId' role' ↔ userId = userId' ∧ role = role' := by
  constructor
  · intro heq
    exact Text.append_inj_of_notMem (bar_notMem_of_validFinanceId h)
      (bar_notMem_of_validFinanceId h') heq
  · rintro ⟨rfl, rfl⟩
    rfl

theorem roleBook_capKey (hvalid : ∀ line ∈ lines, line.valid) (huser : validFinanceId userId = true)
    (role : String) : roleBook lines (capKey userId role) = creditedTo lines userId role := by
  rw [roleBook, Book.ofRows_apply]
  congr 1
  apply List.map_congr_left
  intro line hline
  simp only [capKey_inj (hvalid line hline).2.1 huser]

variable {payerId : String}

/-- The rows of a plan have different pairs, so a pair has one cap. -/
theorem CapPlan.Of.row_unique {plan : CapPlan} {rows : List HoldBeneficiary}
    (h : plan.Of payerId rows) {row row' : HoldBeneficiary} (hrow : row ∈ rows)
    (hrow' : row' ∈ rows) (hkey : capKey row.userId row.role = capKey row'.userId row'.role) :
    row = row' :=
  List.inj_on_of_nodup_map h.nodup hrow hrow' hkey

/-- **Caps**: lines that were allocated within the caps of a plan credit no pair more than its row
grants, and no pair without a row. -/
theorem CapPlan.Of.credited_le {invalid : String} {plan : CapPlan} {rows : List HoldBeneficiary}
    {caps : Store String Int64} {acc : Allocation} (h : plan.Of payerId rows)
    (hcaps : rows.foldlM (readCap invalid) ∅ = .ok caps) (hlines : acc.Of caps lines) :
    (∀ row ∈ rows, creditedTo lines row.userId row.role ≤ row.maxAmount.toInt) ∧
      ∀ line ∈ lines, ∃ row ∈ rows, row.userId = line.userId ∧ row.role = line.role := by
  -- the cap that bounds a line is the amount of the row of its pair
  have hrow : ∀ line ∈ lines, ∃ row ∈ rows, (row.userId = line.userId ∧ row.role = line.role) ∧
      creditedTo lines line.userId line.role ≤ row.maxAmount.toInt := by
    intro line hline
    obtain ⟨cap, hcap, hle⟩ := hlines.le_cap hline
    obtain ⟨row, hmem, hkey, rfl⟩ := readCaps_ok hcaps hcap
    have hvalid := (hlines.valid line hline).2.1
    rw [roleBook_capKey hlines.valid hvalid] at hle
    exact ⟨row, hmem, (capKey_inj (h.valid row hmem).1 hvalid).mp hkey, hle⟩
  refine ⟨?_, fun line hline => ?_⟩
  · intro row hmem
    by_cases hex : ∃ line ∈ lines, line.userId = row.userId ∧ line.role = row.role
    · obtain ⟨line, hline, huser, hrole⟩ := hex
      obtain ⟨row', hmem', ⟨huser', hrole'⟩, hle⟩ := hrow line hline
      have heq : row' = row := h.row_unique hmem' hmem (by rw [huser', hrole', huser, hrole])
      rwa [heq, huser, hrole] at hle
    · -- nobody is paid under this row
      rw [creditedTo_eq_zero hex]
      exact (h.valid row hmem).2.2.1.le
  · obtain ⟨row, hmem, hpair, -⟩ := hrow line hline
    exact ⟨row, hmem, hpair⟩

/-! ## What finalising a hold does -/

/-- What a user owns outside of holds and pools: the balance less the debt. -/
def Wallets.net (w : Wallets) (user : String) : ℤ :=
  w.amount (user, .available) - w.amount (user, .counter .debt)

theorem Credited.net {w w' credits cs} (h : Credited w w' credits cs) (user : String) :
    creditsBook cs (user, .available) - creditsBook cs (user, .counter .debt) =
      credits.value user := by
  rw [← h.earned user]
  simp only [creditsBook, Finsupp.add_apply, Book.ofRows_apply, Prod.mk.injEq, reduceCtorEq,
    and_false, and_true, if_false, List.map_const', List.sum_replicate, smul_zero, zero_add,
    add_zero, Bucket.counter.injEq]
  rw [sub_eq_iff_eq_add, ← List.sum_map_add]
  congr 1
  apply List.map_congr_left
  intro c hc
  have hgross := (h.split c hc).gross
  split <;> omega

/-- How a hold was settled: within the caps it was created with, with everything accounted for. -/
structure HoldSettled (payerId : String) (terms : CreateHoldInput) (input : SettleHoldInput)
    (t t' : Ledger) (actual refunded : Int64) : Prop where
  hold : t'.holds.Has input.holdId fun h => h.status = .settled ∧ h.actualAmount = some actual ∧
    h.refundedAmount = some refunded
  sum : actual.toInt + refunded.toInt = terms.maxAmount.toInt
  credits : linesTotal input.lines = actual.toInt
  capped : ∀ row ∈ terms.beneficiaries,
    creditedTo input.lines row.userId row.role ≤ row.maxAmount.toInt
  named : ∀ line ∈ input.lines, ∃ row ∈ terms.beneficiaries,
    row.userId = line.userId ∧ row.role = line.role
  earned : ∀ user, t'.wallets.amount (user, .counter .earned) =
    t.wallets.amount (user, .counter .earned) + creditedToUser input.lines user
  net : ∀ user, t'.wallets.net user = t.wallets.net user + creditedToUser input.lines user +
    if user = payerId then refunded.toInt else 0

/-- How a hold was released: its payer got the whole amount back, and nobody else anything. -/
structure HoldReleased (payerId : String) (terms : CreateHoldInput) (input : ReleaseHoldInput)
    (t t' : Ledger) : Prop where
  hold : t'.holds.Has input.holdId fun h => h.status.active = false ∧ h.status ≠ .settled ∧
    h.refundedAmount = some terms.maxAmount
  earned : ∀ user, t'.wallets.amount (user, .counter .earned) =
    t.wallets.amount (user, .counter .earned)
  net : ∀ user, t'.wallets.net user = t.wallets.net user +
    if user = payerId then terms.maxAmount.toInt else 0

section Finalised

variable {t t' : Ledger} {r : Reply} {ports : Ports} {caller payerId : String}
  {terms : CreateHoldInput} {plan : CapPlan}

theorem HoldSettled.of_applied {input : SettleHoldInput}
    (a : SettleHoldApplied ports caller input t r t') (hplan : plan.Of payerId terms.beneficiaries)
    (hterms : t.holds.Has input.holdId (·.Under payerId terms)) :
    HoldSettled payerId terms input t t' a.allocation.actualAmount a.refundAmount := by
  obtain ⟨h, hget, hunder⟩ := hterms
  have hhold : a.hold = h := Option.some.inj (a.hold_get.symm.trans hget)
  have hrows : a.hold.beneficiaries = terms.beneficiaries := by rw [hhold, hunder.beneficiaries]
  have hpayer : input.payerUserId = payerId := by rw [← a.payer, hhold, hunder.payer]
  have hmax : a.hold.maxAmount = terms.maxAmount := by rw [hhold, hunder.maxAmount]
  have hcaps := a.caps_read
  rw [hrows] at hcaps
  obtain ⟨hcapped, hnamed⟩ := hplan.credited_le hcaps a.allocated
  -- what one user is credited is what its lines say
  have huser : ∀ user, a.allocation.credits.value user = creditedToUser input.lines user := by
    intro user
    rw [← Store.book_apply, a.allocated.credits, userBook, Book.ofRows_apply, creditedToUser]
  have hwallets : t'.wallets = a.wallets := congrArg Ledger.wallets a.state
  have hposted := (a.spend.trans a.credit.posted).trans a.refund
  rw [← hwallets] at hposted
  refine ⟨?_, ?_, a.allocated.actual.symm, hcapped, hnamed, ?_, ?_⟩
  · refine ⟨_, (congrArg (·.holds.get input.holdId) a.state).trans (Store.get_put_self _ _ _), ?_⟩
    exact ⟨rfl, rfl, rfl⟩
  · rw [a.refund_eq, hmax]
    ring
  · intro user
    rw [← huser, ← a.credit.earned, hposted.amount]
    simp [post_apply]
  · intro user
    have hnet := a.credit.net user
    rw [huser] at hnet
    rw [Wallets.net, Wallets.net, hposted.amount, hposted.amount, ← hpayer]
    simp only [Finsupp.add_apply, post_apply, Prod.mk.injEq, reduceCtorEq, Bucket.counter.injEq,
      and_false, if_false, and_true, eq_comm]
    omega

theorem HoldReleased.of_applied {input} (a : ReleaseHoldApplied ports caller input t r t')
    (hterms : t.holds.Has input.holdId (·.Under payerId terms)) :
    HoldReleased payerId terms input t t' := by
  obtain ⟨h, hget, hunder⟩ := hterms
  have hhold : a.hold = h := Option.some.inj (a.hold_get.symm.trans hget)
  have hpayer : input.payerUserId = payerId := by rw [← a.payer, hhold, hunder.payer]
  have hmax : a.hold.maxAmount = terms.maxAmount := by rw [hhold, hunder.maxAmount]
  refine ⟨?_, ?_, ?_⟩
  · rw [a.state]
    exact Store.has_put_self ⟨releasedHold_active _ _ _, releasedHold_not_settled _ _ _,
      congrArg some hmax⟩
  · simp [a.state, a.posted.amount, post_apply]
  · intro user
    rw [a.state, Wallets.net, Wallets.net, ← hpayer, ← hmax]
    simp [a.posted.amount, post_apply, eq_comm (a := user)]
    split <;> omega

end Finalised

/-! ## Runs -/

theorem Step.keeps_terms {terms} (s : Ledger) (e : Event) (s' : Ledger) (h : Step s e s')
    (hs : s.holds.Has holdId (·.Under payerId terms)) :
    s'.holds.Has holdId (·.Under payerId terms) :=
  Step.keeps (fun hfresh ha hs => (ha.holds hfresh).has hs) s e s' h hs

/-- A hold that exists is finalised as often as the events of a run finalise it. -/
theorem finalised_of_run {s t es terms} (h : Run Step s es t)
    (hs : s.holds.Has holdId (·.Under payerId terms)) :
    t.finalised holdId = s.finalised holdId + es.countP (·.finalises holdId) := by
  refine h.count_of (f := fun s => s.finalised holdId) Step.keeps_terms ?_ hs
  rintro s e s' hstep ⟨v, hget, -⟩
  exact hstep.finalised (by rw [hget]; rfl)

/-- **A hold is finalised once**: after a hold was created, whatever calls follow, it is settled or
released at most once in all, namely once when it is no longer active; a settlement stays within
the terms of its creation and accounts for the whole amount, a release gives the whole amount back
and credits nobody. -/
theorem hold_final_of_run {s s₁ t : Ledger} {create : Event} {es : List Event} {r : Reply}
    {terms : CreateHoldInput} (hcreate : Step s create s₁) (hr : create.appliedReply = some r)
    (hop : create.call.op = .createHold terms) (hrun : Run Step s₁ es t) :
    t.finalised create.call.ports.genId ≤ 1 ∧
      es.countP (·.finalises create.call.ports.genId) = t.finalised create.call.ports.genId ∧
      ∀ e t', Step t e t' → e.finalises create.call.ports.genId = true →
        (∃ input actual refunded, e.call.op = .settleHold input ∧
          HoldSettled create.call.caller terms input t t' actual refunded) ∨
        ∃ input, e.call.op = .releaseHold input ∧
          HoldReleased create.call.caller terms input t t' := by
  rcases hcreate.cases with ⟨-, hnone⟩ | ⟨r', -, ha, hfresh⟩
  · rw [hnone] at hr
    cases hr
  obtain ⟨⟨ports, caller, op⟩, result⟩ := create
  subst hop
  cases ha with
  | createHold a =>
    -- the new hold has its terms and is open
    have hholds := congrArg Ledger.holds a.state
    have hterms : s₁.holds.Has ports.genId (·.Under caller terms) :=
      ⟨_, (congrArg (Store.get · ports.genId) hholds).trans (Store.get_put_self _ _ _),
        rfl, rfl, rfl⟩
    have hactive : s₁.finalised ports.genId = 0 := by
      rw [Ledger.finalised_put s hholds, if_pos rfl]
      rfl
    refine ⟨?_, ?_, ?_⟩
    · unfold Ledger.finalised
      cases t.holds.get ports.genId with
      | none => exact Nat.zero_le 1
      | some h => simp only [Option.elim_some]; split <;> omega
    · rw [finalised_of_run hrun hterms, hactive, zero_add]
    · intro e t' hstep hfinal
      have hterms' := hrun.invariant Step.keeps_terms hterms
      rcases hstep.cases with ⟨-, hnone⟩ | ⟨r'', -, ha', -⟩
      · simp [Event.finalises, hnone] at hfinal
      · simp only [Event.finalises, Bool.and_eq_true] at hfinal
        obtain ⟨⟨ports', caller', op'⟩, result'⟩ := e
        cases ha' with
        | settleHold a' =>
          have hid := of_decide_eq_true hfinal.2
          rw [← hid] at hterms'
          exact .inl ⟨_, _, _, rfl, .of_applied a' a.planned hterms'⟩
        | releaseHold a' =>
          have hid := of_decide_eq_true hfinal.2
          rw [← hid] at hterms'
          exact .inr ⟨_, rfl, .of_applied a' hterms'⟩
        | _ => cases hfinal.2

namespace Sample

def startHold (id : String) : Call :=
  ⟨ports id id, "node", .startHold
    { holdId := "id3", payerUserId := "alice", quoteId := "q1", runId := "run1" }⟩

/-- A settlement of the hold `id3` that pays `bob` 40 in two lines. -/
def settleInput : SettleHoldInput where
  holdId := "id3"
  payerUserId := "alice"
  quoteId := "q1"
  settlementId := "run1"
  usageHash := usageHash
  lines := [{ userId := "bob", role := "dev", amount := 30, sourceRef := "" },
    { userId := "bob", role := "dev", amount := 10, sourceRef := "" }]

def settleHold (id : String) : Call := ⟨ports id id, "node", .settleHold settleInput⟩

/-- The ledger a hold is created in. -/
def quoted : Ledger := runCalls [mint "id1" "alice" 100, publish "id2" "q1" "alice"] ledger

end Sample

open Sample

/-- A hold of 100 is created, started and settled for 40. -/
theorem hold_final_of_settled : ∃ actual refunded, HoldSettled "alice" holdInput settleInput
      (runCalls [Sample.createHold "id3" "alice", Sample.startHold "id4"] quoted)
      (runCalls [Sample.createHold "id3" "alice", Sample.startHold "id4", Sample.settleHold "id5"]
        quoted) actual refunded := by
  have hrun : allFresh [Sample.createHold "id3" "alice", Sample.startHold "id4",
        Sample.settleHold "id5"] quoted = true ∧
      (Event.appliedReply ⟨Sample.createHold "id3" "alice",
        ((Sample.createHold "id3" "alice").transact quoted).1⟩).isSome = true ∧
      Event.finalises ⟨Sample.settleHold "id5", ((Sample.settleHold "id5").transact
        (runCalls [Sample.createHold "id3" "alice", Sample.startHold "id4"] quoted)).1⟩
        "id3" = true := by
    decide +kernel
  obtain ⟨hfresh, happlied, hfinal⟩ := hrun
  simp only [allFresh, Bool.and_eq_true, decide_eq_true_eq, and_true] at hfresh
  obtain ⟨hcreate, hstart, hsettle⟩ := hfresh
  obtain ⟨r, hr⟩ := Option.isSome_iff_exists.mp happlied
  obtain ⟨-, -, hfinalised⟩ := hold_final_of_run (Step.of_fresh hcreate) hr rfl
    (Run.single (Step.of_fresh hstart))
  rcases hfinalised _ _ (Step.of_fresh hsettle) hfinal with
    ⟨input, actual, refunded, hop, hsettled⟩ | ⟨input, hop, -⟩
  · cases hop
    exact ⟨actual, refunded, hsettled⟩
  · cases hop

end Aseman.Finance
