import Aseman.Finance.Postings

/-!
# Settlement lines and credits

The part of a settlement that holds, pool reservations and live debits share: the caps of a
beneficiary list, the sums over the settlement lines (in all, per `(user, role)` pair and per
user), and the credit of a sum of earnings to a wallet, which repays the wallet's payment debt
first.
-/

namespace Aseman.Finance

open Json Posted
open Book (post post_apply ofRows)

/-! ## The loops -/

/-- One round of the loop that reads the caps of a beneficiary list; a later row of a
`(user, role)` pair wins. -/
def readCap (invalid : String) (caps : Store String Int64) (row : HoldBeneficiary) :
    Result (Store String Int64) := do
  ensure (row.userId ≠ "" ∧ row.role ≠ "" ∧ ¬ row.maxAmount ≤ 0) (denied invalid)
  pure (caps.put (capKey row.userId row.role) row.maxAmount)

/-- What the loop over settlement lines has added up: the total, per `(user, role)` and per user. -/
structure Allocation where
  actualAmount : Int64 := 0
  allocated : Store String Int64 := ∅
  credits : Store String Int64 := ∅

/-- The part of the loop over settlement lines that holds and pools share. -/
def allocateLine (unauthorized : String) (caps : Store String Int64) (acc : Allocation)
    (line : SettlementLine) : Result Allocation := do
  let key := capKey line.userId line.role
  let cap ← okOr (caps.get key) (denied unauthorized)
  let actualAmount ← okOr (checkedAdd acc.actualAmount line.amount)
    (denied "settlement amount overflow")
  let roleTotal ← okOr (checkedAdd ((acc.allocated.get key).getD 0) line.amount)
    (denied "beneficiary role amount overflow")
  ensure (¬ roleTotal > cap) (denied "settlement exceeds beneficiary role cap")
  let credited ← okOr (checkedAdd ((acc.credits.get line.userId).getD 0) line.amount)
    (denied "beneficiary amount overflow")
  pure
    { actualAmount, allocated := acc.allocated.put key roleTotal,
      credits := acc.credits.put line.userId credited }

def SettlementLine.valid (line : SettlementLine) : Prop :=
  ¬ line.amount ≤ 0 ∧ validFinanceId line.userId ∧ validFinanceId line.role ∧
    ¬ line.sourceRef.utf8ByteSize > 256

instance (line : SettlementLine) : Decidable line.valid :=
  inferInstanceAs (Decidable (_ ∧ _ ∧ _ ∧ _))

/-- How one beneficiary's credit was split. -/
structure Credit where
  userId : String
  grossAmount : Int64
  walletCredit : Int64
  debtRepaid : Int64

/-- Credit earnings to one beneficiary: its debt is repaid first, the rest is withdrawable. -/
def creditEarnings (missing : String) (w : Wallets) (userId : String) (amount : Int64) :
    Result (Wallets × Credit) := do
  let w ← w.addCounter .earned userId amount
  let balance ← okOr (w.account userId) (denied missing)
  let debt ← w.counter .debt userId
  let debtRepaid := min debt amount
  let walletCredit ← okOr (checkedSub amount debtRepaid) (denied "beneficiary credit underflow")
  let balance' ← okOr (checkedAdd balance walletCredit) (denied "beneficiary balance overflow")
  let withdrawable ← w.counter .withdrawable userId
  let withdrawable' ← okOr (checkedAdd withdrawable walletCredit)
    (denied "withdrawable earnings overflow")
  let w ← w.setCounter .debt userId (debt - debtRepaid)
  let w ← w.setCounter .withdrawable userId withdrawable'
  let w ← w.storeAccount userId balance'
  pure (w, { userId, grossAmount := amount, walletCredit, debtRepaid })

/-- The loop over the credits of a settlement or debit. -/
def creditAll (credit : Wallets → String → Int64 → Result (Wallets × Credit)) :
    List (String × Int64) → Wallets → Result (Wallets × List Credit)
  | [], w => pure (w, [])
  | (userId, amount) :: rest, w => do
      let (w, done) ← credit w userId amount
      let (w, others) ← creditAll credit rest w
      pure (w, done :: others)

/-- Return held funds to their payer's wallet: the part `release_hold` and `close_pool` share. -/
def refundHeld (w : Wallets) (payerId : String) (amount withdrawableRefund : Int64) :
    Result Wallets := do
  let balance ← okOr (w.account payerId) (denied "payer creature not found")
  let balance' ← okOr (checkedAdd balance amount) (denied "payer balance overflow")
  let withdrawable ← w.counter .withdrawable payerId
  let withdrawable' ← okOr (checkedAdd withdrawable withdrawableRefund)
    (denied "withdrawable refund overflow")
  let w ← w.setCounter .withdrawable payerId withdrawable'
  let w ← w.storeAccount payerId balance'
  let heldBefore ← w.counter .held payerId
  let held ← okOr (checkedSub heldBefore amount) (denied "held balance underflow")
  w.setCounter .held payerId held

/-- Take a charge out of the payer's held counter into its spent counter: the part `settle_pool`
and `debit_pool` share. -/
def chargeHeld (w : Wallets) (payerId : String) (amount : Int64) : Result Wallets := do
  let heldBefore ← w.counter .held payerId
  let held ← okOr (checkedSub heldBefore amount) (denied "held balance underflow")
  let w ← w.setCounter .held payerId held
  w.addCounter .spent payerId amount

def creditEntries (credits : List Credit) : List Value := credits.flatMap fun c =>
    obj [("account", .string ("wallet:" ++ c.userId ++ ":available")),
      ("amount", .ofI64 c.walletCredit), ("grossAmount", .ofI64 c.grossAmount)] ::
    if c.debtRepaid > 0 then [entry ("wallet:" ++ c.userId ++ ":debt") (-c.debtRepaid)] else []

/-! ## What the lines add up to -/

variable (lines : List SettlementLine)

def linesTotal : ℤ := (lines.map (·.amount.toInt)).sum

noncomputable def userBook : Book String := ofRows (·.userId) (·.amount.toInt) lines

/-- The amounts of the lines per `(user, role)` pair. -/
noncomputable def roleBook : Book String :=
  ofRows (fun line => capKey line.userId line.role) (·.amount.toInt) lines

theorem SettlementLine.valid.pos {line : SettlementLine} (h : line.valid) :
    0 < line.amount.toInt := not_nonpos_iff_toInt.mp h.1

theorem total_userBook : Book.total (fun _ => 1) (userBook lines) = linesTotal lines := by
  simp [userBook, Book.total_ofRows, linesTotal]

theorem sumBy_of_userBook {credits : Store String Int64} {lines : List SettlementLine}
    (h : credits.book = userBook lines) :
    credits.sumBy (fun _ x => x.toInt) = linesTotal lines := by
  have hsum := Store.total_book (fun _ => 1) credits
  rw [h, total_userBook] at hsum
  simpa using hsum.symm

/-- Keeping the amounts of a store positive when one of them grows. -/
theorem forall_put_pos {m : Store String Int64} {key : String} {x y : Int64}
    (hm : ∀ k v, m.get k = some v → 0 < v.toInt) (hx : 0 < x.toInt)
    (hy : checkedAdd ((m.get key).getD 0) x = some y) :
    ∀ k v, (m.put key y).get k = some v → 0 < v.toInt := by
  intro k v hv
  obtain ⟨-, rfl⟩ | ⟨-, hv⟩ := Store.get_put_eq_some hv
  · rw [checkedAdd_eq_some.mp hy]
    cases hget : m.get key with
    | none => simpa using hx
    | some v => have := hm key v hget; simp only [Option.getD_some]; omega
  · exact hm k v hv

/-- `acc` is what the loop has made of `lines`, all of them within `caps`. -/
structure Allocation.Of (caps : Store String Int64) (acc : Allocation)
    (lines : List SettlementLine) : Prop where
  valid : ∀ line ∈ lines, line.valid
  actual : acc.actualAmount.toInt = linesTotal lines
  allocated : acc.allocated.book = roleBook lines
  credits : acc.credits.book = userBook lines
  positive : ∀ user x, acc.credits.get user = some x → 0 < x.toInt
  capped : ∀ key x, acc.allocated.get key = some x →
    ∃ cap, caps.get key = some cap ∧ x.toInt ≤ cap.toInt
  allocated_mem : ∀ line ∈ lines, (acc.allocated.get (capKey line.userId line.role)).isSome

namespace Allocation.Of

variable {caps : Store String Int64} {acc acc' : Allocation} {lines : List SettlementLine}
  {line : SettlementLine} {unauthorized : String}

theorem nil : Allocation.Of caps {} [] where
  valid := by simp
  actual := rfl
  allocated := by simp [roleBook]
  credits := by simp [userBook]
  positive := by simp
  capped := by simp
  allocated_mem := by simp

variable (h : acc.Of caps lines)

include h

theorem snoc (hvalid : line.valid) (hline : allocateLine unauthorized caps acc line = .ok acc') :
    acc'.Of caps (lines ++ [line]) := by
  simp only [allocateLine, bind_eq_ok, okOr_eq_ok, ensure_eq_ok, exists_const, pure_eq_ok] at hline
  obtain ⟨cap, hcap, actual, hactual, role, hrole, hle, credited, hcredited, rfl⟩ := hline
  refine ⟨?_, ?_, ?_, ?_, forall_put_pos h.positive hvalid.pos hcredited, ?_, ?_⟩
  · intro l hl
    rcases List.mem_append.mp hl with hl | hl
    · exact h.valid l hl
    · rwa [List.mem_singleton.mp hl]
  · rw [checkedAdd_eq_some.mp hactual, h.actual]
    simp [linesTotal]
  · rw [Store.book_put_of_checkedAdd hrole, h.allocated]
    simp [roleBook]
  · rw [Store.book_put_of_checkedAdd hcredited, h.credits]
    simp [userBook]
  · intro key x hx
    obtain ⟨hk, rfl⟩ | ⟨-, hx⟩ := Store.get_put_eq_some hx
    · exact ⟨cap, hk ▸ hcap, not_lt_iff_toInt.mp hle⟩
    · exact h.capped key x hx
  · intro l hl
    rw [Store.get_put]
    split
    · rfl
    · next hne =>
      rcases List.mem_append.mp hl with hl | hl
      · exact h.allocated_mem l hl
      · rw [List.mem_singleton.mp hl] at hne
        exact absurd rfl hne

theorem sum_credits : acc.credits.sumBy (fun _ x => x.toInt) = acc.actualAmount.toInt := by
  rw [sumBy_of_userBook h.credits, h.actual]

theorem actual_nonneg : 0 ≤ acc.actualAmount.toInt := by
  rw [← h.sum_credits]
  apply Store.sumBy_nonneg
  intro e he
  exact (h.positive e.1 e.2 (Store.mem_toList_iff.mp he)).le

/-- Each line's `(user, role)` pair has a cap, and the lines of the pair stay within it. -/
theorem le_cap (hline : line ∈ lines) : ∃ cap, caps.get (capKey line.userId line.role) = some cap ∧
      roleBook lines (capKey line.userId line.role) ≤ cap.toInt := by
  obtain ⟨x, hx⟩ := Option.isSome_iff_exists.mp (h.allocated_mem line hline)
  obtain ⟨cap, hcap, hle⟩ := h.capped _ x hx
  refine ⟨cap, hcap, ?_⟩
  rw [← h.allocated, Store.book_apply, Store.value, hx]
  exact hle

end Allocation.Of

theorem readCaps_ok {invalid : String} {rows : List HoldBeneficiary} {caps : Store String Int64}
    (h : rows.foldlM (readCap invalid) ∅ = .ok caps) {key : String} {cap : Int64}
    (hcap : caps.get key = some cap) :
    ∃ row ∈ rows, capKey row.userId row.role = key ∧ row.maxAmount = cap := by
  have hread := foldlM_induct (fun caps done => ∀ key cap, caps.get key = some cap →
    ∃ row ∈ done, capKey row.userId row.role = key ∧ row.maxAmount = cap) ?_ (by simp) h
  · exact hread key cap hcap
  · intro caps done row caps' hcaps hrow key cap hget
    simp only [readCap, bind_eq_ok, ensure_eq_ok, pure_eq_ok, exists_const] at hrow
    obtain ⟨-, rfl⟩ := hrow
    obtain ⟨hkey, rfl⟩ | ⟨-, hget⟩ := Store.get_put_eq_some hget
    · exact ⟨row, by simp, hkey.symm, rfl⟩
    · obtain ⟨row', hrow', hkey, hamount⟩ := hcaps key cap hget
      exact ⟨row', List.mem_append_left _ hrow', hkey, hamount⟩

/-! ## What the credits post -/

structure Credit.Split (c : Credit) (debt : ℤ) : Prop where
  gross : c.walletCredit.toInt + c.debtRepaid.toInt = c.grossAmount.toInt
  repaid : c.debtRepaid.toInt = min debt c.grossAmount.toInt
  repaid_nonneg : 0 ≤ c.debtRepaid.toInt
  wallet_nonneg : 0 ≤ c.walletCredit.toInt

/-- What a list of credits posts: the gross amounts as earned, the wallet credits as available and
withdrawable, and the repayments against the debts. -/
noncomputable def creditsBook (cs : List Credit) : Book (String × Bucket) :=
  ofRows (fun c => (c.userId, .counter .earned)) (·.grossAmount.toInt) cs +
    ofRows (fun c => (c.userId, .available)) (·.walletCredit.toInt) cs +
    ofRows (fun c => (c.userId, .counter .withdrawable)) (·.walletCredit.toInt) cs +
    ofRows (fun c => (c.userId, .counter .debt)) (fun c => -c.debtRepaid.toInt) cs

section CreditsBook

variable (cs : List Credit) (user : String)

@[simp] theorem creditsBook_held : creditsBook cs (user, .counter .held) = 0 := by
  simp [creditsBook, Book.ofRows_apply]

@[simp] theorem creditsBook_spent : creditsBook cs (user, .counter .spent) = 0 := by
  simp [creditsBook, Book.ofRows_apply]

theorem creditsBook_withdrawable :
    creditsBook cs (user, .counter .withdrawable) = creditsBook cs (user, .available) := by
  simp [creditsBook, Book.ofRows_apply]

theorem creditsBook_earned : creditsBook cs (user, .counter .earned) =
    (cs.map fun c => if c.userId = user then c.grossAmount.toInt else 0).sum := by
  simp [creditsBook, Book.ofRows_apply]

end CreditsBook

theorem creditsBook_cons (c : Credit) (cs : List Credit) :
    creditsBook (c :: cs) = creditsBook [c] + creditsBook cs := by
  simp only [creditsBook, Book.ofRows_cons, Book.ofRows_nil, add_zero]
  abel

variable {w w' : Wallets} {amount : Int64}

theorem creditEarnings_ok {missing userId c}
    (h : creditEarnings missing w userId amount = .ok (w', c)) :
    Posted w w' (creditsBook [c]) ∧ c.Split (w.amount (userId, .counter .debt)) ∧
      c.userId = userId ∧ c.grossAmount = amount := by
  simp only [creditEarnings, bind_eq_ok, okOr_eq_ok, pure_eq_ok, checkedAdd_eq_some,
    checkedSub_eq_some, Prod.mk.injEq] at h
  obtain ⟨w₁, hearned, balance, hbal, debt, hdebt, credit, hcredit, balance', hbal', wd, hwd,
    wd', hwd', w₂, hset, w₃, hset', w₄, hstore, rfl, rfl⟩ := h
  obtain ⟨p₁, hamount⟩ := of_addCounter hearned
  obtain ⟨hdebt, hdebt₀⟩ := Wallets.counter_ok hdebt
  obtain ⟨hwd, -⟩ := Wallets.counter_ok hwd
  have hbal := Wallets.amount_of_account hbal
  have hmin := toInt_min debt amount
  have hsub : (debt - min debt amount).toInt = debt.toInt - (min debt amount).toInt := by
    have := debt.toInt_lt
    apply toInt_sub_of_fits <;> omega
  have p₂ := (of_setCounter (d := -(min debt amount).toInt) hset (by omega)).1
  have p₃ := (of_setCounter (d := credit.toInt) hset' (by
    rw [hwd', hwd, p₂.amount]; simp [post_apply])).1
  have p₄ := of_storeAccount (d := credit.toInt) hstore (by
    rw [hbal', ← hbal, p₃.amount, p₂.amount]; simp [post_apply])
  have hdebt' : debt.toInt = w.amount (userId, .counter .debt) := by
    rw [hdebt, p₁.amount]; simp [post_apply]
  refine ⟨(((p₁.trans p₂).trans p₃).trans p₄).congr ?_, ⟨?_, ?_, ?_, ?_⟩, rfl, rfl⟩
  · simp only [creditsBook, Book.ofRows_cons, Book.ofRows_nil, add_zero]
    abel
  all_goals
    dsimp only
    omega

/-- What the loop over the credits did: every credit of `credits` was made once, and split by the
debt that its user had before the loop. -/
structure Credited (w w' : Wallets) (credits : Store String Int64) (cs : List Credit) : Prop where
  posted : Posted w w' (creditsBook cs)
  rows : (cs.map fun c => (c.userId, c.grossAmount)).Perm credits.toList
  split : ∀ c ∈ cs, c.Split (w.amount (c.userId, .counter .debt))

theorem creditAll_ok {credit}
    (hcredit : ∀ {w w' userId amount c}, credit w userId amount = .ok (w', c) →
      Posted w w' (creditsBook [c]) ∧ c.Split (w.amount (userId, .counter .debt)) ∧
        c.userId = userId ∧ c.grossAmount = amount) {l cs} (hnodup : (l.map Prod.fst).Nodup)
    (h : creditAll credit l w = .ok (w', cs)) :
    Posted w w' (creditsBook cs) ∧ (cs.map fun c => (c.userId, c.grossAmount)) = l ∧
      ∀ c ∈ cs, c.Split (w.amount (c.userId, .counter .debt)) := by
  induction l generalizing w w' cs with
  | nil =>
    obtain ⟨rfl, rfl⟩ := h
    exact ⟨(refl w).congr (by simp [creditsBook]), rfl, by simp⟩
  | cons e l ih =>
    obtain ⟨userId, amount⟩ := e
    simp only [creditAll, bind_eq_ok, pure_eq_ok, Prod.exists, Prod.mk.injEq] at h
    obtain ⟨w₁, c, hc, w₂, cs, hcs, rfl, rfl⟩ := h
    simp only [List.map_cons, List.nodup_cons] at hnodup
    obtain ⟨p, hsplit, huser, hgross⟩ := hcredit hc
    obtain ⟨p', hrows, hsplits⟩ := ih hnodup.2 hcs
    refine ⟨(p.trans p').congr (creditsBook_cons c cs).symm, by simp [huser, hgross, hrows], ?_⟩
    intro c' hc'
    rcases List.mem_cons.mp hc' with rfl | hc'
    · rwa [huser]
    · -- a later user is another one, so this credit left its debt alone
      have hne : c.userId ≠ c'.userId := by
        rw [huser]
        rintro rfl
        apply hnodup.1
        rw [← hrows, List.map_map]
        exact List.mem_map.mpr ⟨c', hc', rfl⟩
      have hdebt : w₁.amount (c'.userId, .counter .debt) =
          w.amount (c'.userId, .counter .debt) := by
        rw [p.amount]
        simp [creditsBook, post_apply, hne]
      rw [← hdebt]
      exact hsplits c' hc'

theorem Credited.of_creditAll {credit : Wallets → String → Int64 → Result (Wallets × Credit)}
    (hcredit : ∀ {w w' userId amount c}, credit w userId amount = .ok (w', c) →
      Posted w w' (creditsBook [c]) ∧ c.Split (w.amount (userId, .counter .debt)) ∧
        c.userId = userId ∧ c.grossAmount = amount) {ports : Ports} {credits : Store String Int64}
    {cs : List Credit} (h : creditAll credit (ports.iter credits) w = .ok (w', cs)) :
    Credited w w' credits cs := by
  have hperm := ports.iter_perm credits
  have hnodup : ((ports.iter credits).map Prod.fst).Nodup := by
    rw [(hperm.map Prod.fst).nodup_iff, Store.map_fst_toList]
    exact credits.nodup_keys
  obtain ⟨p, hrows, hsplit⟩ := creditAll_ok hcredit hnodup h
  exact ⟨p, hrows ▸ hperm, hsplit⟩

namespace Credited

variable {w w' : Wallets} {credits : Store String Int64} {cs : List Credit}

/-- A sum over the credits made is a sum over the credits asked for. -/
theorem sum_eq (h : Credited w w' credits cs) (f : String → Int64 → ℤ) :
    (cs.map fun c => f c.userId c.grossAmount).sum = credits.sumBy f := by
  have := (h.rows.map fun e => f e.1 e.2).sum_eq
  simpa [Store.sumBy, Function.comp_def] using this

theorem earned (h : Credited w w' credits cs) (user : String) :
    creditsBook cs (user, .counter .earned) = credits.value user := by
  rw [creditsBook_earned, h.sum_eq fun u x => if u = user then x.toInt else 0,
    ← Store.book_apply, ← Book.total_ite, Store.total_book]
  simp only [ite_mul, one_mul, zero_mul]

end Credited

/-! ## What held funds post -/

/-- An amount moved from a wallet's balance to its held counter, `portion` of it recorded as drawn
from the withdrawable part. -/
structure Funded (w w' : Wallets) (payerId : String) (amount portion : Int64) : Prop where
  account : (w.account payerId).isSome
  backed : w.amount (payerId, .counter .withdrawable) ≤ w.amount (payerId, .available)
  covered : amount.toInt ≤ w.amount (payerId, .available)
  portion_eq : portion.toInt = amount.toInt -
    (w.amount (payerId, .available) - w.amount (payerId, .counter .withdrawable))
  posted : Posted w w'
    (post (payerId, .counter .withdrawable) (-portion.toInt) +
      post (payerId, .available) (-amount.toInt) + post (payerId, .counter .held) amount.toInt)

theorem refundHeld_ok {payerId withdrawableRefund}
    (h : refundHeld w payerId amount withdrawableRefund = .ok w') :
    Posted w w' (post (payerId, .counter .withdrawable) withdrawableRefund.toInt +
      post (payerId, .available) amount.toInt + post (payerId, .counter .held) (-amount.toInt)) := by
  simp only [refundHeld, bind_eq_ok, okOr_eq_ok, checkedAdd_eq_some, checkedSub_eq_some] at h
  obtain ⟨balance, hbal, balance', hbal', wd, hwd, wd', hwd', w₁, hset, w₂, hstore, held, hheld,
    held', hheld', hset'⟩ := h
  have hbal := Wallets.amount_of_account hbal
  obtain ⟨hwd, -⟩ := Wallets.counter_ok hwd
  obtain ⟨hheld, -⟩ := Wallets.counter_ok hheld
  have p₁ := (of_setCounter hset (by rw [hwd', hwd])).1
  have p₂ := of_storeAccount (d := amount.toInt) hstore (by
    rw [hbal', ← hbal, p₁.amount]; simp [post_apply])
  have p₃ := (of_setCounter (d := -amount.toInt) hset' (by rw [hheld', hheld]; ring)).1
  exact (p₁.trans p₂).trans p₃

theorem chargeHeld_ok {payerId} (h : chargeHeld w payerId amount = .ok w') :
    Posted w w' (post (payerId, .counter .held) (-amount.toInt) +
      post (payerId, .counter .spent) amount.toInt) := by
  simp only [chargeHeld, bind_eq_ok, okOr_eq_ok, checkedSub_eq_some] at h
  obtain ⟨held, hheld, held', hheld', w₁, hset, hadd⟩ := h
  obtain ⟨hheld, -⟩ := Wallets.counter_ok hheld
  have p₁ := (of_setCounter (d := -amount.toInt) hset (by rw [hheld', hheld]; ring)).1
  exact p₁.trans (of_addCounter hadd).1

end Aseman.Finance
