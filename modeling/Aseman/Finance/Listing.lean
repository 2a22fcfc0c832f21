import Aseman.Finance.Audit
import Aseman.Finance.PoolAccounts
import Aseman.Finance.WellFormed

/-!
# What the reconciler reads of a ledger

On the listing of a ledger whose documents are well formed no reading is skipped: each document
adds its rows to the totals, and a counter's links are the counters. So a total is the sum over
the documents, as long as it fits, and it agrees with the counter when the counter is that sum.
-/

namespace Aseman.Finance

open Json Audit

/-! ## The rows of the documents -/

def Hold.heldRows (h : Hold) : List (String × Int64) :=
  if h.status.active = true then [(h.payerUserId, h.maxAmount)] else []

def Hold.spentRows (h : Hold) : List (String × Int64) :=
  if h.status = .settled then [(h.payerUserId, h.actualAmount.getD (-1))] else []

def Hold.earnedRows (h : Hold) : List (String × Int64) :=
  if h.status = .settled then (lineRows h.settlementLines).map fun l => (l.userId, l.amount) else []

def Pool.heldRows (p : Pool) : List (String × Int64) :=
  if p.status = .opened then [(p.payerUserId, saturatingAdd p.remaining p.reserved)] else []

def Reservation.spentRows (r : Reservation) : List (String × Int64) :=
  if r.status = .settled then [(r.payerUserId, r.actualAmount.getD (-1))] else []

def Reservation.earnedRows (r : Reservation) : List (String × Int64) :=
  if r.status = .settled then (lineRows r.settlementLines).map fun l => (l.userId, l.amount) else []

def LiveDebit.spentRows (d : LiveDebit) : List (String × Int64) := [(d.payerUserId, d.chargedTotal)]

def LiveDebit.earnedRows (d : LiveDebit) : List (String × Int64) :=
  (d.creditsJson.map LineRow.readCredit).map fun l => (l.userId, l.amount)

theorem SettledLines.rows_pos {actualAmount settlementLines actual lines}
    (h : SettledLines actualAmount settlementLines actual lines) :
    ∀ line ∈ lineRows (some lines), 0 < line.amount.toInt := by
  intro row hrow
  obtain ⟨line, hline, rfl⟩ := List.mem_map.mp hrow
  exact (h.valid line hline).pos

theorem before_capKey {userId} (h : validFinanceId userId = true) (role : String) :
    Text.before '|' (capKey userId role) = userId :=
  Text.before_append (bar_notMem_of_validFinanceId h)

theorem LiveDebit.WellFormed.credit {d : LiveDebit} (hd : d.WellFormed) :
    ∀ row ∈ d.creditsJson.map LineRow.readCredit, row.userId ≠ "" ∧ 0 < row.amount.toInt := by
  intro row hrow
  obtain ⟨⟨key, x⟩, he, rfl⟩ := List.mem_map.mp (d.readCredits_perm.mem_iff.mp hrow)
  have hget := Store.mem_toList_iff.mp he
  obtain ⟨userId, role, hvalid, rfl⟩ := hd.credits_key key (by simp [hget])
  refine ⟨?_, hd.credits_pos _ x hget⟩
  rw [before_capKey hvalid]
  exact validFinanceId_ne_empty hvalid

/-! ## What each reading adds -/

namespace Audit

variable (a : Audit)

theorem totals_creditLines_of_ne (code : IssueCode) (reference detail : String)
    (bad : LineRow → Bool) (lines : List LineRow) {t} (ht : t ≠ .earned) :
    (a.creditLines code reference detail bad lines).1.totals t = a.totals t :=
  (Extends.creditLines (.refl a) (List.mem_singleton_self code) (List.mem_singleton_self Tally.earned)
    reference detail bad lines).totals t (by simpa using ht)

theorem activeHold_totals (holdId : String) (row : HoldRow) :
    (a.activeHold holdId row).totals .held =
        tallyAll (a.totals .held) [(row.payer, row.maxAmount)] ∧
      (a.activeHold holdId row).totals .spent = a.totals .spent ∧
      (a.activeHold holdId row).totals .earned = a.totals .earned := by
  unfold activeHold
  split <;> simp [totals_tally]

theorem settledHoldRow_totals (holdId : String) {row}
    (hrow : ¬ (row.remaining ≠ 0 ∨ row.actual < 0 ∨ row.refunded < 0 ∨
      checkedAdd row.actual row.refunded ≠ some row.maxAmount))
    (hlines : ∀ line ∈ row.lines, 0 < line.amount.toInt) :
    (a.settledHoldRow holdId row).totals .held = a.totals .held ∧
      (a.settledHoldRow holdId row).totals .spent =
        tallyAll (a.totals .spent) [(row.payer, row.actual)] ∧
      (a.settledHoldRow holdId row).totals .earned =
        tallyAll (a.totals .earned) (row.lines.map fun line => (line.userId, line.amount)) := by
  have hgood : ∀ line ∈ row.lines, decide (line.amount ≤ 0) = false := fun line hline =>
    decide_eq_false (not_nonpos_iff_toInt.mpr (hlines line hline))
  unfold settledHoldRow
  rw [if_neg hrow]
  split <;>
    simp [totals_tally, totals_creditLines_of_ne, totals_creditLines a _ _ _ hgood]

variable (id : String)

theorem hold_totals {h : Hold} (hh : h.WellFormed) :
    (a.hold (id, some h.toJson)).totals .held = tallyAll (a.totals .held) h.heldRows ∧
    (a.hold (id, some h.toJson)).totals .spent = tallyAll (a.totals .spent) h.spentRows ∧
    (a.hold (id, some h.toJson)).totals .earned = tallyAll (a.totals .earned) h.earnedRows := by
  have hvalid : ¬ (h.payerUserId = "" ∨ h.maxAmount ≤ 0) := by
    simp [validFinanceId_ne_empty hh.payer, not_nonpos_iff_toInt.mpr hh.positive]
  simp only [hold, HoldRow.read_toJson, holdRow, if_neg hvalid, Hold.heldRows, Hold.spentRows,
    Hold.earnedRows]
  cases hstatus : h.status with
  | opened | running => simpa [HoldStatus.text] using activeHold_totals _ id _
  | settled =>
    obtain ⟨actual, refunded, lines, hs⟩ := hh.settled hstatus
    have hactual : ¬ actual < 0 := not_neg_iff_toInt.mpr hs.lines.actual_nonneg
    have hrefunded : ¬ refunded < 0 := not_neg_iff_toInt.mpr hs.refunded_nonneg
    have hsum : checkedAdd actual refunded = some h.maxAmount := checkedAdd_eq_some.mpr hs.sum.symm
    simp only [HoldStatus.text, hs.lines.actual_eq, hs.lines.lines_eq, hs.refunded_eq, hs.remaining]
    exact settledHoldRow_totals _ id (by simp [hactual, hrefunded, hsum]) hs.lines.rows_pos
  | released => simp [HoldStatus.text]
  | expired => simp [HoldStatus.text]

theorem pool_totals {p : Pool} {reserved : ℤ} (hpayer : p.payerUserId ≠ "")
    (hp : p.Balanced reserved) :
    (a.pool (id, some p.toJson)).totals .held = tallyAll (a.totals .held) p.heldRows := by
  have hmax : ¬ p.maxAmount < 0 := not_neg_iff_toInt.mpr (by
    have := hp.sum
    have := hp.remaining_nonneg
    have := hp.reserved_nonneg
    have := hp.spent_nonneg
    have := hp.refunded_nonneg
    omega)
  have hvalid : ¬ (p.payerUserId = "" ∨ p.maxAmount < 0 ∨ p.remaining < 0 ∨ p.reserved < 0 ∨
      p.spent < 0 ∨ p.refunded < 0) := by
    simp [hpayer, hmax, not_neg_iff_toInt.mpr hp.remaining_nonneg,
      not_neg_iff_toInt.mpr hp.reserved_nonneg, not_neg_iff_toInt.mpr hp.spent_nonneg,
      not_neg_iff_toInt.mpr hp.refunded_nonneg]
  simp only [pool, PoolRow.read_toJson, poolRow, if_neg hvalid, Pool.heldRows]
  cases p.status with
  | opened => simp [PoolStatus.text, totals_tally]
  | closed => simp [PoolStatus.text]

theorem reservation_totals {r : Reservation} (hr : r.WellFormed) :
    (a.reservation (id, some r.toJson)).totals .spent = tallyAll (a.totals .spent) r.spentRows ∧
    (a.reservation (id, some r.toJson)).totals .earned =
      tallyAll (a.totals .earned) r.earnedRows := by
  have hvalid : ¬ (r.payerUserId = "" ∨ r.poolId = "" ∨ r.amount < 0) := by
    simp [hr.payer, hr.pool, not_neg_iff_toInt.mpr hr.positive.le]
  simp only [reservation, ReservationRow.read_toJson, reservationRow, if_neg hvalid,
    Reservation.spentRows, Reservation.earnedRows]
  cases hstatus : r.status with
  | reserved => simp [ReservationStatus.text, totals_tally]
  | settled =>
    obtain ⟨actual, lines, hs⟩ := hr.settled hstatus
    have hactual : ¬ actual < 0 := not_neg_iff_toInt.mpr hs.actual_nonneg
    have hgood : ∀ line ∈ lineRows (some lines), decide (line.amount ≤ 0) = false :=
      fun line hline => decide_eq_false (not_nonpos_iff_toInt.mpr (hs.rows_pos line hline))
    simp [ReservationStatus.text, hs.actual_eq, hs.lines_eq, settledReservationRow, hactual,
      totals_tally, totals_creditLines_of_ne, totals_creditLines a _ _ _ hgood]
  | released => simp [ReservationStatus.text]

theorem liveDebit_totals {d : LiveDebit} (hd : d.WellFormed) :
    (a.liveDebit (id, some d.toJson)).totals .spent = tallyAll (a.totals .spent) d.spentRows ∧
    (a.liveDebit (id, some d.toJson)).totals .earned =
      tallyAll (a.totals .earned) d.earnedRows := by
  have hvalid : ¬ (d.payerUserId = "" ∨ d.chargedTotal < 0) := by
    simp [hd.payer, not_neg_iff_toInt.mpr hd.charged_nonneg]
  have hgood : ∀ line ∈ d.creditsJson.map LineRow.readCredit,
      decide (line.userId = "" ∨ line.amount ≤ 0) = false := fun line hline => by
    simp [(hd.credit line hline).1, not_nonpos_iff_toInt.mpr (hd.credit line hline).2]
  simp only [liveDebit, LiveDebitRow.read_toJson, liveDebitRow, if_neg hvalid, LiveDebit.spentRows,
    LiveDebit.earnedRows]
  refine ⟨by simp [totals_tally, totals_creditLines_of_ne], ?_⟩
  rw [totals_tally, if_neg (by decide), totals_reportIf, totals_creditLines a _ _ _ hgood]

/-- The readings of a family of documents, each of which adds its rows. -/
theorem foldl_totals {α : Type} {l : List (String × α)} {json : α → Map}
    {read : Audit → String × Option Map → Audit} {rows : α → List (String × Int64)} {t : Tally}
    (hread : ∀ a, ∀ e ∈ l, (read a (e.1, some (json e.2))).totals t =
      tallyAll (a.totals t) (rows e.2)) (a : Audit) :
    ((l.map fun e => (e.1, some (json e.2))).foldl read a).totals t =
      tallyAll (a.totals t) (l.flatMap fun e => rows e.2) := by
  induction l generalizing a with
  | nil => rfl
  | cons e l ih =>
    simp only [List.mem_cons, forall_eq_or_imp] at hread
    rw [List.map_cons, List.foldl_cons, ih (fun a => (hread a).2), (hread a).1,
      List.flatMap_cons, tallyAll_append]

end Audit

/-! ## What the whole listing adds -/

theorem mem_sortedRows {α : Type} {m : Store String α} {e : String × α} (he : e ∈ sortedRows m) :
    m.get e.1 = some e.2 :=
  Store.mem_toList_iff.mp ((sortedRows_perm m).mem_iff.mp he)

theorem rowBook_sortedRows {α : Type} (m : Store String α) (rows : α → List (String × Int64))
    (user : String) :
    rowBook ((sortedRows m).flatMap fun e => rows e.2) user =
      m.sumBy fun _ x => rowBook (rows x) user := by
  rw [Store.sumBy, ← ((sortedRows_perm m).map _).sum_eq]
  induction sortedRows m with
  | nil => rfl
  | cons e l ih =>
    rw [List.flatMap_cons, rowBook, Book.ofRows_append, List.map_cons, List.sum_cons, ← ih]
    rfl

namespace Ledger

def heldRows (s : Ledger) : List (String × Int64) :=
  ((sortedRows s.holds).flatMap fun e => e.2.heldRows) ++
    (sortedRows s.pools).flatMap fun e => e.2.heldRows

def spentRows (s : Ledger) : List (String × Int64) :=
  ((sortedRows s.holds).flatMap fun e => e.2.spentRows) ++
    (((sortedRows s.reservations).flatMap fun e => e.2.spentRows) ++
      (sortedRows s.liveDebits).flatMap fun e => e.2.spentRows)

def earnedRows (s : Ledger) : List (String × Int64) :=
  ((sortedRows s.holds).flatMap fun e => e.2.earnedRows) ++
    (((sortedRows s.reservations).flatMap fun e => e.2.earnedRows) ++
      (sortedRows s.liveDebits).flatMap fun e => e.2.earnedRows)

variable {s : Ledger}

/-- **No document of a ledger is skipped.** -/
theorem scan_totals (hd : Documented s) (hp : PoolInvariant s) (a : Audit) :
    (s.records.scan a).totals .held = tallyAll (a.totals .held) s.heldRows ∧
    (s.records.scan a).totals .spent = tallyAll (a.totals .spent) s.spentRows ∧
    (s.records.scan a).totals .earned = tallyAll (a.totals .earned) s.earnedRows := by
  have hhold : ∀ a, ∀ e ∈ sortedRows s.holds, _ := fun a e he =>
    hold_totals a e.1 (hd.hold _ _ (mem_sortedRows he))
  have hpool : ∀ a, ∀ e ∈ sortedRows s.pools, _ := fun a e he =>
    pool_totals a e.1 (hd.pool _ _ (mem_sortedRows he)).2 (hp.balanced _ _ (mem_sortedRows he))
  have hreservation : ∀ a, ∀ e ∈ sortedRows s.reservations, _ := fun a e he =>
    reservation_totals a e.1 (hd.reservation _ _ (mem_sortedRows he))
  have hliveDebit : ∀ a, ∀ e ∈ sortedRows s.liveDebits, _ := fun a e he =>
    liveDebit_totals a e.1 (hd.liveDebit _ _ (mem_sortedRows he))
  -- the families that leave a total alone
  have hpools := fun a => Extends.foldl pool_extends s.records.pools a
  have hreservations := fun a =>
    Extends.foldl reservation_extends s.records.reservations a
  have hliveDebits := fun a => Extends.foldl liveDebit_extends s.records.liveDebits a
  unfold Records.scan
  refine ⟨?_, ?_, ?_⟩
  · rw [(hliveDebits _).totals .held (by decide), (hreservations _).totals .held (by decide)]
    simp only [records]
    rw [foldl_totals hpool, foldl_totals fun a e he => (hhold a e he).1,
      ← tallyAll_append, heldRows]
  · simp only [records] at hpools ⊢
    rw [foldl_totals fun a e he => (hliveDebit a e he).1,
      foldl_totals fun a e he => (hreservation a e he).1, (hpools _).totals .spent (by decide),
      foldl_totals fun a e he => (hhold a e he).2.1, ← tallyAll_append, ← tallyAll_append,
      spentRows]
  · simp only [records] at hpools ⊢
    rw [foldl_totals fun a e he => (hliveDebit a e he).2,
      foldl_totals fun a e he => (hreservation a e he).2,
      (hpools _).totals .earned (by decide),
      foldl_totals fun a e he => (hhold a e he).2.2, ← tallyAll_append, ← tallyAll_append,
      earnedRows]

/-! ## What the counters are compared with -/

theorem counterLinks_nodup (s : Ledger) (kind : WalletCounter) :
    ((s.records.counterLinks kind).map Prod.fst).Nodup := by
  have hkeys : (sortedRows s.wallets.accounts).Pairwise fun e e' => e.1 ≠ e'.1 := by
    rw [← List.pairwise_map]
    refine (((sortedRows_perm s.wallets.accounts).map Prod.fst).nodup_iff).mpr ?_
    rw [Store.map_fst_toList]
    exact Store.nodup_keys _
  rw [List.Nodup, List.pairwise_map]
  refine hkeys.filterMap _ ?_
  rintro e e' hne link hlink link' hlink'
  simp only [Option.map_eq_some_iff] at hlink hlink'
  obtain ⟨x, -, rfl⟩ := hlink
  obtain ⟨x', -, rfl⟩ := hlink'
  exact hne

theorem mem_counterLinks {s : Ledger} {kind : WalletCounter} {user : String} {x : Int64} :
    (user, x) ∈ s.records.counterLinks kind ↔
      (s.wallets.accounts.get user).bind (·.value kind) = some x := by
  simp only [records, List.mem_filterMap, (sortedRows_perm s.wallets.accounts).mem_iff]
  constructor
  · rintro ⟨⟨user', account⟩, he, hx⟩
    simp only [Option.map_eq_some_iff, Prod.mk.injEq] at hx
    obtain ⟨x', hx', rfl, rfl⟩ := hx
    rw [Store.mem_toList_iff.mp he]
    exact hx'
  · intro hx
    obtain ⟨account, haccount, hx⟩ := Option.bind_eq_some_iff.mp hx
    exact ⟨(user, account), Store.mem_toList_iff.mpr haccount, by simp [hx]⟩

end Ledger

variable {rows : List (String × Int64)}

theorem rowBook_of_notMem {user} (h : user ∉ rows.map Prod.fst) : rowBook rows user = 0 := by
  rw [rowBook_apply]
  apply List.sum_eq_zero
  intro x hx
  obtain ⟨row, hrow, rfl⟩ := List.mem_map.mp hx
  exact if_neg fun heq : row.1 = user => h (heq ▸ List.mem_map_of_mem hrow)

theorem rowBook_of_mem (hnodup : (rows.map Prod.fst).Nodup) {user x} (h : (user, x) ∈ rows) :
    rowBook rows user = x.toInt := by
  induction rows with
  | nil => cases h
  | cons row rows ih =>
    rw [List.map_cons, List.nodup_cons] at hnodup
    have hcons : rowBook (row :: rows) user =
        (if row.1 = user then row.2.toInt else 0) + rowBook rows user := by
      rw [rowBook, Book.ofRows_cons, Finsupp.add_apply, Book.post_apply]
      rfl
    rcases List.mem_cons.mp h with rfl | hmem
    · rw [hcons, rowBook_of_notMem hnodup.1]
      simp
    · have hne : row.1 ≠ user := fun heq =>
        hnodup.1 (heq ▸ List.mem_map_of_mem hmem)
      rw [hcons, if_neg hne, ih hnodup.2 hmem, zero_add]

theorem book_validLinks {links} (hnodup : (links.map Prod.fst).Nodup)
    (hpos : ∀ link ∈ links, 0 ≤ link.2.toInt) : (validLinks links).book = rowBook links := by
  suffices ∀ m : Store String Int64, (∀ key ∈ links.map Prod.fst, m.value key = 0) →
      (links.foldl (fun m link => if 0 ≤ link.2 then m.put link.1 link.2 else m) m).book =
        m.book + rowBook links by
    rw [validLinks, this ∅ (by simp [Store.value]), Store.book_empty, zero_add]
  induction links with
  | nil => simp [rowBook]
  | cons link links ih =>
    intro m hm
    simp only [List.map_cons, List.nodup_cons, List.mem_cons, forall_eq_or_imp] at hnodup hpos hm
    have hput : (m.put link.1 link.2).book = m.book + Book.post link.1 link.2.toInt :=
      Store.book_put (by rw [hm.1, zero_add])
    have hlink : 0 ≤ link.2 := Int64.le_iff_toInt_le.mpr hpos.1
    rw [List.foldl_cons, if_pos hlink, ih hnodup.2 hpos.2, hput, add_assoc]
    · simp [rowBook]
    · intro key hkey
      have hne : link.1 ≠ key := fun heq => hnodup.1 (heq ▸ hkey)
      rw [← Store.book_apply, hput, Finsupp.add_apply, Book.post_apply, if_neg hne,
        Store.book_apply, hm.2 key hkey, add_zero]

/-! ## Counters that the documents determine -/

/-- A user's counter is what the documents say of that user. -/
def CounterIdentity (kind : WalletCounter) (docs : Ledger → String → ℤ) (s : Ledger) : Prop :=
  ∀ user, s.wallets.amount (user, .counter kind) = docs s user

namespace CounterIdentity

variable {kind : WalletCounter} {docs : Ledger → String → ℤ} {s s' : Ledger}

theorem of_moved (h : CounterIdentity kind docs s) (d : String → ℤ)
    (hcounter : ∀ user, s'.wallets.amount (user, .counter kind) =
      s.wallets.amount (user, .counter kind) + d user)
    (hdocs : ∀ user, docs s' user = docs s user + d user) : CounterIdentity kind docs s' := by
  intro user
  rw [hcounter, hdocs, h user]

theorem of_unmoved (h : CounterIdentity kind docs s)
    (hcounter : ∀ user, s'.wallets.amount (user, .counter kind) =
      s.wallets.amount (user, .counter kind))
    (hdocs : ∀ user, docs s' user = docs s user) : CounterIdentity kind docs s' := by
  intro user
  rw [hcounter, hdocs, h user]

end CounterIdentity

namespace Ledger

theorem rowBook_counterLinks (s : Ledger) (kind : WalletCounter) (user : String) :
    rowBook (s.records.counterLinks kind) user = s.wallets.amount (user, .counter kind) := by
  simp only [Wallets.amount, Wallets.counterValue]
  cases hx : (s.wallets.accounts.get user).bind (·.value kind) with
  | some x => exact rowBook_of_mem (s.counterLinks_nodup kind) (mem_counterLinks.mpr hx)
  | none =>
    refine rowBook_of_notMem fun hmem => ?_
    obtain ⟨⟨user', x⟩, hlink, rfl⟩ := List.mem_map.mp hmem
    rw [mem_counterLinks, hx] at hlink
    cases hlink

variable {s : Ledger}

theorem counterLinks_nonneg (hn : s.wallets.Nonneg) (kind : WalletCounter) :
    ∀ link ∈ s.records.counterLinks kind, 0 ≤ link.2.toInt := by
  intro link hlink
  rw [← rowBook_of_mem (s.counterLinks_nodup kind) hlink, rowBook_counterLinks]
  exact hn link.1 kind

/-- The total of rows that a counter is the sum of: no partial sum overflows, since the counter did
not. -/
theorem book_tallyAll_of_counter {kind} (hrows : ∀ row ∈ rows, row.1 ≠ "" ∧ 0 ≤ row.2.toInt)
    (hsum : ∀ user, s.wallets.amount (user, .counter kind) = rowBook rows user) :
    (tallyAll ∅ rows).book = rowBook rows := by
  have hfits : ∀ key, (∅ : Store String Int64).value key + rowBook rows key < 2 ^ 63 := by
    intro key
    have := (s.wallets.counterValue kind key).toInt_lt
    rw [← hsum key]
    simpa [Store.value, Wallets.amount] using this
  rw [book_tallyAll hrows (by simp [Store.value]) hfits, Store.book_empty, zero_add]

/-- **A counter that is the sum of its rows** agrees with the total of these rows. -/
theorem agrees_of_rows {kind} (hn : s.wallets.Nonneg)
    (hrows : ∀ row ∈ rows, row.1 ≠ "" ∧ 0 ≤ row.2.toInt)
    (hsum : ∀ user, s.wallets.amount (user, .counter kind) = rowBook rows user) :
    Agrees (tallyAll ∅ rows) (s.records.counterLinks kind) where
  nonneg := counterLinks_nonneg hn kind
  value user := by
    rw [← Store.book_apply, ← Store.book_apply,
      book_validLinks (s.counterLinks_nodup kind) (counterLinks_nonneg hn kind),
      book_tallyAll_of_counter hrows hsum, rowBook_counterLinks, hsum]

end Ledger

end Aseman.Finance
