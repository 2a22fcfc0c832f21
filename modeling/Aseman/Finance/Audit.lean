import Aseman.Finance.Reconcile
import Aseman.Lib.Book

/-!
# What the reconciler adds up and reports

Two facts carry every statement about the reconciler. Each of its stages reports only issues of
its own codes and adds only to its own totals (`Audit.Extends`), so the comparison of a counter
sees the totals of the documents and nothing after it can report a mismatch of that counter. And a
total is the sum of its rows, when every row has a key and a nonnegative amount and the sum fits
(`book_tallyAll`).
-/

namespace Aseman.Finance

open Json

/-! ## Totals -/

variable (totals : Store String Int64) (rows : List (String × Int64))

def tallyAll : Store String Int64 :=
  rows.foldl (fun m row => (financeMapAdd m row.1 row.2).getD m) totals

@[simp] theorem tallyAll_nil : tallyAll totals [] = totals := rfl

theorem tallyAll_append (rows rows' : List (String × Int64)) :
    tallyAll totals (rows ++ rows') = tallyAll (tallyAll totals rows) rows' :=
  List.foldl_append

noncomputable def rowBook : Book String := Book.ofRows Prod.fst (fun row => row.2.toInt) rows

theorem rowBook_apply (user : String) :
    rowBook rows user = (rows.map fun row => if row.1 = user then row.2.toInt else 0).sum :=
  Book.ofRows_apply _ _ _ _

variable {key : String} {amount : Int64}

theorem financeMapAdd_of_fits {m} (hkey : key ≠ "") (hamount : 0 ≤ amount.toInt)
    (hm : 0 ≤ m.value key) (hfits : m.value key + amount.toInt < 2 ^ 63) :
    ∃ x : Int64, financeMapAdd m key amount = some (m.put key x) ∧
      x.toInt = m.value key + amount.toInt := by
  obtain ⟨x, hadd, hx⟩ := exists_checkedAdd (a := (m.get key).getD 0) (b := amount)
    (by rw [Store.value] at hm; omega) (by rw [Store.value] at hfits; omega)
  have hneg : ¬ amount < 0 := not_neg_iff_toInt.mpr hamount
  exact ⟨x, by simp [financeMapAdd, hkey, hneg, hadd], hx⟩

/-- **A total is the sum of its rows**, when each row can be added and the sum fits. -/
theorem book_tallyAll {rows m} (hrows : ∀ row ∈ rows, row.1 ≠ "" ∧ 0 ≤ row.2.toInt)
    (hm : ∀ key, 0 ≤ m.value key) (hfits : ∀ key, m.value key + rowBook rows key < 2 ^ 63) :
    (tallyAll m rows).book = m.book + rowBook rows := by
  induction rows generalizing m with
  | nil => simp [rowBook]
  | cons row rows ih =>
    obtain ⟨key, amount⟩ := row
    simp only [List.mem_cons, forall_eq_or_imp] at hrows
    have hrest : ∀ k, 0 ≤ rowBook rows k := Book.ofRows_nonneg _ _ fun r hr => (hrows.2 r hr).2
    have hcons : rowBook ((key, amount) :: rows) = Book.post key amount.toInt + rowBook rows :=
      Book.ofRows_cons _ _ _ _
    simp only [hcons, Finsupp.add_apply, Book.post_apply] at hfits
    have hkey := hfits key
    rw [if_pos rfl] at hkey
    have := hrest key
    obtain ⟨x, hadd, hx⟩ := financeMapAdd_of_fits hrows.1.1 hrows.1.2 (hm key) (by omega)
    have hput : ∀ k, (m.put key x).value k = m.value k + if key = k then amount.toInt else 0 := by
      intro k
      rw [← Store.book_apply, Store.book_put hx, Finsupp.add_apply, Book.post_apply,
        Store.book_apply]
    have hstep : tallyAll m ((key, amount) :: rows) = tallyAll (m.put key x) rows := by
      simp [tallyAll, hadd]
    rw [hstep, ih hrows.2 ?_ ?_, Store.book_put hx, hcons, add_assoc]
    · intro k
      have := hm k
      rw [hput]
      split <;> omega
    · intro k
      have := hfits k
      rw [hput]
      omega

/-! ## What a stage may change -/

namespace Audit

/-- A stage adds issues of the given codes, and amounts to the given totals. -/
structure Extends (codes : List IssueCode) (tallies : List Tally) (a a' : Audit) : Prop where
  issues : ∀ i ∈ a'.issues, i ∈ a.issues ∨ i.code ∈ codes
  totals : ∀ t ∉ tallies, a'.totals t = a.totals t

variable {codes : List IssueCode} {tallies : List Tally} {a a' a'' : Audit}

@[simp] theorem totals_report (a : Audit) (code : IssueCode) (reference detail : String) :
    (a.report code reference detail).totals = a.totals := by
  unfold report
  split <;> rfl

@[simp] theorem totals_reportIf (a : Audit) (c : Prop) [Decidable c] (code : IssueCode)
    (reference detail : String) : (a.reportIf c code reference detail).totals = a.totals := by
  unfold reportIf
  split <;> simp

variable {t : Tally}

theorem totals_add (h : a.add t key amount = some a') (t' : Tally) :
    a'.totals t' = if t' = t then tallyAll (a.totals t) [(key, amount)] else a.totals t' := by
  simp only [add, Option.map_eq_some_iff] at h
  obtain ⟨m, hm, rfl⟩ := h
  by_cases ht : t' = t
  · subst ht
    simp [tallyAll, hm]
  · simp [ht]

theorem totals_tally (a : Audit) (t t' : Tally) (key : String) (amount : Int64)
    (code : IssueCode) (reference detail : String) :
    (a.tally t key amount code reference detail).totals t' =
      if t' = t then tallyAll (a.totals t) [(key, amount)] else a.totals t' := by
  cases h : a.add t key amount with
  | some a' => rw [tally, h, Option.getD_some, totals_add h]
  | none =>
    have hm : financeMapAdd (a.totals t) key amount = none := by simpa [add] using h
    simp only [tally, h, Option.getD_none, totals_report, tallyAll, List.foldl_cons, hm,
      List.foldl_nil]
    split <;> simp_all

namespace Extends

theorem refl (a : Audit) : Extends codes tallies a a := ⟨fun _ => .inl, fun _ _ => rfl⟩

variable (h : Extends codes tallies a a')

include h

theorem trans (h' : Extends codes tallies a' a'') : Extends codes tallies a a'' where
  issues i hi := (h'.issues i hi).elim (h.issues i) .inr
  totals t ht := (h'.totals t ht).trans (h.totals t ht)

theorem mono {tallies'} (ht : tallies ⊆ tallies') : Extends codes tallies' a a' :=
  ⟨h.issues, fun t hmem => h.totals t fun h' => hmem (ht h')⟩

variable {code : IssueCode}

theorem report (hcode : code ∈ codes) (reference detail : String) :
    Extends codes tallies a (a'.report code reference detail) where
  issues i hi := by
    unfold Audit.report at hi
    split at hi
    · rcases List.mem_append.mp hi with hi | hi
      · exact h.issues i hi
      · rw [List.mem_singleton.mp hi]
        exact .inr hcode
    · exact h.issues i hi
  totals t ht := by rw [totals_report, h.totals t ht]

theorem reportIf (hcode : code ∈ codes) (c : Prop) [Decidable c] (reference detail : String) :
    Extends codes tallies a (a'.reportIf c code reference detail) := by
  unfold Audit.reportIf
  split
  · exact h.report hcode _ _
  · exact h

theorem add (hadd : a'.add t key amount = some a'')
    (ht : t ∈ tallies) : Extends codes tallies a a'' where
  issues i hi := by
    simp only [Audit.add, Option.map_eq_some_iff] at hadd
    obtain ⟨m, -, rfl⟩ := hadd
    exact h.issues i hi
  totals t' ht' := by
    have hne : t' ≠ t := fun heq => ht' (heq ▸ ht)
    rw [totals_add hadd, if_neg hne, h.totals t' ht']

theorem tally (hcode : code ∈ codes) (ht : t ∈ tallies)
    (key : String) (amount : Int64) (reference detail : String) :
    Extends codes tallies a (a'.tally t key amount code reference detail) := by
  cases hadd : a'.add t key amount with
  | none => simpa [Audit.tally, hadd] using h.report hcode reference detail
  | some a'' => simpa [Audit.tally, hadd] using h.add hadd ht

theorem creditLines (hcode : code ∈ codes) (ht : .earned ∈ tallies)
    (reference detail : String) (bad : LineRow → Bool) (lines : List LineRow) :
    Extends codes tallies a (a'.creditLines code reference detail bad lines).1 := by
  suffices ∀ state : Audit × Int64, Extends codes tallies a state.1 →
      Extends codes tallies a (lines.foldl (creditLine code reference detail bad) state).1 from
    this (a', 0) h
  induction lines with
  | nil => exact fun _ h => h
  | cons line lines ih =>
    intro state h
    apply ih
    unfold creditLine
    split
    · exact h.report hcode _ _
    · split
      · exact h.report hcode _ _
      · next hadd => exact h.add hadd ht

omit h

theorem foldl {α : Type} {f} (hf : ∀ a x, Extends codes tallies a (f a x)) (l : List α) (a : Audit) :
    Extends codes tallies a (l.foldl f a) := by
  induction l generalizing a with
  | nil => exact refl a
  | cons x l ih => exact (hf a x).trans (ih (f a x))

end Extends

theorem totals_creditLines (a : Audit) (code : IssueCode) (reference detail : String) {bad lines}
    (hgood : ∀ line ∈ lines, bad line = false) :
    (a.creditLines code reference detail bad lines).1.totals .earned =
      tallyAll (a.totals .earned) (lines.map fun line => (line.userId, line.amount)) := by
  suffices ∀ state : Audit × Int64,
      (lines.foldl (creditLine code reference detail bad) state).1.totals .earned =
        tallyAll (state.1.totals .earned) (lines.map fun line => (line.userId, line.amount)) from
    this (a, 0)
  induction lines with
  | nil => exact fun _ => rfl
  | cons line lines ih =>
    intro state
    simp only [List.mem_cons, forall_eq_or_imp] at hgood
    have hstep : (creditLine code reference detail bad state line).1.totals .earned =
        tallyAll (state.1.totals .earned) [(line.userId, line.amount)] := by
      have htally := totals_tally state.1 .earned .earned line.userId line.amount code reference
        detail
      rw [if_pos rfl] at htally
      rw [← htally]
      simp only [creditLine, hgood.1, tally]
      cases state.1.add .earned line.userId line.amount <;> rfl
    rw [List.foldl_cons, ih hgood.2, hstep]
    rfl

/-! ## The stages -/

/-- The codes of the first reading of the documents. -/
def scanCodes : List IssueCode :=
  [.holdUnreadable, .holdInvalid, .holdRemainingMismatch, .heldOverflow, .projectReservedOverflow,
    .holdSettlementMismatch, .settlementLineInvalid, .settlementLinesMismatch, .spentOverflow,
    .projectSpentOverflow, .holdReleaseMismatch, .holdStatusInvalid, .poolUnreadable, .poolInvalid,
    .poolBalanceMismatch, .reservationUnreadable, .reservationInvalid, .reservationOverflow,
    .reservationSettlementInvalid, .reservationLineInvalid, .reservationLinesMismatch,
    .reservationStatusInvalid, .liveDebitUnreadable, .liveDebitInvalid, .liveDebitCreditInvalid,
    .liveDebitCreditMismatch]

theorem Extends.counted (hissues : a'.issues = a.issues) (htotals : a'.totals = a.totals) :
    Extends codes tallies a a' :=
  ⟨fun _ hi => .inl (hissues ▸ hi), fun _ _ => by rw [htotals]⟩

theorem activeHold_extends (a : Audit) (holdId : String) (row : HoldRow) :
    Extends scanCodes [.held, .projectReserved] a (a.activeHold holdId row) := by
  have hcounted : Extends scanCodes [.held, .projectReserved] a
      { a with activeHoldCount := a.activeHoldCount + 1 } := .counted rfl rfl
  unfold activeHold
  split
  · refine .tally (.tally (.reportIf hcounted ?_ ..) ?_ ?_ ..) ?_ ?_ .. <;> decide
  · refine .tally (.reportIf hcounted ?_ ..) ?_ ?_ .. <;> decide

theorem settledHoldRow_extends (a : Audit) (holdId : String) (row : HoldRow) :
    Extends scanCodes [.earned, .spent, .projectSpent] a (a.settledHoldRow holdId row) := by
  unfold settledHoldRow
  split
  · exact .report (.refl a) (by decide) ..
  · split
    · refine .tally (.tally (.reportIf (.creditLines (.refl a) ?_ ?_ ..) ?_ ..) ?_ ?_ ..) ?_ ?_ .. <;>
        decide
    · refine .tally (.reportIf (.creditLines (.refl a) ?_ ?_ ..) ?_ ..) ?_ ?_ .. <;> decide

theorem holdRow_extends (a : Audit) (holdId : String) (row : HoldRow) :
    Extends scanCodes [.held, .projectReserved, .earned, .spent, .projectSpent] a
      (a.holdRow holdId row) := by
  unfold holdRow
  split
  · exact .report (.refl a) (by decide) ..
  split
  · exact (activeHold_extends a holdId row).mono (by decide)
  split
  · exact (settledHoldRow_extends a holdId row).mono (by decide)
  split
  · exact .reportIf (.refl a) (by decide) ..
  · exact .report (.refl a) (by decide) ..

theorem hold_extends (a : Audit) (e : String × Option Map) :
    Extends scanCodes [.held, .projectReserved, .earned, .spent, .projectSpent] a (a.hold e) := by
  obtain ⟨holdId, _ | hold⟩ := e
  · exact .report (.refl a) (by decide) ..
  · have hcounted : Extends scanCodes [.held, .projectReserved, .earned, .spent, .projectSpent] a
        { a with holdCount := a.holdCount + 1 } := .counted rfl rfl
    exact hcounted.trans (holdRow_extends _ holdId _)

theorem pool_extends (a : Audit) (e : String × Option Map) :
    Extends scanCodes [.held] a (a.pool e) := by
  obtain ⟨poolId, _ | pool⟩ := e
  · exact .report (.refl a) (by decide) ..
  unfold Audit.pool poolRow
  dsimp only
  split
  · exact .report (.refl a) (by decide) ..
  split
  · refine .tally (.reportIf (.refl a) ?_ ..) ?_ ?_ .. <;> decide
  · exact .reportIf (.refl a) (by decide) ..

theorem settledReservationRow_extends (a : Audit) (runId : String) (row : ReservationRow) :
    Extends scanCodes [.earned, .spent] a (a.settledReservationRow runId row) := by
  unfold settledReservationRow
  split
  · exact .report (.refl a) (by decide) ..
  · refine .tally (.reportIf (.creditLines (.refl a) ?_ ?_ ..) ?_ ..) ?_ ?_ .. <;> decide

theorem reservation_extends (a : Audit) (e : String × Option Map) :
    Extends scanCodes [.poolReserved, .earned, .spent] a (a.reservation e) := by
  obtain ⟨runId, _ | reservation⟩ := e
  · exact .report (.refl a) (by decide) ..
  unfold Audit.reservation reservationRow
  dsimp only
  split
  · exact .report (.refl a) (by decide) ..
  split
  · refine .tally (.refl a) ?_ ?_ .. <;> decide
  split
  · exact (settledReservationRow_extends a runId _).mono (by decide)
  · exact .reportIf (.refl a) (by decide) ..

theorem liveDebit_extends (a : Audit) (e : String × Option Map) :
    Extends scanCodes [.earned, .spent] a (a.liveDebit e) := by
  obtain ⟨runId, _ | record⟩ := e
  · exact .report (.refl a) (by decide) ..
  unfold Audit.liveDebit liveDebitRow
  dsimp only
  split
  · exact .report (.refl a) (by decide) ..
  · refine .tally (.reportIf (.creditLines (.refl a) ?_ ?_ ..) ?_ ..) ?_ ?_ .. <;> decide

theorem poolReserved_extends (a : Audit) (e : String × Option Map) :
    Extends [.poolReservedMismatch] [] a (a.poolReserved e) := by
  obtain ⟨poolId, _ | pool⟩ := e
  · exact .refl a
  · exact .reportIf (.refl a) (by decide) ..

theorem payout_extends (a : Audit) (e : String × Option Map) :
    Extends [.payoutUnreadable, .payoutInvalid] [.payoutHeld] a (a.payout e) := by
  obtain ⟨payoutId, _ | payout⟩ := e
  · exact .report (.refl a) (by decide) ..
  have hcounted : Extends [.payoutUnreadable, .payoutInvalid] [.payoutHeld] a
      { a with
        payoutCount := a.payoutCount + 1, pendingPayoutCount := a.pendingPayoutCount + 1 } :=
    .counted rfl rfl
  unfold Audit.payout payoutRow
  dsimp only
  split
  · split
    · exact .report hcounted (by decide) ..
    · refine .tally hcounted ?_ ?_ .. <;> decide
  · exact .counted rfl rfl

theorem compareCounter_extends (a : Audit) (t : Tally) (links : List (String × Int64))
    (invalid mismatch : IssueCode) (detail : Int64 → String) :
    Extends [invalid, mismatch] [] a (a.compareCounter t links invalid mismatch detail) := by
  refine .trans ?_ (.foldl (fun a user => .reportIf (.refl a) (by simp) ..) _ _)
  exact .foldl (fun a link => .reportIf (.refl a) (by simp) ..) _ _

theorem project_extends (budget : String → Map) (a : Audit) (name : String) :
    Extends [.projectReservedMismatch, .projectSpentUndercount] [] a (a.project budget name) := by
  refine .reportIf (.reportIf (.refl a) ?_ ..) ?_ .. <;> decide

/-! ## Comparing a counter -/

theorem foldl_eq_self {α : Type} {f : Audit → α → Audit} {l : List α} {a : Audit}
    (h : ∀ x ∈ l, f a x = a) : l.foldl f a = a := by
  induction l with
  | nil => rfl
  | cons x l ih =>
    simp only [List.mem_cons, forall_eq_or_imp] at h
    rw [List.foldl_cons, h.1, ih h.2]

/-- The links of a counter are valid, and are what a total expects. -/
structure Agrees (total : Store String Int64) (links : List (String × Int64)) : Prop where
  nonneg : ∀ link ∈ links, 0 ≤ link.2.toInt
  value : ∀ user, (validLinks links).value user = total.value user

variable {links : List (String × Int64)}

/-- **A counter that agrees is not reported.** -/
theorem compareCounter_eq_self (h : Agrees (a.totals t) links) (invalid mismatch : IssueCode)
    (detail : Int64 → String) : a.compareCounter t links invalid mismatch detail = a := by
  have hlinks : a.invalidLinks links invalid detail = a := by
    refine foldl_eq_self fun link hlink => ?_
    have hpos : 0 ≤ link.2 := Int64.le_iff_toInt_le.mpr (h.nonneg link hlink)
    rw [reportIf, if_neg (not_not.mpr hpos)]
  rw [compareCounter, hlinks]
  refine foldl_eq_self fun user _ => ?_
  have heq : ((validLinks links).get user).getD 0 = ((a.totals t).get user).getD 0 :=
    Int64.toInt_inj.mp (h.value user)
  rw [reportIf, if_neg (not_not.mpr heq)]

/-! ## The withdrawable total -/

variable (account : String → Option Int64)

theorem withdrawableLinks_extends (links : List (String × Int64)) (state : Audit × Int64) :
    Extends [.withdrawableInvalid] [] state.1 (links.foldl (withdrawableLink account) state).1 := by
  induction links generalizing state with
  | nil => exact .refl _
  | cons link links ih =>
    refine .trans (.reportIf (.refl state.1) (by decide) ..) (ih (withdrawableLink ..))

theorem withdrawable_extends (ports : Ports) (a : Audit) (links : List (String × Int64))
    (account : String → Option Int64) :
    Extends [.withdrawableInvalid, .withdrawableUnbackedTotal] [] a
      (withdrawable ports a links account) := by
  have h := withdrawableLinks_extends account links (a, 0)
  exact .reportIf ⟨fun i hi => (h.issues i hi).imp_right (by simp_all), h.totals⟩ (by decide) ..

theorem withdrawableLinks_eq_foldl (hlinks : ∀ link ∈ links, 0 ≤ link.2.toInt) (s : Audit × Int64) :
    (links.foldl (withdrawableLink account) s).2 =
      links.foldl (fun acc link => saturatingAdd acc link.2) s.2 := by
  induction links generalizing s with
  | nil => rfl
  | cons link links ih =>
    simp only [List.mem_cons, forall_eq_or_imp] at hlinks
    rw [List.foldl_cons, List.foldl_cons, ih hlinks.2]
    simp only [withdrawableLink]
    split
    · rfl
    · next hpos =>
      have hzero : link.2 = 0 := by
        rw [not_lt_iff_toInt] at hpos
        exact Int64.toInt_inj.mp (le_antisymm hpos hlinks.1)
      rw [hzero, saturatingAdd_zero]

theorem withdrawableLinks_total
    (hlinks : ∀ link ∈ links, 0 ≤ link.2.toInt) {s} (hs : 0 ≤ s.2.toInt) :
    (links.foldl (withdrawableLink account) s).2.toInt =
      min (s.2.toInt + (links.map fun link => link.2.toInt).sum) (2 ^ 63 - 1) := by
  rw [withdrawableLinks_eq_foldl account hlinks, toInt_foldl_saturatingAdd _ hlinks hs]

/-- The links of the withdrawable counter sum up to no more than the earned total. -/
structure Backs (total : Store String Int64) (links : List (String × Int64)) : Prop where
  nonneg : ∀ link ∈ links, 0 ≤ link.2.toInt
  total_nonneg : ∀ e ∈ total.toList, 0 ≤ e.2.toInt
  le : (links.map fun link => link.2.toInt).sum ≤ total.sumBy fun _ x => x.toInt

/-- **Withdrawable counters whose sum is earned** are not reported as unbacked. -/
theorem withdrawable_extends_of_backs (ports : Ports) (account : String → Option Int64)
    (hbacks : Backs (a.totals .earned) links) :
    Extends [.withdrawableInvalid] [] a (withdrawable ports a links account) := by
  have h := withdrawableLinks_extends account links (a, 0)
  have hiter := ports.iter_perm (a.totals .earned)
  have hexpected := toInt_foldl_saturatingAdd (fun e : String × Int64 => e.2) (fun e he =>
      hbacks.total_nonneg e (hiter.mem_iff.mp he)) (le_refl (0 : Int64).toInt)
  have hactual := withdrawableLinks_total account hbacks.nonneg (s := (a, 0)) le_rfl
  have hle := hbacks.le
  rw [(hiter.map _).sum_eq] at hexpected
  rw [Store.sumBy] at hle
  have hcovered : ¬ (links.foldl (withdrawableLink account) (a, 0)).2 >
      (ports.iter (a.totals .earned)).foldl (fun acc e => saturatingAdd acc e.2) 0 := by
    rw [not_lt_iff_toInt, hactual, hexpected]
    exact min_le_min_right _ (by simpa using hle)
  rw [withdrawable, h.totals .earned (by simp), reportIf, if_neg hcovered]
  exact h

/-! ## What the whole reconciliation does not report -/

def Silent (c : IssueCode) (a : Audit) : Prop := ∀ i ∈ a.issues, i.code ≠ c

variable {c : IssueCode}

theorem Extends.silent (h : Extends codes tallies a a') (hc : c ∉ codes) (ha : a.Silent c) :
    a'.Silent c :=
  fun i hi => (h.issues i hi).elim (ha i) fun hmem heq => hc (heq ▸ hmem)

theorem Silent.compareCounter (ha : a.Silent c) {invalid mismatch}
    (h : c ∉ [invalid, mismatch] ∨ Agrees (a.totals t) links) (detail : Int64 → String) :
    (a.compareCounter t links invalid mismatch detail).Silent c := by
  rcases h with hc | hagrees
  · exact (compareCounter_extends a t links invalid mismatch detail).silent hc ha
  · rw [compareCounter_eq_self hagrees]
    exact ha

end Audit

open Audit

namespace Records

/-- The totals of the first reading of the documents. -/
def scanTallies : List Tally :=
  [.held, .projectReserved, .earned, .spent, .projectSpent, .poolReserved]

theorem scan_extends (r : Records) (a : Audit) : Extends scanCodes scanTallies a (r.scan a) := by
  have hholds : Extends scanCodes scanTallies a (r.holds.foldl hold a) :=
    (Extends.foldl hold_extends _ _).mono (by decide)
  have hpools : ∀ a, Extends scanCodes scanTallies a (r.pools.foldl pool a) :=
    fun _ => (Extends.foldl pool_extends _ _).mono (by decide)
  have hreservations : ∀ a, Extends scanCodes scanTallies a (r.reservations.foldl reservation a) :=
    fun _ => (Extends.foldl reservation_extends _ _).mono (by decide)
  have hliveDebits : ∀ a, Extends scanCodes scanTallies a (r.liveDebits.foldl liveDebit a) :=
    fun _ => (Extends.foldl liveDebit_extends _ _).mono (by decide)
  exact ((hholds.trans (hpools _)).trans (hreservations _)).trans (hliveDebits _)

/-- The codes that are about single records, or about payouts and projects. -/
def recordCodes : List IssueCode :=
  scanCodes ++ [.poolReservedMismatch, .payoutUnreadable, .payoutInvalid, .payoutHeldInvalid,
    .payoutHeldMismatch, .withdrawableInvalid, .projectReservedMismatch, .projectSpentUndercount]

/-- **What is not reported**: a comparison with the totals of the documents is silent where it
reports another code, or where the counters agree. -/
theorem audit_silent (ports : Ports) (r : Records) (maxIssues : Nat) {c} (hc : c ∉ recordCodes)
    (hheld : c ∉ [.heldInvalid, .heldMismatch] ∨
      Agrees ((r.scan { maxIssues }).totals .held) (r.counterLinks .held))
    (hbacked : c ≠ .withdrawableUnbackedTotal ∨
      Backs ((r.scan { maxIssues }).totals .earned) (r.counterLinks .withdrawable))
    (hspent : c ∉ [.spentMismatch, .spentMismatch] ∨
      Agrees ((r.scan { maxIssues }).totals .spent) (r.counterLinks .spent))
    (hearned : c ∉ [.earnedMismatch, .earnedMismatch] ∨
      Agrees ((r.scan { maxIssues }).totals .earned) (r.counterLinks .earned)) :
    (r.audit ports maxIssues).Silent c := by
  have hnot : ∀ codes ⊆ recordCodes, c ∉ codes := fun codes hsub hmem => hc (hsub hmem)
  -- the totals each comparison sees are those of the first reading
  have hscan : (r.scan { maxIssues }).Silent c :=
    (r.scan_extends _).silent (hnot _ (by decide)) nofun
  unfold audit
  dsimp only
  generalize r.scan { maxIssues } = a₀ at *
  have h₁ : Extends _ _ a₀ _ := .foldl poolReserved_extends r.pools _
  have hs₁ := h₁.silent (hnot _ (by decide)) hscan
  generalize r.pools.foldl poolReserved a₀ = a₁ at *
  have h₂ : Extends _ _ a₁ (a₁.held (r.counterLinks .held)) := compareCounter_extends ..
  have hs₂ : (a₁.held (r.counterLinks .held)).Silent c :=
    hs₁.compareCounter (by rwa [h₁.totals .held (by simp)]) _
  generalize a₁.held (r.counterLinks .held) = a₂ at *
  have h₃ : Extends _ _ a₂ _ := .foldl payout_extends r.payouts _
  have hs₃ := h₃.silent (hnot _ (by decide)) hs₂
  generalize r.payouts.foldl payout a₂ = a₃ at *
  have h₄ : Extends _ _ a₃ (a₃.payoutHeld (r.counterLinks .payoutHeld)) := compareCounter_extends ..
  have hs₄ := h₄.silent (hnot _ (by decide)) hs₃
  generalize a₃.payoutHeld (r.counterLinks .payoutHeld) = a₄ at *
  have ht₄ : ∀ t, t ≠ .payoutHeld → a₄.totals t = a₀.totals t := fun t ht => by
    rw [h₄.totals t (by simp), h₃.totals t (by simpa using ht), h₂.totals t (by simp),
      h₁.totals t (by simp)]
  have h₅ := withdrawable_extends ports a₄ (r.counterLinks .withdrawable) r.account
  have hs₅ : (withdrawable ports a₄ (r.counterLinks .withdrawable) r.account).Silent c := by
    rcases hbacked with hne | hbacks
    · refine h₅.silent ?_ hs₄
      simpa [hne] using hnot [.withdrawableInvalid] (by decide)
    · refine (withdrawable_extends_of_backs ports r.account ?_).silent (hnot _ (by decide)) hs₄
      rwa [ht₄ .earned (by decide)]
  generalize withdrawable ports a₄ (r.counterLinks .withdrawable) r.account = a₅ at *
  have h₆ : Extends _ _ a₅ (a₅.spent (r.counterLinks .spent)) := compareCounter_extends ..
  have hs₆ : (a₅.spent (r.counterLinks .spent)).Silent c :=
    hs₅.compareCounter (by rwa [h₅.totals .spent (by simp), ht₄ .spent (by decide)]) _
  generalize a₅.spent (r.counterLinks .spent) = a₆ at *
  have hs₇ : (a₆.earned (r.counterLinks .earned)).Silent c :=
    hs₆.compareCounter (by
      rwa [h₆.totals .earned (by simp), h₅.totals .earned (by simp), ht₄ .earned (by decide)]) _
  exact (Extends.foldl (project_extends r.budget) _ _).silent (hnot _ (by decide)) hs₇

end Records

theorem reconcileFinancialSystem_ok {ports r caller input report}
    (h : reconcileFinancialSystem ports r caller input = .ok report) :
    report.issues = (r.audit ports input.limit).issues := by
  simp only [reconcileFinancialSystem, bind_eq_ok, ensure_eq_ok, pure_eq_ok, exists_const] at h
  rw [← h.2]

theorem reconcileFinancialSystem_issueCount {ports r caller input report}
    (h : reconcileFinancialSystem ports r caller input = .ok report) :
    report.issueCount = report.issues.length := by
  simp only [reconcileFinancialSystem, bind_eq_ok, ensure_eq_ok, pure_eq_ok, exists_const] at h
  rw [← h.2]

theorem reconcileFinancialSystem_root (ports : Ports) (r : Records)
    (input : ReconcileFinancialSystemInput) :
    ∃ report, reconcileFinancialSystem ports r legacyRoot input = .ok report ∧
      report.issues = (r.audit ports input.limit).issues := by
  simp [reconcileFinancialSystem, ensure, pure, Except.pure, bind, Except.bind]

end Aseman.Finance
