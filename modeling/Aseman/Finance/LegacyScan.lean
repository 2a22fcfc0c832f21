import Aseman.Finance.Audit
import Aseman.Finance.Legacy

/-!
# Two readings of the same documents

`reconcile_legacy_finance` and `reconcile_financial_system` read the documents in step. As long as
neither has found anything, they hold the same totals (`Matches`); once the action has an issue, the
legacy reconciliation has one too, or it has credited the empty user id, which the action refuses to
do and the legacy `add` does not (`Apart`).
-/

namespace Aseman.Finance

open Json LineRow Function LegacyAudit Audit

/-! ## Exact money reads the same -/

variable {amount : Int64}

theorem asI64_of_exact {value} (h : value.asI64 = some amount) : asI64 value = some amount := by
  unfold Value.asI64 at h
  split at h
  · next n =>
    split at h
    · next hfits =>
      cases h
      simp only [asI64, Option.some.injEq]
      refine Int64.toInt_inj.mp ?_
      rw [Int64.toInt_ofInt_of_le hfits.1 hfits.2]
      exact Int64.toInt_ofIntClamp hfits.1 (by rw [Int64.toInt_maxValue]; omega)
    · cases h
  · cases h

theorem bind_asI64_of_exact {value : Option Value} (h : value.all (·.asI64.isSome)) :
    value.bind Value.asI64 = value.bind asI64 := by
  cases value with
  | none => rfl
  | some v =>
    obtain ⟨amount, hamount⟩ := Option.isSome_iff_exists.mp h
    rw [Option.bind_some, Option.bind_some, hamount, asI64_of_exact hamount]

variable {doc : Map}

theorem LegacyFinance.ExactFields.read {fields} (h : ExactFields doc fields) {field}
    (hfield : field ∈ fields) {value} (hget : doc.get field = some value) :
    ∃ amount, value.asI64 = some amount ∧ asI64 value = some amount := by
  have hsome := h field hfield
  rw [hget] at hsome
  obtain ⟨amount, hamount⟩ := Option.isSome_iff_exists.mp hsome
  exact ⟨amount, hamount, asI64_of_exact hamount⟩

namespace LegacyAudit

open LegacyFinance

theorem money_of_exact {fields} (h : ExactFields doc fields) (field : String)
    (hfield : field ∈ fields) (l : LegacyAudit) (id : String) :
    l.money id doc field = (l, readAmount doc field) := by
  unfold money readAmount i64Field
  cases hget : doc.get field with
  | none => rfl
  | some value =>
    obtain ⟨amount, hexact, hread⟩ := h.read hfield hget
    simp [hexact, hread]

end LegacyAudit

theorem LegacyAudit.settlementLine_of_exact {line : Value}
    (h : (line.get "amount").all (·.asI64.isSome)) (id : String)
    (s : LegacyAudit × Int64) :
    settlementLine id s line =
      if (read line).amount ≤ 0 then
        (s.1.push (.shared .settlementLineInvalid) id "invalid beneficiary line", s.2)
      else
        (s.1.add .earned (read line).userId (read line).amount,
          saturatingAdd s.2 (read line).amount) := by
  rw [settlementLine, bind_asI64_of_exact h]
  rfl

/-! ## In step -/

/-- Neither side has found anything, and both hold the same totals. -/
structure Matches (l : LegacyAudit) (a : Audit) : Prop where
  legacy_clean : l.issues = []
  clean : a.issues = []
  totals : l.totals = a.totals
  nonneg : ∀ user, 0 ≤ (a.totals .earned).value user
  unnamed : (a.totals .earned).value "" = 0

/-- The action has an issue; the legacy reconciliation has one too, or has credited the empty id. -/
structure Apart (l : LegacyAudit) (a : Audit) : Prop where
  reported : a.issues ≠ []
  legacy : l.issues ≠ [] ∨ 0 < (l.totals .earned).value ""

structure InStep (l : LegacyAudit) (a : Audit) : Prop where
  limit : 0 < a.maxIssues
  state : Matches l a ∨ Apart l a

namespace Audit

variable {a : Audit}

@[simp] theorem maxIssues_report (a : Audit) (code : IssueCode) (reference detail : String) :
    (a.report code reference detail).maxIssues = a.maxIssues := by
  unfold report
  split <;> rfl

theorem issues_report_ne_nil (h : 0 < a.maxIssues) (code : IssueCode) (reference detail : String) :
    (a.report code reference detail).issues ≠ [] := by
  unfold report
  split
  · simp
  · next hfull =>
    intro hnil
    rw [hnil] at hfull
    exact hfull h

theorem add_eq_none_of_unnamed (t : Tally) (amount : Int64) : a.add t "" amount = none := by
  simp [add, financeMapAdd]

theorem add_eq_map {key} (hkey : key ≠ "") (hamount : 0 ≤ amount.toInt) (t : Tally) :
    a.add t key amount = (checkedAdd (((a.totals t).get key).getD 0) amount).map fun next =>
      { a with totals := update a.totals t ((a.totals t).put key next) } := by
  have hneg : ¬ amount < 0 := not_neg_iff_toInt.mpr hamount
  simp [add, financeMapAdd, hkey, hneg, comp_def]

theorem tally_grows (h : 0 < a.maxIssues) (t : Tally) (key : String) (amount : Int64)
    (code : IssueCode) (reference detail : String) :
    (a.tally t key amount code reference detail).maxIssues = a.maxIssues ∧
      (a.issues ≠ [] → (a.tally t key amount code reference detail).issues ≠ []) := by
  unfold tally
  cases hadd : a.add t key amount with
  | none => exact ⟨maxIssues_report .., fun _ => issues_report_ne_nil h _ _ _⟩
  | some a' =>
    simp only [add, Option.map_eq_some_iff] at hadd
    obtain ⟨m, -, rfl⟩ := hadd
    exact ⟨rfl, id⟩

end Audit

namespace LegacyAudit

variable {l : LegacyAudit}

theorem issues_push_ne_nil (l : LegacyAudit) (code : LegacyIssueCode) (reference detail : String) :
    (l.push code reference detail).issues ≠ [] := by
  simp [push]

theorem add_of_some {t key next} (h : checkedAdd (((l.totals t).get key).getD 0) amount = some next) :
    l.add t key amount = { l with totals := update l.totals t ((l.totals t).put key next) } := by
  simp only [add, h]

theorem issues_add_of_none {t key} (h : checkedAdd (((l.totals t).get key).getD 0) amount = none) :
    (l.add t key amount).issues ≠ [] := by
  simp [add, h, push]

theorem issues_add_ne_nil (t : Tally) (key : String) (amount : Int64) (h : l.issues ≠ []) :
    (l.add t key amount).issues ≠ [] := by
  cases hnext : checkedAdd (((l.totals t).get key).getD 0) amount with
  | none => exact issues_add_of_none hnext
  | some next => rwa [add_of_some hnext]

/-- What is credited to the empty id stays credited, unless adding to it is reported. -/
theorem add_keeps_unnamed (t : Tally) (key : String) (hamount : 0 ≤ amount.toInt)
    (h : 0 < (l.totals .earned).value "") :
    (l.add t key amount).issues ≠ [] ∨ 0 < ((l.add t key amount).totals .earned).value "" := by
  cases hnext : checkedAdd (((l.totals t).get key).getD 0) amount with
  | none => exact .inl (issues_add_of_none hnext)
  | some next =>
    right
    rw [add_of_some hnext]
    dsimp only
    by_cases ht : t = .earned
    · subst ht
      rw [update_self, Store.value_put]
      split
      · next heq =>
        subst heq
        rw [checkedAdd_eq_some.mp hnext]
        rw [Store.value] at h
        omega
      · exact h
    · rwa [update_of_ne (Ne.symm ht)]

end LegacyAudit

namespace InStep

variable {l : LegacyAudit} {a : Audit}

theorem push (h : InStep l a) (code : LegacyIssueCode) (code' : IssueCode)
    (reference detail reference' detail' : String) :
    InStep (l.push code reference detail) (a.report code' reference' detail') where
  limit := by rw [maxIssues_report]; exact h.limit
  state := .inr ⟨issues_report_ne_nil h.limit _ _ _, .inl (l.issues_push_ne_nil _ _ _)⟩

variable {c : Prop}

theorem pushIf (h : InStep l a) {c'} [Decidable c] [Decidable c'] (hc : Matches l a → (c ↔ c'))
    (code : LegacyIssueCode) (code' : IssueCode) (reference detail reference' detail' : String) :
    InStep (l.pushIf c code reference detail) (a.reportIf c' code' reference' detail') := by
  unfold LegacyAudit.pushIf reportIf
  rcases h.state with hm | hs
  · by_cases hc' : c'
    · rw [if_pos ((hc hm).mpr hc'), if_pos hc']
      exact h.push ..
    · rw [if_neg (mt (hc hm).mp hc'), if_neg hc']
      exact h
  · split <;> split
    · exact h.push ..
    · exact ⟨h.limit, .inr ⟨hs.reported, .inl (l.issues_push_ne_nil _ _ _)⟩⟩
    · refine ⟨?_, .inr ⟨issues_report_ne_nil h.limit _ _ _, hs.legacy⟩⟩
      rw [maxIssues_report]
      exact h.limit
    · exact h

/-- An amount added on both sides. The empty key is refused by the action; the legacy side accepts
it, which sets the two apart when the total is the earned one. -/
theorem tally (h : InStep l a) {t key} (hamount : 0 ≤ amount.toInt)
    (hkey : key ≠ "" ∨ t = .earned ∧ 0 < amount.toInt) (code : IssueCode)
    (reference detail : String) :
    InStep (l.add t key amount) (a.tally t key amount code reference detail) := by
  have hgrows := tally_grows h.limit t key amount code reference detail
  refine ⟨hgrows.1 ▸ h.limit, ?_⟩
  rcases h.state with hm | hs
  · cases hnext : checkedAdd (((l.totals t).get key).getD 0) amount with
    | none =>
      -- both sides report the overflow
      right
      refine ⟨?_, .inl (issues_add_of_none hnext)⟩
      have hnone : a.add t key amount = none := by
        by_cases hempty : key = ""
        · rw [hempty, add_eq_none_of_unnamed]
        · rw [add_eq_map hempty hamount, ← hm.totals, hnext, Option.map_none]
      rw [Audit.tally, hnone]
      exact issues_report_ne_nil h.limit _ _ _
    | some next =>
      have hsum := checkedAdd_eq_some.mp hnext
      by_cases hempty : key = ""
      · subst hempty
        obtain ⟨rfl, hpos⟩ := hkey.resolve_left (fun hne => hne rfl)
        right
        refine ⟨?_, .inr ?_⟩
        · exact issues_report_ne_nil h.limit _ _ _
        · have hzero := hm.unnamed
          rw [← hm.totals, Store.value] at hzero
          rw [add_of_some hnext]
          dsimp only
          rw [update_self, Store.value_put, if_pos rfl]
          omega
      · left
        have hadd := add_eq_map (a := a) hempty hamount t
        rw [← hm.totals, hnext, Option.map_some] at hadd
        rw [Audit.tally, hadd, add_of_some hnext, Option.getD_some]
        refine ⟨hm.legacy_clean, hm.clean, rfl, fun user => ?_, ?_⟩ <;> dsimp only <;>
          by_cases ht : t = .earned
        · subst ht
          rw [update_self, Store.value_put]
          have hold := hm.nonneg key
          rw [← hm.totals, Store.value] at hold
          split
          · omega
          · exact hm.totals ▸ hm.nonneg user
        · rw [update_of_ne (Ne.symm ht), hm.totals]
          exact hm.nonneg user
        · subst ht
          rw [update_self, Store.value_put, if_neg (Ne.symm hempty), hm.totals]
          exact hm.unnamed
        · rw [update_of_ne (Ne.symm ht), hm.totals]
          exact hm.unnamed
  · right
    refine ⟨hgrows.2 hs.reported, ?_⟩
    rcases hs.legacy with hissues | hunnamed
    · exact .inl (issues_add_ne_nil _ _ _ hissues)
    · exact add_keeps_unnamed t key hamount hunnamed

/-- Where the action is still clean after adding, the two matched before. -/
theorem matches_of_tally (h : InStep l a) (t : Tally) (key : String) (amount : Int64)
    (code : IssueCode) (reference detail : String)
    (hclean : (a.tally t key amount code reference detail).issues = []) : Matches l a :=
  h.state.resolve_right fun hs => (tally_grows h.limit ..).2 hs.reported hclean

theorem ite_iff {c'} [Decidable c] [Decidable c'] {l' a'} (hc : c ↔ c') (h : c → InStep l a)
    (h' : ¬ c → InStep l' a') : InStep (if c then l else l') (if c' then a else a') := by
  by_cases hpos : c
  · rw [if_pos hpos, if_pos (hc.mp hpos)]
    exact h hpos
  · rw [if_neg hpos, if_neg (mt hc.mpr hpos)]
    exact h' hpos

theorem ite [Decidable c] {l' a'} (h : c → InStep l a) (h' : ¬ c → InStep l' a') :
    InStep (if c then l else l') (if c then a else a') :=
  ite_iff .rfl h h'

end InStep

/-! ## Lines -/

/-- The line totals of the two sides are the same, as long as the sides match. -/
structure InStepLines (s : LegacyAudit × Int64) (s' : Audit × Int64) : Prop where
  step : InStep s.1 s'.1
  total : Matches s.1 s'.1 → s.2 = s'.2 ∧ 0 ≤ s.2.toInt

variable {l : LegacyAudit} {a : Audit}

theorem InStepLines.start (h : InStep l a) :
    InStepLines (l, 0) (a, 0) := ⟨h, fun _ => ⟨rfl, le_rfl⟩⟩

theorem InStepLines.refused {s s'} (h : InStepLines s s') (code : LegacyIssueCode)
    (code' : IssueCode) (reference detail reference' detail' : String) :
    InStepLines (s.1.push code reference detail, s.2)
      (s'.1.report code' reference' detail', s'.2) :=
  ⟨h.step.push .., fun hm => absurd hm.clean (issues_report_ne_nil h.step.limit _ _ _)⟩

theorem InStepLines.credited {s s'} (h : InStepLines s s') {bad line} (hgood : bad line = false)
    (hpos : 0 < line.amount.toInt) (code : IssueCode) (reference detail : String) :
    InStepLines (s.1.add .earned line.userId line.amount, saturatingAdd s.2 line.amount)
      (creditLine code reference detail bad s' line) := by
  have hkey : line.userId ≠ "" ∨ Tally.earned = .earned ∧ 0 < line.amount.toInt :=
    .inr ⟨rfl, hpos⟩
  have htally := h.step.tally hpos.le hkey code reference detail
  have hbefore := h.step.matches_of_tally .earned line.userId line.amount code reference detail
  unfold Audit.tally at htally hbefore
  rw [creditLine, if_neg (by simp [hgood])]
  cases hadd : s'.1.add .earned line.userId line.amount with
  | none =>
    rw [hadd] at htally
    exact ⟨htally, fun hm => absurd hm.clean (issues_report_ne_nil h.step.limit _ _ _)⟩
  | some a =>
    rw [hadd] at htally hbefore
    refine ⟨htally, fun hm => ?_⟩
    obtain ⟨heq, hnonneg⟩ := h.total (hbefore hm.clean)
    rw [← heq, getD_checkedAdd_maxValue hnonneg hpos.le]
    refine ⟨rfl, ?_⟩
    rw [toInt_saturatingAdd_of_nonneg hnonneg hpos.le]
    omega

open LegacyFinance in
theorem InStep.settlementLines (h : InStep l a) (hexact : ExactLines doc) (id : String)
    (code : IssueCode) (reference detail : String) :
    InStepLines (l.settlementLines id doc)
      (a.creditLines code reference detail (fun line => line.amount ≤ 0) (readLines doc)) := by
  unfold LegacyAudit.settlementLines creditLines readLines
  rw [List.foldl_map]
  refine List.foldl_rel (InStepLines.start h) fun line hline s s' hs => ?_
  rw [settlementLine_of_exact (hexact line hline)]
  generalize read line = row
  split
  · next hbad =>
    rw [creditLine, if_pos (decide_eq_true hbad)]
    exact hs.refused ..
  · next hgood =>
    exact hs.credited (decide_eq_false hgood) (not_nonpos_iff_toInt.mp hgood) code reference detail

theorem InStep.credits (h : InStep l a) (credits : Map) (id : String) (code : IssueCode)
    (reference detail : String) :
    InStepLines (credits.foldl (LegacyAudit.credit id) (l, 0))
      (a.creditLines code reference detail (fun line => line.userId = "" ∨ line.amount ≤ 0)
        (credits.map readCredit)) := by
  unfold creditLines
  rw [List.foldl_map]
  refine List.foldl_rel (InStepLines.start h) fun credit _ s s' hs => ?_
  have hrow : LegacyAudit.credit id s credit =
      if (readCredit credit).userId = "" ∨ (readCredit credit).amount ≤ 0 then
        (s.1.push (.shared .liveDebitCreditInvalid) id "invalid credit", s.2)
      else
        (s.1.add .earned (readCredit credit).userId (readCredit credit).amount,
          saturatingAdd s.2 (readCredit credit).amount) := rfl
  rw [hrow]
  split
  · next hbad =>
    rw [creditLine, if_pos (decide_eq_true hbad)]
    exact hs.refused ..
  · next hgood =>
    exact hs.credited (decide_eq_false hgood) (not_nonpos_iff_toInt.mp (not_or.mp hgood).2)
      code reference detail

/-! ## Documents -/

namespace InStep

open LegacyFinance LegacyAudit

variable {l : LegacyAudit} {a : Audit}

variable (h : InStep l a)

include h

theorem counted {a'} (hlimit : a'.maxIssues = a.maxIssues)
    (hissues : a'.issues = a.issues) (htotals : a'.totals = a.totals) : InStep l a' := by
  refine ⟨hlimit ▸ h.limit, h.state.imp (fun hm => ?_) fun hs => ⟨hissues ▸ hs.reported, hs.legacy⟩⟩
  exact ⟨hm.legacy_clean, hissues ▸ hm.clean, htotals ▸ hm.totals, htotals ▸ hm.nonneg,
    htotals ▸ hm.unnamed⟩

theorem tallyProject {t project} (hamount : 0 ≤ amount.toInt) (code : IssueCode)
    (reference detail : String) :
    InStep (if project ≠ "" then l.add t project amount else l)
      (if project ≠ "" then a.tally t project amount code reference detail else a) :=
  .ite (fun hproject => h.tally hamount (.inl hproject) ..) fun _ => h

theorem hold (id : String)
    (hexact : ExactFields doc ["maxAmount", "remainingAmount", "actualAmount", "refundedAmount"])
    (hlines : ExactLines doc) : InStep (l.hold (id, doc)) (a.hold (id, some doc)) := by
  have hmax := money_of_exact hexact "maxAmount" (by simp)
  have hremaining := money_of_exact hexact "remainingAmount" (by simp)
  have hactual := money_of_exact hexact "actualAmount" (by simp)
  have hrefunded := money_of_exact hexact "refundedAmount" (by simp)
  simp only [LegacyAudit.hold, hmax, hremaining, hactual, hrefunded]
  have hcounted : InStep l { a with holdCount := a.holdCount + 1 } := h.counted rfl rfl rfl
  refine ite (fun _ => hcounted.push ..) fun hvalid => ?_
  obtain ⟨hpayer, hpos⟩ := not_or.mp hvalid
  have hpos := not_nonpos_iff_toInt.mp hpos
  refine ite (fun _ => ?_) fun _ => ite (fun _ => ?_) fun _ => ite (fun _ => ?_) fun _ => ?_
  · have hactive : InStep l
        { a with holdCount := a.holdCount + 1, activeHoldCount := a.activeHoldCount + 1 } :=
      h.counted rfl rfl rfl
    exact ((hactive.pushIf (fun _ => .rfl) ..).tally hpos.le (.inl hpayer) ..).tallyProject hpos.le ..
  · refine ite (fun _ => hcounted.push ..) fun hbalanced => ?_
    have hactual : 0 ≤ (readAmount doc "actualAmount").toInt :=
      not_neg_iff_toInt.mp (not_or.mp (not_or.mp hbalanced).2).1
    have hcredited := hcounted.settlementLines hlines id .settlementLineInvalid id
      "invalid beneficiary settlement line"
    refine tallyProject (tally (pushIf hcredited.step (fun hm => ?_) ..) hactual (.inl hpayer) ..)
      hactual ..
    rw [(hcredited.total hm).1]
    rfl
  · exact hcounted.pushIf (fun _ => .rfl) ..
  · exact hcounted.push ..

theorem pool (id : String)
    (hexact : ExactFields doc ["maxAmount", "remaining", "reserved", "spent", "refunded"]) :
    InStep (l.pool (id, doc)) (a.pool (id, some doc)) := by
  have hmax := money_of_exact hexact "maxAmount" (by simp)
  have hremaining := money_of_exact hexact "remaining" (by simp)
  have hreserved := money_of_exact hexact "reserved" (by simp)
  have hspent := money_of_exact hexact "spent" (by simp)
  have hrefunded := money_of_exact hexact "refunded" (by simp)
  simp only [LegacyAudit.pool, hmax, hremaining, hreserved, hspent, hrefunded, List.any_cons,
    List.any_nil, Bool.or_false, Bool.or_eq_true, decide_eq_true_eq]
  refine ite (fun _ => h.push ..) fun hvalid => ?_
  simp only [not_or, not_neg_iff_toInt] at hvalid
  obtain ⟨hpayer, -, hremaining, hreserved, -⟩ := hvalid
  refine ite (fun _ => tally (h.pushIf (fun _ => .rfl) ..) ?_ (.inl hpayer) ..) fun _ =>
    h.pushIf (fun _ => .rfl) ..
  rw [toInt_saturatingAdd_of_nonneg hremaining hreserved]
  omega

theorem reservation (id : String)
    (hexact : ExactFields doc ["amount", "actualAmount"]) (hlines : ExactLines doc) :
    InStep (l.reservation (id, doc)) (a.reservation (id, some doc)) := by
  have hamount := money_of_exact hexact "amount" (by simp)
  have hactual := money_of_exact hexact "actualAmount" (by simp)
  simp only [LegacyAudit.reservation, hamount, hactual]
  refine ite (fun _ => h.push ..) fun hvalid => ?_
  simp only [not_or, not_neg_iff_toInt] at hvalid
  obtain ⟨hpayer, hpool, hamount⟩ := hvalid
  refine ite (fun _ => h.tally hamount (.inl hpool) ..) fun _ => ite (fun _ => ?_) fun _ =>
    h.pushIf (fun _ => .rfl) ..
  refine ite (fun _ => h.push ..) fun hsettled => ?_
  have hcredited := h.settlementLines hlines id .reservationLineInvalid id
    "invalid pool settlement line"
  refine tally (pushIf hcredited.step (fun hm => ?_) ..) (not_neg_iff_toInt.mp hsettled)
    (.inl hpayer) ..
  rw [(hcredited.total hm).1]
  rfl

theorem liveDebit (id : String) (hexact : ExactFields doc ["chargedTotal"]) :
    InStep (l.liveDebit (id, doc)) (a.liveDebit (id, some doc)) := by
  have hcharged := money_of_exact hexact "chargedTotal" (by simp)
  simp only [LegacyAudit.liveDebit, hcharged]
  refine ite (fun _ => h.push ..) fun hvalid => ?_
  simp only [not_or, not_neg_iff_toInt] at hvalid
  have hcredited := h.credits (((doc.get "credits").bind Value.asObject).getD []) id
    .liveDebitCreditInvalid id "invalid live debit credit"
  refine tally (pushIf hcredited.step (fun hm => ?_) ..) hvalid.2 (.inl hvalid.1) ..
  rw [(hcredited.total hm).1]
  rfl

theorem poolReserved (id : String)
    (hexact : ExactFields doc ["maxAmount", "remaining", "reserved", "spent", "refunded"]) :
    InStep (l.poolReserved (id, doc)) (a.poolReserved (id, some doc)) := by
  have hstored : (((doc.get "reserved").getD (.ofI64 0)).asI64).getD (-1) =
      (i64Field doc "reserved").getD 0 := by
    rw [i64Field]
    cases hget : doc.get "reserved" with
    | none => simp
    | some value =>
      obtain ⟨amount, hamount, hread⟩ := hexact.read (by simp) hget
      simp [hamount, hread]
  refine h.pushIf (fun hm => ?_) ..
  rw [hstored, hm.totals]

theorem payout (id : String) (hexact : ExactFields doc ["amount"]) :
    InStep (l.payout (id, doc)) (a.payout (id, some doc)) := by
  have hamount := money_of_exact hexact "amount" (by simp)
  simp only [LegacyAudit.payout, hamount]
  have hstatus : readStr doc "status" = "pending" ↔ strField doc "status" = some "pending" := by
    rw [readStr]
    cases strField doc "status" <;> simp
  have hcounted (n m : Nat) : InStep l { a with payoutCount := n, pendingPayoutCount := m } :=
    h.counted rfl rfl rfl
  refine ite_iff hstatus (fun _ => ?_) fun _ => hcounted ..
  split
  · next hinvalid =>
    split
    · exact (hcounted _ _).push ..
    · next hpos =>
      have huser : (PayoutRow.read doc).userId = "" := hinvalid.resolve_right hpos
      rw [huser]
      exact (hcounted _ _).push ..
  · next hvalid =>
    obtain ⟨huser, hpos⟩ := not_or.mp hvalid
    have hcredited : ¬ (PayoutRow.read doc).amount ≤ 0 := hpos
    rw [if_neg hcredited]
    exact (hcounted _ _).tally (not_nonpos_iff_toInt.mp hpos).le (.inl huser) ..

theorem foldl {docs : List (String × Map)}
    {f : LegacyAudit → String × Map → LegacyAudit} {g : Audit → String × Option Map → Audit}
    (hstep : ∀ e ∈ docs, ∀ l a, InStep l a → InStep (f l e) (g a (e.1, some e.2))) :
    InStep (docs.foldl f l) ((docs.map fun e => (e.1, some e.2)).foldl g a) := by
  rw [List.foldl_map]
  exact List.foldl_rel h hstep

omit h

theorem start {maxIssues} (hlimit : 0 < maxIssues) : InStep {} { maxIssues } :=
  ⟨hlimit, .inl ⟨rfl, rfl, rfl, fun _ => le_rfl, rfl⟩⟩

end InStep

end Aseman.Finance
