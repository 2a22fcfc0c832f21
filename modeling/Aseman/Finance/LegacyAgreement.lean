import Aseman.Finance.LegacyScan
import Aseman.Finance.Operation

/-!
# The two reconciliations agree

After the documents, both reconciliations compare their totals with the counters, the balances and
the budgets. These checks report and change nothing else (`Checked`), so they can be taken out of
the order the two sources run them in: each side accepts when reading the documents found nothing
and the totals are `Sound`. With the same totals the two come to the same verdict. What is left is
the empty user id, which the legacy side credits: its counter then has to carry the amount, and the
action reports every such counter.
-/

namespace Aseman.Finance

open Json LegacyAudit Audit

/-! ## Checks -/

section Checked

variable {σ τ α : Type*}

/-- From `s` to `s'` only issues may have been added, and none if and only if `P` holds. -/
structure Checked (view : σ → τ) (clean : σ → Prop) (s s' : σ) (P : Prop) : Prop where
  view_eq : view s' = view s
  clean_iff : clean s' ↔ clean s ∧ P

namespace Checked

variable {view : σ → τ} {clean : σ → Prop} {s s' s'' : σ} {P Q : Prop}

theorem trans (h : Checked view clean s s' P) (h' : Checked view clean s' s'' Q) :
    Checked view clean s s'' (P ∧ Q) where
  view_eq := h'.view_eq.trans h.view_eq
  clean_iff := by rw [h'.clean_iff, h.clean_iff, and_assoc]

theorem congr (h : Checked view clean s s' P) (hPQ : P ↔ Q) : Checked view clean s s' Q :=
  ⟨h.view_eq, h.clean_iff.trans (and_congr_right fun _ => hPQ)⟩

theorem foldl {f : σ → α → σ} {P : α → Prop} (l : List α)
    (h : ∀ x ∈ l, ∀ s', view s' = view s → Checked view clean s' (f s' x) (P x)) :
    Checked view clean s (l.foldl f s) (∀ x ∈ l, P x) := by
  induction l generalizing s with
  | nil => exact ⟨rfl, by simp⟩
  | cons x l ih =>
    simp only [List.mem_cons, forall_eq_or_imp] at h ⊢
    have hx := h.1 s rfl
    exact hx.trans (ih fun y hy s' hs' => h.2 y hy s' (hs'.trans hx.view_eq))

end Checked

end Checked

abbrev Audit.Checks (a a' : Audit) (P : Prop) : Prop :=
  Checked (fun a => (a.maxIssues, a.totals)) (fun a => a.issues = []) a a' P

abbrev LegacyAudit.Checks (l l' : LegacyAudit) (P : Prop) : Prop :=
  Checked totals (fun l => l.issues = []) l l' P

variable {a : Audit}

variable {a' : Audit} {P : Prop}

theorem Audit.Checks.totals_eq (h : a.Checks a' P) :
    a'.totals = a.totals := (Prod.mk.inj h.view_eq).2

theorem Audit.Checks.limit (h : a.Checks a' P) (hlimit : 0 < a.maxIssues) : 0 < a'.maxIssues := by
  rw [(Prod.mk.inj h.view_eq).1]
  exact hlimit

theorem Audit.checks_reportIf (h : 0 < a.maxIssues) (c : Prop) [Decidable c] (code : IssueCode)
    (reference detail : String) : a.Checks (a.reportIf c code reference detail) (¬ c) := by
  unfold reportIf
  split
  · next hc =>
    refine ⟨by simp, ?_⟩
    simp [issues_report_ne_nil h, hc]
  · next hc => exact ⟨rfl, by simp [hc]⟩

variable (l : LegacyAudit)

theorem LegacyAudit.checks_pushIf (c : Prop) [Decidable c]
    (code : LegacyIssueCode) (reference detail : String) :
    l.Checks (l.pushIf c code reference detail) (¬ c) := by
  unfold pushIf
  split
  · next hc => exact ⟨rfl, by simp [issues_push_ne_nil, hc]⟩
  · next hc => exact ⟨rfl, by simp [hc]⟩

@[simp] theorem LegacyAudit.totals_pushIf (c : Prop) [Decidable c]
    (code : LegacyIssueCode) (reference detail : String) :
    (l.pushIf c code reference detail).totals = l.totals :=
  (l.checks_pushIf c code reference detail).view_eq

/-! ## Counters -/

def CounterMatches (total counter : Store String Int64) : Prop :=
  ∀ user, (total.get user).getD 0 = (counter.get user).getD 0

theorem counterMatches_iff_keys {total counter} (keys : List String)
    (hkeys : ∀ user, user ∈ keys ↔ user ∈ total.keys ∨ user ∈ counter.keys) :
    (∀ user ∈ keys, (total.get user).getD 0 = (counter.get user).getD 0) ↔
      CounterMatches total counter := by
  refine ⟨fun h user => ?_, fun h user _ => h user⟩
  by_cases hmem : user ∈ keys
  · exact h user hmem
  · -- neither side has an entry for the user, so both read zero
    have hnone := mt (hkeys user).mpr hmem
    simp only [not_or, Store.mem_keys_iff, Option.not_isSome_iff_eq_none] at hnone
    rw [hnone.1, hnone.2]

variable {links : List (String × Int64)}

theorem validLinks_of_nonneg (h : ∀ link ∈ links, 0 ≤ link.2) :
    validLinks links = links.foldl (fun m link => m.put link.1 link.2) ∅ := by
  refine List.foldl_ext _ _ _ fun m link hlink => ?_
  rw [if_pos (h link hlink)]

theorem Audit.checks_compareCounter (hlimit : 0 < a.maxIssues) (t : Tally)
    (hlinks : ∀ link ∈ links, 0 ≤ link.2) (invalid mismatch : IssueCode) (detail : Int64 → String) :
    a.Checks (a.compareCounter t links invalid mismatch detail)
      (CounterMatches (a.totals t) (links.foldl (fun m link => m.put link.1 link.2) ∅)) := by
  have hvalid : a.invalidLinks links invalid detail = a := by
    refine foldl_eq_self fun link hlink => ?_
    rw [reportIf, if_neg (not_not.mpr (hlinks link hlink))]
  rw [compareCounter, hvalid, ← validLinks_of_nonneg hlinks]
  refine (Checked.foldl _ fun user _ a' ha' => ?_).congr (counterMatches_iff_keys
    (sortDedup ((a.totals t).keys ++ (validLinks links).keys)) fun user => ?_)
  · have hlimit' : 0 < a'.maxIssues := (Prod.mk.inj ha').1 ▸ hlimit
    refine (checks_reportIf hlimit' ..).congr ?_
    rw [not_not, eq_comm]
  · rw [mem_sortDedup, List.mem_append]

theorem LegacyAudit.checks_compare (t : Tally) (counter : Store String Int64) (code : IssueCode) :
    l.Checks (l.compare t counter code) (CounterMatches (l.totals t) counter) := by
  refine (Checked.foldl _ fun user _ l' _ => ?_).congr (counterMatches_iff_keys
    ((l.totals t).keys ++ counter.keys) fun user => List.mem_append)
  exact (l'.checks_pushIf ..).congr not_not

/-! ## The withdrawable counters -/

/-- The sum of some amounts, cut off at the largest value. -/
def saturatingSum (rows : List (String × Int64)) : Int64 :=
  rows.foldl (fun acc row => saturatingAdd acc row.2) 0

theorem saturatingSum_of_perm {rows rows'} (h : rows.Perm rows')
    (hnonneg : ∀ row ∈ rows', 0 ≤ row.2.toInt) : saturatingSum rows = saturatingSum rows' := by
  refine Int64.toInt_inj.mp ?_
  have hrows := toInt_foldl_saturatingAdd (fun row : String × Int64 => row.2)
    (fun row hrow => hnonneg row (h.mem_iff.mp hrow)) (le_refl (0 : Int64).toInt)
  have hrows' := toInt_foldl_saturatingAdd (fun row : String × Int64 => row.2)
    hnonneg (le_refl (0 : Int64).toInt)
  rw [saturatingSum, saturatingSum, hrows, hrows', (h.map _).sum_eq]

/-- The withdrawable share of a link is covered by the balance of its creature. -/
def Covered (balance : String → Option Int64) (link : String × Int64) : Prop :=
  ∃ available, balance link.1 = some available ∧ link.2 ≤ available

theorem Audit.checks_withdrawable (hlimit : 0 < a.maxIssues) (ports : Ports)
    (hlinks : ∀ link ∈ links, 0 ≤ link.2) (balance : String → Option Int64) :
    a.Checks (withdrawable ports a links balance)
      ((∀ link ∈ links, Covered balance link) ∧
        ¬ saturatingSum links > saturatingSum (ports.iter (a.totals .earned))) := by
  have hchecked : Checked (fun s : Audit × Int64 => (s.1.maxIssues, s.1.totals))
      (fun s => s.1.issues = []) (a, 0) (links.foldl (withdrawableLink balance) (a, 0))
      (∀ link ∈ links, Covered balance link) := by
    refine Checked.foldl _ fun link hlink s hs => ?_
    have hlimit' : 0 < s.1.maxIssues := (Prod.mk.inj hs).1 ▸ hlimit
    have hreport := checks_reportIf hlimit'
      (link.2 < 0 ∨ (balance link.1).all (link.2 > ·)) .withdrawableInvalid link.1
      ("withdrawable=" ++ toString link.2 ++ ", available=" ++ toString ((balance link.1).getD 0))
    refine ⟨hreport.view_eq, hreport.clean_iff.trans (and_congr_right fun _ => ?_)⟩
    have hpos : ¬ link.2 < 0 := Int64.not_lt.mpr (hlinks link hlink)
    cases hbalance : balance link.1 <;> simp [Covered, hbalance, hpos]
  have htotal : (links.foldl (withdrawableLink balance) (a, 0)).2 = saturatingSum links :=
    withdrawableLinks_eq_foldl balance
      (fun link hlink => Int64.le_iff_toInt_le.mp (hlinks link hlink)) (a, 0)
  have hview := Prod.mk.inj hchecked.view_eq
  have hbefore : a.Checks (links.foldl (withdrawableLink balance) (a, 0)).1
      (∀ link ∈ links, Covered balance link) := ⟨hchecked.view_eq, hchecked.clean_iff⟩
  unfold withdrawable
  dsimp only
  rw [htotal, hview.2]
  exact hbefore.trans (checks_reportIf (hview.1 ▸ hlimit) ..)

theorem LegacyFinance.checks_withdrawable (f : LegacyFinance)
    (hlinks : ∀ link ∈ f.links .withdrawable, 0 ≤ link.2) (l : LegacyAudit) :
    l.Checks (f.withdrawable l)
      ((∀ link ∈ f.links .withdrawable, Covered f.balance link) ∧
        ¬ saturatingSum (f.links .withdrawable) > saturatingSum (sortedRows (l.totals .earned))) := by
  have hread (w : Int64) :
      ((Map.get [("amount", .ofI64 w)] "amount").bind Value.asI64).getD (-1) = w := by
    simp [Map.get]
  have hchecked : Checked (fun s : LegacyAudit × Int64 => s.1.totals) (fun s => s.1.issues = [])
      (l, 0) ((f.counterRecords .withdrawable).foldl (withdrawableCounter f.balance) (l, 0))
      (∀ link ∈ f.links .withdrawable, Covered f.balance link) := by
    rw [counterRecords, List.foldl_map]
    refine Checked.foldl _ fun link hlink s _ => ?_
    unfold withdrawableCounter
    rw [hread]
    have hpush := s.1.checks_pushIf
      (¬ (f.balance link.1).any fun balance => 0 ≤ link.2 ∧ link.2 ≤ balance)
      (.shared .withdrawableInvalid) link.1 "exceeds balance or has no creature"
    refine ⟨hpush.view_eq, hpush.clean_iff.trans (and_congr_right fun _ => ?_)⟩
    have hpos := hlinks link hlink
    cases hbalance : f.balance link.1 <;> simp [Covered, hbalance, hpos]
  have htotal : ((f.counterRecords .withdrawable).foldl
      (withdrawableCounter f.balance) (l, 0)).2 = saturatingSum (f.links .withdrawable) := by
    rw [counterRecords, List.foldl_map]
    refine List.foldl_rel (r := fun (s : LegacyAudit × Int64) x => s.2 = x) rfl
      fun link hlink s x hs => ?_
    have hmax : max link.2 0 = link.2 := by
      have hpos := Int64.le_iff_toInt_le.mp (hlinks link hlink)
      refine Int64.toInt_inj.mp ?_
      rw [toInt_max]
      exact max_eq_left hpos
    unfold withdrawableCounter
    dsimp only
    rw [hread, hmax, hs]
  have hbefore : l.Checks ((f.counterRecords .withdrawable).foldl
      (withdrawableCounter f.balance) (l, 0)).1
      (∀ link ∈ f.links .withdrawable, Covered f.balance link) :=
    ⟨hchecked.view_eq, hchecked.clean_iff⟩
  have hview := hbefore.view_eq
  unfold withdrawable
  dsimp only
  rw [htotal, hview]
  exact hbefore.trans (checks_pushIf ..)

/-! ## Budgets -/

def BudgetMatches (budget : Map) (totals : Tally → Store String Int64) (project : String) : Prop :=
  (i64Field budget "reservedMinor").getD 0 = ((totals .projectReserved).get project).getD 0 ∧
    ¬ (i64Field budget "spentMinor").getD 0 < ((totals .projectSpent).get project).getD 0

theorem Audit.checks_project (hlimit : 0 < a.maxIssues) (budget : String → Map) (project : String) :
    a.Checks (a.project budget project) (BudgetMatches (budget project) a.totals project) := by
  have hreserved := checks_reportIf hlimit ((i64Field (budget project) "reservedMinor").getD 0 ≠
    ((a.totals .projectReserved).get project).getD 0) .projectReservedMismatch project
    ("stored=" ++ toString ((i64Field (budget project) "reservedMinor").getD 0) ++ ", expected=" ++
      toString (((a.totals .projectReserved).get project).getD 0))
  have hlimit' := (Prod.mk.inj hreserved.view_eq).1 ▸ hlimit
  exact (hreserved.trans (checks_reportIf hlimit' ..)).congr (and_congr_left fun _ => not_not)

theorem LegacyAudit.stored_of_exact {budget fields}
    (h : ∀ doc, budget = some doc → LegacyFinance.ExactFields doc fields) {field}
    (hfield : field ∈ fields) : stored budget field = (i64Field (budget.getD []) field).getD 0 := by
  cases budget with
  | none => simp [stored, i64Field, Map.get]
  | some doc =>
    rw [stored, Option.bind_some, Option.getD_some, i64Field]
    cases hget : doc.get field with
    | none => rfl
    | some value =>
      obtain ⟨amount, hamount, hread⟩ := (h doc rfl).read hfield hget
      simp [hamount, hread]

theorem LegacyAudit.checks_project {budget project} (hexact : ∀ doc, budget project = some doc →
      LegacyFinance.ExactFields doc ["reservedMinor", "spentMinor"]) :
    l.Checks (l.project budget project)
      (BudgetMatches ((budget project).getD []) l.totals project) := by
  refine (Checked.trans (l.checks_pushIf ..) (checks_pushIf ..)).congr ?_
  rw [totals_pushIf, stored_of_exact hexact (by simp), stored_of_exact hexact (by simp)]
  exact and_congr_left fun _ => not_not

/-! ## The verdicts -/

namespace LegacyFinance

/-- What both reconciliations check of the totals; `earnedRows` are the earned totals in the order
they are summed up. -/
structure Sound (f : LegacyFinance) (totals : Tally → Store String Int64)
    (earnedRows : List (String × Int64)) : Prop where
  held : CounterMatches (totals .held) (f.derived .held)
  payoutHeld : CounterMatches (totals .payoutHeld) (f.derived .payoutHeld)
  spent : CounterMatches (totals .spent) (f.derived .spent)
  earned : CounterMatches (totals .earned) (f.derived .earned)
  covered : ∀ link ∈ f.links .withdrawable, Covered f.balance link
  backed : ¬ saturatingSum (f.links .withdrawable) > saturatingSum earnedRows
  budgets : ∀ project ∈ sortDedup ((totals .projectReserved).keys ++ (totals .projectSpent).keys ++
    f.budgets.map Prod.fst), BudgetMatches ((f.budgets.lookup project).getD []) totals project

theorem mem_of_lookup_eq_some {rows : List (String × Map)} {key : String} {doc : Map}
    (h : rows.lookup key = some doc) : (key, doc) ∈ rows := by
  obtain ⟨before, after, rfl, -⟩ := List.lookup_eq_some_iff.mp h
  simp

theorem records_budget (f : LegacyFinance) (project : String) :
    f.records.budget project = (f.budgets.lookup project).getD [] := by
  have hlookup : f.records.budgets.lookup project = (f.budgets.lookup project).map some := by
    unfold records
    induction f.budgets with
    | nil => rfl
    | cons e budgets ih =>
      rw [List.map_cons, List.lookup_cons, List.lookup_cons]
      split
      · rfl
      · exact ih
  rw [Records.budget, hlookup]
  cases f.budgets.lookup project <;> rfl

theorem checks_projects {f : LegacyFinance} (hexact : f.Exact) (l : LegacyAudit) :
    l.Checks ((f.projects l).foldl (LegacyAudit.project fun project => f.budgets.lookup project) l)
      (∀ project ∈ f.projects l,
        BudgetMatches ((f.budgets.lookup project).getD []) l.totals project) := by
  refine Checked.foldl _ fun project _ l' hl' => ?_
  rw [← hl']
  exact l'.checks_project fun doc hdoc => hexact.budgets (project, doc) (mem_of_lookup_eq_some hdoc)

/-- **The legacy verdict**: reading the documents finds nothing, and the totals are sound. -/
theorem audit_clean_iff {f : LegacyFinance} (hexact : f.Exact) :
    f.audit.issues = [] ↔ (f.scan {}).issues = [] ∧
      f.Sound (f.scan {}).totals (sortedRows ((f.scan {}).totals .earned)) := by
  have hheld := (f.scan {}).checks_compare .held (f.derived .held) .heldMismatch
  have hpayoutHeld := hheld.trans (checks_compare _ .payoutHeld (f.derived .payoutHeld)
    .payoutHeldMismatch)
  rw [hheld.view_eq] at hpayoutHeld
  have hspent := hpayoutHeld.trans (checks_compare _ .spent (f.derived .spent)
    .spentMismatch)
  rw [hpayoutHeld.view_eq] at hspent
  have hearned := hspent.trans (checks_compare _ .earned (f.derived .earned)
    .earnedMismatch)
  rw [hspent.view_eq] at hearned
  have hwithdrawable := hearned.trans (f.checks_withdrawable (hexact.counters .withdrawable) _)
  rw [hearned.view_eq] at hwithdrawable
  have hprojects := hwithdrawable.trans (checks_projects hexact _)
  simp only [projects, hwithdrawable.view_eq] at hprojects
  rw [audit, projects, hwithdrawable.view_eq]
  refine hprojects.clean_iff.trans (and_congr_right fun _ => ⟨fun h => ?_, fun h => ?_⟩)
  · obtain ⟨⟨⟨⟨⟨held, payoutHeld⟩, spent⟩, earned⟩, covered, backed⟩, budgets⟩ := h
    exact { held, payoutHeld, spent, earned, covered, backed, budgets }
  · exact ⟨⟨⟨⟨⟨h.held, h.payoutHeld⟩, h.spent⟩, h.earned⟩, h.covered, h.backed⟩, h.budgets⟩

end LegacyFinance

namespace Audit

variable {a : Audit}

theorem payout_grows (h : 0 < a.maxIssues) (e : String × Option Map) :
    (a.payout e).maxIssues = a.maxIssues ∧ (a.issues ≠ [] → (a.payout e).issues ≠ []) := by
  obtain ⟨payoutId, _ | doc⟩ := e
  · exact ⟨maxIssues_report .., fun _ => issues_report_ne_nil h _ _ _⟩
  · unfold payout payoutRow
    dsimp only
    split
    · split
      · exact ⟨maxIssues_report .., fun _ => issues_report_ne_nil (by exact h) _ _ _⟩
      · exact tally_grows (by exact h) ..
    · exact ⟨rfl, id⟩

theorem payouts_grow (h : 0 < a.maxIssues) (payouts : List (String × Option Map)) :
    (payouts.foldl payout a).maxIssues = a.maxIssues ∧
      (a.issues ≠ [] → (payouts.foldl payout a).issues ≠ []) := by
  induction payouts generalizing a with
  | nil => exact ⟨rfl, id⟩
  | cons e payouts ih =>
    have hstep := payout_grows h e
    have hrest := ih (hstep.1 ▸ h)
    exact ⟨hrest.1.trans hstep.1, fun hissues => hrest.2 (hstep.2 hissues)⟩

end Audit

namespace LegacyFinance

variable {a : Audit}

theorem audit_projects_clean_iff (f : LegacyFinance) (h : a.Checks a' P) (hlimit : 0 < a.maxIssues) :
    ((f.records.projects a').foldl (project f.records.budget) a').issues = [] ↔
      (a.issues = [] ∧ P) ∧ ∀ project ∈ sortDedup ((a.totals .projectReserved).keys ++
        (a.totals .projectSpent).keys ++ f.budgets.map Prod.fst),
        BudgetMatches ((f.budgets.lookup project).getD []) a.totals project := by
  have hids : f.records.budgets.map Prod.fst = f.budgets.map Prod.fst := by
    simp [records, Function.comp_def]
  have hprojects : a'.Checks ((f.records.projects a').foldl (project f.records.budget) a')
      (∀ project ∈ f.records.projects a',
        BudgetMatches ((f.budgets.lookup project).getD []) a'.totals project) := by
    refine Checked.foldl _ fun project _ a'' ha'' => ?_
    obtain ⟨hmax, htotals⟩ := Prod.mk.inj ha''
    rw [← htotals, ← records_budget]
    exact checks_project (hmax ▸ h.limit hlimit) ..
  rw [hprojects.clean_iff, h.clean_iff, Records.projects, hids, h.totals_eq]

variable {f : LegacyFinance}

theorem checks_counters (hexact : f.Exact) (ports : Ports) (hlimit : 0 < a.maxIssues) :
    a.Checks
      (((Audit.withdrawable ports (a.payoutHeld (f.links .payoutHeld)) (f.links .withdrawable)
        f.balance).spent (f.links .spent)).earned (f.links .earned))
      (((CounterMatches (a.totals .payoutHeld) (f.derived .payoutHeld) ∧
        ((∀ link ∈ f.links .withdrawable, Covered f.balance link) ∧
          ¬ saturatingSum (f.links .withdrawable) > saturatingSum (ports.iter (a.totals .earned)))) ∧
        CounterMatches (a.totals .spent) (f.derived .spent)) ∧
        CounterMatches (a.totals .earned) (f.derived .earned)) := by
  have hpayoutHeld : a.Checks (a.payoutHeld (f.links .payoutHeld))
      (CounterMatches (a.totals .payoutHeld) (f.derived .payoutHeld)) :=
    Audit.checks_compareCounter hlimit .payoutHeld (hexact.counters .payoutHeld) ..
  have hwithdrawable := hpayoutHeld.trans (Audit.checks_withdrawable (hpayoutHeld.limit hlimit) ports
    (hexact.counters .withdrawable) f.balance)
  rw [hpayoutHeld.totals_eq] at hwithdrawable
  have hspent := hwithdrawable.trans (Audit.checks_compareCounter
    (Checks.limit hwithdrawable hlimit) .spent (hexact.counters .spent) .spentMismatch
    .spentMismatch fun _ => "stored counter is invalid")
  rw [Checks.totals_eq hwithdrawable] at hspent
  have hearned := hspent.trans (Audit.checks_compareCounter
    (Checks.limit hspent hlimit) .earned (hexact.counters .earned) .earnedMismatch
    .earnedMismatch fun _ => "stored counter is invalid")
  rw [Checks.totals_eq hspent] at hearned
  exact hearned

/-- The action's reading of the documents, without the comparison it runs before the payouts. -/
def auditScan (f : LegacyFinance) (maxIssues : Nat) : Audit :=
  f.records.payouts.foldl .payout
    (f.records.pools.foldl .poolReserved (f.records.scan { maxIssues }))

variable {maxIssues : Nat}

/-- **The action's verdict**: reading the documents finds nothing, and the totals are sound. -/
theorem records_audit_clean_iff (hexact : f.Exact) (ports : Ports)
    (hlimit : 0 < (f.records.pools.foldl .poolReserved (f.records.scan { maxIssues })).maxIssues) :
    (f.records.audit ports maxIssues).issues = [] ↔ (f.auditScan maxIssues).issues = [] ∧
      f.Sound (f.auditScan maxIssues).totals (ports.iter ((f.auditScan maxIssues).totals .earned)) := by
  rw [Records.audit, auditScan]
  generalize f.records.pools.foldl .poolReserved (f.records.scan { maxIssues }) = a at hlimit ⊢
  have hheldTotals : (f.records.payouts.foldl .payout a).totals .held = a.totals .held :=
    (Extends.foldl payout_extends _ _).totals .held (by decide)
  have hchecks : a.Checks (a.held (f.links .held))
      (CounterMatches (a.totals .held) (f.derived .held)) :=
    Audit.checks_compareCounter hlimit .held (hexact.counters .held) ..
  by_cases hheld : CounterMatches (a.totals .held) (f.derived .held)
  · have hagrees : Agrees (a.totals .held) (f.links .held) := by
      refine ⟨fun link hlink => Int64.le_iff_toInt_le.mp (hexact.counters .held link hlink),
        fun user => ?_⟩
      rw [validLinks_of_nonneg (hexact.counters .held), Store.value, Store.value, hheld user]
      rfl
    have hself : a.held (f.links .held) = a := compareCounter_eq_self hagrees ..
    have hlimit' : 0 < (f.records.payouts.foldl .payout a).maxIssues := by
      rw [(payouts_grow hlimit _).1]
      exact hlimit
    have hafter := f.audit_projects_clean_iff (checks_counters hexact ports hlimit') hlimit'
    have hlinks : f.records.counterLinks = f.links := rfl
    rw [hlinks, hself]
    refine hafter.trans ⟨?_, ?_⟩
    · rintro ⟨⟨hclean, ⟨⟨payoutHeld, covered, backed⟩, spent⟩, earned⟩, budgets⟩
      exact ⟨hclean, hheldTotals ▸ hheld, payoutHeld, spent, earned, covered, backed, budgets⟩
    · rintro ⟨hclean, h⟩
      exact ⟨⟨hclean, ⟨⟨h.payoutHeld, h.covered, h.backed⟩, h.spent⟩, h.earned⟩, h.budgets⟩
  · -- the comparison reports an issue, and no payout takes it away
    have hlimit' := hchecks.limit hlimit
    have hgrows := payouts_grow hlimit' f.records.payouts
    have hissues : (a.held (f.links .held)).issues ≠ [] :=
      fun hclean => hheld (hchecks.clean_iff.mp hclean).2
    have hafter := f.audit_projects_clean_iff
      (checks_counters hexact ports (hgrows.1 ▸ hlimit')) (hgrows.1 ▸ hlimit')
    refine iff_of_false (fun hclean => ?_) fun h => hheld (hheldTotals ▸ h.2.held)
    exact hgrows.2 hissues (hafter.mp hclean).1.1

theorem scan_inStep (hexact : f.Exact) (hlimit : 0 < maxIssues) :
    0 < (f.records.pools.foldl .poolReserved (f.records.scan { maxIssues })).maxIssues ∧
      InStep (f.scan {}) (f.auditScan maxIssues) := by
  have hholds := (InStep.start hlimit).foldl fun e he _ _ h =>
    h.hold e.1 (hexact.holds e he).1 (hexact.holds e he).2
  have hpools := hholds.foldl fun e he _ _ h => h.pool e.1 (hexact.pools e he)
  have hreservations := hpools.foldl fun e he _ _ h =>
    h.reservation e.1 (hexact.reservations e he).1 (hexact.reservations e he).2
  have hdebits := hreservations.foldl fun e he _ _ h =>
    h.liveDebit e.1 (hexact.liveDebits e he).1
  have hreserved := hdebits.foldl fun e he _ _ h => h.poolReserved e.1 (hexact.pools e he)
  exact ⟨hreserved.limit, hreserved.foldl fun e he _ _ h => h.payout e.1 (hexact.payouts e he)⟩

/-- While the two match, summing up the earned totals in any order gives the same. -/
theorem sound_iff_of_matches {l} (h : Matches l a) (ports : Ports) :
    f.Sound l.totals (sortedRows (l.totals .earned)) ↔
      f.Sound a.totals (ports.iter (a.totals .earned)) := by
  have hnonneg : ∀ row ∈ (a.totals .earned).toList, 0 ≤ row.2.toInt := by
    rintro ⟨user, amount⟩ hrow
    have hvalue := h.nonneg user
    rw [Store.value, Store.mem_toList_iff.mp hrow] at hvalue
    exact hvalue
  have hsorted := saturatingSum_of_perm (sortedRows_perm (a.totals .earned)) hnonneg
  have hiter := saturatingSum_of_perm (ports.iter_perm (a.totals .earned)) hnonneg
  rw [h.totals]
  constructor
  · intro hs
    exact { hs with backed := by rw [hiter, ← hsorted]; exact hs.backed }
  · intro hs
    exact { hs with backed := by rw [hsorted, ← hiter]; exact hs.backed }

/-- The action accepts when the legacy reconciliation does and the empty id has earned nothing. -/
theorem verdicts (hexact : f.Exact) (ports : Ports) (hlimit : 0 < maxIssues) :
    (f.records.audit ports maxIssues).issues = [] ↔
      f.audit.issues = [] ∧ ((f.derived .earned).get "").getD 0 = 0 := by
  obtain ⟨hlimit', hstep⟩ := scan_inStep hexact hlimit
  rw [records_audit_clean_iff hexact ports hlimit', audit_clean_iff hexact]
  rcases hstep.state with hm | hs
  · rw [hm.clean, hm.legacy_clean, sound_iff_of_matches hm ports]
    simp only [true_and]
    refine ⟨fun hsound => ⟨hsound, ?_⟩, And.left⟩
    rw [← hsound.earned ""]
    exact Int64.toInt_inj.mp hm.unnamed
  · refine iff_of_false (fun h => hs.reported h.1) ?_
    rintro ⟨⟨hclean, hsound⟩, hzero⟩
    -- the empty id was credited, and its counter would have to carry the amount
    have hcredited := hs.legacy.resolve_left (not_not.mpr hclean)
    rw [Store.value, hsound.earned "", hzero] at hcredited
    exact lt_irrefl _ hcredited

end LegacyFinance

theorem ReconcileFinancialSystemInput.limit_pos (input : ReconcileFinancialSystemInput) :
    0 < input.limit := by
  unfold limit
  split
  · decide
  · next hpos =>
    have hpos := not_nonpos_iff_toInt.mp hpos
    have hmin := toInt_min input.maxIssues 1000
    have hthousand : (1000 : Int64).toInt = 1000 := by decide
    rw [Int64.toNatClampNeg]
    omega

/-- **The two reconciliations agree**: on every content whose money fields are integers of an `i64`
and whose counters are nonnegative, the action reports nothing exactly when the legacy
reconciliation accepts and the earned counter of the empty user id is zero or absent. -/
theorem reconciliations_agree (f : LegacyFinance) (hexact : f.Exact) (ports : Ports)
    (input : ReconcileFinancialSystemInput) :
    ∃ report, reconcileFinancialSystem ports f.records legacyRoot input = .ok report ∧
      (report.issueCount = 0 ↔
        f.reconcileLegacyFinance = .ok () ∧ ((f.derived .earned).get "").getD 0 = 0) := by
  have haccepts : f.reconcileLegacyFinance = .ok () ↔ f.audit.issues = [] := by
    unfold LegacyFinance.reconcileLegacyFinance intoResult
    split <;> simp_all
  obtain ⟨report, hreport, hissues⟩ := reconcileFinancialSystem_root ports f.records input
  refine ⟨report, hreport, ?_⟩
  rw [haccepts, ← LegacyFinance.verdicts hexact ports input.limit_pos, ← hissues,
    reconcileFinancialSystem_issueCount hreport, List.length_eq_zero_iff]

namespace Sample

/-- A settled hold of five coins with one line. -/
def lineHold (user : String) : Map :=
  Map.ofList [("payerUserId", .string "alice"), ("status", .string "settled"),
    ("maxAmount", .ofI64 5), ("remainingAmount", .ofI64 0), ("actualAmount", .ofI64 5),
    ("refundedAmount", .ofI64 0),
    ("settlementLines", .array [obj [("userId", .string user), ("amount", .ofI64 5)]])]

/-- The hold and the counters that fit it. -/
def lineFinance (user : String) : LegacyFinance where
  holds := [("hold", lineHold user)]
  pools := []
  reservations := []
  liveDebits := []
  payouts := []
  budgets := []
  links
    | .spent => [("alice", 5)]
    | .earned => [(user, 5)]
    | _ => []
  balance _ := none

theorem lineFinance_exact {user} (h : user = "" ∨ user = "bob") : (lineFinance user).Exact where
  holds := by rcases h with rfl | rfl <;> decide +kernel
  pools := by simp [lineFinance]
  reservations := by simp [lineFinance]
  liveDebits := by simp [lineFinance]
  payouts := by simp [lineFinance]
  budgets := by simp [lineFinance]
  counters kind := by rcases h with rfl | rfl <;> cases kind <;> decide

end Sample

open Sample

theorem reconciliations_agree_of_bob :
    ∃ report, reconcileFinancialSystem (ports "id" "journal")
        (lineFinance "bob").records legacyRoot {} = .ok report ∧ report.issueCount = 0 := by
  obtain ⟨report, hreport, hagree⟩ := reconciliations_agree (lineFinance "bob")
    (lineFinance_exact (.inr rfl)) (ports "id" "journal") {}
  exact ⟨report, hreport, hagree.mpr (by decide +kernel)⟩

/-- A line of the empty user id, with the counter to match: the legacy reconciliation accepts it. -/
theorem reconciliations_differ_on_unnamed_line :
    (lineFinance "").Exact ∧ (lineFinance "").reconcileLegacyFinance = .ok () ∧
      ∃ report, reconcileFinancialSystem (ports "id" "journal")
        (lineFinance "").records legacyRoot {} = .ok report ∧ report.issueCount ≠ 0 := by
  refine ⟨lineFinance_exact (.inl rfl), by decide +kernel, _, rfl, by decide +kernel⟩

end Aseman.Finance
