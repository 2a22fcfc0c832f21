import Aseman.Finance.Release

/-!
# Project budgets

A project's metadata may configure a budget, and every hold for the project reserves its amount of
it. The check is made once, when the hold is created; a settlement and a release rewrite the
document from the amounts of the hold. While the configured budget stays the same, what is spent
and reserved together never passes it, whoever the payers are and however their holds interleave.
-/

namespace Aseman.Finance

def Call.seesBudget (projectId : String) (limit : Int64) (c : Call) (_ : Ledger) : Bool :=
  (financeNonnegativeField ((c.ports.storeMetadataObject projectId).getD [])
    "budgetMinor").toOption = some limit

theorem Call.seesBudget_eq_true {projectId : String} {limit : Int64} {c : Call} {s : Ledger} :
    c.seesBudget projectId limit s = true ↔
      financeNonnegativeField ((c.ports.storeMetadataObject projectId).getD []) "budgetMinor" =
        .ok limit := by
  unfold seesBudget
  cases financeNonnegativeField ((c.ports.storeMetadataObject projectId).getD []) "budgetMinor" <;>
    simp [Except.toOption]

theorem BudgetMoved.get_of_ne {projectId id d budgets budgets'}
    (h : BudgetMoved projectId d budgets budgets') (hne : id ≠ projectId ∨ id = "") :
    budgets'.get id = budgets.get id := by
  cases h with
  | none hempty => rfl
  | put b hnamed hreserved hspent =>
    refine Store.get_put_of_ne ?_
    rcases hne with hne | rfl
    · exact hne
    · exact Ne.symm hnamed

theorem BudgetMoved.committedMinor_of_ne {projectId id d budgets budgets'}
    (h : BudgetMoved projectId d budgets budgets') (hne : id ≠ projectId) :
    committedMinor budgets' id = committedMinor budgets id := by
  rw [committedMinor, committedMinor, h.get_of_ne (.inl hne)]

theorem Applied.budgetMoved {s s' r c} (ha : Applied s r s' c) :
    ∃ projectId d, BudgetMoved projectId d s.budgets s'.budgets := by
  cases ha with
  | createHold a | settleHold a | releaseHold a => exact ⟨_, _, by rw [a.state]; exact a.budget⟩
  | _ a => exact ⟨"", 0, by rw [a.state]; exact .none rfl⟩

theorem budget_named_of_run {creatures es t} (h : Run Step (.initial creatures) es t) :
    t.budgets.get "" = none := by
  refine h.invariant (I := fun s => s.budgets.get "" = none) (Step.keeps fun _ ha hs => ?_) rfl
  obtain ⟨projectId, d, hmoved⟩ := ha.budgetMoved
  rw [hmoved.get_of_ne (.inr rfl), hs]

section Within

variable {projectId : String} {limit : Int64}

theorem Applied.within {s s' : Ledger} {r : Reply} {c : Call} (ha : Applied s r s' c)
    (hsees : c.seesBudget projectId limit s = true) (hpos : 0 < limit.toInt) (hne : projectId ≠ "")
    (h : committedMinor s.budgets projectId ≤ limit.toInt) :
    committedMinor s'.budgets projectId ≤ limit.toInt := by
  rw [Call.seesBudget_eq_true] at hsees
  cases ha with
  | createHold a =>
    have hbudgets : s'.budgets = a.budgets := congrArg Ledger.budgets a.state
    rw [hbudgets]
    by_cases hproject : projectId = quoteProjectId a.quote
    · subst hproject
      exact a.within hne limit hsees hpos
    · rwa [a.budget.committedMinor_of_ne hproject]
  | settleHold a =>
    have hbudgets : s'.budgets = a.budgets := congrArg Ledger.budgets a.state
    rw [hbudgets]
    by_cases hproject : projectId = a.hold.projectId
    · -- what is settled moves from reserved to spent, and the rest is given back
      have hcommitted := a.committed (hproject ▸ hne)
      have hrefund := a.refund_nonneg
      rw [← hproject] at hcommitted
      omega
    · rwa [a.budget.committedMinor_of_ne hproject]
  | releaseHold a =>
    have hbudgets : s'.budgets = a.budgets := congrArg Ledger.budgets a.state
    rw [hbudgets]
    by_cases hproject : projectId = a.hold.projectId
    · have hcommitted := a.committed (hproject ▸ hne)
      have hamount := a.positive
      rw [← hproject] at hcommitted
      omega
    · rwa [a.budget.committedMinor_of_ne hproject]
  | _ a =>
    rw [a.state]
    exact h

/-- **A project stays within its budget**: from every ledger that a run has reached, in every
further run whose applied calls see the same budget configured, the project's document has
reserved what its open and running holds ask for, and has spent and reserved no more than the
budget, if it had not at the start. What the metadata says was spent plays no part. -/
theorem budget_of_run {creatures : Creatures} {es es' : List Event} {s t : Ledger}
    (hreached : Run Step (.initial creatures) es s) (hpos : 0 < limit.toInt)
    (hstart : ∀ b, s.budgets.get projectId = some b →
      b.spentMinor.toInt + b.reservedMinor.toInt ≤ limit.toInt)
    (hrun : Run (GuardedStep (Call.seesBudget projectId limit)) s es' t) {b : ProjectBudget}
    (hget : t.budgets.get projectId = some b) :
    0 ≤ b.reservedMinor.toInt ∧ b.spentMinor.toInt + b.reservedMinor.toInt ≤ limit.toInt ∧
      b.reservedMinor.toInt = t.committedFor projectId := by
  have hreached' := hreached.append (GuardedStep.run hrun)
  have hne : projectId ≠ "" := by
    rintro rfl
    rw [budget_named_of_run hreached'] at hget
    cases hget
  have hs : committedMinor s.budgets projectId ≤ limit.toInt := by
    unfold committedMinor
    cases hbudget : s.budgets.get projectId with
    | none => exact hpos.le
    | some b => exact hstart b hbudget
  have ht : committedMinor t.budgets projectId ≤ limit.toInt :=
    hrun.invariant (I := fun s => committedMinor s.budgets projectId ≤ limit.toInt)
      (fun s e s' hstep => GuardedStep.keeps_of (J := fun _ => True)
        (fun _ ha hsees _ => ha.within hsees hpos hne) s e s' hstep trivial) hs
  have hreserved := (Budgeted.of_run hreached').reserved projectId hne
  have hnonneg : 0 ≤ t.committedFor projectId := by
    refine Store.sumBy_nonneg _ _ fun e he => ?_
    have hamount := ((Documented.of_run hreached').hold _ _ (Store.mem_toList_iff.mp he)).positive
    unfold Hold.committedFor
    split <;> omega
  simp only [committedMinor, hget, Option.elim_some] at ht
  simp only [reservedMinor, hget, Option.map_some, Option.getD_some] at hreserved
  exact ⟨hreserved ▸ hnonneg, ht, hreserved⟩

end Within

namespace Sample

open Json

/-- The ports of a node with a project whose budget is 150. -/
def projectPorts (id : String) : Ports :=
  { ports id id with
    store := fun store => store = "project"
    storeMetadataObject := fun _ => some (Map.ofList [("budgetMinor", .ofI64 150)])
    isMember := fun _ _ => true }

def projectHeld : List Call :=
  [⟨projectPorts "id1", legacyRoot,
      .mint { toUserEmail := "alice", amount := 1000, idempotencyKey := "" }⟩,
    ⟨projectPorts "id2", "node", .publishFinanceQuote
      { quote := .object (((quote "q1" "alice").asObject.getD []).insert "projectId"
          (.string "project")) }⟩,
    ⟨projectPorts "id3", "alice", .createHold holdInput⟩]

end Sample

open Sample

/-- A hold of 100 for a project with a budget of 150. -/
theorem budget_of_projectHeld : ∃ b, (runCalls projectHeld ledger).budgets.get "project" = some b ∧
      b.reservedMinor = 100 ∧ b.spentMinor.toInt + b.reservedMinor.toInt ≤ 150 := by
  have hrun : allFresh projectHeld ledger = true ∧
      allGuarded (Call.seesBudget "project" 150) projectHeld ledger = true ∧
      ((runCalls projectHeld ledger).budgets.get "project").any
        (fun b => b.reservedMinor = 100) = true := by
    decide +kernel
  obtain ⟨hfresh, hguarded, hbudget⟩ := hrun
  obtain ⟨b, hget, hreserved⟩ := (Option.any_eq_true _ _).mp hbudget
  have hstart : Run Step (.initial creatures) [] ledger := .nil
  have hlimit : 0 < (150 : Int64).toInt := by decide
  obtain ⟨-, hwithin, -⟩ := budget_of_run hstart hlimit (by simp [ledger, Ledger.initial])
    (guarded_runCalls _ _ _ hfresh hguarded) hget
  exact ⟨b, hget, of_decide_eq_true hreserved, hwithin⟩

end Aseman.Finance
