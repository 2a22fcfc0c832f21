import Aseman.Vmm.Calls

/-!
# Runs of the VMM service

Whatever calls of the service interleave, workload records move forward, as long as the backend reports
its steps for the generation that it was given. A restore that has succeeded was run, as long as no other
operation of its generation was opened between the time its generation was stored and its end.
-/

namespace Aseman.Vmm

variable {ι : Type} [DecidableEq ι]

/-- Nothing is stored yet, and no call is running. -/
structure Initial (s : System ι) : Prop where
  workloads : s.shared.workloads = ∅
  operations : s.shared.operations = ∅
  recorded : s.shared.recorded = []
  idle : ∀ i, s.threads i = none

omit [DecidableEq ι] in
theorem Initial.good {faithful guarded : Prop} {s : System ι} (h : Initial s)
    (hworld : faithful → s.shared.world.Faithful) :
    Good (growth faithful guarded).protocol (fun _ _ _ _ => True) s where
  inv := {
    workloads := ⟨by simp [h.workloads], by simp [h.workloads], hworld, by simp [h.recorded],
      by simp [h.recorded], by simp [h.workloads]⟩
    operations := ⟨by simp [h.operations], by simp [h.operations], by simp [h.operations],
      by simp [h.workloads]⟩
    restores := fun _ => ⟨by simp [h.operations], by simp [h.operations], by simp [h.operations]⟩ }
  safe i th hth := by
    rw [h.idle] at hth
    cases hth

theorem inv_environment {faithful guarded s world} (h : Inv faithful guarded s)
    (hworld : faithful → world.Faithful) :
    Inv faithful guarded { s with world := world } ∧ Later faithful s { s with world := world } :=
  ⟨⟨⟨h.workloads.id, h.workloads.sound, hworld, h.workloads.ordered, h.workloads.latest,
      h.workloads.last⟩,
    ⟨h.operations.id, h.operations.reached, h.operations.lifecycle, h.operations.applied⟩,
    fun hg => ⟨(h.restores hg).alone, (h.restores hg).restored, (h.restores hg).succeeded⟩⟩,
  ⟨fun _ r hr => ⟨r, hr, .inl rfl⟩, fun _ o ho => ⟨o, ho, Same.refl o, fun _ => rfl⟩,
    List.Subset.refl _, List.prefix_rfl⟩⟩

/-! ## Workloads -/

/-- A step of the service with a backend that reports a step for the generation that it was given. -/
structure FaithfulStep (s : System ι) (e : Event ι Call World) (t : System ι) : Prop where
  step : service.Step s e t
  faithful : ∀ world, e = .environment world → world.Faithful

theorem FaithfulStep.grows {s t : System ι} {e : Event ι Call World} (h : FaithfulStep s e t)
    (hs : Good (growth True False).protocol (fun _ _ _ _ => True) s) :
    Good (growth True False).protocol (fun _ _ _ _ => True) t ∧ Later True s.shared t.shared :=
  Growth.step hs h.step (fun c s => ensures_code c s)
    (fun world he hinv => inv_environment hinv fun _ => h.faithful world he)
    fun _ _ _ _ _ _ hfalse => hfalse.elim

/-- **Workload records only move forward.** From any state of a run on, whatever calls interleave: the
desired generation does not decrease, a deleted workload stays deleted, the applied generation does not
decrease and neither it nor that of the recorded observation exceeds the desired one; and what is recorded
of a workload is the last of observations that come one before the other. -/
theorem workloads_move_forward {s₀ s t : System ι} {events events' : List (Event ι Call World)}
    (hinitial : Initial s₀) (hfaithful : s₀.shared.world.Faithful)
    (hrun : Run FaithfulStep s₀ events s) (hrun' : Run FaithfulStep s events' t) :
    (∀ id r, s.shared.workloads.get id = some r → ∃ r', t.shared.workloads.get id = some r' ∧
      r.desired.generation.value ≤ r'.desired.generation.value ∧
      (r.desired.state = .deleted → r'.desired.state = .deleted) ∧
      ∀ g, r.appliedGeneration = some g →
        ∃ g', r'.appliedGeneration = some g' ∧ g.value ≤ g'.value) ∧
    (∀ id r, t.shared.workloads.get id = some r →
      (∀ g, r.appliedGeneration = some g → g.value ≤ r.desired.generation.value) ∧
      (∀ o, r.observed = some o → o.generation.value ≤ r.desired.generation.value) ∧
      r.observed = lastRecorded id t.shared.recorded) ∧
    s.shared.recorded <+: t.shared.recorded ∧
    t.shared.recorded.Pairwise fun a b => a.1 = b.1 → a.2.Before b.2 := by
  have hs : Good (growth True False).protocol (fun _ _ _ _ => True) s :=
    hrun.invariant (fun _ _ _ h hs => (h.grows hs).1) (hinitial.good fun _ => hfaithful)
  obtain ⟨ht, hlater⟩ : Good (growth True False).protocol (fun _ _ _ _ => True) t ∧
      Later True s.shared t.shared :=
    hrun'.invariant (I := fun t => Good (growth True False).protocol (fun _ _ _ _ => True) t ∧
        Later True s.shared t.shared)
      (fun _ _ _ h ht => ⟨(h.grows ht.1).1, ht.2.trans (h.grows ht.1).2⟩) ⟨hs, Later.refl _ _⟩
  refine ⟨fun id r hr => ?_, fun id r hr => ?_, hlater.recorded, ht.inv.workloads.ordered⟩
  · obtain ⟨r', hr', rfl | hforward⟩ := hlater.workload id r hr
    · exact ⟨r', hr', le_rfl, fun h => h, fun g hg => ⟨g, hg, le_rfl⟩⟩
    · exact ⟨r', hr', hforward.generation, hforward.deleted, hforward.applied trivial⟩
  · have hsound := ht.inv.workloads.sound id r hr
    exact ⟨hsound.applied, hsound.observed, ht.inv.workloads.last id r hr⟩

/-! ## Restores -/

/-- A step of the service that inserts no operation for the generation of a restore that has not ended,
and no restore where there is an operation of its generation. -/
structure ClearStep (s : System ι) (e : Event ι Call World) (t : System ι) : Prop where
  step : service.Step s e t
  clear : ∀ i call o next, e = .step i → s.threads i = some ⟨call, (), .step o next⟩ →
    o.Clear s.shared

theorem ClearStep.grows {s t : System ι} {e : Event ι Call World} (h : ClearStep s e t)
    (hs : Good (growth False True).protocol (fun _ _ _ _ => True) s) :
    Good (growth False True).protocol (fun _ _ _ _ => True) t :=
  (Growth.step hs h.step (fun c s => ensures_code c s)
    (fun _ _ hinv => inv_environment hinv fun hfalse => hfalse.elim)
    fun i call o next he hthread _ => h.clear i call o next he hthread).1

/-- **A restore that has succeeded was run**, in every run in which operations are inserted only where
they leave restores alone. -/
theorem restores_succeed_after_run {s₀ s : System ι} {events : List (Event ι Call World)}
    (hinitial : Initial s₀) (hrun : Run ClearStep s₀ events s) {id : OperationId} {o : OperationRecord}
    (ho : s.shared.operations.get id = some o) (hkind : o.kind = .restore)
    (hstate : o.state = .succeeded) : ∃ o' ∈ s.shared.ran, Same o o' :=
  have hs : Good (growth False True).protocol (fun _ _ _ _ => True) s :=
    hrun.invariant (fun _ _ _ h hs => h.grows hs) (hinitial.good fun hfalse => hfalse.elim)
  (hs.inv.restores trivial).succeeded id o ho hkind hstate

/-! ## Operations -/

theorem later_of_run {s t : System ι} {events} (hrun : Run service.Step s events t)
    (hs : Good (growth False False).protocol (fun _ _ _ _ => True) s) :
    Good (growth False False).protocol (fun _ _ _ _ => True) t ∧ Later False s.shared t.shared := by
  refine hrun.invariant (I := fun t => Good _ _ t ∧ Later False s.shared t.shared) ?_ ⟨hs, .refl _ _⟩
  intro u e v hstep ⟨hu, hlater⟩
  exact (Growth.step hu hstep (fun c s => ensures_code c s)
    (fun _ _ hinv => inv_environment hinv nofun) fun _ _ _ _ _ _ => nofun).imp_right hlater.trans

/-- **Operations end once**, whatever calls interleave and whatever the backend answers: an operation is
never lost, keeps what it is about, and does not change once it has ended. One that brings a workload to
its desired state is for a generation that the workload has reached, and the generation that a workload
has applied is that of an operation. -/
theorem operations_end_once {s₀ s t : System ι} {events events' : List (Event ι Call World)}
    (hinitial : Initial s₀) (hrun : Run service.Step s₀ events s)
    (hrun' : Run service.Step s events' t) :
    (∀ id o, s.shared.operations.get id = some o → ∃ o', t.shared.operations.get id = some o' ∧
      Same o o' ∧ (o.state.terminal = true → o' = o)) ∧ OperationsInv t.shared :=
  have hs := (later_of_run hrun (hinitial.good nofun)).1
  ⟨(later_of_run hrun' hs).2.operation, (later_of_run hrun' hs).1.inv.operations⟩

/-! ## Runs of one workload -/

namespace Sample

def runtime : RuntimeCapabilities where
  runtime := "wasm"
  invocation := true
  pause := true
  snapshot := true
  exec := true
  terminal := true
  httpIngress := true
  files := true
  build := true
  chainTransactions := false
  executionProofs := false

/-- A backend that does what it is asked to, and the next operation id. -/
def world (operationId : OperationId) : World where
  describe := .ok [runtime]
  step record _ := .ok ⟨.running, record.desired.generation,
    (record.observed.map Observation.sequence).getD 0 + 1, none, 0⟩
  observeAll := .ok []
  run _ _ := .ok "restored"
  unixMillis := 0
  operationId := operationId

def empty (ι : Type) : System ι := ⟨⟨∅, ∅, [], world 1, [], []⟩, fun _ => none, []⟩

theorem initial_empty (ι : Type) : Initial (empty ι) := ⟨rfl, rfl, rfl, fun _ => rfl⟩

theorem faithful_world (operationId : OperationId) : (world operationId).Faithful := by
  rintro record action observation ⟨⟩
  rfl

def createCall : Call := .create "node" 5 ⟨"wasm", []⟩ ⟨.running, ⟨1, le_rfl⟩⟩ none

def restoreCall : Call := .restore "node" 5 ⟨2, by decide⟩ "snapshot" none none 1

/-- Between the save of a restore and the insertion of its operation, reconciliation opens an operation of
the new generation, which is executed. -/
def reconciledRestore : List (Event Bool Call World) :=
  [Event.call false createCall 8, Event.call false (.execute "node" 1) 14,
    Event.call true restoreCall 4, [.environment (world 2)],
    Event.call false (.reconcile 1) 7, Event.call false (.execute "node" 2) 14,
    [.environment (world 3)], Event.steps true 5, Event.call false (.execute "node" 3) 8].flatten

/-- A workload is created and then restored, by one call after the other. -/
def plainRestore : List (Event Unit Call World) :=
  [Event.call () createCall 8, Event.call () (.execute "node" 1) 14, [.environment (world 2)],
    Event.call () restoreCall 9, Event.call () (.execute "node" 2) 16].flatten

/-- Whether the operation that the thread makes next is not for a generation that has an operation. -/
def leavesAlone (s : System Unit) : Event Unit Call World → Bool
  | .step _ =>
    match s.threads () with
    | some ⟨_, _, .step (.insertOperation record) _⟩ => s.shared.operations.toList.all fun entry =>
      entry.2.workloadId ≠ record.workloadId ∨ entry.2.generation ≠ record.generation
    | _ => true
  | _ => true

theorem clearStep_of_leavesAlone {s t e} (hstep : service.Step s e t) (htest : leavesAlone s e) :
    ClearStep s e t where
  step := hstep
  clear i call o next he hthread := by
    subst he
    cases o with
    | insertOperation record =>
      intro id other w g hother hconcerns hconcerns'
      simp only [leavesAlone, hthread, List.all_eq_true, decide_eq_true_eq] at htest
      have hne := htest (id, other) (Store.mem_toList_iff.mpr hother)
      rcases hne with hne | hne
      · exact absurd (hconcerns.1.trans hconcerns'.1.symm) hne
      · exact absurd (hconcerns.2.trans hconcerns'.2.symm) hne
    | _ => trivial

def sameWorld : Event Unit Call World → Bool
  | .environment _ => false
  | _ => true

theorem faithfulStep_of_sameWorld {s t e} (hstep : service.Step s e t) (htest : sameWorld e) :
    FaithfulStep s e t where
  step := hstep
  faithful world he := by
    subst he
    cases htest

end Sample

open Sample

/-- A workload is created and brought to its first generation. -/
theorem workloads_move_forward_alone : ∃ s t : System Unit, ∃ r r',
    s.shared.workloads.get 5 = some r ∧ t.shared.workloads.get 5 = some r' ∧
      r.appliedGeneration = none ∧ r'.appliedGeneration = some ⟨1, le_rfl⟩ ∧
      r.desired.generation.value ≤ r'.desired.generation.value := by
  have h : ((service.after (fun _ => sameWorld) (empty Unit)
      (Event.call () createCall 8)).bind fun s => (service.after (fun _ => sameWorld) s
        (Event.call () (.execute "node" 1) 14)).map fun t =>
          ((s.shared.workloads.get 5).map (·.appliedGeneration),
            (t.shared.workloads.get 5).map (·.appliedGeneration))) =
    some (some none, some (some ⟨1, le_rfl⟩)) := by decide +kernel
  obtain ⟨s, hs, h⟩ := Option.bind_eq_some_iff.mp h
  obtain ⟨t, ht, h⟩ := Option.map_eq_some_iff.mp h
  simp only [Prod.mk.injEq, Option.map_eq_some_iff] at h
  obtain ⟨⟨r, hr, happlied⟩, r', hr', happlied'⟩ := h
  obtain ⟨r'', hr'', hle, -⟩ := (workloads_move_forward (initial_empty Unit)
    (faithful_world 1) (Machine.run_after (fun _ _ _ => faithfulStep_of_sameWorld) hs)
    (Machine.run_after (fun _ _ _ => faithfulStep_of_sameWorld) ht)).1 5 r hr
  cases hr'.symm.trans hr''
  exact ⟨s, t, r, r', hr, hr', happlied, happlied', hle⟩

theorem operations_end_once_alone : ∃ s t : System Unit, ∃ o, s.shared.operations.get 1 = some o ∧
    o.state = .succeeded ∧ t.shared.operations.get 1 = some o := by
  obtain ⟨s, hrun, h⟩ := service.exists_run (fun _ _ => true) (fun _ _ _ h _ => h) (s := empty Unit)
    (f := fun s => (s.shared.operations.get 1).map (·.state)) (v := some .succeeded)
    (l := Event.call () createCall 8 ++ Event.call () (.execute "node" 1) 14) (by decide +kernel)
  obtain ⟨o, ho, hstate⟩ := Option.map_eq_some_iff.mp h
  have hchange : service.Step s (.environment (world 2)) _ := rfl
  obtain ⟨o', ho', -, heq⟩ :=
    (operations_end_once (initial_empty Unit) hrun (.single hchange)).1 1 o ho
  exact ⟨s, _, o, ho, hstate, heq (by rw [hstate]; rfl) ▸ ho'⟩

/-- The restore has succeeded, and `run` was never called. -/
theorem reconciled_restore_not_run : ∃ s : System Bool, ∃ o,
    Run service.Step (empty Bool) reconciledRestore s ∧
      s.shared.operations.get 3 = some o ∧ o.kind = .restore ∧ o.state = .succeeded ∧
      s.shared.ran = [] := by
  obtain ⟨s, hrun, h⟩ := service.exists_run (fun _ _ => true) (fun _ _ _ h _ => h) (s := empty Bool)
    (f := fun s => ((s.shared.operations.get 3).map fun o => (o.kind, o.state), s.shared.ran))
    (v := (some (.restore, .succeeded), [])) (l := reconciledRestore) (by decide +kernel)
  simp only [Prod.mk.injEq, Option.map_eq_some_iff] at h
  obtain ⟨⟨o, ho, hkind, hstate⟩, hran⟩ := h
  exact ⟨s, o, hrun, ho, hkind, hstate, hran⟩

/-- A restore by itself is run. -/
theorem restores_succeed_after_run_alone : ∃ s : System Unit, ∃ o,
    s.shared.operations.get 2 = some o ∧ o.kind = .restore ∧ o.state = .succeeded ∧
      ∃ o' ∈ s.shared.ran, Same o o' := by
  have h : (service.after leavesAlone (empty Unit) plainRestore).map
      (fun s => (s.shared.operations.get 2).map fun o => (o.kind, o.state)) =
    some (some (.restore, .succeeded)) := by decide +kernel
  obtain ⟨s, hs, h⟩ := Option.map_eq_some_iff.mp h
  simp only [Prod.mk.injEq, Option.map_eq_some_iff] at h
  obtain ⟨o, ho, hkind, hstate⟩ := h
  exact ⟨s, o, ho, hkind, hstate, restores_succeed_after_run (initial_empty Unit)
    (Machine.run_after (fun _ _ _ => clearStep_of_leavesAlone) hs) ho hkind hstate⟩

end Aseman.Vmm
