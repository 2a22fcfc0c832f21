import Aseman.Vmm.Service

/-!
# How the stores of the VMM service grow

What the calls of the service do to the stores, whatever the others do in between. A workload record only
moves forward, and a compare-and-set that succeeds has replaced the very record that its call has loaded,
since the version is never used twice. An operation keeps what it is about, and a terminal state. Two
assumptions can be added: that the observations of the backend carry the generation of the record that it
was given (`faithful`), and that an operation is inserted only where it leaves restores alone (`guarded`).
-/

namespace Aseman.Vmm

open Shared

/-! ## What is kept -/

/-- The backend reports a step for the generation of the record that it was given. -/
def World.Faithful (world : World) : Prop :=
  ∀ record action observation, world.step record action = .ok observation →
    observation.generation = record.desired.generation

variable (o : OperationRecord)

def Concerns (w : WorkloadId) (g : Generation) : Prop :=
  o.workloadId = some w ∧ o.generation = some g

/-- Whether operations of this kind bring a workload to its desired state. -/
def OperationKind.lifecycle : OperationKind → Bool
  | invoke | exec | build | snapshot | copyFiles => false
  | _ => true

structure WorkloadRecord.Sound (faithful : Prop) (r : WorkloadRecord) : Prop where
  observed : ∀ o, r.observed = some o → o.generation.value ≤ r.desired.generation.value
  applied : ∀ g, r.appliedGeneration = some g → g.value ≤ r.desired.generation.value
  seen : faithful → ∀ g, r.appliedGeneration = some g →
    ∃ o, r.observed = some o ∧ g.value ≤ o.generation.value

structure Forward (faithful : Prop) (r r' : WorkloadRecord) : Prop where
  version : r.resourceVersion < r'.resourceVersion
  generation : r.desired.generation.value ≤ r'.desired.generation.value
  deleted : r.desired.state = .deleted → r'.desired.state = .deleted
  applied : faithful → ∀ g, r.appliedGeneration = some g →
    ∃ g', r'.appliedGeneration = some g' ∧ g.value ≤ g'.value
  observed : ∀ o, r.observed = some o → ∃ o', r'.observed = some o' ∧ (o' = o ∨ o.Before o')

theorem Forward.trans {faithful a b c} (h : Forward faithful a b) (h' : Forward faithful b c) :
    Forward faithful a c where
  version := h.version.trans h'.version
  generation := h.generation.trans h'.generation
  deleted := h'.deleted ∘ h.deleted
  applied hf g hg := by
    obtain ⟨g', hg', hle⟩ := h.applied hf g hg
    obtain ⟨g'', hg'', hle'⟩ := h'.applied hf g' hg'
    exact ⟨g'', hg'', hle.trans hle'⟩
  observed o ho := by
    obtain ⟨o', ho', hle⟩ := h.observed o ho
    obtain ⟨o'', ho'', hle'⟩ := h'.observed o' ho'
    refine ⟨o'', ho'', ?_⟩
    rcases hle with rfl | hle
    · exact hle'
    · rcases hle' with rfl | hle'
      · exact .inr hle
      · exact .inr (hle.trans hle')

/-- The same operation, in whatever state. -/
structure Same (o o' : OperationRecord) : Prop where
  owner : o'.owner = o.owner
  id : o'.id = o.id
  workloadId : o'.workloadId = o.workloadId
  kind : o'.kind = o.kind
  generation : o'.generation = o.generation

theorem Same.refl : Same o o := ⟨rfl, rfl, rfl, rfl, rfl⟩

theorem Same.symm {a b} (h : Same a b) : Same b a :=
  ⟨h.owner.symm, h.id.symm, h.workloadId.symm, h.kind.symm, h.generation.symm⟩

theorem Same.trans {a b c} (h : Same a b) (h' : Same b c) : Same a c :=
  ⟨h'.owner.trans h.owner, h'.id.trans h.id, h'.workloadId.trans h.workloadId,
    h'.kind.trans h.kind, h'.generation.trans h.generation⟩

theorem Same.concerns {a b} (h : Same a b) {w g} (ha : Concerns a w g) : Concerns b w g :=
  ⟨h.workloadId.trans ha.1, h.generation.trans ha.2⟩

/-- The stores have grown. -/
structure Later (faithful : Prop) (s t : Shared) : Prop where
  workload : ∀ id r, s.workloads.get id = some r →
    ∃ r', t.workloads.get id = some r' ∧ (r' = r ∨ Forward faithful r r')
  operation : ∀ id o, s.operations.get id = some o →
    ∃ o', t.operations.get id = some o' ∧ Same o o' ∧ (o.state.terminal = true → o' = o)
  ran : s.ran ⊆ t.ran
  recorded : s.recorded <+: t.recorded

theorem Later.refl (faithful : Prop) (s : Shared) : Later faithful s s where
  workload _ r hr := ⟨r, hr, .inl rfl⟩
  operation _ o ho := ⟨o, ho, Same.refl o, fun _ => rfl⟩
  ran := List.Subset.refl _
  recorded := List.prefix_rfl

theorem Later.trans {faithful s t u} (h : Later faithful s t) (h' : Later faithful t u) :
    Later faithful s u where
  workload id r hr := by
    obtain ⟨r', hr', hforward⟩ := h.workload id r hr
    obtain ⟨r'', hr'', hforward'⟩ := h'.workload id r' hr'
    refine ⟨r'', hr'', ?_⟩
    rcases hforward with rfl | hforward
    · exact hforward'
    · rcases hforward' with rfl | hforward'
      · exact .inr hforward
      · exact .inr (hforward.trans hforward')
  operation id o ho := by
    obtain ⟨o', ho', hsame, hterminal⟩ := h.operation id o ho
    obtain ⟨o'', ho'', hsame', hterminal'⟩ := h'.operation id o' ho'
    refine ⟨o'', ho'', hsame.trans hsame', fun hstate => ?_⟩
    obtain rfl := hterminal hstate
    exact hterminal' hstate
  ran := List.Subset.trans h.ran h'.ran
  recorded := h.recorded.trans h'.recorded

/-! ## What a call knows from then on -/

def Reached (w : WorkloadId) (g : Generation) (s : Shared) : Prop :=
  ∃ r, s.workloads.get w = some r ∧ g.value ≤ r.desired.generation.value

def Listed (s : Shared) : Prop := ∃ o', s.operations.get o.id = some o' ∧ Same o o'

/-- `run` was called with the operation and has succeeded. -/
def Ran (s : Shared) : Prop := ∃ o' ∈ s.ran, Same o o'

/-- A restore that was run, or has ended already. -/
def Restored (s : Shared) : Prop :=
  o.kind = .restore → Ran o s ∨ ∃ o', s.operations.get o.id = some o' ∧ o'.state.terminal = true

section

variable {faithful : Prop} {s t : Shared} {o : OperationRecord}

theorem Reached.later {w g} (h : Reached w g s) (hlater : Later faithful s t) : Reached w g t := by
  obtain ⟨r, hr, hle⟩ := h
  obtain ⟨r', hr', rfl | hforward⟩ := hlater.workload w r hr
  · exact ⟨r', hr', hle⟩
  · exact ⟨r', hr', hle.trans hforward.generation⟩

theorem Listed.later (h : Listed o s) (hlater : Later faithful s t) : Listed o t := by
  obtain ⟨o', ho', hsame⟩ := h
  obtain ⟨o'', ho'', hsame', -⟩ := hlater.operation _ o' ho'
  exact ⟨o'', ho'', hsame.trans hsame'⟩

theorem Ran.later (h : Ran o s) (hlater : Later faithful s t) : Ran o t := by
  obtain ⟨o', hmem, hsame⟩ := h
  exact ⟨o', hlater.ran hmem, hsame⟩

theorem Restored.later (h : Restored o s) (hlater : Later faithful s t) : Restored o t := by
  intro hkind
  rcases h hkind with hran | ⟨o', ho', hterminal⟩
  · exact .inl (hran.later hlater)
  · obtain ⟨o'', ho'', -, hsame⟩ := hlater.operation _ o' ho'
    obtain rfl := hsame hterminal
    exact .inr ⟨o'', ho'', hterminal⟩

/-- A record that was loaded is the one that is stored, as long as its version is. -/
theorem Later.eq_of_version {id r current} (h : Later faithful s t)
    (hr : s.workloads.get id = some r) (hcurrent : t.workloads.get id = some current)
    (hversion : current.resourceVersion = r.resourceVersion) : current = r := by
  obtain ⟨r', hr', rfl | hforward⟩ := h.workload id r hr
  · exact Option.some.inj (hcurrent.symm.trans hr')
  · cases hcurrent.symm.trans hr'
    exact absurd hversion (hforward.version.ne')

end

/-! ## The invariants -/

def lastRecorded (id : WorkloadId) (recorded : List (WorkloadId × Observation)) : Option Observation :=
  (recorded.filter fun e => e.1 = id).getLast?.map Prod.snd

theorem lastRecorded_append (id id' : WorkloadId) (recorded : List (WorkloadId × Observation))
    (o : Observation) :
    lastRecorded id (recorded ++ [(id', o)]) = if id' = id then some o else lastRecorded id recorded := by
  by_cases h : id' = id <;> simp [h, lastRecorded]

/-- The workloads and the observations that were recorded. -/
structure WorkloadsInv (faithful : Prop) (s : Shared) : Prop where
  id : ∀ id r, s.workloads.get id = some r → r.id = id
  sound : ∀ id r, s.workloads.get id = some r → r.Sound faithful
  world : faithful → s.world.Faithful
  ordered : s.recorded.Pairwise fun a b => a.1 = b.1 → a.2.Before b.2
  latest : ∀ e ∈ s.recorded, ∃ r o, s.workloads.get e.1 = some r ∧ r.observed = some o ∧
    (o = e.2 ∨ e.2.Before o)
  last : ∀ id r, s.workloads.get id = some r → r.observed = lastRecorded id s.recorded

/-- The operations and the workloads that they are about. -/
structure OperationsInv (s : Shared) : Prop where
  id : ∀ id o, s.operations.get id = some o → o.id = id
  reached : ∀ id o w g, s.operations.get id = some o → Concerns o w g → Reached w g s
  lifecycle : ∀ id o, s.operations.get id = some o → o.kind.lifecycle = true → ∃ w g, Concerns o w g
  applied : ∀ w r g, s.workloads.get w = some r → r.appliedGeneration = some g →
    ∃ id o, s.operations.get id = some o ∧ Concerns o w g

/-- A restore that has not ended is the only operation of its generation, and a workload that has applied
the generation was restored. -/
structure RestoresInv (s : Shared) : Prop where
  alone : ∀ id o id' o' w g, s.operations.get id = some o → o.kind = .restore →
    o.state.terminal = false → Concerns o w g → s.operations.get id' = some o' → Concerns o' w g →
    id' = id
  restored : ∀ id o w g r, s.operations.get id = some o → o.kind = .restore →
    o.state.terminal = false → Concerns o w g → s.workloads.get w = some r →
    r.appliedGeneration = some g → Ran o s
  succeeded : ∀ id o, s.operations.get id = some o → o.kind = .restore → o.state = .succeeded → Ran o s

structure Inv (faithful guarded : Prop) (s : Shared) : Prop where
  workloads : WorkloadsInv faithful s
  operations : OperationsInv s
  restores : guarded → RestoresInv s

/-- No operation is inserted for a workload and a generation that a restore which has not ended is about,
and no restore where there is an operation. -/
def Op.Clear (o : Op) (s : Shared) : Prop :=
  match o with
  | .insertOperation record => ∀ id other w g, s.operations.get id = some other → Concerns other w g →
      Concerns record w g → record.kind ≠ .restore ∧ (other.kind = .restore → other.state.terminal = true)
  | _ => True

/-- The growth of the stores, under the assumptions. -/
def growth (faithful guarded : Prop) : Growth service where
  Inv := Inv faithful guarded
  Later := Later faithful
  May o s := guarded → o.Clear s
  refl := Later.refl faithful
  trans _ _ _ := Later.trans

/-! ## What the stores do -/

section

variable {faithful guarded : Prop} {s : Shared}

/-- A replacement of a workload record that keeps what is kept. -/
structure Moves (faithful guarded : Prop) (s : Shared) (r r' : WorkloadRecord)
    (recording : Option Observation) : Prop where
  id : r'.id = r.id
  generation : r.desired.generation.value ≤ r'.desired.generation.value
  deleted : r.desired.state = .deleted → r'.desired.state = .deleted
  sound : r'.Sound faithful
  kept : recording = none → r'.observed = r.observed
  recorded : ∀ o, recording = some o → r'.observed = some o ∧
    ∀ previous, r.observed = some previous → previous.Before o
  applied : r'.appliedGeneration = r.appliedGeneration ∨ ∃ g, r'.appliedGeneration = some g ∧
    (faithful → ∀ g₀, r.appliedGeneration = some g₀ → g₀.value ≤ g.value) ∧
    (∃ id o, s.operations.get id = some o ∧ Concerns o r.id g) ∧
    (guarded → ∀ id o, s.operations.get id = some o → o.kind = .restore →
      o.state.terminal = false → Concerns o r.id g → Ran o s)

theorem Moves.forward {r r' recording} (h : Moves faithful guarded s r r' recording)
    (hversion : r.resourceVersion < r'.resourceVersion) :
    Forward faithful r r' where
  version := hversion
  generation := h.generation
  deleted := h.deleted
  applied hf g hg := by
    rcases h.applied with hsame | ⟨g', hg', hle, -⟩
    · exact ⟨g, hsame.trans hg, le_rfl⟩
    · exact ⟨g', hg', hle hf g hg⟩
  observed o ho := by
    cases hrecording : recording with
    | none => exact ⟨o, (h.kept hrecording).trans ho, .inl rfl⟩
    | some o' =>
      obtain ⟨ho', hbefore⟩ := h.recorded o' hrecording
      exact ⟨o', ho', .inr (hbefore o ho)⟩

def Shared.replaced (s : Shared) (r : WorkloadRecord) (recording : Option Observation) : Shared :=
  { s with
    workloads := s.workloads.put r.id r
    recorded := s.recorded ++ recording.toList.map fun observation => (r.id, observation) }

variable {r r' : WorkloadRecord} {recording : Option Observation}

variable (hr : s.workloads.get r.id = some r) (hmoves : Moves faithful guarded s r r' recording)
  (hversion : r.resourceVersion < r'.resourceVersion)

include hr hmoves hversion

theorem Later.replaced : Later faithful s (s.replaced r' recording) where
  workload id x hx := by
    simp only [Shared.replaced, Store.get_put, hmoves.id]
    split
    · next hid =>
      subst hid
      cases hr.symm.trans hx
      exact ⟨r', rfl, .inr (hmoves.forward hversion)⟩
    · exact ⟨x, hx, .inl rfl⟩
  operation _ o ho := ⟨o, ho, Same.refl o, fun _ => rfl⟩
  ran := List.Subset.refl _
  recorded := List.prefix_append _ _

theorem WorkloadsInv.replaced (h : WorkloadsInv faithful s) :
    WorkloadsInv faithful (s.replaced r' recording) where
  id id x hx := by
    obtain ⟨hid, rfl⟩ | ⟨-, hx⟩ := Store.get_put_eq_some hx
    · exact hid.symm
    · exact h.id id x hx
  sound id x hx := by
    obtain ⟨-, rfl⟩ | ⟨-, hx⟩ := Store.get_put_eq_some hx
    · exact hmoves.sound
    · exact h.sound id x hx
  world := h.world
  ordered := by
    cases hrecording : recording with
    | none => simpa [Shared.replaced] using h.ordered
    | some o =>
      obtain ⟨-, hbefore⟩ := hmoves.recorded o hrecording
      refine List.pairwise_append.mpr ⟨h.ordered, List.pairwise_singleton _ _, fun e he e' he' heq => ?_⟩
      obtain rfl : e' = (r'.id, o) := by simpa using he'
      obtain ⟨x, o', hx, ho', hle⟩ := h.latest e he
      rw [show e.1 = r.id from heq.trans hmoves.id, hr] at hx
      cases hx
      rcases hle with rfl | hle
      · exact hbefore _ ho'
      · exact hle.trans (hbefore _ ho')
  latest e he := by
    rcases List.mem_append.mp he with he | he
    · obtain ⟨x, o, hx, ho, hle⟩ := h.latest e he
      obtain ⟨x', hx', rfl | hforward⟩ := (Later.replaced hr hmoves hversion).workload _ x hx
      · exact ⟨x', o, hx', ho, hle⟩
      · obtain ⟨o', ho', rfl | hbefore⟩ := hforward.observed o ho
        · exact ⟨x', o', hx', ho', hle⟩
        · refine ⟨x', o', hx', ho', .inr ?_⟩
          rcases hle with rfl | hle
          · exact hbefore
          · exact hle.trans hbefore
    · cases hrecording : recording with
      | none => simp [hrecording] at he
      | some o =>
        obtain rfl : e = (r'.id, o) := by simpa [hrecording] using he
        exact ⟨r', o, by simp [Shared.replaced], (hmoves.recorded o hrecording).1, .inl rfl⟩
  last id x hx := by
    simp only [Shared.replaced, Store.get_put] at hx ⊢
    cases hrecording : recording with
    | none =>
      rw [Option.toList_none, List.map_nil, List.append_nil]
      split at hx
      · next hid =>
        cases hx
        rw [hmoves.kept hrecording, hid, hmoves.id]
        exact h.last r.id r hr
      · exact h.last id x hx
    | some o =>
      rw [Option.toList_some, List.map_singleton, lastRecorded_append]
      split at hx
      · next hid =>
        cases hx
        rw [if_pos hid.symm]
        exact (hmoves.recorded o hrecording).1
      · next hid =>
        rw [if_neg (Ne.symm hid)]
        exact h.last id x hx

theorem OperationsInv.replaced (h : OperationsInv s) : OperationsInv (s.replaced r' recording) where
  id := h.id
  reached id o w g ho hconcerns :=
    (h.reached id o w g ho hconcerns).later (Later.replaced hr hmoves hversion)
  lifecycle := h.lifecycle
  applied w x g hx hg := by
    obtain ⟨hw, rfl⟩ | ⟨-, hx⟩ := Store.get_put_eq_some hx
    · rw [hw, hmoves.id]
      rcases hmoves.applied with hsame | ⟨g', hg', -, hop, -⟩
      · exact h.applied r.id r g hr (hsame.symm.trans hg)
      · cases hg'.symm.trans hg
        exact hop
    · exact h.applied w x g hx hg

omit hversion in
theorem RestoresInv.replaced (hguarded : guarded) (h : RestoresInv s) :
    RestoresInv (s.replaced r' recording) where
  alone := h.alone
  restored id o w g x ho hkind hstate hconcerns hx hg := by
    obtain ⟨hw, rfl⟩ | ⟨-, hx⟩ := Store.get_put_eq_some hx
    · rw [hw, hmoves.id] at hconcerns
      rcases hmoves.applied with hsame | ⟨g', hg', -, -, hran⟩
      · exact h.restored id o r.id g r ho hkind hstate hconcerns hr (hsame.symm.trans hg)
      · cases hg'.symm.trans hg
        exact hran hguarded id o ho hkind hstate hconcerns
    · exact h.restored id o w g x ho hkind hstate hconcerns hx hg
  succeeded := h.succeeded

theorem Inv.replaced (h : Inv faithful guarded s) :
    Inv faithful guarded (s.replaced r' recording) :=
  ⟨h.workloads.replaced hr hmoves hversion, h.operations.replaced hr hmoves hversion,
    fun hguarded => (h.restores hguarded).replaced hr hmoves hguarded⟩

omit hr hmoves hversion

def Shared.added (s : Shared) (r : WorkloadRecord) : Shared :=
  { s with workloads := s.workloads.put r.id r }

theorem Later.added (faithful : Prop) (hr : s.workloads.get r.id = none) : Later faithful s (s.added r) where
  workload id x hx := by
    refine ⟨x, ?_, .inl rfl⟩
    rw [Shared.added, Store.get_put_of_ne, hx]
    rintro rfl
    rw [hr] at hx
    cases hx
  operation _ o ho := ⟨o, ho, Same.refl o, fun _ => rfl⟩
  ran := List.Subset.refl _
  recorded := List.prefix_rfl

/-- **Inserting a workload** that nothing is known of. -/
theorem Inv.added (h : Inv faithful guarded s) (hr : s.workloads.get r.id = none)
    (happlied : r.appliedGeneration = none) (hobserved : r.observed = none) :
    Inv faithful guarded (s.added r) where
  workloads := {
    id := fun id x hx => by
      obtain ⟨hid, rfl⟩ | ⟨-, hx⟩ := Store.get_put_eq_some hx
      · exact hid.symm
      · exact h.workloads.id id x hx
    sound := fun id x hx => by
      obtain ⟨-, rfl⟩ | ⟨-, hx⟩ := Store.get_put_eq_some hx
      · exact ⟨by simp [hobserved], by simp [happlied], by simp [happlied]⟩
      · exact h.workloads.sound id x hx
    world := h.workloads.world
    ordered := h.workloads.ordered
    latest := fun e he => by
      obtain ⟨x, o, hx, ho, hle⟩ := h.workloads.latest e he
      obtain ⟨x', hx', rfl | hforward⟩ := (Later.added faithful hr).workload _ x hx
      · exact ⟨x', o, hx', ho, hle⟩
      · rw [Shared.added, Store.get_put_of_ne, hx] at hx'
        · cases hx'
          exact absurd rfl hforward.version.ne
        · rintro heq
          rw [heq, hr] at hx
          cases hx
    last := fun id x hx => by
      obtain ⟨hid, rfl⟩ | ⟨-, hx⟩ := Store.get_put_eq_some hx
      · subst hid
        -- nothing was recorded of a workload that is not there
        have hnone : (s.recorded.filter fun e => e.1 = r.id) = [] := by
          refine List.filter_eq_nil_iff.mpr fun e he heq => ?_
          obtain ⟨x, -, hx, -⟩ := h.workloads.latest e he
          rw [show e.1 = r.id by simpa using heq, hr] at hx
          cases hx
        simp [hobserved, lastRecorded, Shared.added, hnone]
      · exact h.workloads.last id x hx }
  operations := {
    id := h.operations.id
    reached := fun id o w g ho hconcerns =>
      (h.operations.reached id o w g ho hconcerns).later (Later.added faithful hr)
    lifecycle := h.operations.lifecycle
    applied := fun w x g hx hg => by
      obtain ⟨-, rfl⟩ | ⟨-, hx⟩ := Store.get_put_eq_some hx
      · rw [happlied] at hg
        cases hg
      · exact h.operations.applied w x g hx hg }
  restores hguarded := {
    alone := (h.restores hguarded).alone
    restored := fun id o w g x ho hkind hstate hconcerns hx hg => by
      obtain ⟨-, rfl⟩ | ⟨-, hx⟩ := Store.get_put_eq_some hx
      · rw [happlied] at hg
        cases hg
      · exact (h.restores hguarded).restored id o w g x ho hkind hstate hconcerns hx hg
    succeeded := (h.restores hguarded).succeeded }

/-- The stores with an operation put. -/
def Shared.listed (s : Shared) (o : OperationRecord) : Shared :=
  { s with operations := s.operations.put o.id o }

variable {o o' : OperationRecord}

theorem Later.opened (faithful : Prop) (ho : s.operations.get o.id = none) : Later faithful s (s.listed o) where
  workload _ x hx := ⟨x, hx, .inl rfl⟩
  operation id x hx := by
    refine ⟨x, ?_, Same.refl x, fun _ => rfl⟩
    rw [listed, Store.get_put_of_ne, hx]
    rintro rfl
    rw [ho] at hx
    cases hx
  ran := List.Subset.refl _
  recorded := List.prefix_rfl

theorem RestoresInv.opened (h : RestoresInv s) (hops : OperationsInv s)
    (hstate : o.state = .pending) (hclear : (Op.insertOperation o).Clear s) :
    RestoresInv (s.listed o) where
  alone id x id' x' w g hx hkind hterminal hconcerns hx' hconcerns' := by
    simp only [listed, Store.get_put] at hx hx'
    split at hx <;> split at hx'
    · next hid hid' => rw [hid, hid']
    · cases hx
      exact absurd hkind (hclear id' x' w g hx' hconcerns' hconcerns).1
    · cases hx'
      cases hterminal.symm.trans ((hclear id x w g hx hconcerns hconcerns').2 hkind)
    · exact h.alone id x id' x' w g hx hkind hterminal hconcerns hx' hconcerns'
  restored id x w g r hx hkind hterminal hconcerns hr hg := by
    obtain ⟨-, rfl⟩ | ⟨-, hx⟩ := Store.get_put_eq_some hx
    · obtain ⟨id', x', hx', hconcerns'⟩ := hops.applied w r g hr hg
      exact absurd hkind (hclear id' x' w g hx' hconcerns' hconcerns).1
    · exact h.restored id x w g r hx hkind hterminal hconcerns hr hg
  succeeded id x hx hkind hsucceeded := by
    obtain ⟨-, rfl⟩ | ⟨-, hx⟩ := Store.get_put_eq_some hx
    · cases hstate.symm.trans hsucceeded
    · exact h.succeeded id x hx hkind hsucceeded

theorem Inv.opened (h : Inv faithful guarded s) (ho : s.operations.get o.id = none)
    (hstate : o.state = .pending) (hreached : ∀ w g, Concerns o w g → Reached w g s)
    (hlifecycle : o.kind.lifecycle = true → ∃ w g, Concerns o w g)
    (hclear : guarded → (Op.insertOperation o).Clear s) : Inv faithful guarded (s.listed o) where
  workloads := ⟨h.workloads.id, h.workloads.sound, h.workloads.world, h.workloads.ordered,
    h.workloads.latest, h.workloads.last⟩
  operations := {
    id := fun id x hx => by
      obtain ⟨hid, rfl⟩ | ⟨-, hx⟩ := Store.get_put_eq_some hx
      · exact hid.symm
      · exact h.operations.id id x hx
    reached := fun id x w g hx hconcerns => by
      obtain ⟨-, rfl⟩ | ⟨-, hx⟩ := Store.get_put_eq_some hx
      · exact hreached w g hconcerns
      · exact h.operations.reached id x w g hx hconcerns
    lifecycle := fun id x hx hkind => by
      obtain ⟨-, rfl⟩ | ⟨-, hx⟩ := Store.get_put_eq_some hx
      · exact hlifecycle hkind
      · exact h.operations.lifecycle id x hx hkind
    applied := fun w r g hr hg => by
      obtain ⟨id, x, hx, hconcerns⟩ := h.operations.applied w r g hr hg
      obtain ⟨x', hx', hsame, -⟩ := (Later.opened faithful ho).operation id x hx
      exact ⟨id, x', hx', hsame.concerns hconcerns⟩ }
  restores hguarded := (h.restores hguarded).opened h.operations hstate (hclear hguarded)

theorem Later.ended (faithful : Prop) (ho : s.operations.get o'.id = some o) (hsame : Same o o')
    (hterminal : o.state.terminal = false) : Later faithful s (s.listed o') where
  workload _ x hx := ⟨x, hx, .inl rfl⟩
  operation id x hx := by
    simp only [listed, Store.get_put]
    split
    · next hid =>
      subst hid
      cases ho.symm.trans hx
      refine ⟨o', rfl, hsame, fun h => ?_⟩
      cases hterminal.symm.trans h
    · exact ⟨x, hx, Same.refl x, fun _ => rfl⟩
  ran := List.Subset.refl _
  recorded := List.prefix_rfl

/-- What is stored under an id after an operation is replaced: the same operation as before. -/
theorem same_of_listed (ho : s.operations.get o'.id = some o) (hsame : Same o o') {id x}
    (hx : (s.listed o').operations.get id = some x) :
    ∃ x₀, s.operations.get id = some x₀ ∧ Same x₀ x ∧ (x = x₀ ∨ x₀ = o ∧ x = o') := by
  obtain ⟨hid, rfl⟩ | ⟨-, hx⟩ := Store.get_put_eq_some hx
  · exact ⟨o, hid ▸ ho, hsame, .inr ⟨rfl, rfl⟩⟩
  · exact ⟨x, hx, Same.refl x, .inl rfl⟩

theorem Ran.of_same (hsame : Same o o') (h : Ran o s) : Ran o' s := by
  obtain ⟨x, hx, hsame'⟩ := h
  exact ⟨x, hx, hsame.symm.trans hsame'⟩

theorem RestoresInv.ended (h : RestoresInv s) (ho : s.operations.get o'.id = some o)
    (hsame : Same o o') (hterminal : o.state.terminal = false)
    (hran : o'.kind = .restore → o'.state = .succeeded → Ran o' s) : RestoresInv (s.listed o') where
  alone id x id' x' w g hx hkind hstate hconcerns hx' hconcerns' := by
    obtain ⟨x₀, hx₀, hsame₀, hcases⟩ := same_of_listed ho hsame hx
    obtain ⟨x₁, hx₁, hsame₁, -⟩ := same_of_listed ho hsame hx'
    refine h.alone id x₀ id' x₁ w g hx₀ (hsame₀.kind.symm.trans hkind) ?_
      (hsame₀.symm.concerns hconcerns) hx₁ (hsame₁.symm.concerns hconcerns')
    rcases hcases with rfl | ⟨rfl, -⟩
    · exact hstate
    · exact hterminal
  restored id x w g r hx hkind hstate hconcerns hr hg := by
    obtain ⟨x₀, hx₀, hsame₀, hcases⟩ := same_of_listed ho hsame hx
    refine Ran.of_same hsame₀ (h.restored id x₀ w g r hx₀ (hsame₀.kind.symm.trans hkind) ?_
      (hsame₀.symm.concerns hconcerns) hr hg)
    rcases hcases with rfl | ⟨rfl, -⟩
    · exact hstate
    · exact hterminal
  succeeded id x hx hkind hstate := by
    obtain ⟨x₀, hx₀, hsame₀, rfl | ⟨-, rfl⟩⟩ := same_of_listed ho hsame hx
    · exact h.succeeded id x hx₀ hkind hstate
    · exact hran hkind hstate

/-- **Replacing an operation** that has not ended. -/
theorem Inv.ended (h : Inv faithful guarded s) (ho : s.operations.get o'.id = some o)
    (hsame : Same o o') (hterminal : o.state.terminal = false)
    (hran : guarded → o'.kind = .restore → o'.state = .succeeded → Ran o' s) :
    Inv faithful guarded (s.listed o') where
  workloads := ⟨h.workloads.id, h.workloads.sound, h.workloads.world, h.workloads.ordered,
    h.workloads.latest, h.workloads.last⟩
  operations := {
    id := fun id x hx => by
      obtain ⟨x₀, hx₀, hsame₀, -⟩ := same_of_listed ho hsame hx
      exact hsame₀.id.trans (h.operations.id id x₀ hx₀)
    reached := fun id x w g hx hconcerns => by
      obtain ⟨x₀, hx₀, hsame₀, -⟩ := same_of_listed ho hsame hx
      exact h.operations.reached id x₀ w g hx₀ (hsame₀.symm.concerns hconcerns)
    lifecycle := fun id x hx hkind => by
      obtain ⟨x₀, hx₀, hsame₀, -⟩ := same_of_listed ho hsame hx
      obtain ⟨w, g, hconcerns⟩ := h.operations.lifecycle id x₀ hx₀ (hsame₀.kind ▸ hkind)
      exact ⟨w, g, hsame₀.concerns hconcerns⟩
    applied := fun w r g hr hg => by
      obtain ⟨id, x, hx, hconcerns⟩ := h.operations.applied w r g hr hg
      obtain ⟨x', hx', hsame', -⟩ := (Later.ended faithful ho hsame hterminal).operation id x hx
      exact ⟨id, x', hx', hsame'.concerns hconcerns⟩ }
  restores hguarded := (h.restores hguarded).ended ho hsame hterminal (hran hguarded)

/-- The stores after `run` has succeeded. -/
def Shared.called (s : Shared) (o : OperationRecord) : Shared := { s with ran := s.ran ++ [o] }

theorem Later.called (faithful : Prop) : Later faithful s (s.called o) where
  workload _ x hx := ⟨x, hx, .inl rfl⟩
  operation _ x hx := ⟨x, hx, Same.refl x, fun _ => rfl⟩
  ran := List.subset_append_left _ _
  recorded := List.prefix_rfl

theorem Inv.called (h : Inv faithful guarded s) : Inv faithful guarded (s.called o) where
  workloads := ⟨h.workloads.id, h.workloads.sound, h.workloads.world, h.workloads.ordered,
    h.workloads.latest, h.workloads.last⟩
  operations := ⟨h.operations.id, h.operations.reached, h.operations.lifecycle, h.operations.applied⟩
  restores hguarded := {
    alone := (h.restores hguarded).alone
    restored := fun id x w g r hx hkind hstate hconcerns hr hg =>
      ((h.restores hguarded).restored id x w g r hx hkind hstate hconcerns hr hg).later
        (Later.called faithful)
    succeeded := fun id x hx hkind hstate =>
      ((h.restores hguarded).succeeded id x hx hkind hstate).later (Later.called faithful) }

end

end Aseman.Vmm
