import Aseman.Lib.Result
import Aseman.Vmm.Growth

/-!
# What the calls of the VMM service ensure

Every use case of the service, by the rules of its statements: whatever the others do in between, it keeps
the invariants of the stores and lets them grow. One lemma for each function of the service.
-/

namespace Aseman.Vmm

open Growth Ensures

variable {faithful guarded : Prop} {s : Shared} {α : Type}

/-- What a program of the service ensures. -/
abbrev Ensures (faithful guarded : Prop) (Q : α → Shared → Prop) (p : Code α) (s : Shared) : Prop :=
  (growth faithful guarded).Ensures Q p s

/-- A program that keeps the invariants, whatever it returns. -/
abbrev Keeps (faithful guarded : Prop) (p : Code α) (s : Shared) : Prop :=
  Ensures faithful guarded (fun _ _ => True) p s

/-! ## Ports -/

theorem ensures_answer {o Q} (hsame : ∀ t, (o.exec t ()).2.1 = t)
    (hQ : ∀ t, Inv faithful guarded t → Later faithful s t → Q (o.exec t ()).1 t) :
    Ensures faithful guarded Q (ask o) s :=
  perform fun t ht hlater _ => by
    rw [show service.exec o t () = o.exec t () from rfl, hsame]
    exact ⟨ht, .refl _ t, hQ t ht hlater⟩

theorem ensures_any {o} (hsame : ∀ t, (o.exec t ()).2.1 = t) : Keeps faithful guarded (ask o) s :=
  ensures_answer hsame fun _ _ _ => trivial

theorem read_snd (t : Shared) (a : α) : (t.read a).2.1 = t := by
  unfold Shared.read
  split <;> rfl

variable {t : Shared}

theorem read_fst {a b : α} (h : (t.read a).1 = .ok b) : b = a := by
  unfold Shared.read at h
  split at h <;> cases h
  rfl

theorem ensures_ported {p : Code (Except PortError α)} {Q : α → Shared → Prop}
    (h : Ensures faithful guarded (fun answer t => ∀ a, answer = .ok a → Q a t) p s) :
    Ensures faithful guarded Q (ported p) s :=
  h.bind fun answer t _ hQ => .done fun _ a ha => by
    cases answer with
    | error e => cases ha
    | ok a' => cases ha; exact hQ a rfl

theorem ensures_ruled {β : Type} {r : Except LifecycleError α} {f : α → Code β}
    {R : β → Shared → Prop} (hok : ∀ a, r = .ok a → Ensures faithful guarded R (f a) s) :
    Ensures faithful guarded R (ruled r >>= f) s := by
  refine .check fun a ha => hok a ?_
  cases r with
  | error e => cases ha
  | ok a' => cases ha; rfl

theorem write_grows {r : Except PortError Shared} {Q : Shared → Prop} (ht : Inv faithful guarded t)
    (h : ∀ u, r = .ok u → Inv faithful guarded u ∧ Later faithful t u ∧ Q u) :
    Inv faithful guarded (t.write r).2.1 ∧ Later faithful t (t.write r).2.1 ∧
      ((t.write r).1 = .ok () → Q (t.write r).2.1) := by
  unfold Shared.write
  split
  · exact ⟨ht, .refl _ t, nofun⟩
  · split
    · exact ⟨(h _ rfl).1, (h _ rfl).2.1, fun _ => (h _ rfl).2.2⟩
    · exact ⟨ht, .refl _ t, nofun⟩

variable {r : WorkloadRecord}

theorem ensures_insertWorkload (happlied : r.appliedGeneration = none)
    (hobserved : r.observed = none) :
    Ensures faithful guarded
      (fun (answer : Except PortError Unit) t => answer = .ok () → t.workloads.get r.id = some r)
      (ask (.insertWorkload r)) s := by
  refine .perform fun t ht hlater _ =>
    write_grows (Q := (·.workloads.get r.id = some r)) ht fun u hu => ?_
  unfold Shared.insertWorkload at hu
  split at hu
  · cases hu
  · split at hu
    · cases hu
    · next habsent =>
      cases hu
      have hr : t.workloads.get r.id = none := by simpa using habsent
      exact ⟨ht.added hr happlied hobserved, Later.added faithful hr, Store.get_put_self ..⟩

variable {r' : WorkloadRecord} {u : Shared}

/-- A compare-and-set on a workload that was loaded replaces what was loaded. -/
theorem ensures_replaceWorkload {recording : Option Observation}
    (hr : u.workloads.get r.id = some r) (hu : Later faithful u s) (hid : r'.id = r.id)
    (hversion : r'.resourceVersion = (r.resourceVersion + 1) % 2 ^ 64)
    (hmoves : ∀ t, Inv faithful guarded t → Later faithful u t → t.workloads.get r.id = some r →
      Moves faithful guarded t r r' recording) :
    Ensures faithful guarded
      (fun (answer : Except PortError Unit) t => answer = .ok () → t.workloads.get r.id = some r')
      (ask (.replaceWorkload r' r.resourceVersion recording)) s := by
  refine .perform fun t ht hlater _ =>
    write_grows (Q := (·.workloads.get r.id = some r')) ht fun u hu => ?_
  unfold Shared.replaceWorkload at hu
  split at hu
  · cases hu
  · next hexpected =>
    split at hu
    · cases hu
    · next current hcurrent =>
      split at hu
      · cases hu
      · next hmatch =>
        split at hu
        · cases hu
        · cases hu
          push Not at hmatch hexpected
          rw [hid] at hcurrent
          -- the version is never used twice: what is stored is what was loaded
          obtain rfl := (hu.trans hlater).eq_of_version hr hcurrent hmatch.2
          have hlt : current.resourceVersion < r'.resourceVersion := by omega
          have hmoved := hmoves t ht (hu.trans hlater) hcurrent
          refine ⟨ht.replaced hcurrent hmoved hlt, .replaced hcurrent hmoved hlt, ?_⟩
          rw [← hid]
          exact Store.get_put_self ..

variable {o : OperationRecord}

theorem ensures_insertOperation (hstate : o.state = .pending)
    (hreached : ∀ w g, Concerns o w g → Reached w g s)
    (hlifecycle : o.kind.lifecycle = true → ∃ w g, Concerns o w g) :
    Keeps faithful guarded (ask (.insertOperation o)) s := by
  refine .perform fun t ht hlater hmay => And.imp_right (And.imp_right fun _ => trivial)
    (write_grows (Q := fun _ => True) ht fun u hu => ?_)
  unfold Shared.insertOperation at hu
  split at hu
  · cases hu
  · next habsent =>
    cases hu
    have ho : t.operations.get o.id = none := by simpa using habsent
    exact ⟨ht.opened ho hstate (fun w g h => (hreached w g h).later hlater) hlifecycle hmay,
      Later.opened faithful ho, trivial⟩

theorem ensures_replaceOperation {expected : OperationState} (hlisted : Listed o s)
    (hexpected : expected.terminal = false)
    (hrestored : guarded → o.state = .succeeded → Restored o s) :
    Ensures faithful guarded
      (fun (answer : Except PortError Unit) t => answer = .ok () → t.operations.get o.id = some o)
      (ask (.replaceOperation o expected)) s := by
  refine .perform fun t ht hlater _ =>
    write_grows (Q := (·.operations.get o.id = some o)) ht fun u hu => ?_
  unfold Shared.replaceOperation at hu
  split at hu
  · cases hu
  · next current hcurrent =>
    split at hu
    · cases hu
    · next hmatch =>
      cases hu
      push Not at hmatch
      obtain ⟨o', ho', hsame⟩ := hlisted.later hlater
      cases hcurrent.symm.trans ho'
      have hterminal : current.state.terminal = false := by rw [hmatch.2, hexpected]
      refine ⟨ht.ended hcurrent hsame.symm hterminal fun hguarded hkind hsucceeded => ?_,
        Later.ended faithful hcurrent hsame.symm hterminal, Store.get_put_self ..⟩
      -- an operation that has not ended was run
      rcases (hrestored hguarded hsucceeded).later hlater hkind with hran | ⟨x, hx, hended⟩
      · exact hran
      · cases hcurrent.symm.trans hx
        cases hterminal.symm.trans hended

theorem ensures_run {record} :
    Ensures faithful guarded (fun (answer : Except PortError String) t => ∀ a, answer = .ok a → Ran o t)
      (ask (.run record o)) s := by
  refine perform fun t ht hlater _ => ?_
  simp only [service, Op.exec]
  split
  · exact ⟨ht.called, Later.called faithful, fun _ _ => ⟨o, List.mem_append_right _ List.mem_cons_self, Same.refl o⟩⟩
  · exact ⟨ht, Later.refl _ t, nofun⟩

theorem ensures_append {e : EventRecord} : Keeps faithful guarded (ask (.append e)) s := by
  refine perform fun t ht hlater _ => And.imp_right (And.imp_right fun _ => trivial)
    (write_grows (Q := fun _ => True) ht fun u hu => ?_)
  cases hu
  exact ⟨⟨⟨ht.workloads.id, ht.workloads.sound, ht.workloads.world, ht.workloads.ordered,
      ht.workloads.latest, ht.workloads.last⟩, ⟨ht.operations.id, ht.operations.reached,
      ht.operations.lifecycle, ht.operations.applied⟩, fun h => ⟨(ht.restores h).alone,
      (ht.restores h).restored, (ht.restores h).succeeded⟩⟩,
    ⟨fun _ r hr => ⟨r, hr, .inl rfl⟩, fun _ o ho => ⟨o, ho, .refl o, fun _ => rfl⟩,
      List.Subset.refl _, List.prefix_rfl⟩, trivial⟩

/-! ## Small steps -/

theorem ensures_runtime (key : String) : Keeps faithful guarded (runtime key) s := by
  refine (ensures_ported
    (ensures_answer (fun _ => rfl) fun _ _ _ _ _ => trivial)).bind fun runtimes t _ _ => ?_
  split
  · exact .ret
  · exact .fail

theorem ensures_load (owner : String) (id : WorkloadId) :
    Ensures faithful guarded
      (fun record t => t.workloads.get id = some record ∧ record.owner = owner) (load owner id) s := by
  refine (ensures_ported (Q := fun found t => ∀ record, found = some record →
    t.workloads.get id = some record ∧ record.owner = owner)
    (ensures_answer (o := .workload owner id) (fun t => read_snd t _) fun t _ _ found hfound record hrecord => ?_)).bind
    fun found t _ hQ => ?_
  · subst hrecord
    have := read_fst hfound
    simpa [Option.filter_eq_some_iff] using this.symm
  · split
    · exact .pure fun _ => hQ _ rfl
    · exact .fail

theorem ensures_operation (owner : String) (id : OperationId) :
    Ensures faithful guarded (fun record t => t.operations.get id = some record ∧ record.owner = owner)
      (operation owner id) s := by
  refine (ensures_ported (Q := fun found t => ∀ record, found = some record →
    t.operations.get id = some record ∧ record.owner = owner)
    (ensures_answer (o := .operation owner id) (fun t => read_snd t _) fun t _ _ found hfound record hrecord => ?_)).bind
    fun found t _ hQ => ?_
  · subst hrecord
    have := read_fst hfound
    simpa [Option.filter_eq_some_iff] using this.symm
  · split
    · exact .pure fun _ => hQ _ rfl
    · exact .fail

variable {owner : String}

theorem ensures_event {workloadId : WorkloadId} {eventType : EventType}
    {observation : Option Observation} {operation : Option OperationId} :
    Keeps faithful guarded (event owner workloadId eventType observation operation) s :=
  (ensures_any fun _ => rfl).bind fun _ _ _ _ =>
    ensures_ported (ensures_append.mono fun _ _ _ _ _ _ _ => trivial)

theorem ensures_operationEvent {workloadId operation} :
    Keeps faithful guarded (operationEvent owner workloadId operation) s := by
  unfold operationEvent
  split
  · exact ensures_event
  · exact .ret

theorem ensures_newOperation {workloadId : Option WorkloadId} {kind : OperationKind}
    {generation : Option Generation} {request : Option String} {deadlineMillis : Option Int}
    (hreached : ∀ w g, workloadId = some w → generation = some g → Reached w g s)
    (hlifecycle : kind.lifecycle = true → workloadId.isSome ∧ generation.isSome) :
    Keeps faithful guarded
      (newOperation owner workloadId kind generation request deadlineMillis) s := by
  refine (ensures_any fun _ => rfl).bind fun now t hlater _ =>
    (ensures_any fun _ => rfl).bind fun id u hlater' _ => ?_
  refine .bind (ensures_ported ((ensures_insertOperation rfl
    (fun w g h => ((hreached w g h.1 h.2).later hlater).later hlater') fun hkind => ?_).mono
      fun _ _ _ _ _ _ _ => trivial)) fun _ _ _ _ =>
    ensures_operationEvent.bind fun _ _ _ _ => .ret
  obtain ⟨hw, hg⟩ := hlifecycle hkind
  exact ⟨workloadId.get hw, generation.get hg, (Option.some_get hw).symm, (Option.some_get hg).symm⟩

theorem ensures_operationFor (owner : String) (workloadId : WorkloadId) (generation : Generation)
    (pages : Nat) (cursor : Option OperationId) :
    Keeps faithful guarded (operationFor owner workloadId generation pages cursor) s := by
  induction pages generalizing cursor s with
  | zero => exact .fail
  | succ pages ih =>
    refine (ensures_ported
      (ensures_answer (o := .operations owner ⟨some workloadId, none⟩ cursor pageSize)
        (fun t => read_snd t _) fun _ _ _ _ _ => trivial)).bind fun page t _ _ => ?_
    split
    · exact .ret
    · split
      · exact ih _
      · exact .fail

theorem ensures_freshness (owner : String) (record : WorkloadRecord) (generation : Generation)
    (pages : Nat) :
    Ensures faithful guarded
      (fun replay _ => replay = none → record.desired.generation.value < generation.value)
      (freshness owner record generation pages) s := by
  unfold freshness
  split
  · next happly => exact .pure fun _ _ => lt_of_commandFreshness_apply happly
  · exact (ensures_operationFor owner record.id generation pages none).bind fun _ _ _ _ =>
      pure nofun
  · exact .fail

theorem ensures_save {record recording} (hr : u.workloads.get r.id = some r)
    (hu : Later faithful u s) (hid : record.id = r.id)
    (hmoves : ∀ t now, Inv faithful guarded t → Later faithful u t →
      t.workloads.get r.id = some r → Moves faithful guarded t r
        { record with resourceVersion := (r.resourceVersion + 1) % 2 ^ 64, updatedAtMillis := now }
        recording) :
    Ensures faithful guarded
      (fun saved t => t.workloads.get r.id = some saved ∧ saved.desired = record.desired)
      (save record r.resourceVersion recording) s := by
  refine (ensures_any fun _ => rfl).bind fun now t hlater _ => ?_
  have hid' : { record with resourceVersion := (r.resourceVersion + 1) % 2 ^ 64,
                            updatedAtMillis := now }.id = r.id := hid
  refine (ensures_replaceWorkload hr (hu.trans hlater) hid' rfl fun t => hmoves t now).bind
    fun answer t _ hanswer => ?_
  split
  · exact .pure fun _ => ⟨hanswer rfl, rfl⟩
  · exact .fail
  · exact .fail

/-! ## Commands -/

/-- A record whose desired state is replaced at a later generation, unless it was deleted. -/
theorem moves_desired (ht : Inv faithful guarded t) (hr : t.workloads.get r.id = some r)
    (hid : r'.id = r.id) (happlied : r'.appliedGeneration = r.appliedGeneration)
    (hobserved : r'.observed = r.observed) (hdeleted : r.desired.state ≠ .deleted)
    (hgeneration : r.desired.generation.value < r'.desired.generation.value) :
    Moves faithful guarded t r r' none where
  id := hid
  generation := hgeneration.le
  deleted h := absurd h hdeleted
  sound := {
    observed := fun o ho => ((ht.workloads.sound _ r hr).observed o (hobserved ▸ ho)).trans hgeneration.le
    applied := fun g hg => ((ht.workloads.sound _ r hr).applied g (happlied ▸ hg)).trans hgeneration.le
    seen := fun hf g hg => by
      rw [hobserved]
      exact (ht.workloads.sound _ r hr).seen hf g (happlied ▸ hg) }
  kept _ := hobserved
  recorded _ h := by cases h
  applied := .inl happlied

/-- The last part of a command: the record is saved and an operation is opened. -/
theorem ensures_saveAndOpen {record kind request deadlineMillis}
    (hr : u.workloads.get r.id = some r) (hu : Later faithful u s) (hid : record.id = r.id)
    (happlied : record.appliedGeneration = r.appliedGeneration)
    (hobserved : record.observed = r.observed) (hdeleted : r.desired.state ≠ .deleted)
    (hgeneration : r.desired.generation.value < record.desired.generation.value) :
    Keeps faithful guarded (do
      let _ ← save record r.resourceVersion none
      newOperation owner (some r.id) kind (some record.desired.generation) request deadlineMillis) s := by
  refine (ensures_save hr hu hid fun t now ht _ hcurrent =>
    moves_desired ht hcurrent hid happlied hobserved hdeleted hgeneration).bind
    fun saved t _ hsaved => ensures_newOperation ?_ fun _ => ⟨rfl, rfl⟩
  rintro w g ⟨⟩ ⟨⟩
  exact ⟨saved, hsaved.1, by rw [hsaved.2]⟩

theorem ensures_create (owner : String) (id : WorkloadId) (spec : WorkloadSpec) (desired : DesiredStatus)
    (deadlineMillis : Option Int) :
    Keeps faithful guarded (create owner id spec desired deadlineMillis) s := by
  unfold create
  split
  · exact .fail
  · refine (ensures_runtime spec.runtime).bind fun runtime t _ _ => ?_
    split
    · exact .fail
    · refine (ensures_any fun _ => rfl).bind fun now t _ _ => ?_
      refine (ensures_insertWorkload rfl rfl).bind fun answer t _ hanswer => ?_
      split
      · exact .fail
      · exact .fail
      · refine ensures_newOperation ?_ fun _ => ⟨rfl, rfl⟩
        rintro w g ⟨⟩ ⟨⟩
        exact ⟨_, hanswer rfl, le_rfl⟩

theorem ensures_command (owner : String) (id : WorkloadId) (asked : LifecycleCommand)
    (generation : Generation) (ifMatch : Option Nat) (deadlineMillis : Option Int) (pages : Nat) :
    Keeps faithful guarded (command owner id asked generation ifMatch deadlineMillis pages) s := by
  refine (ensures_load owner id).bind fun r u _ hr => .given fun hu => ?_
  obtain rfl := hu.workloads.id id r hr.1
  refine (ensures_freshness owner r generation pages).bind fun replay t hlater hfresh => ?_
  split
  · exact .ret
  · refine .check fun _ _ => ?_
    split
    · exact .fail
    · refine ensures_ruled fun _ hrule => (ensures_runtime r.spec.runtime).bind
        fun runtime v hlater' _ => ensures_ruled fun _ _ => ?_
      exact ensures_saveAndOpen hr.1 (hlater.trans hlater') rfl rfl rfl
        (ne_deleted_of_desiredTransition hrule) (hfresh rfl)

theorem ensures_updateSpec (owner : String) (id : WorkloadId) (spec : WorkloadSpec)
    (generation : Generation) (ifMatch : Option Nat) (deadlineMillis : Option Int) (pages : Nat) :
    Keeps faithful guarded
      (updateSpec owner id spec generation ifMatch deadlineMillis pages) s := by
  refine (ensures_load owner id).bind fun r u _ hr => .given fun hu => ?_
  obtain rfl := hu.workloads.id id r hr.1
  refine (ensures_freshness owner r generation pages).bind fun replay t hlater hfresh => ?_
  split
  · exact .ret
  · refine .check fun _ _ => ?_
    split
    · exact .fail
    · next hdeleted =>
      refine (ensures_runtime spec.runtime).bind fun runtime v hlater' _ => ?_
      exact ensures_saveAndOpen hr.1 (hlater.trans hlater') rfl rfl rfl hdeleted (hfresh rfl)

theorem ensures_restore (owner : String) (id : WorkloadId) (generation : Generation) (request : String)
    (ifMatch : Option Nat) (deadlineMillis : Option Int) (pages : Nat) :
    Keeps faithful guarded
      (restore owner id generation request ifMatch deadlineMillis pages) s := by
  refine (ensures_load owner id).bind fun r u _ hr => .given fun hu => ?_
  obtain rfl := hu.workloads.id id r hr.1
  refine (ensures_freshness owner r generation pages).bind fun replay t hlater hfresh => ?_
  split
  · exact .ret
  · refine .check fun _ _ => ensures_ruled fun _ hrule =>
      (ensures_runtime r.spec.runtime).bind fun runtime v hlater' _ => ensures_ruled fun _ _ => ?_
    exact ensures_saveAndOpen hr.1 (hlater.trans hlater') rfl rfl rfl
      (ne_deleted_of_desiredTransition hrule) (hfresh rfl)

theorem ensures_submitTarget (owner : String) (operation : WorkloadOperation) (target : OperationTarget) :
    Keeps faithful guarded (submitTarget owner operation target) s := by
  cases target with
  | runtime key =>
    exact (ensures_runtime key).bind fun _ _ _ _ => ensures_ruled fun _ _ =>
      ret
  | workload id =>
    refine (ensures_load owner id).bind fun r _ _ _ => (ensures_runtime r.spec.runtime).bind
      fun _ _ _ _ => ensures_ruled fun _ _ => ?_
    split
    · exact .ret
    · exact .fail
    · split
      · exact .ret
      · exact .fail

theorem ensures_submit (owner : String) (target : OperationTarget) (operation : WorkloadOperation)
    (request : String) (deadlineMillis : Option Int) :
    Keeps faithful guarded (submit owner target operation request deadlineMillis)
      s := by
  unfold submit
  split
  · exact .fail
  · next kind hkind =>
    refine (ensures_submitTarget owner operation target).bind fun workloadId t _ _ =>
      ensures_newOperation (nofun) fun hlifecycle => ?_
    cases operation <;> cases hkind <;> cases hlifecycle

/-! ## Operations -/

variable {o' : OperationRecord}

theorem transition_eq_ok {state now} (h : o.transition state now = .ok o') :
    Same o o' ∧ o'.state = state ∧ o.state.terminal = false := by
  simp only [OperationRecord.transition, bind_eq_ok] at h
  obtain ⟨_, hrule, h⟩ := h
  cases h
  exact ⟨⟨rfl, rfl, rfl, rfl, rfl⟩, rfl, not_terminal_of_operationTransition hrule⟩

theorem finished_eq_ok {outcome now} (h : finished o outcome now = .ok o') :
    Same o o' ∧ (o'.state = .succeeded → ∃ result, outcome = .ok result) := by
  unfold finished at h
  split at h
  · next result =>
    rw [bind_eq_ok] at h
    obtain ⟨o₁, h₁, h⟩ := h
    cases h
    obtain ⟨hsame, -⟩ := transition_eq_ok h₁
    exact ⟨⟨hsame.owner, hsame.id, hsame.workloadId, hsame.kind, hsame.generation⟩,
      fun _ => ⟨result, rfl⟩⟩
  · rw [bind_eq_ok] at h
    obtain ⟨o₁, h₁, h⟩ := h
    cases h
    obtain ⟨hsame, hstate, -⟩ := transition_eq_ok h₁
    refine ⟨⟨hsame.owner, hsame.id, hsame.workloadId, hsame.kind, hsame.generation⟩, fun h => ?_⟩
    cases hstate.symm.trans h

theorem Listed.of_same (hsame : Same o o') (h : Listed o s) : Listed o' s := by
  obtain ⟨x, hx, hx'⟩ := h
  exact ⟨x, hsame.id ▸ hx, hsame.symm.trans hx'⟩

theorem Restored.of_same (hsame : Same o o') (h : Restored o s) : Restored o' s := by
  intro hkind
  rcases h (hsame.kind.symm.trans hkind) with hran | ⟨x, hx, hterminal⟩
  · exact .inl (.of_same hsame hran)
  · exact .inr ⟨x, hsame.id ▸ hx, hterminal⟩

theorem listed_of_get {id} (hs : Inv faithful guarded s) (h : s.operations.get id = some o) :
    Listed o s :=
  ⟨o, (hs.operations.id id o h).symm ▸ h, .refl o⟩

theorem ensures_cancel (owner : String) (id : OperationId) :
    Keeps faithful guarded (cancel owner id) s := by
  have hloop : ∀ attempts s, Keeps faithful guarded (cancelLoop owner id attempts) s := by
    intro attempts
    induction attempts with
    | zero => exact fun _ => .fail
    | succ attempts ih =>
      intro s
      refine (ensures_operation owner id).bind fun found t _ hfound =>
        given fun ht => (ensures_any fun _ => rfl).bind fun now u hlater _ =>
          ensures_ruled fun cancelled hcancelled => ?_
      obtain ⟨hsame, hstate, hterminal⟩ := transition_eq_ok hcancelled
      refine (ensures_replaceOperation (.of_same hsame ((listed_of_get ht hfound.1).later hlater))
        hterminal fun _ h => ?_).bind fun answer v _ _ => ?_
      · cases hstate.symm.trans h
      · split
        · exact ensures_operationEvent.bind fun _ _ _ _ => .ret
        · exact ih v
        · exact .fail
  exact hloop casAttempts s

/-- **The end of an operation.** A restore that succeeds was run. -/
theorem ensures_finish {outcome : Except VmmError (Option String)} (hlisted : Listed o s)
    (hrestored : guarded → ∀ result, outcome = .ok result → Restored o s) :
    Keeps faithful guarded (finish o outcome) s := by
  refine (ensures_any fun _ => rfl).bind fun now t hlater _ => ensures_ruled fun ended hended => ?_
  obtain ⟨hsame, hsucceeded⟩ := finished_eq_ok hended
  refine (ensures_replaceOperation (.of_same hsame (hlisted.later hlater)) rfl
    fun hguarded hstate => ?_).bind fun answer u _ _ => ?_
  · obtain ⟨result, hresult⟩ := hsucceeded hstate
    exact .of_same hsame ((hrestored hguarded result hresult).later hlater)
  · split
    · exact (ensures_operation ended.owner ended.id).mono fun _ _ _ _ _ => trivial
    · exact .fail
    · exact ensures_operationEvent.bind fun _ _ _ _ => .ret

/-! ## Observations -/

/-- A record that gets an observation, and with it perhaps the generation that was applied. -/
theorem moves_observed {observation applied} (ht : Inv faithful guarded t)
    (hr : t.workloads.get r.id = some r) (hid : r'.id = r.id) (hdesired : r'.desired = r.desired)
    (hobserved : r'.observed = some observation)
    (happly : r'.appliedGeneration = applied.or r.appliedGeneration)
    (haccept : acceptObservation r.desired.generation r.observed observation = .ok ())
    (happlied : ∀ g, applied = some g → g.value ≤ r.desired.generation.value ∧
      (faithful → observation.generation = g) ∧
      (∃ id o, t.operations.get id = some o ∧ Concerns o r.id g) ∧
      (guarded → ∀ id o, t.operations.get id = some o → o.kind = .restore →
        o.state.terminal = false → Concerns o r.id g → Ran o t)) :
    Moves faithful guarded t r r' (some observation) := by
  obtain ⟨hle, hbefore⟩ := acceptObservation_eq_ok haccept
  have hsound := ht.workloads.sound _ r hr
  -- what was applied before was seen in an observation before this one
  have hseen : faithful → ∀ g, r.appliedGeneration = some g →
      g.value ≤ observation.generation.value := by
    intro hf g hg
    obtain ⟨o, ho, hgo⟩ := hsound.seen hf g hg
    exact hgo.trans (hbefore o ho).generation_le
  refine ⟨hid, by rw [hdesired], by rw [hdesired]; exact id, ⟨?_, ?_, ?_⟩, fun h => (by cases h),
    fun o ho => ?_, ?_⟩
  · intro o ho
    cases hobserved.symm.trans ho
    rwa [hdesired]
  · intro g hg
    rw [happly] at hg
    rw [hdesired]
    cases happlied' : applied with
    | none => exact hsound.applied g (by simpa [happlied'] using hg)
    | some g' =>
      obtain rfl : g' = g := by simpa [happlied'] using hg
      exact (happlied g' happlied').1
  · intro hf g hg
    rw [happly] at hg
    refine ⟨observation, hobserved, ?_⟩
    cases happlied' : applied with
    | none => exact hseen hf g (by simpa [happlied'] using hg)
    | some g' =>
      obtain rfl : g' = g := by simpa [happlied'] using hg
      rw [(happlied g' happlied').2.1 hf]
  · cases ho
    exact ⟨hobserved, hbefore⟩
  · cases happlied' : applied with
    | none => exact .inl (by simp [happly, happlied'])
    | some g =>
      obtain ⟨-, hgeneration, hop, hran⟩ := happlied g happlied'
      refine .inr ⟨g, by simp [happly, happlied'], fun hf g₀ hg₀ => ?_, hop, hran⟩
      rw [← hgeneration hf]
      exact hseen hf g₀ hg₀

theorem ensures_recordObservation {id : WorkloadId} {observation : Observation}
    {applied : Option Generation}
    (happlied : ∀ g, applied = some g → Reached id g s ∧ (faithful → observation.generation = g) ∧
      ∀ t, Inv faithful guarded t → Later faithful s t →
        (∃ id' o, t.operations.get id' = some o ∧ Concerns o id g) ∧
        (guarded → ∀ id' o, t.operations.get id' = some o → o.kind = .restore →
          o.state.terminal = false → Concerns o id g → Ran o t)) :
    Keeps faithful guarded (recordObservation owner id observation applied) s := by
  have hloop : ∀ attempts u, Later faithful s u → Keeps faithful guarded
      (recordObservationLoop owner id observation applied attempts) u := by
    intro attempts
    induction attempts with
    | zero => exact fun _ _ => .fail
    | succ attempts ih =>
      intro u hu
      refine (ensures_load owner id).bind fun r v hv hr => .given fun hinv =>
        ensures_ruled fun _ haccept => ?_
      obtain rfl := hinv.workloads.id id r hr.1
      have hid : { r with observed := some observation,
                          appliedGeneration := applied.or r.appliedGeneration }.id = r.id := rfl
      refine (ensures_save hr.1 (.refl _ v) hid fun t now ht hlater hcurrent =>
        moves_observed ht hcurrent rfl rfl rfl rfl haccept fun g hg => ?_).attempt
        fun saved t hlater _ => ?_
      · obtain ⟨hreached, hgeneration, hrest⟩ := happlied g hg
        have hst := (hu.trans hv).trans hlater
        obtain ⟨x, hx, hle⟩ := hreached.later hst
        cases hcurrent.symm.trans hx
        exact ⟨hle, hgeneration, hrest t ht hst⟩
      · split
        · exact ensures_event.bind fun _ _ _ _ => .ret
        · split
          · exact ih t ((hu.trans hv).trans hlater)
          · exact .fail
  exact hloop casAttempts s (.refl _ s)

theorem Generation.ext_value {a b : Generation} (h : a.value = b.value) : a = b := by
  cases a
  cases b
  simpa using h

/-- What is known of an operation that is executed with a workload: it was stored when the workload was
loaded, which it is about; and if it is a restore, it was run. -/
structure Executing (faithful guarded : Prop) (o : OperationRecord) (r : WorkloadRecord)
    (s : Shared) : Prop where
  listed : Listed o s
  loaded : ∃ u, Inv faithful guarded u ∧ Later faithful u s ∧ Listed o u ∧
    u.workloads.get r.id = some r
  workload : o.workloadId = some r.id
  lifecycle : o.kind.lifecycle = true
  restored : guarded → Restored o s

/-- An operation that is not superseded is of the generation that its workload has reached. -/
theorem Executing.concerns (h : Executing faithful guarded o r s)
    (hfresh : ¬ o.generation.any fun g => g.value < r.desired.generation.value) :
    Concerns o r.id r.desired.generation := by
  obtain ⟨u, hu, -, ⟨x, hx, hsame⟩, hr⟩ := h.loaded
  obtain ⟨w, g, hconcerns⟩ := hu.operations.lifecycle _ x hx (by rw [hsame.kind, h.lifecycle])
  have hconcerns' := hsame.symm.concerns hconcerns
  obtain rfl : w = r.id := Option.some.inj (hconcerns'.1.symm.trans h.workload)
  obtain ⟨r', hr', hle⟩ := hu.operations.reached _ x _ g hx hconcerns
  cases hr.symm.trans hr'
  refine ⟨h.workload, hconcerns'.2.trans (congrArg some (Generation.ext_value ?_))⟩
  rw [hconcerns'.2] at hfresh
  simp only [Option.any_some, decide_eq_true_eq, not_lt] at hfresh
  omega

theorem ensures_converge (h : Executing faithful guarded o r s) :
    Keeps faithful guarded (converge o r) s := by
  unfold converge
  split
  · exact fail
  · next hfresh =>
    have hconcerns := h.concerns hfresh
    dsimp only
    split
    · exact .ret
    · refine (ensures_ported
        (ensures_answer (fun _ => rfl) fun t ht _ observation hobservation hf =>
          ht.workloads.world hf r _ observation hobservation)).bind
        fun observation t hlater hgeneration => ?_
      refine (ensures_recordObservation fun g hg => ?_).bind fun record u _ _ => ?_
      · cases hg
        obtain ⟨u, hu, hus, -, hr⟩ := h.loaded
        have hreached : Reached r.id r.desired.generation u := ⟨r, hr, le_rfl⟩
        refine ⟨(hreached.later hus).later hlater, hgeneration, fun v hv hlater' => ?_⟩
        obtain ⟨x, hx, hsame⟩ := (h.listed.later hlater).later hlater'
        refine ⟨⟨_, x, hx, hsame.concerns hconcerns⟩, fun hguarded id y hy hkind hstate hy' => ?_⟩
        -- a restore of this generation that has not ended is this operation, and was run
        obtain rfl := (hv.restores hguarded).alone id y _ x _ _ hy hkind hstate hy' hx
          (hsame.concerns hconcerns)
        cases hy.symm.trans hx
        have hrestored := ((h.restored hguarded).later hlater).later hlater'
        rcases hrestored (hsame.kind.symm.trans hkind) with hran | ⟨z, hz, hterminal⟩
        · exact .of_same hsame hran
        · cases hy.symm.trans hz
          cases hstate.symm.trans hterminal
      · split
        · split
          · exact ensures_event.bind fun _ _ _ _ => .ret
          · exact .ret
        · exact .ret

/-! ## Execution -/

theorem ensures_convergeOnce (h : Executing faithful guarded o r s) :
    Keeps faithful guarded (convergeOnce o r) s := by
  refine (ensures_converge h).attempt fun converged t hlater _ => ?_
  have hlisted := h.listed.later hlater
  split
  · exact ensures_finish hlisted fun hguarded _ _ => (h.restored hguarded).later hlater
  · exact .ret
  · split
    · exact .ret
    · exact ensures_finish hlisted nofun

/-- A workload that had applied the generation of a restore when it was loaded was restored. -/
theorem restored_of_applied (hs : Inv faithful guarded s) (hguarded : guarded)
    (hlisted : Listed o s) (hr : s.workloads.get r.id = some r) (hw : o.workloadId = some r.id)
    (happlied : r.appliedGeneration = o.generation) : Restored o s := by
  intro hkind
  obtain ⟨x, hx, hsame⟩ := hlisted
  cases hterminal : x.state.terminal with
  | true => exact .inr ⟨x, hx, hterminal⟩
  | false =>
    have hkind' := hsame.kind.trans hkind
    obtain ⟨w, g, hconcerns⟩ := hs.operations.lifecycle _ x hx (by rw [hkind']; rfl)
    have hconcerns' := hsame.symm.concerns hconcerns
    obtain rfl : w = r.id := Option.some.inj (hconcerns'.1.symm.trans hw)
    exact .inl (.of_same hsame.symm ((hs.restores hguarded).restored _ x _ g r hx hkind' hterminal
      hconcerns hr (happlied.trans hconcerns'.2)))

theorem ensures_attemptOperation {record} (hlisted : Listed o s)
    (hrecord : ∀ r, record = some r → o.workloadId = some r.id ∧ s.workloads.get r.id = some r) :
    Keeps faithful guarded (attemptOperation owner o record) s := by
  have hrun : o.kind ≠ .restore → Keeps faithful guarded (do
      let answer ← ask (.run record o)
      finish o ((answer.map some).mapError VmmError.ofPort)) s := fun hkind =>
    (ensures_run.mono fun _ _ _ _ _ => trivial).bind fun answer t hlater (_ : True) =>
      ensures_finish (hlisted.later hlater) fun _ _ _ h => absurd h hkind
  unfold attemptOperation
  split
  · next hkind => exact hrun (by simp [hkind])
  · next hkind => exact hrun (by simp [hkind])
  · next hkind => exact hrun (by simp [hkind])
  · next hkind => exact hrun (by simp [hkind])
  · next hkind => exact ensures_finish hlisted fun _ _ _ h => absurd h (by simp [hkind])
  · next hinvoke hexec hbuild hsnapshot hcopy =>
    have hlifecycle : o.kind.lifecycle = true := by
      cases hkind : o.kind <;> first | rfl | simp_all
    split
    · exact ensures_finish hlisted nofun
    · next r =>
      obtain ⟨hw, hr⟩ := hrecord r rfl
      split
      · refine ensures_run.bind fun answer t hlater hran => ?_
        have hlisted' := hlisted.later hlater
        split
        · exact ensures_finish hlisted' nofun
        · next result =>
          refine (ensures_load owner r.id).bind fun r' u hlater' hr' =>
            given fun hu => ?_
          obtain hid := hu.workloads.id _ r' hr'.1
          rw [← hid] at hw hr'
          exact ensures_convergeOnce ⟨hlisted'.later hlater', ⟨u, hu, .refl _ u,
            hlisted'.later hlater', hr'.1⟩, hw, hlifecycle,
            fun _ _ => .inl ((hran result rfl).later hlater')⟩
      · next hrestore =>
        refine .given fun hs => ensures_convergeOnce ⟨hlisted, ⟨s, hs, .refl _ s,
          hlisted, hr⟩, hw, hlifecycle, fun hguarded hkind => ?_⟩
        push Not at hrestore
        exact restored_of_applied hs hguarded hlisted hr hw (hrestore hkind) hkind

theorem ensures_executeRunning (hlisted : Listed o s) :
    Keeps faithful guarded (executeRunning owner o) s := by
  unfold executeRunning
  split
  · exact .ret
  · refine .bind (Q := fun _ _ => True) ?_ fun expired t hlater _ => ?_
    · split
      · exact (ensures_any fun _ => rfl).bind fun _ _ _ _ => .ret
      · exact .ret
    · have hlisted' := hlisted.later hlater
      split
      · exact ensures_finish hlisted' nofun
      · split
        · next w hw =>
          refine (ensures_load owner w).bind fun r u hlater' hr => .given fun hu => ?_
          obtain rfl := hu.workloads.id _ r hr.1
          exact ensures_attemptOperation (hlisted'.later hlater') fun r' h => by
            cases h
            exact ⟨hw, hr.1⟩
        · exact ensures_attemptOperation hlisted' fun r' h => by cases h

theorem ensures_execute (owner : String) (id : OperationId) :
    Keeps faithful guarded (execute owner id) s := by
  refine (ensures_operation owner id).bind fun found t _ hfound => .given fun ht => ?_
  have hlisted := listed_of_get ht hfound.1
  split
  · next hpending =>
    refine (ensures_any fun _ => rfl).bind fun now u hlater _ =>
      ensures_ruled fun running hrunning => ?_
    obtain ⟨hsame, hstate, -⟩ := transition_eq_ok hrunning
    have hlisted' := Listed.of_same hsame (hlisted.later hlater)
    refine (ensures_replaceOperation hlisted' rfl fun _ h => ?_).bind fun answer v hlater' _ => ?_
    · cases hstate.symm.trans h
    · split
      · exact (ensures_operation owner id).mono fun _ _ _ _ _ => trivial
      · exact fail
      · exact ensures_executeRunning (hlisted'.later hlater')
  · exact ensures_executeRunning hlisted

/-! ## Observation and reconciliation -/

theorem mem_pageOf {κ : Type} {rows : List α} {limit : Nat} {key : α → κ} {a : α}
    (h : a ∈ (pageOf rows limit key).items) : a ∈ rows :=
  List.mem_of_mem_take h

theorem get_of_mem_allWorkloads {cursor : Option WorkloadId} {limit : Nat}
    (hs : Inv faithful guarded s) (h : r ∈ (s.allWorkloads cursor limit).items) :
    s.workloads.get r.id = some r := by
  have hmem := List.mem_filter.mp ((List.mem_insertionSort _).mp (mem_pageOf h))
  obtain ⟨⟨id, r'⟩, hr', rfl⟩ := List.mem_map.mp hmem.1
  have hget := Store.mem_toList_iff.mp hr'
  rwa [hs.workloads.id id _ hget]

theorem ensures_eachWorkload {visit : α → WorkloadRecord → Code α}
    (hvisit : ∀ acc r u t, Inv faithful guarded u → u.workloads.get r.id = some r →
      Later faithful u t → Keeps faithful guarded (visit acc r) t)
    (pages : Nat) (cursor : Option WorkloadId) (acc : α) :
    Keeps faithful guarded (eachWorkload visit pages cursor acc) s := by
  induction pages generalizing cursor acc s with
  | zero => exact fail
  | succ pages ih =>
    refine (ensures_ported (Q := fun page t => ∀ r ∈ page.items, t.workloads.get r.id = some r)
      (ensures_answer (o := .allWorkloads cursor pageSize) (fun t => read_snd t _)
        fun t ht _ page hpage r hr => ?_)).bind fun page t _ hpage =>
      given fun ht => ?_
    · rw [read_fst hpage] at hr
      exact get_of_mem_allWorkloads ht hr
    · refine (foldlM (fun r hr acc u hu => hvisit acc r t u ht (hpage r hr) hu) acc
        (Later.refl _ t)).bind fun acc u _ _ => ?_
      split
      · exact ih _ _
      · exact ret

theorem ensures_observeRecord (record : WorkloadRecord) (observation : Observation) (acc : Observing) :
    Keeps faithful guarded (observeRecord record observation acc) s := by
  refine (ensures_recordObservation fun g h => by cases h).attempt fun answer t _ _ => ?_
  split
  · exact ret
  · split
    · exact ret
    · exact fail

theorem ensures_observe (pages : Nat) : Keeps faithful guarded (observe pages) s := by
  refine (ensures_ported
    (ensures_answer (fun _ => rfl) fun _ _ _ _ _ => trivial)).bind fun all t _ _ =>
    (ensures_eachWorkload (fun acc r u t _ _ _ => ?_) pages none _).bind fun _ _ _ _ =>
      ret
  unfold observeWorkload
  split
  · exact ensures_observeRecord _ _ _
  · split
    · exact .ret
    · exact (ensures_any fun _ => rfl).bind fun _ _ _ _ => ensures_observeRecord _ _ _

theorem ensures_reconcile (pages : Nat) : Keeps faithful guarded (reconcileAll pages) s := by
  refine ensures_eachWorkload (fun opened r u t _ hr hlater => ?_) pages none 0
  unfold reconcileWorkload
  dsimp only
  split
  · exact .ret
  · refine (ensures_ported
      (ensures_answer (o := .operations r.owner ⟨some r.id, none⟩ none pageSize)
        (fun t => read_snd t _) fun _ _ _ _ _ => trivial)).bind fun page v hlater' _ => ?_
    split
    · exact .ret
    · refine (ensures_newOperation ?_ fun _ => ⟨rfl, rfl⟩).bind fun _ _ _ _ =>
        ret
      rintro w g ⟨⟩ ⟨⟩
      have hreached : Reached r.id r.desired.generation u := ⟨r, hr, le_rfl⟩
      exact (hreached.later hlater).later hlater'

/-- **Every call** keeps the invariants and lets the stores grow. -/
theorem ensures_code (call : Call) (s : Shared) : Keeps faithful guarded call.code s := by
  have hpure : ∀ {α : Type} (f : α → Outcome) (p : Code α),
      Keeps faithful guarded p s →
      Keeps faithful guarded (p >>= fun a => pure (f a)) s :=
    fun f p h => h.bind fun _ _ _ _ => .ret
  cases call with
  | create owner id spec desired deadlineMillis => exact hpure _ _ (ensures_create _ _ _ _ _)
  | command owner id asked generation ifMatch deadlineMillis pages =>
    exact hpure _ _ (ensures_command _ _ _ _ _ _ _)
  | updateSpec owner id spec generation ifMatch deadlineMillis pages =>
    exact hpure _ _ (ensures_updateSpec _ _ _ _ _ _ _)
  | restore owner id generation request ifMatch deadlineMillis pages =>
    exact hpure _ _ (ensures_restore _ _ _ _ _ _ _)
  | submit owner target operation request deadlineMillis =>
    exact hpure _ _ (ensures_submit _ _ _ _ _)
  | cancel owner id => exact hpure _ _ (ensures_cancel _ _)
  | execute owner id => exact hpure _ _ (ensures_execute _ _)
  | observe pages => exact hpure _ _ (ensures_observe _)
  | reconcile pages => exact hpure _ _ (ensures_reconcile _)

end Aseman.Vmm
