import Aseman.Cluster.Replica

/-!
# Replaying the log

Between two crashes a replica may write again what it has written before. The invariant says that the
writes that are still to be made again lead to the state in which every entry was applied once.
-/

namespace Aseman.Cluster

open Write

variable {M : Type} {env : Env} {log : List (Payload M)} {kv₀ : KvStore}

/-! ## An entry is a list of writes -/

/-- The writes of the entry, made or not. -/
def Payload.writes (env : Env) (p : Payload M) : List (Write String Bytes) :=
  match p with
  | .normal (.kvBatch _ ops _) => ops.map (·.toWrite env)
  | _ => []

theorem Payload.apply_eq (p : Payload M) (kv : KvStore) :
    p.apply env kv = applyAll (if p.takesEffect env kv then p.writes env else []) kv := by
  cases p with
  | blank => simp [apply, takesEffect]
  | membership m => simp [apply, takesEffect]
  | normal c =>
    cases c with
    | noop | configPut key value => simp [apply, takesEffect, applyCommand]
    | kvBatch origin ops expects =>
      cases expects with
      | nil => simp [apply, takesEffect, applyCommand, writes, writeBatch]
      | cons e es =>
        simp only [apply, takesEffect, applyCommand, writes, writeBatchIf, writeBatch]
        obtain ⟨read, hread⟩ : ∃ read, (e :: es).mapM (KvExpect.toExpectation env) = read :=
          ⟨_, rfl⟩
        cases read with
        | none => simp [hread]
        | some expected =>
          by_cases hmet : expected.all fun e => e.metBy env (kv e.key) <;>
            simp [hread, hmet]

variable (r : Replica M) (e : Entry M)

@[simp] theorem applyEntry_kv : (applyEntry env r e).2.kv = e.payload.apply env r.kv := by
  obtain ⟨index, payload⟩ := e
  cases payload <;> rfl

@[simp] theorem applyEntry_persisted : (applyEntry env r e).2.persisted = r.persisted := by
  obtain ⟨index, payload⟩ := e
  cases payload <;> rfl

@[simp] theorem applyEntry_next : (applyEntry env r e).2.state.next = e.index + 1 := by
  obtain ⟨index, payload⟩ := e
  cases payload with
  | blank => rfl
  | membership m => rfl
  | normal c => cases c <;> rfl

/-! ## Applying every entry once -/

theorem exactlyOnce_take_succ {i p} (hp : log[i]? = some p) :
    exactlyOnce env (log.take (i + 1)) kv₀ = p.apply env (exactlyOnce env (log.take i) kv₀) := by
  rw [List.take_add_one, hp]
  simp [exactlyOnce]

/-- The writes that the entry makes when it is applied once, in its turn. -/
def firstWrites (env : Env) (log : List (Payload M)) (kv₀ : KvStore) (i : Nat) :
    List (Write String Bytes) :=
  match log[i]? with
  | some p => if p.takesEffect env (exactlyOnce env (log.take i) kv₀) then p.writes env else []
  | none => []

def writesBetween (env : Env) (log : List (Payload M)) (kv₀ : KvStore) (i j : Nat) :
    List (Write String Bytes) :=
  (List.range' i (j - i)).flatMap (firstWrites env log kv₀)

@[simp] theorem writesBetween_self (i : Nat) : writesBetween env log kv₀ i i = [] := by
  simp [writesBetween]

theorem writesBetween_append {i j k} (hij : i ≤ j) (hjk : j ≤ k) :
    writesBetween env log kv₀ i j ++ writesBetween env log kv₀ j k =
      writesBetween env log kv₀ i k := by
  rw [writesBetween, writesBetween, writesBetween, ← List.flatMap_append]
  have hrange : List.range' i (k - i) = List.range' i (j - i) ++ List.range' j (k - j) := by
    rw [show k - i = (j - i) + (k - j) by omega, ← List.range'_append_1,
      show i + (j - i) = j by omega]
  rw [hrange]

theorem writesBetween_succ (i : Nat) :
    writesBetween env log kv₀ i (i + 1) = firstWrites env log kv₀ i := by
  simp [writesBetween]

/-- The writes between two indices lead from the one state to the other. -/
theorem applyAll_writesBetween {i j} (hij : i ≤ j) (hj : j ≤ log.length) :
    applyAll (writesBetween env log kv₀ i j) (exactlyOnce env (log.take i) kv₀) =
      exactlyOnce env (log.take j) kv₀ := by
  induction j, hij using Nat.le_induction with
  | base => simp
  | succ j hij ih =>
    have hp : log[j]? = some log[j] := List.getElem?_eq_getElem (by omega)
    rw [← writesBetween_append hij (Nat.le_succ j), applyAll_append, ih (by omega),
      writesBetween_succ, firstWrites, hp, exactlyOnce_take_succ hp, Payload.apply_eq]

/-! ## Runs -/

/-- The entries are those of the log from the index on. -/
def Follows (log : List (Payload M)) : Nat → List (Entry M) → Prop
  | _, [] => True
  | i, e :: es => e.index = i ∧ log[i]? = some e.payload ∧ Follows log (i + 1) es

theorem run_apply (entries : List (Entry M)) {w} (h : Follows log w.state.next entries) :
    ∃ furthest, Run (Step env log) w (List.replicate entries.length .entry ++ [.persist])
      ⟨(apply env entries w.toReplica).2, furthest⟩ := by
  induction entries generalizing w with
  | nil => exact ⟨w.furthest, .single .persist⟩
  | cons e es ih =>
    obtain ⟨hindex, hp, hrest⟩ := h
    obtain ⟨index, payload⟩ := e
    subst hindex
    obtain ⟨furthest, hrun⟩ := ih
      (w := ⟨(applyEntry env w.toReplica ⟨w.state.next, payload⟩).2,
        max w.furthest (w.state.next + 1)⟩) (by simpa using hrest)
    have hone : Run (Step env log) w [.entry] _ := .single (.entry hp)
    exact ⟨furthest, hone.append hrun⟩

/-- What stands in the key/value store, wherever the replica starts again. -/
structure Behind (env : Env) (log : List (Payload M)) (kv₀ : KvStore) (w : Watched M) : Prop where
  persisted_le : w.persisted.next ≤ w.state.next
  next_le : w.state.next ≤ w.furthest
  furthest_le : w.furthest ≤ log.length
  leads : applyAll (writesBetween env log kv₀ w.state.next w.furthest) w.kv =
    exactlyOnce env (log.take w.furthest) kv₀

theorem behind_initial : Behind env log kv₀ (.initial kv₀) where
  persisted_le := le_rfl
  next_le := le_rfl
  furthest_le := Nat.zero_le _
  leads := by
    show applyAll (writesBetween env log kv₀ 0 0) kv₀ = exactlyOnce env (log.take 0) kv₀
    simp [exactlyOnce]

/-- **One entry**, whether it is applied for the first time or again. -/
theorem Behind.entry {w} (h : Behind env log kv₀ w) {p} (hp : log[w.state.next]? = some p)
    (hsame : ComesOutAgain env log kv₀ w) :
    Behind env log kv₀
      ⟨(applyEntry env w.toReplica ⟨w.state.next, p⟩).2, max w.furthest (w.state.next + 1)⟩ := by
  have hlt : w.state.next < log.length := (List.getElem?_eq_some_iff.mp hp).1
  refine ⟨?_, ?_, ?_, ?_⟩
  · have := h.persisted_le
    simp only [applyEntry_persisted, applyEntry_next]
    omega
  · simp
  · have := h.furthest_le
    simp only [sup_le_iff]
    omega
  · rw [applyEntry_next, applyEntry_kv]
    rcases h.next_le.lt_or_eq with hagain | hfirst
    · -- the writes that the entry makes again are the first of those still to be made
      have hleads := h.leads
      rw [max_eq_left (by omega)]
      rw [← writesBetween_append (Nat.le_succ _) hagain, applyAll_append,
        writesBetween_succ, firstWrites, hp] at hleads
      rw [← hleads, Payload.apply_eq, hsame hagain p hp]
    · -- everything before has been made, so the store is that of a replica that never crashed
      have hleads := h.leads
      rw [← hfirst, writesBetween_self, applyAll_nil] at hleads
      rw [max_eq_right (by omega), writesBetween_self, applyAll_nil,
        exactlyOnce_take_succ hp, hleads]

/-- **A crash**: the replica starts again with entries that it has applied. -/
theorem Behind.crash {w} (h : Behind env log kv₀ w) :
    Behind env log kv₀ ⟨restart w.toReplica, w.furthest⟩ where
  persisted_le := le_rfl
  next_le := h.persisted_le.trans h.next_le
  furthest_le := h.furthest_le
  leads := by
    show applyAll (writesBetween env log kv₀ w.persisted.next w.furthest) w.kv = _
    have hall : applyAll (writesBetween env log kv₀ w.persisted.next w.furthest)
        (exactlyOnce env (log.take w.persisted.next) kv₀) = exactlyOnce env (log.take w.furthest) kv₀ :=
      applyAll_writesBetween (h.persisted_le.trans h.next_le) h.furthest_le
    rw [← writesBetween_append h.persisted_le h.next_le] at hall ⊢
    exact applyAll_again hall h.leads

theorem SameStep.keeps_behind (w : Watched M) (e : Event) (w' : Watched M)
    (hstep : SameStep env log kv₀ w e w') (h : Behind env log kv₀ w) : Behind env log kv₀ w' := by
  obtain ⟨hstep, hsame⟩ := hstep
  cases hstep with
  | entry hp => exact h.entry hp (hsame rfl)
  | persist => exact ⟨le_rfl, h.next_le, h.furthest_le, h.leads⟩
  | crash => exact h.crash

/-- In every run in which each batch that is applied again comes out as it did the first time, a replica
that has caught up holds what applying every entry exactly once gives. -/
theorem replicas_converge (env : Env) (log : List (Payload M)) (kv₀ : KvStore) {es : List Event}
    {w : Watched M} (h : Run (SameStep env log kv₀) (.initial kv₀) es w)
    (hcaught : w.furthest ≤ w.state.next) :
    w.kv = exactlyOnce env (log.take w.state.next) kv₀ := by
  have hbehind := h.invariant SameStep.keeps_behind behind_initial
  have hleads := hbehind.leads
  rw [le_antisymm hcaught hbehind.next_le, writesBetween_self] at hleads
  exact hleads

/-! ## The state machine's own data -/

/-- A batch of one put of the byte 1, under preconditions. -/
def putOne (key : String) (expects : List KvExpect) : Payload Unit :=
  .normal (.kvBatch 1 [.put key "AQ=="] expects)

/-- A key is written, another is to be written only while the first is absent, and the first is
deleted. -/
def guardedLog : List (Payload Unit) :=
  [putOne "x" [], putOne "y" [⟨"x", none⟩], .normal (.kvBatch 1 [.del "x"] [])]

/-- The libraries, at the two texts of the runs below. -/
def sampleEnv : Env where
  decode text :=
    if text = "AQ==" then some [1]
    else if text = "S/USLzRFVMU73i67jNK349FgCtYxw4Wl18ziPHeFRZo=" then
      some [75, 245, 18, 47, 52, 69, 84, 197, 59, 222, 46, 187, 140, 210, 183, 227, 209, 96, 10, 214,
        49, 195, 133, 165, 215, 204, 226, 60, 119, 133, 69, 154]
    else none
  sha256 _ := #v[75, 245, 18, 47, 52, 69, 84, 197, 59, 222, 46, 187, 140, 210, 183, 227, 209, 96,
    10, 214, 49, 195, 133, 165, 215, 204, 226, 60, 119, 133, 69, 154]

/-- The replica persists the first entry and crashes when it has applied all three. The second, whose
precondition had failed, is applied to a store without the first key, and takes effect. -/
theorem replayed_batch_takes_effect : ∃ w, Run (Step sampleEnv guardedLog) (.initial fun _ => none)
        [.entry, .persist, .entry, .entry, .crash, .entry, .entry, .persist] w ∧
      w.furthest = 3 ∧ w.state.next = 3 ∧ w.kv "y" = some [1] ∧
      exactlyOnce sampleEnv (guardedLog.take 3) (fun _ => none) "y" = none := by
  refine ⟨_, .snoc (.snoc (.snoc (.snoc (.snoc (.snoc (.snoc (.snoc .nil (.entry rfl)) .persist)
    (.entry rfl)) (.entry rfl)) .crash) (.entry rfl)) (.entry rfl)) .persist, rfl, rfl, rfl, rfl⟩

/-- The second batch is made while the first key holds the byte 1. -/
def chainedLog : List (Payload Unit) :=
  [putOne "x" [], putOne "y" [⟨"x", some "S/USLzRFVMU73i67jNK349FgCtYxw4Wl18ziPHeFRZo="⟩]]

theorem replicas_converge_chained :
    ∃ w, Run (SameStep sampleEnv chainedLog fun _ => none) (.initial fun _ => none)
        [.entry, .entry, .crash, .entry, .entry, .persist] w ∧
      w.state.next = 2 ∧ w.kv "y" = some [1] ∧
      w.kv = exactlyOnce sampleEnv (chainedLog.take 2) (fun _ => none) := by
  have hrun : ∃ w, Run (SameStep sampleEnv chainedLog fun _ => none) (.initial fun _ => none)
      [.entry, .entry, .crash, .entry, .entry, .persist] w ∧
      w.furthest = 2 ∧ w.state.next = 2 ∧ w.kv "y" = some [1] := by
    refine ⟨_, .snoc (.snoc (.snoc (.snoc (.snoc (.snoc .nil ⟨.entry rfl, ?x⟩) ⟨.entry rfl, ?y⟩)
      ⟨.crash, nofun⟩) ⟨.entry rfl, ?xAgain⟩) ⟨.entry rfl, ?yAgain⟩) ⟨.persist, nofun⟩, rfl, rfl, ?kv⟩
    case kv => decide +kernel
    all_goals
      intro _ _ p hp
      obtain rfl := Option.some.inj hp
      decide +kernel
  obtain ⟨w, hrun, hfurthest, hnext, hy⟩ := hrun
  refine ⟨w, hrun, hnext, hy, ?_⟩
  rw [replicas_converge sampleEnv chainedLog _ hrun (by omega), hnext]

end Aseman.Cluster
