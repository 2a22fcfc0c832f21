import Aseman.Metering.Protocol

/-!
# Usage is metered once and completely

Passes of any number of meters, in any interleaving, with failures and stops. As long as a pass is alone
with a workload from its reading to the recording of the interval, the intervals of the workload are the
steps between its samples: they do not overlap and leave no gap. A pass that stops between a sample and its
interval loses the interval for ever, and two passes that look up the previous sample before either
records its own charge the time since then twice.
-/

namespace Aseman.Metering

def UsageInterval.Covers (interval : UsageInterval) (time : Int) : Prop :=
  interval.intervalStartMillis ≤ time ∧ time < interval.intervalEndMillis

/-- The intervals of a workload do not overlap, cover the time between its samples, and have at most one
journal record each. -/
structure Exact (w : Uuid) (meters : Meters) : Prop where
  disjoint : (intervalsOf w meters.intervals).Pairwise fun a b => ∀ time, ¬ (a.Covers time ∧ b.Covers time)
  cover : ∀ a ∈ samplesOf w meters.samples, ∀ b ∈ samplesOf w meters.samples, ∀ time,
    a.collectedAtMillis ≤ time → time < b.collectedAtMillis →
      ∃ interval ∈ intervalsOf w meters.intervals, interval.Covers time
  once : ∀ interval ∈ intervalsOf w meters.intervals,
    (meters.journal.filter (·.idempotencyKey = interval.settlementKey)).length ≤ 1

section

variable {w : Uuid} {s t : MeterSys} {e : MeterEvent}

theorem MetersInv.exact {meters} (h : MetersInv w meters) (hpending : meters.pending w = none) :
    Exact w meters := by
  have hcomplete := h.complete
  rw [metered, if_pos hpending] at hcomplete
  refine ⟨?_, ?_, ?_⟩
  · rw [hcomplete, List.pairwise_map]
    refine (pairwise_steps h.increasing).imp fun {p q} hle time hboth => ?_
    -- the first ends where the second starts, or before
    exact absurd (hboth.1.2.trans_le (hle.trans hboth.2.1)) (lt_irrefl _)
  · intro a ha b hb time hfrom hto
    obtain ⟨p, hp, hspan⟩ := exists_step_of_between h.increasing ha hb hfrom hto
    exact ⟨between p.1 p.2, hcomplete ▸ List.mem_map_of_mem hp, hspan⟩
  · intro interval _
    have hle := List.nodup_iff_count_le_one.mp h.journal interval.settlementKey
    rw [List.count, List.countP_map, List.countP_eq_length_filter] at hle
    exact hle

theorem untouched_surroundings (w : Uuid) (change : Change) (meters : Meters) :
    Untouched w meters (surroundings change meters) := by
  cases change with
  | ports ports | publish list => exact ⟨rfl, rfl, rfl, fun _ => id, id⟩
  | commit record => exact untouched_committed w meters record

theorem Untouched.rely {meters meters'} (own : Own) (h : Untouched w meters meters') :
    MetersRely w own meters meters' where
  samples := h.samples ▸ List.prefix_rfl
  readings := h.readings
  held hs := ⟨h.pending.trans hs, h.samples⟩
  free hs := h.pending ▸ hs

/-- The state that such runs keep. -/
structure MeterSound (w : Uuid) (s : MeterSys) : Prop where
  good : Good (meterProtocol w) (fun call _ _ meters => meters.pending w ≠ some call.slot) s
  tidy : ∀ i th, s.threads i = some th → th.call.slot = i ∧ th.own.slot = i
  running : ∀ i, s.shared.pending w = some i → (s.threads i).isSome

theorem MeterSound.step (hs : MeterSound w s) (h : AloneStep w s e t) : MeterSound w t := by
  -- A slot in which nothing runs has no sample that waits for its interval.
  have hfree : ∀ i call, e = .start i call → s.shared.pending w ≠ some i := by
    rintro i call rfl hpending
    have hrunning := hs.running i hpending
    rw [h.step.start_free] at hrunning
    cases hrunning
  obtain ⟨hgood, hdid⟩ := hs.good.step h.step
    (by
      rintro i call rfl
      refine (safe_execute call.config call.pages none {} ⟨h.slot i call rfl, hfree i call rfl⟩).mono ?_
      intro r b meters own hidle
      rw [h.slot i call rfl]
      exact hidle.2)
    (fun change _ hinv => (untouched_surroundings w change s.shared).inv hinv)
    (fun i call own o next he hthread =>
      ⟨h.readings i call own o next he hthread, h.alone i call own o next he hthread⟩)
    (by
      rintro i call own o next j th rfl hthread hth hne hguar
      refine MetersGuar.rely w hguar fun heq => hne ?_
      rw [← (hs.tidy j th hth).2, ← (hs.tidy i _ hthread).2]
      exact heq.symm)
    (by
      rintro change j th rfl hth
      cases h.step
      exact (untouched_surroundings w change s.shared).rely th.own)
  refine ⟨hgood, ?_, ?_⟩
  · refine h.step.threads (T := fun i call own => call.slot = i ∧ own.slot = i) hs.tidy ?_ ?_
    · rintro i call rfl
      exact ⟨h.slot i call rfl, h.slot i call rfl⟩
    · rintro i call own o meters ⟨hcall, hown⟩
      exact ⟨hcall, (exec_slot o meters own).trans hown⟩
  · intro j hpending
    -- A thread that was running and makes no step is still running.
    have hkept : (∀ i call, e = .start i call → j ≠ i) → (∀ i, e = .step i → j ≠ i) →
        s.shared.pending w = some j → (t.threads j).isSome := by
      intro hstart hstep hold
      rw [h.step.threads_of_ne hstart hstep]
      exact hs.running j hold
    cases hdid with
    | started hshared hfinished =>
      rw [hshared] at hpending
      refine hkept ?_ (nofun) hpending
      rintro i' call' he rfl
      cases he
      exact hfree _ _ rfl hpending
    | environment hshared hfinished =>
      rename_i change
      rw [hshared] at hpending
      have hsame := (untouched_surroundings w change s.shared).pending
      exact hkept (nofun) (nofun) (hsame ▸ hpending)
    | operation hthread hshared hguar hfinished =>
      rename_i i call own o next
      obtain ⟨hcall, hown⟩ := hs.tidy i _ hthread
      by_cases hji : j = i
      · subst hji
        rcases hfinished with ⟨-, rest, hrest⟩ | ⟨r, -, hpost⟩
        · rw [hrest]
          rfl
        · rw [hcall] at hpost
          exact absurd hpending hpost
      · refine hkept (nofun) (fun i' he => by cases he; exact hji) ?_
        rcases hguar.pending with heq | ⟨-, hnone | hmine⟩
        · rwa [heq] at hpending
        · rw [hnone] at hpending
          cases hpending
        · rw [hmine, hown] at hpending
          exact absurd (Option.some.inj hpending).symm hji

end

variable (s : MeterSys)

/-- Stores in which nothing is recorded, before any pass. -/
def Fresh : Prop :=
  s.shared.samples = [] ∧ s.shared.intervals = [] ∧ s.shared.pending = (fun _ => none) ∧
    (s.shared.journal.map (·.idempotencyKey)).Nodup ∧ s.threads = fun _ => none

def sampleReading (windowEnd : Int) : Usage := ⟨0, windowEnd, 1, 0, 0, 0, 0, 0, 0⟩

/-- One workload, read at a time. -/
def samplePorts (windowEnd : Int) : Ports where
  workloads _ _ := .ok ([1], none)
  usage _ := .ok (sampleReading windowEnd)
  creature _ := .ok (some 2)
  fault := none

def sampleSys : MeterSys where
  shared := ⟨[], [], [], [⟨"v1", 0, ∅⟩], samplePorts 10, [], fun _ => none⟩
  threads _ := none
  finished := []

def sampleCall (slot : ℕ) : PassCall := ⟨slot, ⟨"revenue", 10, 10⟩, 1⟩

/-- The slots of the passes that have completed. -/
def completed : List ℕ :=
  s.finished.filterMap fun x => match x.2 with
    | .ok _ => some x.1.slot
    | .error _ => none

end Aseman.Metering
