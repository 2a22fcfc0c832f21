import Aseman.Lib.Isolation
import Aseman.Lib.Steps
import Aseman.Metering.Pass

/-!
# What passes promise each other

Any number of passes interleave at their port calls. For one workload: a pass that has read its usage and
finds no sample recorded since records the next sample after all that are there, and a pass that has
recorded a sample records the interval before it, before anybody records another sample. `safe_execute`
shows that one pass keeps to this.
-/

namespace Aseman.Metering

open Prog.Only

/-! ## Conditions -/

section

variable (w : Uuid)

/-- What readings of the workload have to be like: window ends increase, and a window end has one reading. -/
def MayRead : Op → Meters → Prop
  | .usage workload, meters => workload = w → ∀ reading, meters.ports.usage w = .ok reading →
      ∀ earlier, (w, earlier) ∈ meters.readings →
        earlier = reading ∨ earlier.windowEndMillis < reading.windowEndMillis
  | _, _ => True

/-- When a sample of the workload is recorded, none has been recorded since its reading, and no pass has
one recorded whose interval is missing; a sample that is recorded is reported, and an interval is
recorded. -/
def MayRecord (own : Own) : Op → Meters → Prop
  | .recordSample sample, meters => sample.workloadId = w →
      (samplesOf w meters.samples).length = own.seen ∧ meters.pending w = none ∧
        meters.ports.fault.all fun fault => !fault.applied
  | .recordInterval interval, meters => interval.workloadId = w →
      meters.ports.fault.all fun fault => fault.applied
  | _, _ => True

/-- A step of the system, with increasing readings of the workload. -/
structure MeterStep (s : MeterSys) (e : MeterEvent) (t : MeterSys) : Prop where
  step : metering.Step s e t
  slot : ∀ i call, e = .start i call → call.slot = i
  readings : ∀ i call own o next, e = .step i → s.threads i = some ⟨call, own, .step o next⟩ →
    MayRead w o s.shared

/-- As the condition: from a reading of the workload to the end of its recording, passes are alone with the
workload and do not fail. -/
structure AloneStep (s : MeterSys) (e : MeterEvent) (t : MeterSys) : Prop extends MeterStep w s e t where
  alone : ∀ i call own o next, e = .step i → s.threads i = some ⟨call, own, .step o next⟩ →
    MayRecord w own o s.shared

/-! ## What holds of the stores -/

/-- The samples up to which intervals are recorded. -/
def metered (meters : Meters) : List UsageSample :=
  if meters.pending w = none then samplesOf w meters.samples
  else (samplesOf w meters.samples).dropLast

structure MetersInv (meters : Meters) : Prop where
  increasing : (samplesOf w meters.samples).Pairwise fun a b => a.collectedAtMillis < b.collectedAtMillis
  ids : ((samplesOf w meters.samples).map (·.providerSampleId)).Nodup
  read : ∀ x ∈ samplesOf w meters.samples, ∃ reading, (w, reading) ∈ meters.readings ∧
    x = usageSample w reading
  /-- The intervals are those between neighbouring samples. -/
  complete : intervalsOf w meters.intervals = (steps (metered w meters)).map fun p => between p.1 p.2
  journal : (meters.journal.map (·.idempotencyKey)).Nodup

/-- What a pass relies on: samples stay in their order, and none comes while it is between a sample and
its interval. -/
structure MetersRely (own : Own) (s t : Meters) : Prop where
  samples : samplesOf w s.samples <+: samplesOf w t.samples
  readings : ∀ x ∈ s.readings, x ∈ t.readings
  held : s.pending w = some own.slot →
    t.pending w = some own.slot ∧ samplesOf w t.samples = samplesOf w s.samples
  free : s.pending w ≠ some own.slot → t.pending w ≠ some own.slot

/-- What a port call of a pass does to the stores. -/
structure MetersGuar (own : Own) (s t : Meters) : Prop where
  samples : samplesOf w t.samples = samplesOf w s.samples ∨
    s.pending w = none ∧ ∃ x, samplesOf w t.samples = samplesOf w s.samples ++ [x]
  readings : ∀ x ∈ s.readings, x ∈ t.readings
  pending : t.pending w = s.pending w ∨ (s.pending w = none ∨ s.pending w = some own.slot) ∧
      (t.pending w = none ∨ t.pending w = some own.slot)

theorem MetersRely.refl (own : Own) (s : Meters) : MetersRely w own s s :=
  ⟨List.prefix_rfl, fun _ => id, fun h => ⟨h, rfl⟩, id⟩

theorem MetersRely.trans {own s t u} (h : MetersRely w own s t) (h' : MetersRely w own t u) :
    MetersRely w own s u where
  samples := h.samples.trans h'.samples
  readings x hx := h'.readings x (h.readings x hx)
  held hs := by
    obtain ⟨ht, hsamples⟩ := h.held hs
    obtain ⟨hu, hsamples'⟩ := h'.held ht
    exact ⟨hu, hsamples'.trans hsamples⟩
  free hs := h'.free (h.free hs)

theorem MetersGuar.refl (own : Own) (s : Meters) : MetersGuar w own s s :=
  ⟨.inl rfl, fun _ => id, .inl rfl⟩

/-- What one pass does is what another, in another slot, relies on. -/
theorem MetersGuar.rely {own other s t} (h : MetersGuar w own s t) (hslot : own.slot ≠ other.slot) :
    MetersRely w other s t where
  samples := by
    rcases h.samples with heq | ⟨-, x, heq⟩ <;> rw [heq]
    exact List.prefix_append _ _
  readings := h.readings
  held hs := by
    -- the sample is the other's: neither is its own, nor is there none
    have hother : ¬ (s.pending w = none ∨ s.pending w = some own.slot) := by
      rw [hs]
      simpa using fun heq => hslot heq.symm
    refine ⟨?_, ?_⟩
    · rcases h.pending with heq | ⟨hmine, -⟩
      · rw [heq, hs]
      · exact absurd hmine hother
    · rcases h.samples with heq | ⟨hnone, -⟩
      · exact heq
      · exact absurd (.inl hnone) hother
  free hs ht := by
    rcases h.pending with heq | ⟨-, hnone | hmine⟩
    · exact hs (heq ▸ ht)
    · rw [hnone] at ht
      cases ht
    · rw [hmine] at ht
      exact hslot (Option.some.inj ht)

def meterProtocol : Protocol metering where
  Inv := MetersInv w
  Rely := MetersRely w
  May own o meters := MayRead w o meters ∧ MayRecord w own o meters
  Guar own _ _ s t := MetersGuar w own s t
  refl := MetersRely.refl w
  trans _ _ _ _ := MetersRely.trans w

variable {w} {own : Own} {b s t : Meters}

/-! ## Store calls -/

variable {α : Type}

theorem stored_cases (meters : Meters) (reply : Except PortError α) (done : Meters) :
    (meters.ports.fault = none ∧ stored meters reply done = (reply, done)) ∨
      ∃ fault, meters.ports.fault = some fault ∧
        stored meters reply done = (.error fault.error, if fault.applied then done else meters) := by
  unfold stored
  rcases meters.ports.fault with _ | fault
  · exact .inl ⟨rfl, rfl⟩
  · exact .inr ⟨fault, rfl, rfl⟩

theorem stored_same (meters : Meters) (reply : Except PortError α) :
    ∃ r, stored meters reply meters = (r, meters) ∧ (r = reply ∨ ∃ e, r = .error e) := by
  rcases stored_cases meters reply meters with ⟨-, heq⟩ | ⟨fault, -, heq⟩
  · exact ⟨reply, heq, .inl rfl⟩
  · rw [ite_self] at heq
    exact ⟨.error fault.error, heq, .inr ⟨_, rfl⟩⟩

/-- What concerns the workload is as it was. -/
structure Untouched (w : Uuid) (s t : Meters) : Prop where
  samples : samplesOf w t.samples = samplesOf w s.samples
  intervals : intervalsOf w t.intervals = intervalsOf w s.intervals
  pending : t.pending w = s.pending w
  readings : ∀ x ∈ s.readings, x ∈ t.readings
  journal : (s.journal.map (·.idempotencyKey)).Nodup → (t.journal.map (·.idempotencyKey)).Nodup

open Untouched

theorem Untouched.refl (w : Uuid) (s : Meters) : Untouched w s s := ⟨rfl, rfl, rfl, fun _ => id, id⟩

theorem Untouched.inv (h : Untouched w s t) (hinv : MetersInv w s) : MetersInv w t where
  increasing := h.samples ▸ hinv.increasing
  ids := h.samples ▸ hinv.ids
  read x hx := by
    obtain ⟨reading, hmem, heq⟩ := hinv.read x (h.samples ▸ hx)
    exact ⟨reading, h.readings _ hmem, heq⟩
  complete := by
    rw [metered, h.pending, h.samples, h.intervals]
    exact hinv.complete
  journal := h.journal hinv.journal

theorem Untouched.guar (own : Own) (h : Untouched w s t) : MetersGuar w own s t :=
  ⟨.inl h.samples, h.readings, .inl h.pending⟩

theorem untouched_committed (w : Uuid) (s : Meters) (record : JournalRecord) :
    Untouched w s (committed s record).2 := by
  unfold committed
  split
  · exact refl w s
  split
  · exact refl w s
  · next hnew =>
    refine ⟨rfl, rfl, rfl, fun _ => id, fun hnodup => ?_⟩
    rw [List.map_append, List.map_singleton]
    refine hnodup.append (List.nodup_singleton _) ?_
    intro key hkey hkey'
    rw [List.mem_singleton] at hkey'
    subst hkey'
    obtain ⟨x, hx, heq⟩ := List.mem_map.mp hkey
    exact hnew (List.any_eq_true.mpr ⟨x, hx, decide_eq_true heq⟩)

theorem stored_untouched {done} (reply : Except PortError α) (h : Untouched w s done) :
    Untouched w s (stored s reply done).2 := by
  rcases stored_cases s reply done with ⟨-, heq⟩ | ⟨fault, -, heq⟩ <;> rw [heq]
  · exact h
  · split
    · exact h
    · exact refl w s

variable {sample : UsageSample}

theorem untouched_recordedSample (h : sample.workloadId ≠ w) (own : Own) (s : Meters) :
    Untouched w s (recordedSample s own sample).2 := by
  unfold recordedSample
  split
  · exact refl w s
  · refine ⟨?_, rfl, ?_, fun _ => id, id⟩
    · simp [samplesOf, h]
    · split
      · exact Function.update_of_ne h.symm _ _
      · rfl

theorem untouched_recordedInterval {interval} (h : interval.workloadId ≠ w) (s : Meters) :
    Untouched w s (recordedInterval s interval).2 := by
  unfold recordedInterval
  split
  · exact refl w s
  · refine ⟨rfl, ?_, Function.update_of_ne h.symm _ _, fun _ => id, id⟩
    simp [intervalsOf, h]

theorem exec_slot (o : Op) (meters : Meters) (own : Own) : (exec o meters own).2.2.slot = own.slot := by
  cases o with
  | usage workload =>
    simp only [exec]
    split <;> rfl
  | _ => rfl

/-- The port calls that record nothing of the workload. -/
def Elsewhere (w : Uuid) : Op → Prop
  | .recordSample sample => sample.workloadId ≠ w
  | .recordInterval interval => interval.workloadId ≠ w
  | _ => True

theorem untouched_exec {o} (h : Elsewhere w o) (own : Own) (s : Meters) :
    Untouched w s (exec o s own).2.1 := by
  cases o with
  | usage workload =>
    simp only [exec]
    split
    · exact ⟨rfl, rfl, rfl, fun _ hx => List.mem_append_left _ hx, id⟩
    · exact refl w s
  | recordSample sample => exact stored_untouched _ (untouched_recordedSample h own s)
  | recordInterval interval => exact stored_untouched _ (untouched_recordedInterval h s)
  | commit record => exact stored_untouched _ (untouched_committed w s record)
  | previousSample _ _ | priceLists | unsettled _ => exact stored_untouched _ (refl w s)
  | workloads _ _ => exact refl w s
  | workload _ => exact refl w s

/-! ## One workload -/

/-- The pass has no sample of the workload whose interval is missing. -/
def Idle (w : Uuid) (slot : ℕ) (s : Meters) (own : Own) : Prop :=
  own.slot = slot ∧ s.pending w ≠ some slot

/-- What every part of a pass ends with. -/
abbrev Ends (w : Uuid) (slot : ℕ) {α : Type} (_ : Except PortError α) (_ s : Meters) (own : Own) : Prop :=
  Idle w slot s own

variable {slot : ℕ}

theorem Idle.rely (h : Idle w slot s own) (hrely : MetersRely w own s t) : Idle w slot t own := by
  obtain ⟨rfl, hidle⟩ := h
  exact ⟨rfl, hrely.free hidle⟩

theorem Idle.untouched (h : Idle w slot s own) (hsame : Untouched w s t) {own'}
    (hown : own'.slot = own.slot) : Idle w slot t own' :=
  ⟨hown.trans h.1, hsame.pending ▸ h.2⟩

theorem safe_elsewhere {β : Type} {p : Code β} (h : p.Only (Elsewhere w))
    (hidle : Idle w slot s own) : Safe (meterProtocol w) (Ends w slot) p b s own := by
  refine Safe.of_only h (fun o s t own ho hidle hinv hrely _ => ?_) hidle
  have hsame := untouched_exec ho own t
  exact ⟨⟨hsame.inv hinv, hsame.guar own⟩, (hidle.rely hrely).untouched hsame (exec_slot o t own)⟩

theorem foldl_later {l : List UsageSample}
    (h : l.Pairwise fun a b => a.collectedAtMillis < b.collectedAtMillis) :
    l.foldl later none = l.getLast? := by
  induction l using List.reverseRecOn with
  | nil => rfl
  | append_singleton l x ih =>
    obtain ⟨hl, -, hx⟩ := List.pairwise_append.mp h
    rw [List.foldl_append, ih hl, List.getLast?_append]
    rcases hlast : l.getLast? with _ | best
    · rfl
    · have hbest : best ∈ l := List.mem_of_mem_getLast? hlast
      simp [later, hx best hbest x (List.mem_singleton.mpr rfl)]

theorem latestBefore_eq_getLast? (hinv : MetersInv w s) {atMillis : Int}
    (h : ∀ x ∈ samplesOf w s.samples, x.collectedAtMillis < atMillis) :
    latestBefore s.samples w atMillis = (samplesOf w s.samples).getLast? := by
  rw [latestBefore, List.filter_eq_self.mpr fun x hx => decide_eq_true (h x hx)]
  exact foldl_later hinv.increasing

/-- A pass that has read the usage of the workload: the samples there were then are not later. -/
structure HasRead (w : Uuid) (reading : Usage) (own : Own) (s : Meters) : Prop where
  given : (w, reading) ∈ s.readings
  seen : own.seen ≤ (samplesOf w s.samples).length
  earlier : ∀ x ∈ (samplesOf w s.samples).take own.seen,
    x = usageSample w reading ∨ x.collectedAtMillis < reading.windowEndMillis

variable {reading : Usage}

theorem HasRead.rely (h : HasRead w reading own s) (hrely : MetersRely w own s t) :
    HasRead w reading own t := by
  obtain ⟨rest, hrest⟩ := hrely.samples
  refine ⟨hrely.readings _ h.given, ?_, ?_⟩
  · rw [← hrest, List.length_append]
    have := h.seen
    omega
  · rw [← hrest, List.take_append_of_le_length h.seen]
    exact h.earlier

theorem hasRead_of_inv (hinv : MetersInv w s) (hmay : MayRead w (.usage w) s)
    (hreading : s.ports.usage w = .ok reading) (own : Own) :
    HasRead w reading { own with seen := (samplesOf w s.samples).length }
      { s with readings := s.readings ++ [(w, reading)] } := by
  refine ⟨List.mem_append_right _ (List.mem_singleton.mpr rfl), le_rfl, fun x hx => ?_⟩
  obtain ⟨earlier, hmem, rfl⟩ := hinv.read x (List.mem_of_mem_take hx)
  rcases hmay rfl reading hreading earlier hmem with rfl | hlt
  · exact .inl rfl
  · exact .inr hlt

theorem recordSample_step (hinv : MetersInv w s) (hworkload : sample.workloadId = w)
    (hread : ∃ reading, (w, reading) ∈ s.readings ∧ sample = usageSample w reading)
    (hpending : s.pending w = none) (hnew : ¬ s.samples.any (·.key = sample.key))
    (hlast : ∀ x ∈ samplesOf w s.samples, x.collectedAtMillis < sample.collectedAtMillis)
    (hfollows : own.follows = ((samplesOf w s.samples).getLast?).isSome) :
    (MetersInv w (recordedSample s own sample).2 ∧
      MetersGuar w own s (recordedSample s own sample).2) ∧
    samplesOf w (recordedSample s own sample).2.samples = samplesOf w s.samples ++ [sample] ∧
    (recordedSample s own sample).2.pending w = if own.follows then some own.slot else none := by
  obtain ⟨done, hdone, hsamples, hpending', hintervals, hreadings, hjournal⟩ :
      ∃ done, recordedSample s own sample = (.ok (), done) ∧
        samplesOf w done.samples = samplesOf w s.samples ++ [sample] ∧
        done.pending w = (if own.follows then some own.slot else none) ∧
        done.intervals = s.intervals ∧ done.readings = s.readings ∧ done.journal = s.journal := by
    rw [recordedSample, if_neg hnew]
    refine ⟨_, rfl, by simp [samplesOf, hworkload], ?_, rfl, rfl, rfl⟩
    dsimp only
    split
    · rw [hworkload, Function.update_self]
    · exact hpending
  rw [hdone]
  refine ⟨⟨⟨?_, ?_, ?_, ?_, hjournal ▸ hinv.journal⟩, ?_⟩, hsamples, hpending'⟩
  · rw [hsamples]
    refine List.pairwise_append.mpr ⟨hinv.increasing, List.pairwise_singleton _ _, ?_⟩
    intro x hx y hy
    rw [List.mem_singleton.mp hy]
    exact hlast x hx
  · rw [hsamples, List.map_append, List.map_singleton]
    refine hinv.ids.append (List.nodup_singleton _) ?_
    intro id hid hid'
    rw [List.mem_singleton] at hid'
    subst hid'
    obtain ⟨x, hx, heq⟩ := List.mem_map.mp hid
    obtain ⟨hmem, hxw⟩ := List.mem_filter.mp hx
    refine hnew (List.any_eq_true.mpr ⟨x, hmem, decide_eq_true ?_⟩)
    rw [UsageSample.key, UsageSample.key, of_decide_eq_true hxw, hworkload, heq]
  · rw [hsamples, hreadings]
    intro x hx
    rcases List.mem_append.mp hx with hx | hx
    · exact hinv.read x hx
    · rw [List.mem_singleton.mp hx]
      exact hread
  · -- the first sample has no interval before it; of any other the interval is still to come
    rw [hintervals, hinv.complete, metered, if_pos hpending, metered, hpending', hsamples, hfollows]
    rcases samplesOf w s.samples with _ | ⟨x, l⟩
    · rfl
    · have hsome : ((x :: l).getLast?).isSome = true := by simp
      simp only [hsome, ↓reduceIte, reduceCtorEq]
      rw [List.dropLast_concat]
  · refine ⟨.inr ⟨hpending, sample, hsamples⟩, fun _ => hreadings ▸ id, .inr ⟨.inl hpending, ?_⟩⟩
    rw [hpending']
    split
    · exact .inr rfl
    · exact .inl rfl

variable {previous : UsageSample}

/-- The interval before the last sample, recorded by the pass that recorded the sample. -/
theorem recordInterval_step {init} (hinv : MetersInv w s) (hpending : s.pending w = some own.slot)
    (hsamples : samplesOf w s.samples = init ++ [previous, sample]) :
    (recordedInterval s (between previous sample)).1 = .ok () ∧
    (MetersInv w (recordedInterval s (between previous sample)).2 ∧
      MetersGuar w own s (recordedInterval s (between previous sample)).2) ∧
    (recordedInterval s (between previous sample)).2.pending w = none := by
  have hworkload : sample.workloadId = w := by
    have hmem : sample ∈ samplesOf w s.samples := by rw [hsamples]; simp
    exact of_decide_eq_true (List.mem_filter.mp hmem).2
  have hmetered : metered w s = init ++ [previous] := by
    rw [metered, hpending, if_neg (Option.some_ne_none _), hsamples,
      show init ++ [previous, sample] = (init ++ [previous]) ++ [sample] by simp, List.dropLast_concat]
  -- an interval with this key would end at a sample that has the same id
  have hnew : ¬ s.intervals.any (·.settlementKey = (between previous sample).settlementKey) := by
    intro hany
    obtain ⟨x, hx, hkey⟩ := List.any_eq_true.mp hany
    obtain ⟨hxw, hid⟩ := UsageInterval.settlementKey_inj (of_decide_eq_true hkey)
    have hmem : x ∈ intervalsOf w s.intervals :=
      List.mem_filter.mpr ⟨hx, decide_eq_true (hxw.trans hworkload)⟩
    rw [hinv.complete, hmetered] at hmem
    obtain ⟨p, hp, rfl⟩ := List.mem_map.mp hmem
    have hids := hinv.ids
    rw [hsamples, show init ++ [previous, sample] = (init ++ [previous]) ++ [sample] by simp,
      List.map_append, List.nodup_append] at hids
    exact hids.2.2 _ (List.mem_map_of_mem (mem_of_mem_steps hp).2) sample.providerSampleId (by simp) hid
  have hintervals : intervalsOf w (s.intervals ++ [between previous sample]) =
      intervalsOf w s.intervals ++ [between previous sample] := by
    simp [intervalsOf, between, hworkload]
  have hnone : Function.update s.pending (between previous sample).workloadId none w = none := by
    rw [show (between previous sample).workloadId = w from hworkload, Function.update_self]
  rw [recordedInterval, if_neg hnew]
  refine ⟨rfl, ⟨⟨hinv.increasing, hinv.ids, hinv.read, ?_, hinv.journal⟩, ?_⟩, hnone⟩
  · rw [hintervals, hinv.complete, hmetered]
    simp only [metered, hnone, if_true, hsamples, steps_append_pair, List.map_append, List.map_singleton]
  · exact ⟨.inl rfl, fun _ => id, .inr ⟨.inr hpending, .inl hnone⟩⟩

/-- The interval after a sample of the workload: the pass has recorded the sample. -/
theorem safe_recordBetween {init} (report : MeterReport) (hslot : own.slot = slot)
    (hinv : MetersInv w s) (hpending : s.pending w = some own.slot)
    (hsamples : samplesOf w s.samples = init ++ [previous, sample]) :
    Safe (meterProtocol w) (Ends w slot) (recordBetween (some previous) sample report) b s own := by
  have hmem : ∀ x ∈ [previous, sample], x.workloadId = w := by
    intro x hx
    have hx : x ∈ samplesOf w s.samples := hsamples ▸ List.mem_append_right _ hx
    exact of_decide_eq_true (List.mem_filter.mp hx).2
  have hlt : previous.collectedAtMillis < sample.collectedAtMillis := by
    have hincreasing := hinv.increasing
    rw [hsamples, List.pairwise_append] at hincreasing
    simpa using hincreasing.2.1
  have hbetween : checked (intervalBetween previous sample) = .ok (between previous sample) := by
    rw [intervalBetween_of_lt ((hmem previous (by simp)).trans (hmem sample (by simp)).symm) hlt]
    rfl
  unfold recordBetween
  dsimp only
  rw [hbetween]
  refine Safe.check (nofun) fun interval h => ?_
  cases h
  refine Safe.step_of fun t hinv hrely hmay => ?_
  obtain ⟨hpending, hsame⟩ := hrely.held hpending
  obtain ⟨hok, hdone, hnone⟩ := recordInterval_step hinv hpending (hsame.trans hsamples)
  have hidle : Idle w slot (recordedInterval t (between previous sample)).2 own := by
    refine ⟨hslot, ?_⟩
    rw [hnone]
    exact Option.some_ne_none _ ∘ Eq.symm
  rcases stored_cases t (recordedInterval t (between previous sample)).1
    (recordedInterval t (between previous sample)).2 with ⟨-, heq⟩ | ⟨fault, hfault, heq⟩
  · rw [hok] at heq
    exact ⟨.ok (), _, own, by simp only [metering, exec, hok, heq], hdone, hidle⟩
  · -- a failing call has taken effect
    have happlied : fault.applied = true := by
      have := hmay.2 (hmem sample (by simp))
      rw [hfault] at this
      exact this
    rw [happlied, if_pos rfl] at heq
    refine ⟨.error fault.error, _, own, by simp only [metering, exec, heq], hdone, ?_⟩
    split <;> exact hidle

/-- A sample of the workload, after its reading and the lookup of the sample before it. -/
theorem safe_recordSample {found} (report : MeterReport) (hidle : Idle w slot s own)
    (hread : HasRead w reading own s) (hfound : (samplesOf w s.samples).length = own.seen →
      found = latestBefore s.samples w reading.windowEndMillis)
    (hfollows : own.follows = found.isSome) :
    Safe (meterProtocol w) (Ends w slot)
      (Prog.perform (Op.recordSample (usageSample w reading)) >>=
        sampled found (usageSample w reading) report) b s own := by
  refine Safe.step_of fun t hinv hrely hmay => ?_
  obtain ⟨hseen, hnone, hfault⟩ := hmay.2 rfl
  have hidle := hidle.rely hrely
  -- nothing was recorded since the reading, so that the lookup is still right
  have hsame : samplesOf w s.samples = samplesOf w t.samples := by
    refine hrely.samples.eq_of_length (le_antisymm hrely.samples.length_le ?_)
    rw [hseen]
    exact hread.seen
  have hfound : found = latestBefore t.samples w reading.windowEndMillis := by
    rw [hfound (hsame ▸ hseen), latestBefore, latestBefore, hsame]
  have hread := hread.rely hrely
  have hearlier := hread.earlier
  rw [List.take_of_length_le hseen.le] at hearlier
  have hfails : ∀ (e : PortError) (t' : Meters), Idle w slot t' own →
      Safe (meterProtocol w) (Ends w slot) (sampled found (usageSample w reading) report (.error e))
        t t' own := by
    intro e t' hidle
    cases e <;> exact hidle
  by_cases hany : t.samples.any (·.key = (usageSample w reading).key)
  · have hrecorded : recordedSample t own (usageSample w reading) = (.error .conflict, t) := if_pos hany
    obtain ⟨r, heq, hr⟩ := stored_same t (.error .conflict : Except PortError Unit)
    obtain ⟨e, rfl⟩ : ∃ e, r = .error e := hr.elim (fun h => ⟨_, h⟩) id
    exact ⟨.error e, t, own, by simp only [metering, exec, hrecorded, heq],
      ⟨hinv, MetersGuar.refl w own t⟩, hfails e t hidle⟩
  · have hlast : ∀ x ∈ samplesOf w t.samples, x.collectedAtMillis < reading.windowEndMillis := by
      intro x hx
      refine (hearlier x hx).resolve_left ?_
      rintro rfl
      exact hany (List.any_eq_true.mpr ⟨_, (List.mem_filter.mp hx).1, decide_eq_true rfl⟩)
    rw [latestBefore_eq_getLast? hinv hlast] at hfound
    obtain ⟨hdone, hsamples, hpending⟩ := recordSample_step hinv rfl
      ⟨reading, hread.given, rfl⟩ hnone hany hlast (hfound ▸ hfollows)
    have hok : (recordedSample t own (usageSample w reading)).1 = .ok () := by
      rw [recordedSample, if_neg hany]
    rcases stored_cases t (recordedSample t own (usageSample w reading)).1
      (recordedSample t own (usageSample w reading)).2 with ⟨-, heq⟩ | ⟨fault, hsome, heq⟩
    · rw [hok] at heq
      refine ⟨.ok (), _, own, by simp only [metering, exec, hok, heq], hdone, ?_⟩
      rcases List.eq_nil_or_concat (samplesOf w t.samples) with hnil | ⟨init, previous, hconcat⟩
      · -- the first sample of the workload
        rw [hnil] at hfound
        subst hfound
        refine ⟨hidle.1, ?_⟩
        rw [hpending, hfollows]
        exact Option.some_ne_none _ ∘ Eq.symm
      · rw [hconcat, List.concat_eq_append, List.getLast?_append] at hfound
        obtain rfl : found = some previous := hfound
        rw [hfollows] at hpending
        have hpair : samplesOf w (recordedSample t own (usageSample w reading)).2.samples =
            init ++ [previous, usageSample w reading] := by
          rw [hsamples, hconcat]
          simp
        exact safe_recordBetween _ hidle.1 hdone.1 hpending hpair
    · have happlied : fault.applied = false := by
        rw [hsome] at hfault
        simpa using hfault
      rw [happlied, if_neg Bool.false_ne_true] at heq
      exact ⟨.error fault.error, t, own, by simp only [metering, exec, heq],
        ⟨hinv, MetersGuar.refl w own t⟩, hfails _ t hidle⟩

theorem safe_collect_self (report : MeterReport) (hidle : Idle w slot s own) :
    Safe (meterProtocol w) (Ends w slot) (collect report w) b s own := by
  refine Safe.step_of fun t hinv hrely hmay => ?_
  have hidle := hidle.rely hrely
  cases hreading : t.ports.usage w with
  | error e =>
    exact ⟨.error e, t, own, by simp only [metering, exec, hreading], ⟨hinv, MetersGuar.refl w own t⟩,
      hidle⟩
  | ok reading =>
    have hsame : Untouched w t { t with readings := t.readings ++ [(w, reading)] } :=
      ⟨rfl, rfl, rfl, fun _ hx => List.mem_append_left _ hx, id⟩
    refine ⟨.ok reading, _, _, by simp only [metering, exec, hreading]; rfl,
      ⟨hsame.inv hinv, hsame.guar own⟩, ?_⟩
    have hread := hasRead_of_inv hinv hmay.1 hreading own
    refine Safe.check (nofun) fun r h => ?_
    cases h
    refine Safe.step_of fun u hinv hrely _ => ?_
    have hidle : Idle w slot _ { own with seen := (samplesOf w t.samples).length } :=
      hidle.untouched hsame rfl
    have hidle := hidle.rely hrely
    obtain ⟨r, heq, hr⟩ := stored_same u
      (.ok (latestBefore u.samples w reading.windowEndMillis) : Except PortError (Option UsageSample))
    refine ⟨r, u, _, by simp only [metering, exec, usageSample, heq]; rfl,
      ⟨hinv, MetersGuar.refl w _ u⟩, ?_⟩
    refine Safe.check (fun _ _ => hidle) fun found hfound => ?_
    rcases hr with rfl | ⟨e, rfl⟩
    · cases hfound
      have hread := hread.rely hrely
      exact safe_recordSample _ hidle ⟨hread.given, hread.seen, hread.earlier⟩ (fun _ => rfl) rfl
    · cases hfound

theorem workloadId_of_intervalBetween {interval}
    (h : checked (intervalBetween previous sample) = .ok interval) :
    interval.workloadId = sample.workloadId := by
  cases hbetween : intervalBetween previous sample with
  | error e =>
    rw [hbetween] at h
    cases h
  | ok found =>
    rw [hbetween] at h
    cases h
    simp only [intervalBetween, bind_eq_ok, pure_eq_ok] at hbetween
    obtain ⟨-, -, -, -, rfl⟩ := hbetween
    rfl

theorem elsewhere_recordBetween {found} (report : MeterReport) (hne : sample.workloadId ≠ w) :
    (recordBetween found sample report).Only (Elsewhere w) := by
  unfold recordBetween
  split
  · trivial
  · refine check fun interval hinterval => perform ?_ fun reply => ?_
    · rw [Elsewhere, workloadId_of_intervalBetween hinterval]
      exact hne
    · split <;> trivial

theorem elsewhere_collect {workload} (report : MeterReport) (hne : workload ≠ w) :
    (collect report workload).Only (Elsewhere w) := by
  refine perform trivial fun _ => check fun reading _ =>
    perform trivial fun _ => check fun found _ => perform hne fun reply => ?_
  unfold sampled
  split
  · exact elsewhere_recordBetween _ hne
  · trivial
  · trivial

theorem safe_collect (report : MeterReport) (workload : Uuid) (hidle : Idle w slot s own) :
    Safe (meterProtocol w) (Ends w slot) (collect report workload) b s own := by
  by_cases hself : workload = w
  · subst hself
    exact safe_collect_self report hidle
  · exact safe_elsewhere (elsewhere_collect report hself) hidle

/-! ## One pass -/

theorem elsewhere_settlePending (config : Config) (report : MeterReport) :
    (settlePending config report).Only (Elsewhere w) := by
  refine perform trivial fun _ => check fun prices _ =>
    perform trivial fun _ => check fun intervals _ => fold ?_ _ _
  intro report interval
  exact check fun _ _ => check fun _ _ => perform trivial fun _ =>
    check fun _ _ => check fun _ _ => check fun _ _ =>
      perform trivial fun _ => check fun _ _ => trivial

/-- **One pass** keeps the protocol from its start to its end. -/
theorem safe_execute (config : Config) (pages : ℕ) (cursor : Option String) (report : MeterReport)
    (hidle : Idle w slot s own) :
    Safe (meterProtocol w) (Ends w slot) (execute config pages cursor report) b s own := by
  induction pages generalizing cursor report b s own with
  | zero => exact hidle
  | succ pages ih =>
    refine Safe.step_of fun t hinv hrely _ => ⟨_, t, own, rfl, ⟨hinv, MetersGuar.refl w own t⟩, ?_⟩
    have hidle := hidle.rely hrely
    refine Safe.check (fun _ _ => hidle) fun page _ => ?_
    have hloop : Safe (meterProtocol w) (fun _ _ s l => Idle w slot s l)
        (Prog.fold collect page.1 report) t t own :=
      Safe.fold (fun workload _ report _ _ _ => safe_collect report workload) hidle
    refine hloop.bind (fun report b s own hidle => ?_) fun _ _ _ _ h => h
    split
    · exact ih _ _ hidle
    · exact safe_elsewhere (elsewhere_settlePending config report) hidle

end

end Aseman.Metering
