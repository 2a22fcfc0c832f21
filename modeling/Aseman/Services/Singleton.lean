import Aseman.Lib.Calls
import Aseman.Services.Coordination

/-!
# Singleton work

`aseman-application`, `singleton.rs`: a replica does its work only under a lease. The coordination port may
answer anything. A renewal that fails is the one error that leaves the lease in the replica's hands.
-/

namespace Aseman.Services.Leased

open Coordination (Lease Acquisition)

/-- What a saturating operation of `i64` makes of its exact result. -/
def saturate (n : Int) : Int := max (-2 ^ 63) (min n (2 ^ 63 - 1))

inductive LeaseStanding
  | held
  | renew
  | stop

/-- `coordination::standing`. -/
def leaseStanding (lease : Lease) (margin : Int) (now : Int64) : LeaseStanding :=
  let deadline := saturate (lease.expiresAtMillis - margin)
  let half := saturate
    (lease.acquiredAtMillis + (saturate (deadline - lease.acquiredAtMillis)).tdiv 2)
  if deadline ≤ now.toInt then .stop else if half ≤ now.toInt then .renew else .held

inductive Pass
  | ran (token : Nat)
  | standby (holder : String)
  | yielded
  deriving DecidableEq

/-- What the port would answer to the calls of one pass. -/
structure Answers where
  now : Except PortError Int64
  acquire : Except PortError Acquisition
  renew : Except PortError (Option Lease)
  release : Except PortError Unit

/-- `Singleton`, without what it passes to the port. -/
structure Singleton where
  margin : Int
  held : Option Lease

variable (s : Singleton) (answers : Answers)

def Singleton.acquire : Except PortError Pass × Singleton :=
  match answers.acquire with
  | .error e => (.error e, s)
  | .ok (.granted lease) => (.ok (.ran lease.token), { s with held := some lease })
  | .ok (.held holder _) => (.ok (.standby holder), s)

def Singleton.standing : Except PortError Pass × Singleton :=
  match answers.now with
  | .error e => (.error e, { s with held := none })
  | .ok now =>
    match s.held with
    | none => s.acquire answers
    | some lease =>
      match leaseStanding lease s.margin now with
      | .held => (.ok (.ran lease.token), s)
      | .renew =>
        match answers.renew with
        | .error e => (.error e, s)
        | .ok (some renewed) =>
          (.ok (.ran renewed.token), { s with held := some renewed })
        | .ok none => (.ok .yielded, { s with held := none })
      -- the release is best effort
      | .stop => (.ok .yielded, { s with held := none })

/-- The pass, and what the work made of its token. -/
def Singleton.run {T} (work : Nat → T) : Except PortError (Pass × Option T) × Singleton :=
  match s.standing answers with
  | (.error e, s') => (.error e, s')
  | (.ok (.ran token), s') => (.ok (.ran token, some (work token)), s')
  | (.ok other, s') => (.ok (other, none), s')

def Singleton.resign : Except PortError Unit × Singleton :=
  match s.held with
  | some _ => (answers.release, { s with held := none })
  | none => (.ok (), s)

inductive Call
  | run (answers : Answers)
  | resign (answers : Answers)

/-- A pass is answered with itself and the token that the work was called with. -/
abbrev Outcome := Except PortError (Option (Pass × Option Nat))

def exec (s : Singleton) : Call → Outcome × Singleton
  | .run answers => (s.run answers id).map (Except.map some) id
  | .resign answers => (s.resign answers).map (Except.map fun _ => none) id

structure Event where
  call : Call
  outcome : Outcome

def Step (s : Singleton) (e : Event) (t : Singleton) : Prop := exec s e.call = (e.outcome, t)

/-! ## Passes -/

/-- The pass acquires the lease. -/
def Acquires (s : Singleton) (call : Call) (lease : Lease) : Prop :=
  ∃ answers, call = .run answers ∧ s.held = none ∧ answers.acquire = .ok (.granted lease)

/-- The pass asks for a renewal, and this is the answer. -/
def Renews (s : Singleton) (call : Call) (answer : Except PortError (Option Lease)) : Prop :=
  ∃ answers old now, call = .run answers ∧ s.held = some old ∧ answers.now = .ok now ∧
    leaseStanding old s.margin now = .renew ∧ answers.renew = answer

/-- The pass runs the work under the lease that is held, before the margin of its expiry. -/
def Keeps (s : Singleton) (call : Call) (lease : Lease) : Prop :=
  ∃ answers now, call = .run answers ∧ s.held = some lease ∧ answers.now = .ok now ∧
    now.toInt < lease.expiresAtMillis - s.margin

/-- What a call did. -/
inductive Did (s : Singleton) (e : Event) (t : Singleton) : Prop
  | ran {lease} (hlease : Acquires s e.call lease ∨ Renews s e.call (.ok (some lease)) ∨
      Keeps s e.call lease) (hpass : e.outcome = .ok (some (.ran lease.token, some lease.token)))
      (hheld : t = { s with held := some lease })
  | unrenewed {error} (hfailed : Renews s e.call (.error error)) (herror : e.outcome = .error error)
      (hheld : t = s)
  | dropped (hidle : ∀ pass token, e.outcome ≠ .ok (some (pass, some token))) (hheld : t = { s with held := none })

variable {s : Singleton} {e : Event} {t : Singleton}

theorem lt_of_leaseStanding {lease margin now} (h : leaseStanding lease margin now ≠ .stop) :
    now.toInt < lease.expiresAtMillis - margin := by
  unfold leaseStanding saturate at h
  dsimp only at h
  have hlow := now.le_toInt
  split at h
  · exact absurd rfl h
  · omega

theorem Step.did (h : Step s e t) : Did s e t := by
  obtain ⟨call, outcome⟩ := e
  have hdropped : ∀ {outcome}, (∀ pass token, outcome ≠ .ok (some (pass, some token))) →
      s.held = none → Did s ⟨call, outcome⟩ s :=
    fun hidle hnone => .dropped hidle (by rw [← hnone])
  cases call with
  | run answers =>
    simp only [Step, exec, Singleton.run, Singleton.standing, Prod.map, id] at h
    cases hnow : answers.now with
    | error error =>
      simp only [hnow] at h
      cases h
      exact .dropped (by simp [Except.map]) rfl
    | ok now =>
      cases hheld : s.held with
      | none =>
        simp only [hnow, hheld, Singleton.acquire] at h
        rcases hacquire : answers.acquire with error | lease | holder <;> simp only [hacquire] at h <;>
          cases h
        · exact hdropped (by simp [Except.map]) hheld
        · exact .ran (.inl ⟨answers, rfl, hheld, hacquire⟩) rfl rfl
        · exact hdropped (by simp [Except.map]) hheld
      | some lease =>
        cases hstanding : leaseStanding lease s.margin now with
        | held =>
          simp only [hnow, hheld, hstanding] at h
          cases h
          have hkeeps : Keeps s (.run answers) lease :=
            ⟨answers, now, rfl, hheld, hnow, lt_of_leaseStanding (by simp [hstanding])⟩
          exact .ran (.inr (.inr hkeeps)) rfl (by rw [← hheld])
        | renew =>
          simp only [hnow, hheld, hstanding] at h
          rcases hrenew : answers.renew with error | _ | renewed <;> simp only [hrenew] at h <;> cases h
          · exact .unrenewed ⟨answers, lease, now, rfl, hheld, hnow, hstanding, hrenew⟩ rfl rfl
          · exact .dropped (by simp [Except.map]) rfl
          · exact .ran (.inr (.inl ⟨answers, lease, now, rfl, hheld, hnow, hstanding, hrenew⟩)) rfl rfl
        | stop =>
          simp only [hnow, hheld, hstanding] at h
          cases h
          exact .dropped (by simp [Except.map]) rfl
  | resign answers =>
    simp only [Step, exec, Singleton.resign] at h
    split at h <;> cases h
    · exact .dropped (by cases answers.release <;> simp [Except.map]) rfl
    · next hnone => exact hdropped (by simp [Except.map]) hnone

/-! ## Runs -/

theorem Renews.exec_eq {call error} (h : Renews s call (.error error)) :
    exec s call = (.error error, s) ∧ s.held ≠ none := by
  obtain ⟨answers, old, now, rfl, hheld, hnow, hstanding, hrenew⟩ := h
  simp [exec, Singleton.run, Singleton.standing, hnow, hheld, hstanding, hrenew, Except.map]

theorem Step.idle (h : Step s e t) (hnone : s.held = none)
    (hacquires : ∀ lease, ¬ Acquires s e.call lease) :
    t.held = none ∧ ∀ pass token, e.outcome ≠ .ok (some (pass, some token)) := by
  cases h.did with
  | ran hlease =>
    rcases hlease with hlease | ⟨_, _, _, -, hsome, -⟩ | ⟨_, _, -, hsome, -⟩
    · exact absurd hlease (hacquires _)
    · rw [hnone] at hsome
      cases hsome
    · rw [hnone] at hsome
      cases hsome
  | unrenewed hfailed =>
    obtain ⟨_, _, _, -, hsome, -⟩ := hfailed
    rw [hnone] at hsome
    cases hsome
  | dropped hidle hheld => exact ⟨by rw [hheld], hidle⟩

/-- **Singleton work runs under a live lease.** The work runs with the token of a lease that this pass
acquired or renewed, or that is held and before the margin of its expiry. After an error no lease is held,
unless the error is that of a renewal. After `yielded` no work runs before a lease is acquired. -/
theorem work_runs_under_lease {s t : Singleton} {e : Event} (hstep : Step s e t) :
    (∀ pass token, e.outcome = .ok (some (pass, some token)) → ∃ lease : Lease, lease.token = token ∧
      (Acquires s e.call lease ∨ Renews s e.call (.ok (some lease)) ∨ Keeps s e.call lease)) ∧
    ((∀ error, e.outcome = .error error → t.held = none) ↔
      ∀ error, ¬ Renews s e.call (.error error)) ∧
    (e.outcome = .ok (some (.yielded, none)) → ∀ es u e' v,
      Run (fun s e t => Step s e t ∧ ∀ lease, ¬ Acquires s e.call lease) t es u → Step u e' v →
      ∀ pass token, e'.outcome = .ok (some (pass, some token)) → ∃ lease, Acquires u e'.call lease) := by
  refine ⟨fun pass token htoken => ?_, ⟨fun hcleared error hfailed => ?_, fun hrenewed error herror => ?_⟩,
    fun hyielded es u e' v hrest hnext => ?_⟩
  · cases hstep.did with
    | ran hlease hpass =>
      rw [htoken] at hpass
      cases hpass
      exact ⟨_, rfl, hlease⟩
    | unrenewed _ herror => simp [htoken] at herror
    | dropped hidle => exact absurd htoken (hidle pass token)
  · obtain ⟨hexec, hheld⟩ := hfailed.exec_eq
    obtain ⟨houtcome, rfl⟩ := Prod.mk.inj (hstep.symm.trans hexec)
    exact hheld (hcleared error houtcome)
  · cases hstep.did with
    | ran _ hpass => simp [herror] at hpass
    | unrenewed hfailed => exact absurd hfailed (hrenewed _)
    | dropped _ hheld => rw [hheld]
  · have hnone : t.held = none := by
      cases hstep.did with
      | ran _ hpass => simp [hyielded] at hpass
      | unrenewed _ herror => simp [hyielded] at herror
      | dropped _ hheld => rw [hheld]
    have hstill : u.held = none :=
      hrest.invariant (I := fun s => s.held = none) (fun _ _ _ h hs => (h.1.idle hs h.2).1) hnone
    intro pass token htoken
    by_contra hacquires
    exact (hnext.idle hstill fun lease hlease => hacquires ⟨lease, hlease⟩).2 pass token htoken

def sampleLease : Lease := ⟨"relay", "a", 3, 0, 100⟩

def unreachable : PortError := .failed "unreachable"

/-- The lease is more than half spent, and the port answers nothing but the time. -/
def sampleAnswers : Answers := ⟨.ok 50, .error unreachable, .error unreachable, .error unreachable⟩

def sampleEvent : Event := ⟨.run sampleAnswers, .error unreachable⟩

theorem sample_step : Step ⟨10, some sampleLease⟩ sampleEvent ⟨10, some sampleLease⟩ := by rfl

theorem lease_kept_after_error :
    ∃ s e t, Step s e t ∧ e.outcome = .error unreachable ∧ t.held = some sampleLease :=
  ⟨_, _, _, sample_step, rfl, rfl⟩

theorem work_runs_under_lease_sample :
    ¬ ∀ error, ¬ Renews ⟨10, some sampleLease⟩ sampleEvent.call (.error error) :=
  fun h => Option.some_ne_none _ ((work_runs_under_lease sample_step).2.1.2 h _ rfl)

end Aseman.Services.Leased
