import Aseman.Identity.Rotation

/-!
# A proof authenticates once

The replay guard remembers the nonce of an accepted proof until the proof is no longer fresh. Both times
are computed from the window of the proof, with operations of `i64` that saturate; its lifetime is
computed with one that wraps around.
-/

namespace Aseman.Identity.Replay

/-- `purge_expired_nonces`. -/
def purgeExpiredNonces (now : Int) (w : World) : World :=
  { w with
    nonces := w.nonces.filter (now < ·.retainUntilMillis)
    challenges := w.challenges.filter (now < ·.expiresAtMillis) }

inductive Call
  | authenticate (proof : Proof) (body : Bytes)
  | purge
  /-- Any change of what is not a nonce. -/
  | other (keys : KeyDirectory) (challenges : List Challenge) (faults : List (Option Fault))

structure Event where
  now : Int
  call : Call
  accepted : Bool

variable (verifier : Verifier) (policy : VerifierPolicy) (proof : Proof)

def exec (now : Int) (w : World) : Call → Bool × World
  | .authenticate proof body =>
    match authenticateProof verifier now proof body policy w with
    | .ok _ w' => (true, w')
    | .error _ w' => (false, w')
  | .purge => (false, purgeExpiredNonces now w)
  | .other keys challenges faults => (false, { w with keys, challenges, faults })

/-- Time does not run backwards. -/
def Step (w : World) (e : Event) (w' : World) : Prop :=
  w.clock ≤ e.now ∧ (exec verifier policy e.now w e.call).1 = e.accepted ∧
    w' = { (exec verifier policy e.now w e.call).2 with clock := e.now }

/-- The event is a successful call for this proof. -/
def Event.accepts (e : Event) : Bool :=
  e.accepted && match e.call with
    | .authenticate other _ => other = proof
    | _ => false

def retainUntil : Int := proof.window.replayRetentionUntil policy.freshness

/-- The proof can no longer be accepted. -/
def Spent (w : World) : Prop :=
  retainUntil policy proof ≤ w.clock ∨
    ⟨proof.keyId, proof.nonce, retainUntil policy proof⟩ ∈ w.nonces

/-! ## One call -/

variable {verifier policy proof} {w w' : World} {e : Event}

/-- A call that fails leaves the nonces; one that succeeds found the proof fresh and its nonce free. -/
theorem exec_authenticate (verifier : Verifier) (policy : VerifierPolicy) (now : Int) (proof : Proof) (body : Bytes) (w : World) :
    (∃ w', exec verifier policy now w (.authenticate proof body) = (false, w') ∧
      w'.nonces = w.nonces) ∨
    ∃ w', exec verifier policy now w (.authenticate proof body) = (true, w') ∧
      proof.window.check now policy.freshness = .ok () ∧
      (∀ used ∈ w.nonces, used.keyId = proof.keyId → used.nonce = proof.nonce →
        used.retainUntilMillis ≤ now) ∧
      w'.nonces = w.nonces.filter (fun used => !(used.keyId = proof.keyId && used.nonce = proof.nonce)) ++
        [⟨proof.keyId, proof.nonce, retainUntil policy proof⟩] := by
  obtain ⟨r, faults, h⟩ := @Determined.checkProof verifier now proof body policy w.keys w.faults
  have hcheck := h w rfl rfl
  simp only [exec, authenticateProof, bind, EStateM.bind, hcheck]
  cases r with
  | error e => exact .inl ⟨_, rfl, rfl⟩
  | ok key =>
    simp only [ended, recordNonce]
    split_ifs with hlive
    · exact .inl ⟨_, rfl, rfl⟩
    · refine .inr ⟨_, rfl, (checkProof_ok hcheck).2.2.2.2.1, ?_, rfl⟩
      intro used hmem hkey hnonce
      by_contra hlt
      exact hlive (List.any_eq_true.mpr ⟨used, hmem, by simp [hkey, hnonce, not_le.mp hlt]⟩)

variable {window : CredentialWindow}

theorem check_ok {now freshness} (h : window.check now freshness = .ok ()) :
    window.issuedAtMillis < window.expiresAtMillis ∧
      wrappingSub window.expiresAtMillis window.issuedAtMillis ≤ freshness.maxLifetimeMillis ∧
      now < window.replayRetentionUntil freshness := by
  simp only [CredentialWindow.check, bind, Except.bind, throw, throwThe, MonadExceptOf.throw, pure,
    Except.pure] at h
  split_ifs at h with hmalformed hlong _ hexpired
  simp only [Bool.or_eq_true, decide_eq_true_eq, not_or, not_lt, not_le] at hmalformed hlong hexpired
  exact ⟨by omega, hlong, hexpired⟩

theorem Spent.of_nonces {w₁ : World} {now} (hspent : Spent policy proof w) (hclock : w.clock ≤ now)
    (hkeep : now < retainUntil policy proof →
      ⟨proof.keyId, proof.nonce, retainUntil policy proof⟩ ∈ w.nonces →
      ⟨proof.keyId, proof.nonce, retainUntil policy proof⟩ ∈ w₁.nonces) :
    Spent policy proof { w₁ with clock := now } := by
  by_cases hnow : retainUntil policy proof ≤ now
  · exact .inl hnow
  · exact .inr (hkeep (not_le.mp hnow) (hspent.resolve_left fun h => hnow (h.trans hclock)))

theorem Step.spent (h : Step verifier policy w e w') (hspent : Spent policy proof w) :
    Spent policy proof w' ∧ e.accepts proof = false := by
  obtain ⟨now, call, accepted⟩ := e
  obtain ⟨hclock, haccepted, rfl⟩ := h
  dsimp only at haccepted
  subst haccepted
  cases call with
  | authenticate other body =>
    simp only [Event.accepts]
    rcases exec_authenticate verifier policy now other body w with
      ⟨w₁, hauth, hnonces⟩ | ⟨w₁, hauth, hcheck, hfree, hnonces⟩
    · rw [hauth]
      exact ⟨hspent.of_nonces hclock fun _ hmem => hnonces ▸ hmem, rfl⟩
    · -- a nonce that is still remembered is not the one that was recorded
      have hother : now < retainUntil policy proof →
          ⟨proof.keyId, proof.nonce, retainUntil policy proof⟩ ∈ w.nonces →
          ¬ (proof.keyId = other.keyId ∧ proof.nonce = other.nonce) :=
        fun hnow hmem hsame => absurd (hfree _ hmem hsame.1 hsame.2) (not_le.mpr hnow)
      rw [hauth]
      refine ⟨hspent.of_nonces hclock fun hnow hmem => ?_, ?_⟩
      · rw [hnonces]
        refine List.mem_append_left _ (List.mem_filter.mpr ⟨hmem, ?_⟩)
        simpa [imp_iff_not_or] using hother hnow hmem
      · simp only [Bool.true_and, decide_eq_false_iff_not]
        rintro rfl
        have hnow : now < retainUntil policy other := (check_ok hcheck).2.2
        exact hother hnow (hspent.resolve_left fun h => absurd (h.trans hclock) (not_le.mpr hnow))
          ⟨rfl, rfl⟩
  | purge =>
    refine ⟨hspent.of_nonces hclock fun hnow hmem => ?_, rfl⟩
    exact List.mem_filter.mpr ⟨hmem, by simpa using hnow⟩
  | other => exact ⟨hspent.of_nonces hclock fun _ hmem => hmem, rfl⟩

theorem Step.accepts (h : Step verifier policy w e w') (haccepts : e.accepts proof) :
    Spent policy proof w' ∧ proof.window.check e.now policy.freshness = .ok () := by
  obtain ⟨now, call, accepted⟩ := e
  obtain ⟨-, haccepted, rfl⟩ := h
  dsimp only at haccepted
  subst haccepted
  simp only [Event.accepts, Bool.and_eq_true] at haccepts
  cases call with
  | authenticate other body =>
    obtain ⟨hok, hsame⟩ := haccepts
    obtain rfl : other = proof := by simpa using hsame
    rcases exec_authenticate verifier policy now other body w with
      ⟨w₁, hauth, -⟩ | ⟨w₁, hauth, hcheck, -, hnonces⟩
    · simp [hauth] at hok
    · rw [hauth]
      exact ⟨.inr (by simp [hnonces]), hcheck⟩
  | purge => simp at haccepts
  | other => simp at haccepts

/-! ## Runs -/

/-- The lifetime that the check computes is the exact one unless that leaves `i64`. -/
theorem lifetime_le_iff {now} {freshness : FreshnessPolicy}
    (hcheck : window.check now freshness = .ok ()) (hlifetime : freshness.maxLifetimeMillis < 2 ^ 63) :
    window.expiresAtMillis - window.issuedAtMillis ≤ freshness.maxLifetimeMillis ↔
      window.expiresAtMillis - window.issuedAtMillis < 2 ^ 63 := by
  obtain ⟨hlt, hwrapped, -⟩ := check_ok hcheck
  refine ⟨fun h => h.trans_lt hlifetime, fun h => ?_⟩
  rwa [wrappingSub, Int.bmod_eq_of_le (by omega) (by omega)] at hwrapped

theorem lt_of_check {now} {freshness : FreshnessPolicy}
    (hcheck : window.check now freshness = .ok ()) (hskew : 0 ≤ freshness.maxClockSkewMillis)
    (hexpires : -2 ^ 63 ≤ window.expiresAtMillis) :
    now < window.expiresAtMillis + freshness.maxClockSkewMillis := by
  have hlt := (check_ok hcheck).2.2
  unfold CredentialWindow.replayRetentionUntil saturatingAdd at hlt
  omega

/-- **A proof authenticates once, and within its bounds**, in every run under one policy: at most one call
succeeds for it, at a time less than the skew after its expiry. Its exact lifetime is then at most that of
the policy, unless it is so long that it leaves `i64`. -/
theorem authenticates_once {w w' : World} {es : List Event} (h : Run (Step verifier policy) w es w')
    (hskew : 0 ≤ policy.freshness.maxClockSkewMillis)
    (hlifetime : policy.freshness.maxLifetimeMillis < 2 ^ 63)
    (hexpires : -2 ^ 63 ≤ proof.window.expiresAtMillis) :
    es.countP (·.accepts proof) ≤ 1 ∧ ∀ e ∈ es, e.accepts proof →
      e.now < proof.window.expiresAtMillis + policy.freshness.maxClockSkewMillis ∧
      (proof.window.expiresAtMillis - proof.window.issuedAtMillis ≤
          policy.freshness.maxLifetimeMillis ↔
        proof.window.expiresAtMillis - proof.window.issuedAtMillis < 2 ^ 63) := by
  classical
  constructor
  · have hcount := h.countP_le_of (I := fun _ => True)
      (f := fun w => if Spent policy proof w then 0 else 1) (p := (·.accepts proof))
      (q := fun _ => false) (fun _ _ _ _ _ => trivial) (fun w e w' hstep _ => ?_) trivial
    · have hone : (if Spent policy proof w then 0 else 1) ≤ 1 := by split <;> simp
      rw [List.countP_false] at hcount
      simp only [Function.const] at hcount
      omega
    · by_cases hspent : Spent policy proof w
      · simp [hstep.spent hspent, hspent]
      · by_cases haccepts : e.accepts proof
        · simp [hstep.accepts haccepts, hspent, haccepts]
        · simp only [hspent, haccepts]
          split <;> simp
  · induction h with
    | nil => simp
    | snoc _ hstep ih =>
      intro e hmem haccepts
      rcases List.mem_append.mp hmem with hmem | hmem
      · exact ih e hmem haccepts
      · obtain rfl := List.mem_singleton.mp hmem
        have hcheck := (hstep.accepts haccepts).2
        exact ⟨lt_of_check hcheck hskew hexpires, lifetime_le_iff hcheck hlifetime⟩

/-- A proof by the first key of the sample subject, whose window opens at the earliest time. -/
def sampleLong : Proof := { sampleProof .request "first" 1 0 [9] [] with window := ⟨-2 ^ 63, 0, 1⟩ }

def sampleWorld : World := { sampleStart with keys := [sampleFirst none none] }

def sampleAccepted : Event := ⟨0, .authenticate sampleLong [], true⟩

theorem run_sampleAccepted :
    ∃ w, Run (Step sampleVerifier samplePolicy) sampleWorld [sampleAccepted] w :=
  ⟨_, .single ⟨by decide, by decide, rfl⟩⟩

theorem accepted_beyond_lifetime :
    (∃ w, Run (Step sampleVerifier samplePolicy) sampleWorld [sampleAccepted] w) ∧
      sampleAccepted.accepts sampleLong ∧
      samplePolicy.freshness.maxLifetimeMillis <
        sampleLong.window.expiresAtMillis - sampleLong.window.issuedAtMillis :=
  ⟨run_sampleAccepted, by decide, by decide⟩

theorem authenticates_once_sample :
    sampleAccepted.now <
      sampleLong.window.expiresAtMillis + samplePolicy.freshness.maxClockSkewMillis := by
  obtain ⟨w, hrun⟩ := run_sampleAccepted
  exact ((authenticates_once hrun (by decide) (by decide) (by decide)).2 sampleAccepted
    (List.mem_singleton_self _) (by decide)).1

end Aseman.Identity.Replay
