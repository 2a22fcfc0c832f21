import Aseman.Identity.Settled
import Aseman.Lib.Calls

/-!
# Rotated and revoked keys

Runs of the identity use cases with nondecreasing times. The use cases leave a rotation unsettled when
they stop halfway, when the newest key is revoked and when a key is introduced under epoch 0, so the
theorem is about runs without these.
-/

namespace Aseman.Identity

open KeyDirectory

/-! ## Runs -/

inductive Request where
  | authenticate (proof : Proof) (body : Bytes) (policy : VerifierPolicy)
  | rotate (subject : Subject) (purpose : KeyPurpose) (key : NewKey)
  | revoke (keyId : String)
  | issueChallenge (subject : Subject) (audience : String) (lifetimeMillis : Int) (nonce : Bytes)
  | enroll (legacy : LegacyIdentity) (proof : Proof) (key : NewKey) (policy : VerifierPolicy)
  | introduce (proof : Proof) (introduction : Introduction) (policy : VerifierPolicy)

/-- A request at a time, with what happens at its directory calls. -/
structure Call where
  now : Int
  faults : List (Option Fault)
  request : Request

/-- How a call ended, and the keys it registered. -/
structure Reply where
  result : Except IdentityFailure Unit
  added : KeyDirectory

structure Event where
  call : Call
  reply : Reply

def outcome {α : Type} : EStateM.Result IdentityFailure World α → Except IdentityFailure α
  | .ok a _ => .ok a
  | .error e _ => .error e

section

variable (verifier : Verifier)

def handle (now : Int) : Request → UseCase Unit
  | .authenticate proof body policy => do
      let _ ← authenticateProof verifier now proof body policy
  | .rotate subject purpose key => do let _ ← rotateKey verifier now subject purpose key
  | .revoke keyId => revokeKey now keyId
  | .issueChallenge subject audience lifetimeMillis nonce => do
      let _ ← issueChallenge now subject audience lifetimeMillis nonce
  | .enroll legacy proof key policy => do
      let _ ← enrollCanonicalKey verifier now legacy proof key policy
  | .introduce proof introduction policy => do
      let _ ← acceptIntroduction verifier now proof introduction policy

def exec (w : World) (call : Call) : Reply × World :=
  let result := handle verifier call.now call.request { w with faults := call.faults }
  let w' := endState result
  (⟨outcome result, w'.keys.drop w.keys.length⟩, { w' with clock := call.now })

def Step (w : World) (e : Event) (w' : World) : Prop :=
  w.clock ≤ e.call.now ∧ exec verifier w e.call = (e.reply, w')

end

def Event.rotates (e : Event) (r : Rotation) : Prop :=
  match e.call.request with
  | .rotate subject purpose _ =>
    subject = r.subject ∧ purpose = r.purpose ∧ e.call.now = r.since ∧
      ∃ key ∈ e.reply.added, key.epoch.epoch = r.epoch
  | _ => False

instance (e : Event) (r : Rotation) : Decidable (e.rotates r) := by
  obtain ⟨⟨now, faults, request⟩, reply⟩ := e
  cases request <;> (unfold Event.rotates; infer_instance)

def Rotated (es : List Event) (r : Rotation) : Prop := ∃ e ∈ es, e.rotates r

instance (es : List Event) (r : Rotation) : Decidable (Rotated es r) := by
  unfold Rotated; infer_instance

/-! ## What a run has to avoid -/

/-- A rotation or enrolment that fails has left the directory alone, only a superseded key is revoked, no
introduction claims epoch 0, and no subject has more epochs than the directory reads. -/
def Careful (w : World) (call : Call) (reply : Reply) (w' : World) : Prop :=
  Paged w'.keys ∧ match call.request with
    | .rotate .. | .enroll .. => reply.result = .ok () ∨ w'.keys = w.keys
    | .revoke keyId => ∀ key ∈ w.keys, key.keyId = keyId → Superseded w.keys call.now key
    | .introduce _ introduction _ => introduction.epoch ≠ 0
    | .authenticate .. | .issueChallenge .. => True

def CarefulStep (verifier : Verifier) (w : World) (e : Event) (w' : World) : Prop :=
  Step verifier w e w' ∧ Careful w e.call e.reply w'

instance (w : World) (call : Call) (reply : Reply) (w' : World) :
    Decidable (Careful w call reply w') := by
  obtain ⟨now, faults, request⟩ := call
  cases request <;> (unfold Careful; infer_instance)

/-! ## Careful runs keep their rotations settled -/

section

variable {verifier : Verifier} {es : List Event} {w₀ w w' : World} {e : Event}

theorem discarded_ok {α : Type} {x : UseCase α} {u : Unit}
    (h : (do let _ ← x : UseCase Unit) w = .ok u w') : ∃ a, x w = .ok a w' := by
  simp only [bind_apply_ok, pure_apply_ok] at h
  obtain ⟨a, _, hx, -, rfl⟩ := h
  exact ⟨a, hx⟩

theorem outcome_eq_ok {α : Type} {result : EStateM.Result IdentityFailure World α} {a : α} :
    outcome result = .ok a ↔ result = .ok a (endState result) := by
  cases result <;> simp [outcome, endState]

/-- The state in which a call starts. -/
def begun (w : World) (call : Call) : World := { w with faults := call.faults }

variable (h : Step verifier w e w')

include h

theorem Step.keys_eq :
    w'.keys = (endState (handle verifier e.call.now e.call.request (begun w e.call))).keys := by
  have heq := congrArg Prod.snd h.2
  rw [show w' = (exec verifier w e.call).2 from heq.symm]
  rfl

theorem Step.clock_eq : w'.clock = e.call.now := by
  have heq := congrArg Prod.snd h.2
  rw [show w' = (exec verifier w e.call).2 from heq.symm]
  rfl

theorem Step.added_eq : e.reply.added = w'.keys.drop w.keys.length := by
  rw [h.keys_eq, show e.reply = (exec verifier w e.call).1 from (congrArg Prod.fst h.2).symm]
  rfl

theorem Step.result_eq :
    e.reply.result = outcome (handle verifier e.call.now e.call.request (begun w e.call)) := by
  rw [show e.reply = (exec verifier w e.call).1 from (congrArg Prod.fst h.2).symm]
  rfl

theorem Step.sound_of_same (hs : Sound (Rotated es) e.call.now w.keys) (hsame : w'.keys = w.keys) :
    Sound (Rotated (es ++ [e])) w'.clock w'.keys := by
  rw [h.clock_eq, hsame]
  refine hs.mono ?_
  rintro r ⟨e', hmem, hr⟩
  rcases List.mem_append.mp hmem with hmem | hmem
  · exact ⟨e', hmem, hr⟩
  · obtain rfl := List.mem_singleton.mp hmem
    have hadded : e'.reply.added = [] := by rw [h.added_eq, hsame, List.drop_length]
    unfold Event.rotates at hr
    split at hr
    · obtain ⟨-, -, -, key, hkey, -⟩ := hr
      rw [hadded] at hkey
      cases hkey
    · exact hr.elim

theorem Step.sound_of_other
    (hother : ∀ r, ¬ e.rotates r) (hs : Sound (Rotated es) e.call.now w'.keys) :
    Sound (Rotated (es ++ [e])) w'.clock w'.keys := by
  rw [h.clock_eq]
  refine hs.mono ?_
  rintro r ⟨e', hmem, hr⟩
  rcases List.mem_append.mp hmem with hmem | hmem
  · exact ⟨e', hmem, hr⟩
  · obtain rfl := List.mem_singleton.mp hmem
    exact absurd hr (hother r)

omit h

theorem CarefulStep.rotate {now : Int} {faults : List (Option Fault)} {reply : Reply}
    {subject : Subject} {purpose : KeyPurpose} {key : NewKey}
    (h : CarefulStep verifier w ⟨⟨now, faults, .rotate subject purpose key⟩, reply⟩ w')
    (hs : Sound (Rotated es) now w.keys) :
    Sound (Rotated (es ++ [⟨⟨now, faults, .rotate subject purpose key⟩, reply⟩])) w'.clock
      w'.keys := by
  obtain ⟨hstep, hpaged, hcareful⟩ := h
  rcases hcareful with hok | hsame
  · rw [hstep.result_eq, outcome_eq_ok] at hok
    obtain ⟨record, hrotate⟩ := discarded_ok hok
    obtain ⟨description, keys₁, hlegacy, hrecord, hregister, hretire⟩ := rotateKey_ok hrotate
    rw [← hstep.keys_eq] at hretire
    obtain ⟨hsound, f, hkeys, hsame⟩ := hs.rotate hlegacy hrecord hregister hretire hpaged
    rw [hstep.clock_eq]
    refine hsound.mono ?_
    rintro r ⟨e', hmem, hr⟩
    rcases List.mem_append.mp hmem with hmem | hmem
    · exact .inl ⟨e', hmem, hr⟩
    · obtain rfl := List.mem_singleton.mp hmem
      obtain ⟨rfl, rfl, rfl, new, hnew, hepoch⟩ := hr
      -- The only key that the call added is its record.
      have hadded : reply.added = [f record] := by
        rw [show reply.added = _ from hstep.added_eq, hkeys, List.map_append]
        exact List.drop_left' (List.length_map f)
      rw [show (Event.mk _ reply).reply.added = [f record] from hadded] at hnew
      rw [List.mem_singleton.mp hnew, hsame.epoch] at hepoch
      exact .inr (by rw [hepoch])
  · exact hstep.sound_of_same hs hsame

theorem CarefulStep.enroll {now : Int} {faults : List (Option Fault)} {reply : Reply}
    {legacy : LegacyIdentity} {proof : Proof} {key : NewKey} {policy : VerifierPolicy}
    (h : CarefulStep verifier w ⟨⟨now, faults, .enroll legacy proof key policy⟩, reply⟩ w')
    (hs : Sound (Rotated es) now w.keys) :
    Sound (Rotated (es ++ [⟨⟨now, faults, .enroll legacy proof key policy⟩, reply⟩])) w'.clock
      w'.keys := by
  obtain ⟨hstep, hpaged, hcareful⟩ := h
  rcases hcareful with hok | hsame
  · rw [hstep.result_eq, outcome_eq_ok] at hok
    obtain ⟨record, henroll⟩ := discarded_ok hok
    obtain ⟨old, description, keys₁, -, hlegacy, hall, rfl, hregister, -, hrecord⟩ :=
      enrollCanonicalKey_ok henroll
    rw [← hstep.keys_eq] at hrecord
    have hnone := hs.epochs_eq_nil hall
    exact hstep.sound_of_other (fun _ => id) (hs.enroll hlegacy hnone (hregister hnone) hrecord hpaged)
  · exact hstep.sound_of_same hs hsame

theorem Sound.step (hs : Sound (Rotated es) w.clock w.keys) (h : CarefulStep verifier w e w') :
    Sound (Rotated (es ++ [e])) w'.clock w'.keys := by
  have hs : Sound (Rotated es) e.call.now w.keys := hs.later h.1.1
  obtain ⟨⟨now, faults, request⟩, reply⟩ := e
  have hkeys := h.1.keys_eq
  cases request with
  | authenticate proof body policy =>
    refine h.1.sound_of_same hs (hkeys.trans ?_)
    exact Reads.bind (.authenticateProof now proof body policy) (fun _ => .pure _) (begun w _)
  | issueChallenge subject audience lifetime nonce =>
    refine h.1.sound_of_same hs (hkeys.trans ?_)
    exact Reads.bind (.issueChallenge now subject audience lifetime nonce) (fun _ => .pure _)
      (begun w _)
  | rotate subject purpose key => exact h.rotate hs
  | enroll legacy proof key policy => exact h.enroll hs
  | revoke keyId =>
    rcases revokeKey_changes now keyId (begun w ⟨now, faults, .revoke keyId⟩) with hsame | hrevoke
    · exact h.1.sound_of_same hs (hkeys.trans hsame)
    · rw [show (endState (revokeKey now keyId _)).keys = w'.keys from hkeys.symm] at hrevoke
      exact h.1.sound_of_other (fun _ => id) (hs.revoke h.2.2 hrevoke)
  | introduce proof introduction policy =>
    have hchanges : Changes _ (acceptIntroduction verifier now proof introduction policy) :=
      acceptIntroduction_changes now proof introduction policy
    rcases hchanges.before (fun _ => Reads.pure ()) (begun w _) with hsame | ⟨description, hok⟩
    · exact h.1.sound_of_same hs (hkeys.trans hsame)
    · have hregister : w.keys.register (introducedRecord description introduction) = .ok w'.keys :=
        hok.trans (congrArg _ hkeys.symm)
      refine h.1.sound_of_other (fun _ => id) (hs.register hregister h.2.1 rfl rfl ?_ ?_)
      · exact fun hzero => h.2.2 (Fin.ext hzero)
      · exact introduction.epoch.isLt

theorem sound_of_run (hempty : w₀.keys = []) (hrun : Run (CarefulStep verifier) w₀ es w) :
    Sound (Rotated es) w.clock w.keys := by
  induction hrun with
  | nil =>
    rw [hempty]
    refine ⟨List.Pairwise.nil, ?_, ?_, ?_, ?_, ?_⟩
    · intro key hmem
      cases hmem
    · intro key hmem
      cases hmem
    · intro key hmem
      cases hmem
    · intro key hmem
      cases hmem
    · rintro r ⟨e, hmem, -⟩
      cases hmem
  | snoc _ hstep ih => exact ih.step hstep

end

/-! ## Which proofs are accepted -/

def Authenticates (verifier : Verifier) (w : World) (now : Int) (proof : Proof)
    (policy : VerifierPolicy) : Prop :=
  ∃ faults body, (exec verifier w ⟨now, faults, .authenticate proof body policy⟩).1.result = .ok ()

/-- Some call of `EnrollCanonicalKey` accepts the proof. -/
def Enrolls (verifier : Verifier) (w : World) (now : Int) (proof : Proof) : Prop :=
  ∃ faults legacy key policy,
    (exec verifier w ⟨now, faults, .enroll legacy proof key policy⟩).1.result = .ok ()

section

variable {verifier : Verifier} {rotated : Rotation → Prop} {w : World} {now : Int} {proof : Proof}
  {policy : VerifierPolicy} {key : IdentityKey}

variable (hs : Sound rotated w.clock w.keys)

include hs

theorem Authenticates.accepted (hkey : key ∈ w.keys)
    (hid : key.keyId = proof.keyId) (h : Authenticates verifier w now proof policy) :
    ∃ current, key.epoch.revokedBy now = false ∧
      (key.epoch.epoch = current ∨ nextEpoch key.epoch.epoch = current ∧
        key.epoch.inOverlap now policy.rotation) ∧
      ∀ other ∈ w.keys, other.epoch.of key.epoch.subject key.epoch.purpose →
        other.epoch.inForce now → other.epoch.epoch ≤ current := by
  obtain ⟨faults, body, h⟩ := h
  obtain ⟨subject, hauth⟩ := discarded_ok (outcome_eq_ok.mp h)
  obtain ⟨named, hnamed, hsubject, hepoch, haccept, -⟩ := authenticateProof_ok hauth
  have hsame : named = key := by
    have := hs.distinct.key_eq hkey
    rw [hid] at this
    exact Option.some.inj (hnamed.symm.trans this)
  subst hsame
  obtain ⟨found, current, hfound, hrevoked, hcurrent, haccepted⟩ := acceptEpoch_eq_ok haccept
  have hmem : ∀ other ∈ w.keys, other.epoch.of named.epoch.subject named.epoch.purpose →
      other ∈ w.keys.epochs proof.subject named.epoch.purpose := by
    intro other hother hof
    rw [hsubject] at hof
    exact (mem_epochs hs.paged).mpr ⟨hother, hof⟩
  -- The epoch number finds the same key among the epochs of its subject and purpose.
  have hself : found = named.epoch := by
    obtain ⟨other, hother, rfl⟩ := List.mem_map.mp (List.mem_of_find?_eq_some hfound)
    obtain ⟨hother, hof⟩ := (mem_epochs hs.paged).mp hother
    have hnumber : other.epoch.epoch = proof.keyEpoch := by simpa using List.find?_some hfound
    have hofnamed : named.epoch.of proof.subject named.epoch.purpose := by
      simp [KeyEpoch.of, hsubject]
    rw [hs.distinct.eq_of_clashes hother hkey
      (clashes_of_epoch hof hofnamed (hnumber.trans hepoch.symm))]
  rw [hself, ← hepoch] at haccepted
  refine ⟨current, hself ▸ hrevoked, haccepted, fun other hother hof hforce => ?_⟩
  refine (List.max?_eq_some_iff.mp hcurrent).2 _ (List.mem_map_of_mem ?_)
  exact List.mem_filter.mpr ⟨List.mem_map_of_mem (hmem other hother hof), hforce⟩

/-- Once the overlap of a settled rotation has passed, no earlier epoch is accepted. -/
theorem Sound.not_authenticates {r} (hr : rotated r)
    (hclock : w.clock ≤ now) (hnow : -2 ^ 63 ≤ now) (hkey : key ∈ w.keys)
    (hid : key.keyId = proof.keyId) (hof : key.epoch.of r.subject r.purpose)
    (hearlier : key.epoch.epoch < r.epoch) (hpassed : r.since + policy.rotation.overlapMillis ≤ now) :
    ¬ Authenticates verifier w now proof policy := by
  intro h
  obtain ⟨current, -, haccepted, hmax⟩ := h.accepted hs hkey hid
  have hsettled := hs.settled r hr
  have hcurrent : r.epoch ≤ current := by
    obtain ⟨newest, hmem, hof', hepoch, hbefore, hrevoked⟩ := hsettled.current
    refine hepoch.trans (hmax newest hmem ?_ ?_)
    · simp only [KeyEpoch.of, Bool.and_eq_true, decide_eq_true_eq] at hof hof' ⊢
      exact ⟨hof'.1.trans hof.1.symm, hof'.2.trans hof.2.symm⟩
    · simp [KeyEpoch.inForce, hrevoked, hbefore.trans hclock]
  rcases haccepted with heq | ⟨heq, hoverlap⟩
  · omega
  · unfold nextEpoch at heq
    obtain ⟨retired, hretired, hle⟩ := hsettled.prior key hkey hof (by omega)
    rw [KeyEpoch.inOverlap, hretired] at hoverlap
    have hlt : now < saturatingAdd retired policy.rotation.overlapMillis := of_decide_eq_true hoverlap
    unfold saturatingAdd at hlt
    omega

theorem Sound.not_enrolls (hkey : key ∈ w.keys)
    (hid : key.keyId = proof.keyId) : ¬ Enrolls verifier w now proof := by
  rintro ⟨faults, legacy, newKey, policy, h⟩
  obtain ⟨record, henroll⟩ := discarded_ok (outcome_eq_ok.mp h)
  obtain ⟨old, description, keys₁, hold, -, hall, -, hregister, -⟩ := enrollCanonicalKey_ok henroll
  obtain ⟨-, hfresh⟩ := register_ok (hregister (hs.epochs_eq_nil hall))
  have hclash := hfresh key hkey
  rw [clashes_of_keyId (hid.trans hold.symm)] at hclash
  cases hclash

end

/-- In the state at the end of a run, a proof with an epoch that was rotated out an overlap ago is not
accepted, nor one with a revoked key. -/
def KeysStop (verifier : Verifier) (es : List Event) (w : World) : Prop :=
  ∀ now proof key, w.clock ≤ now → -2 ^ 63 ≤ now → key ∈ w.keys → key.keyId = proof.keyId →
    (∀ r policy, Rotated es r → key.epoch.of r.subject r.purpose → key.epoch.epoch < r.epoch →
      r.since + policy.rotation.overlapMillis ≤ now → ¬ Authenticates verifier w now proof policy) ∧
    (key.epoch.revokedBy now →
      (∀ policy, ¬ Authenticates verifier w now proof policy) ∧ ¬ Enrolls verifier w now proof)

/-- Rotated and revoked keys stop working, in every run whose rotations and enrolments run to their end or
change nothing, whose revocations are of superseded keys, and whose introductions count from 1. -/
theorem rotated_and_revoked_keys_stop {verifier : Verifier} {es : List Event} {w₀ w : World}
    (hempty : w₀.keys = []) (hrun : Run (CarefulStep verifier) w₀ es w) : KeysStop verifier es w := by
  intro now proof key hclock hnow hkey hid
  have hs := sound_of_run hempty hrun
  refine ⟨fun r policy hr hof hearlier hpassed => ?_, fun hrevoked => ⟨fun policy h => ?_, ?_⟩⟩
  · exact hs.not_authenticates hr hclock hnow hkey hid hof hearlier hpassed
  · obtain ⟨_, hlive, -⟩ := h.accepted hs hkey hid
    rw [hrevoked] at hlive
    cases hlive
  · exact hs.not_enrolls hkey hid

/-! ## Samples -/

/-- A verifier that knows one legacy key and two canonical ones and accepts every signature. -/
def sampleVerifier : Verifier where
  describeKey
    | [0] => .ok ⟨"legacy", true⟩
    | [1] => .ok ⟨"first", false⟩
    | [2] => .ok ⟨"second", false⟩
    | _ => .error .malformed
  bodyDigest := id
  verify _ _ := .ok ()
  introductionBytes _ := []

def samplePolicy : VerifierPolicy := ⟨"node", ⟨0, 1000⟩, ⟨100⟩⟩

def sampleSubject : Subject := ⟨.user, 1⟩

def sampleProof (context : SignatureContext) (keyId : String) (keyEpoch : Nat) (issued : Int)
    (nonce body : Bytes) : Proof where
  context := context
  algorithm := "ed25519"
  keyId := keyId
  keyEpoch := keyEpoch
  subject := sampleSubject
  audience := "node"
  window := ⟨issued, issued, issued + 100⟩
  nonce := nonce
  requestId := "r"
  action := "a"
  resource := "o"
  bodyDigest := body
  signature := []

def sampleStart : World := ⟨[], [], [], [], 0⟩

/-- Two rotations; what happens at the directory calls of the second one is given. -/
def sampleRotations (faults : List (Option Fault)) : List Call :=
  [⟨0, [], .rotate sampleSubject .authentication ⟨[1], none⟩⟩,
    ⟨10, faults, .rotate sampleSubject .authentication ⟨[2], none⟩⟩]

def sampleRun (calls : List Call) : List Event × World :=
  callsFrom (exec sampleVerifier) Event.mk sampleStart calls

/-- An enrolment of the legacy key. -/
def sampleEnroll (now : Int) (nonce : Bytes) (faults : List (Option Fault)) : Call :=
  ⟨now, faults, .enroll ⟨sampleSubject, [0]⟩
    (sampleProof .challenge "legacy" 0 now nonce [1]) ⟨[1], none⟩ samplePolicy⟩

/-- The first epoch in the directory, as it is recorded with these times. -/
def sampleFirst (retired revoked : Option Int) : IdentityKey :=
  ⟨"first", [1], ⟨sampleSubject, .authentication, 1, 0, none, retired, revoked, false⟩⟩

/-- The retirement of the first epoch fails. -/
def sampleUnretired : List Call := sampleRotations [none, none, some ⟨.unavailable "store", false⟩]

def sampleRevoked : List Call := sampleRotations [] ++ [⟨20, [], .revoke "second"⟩]

/-- An enrolment fails after it registered the legacy key, and the legacy key is revoked. -/
def sampleHalfway : List Call :=
  [⟨0, [], .issueChallenge sampleSubject "node" 100 [7]⟩,
    sampleEnroll 1 [7] [none, none, some ⟨.unavailable "store", false⟩],
    ⟨2, [], .revoke "legacy"⟩, ⟨3, [], .issueChallenge sampleSubject "node" 100 [8]⟩]

theorem run_sample {calls}
    (h : CallsMeet (exec sampleVerifier) (fun w call => w.clock ≤ call.now) sampleStart calls) :
    Run (Step sampleVerifier) sampleStart (sampleRun calls).1 (sampleRun calls).2 :=
  run_callsFrom_of_meet (fun _ _ hle => ⟨hle, rfl⟩) h

/-- Long after the second rotation, a proof by the first key is accepted. -/
theorem not_keysStop_of_first {calls retired}
    (hrotated : Rotated (sampleRun calls).1 ⟨sampleSubject, .authentication, 2, 10⟩)
    (hmem : sampleFirst retired none ∈ (sampleRun calls).2.keys)
    (hclock : (sampleRun calls).2.clock ≤ 1000000)
    (hok : (exec sampleVerifier (sampleRun calls).2 ⟨1000000, [],
      .authenticate (sampleProof .request "first" 1 1000000 [9] []) [] samplePolicy⟩).1.result =
        .ok ()) : ¬ KeysStop sampleVerifier (sampleRun calls).1 (sampleRun calls).2 := by
  intro h
  refine (h 1000000 (sampleProof .request "first" 1 1000000 [9] []) _ hclock (by decide) hmem
    rfl).1 _ samplePolicy hrotated ?_ ?_ ?_ ⟨[], [], hok⟩
  · simp [sampleFirst, KeyEpoch.of]
  · exact Nat.one_lt_two
  · decide

/-- The calls are a run of the directory after which a stopped key is accepted. -/
def AcceptsStopped (calls : List Call) : Prop :=
  Run (Step sampleVerifier) sampleStart (sampleRun calls).1 (sampleRun calls).2 ∧
    ¬ KeysStop sampleVerifier (sampleRun calls).1 (sampleRun calls).2

/-- Keys that should have stopped working are accepted: the first epoch long after it was rotated out,
where its retirement failed or where the second epoch was revoked; and a revoked legacy key, where the
first enrolment with it failed halfway. -/
theorem stopped_keys_accepted :
    AcceptsStopped sampleUnretired ∧ AcceptsStopped sampleRevoked ∧ AcceptsStopped sampleHalfway := by
  refine ⟨⟨run_sample (by decide +kernel), ?_⟩, ⟨run_sample (by decide +kernel), ?_⟩,
    ⟨run_sample (by decide +kernel), fun h => ?_⟩⟩
  · exact not_keysStop_of_first (by decide +kernel) (show sampleFirst none none ∈ _ by decide +kernel)
      (by decide +kernel) (by decide +kernel)
  · exact not_keysStop_of_first (by decide +kernel)
      (show sampleFirst (some 10) none ∈ _ by decide +kernel) (by decide +kernel) (by decide +kernel)
  · have hmem : (⟨"legacy", [0], ⟨sampleSubject, .authentication, 0, 1, none, some 1, some 2, true⟩⟩ :
        IdentityKey) ∈ (sampleRun sampleHalfway).2.keys := by decide +kernel
    have hok : (exec sampleVerifier (sampleRun sampleHalfway).2 (sampleEnroll 4 [8] [])).1.result =
        .ok () := by decide +kernel
    exact ((h 4 (sampleProof .challenge "legacy" 0 4 [8] [1]) _ (by decide +kernel) (by decide) hmem
      rfl).2 (by decide)).2 ⟨_, _, _, _, hok⟩

/-- Two rotations that run to their end: the first epoch stops working. -/
theorem rotated_and_revoked_keys_stop_sample : let es := (sampleRun (sampleRotations [])).1
    let w := (sampleRun (sampleRotations [])).2
    Rotated es ⟨sampleSubject, .authentication, 2, 10⟩ ∧ sampleFirst (some 10) none ∈ w.keys ∧
      KeysStop sampleVerifier es w := by
  refine ⟨by decide +kernel, by decide +kernel, ?_⟩
  have hmeet : CallsMeet (exec sampleVerifier)
      (fun w call => w.clock ≤ call.now ∧
        Careful w call (exec sampleVerifier w call).1 (exec sampleVerifier w call).2)
      sampleStart (sampleRotations []) := by decide +kernel
  exact rotated_and_revoked_keys_stop rfl
    (run_callsFrom_of_meet (fun _ _ h => ⟨⟨h.1, rfl⟩, h.2⟩) hmeet)

end Aseman.Identity
