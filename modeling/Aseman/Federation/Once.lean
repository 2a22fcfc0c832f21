import Aseman.Federation.Protocol

/-!
# A federated request takes effect at most once

The serve calls together: what one does is what the others rely on, as long as no purge overtakes a call
on its way to its nonce, and a nonce has one expiry. A purge while such a call is on its way breaks this,
and so does a second envelope with the same nonce and a later expiry.
-/

namespace Aseman.Federation

open Identity (Bytes)

/-! ## All calls -/

section

variable {config : Config} {expiry : Uuid × String → Int} {origin : Uuid → Uuid × String}
  {s t : ServeSys} {e : ServeEvent}

theorem NodeInv.surroundings {node} (h : NodeInv expiry origin node) (change : Change)
    (hclock : ∀ ports, change = .ports ports → node.ports.now ≤ ports.now)
    (hpurge : ∀ now, change = .purge now → now ≤ node.ports.now) :
    NodeInv expiry origin (surroundings change node) := by
  cases change with
  | ports ports =>
    refine ⟨fun key hheld => (h.held key hheld).imp_right fun hle => ?_, h.expires, h.ran, h.once,
      h.answers, h.request⟩
    exact hle.trans (hclock ports rfl)
  | purge now =>
    refine ⟨fun key hheld => ?_, fun key time htime => ?_, h.ran, h.once, fun id answer time hanswer => ?_,
      h.request⟩
    · rcases h.held key hheld with hsome | hexpired
      · obtain ⟨time, htime⟩ := Option.ne_none_iff_exists'.mp hsome
        by_cases hlt : time < now
        · rw [h.expires key time htime] at hlt
          exact .inr (hlt.le.trans (hpurge now rfl))
        · refine .inl ?_
          show (node.guard.nonces key).filter _ ≠ none
          simp [htime, hlt]
      · exact .inr hexpired
    · exact h.expires key time (Option.filter_eq_some_iff.mp htime).1
    · exact h.answers id answer time (Option.filter_eq_some_iff.mp hanswer).1

/-- A change around the calls is what a call relies on, where a purge leaves its nonce alone while it is
on its way to it. -/
theorem rely_surroundings {node} (h : NodeInv expiry origin node) (change : Change) (own : Own)
    (hexpires : own.envelope.expiresAtMillis = expiry own.envelope.nonceKey)
    (hclock : ∀ ports, change = .ports ports → node.ports.now ≤ ports.now)
    (hsettled : ∀ now, change = .purge now → own.inTime → ¬ own.envelope.expiresAtMillis < now) :
    NodeRely own node (surroundings change node) := by
  cases change with
  | ports ports =>
    exact ⟨hclock ports rfl, fun _ => id, fun _ => id, fun _ hholder hrun => ⟨hholder, hrun⟩⟩
  | purge now =>
    refine ⟨le_rfl, fun _ => id, fun hin hrecorded hheld => ?_, fun _ hholder hrun => ⟨hholder, hrun⟩⟩
    obtain ⟨time, htime⟩ := Option.ne_none_iff_exists'.mp (hrecorded hheld)
    have hlive := hsettled now rfl hin
    rw [hexpires, ← h.expires _ time htime] at hlive
    show (node.guard.nonces own.envelope.nonceKey).filter _ ≠ none
    simp [htime, hlive]

/-- What a thread keeps of itself belongs to its slot and to its call. -/
def Tidy (expiry : Uuid × String → Int) (i : Nat) (call : ServeCall) (own : Own) : Prop :=
  own.slot = i ∧ own.envelope = call.envelope ∧
    own.envelope.expiresAtMillis = expiry own.envelope.nonceKey

theorem exec_own (config : Config) (o : Op) (node : Node) (own : Own) :
    (exec config o node own).2.2.slot = own.slot ∧
      (exec config o node own).2.2.envelope = own.envelope := by
  cases o with
  | execute envelope payload =>
    simp only [exec]
    split <;> exact ⟨rfl, rfl⟩
  | _ => exact ⟨rfl, rfl⟩

/-- The state that careful runs keep. -/
structure OnceSound (config : Config) (expiry : Uuid × String → Int) (origin : Uuid → Uuid × String)
    (s : ServeSys) : Prop where
  good : Good (onceProtocol config expiry origin)
    (fun call r _ node => ServePost call.envelope.requestId r node) s
  tidy : ∀ i th, s.threads i = some th → Tidy expiry i th.call th.own
  finished : ∀ call r, (call, r) ∈ s.finished → ServePost call.envelope.requestId r s.shared

theorem OnceSound.step (hs : OnceSound config expiry origin s)
    (h : OnceStep config expiry origin s e t) : OnceSound config expiry origin t := by
  have hclock : ∀ change, e = .environment change →
      ∀ ports, change = .ports ports → s.shared.ports.now ≤ ports.now := by
    rintro change rfl ports rfl
    exact h.clock ports rfl
  obtain ⟨hgood, hdid⟩ := hs.good.step h.step
    (by
      rintro i call rfl
      exact safe_serve ⟨call.slot, call.envelope, .fresh⟩ (h.expires i call rfl) (h.request i call rfl))
    (by
      rintro change rfl hinv
      exact hinv.surroundings change (hclock change rfl) fun now heq => h.purge now (by rw [heq]))
    (fun _ _ _ _ _ _ _ => trivial)
    (by
      rintro i call own o next j th rfl hthread hth hne hguar
      refine NodeGuar.rely hguar fun heq => hne ?_
      rw [← (hs.tidy j th hth).1, ← (hs.tidy i _ hthread).1]
      exact heq.symm)
    (by
      rintro change j th rfl hth
      have htidy := hs.tidy j th hth
      cases h.step
      refine rely_surroundings hs.good.inv change th.own htidy.2.2 (hclock change rfl) ?_
      rintro now rfl hin hlt
      unfold Own.inTime at hin
      split at hin
      · next read hstage =>
        have := h.settled now rfl j th hth read hstage hlt
        simp only [decide_eq_true_eq] at hin
        omega
      · cases hin)
  refine ⟨hgood, ?_, ?_⟩
  · refine h.step.threads hs.tidy ?_ ?_
    · rintro i call rfl
      exact ⟨h.slot i call rfl, rfl, h.expires i call rfl⟩
    · rintro i call own o node ⟨hslot, henvelope, hexpires⟩
      obtain ⟨hslot', henvelope'⟩ := exec_own config o node own
      refine ⟨hslot'.trans hslot, henvelope'.trans henvelope, ?_⟩
      rw [show ((serving config).exec o node own).2.2.envelope = own.envelope from henvelope']
      exact hexpires
  · -- Executions are never undone, so that what was returned stays answered.
    have hle : ∀ x ∈ s.shared.executed, x ∈ t.shared.executed := by
      cases hdid with
      | operation _ _ hguar _ =>
        intro x hx
        rcases hguar.executed with heq | ⟨⟨_, heq⟩, -⟩ <;> rw [heq]
        · exact hx
        · exact List.mem_append_left _ hx
      | started hshared _ => rw [hshared]; exact fun _ => id
      | environment hshared hfinished =>
        rw [hshared]
        next change => cases change <;> exact fun _ => id
    refine hdid.finished ?_ fun _ _ => id
    intro call r hmem served answer hserved hanswer
    exact (hs.finished call r hmem served answer hserved hanswer).mono hle

theorem NodeInv.eq_of_nonceKey {node} (h : NodeInv expiry origin node) {x y}
    (hx : x ∈ node.executed) (hy : y ∈ node.executed) (hkey : x.2.1.nonceKey = y.2.1.nonceKey) :
    x = y := by
  have hmem : ∀ z ∈ node.executed, z.2.1.nonceKey = y.2.1.nonceKey →
      z ∈ node.executed.filter fun z => z.2.1.nonceKey = y.2.1.nonceKey := by
    intro z hz heq
    exact List.mem_filter.mpr ⟨hz, by simpa using heq⟩
  have honce := h.once y.2.1.nonceKey
  have hxmem := hmem x hx hkey
  have hymem := hmem y hy rfl
  cases hlist : node.executed.filter fun z => z.2.1.nonceKey = y.2.1.nonceKey with
  | nil =>
    rw [hlist] at hxmem
    cases hxmem
  | cons first rest =>
    rw [hlist, List.length_cons] at honce
    have hrest : rest = [] := List.length_eq_zero_iff.mp (by omega)
    rw [hlist, hrest] at hxmem hymem
    rw [List.mem_singleton.mp hxmem, List.mem_singleton.mp hymem]

theorem OnceSound.atMostOnce (h : OnceSound config expiry origin s) : AtMostOnce s := by
  have hinv : NodeInv expiry origin s.shared := h.good.inv
  refine ⟨fun envelope => ?_, fun call served answer hmem hanswer => ?_⟩
  · refine le_trans (List.Sublist.length_le ?_) (hinv.once envelope.nonceKey)
    refine List.monotone_filter_right s.shared.executed fun x hx => ?_
    simp only [decide_eq_true_eq] at hx ⊢
    exact Prod.ext hx.1 hx.2.2
  · obtain ⟨y, hy, hid, htext⟩ := h.finished call _ hmem served answer rfl hanswer
    refine ⟨⟨y, hy, hid⟩, fun x hx hxid => ?_⟩
    -- One request ID has one nonce, and one nonce has one success.
    have hkey : x.2.1.nonceKey = y.2.1.nonceKey := by
      rw [hinv.request x hx, hinv.request y hy, hxid, hid]
    rw [hinv.eq_of_nonceKey hx hy hkey, htext]

end

def Blank (s : ServeSys) : Prop :=
  s.shared.guard = ⟨fun _ => none, fun _ => none⟩ ∧ s.shared.executed = [] ∧
    s.shared.holder = (fun _ => none) ∧ s.threads = (fun _ => none) ∧ s.finished = []

/-- A federated request takes effect at most once, in every run in which a nonce has one expiry, a request
ID has one source and nonce, and no purge of an expired envelope overtakes a call that read the clock
before its expiry and has not asked for its nonce yet. -/
theorem executed_at_most_once {config : Config} {expiry : Uuid × String → Int}
    {origin : Uuid → Uuid × String} {s t : ServeSys} {es : List ServeEvent} (hblank : Blank s)
    (hrun : Run (OnceStep config expiry origin) s es t) : AtMostOnce t := by
  obtain ⟨hguard, hexecuted, hholder, hthreads, hfinished⟩ := hblank
  have hstart : OnceSound config expiry origin s := by
    refine ⟨⟨⟨?_, ?_, ?_, ?_, ?_, ?_⟩, ?_⟩, ?_, ?_⟩
    · intro key hheld
      rw [hholder] at hheld
      exact absurd rfl hheld
    · intro key time htime
      rw [hguard] at htime
      cases htime
    · intro x hx
      rw [hexecuted] at hx
      cases hx
    · intro key
      rw [hexecuted]
      exact Nat.zero_le _
    · intro id answer time hanswer
      rw [hguard] at hanswer
      cases hanswer
    · intro x hx
      rw [hexecuted] at hx
      cases hx
    · intro i th hth
      rw [hthreads] at hth
      cases hth
    · intro i th hth
      rw [hthreads] at hth
      cases hth
    · intro call r hmem
      rw [hfinished] at hmem
      cases hmem
  exact (hrun.invariant (fun _ _ _ hstep hs => hs.step hstep) hstart).atMostOnce

/-! ## Samples -/

/-- An envelope from node 2 to node 1 that expires at 10. -/
def sampleEnvelope : Envelope where
  requestId := 5
  sourceNode := 2
  destinationNode := 1
  subject := "workload:w"
  target := "store:t"
  action := "read"
  payloadDigest := "sha256:" ++ String.ofList (List.replicate 64 '0')
  issuedAtMillis := 0
  expiresAtMillis := 10
  nonce := "n"
  hopLimit := 0
  version := "1"

def sampleConfig : Config where
  nodeId := 1
  audience := "node"
  verifier := ⟨fun _ => .error .malformed, id, fun _ _ => .ok (), fun _ => []⟩
  parseUuid _ := some 7
  uuidText _ := "r"
  digestText _ := sampleEnvelope.payloadDigest

/-- The surroundings at a time: the peer is known, the policy allows, and an execution tells the time. -/
def samplePorts (now : Int) : Ports where
  now := now
  node _ _ := .ok true
  decide _ := .ok ⟨true, .allowed, none, [], [], "1", "1"⟩
  execute _ _ := .ok (toString now)
  sign _ := .ok "s"
  fault := none
  keyFaults := []

def sampleSys : ServeSys where
  shared := ⟨⟨fun _ => none, fun _ => none⟩, ⟨[], [], [], [], 0⟩, samplePorts 5, [], fun _ => none⟩
  threads _ := none
  finished := []

def sampleCall (slot : Nat) : ServeCall := ⟨slot, sampleEnvelope, []⟩

/-- What a step of a sample has to meet besides being possible. -/
def sampleTest (s : ServeSys) : ServeEvent → Bool
  | .start i call => call.slot = i && call.envelope = sampleEnvelope
  | .environment (.ports ports) => s.shared.ports.now ≤ ports.now
  | .environment (.purge now) => now ≤ s.shared.ports.now
  | .step _ => true

/-- As the sample test, in a run where nothing changes around the calls. -/
def sampleStill (s : ServeSys) : ServeEvent → Bool
  | .environment _ => false
  | e => sampleTest s e

theorem serveStep_of_test {s t e} (hstep : (serving sampleConfig).Step s e t)
    (htest : sampleTest s e) : ServeStep sampleConfig s e t := by
  refine ⟨hstep, ?_, ?_, ?_⟩
  · rintro i call rfl
    simp only [sampleTest, Bool.and_eq_true, decide_eq_true_eq] at htest
    exact htest.1
  · rintro ports rfl
    simpa [sampleTest] using htest
  · rintro now rfl
    simpa [sampleTest] using htest

/-- A call reads the clock and stalls; another one serves the same envelope, which then expires and is
purged; the first one goes on. -/
def sampleOvertaken : List ServeEvent :=
  Event.call 0 (sampleCall 0) 1 ++ Event.call 1 (sampleCall 1) 7 ++
    [.environment (.ports (samplePorts 11)), .environment (.purge 11)] ++ Event.steps 0 6

/-- The same envelope takes effect twice. -/
theorem purged_request_runs_again :
    ∃ t, Run (ServeStep sampleConfig) sampleSys sampleOvertaken t ∧ Blank sampleSys ∧
      t.shared.executed = [(1, sampleEnvelope, "5"), (0, sampleEnvelope, "11")] ∧ ¬ AtMostOnce t := by
  obtain ⟨t, hrun, hexecuted⟩ := Machine.exists_run sampleTest (fun _ _ _ => serveStep_of_test)
    (s := sampleSys) (l := sampleOvertaken) (f := (·.shared.executed))
    (v := [(1, sampleEnvelope, "5"), (0, sampleEnvelope, "11")]) (by decide +kernel)
  refine ⟨t, hrun, ⟨rfl, rfl, rfl, rfl, rfl⟩, hexecuted, fun h => ?_⟩
  have honce := h.1 sampleEnvelope
  rw [hexecuted] at honce
  exact absurd honce (by decide)

/-- Two calls of one envelope, the second one beside the first: one execution, and its answer twice. -/
def sampleRetried : List ServeEvent :=
  Event.call 0 (sampleCall 0) 5 ++ Event.call 1 (sampleCall 1) 3 ++ Event.steps 0 2 ++
    Event.call 2 (sampleCall 2) 2

theorem executed_at_most_once_sample :
    ∃ t, Run (OnceStep sampleConfig (fun _ => 10) fun _ => (2, "n")) sampleSys sampleRetried t ∧
      t.shared.executed = [(0, sampleEnvelope, "5")] ∧ AtMostOnce t := by
  have hsome : ((serving sampleConfig).after sampleStill sampleSys sampleRetried).map
      (·.shared.executed) = some [(0, sampleEnvelope, "5")] := by
    decide +kernel
  obtain ⟨t, hafter, hexecuted⟩ := Option.map_eq_some_iff.mp hsome
  have hrun : Run (OnceStep sampleConfig (fun _ => 10) fun _ => (2, "n")) sampleSys sampleRetried t := by
    refine Machine.run_after (fun s e u hstep htest => ?_) hafter
    cases e with
    | environment change => cases htest
    | step i =>
      refine ⟨serveStep_of_test hstep rfl, ?_, ?_, ?_⟩
      · rintro _ _ ⟨⟩
      · rintro _ _ ⟨⟩
      · rintro _ ⟨⟩
    | start i call =>
      have henvelope : call.envelope = sampleEnvelope := by
        simp only [sampleStill, sampleTest, Bool.and_eq_true, decide_eq_true_eq] at htest
        exact htest.2
      refine ⟨serveStep_of_test hstep htest, ?_, ?_, ?_⟩
      · rintro _ _ ⟨⟩
        rw [henvelope]
        rfl
      · rintro _ _ ⟨⟩
        rw [henvelope]
        rfl
      · rintro _ ⟨⟩
  exact ⟨t, hrun, hexecuted, executed_at_most_once ⟨rfl, rfl, rfl, rfl, rfl⟩ hrun⟩

end Aseman.Federation
