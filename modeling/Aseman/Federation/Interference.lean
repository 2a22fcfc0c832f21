import Aseman.Federation.PeerCalls

/-!
# Federated peers

Two runs of a destination node that differ in the requests of other peers. Another peer's requests leave
alone what a peer can tell as long as they carry other request IDs, so that its responses are the same in
both runs. Recorded answers are found by the request ID alone, so that a request ID of another peer gives
its answer away.
-/

namespace Aseman.Federation

variable (config : Config)

/-! ## All requests -/

section

variable (peer : Uuid) (slots : Nat → Bool)

/-- A step of the service, with the requests that are authenticated as the peer in its slots. -/
structure ServiceStep (s : ServiceSys) (e : ServiceEvent) (t : ServiceSys) : Prop where
  step : (service config).Step s e t
  slot : ∀ i call, e = .start i call → call.slot = i
  named : ∀ i call, e = .start i call → decide (call.peer = peer) = slots i
  source : ∀ i call, e = .start i call → slots i = true → call.request.envelope.sourceNode = peer
  attributed : ∀ i call own o next, e = .step i → s.threads i = some ⟨call, own, .step o next⟩ →
    MayAsk config peer slots own o s.shared

/-- As the condition on request IDs: no request of another peer carries one of the peer's. -/
structure ApartStep (used : Uuid → Prop) (s : ServiceSys) (e : ServiceEvent) (t : ServiceSys) :
    Prop extends ServiceStep config peer slots s e t where
  mine : ∀ i call, e = .start i call → slots i = true → used call.request.envelope.requestId
  apart : ∀ i call, e = .start i call → slots i = false → call.request.envelope.sourceNode ≠ peer →
    ¬ used call.request.envelope.requestId

variable {config peer slots} {used : Uuid → Prop} {s t : ServiceSys} {e : ServiceEvent}

/-- What a finished call has returned. -/
def PeerPost (peer : Uuid) (call : ServiceCall)
    (r : Except FederationHttpError SignedFederationResponse) (_ node : Node) : Prop :=
  ∀ response answer, call.peer = peer → r = .ok response → response.answer = some answer →
    PeerAnswers peer node call.request.envelope.requestId answer

structure PeerSound (config : Config) (peer : Uuid) (used : Uuid → Prop) (slots : Nat → Bool)
    (s : ServiceSys) : Prop where
  good : Good (peersProtocol config peer used slots) (PeerPost peer) s
  tidy : ∀ i th, s.threads i = some th → th.own.slot = i
  finished : ∀ call r, (call, r) ∈ s.finished → PeerPost peer call r s.shared s.shared

theorem PeerSound.step (hs : PeerSound config peer used slots s)
    (h : ApartStep config peer slots used s e t) :
    PeerSound config peer used slots t ∧ (peerObserver config peer used slots).Step s e t := by
  obtain ⟨hgood, hdid⟩ := hs.good.step h.step
    (by
      rintro i call rfl
      have hslot := h.slot i call rfl
      refine (peer_invoke call.slot ?_ ?_).mono ?_
      · rw [hslot]
        exact fun hmine => ⟨h.source i call rfl hmine, h.mine i call rfl hmine⟩
      · rw [hslot]
        exact h.apart i call rfl
      · intro r b u own hends response answer hpeer
        refine hends response answer ?_
        rw [hslot, ← h.named i call rfl]
        exact decide_eq_true hpeer)
    (by
      rintro change rfl hinv
      cases change with
      | ports ports => exact hinv
      | purge now =>
        intro id answer time hid hstored
        exact hinv id answer time hid (Option.filter_eq_some_iff.mp hstored).1)
    (fun i call own o next he hth => h.attributed i call own o next he hth)
    (fun _ _ _ _ _ _ _ _ _ _ _ hguar => hguar.executed)
    (by
      rintro change j th rfl -
      cases h.step
      cases change <;> exact fun _ => id)
  have hle : ∀ x ∈ s.shared.executed, x ∈ t.shared.executed := by
    cases hdid with
    | operation _ _ hguar _ => exact hguar.executed
    | started hshared _ => rw [hshared]; exact fun _ => id
    | environment hshared hfinished =>
      rw [hshared]
      next change => cases change <;> exact fun _ => id
  have hpost : ∀ call r, (call, r) ∈ s.finished → PeerPost peer call r t.shared t.shared := by
    intro call r hmem response answer hslot hr hanswer
    exact (hs.finished call r hmem response answer hslot hr hanswer).mono hle
  refine ⟨⟨hgood, ?_, hdid.finished hpost fun _ _ => id⟩, h.step, h.named, ?_, ?_⟩
  · refine h.step.threads (T := fun i _ own => own.slot = i) hs.tidy ?_ ?_
    · rintro i call rfl
      exact h.slot i call rfl
    · intro i call own o node hown
      exact (exec_own config o node own).1.trans hown
  · intro i call he hslot
    exact only_invoke config (h.source i call he hslot) (h.mine i call he hslot)
  · intro hevent
    cases hdid with
    | operation hthread _ hguar _ =>
      refine hguar.same ?_
      rw [show _ = _ from hs.tidy _ _ hthread]
      exact hevent
    | started hshared _ => rw [hshared]; exact .refl _
    | environment _ _ => cases hevent

theorem PeerSound.run {es} (hs : PeerSound config peer used slots s)
    (hrun : Run (ApartStep config peer slots used) s es t) :
    PeerSound config peer used slots t ∧ Run (peerObserver config peer used slots).Step s es t := by
  induction hrun with
  | nil => exact ⟨hs, .nil⟩
  | snoc _ hstep ih =>
    obtain ⟨hsound, hrun⟩ := ih
    obtain ⟨hsound', hstep'⟩ := hsound.step hstep
    exact ⟨hsound', hrun.snoc hstep'⟩

end

/-- A request from a node, with a key and a nonce of its own. -/
def sampleRequest (source requestId : Uuid) (keyId subject : String) : Request where
  proof :=
    { context := .request
      algorithm := "ed25519"
      keyId := keyId
      keyEpoch := 1
      subject := ⟨.node, source⟩
      audience := "node"
      window := ⟨0, 0, 50⟩
      nonce := []
      requestId := "r"
      action := "read"
      resource := "store:t"
      bodyDigest := []
      signature := [] }
  envelope := { sampleEnvelope with
    requestId := requestId, sourceNode := source, subject := subject, nonce := keyId }
  payload := []

/-- A request of node 3 in slot 1. -/
def samplePeer : ServiceCall := ⟨1, 3, sampleRequest 3 5 "b" "workload:v"⟩

end Aseman.Federation
