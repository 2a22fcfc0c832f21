import Aseman.Federation.Peers

/-!
# One request beside a peer

What a request leaves alone of what a peer can tell: a request in the peer's own slots is the peer's, and
one in another slot does not authenticate as the peer and carries a request ID the peer does not use.
-/

namespace Aseman.Federation

open Identity (Bytes Proof)

variable (config : Config)

/-! ## What the other calls leave alone -/

section

variable (peer : Uuid) (used : Uuid → Prop) (slots : Nat → Bool)

/-- The answer is one of an execution for the peer's own request. -/
def PeerAnswers (node : Node) (id : Uuid) (answer : String) : Prop :=
  ∃ x ∈ node.executed, x.2.1.requestId = id ∧ x.2.1.sourceNode = peer ∧ x.2.2 = answer

/-- The answers recorded under the peer's request IDs are of its own requests. -/
def PeerInv (node : Node) : Prop :=
  ∀ id answer time, used id → node.guard.answers id = some (answer, time) →
    PeerAnswers peer node id answer

/-- A call in another slot shows the peer nothing, and no call undoes an execution. -/
structure PeerKept (own : Own) (s t : Node) : Prop where
  same : slots own.slot = false → SameFor peer used s t
  executed : ∀ x ∈ s.executed, x ∈ t.executed

/-- A request in another slot does not authenticate as the peer. -/
def MayAsk (own : Own) : Op → Node → Prop
  | .authenticate proof body, node => slots own.slot = false → own.envelope.sourceNode = peer →
      ∀ subject, (authenticate config node proof body).1 ≠ .ok subject
  | _, _ => True

def peersProtocol : Protocol (service config) where
  Inv := PeerInv peer used
  Rely _ s t := ∀ x ∈ s.executed, x ∈ t.executed
  May own o node := MayAsk config peer slots own o node
  Guar own _ _ s t := PeerKept peer used slots own s t
  refl _ _ _ := id
  trans _ _ _ _ h h' x hx := h' x (h x hx)

/-- A call in the peer's slots is the peer's, with a request ID of its own; a call in another slot is
another peer's, with another request ID. -/
structure Attributed (own : Own) : Prop where
  mine : slots own.slot = true → own.envelope.sourceNode = peer ∧ used own.envelope.requestId
  other : slots own.slot = false → own.envelope.sourceNode ≠ peer ∧ ¬ used own.envelope.requestId

variable {config peer used slots} {own : Own} {s t b : Node} {payload : Bytes}

theorem PeerKept.refl (own : Own) (s : Node) : PeerKept peer used slots own s s :=
  ⟨fun _ => .refl s, fun _ => id⟩

theorem PeerAnswers.mono {id answer} (h : PeerAnswers peer s id answer)
    (hle : ∀ x ∈ s.executed, x ∈ t.executed) : PeerAnswers peer t id answer := by
  obtain ⟨x, hx, hrest⟩ := h
  exact ⟨x, hle x hx, hrest⟩

theorem PeerInv.of_answers (h : PeerInv peer used s) (hle : ∀ x ∈ s.executed, x ∈ t.executed)
    (hanswers : t.guard.answers = s.guard.answers) : PeerInv peer used t := by
  intro id answer time hid hstored
  rw [hanswers] at hstored
  exact (h id answer time hid hstored).mono hle

theorem peer_guarded {α : Type} (a : α) (hinv : PeerInv peer used s)
    (hdone : PeerInv peer used t ∧ PeerKept peer used slots own s t) :
    PeerInv peer used (guarded s a t).2 ∧ PeerKept peer used slots own s (guarded s a t).2 := by
  rcases guarded_cases s a t with heq | ⟨e, node, heq, rfl | rfl⟩
  · rw [heq]
    exact hdone
  · rw [heq]
    exact hdone
  · rw [heq]
    exact ⟨hinv, .refl own node⟩

theorem nonceKey_ne (hne : own.envelope.sourceNode ≠ peer) (nonce : String) :
    (peer, nonce) ≠ own.envelope.nonceKey := by
  intro heq
  exact hne (congrArg Prod.fst heq).symm

theorem peer_remembered (hown : Attributed peer used slots own) (hinv : PeerInv peer used s) :
    PeerInv peer used (remembered s own own.envelope) ∧
      PeerKept peer used slots own s (remembered s own own.envelope) := by
  have hanswers : (remembered s own own.envelope).guard.answers = s.guard.answers := by
    simp only [remembered, Guard.rememberNonce]
    split <;> rfl
  refine ⟨hinv.of_answers (fun _ => id) hanswers, fun hslot => ?_, fun _ => id⟩
  refine (SameFor.refl s).of_guard rfl rfl rfl rfl (fun nonce => ?_) fun id _ => by rw [hanswers]
  have hne := nonceKey_ne (hown.other hslot).1 nonce
  simp only [remembered, Guard.rememberNonce]
  split
  · rfl
  · exact (Function.update_of_ne hne _ _).symm

theorem peer_forgotten (hown : Attributed peer used slots own) (hinv : PeerInv peer used s) :
    PeerInv peer used (forgotten s own.envelope) ∧
      PeerKept peer used slots own s (forgotten s own.envelope) := by
  refine ⟨hinv.of_answers (fun _ => id) rfl, fun hslot => ?_, fun _ => id⟩
  refine (SameFor.refl s).of_guard rfl rfl rfl rfl (fun nonce => ?_) fun _ _ => rfl
  exact (Function.update_of_ne (nonceKey_ne (hown.other hslot).1 nonce) _ _).symm

theorem peer_ran (hinv : PeerInv peer used s) (answer : String) :
    PeerInv peer used (ran s own own.envelope answer) ∧
      PeerKept peer used slots own s (ran s own own.envelope answer) := by
  have hle : ∀ x ∈ s.executed, x ∈ (ran s own own.envelope answer).executed :=
    fun x hx => List.mem_append_left _ hx
  refine ⟨hinv.of_answers hle rfl, fun _ => ?_, hle⟩
  exact (SameFor.refl s).of_guard rfl rfl rfl rfl (fun _ => rfl) fun _ _ => rfl

theorem peer_answered {answer} (time : Int) (hown : Attributed peer used slots own)
    (hinv : PeerInv peer used s)
    (hanswer : slots own.slot = true → PeerAnswers peer s own.envelope.requestId answer) :
    PeerInv peer used (answered s own.envelope.requestId answer time) ∧
      PeerKept peer used slots own s (answered s own.envelope.requestId answer time) := by
  have hother : ∀ id, id ≠ own.envelope.requestId →
      (answered s own.envelope.requestId answer time).guard.answers id = s.guard.answers id := by
    intro id hne
    simp only [answered, recordAnswer_answers, Function.update_of_ne hne]
  refine ⟨fun id text expires hid hstored => ?_, fun hslot => ?_, fun _ => id⟩
  · by_cases heq : id = own.envelope.requestId
    · subst heq
      cases hslot : slots own.slot with
      | false => exact absurd hid (hown.other hslot).2
      | true =>
        simp only [answered, recordAnswer_answers, Function.update_self, Option.some.injEq] at hstored
        cases hrow : s.guard.answers own.envelope.requestId with
        | none =>
          rw [hrow] at hstored
          cases hstored
          exact hanswer hslot
        | some row =>
          rw [hrow] at hstored
          subst hstored
          exact hinv _ _ _ hid hrow
    · rw [hother id heq] at hstored
      exact hinv id text expires hid hstored
  · refine (SameFor.refl s).of_guard rfl rfl rfl rfl (fun nonce => ?_) fun id hid => ?_
    · simp only [answered, recordAnswer_nonces]
    · refine (hother id ?_).symm
      rintro rfl
      exact (hown.other hslot).2 hid

/-! ## One request -/

/-- What the peer is answered comes from its own requests. -/
def PeerEnds {α : Type} (answerOf : α → Option String) {ε : Type} (slots : Nat → Bool) (peer : Uuid)
    (slot : Nat) (id : Uuid) (r : Except ε α) (_ node : Node) (_ : Own) : Prop :=
  ∀ a answer, slots slot = true → r = .ok a → answerOf a = some answer → PeerAnswers peer node id answer

theorem peerEnds_error {α ε : Type} {answerOf slot id} (e : ε) (b s : Node) (own : Own) :
    PeerEnds answerOf slots peer slot id (.error e : Except ε α) b s own := by
  rintro a answer - ⟨⟩

theorem peerEnds_none {α ε : Type} {answerOf slot id a} (hnone : answerOf a = none) (b s : Node)
    (own : Own) : PeerEnds answerOf slots peer slot id (.ok a : Except ε α) b s own := by
  rintro a answer - ⟨⟩ hanswer
  rw [hnone] at hanswer
  cases hanswer

theorem peer_ask {β ε : Type} {o : Op} {f : Op.Ans o → Code ε β}
    {R : Except ε β → Node → Node → Own → Prop}
    (h : ∀ t, PeerInv peer used t → (∀ x ∈ s.executed, x ∈ t.executed) →
      ∃ a own', exec config o t own = (a, t, own') ∧
        Safe (peersProtocol config peer used slots) R (f a) t t own') :
    Safe (peersProtocol config peer used slots) R (Prog.perform o >>= f) b s own := by
  refine .step_of fun t hinv hrely _ => ?_
  obtain ⟨a, own', heq, hrest⟩ := h t hinv hrely
  exact ⟨a, t, own', heq, ⟨hinv, .refl own t⟩, hrest⟩

/-- A guard call of which only the change of the node matters, and then the rest. -/
theorem peer_change {α β ε : Type} {o : Op} {f : Op.Ans o → Code ε β} (answer : Node → α)
    (done : Node → Node) {R : Except ε β → Node → Node → Own → Prop}
    (hnode : ∀ t, (exec config o t own).2.1 = (guarded t (answer t) (done t)).2)
    (hdone : ∀ t, PeerInv peer used t → (∀ x ∈ s.executed, x ∈ t.executed) →
      PeerInv peer used (done t) ∧ PeerKept peer used slots own t (done t))
    (h : ∀ t t' a own', (∀ x ∈ s.executed, x ∈ t'.executed) → own'.slot = own.slot →
      own'.envelope = own.envelope → Safe (peersProtocol config peer used slots) R (f a) t t' own') :
    Safe (peersProtocol config peer used slots) R (Prog.perform o >>= f) b s own := by
  refine .step_of fun t hinv hrely _ => ?_
  have hkept := peer_guarded (answer t) hinv (hdone t hinv hrely)
  rw [← hnode] at hkept
  obtain ⟨hslot, henvelope⟩ := exec_own config o t own
  exact ⟨_, _, _, rfl, hkept, h t _ _ _ (fun x hx => hkept.2.executed x (hrely x hx)) hslot henvelope⟩

theorem Attributed.congr {own'} (h : Attributed peer used slots own) (hslot : own'.slot = own.slot)
    (henvelope : own'.envelope = own.envelope) : Attributed peer used slots own' := by
  constructor
  · rw [hslot, henvelope]
    exact h.mine
  · rw [hslot, henvelope]
    exact h.other

section

variable {slot : Nat} {envelope : Envelope} (hown : Attributed peer used slots own)
  (hslot : own.slot = slot) (henvelope : own.envelope = envelope)
include hown hslot henvelope

theorem peer_effect :
    Safe (peersProtocol config peer used slots)
      (PeerEnds Served.answer slots peer slot envelope.requestId) (effect envelope payload) b s own := by
  subst hslot henvelope
  refine .step_of fun t hinv _ _ => ?_
  cases hexec : t.ports.execute own.envelope payload with
  | error e =>
    refine ⟨.error e, t, own, by simp only [service, exec, hexec], ⟨hinv, .refl own t⟩, ?_⟩
    refine peer_change (fun _ => ()) (fun t => forgotten t own.envelope)
      (fun _ => rfl) (fun t hinv _ => peer_forgotten hown hinv) fun _ _ reply _ _ _ _ => ?_
    exact .check (fun _ _ => peerEnds_error _ _ _ _) fun _ _ => peerEnds_error _ _ _ _
  | ok answer =>
    refine ⟨.ok answer, _, { own with stage := .past }, by simp only [service, exec, hexec],
      peer_ran hinv answer, ?_⟩
    have hentry : slots own.slot = true →
        PeerAnswers peer (ran t own own.envelope answer) own.envelope.requestId answer := by
      intro hslot
      refine ⟨(own.slot, own.envelope, answer), ?_, rfl, (hown.mine hslot).1, rfl⟩
      exact List.mem_append_right _ (List.mem_singleton.mpr rfl)
    have hpast : Attributed peer used slots { own with stage := .past } := hown.congr rfl rfl
    refine peer_change (fun _ => ())
      (fun t => answered t own.envelope.requestId answer own.envelope.expiresAtMillis)
      (fun _ => rfl) (fun u hinv hrely => ?_) fun _ u reply _ hle _ _ => ?_
    · exact peer_answered own.envelope.expiresAtMillis hpast hinv fun hslot => (hentry hslot).mono hrely
    · refine .check (fun _ _ => peerEnds_error _ _ _ _) fun _ _ => ?_
      rintro served text hslot ⟨⟩ htext
      cases htext
      exact (hentry hslot).mono hle

theorem peer_reauthorize (now : Int) :
    Safe (peersProtocol config peer used slots)
      (PeerEnds Served.answer slots peer slot envelope.requestId)
      (reauthorize config envelope payload now) b s own := by
  refine peer_ask fun t _ _ => ⟨_, _, rfl, ?_⟩
  refine .check (fun _ _ => peerEnds_error _ _ _ _) fun known _ => ?_
  split
  · exact peerEnds_none rfl _ _ _
  split
  · exact peerEnds_none rfl _ _ _
  split
  · exact peerEnds_none rfl _ _ _
  refine peer_ask fun u _ _ => ⟨_, _, rfl, ?_⟩
  refine .check (fun _ _ => peerEnds_error _ _ _ _) fun decision _ => ?_
  split
  · exact peerEnds_none rfl _ _ _
  · exact peer_effect hown hslot henvelope

theorem peer_serve :
    Safe (peersProtocol config peer used slots)
      (PeerEnds Served.answer slots peer slot envelope.requestId)
      (serve config envelope payload) b s own := by
  subst hslot henvelope
  refine peer_ask fun t _ _ => ⟨_, _, rfl, ?_⟩
  refine peer_ask fun u hinv hrely => ?_
  rcases guarded_cases u ((u.guard.answers own.envelope.requestId).map (·.1)) u with
    heq | ⟨e, u', heq, hcases⟩
  · refine ⟨_, _, by simp only [exec, heq]; rfl, ?_⟩
    refine .check (fun _ _ => peerEnds_error _ _ _ _) fun found hfound => ?_
    cases hfound
    cases hrow : u.guard.answers own.envelope.requestId with
    | some row =>
      rintro served answer hslot ⟨⟩ hanswer
      cases hanswer
      exact hinv _ _ row.2 (hown.mine hslot).2 hrow
    | none =>
      have hpending : Attributed peer used slots { own with stage := .pending t.ports.now } :=
        hown.congr rfl rfl
      refine peer_change (fun t => (t.guard.rememberNonce own.envelope).1)
        (fun v => remembered v { own with stage := .pending t.ports.now } own.envelope)
        (fun _ => rfl) (fun v hinv _ => peer_remembered hpending hinv) fun _ v reply own' _ h h' => ?_
      refine .check (fun _ _ => peerEnds_error _ _ _ _) fun first _ => ?_
      split
      · exact peerEnds_none rfl _ _ _
      · exact peer_reauthorize (hpending.congr h h') h h' _
  · have hu : u' = u := hcases.elim id id
    subst hu
    exact ⟨.error e, _, by simp only [exec, heq]; rfl, peerEnds_error _ _ _ _⟩

end

theorem authenticate_frame (config : Config) (node : Node) (proof : Proof) (body : Bytes) :
    (authenticate config node proof body).2.guard = node.guard ∧
      (authenticate config node proof body).2.executed = node.executed := by
  unfold authenticate
  split <;> exact ⟨rfl, rfl⟩

theorem answer_responseTo (envelope : Envelope) (served : Served) :
    (responseTo envelope served).answer = served.answer := by
  cases served <;> rfl

/-- **One request**: in a slot of the peer it is the peer's, and in another slot either of another peer
with another request ID or not authenticated. -/
theorem peer_invoke {request : Request} (slot : Nat)
    (hmine : slots slot = true →
      request.envelope.sourceNode = peer ∧ used request.envelope.requestId)
    (hother : slots slot = false → request.envelope.sourceNode ≠ peer →
      ¬ used request.envelope.requestId) :
    Safe (peersProtocol config peer used slots)
      (PeerEnds SignedFederationResponse.answer slots peer slot request.envelope.requestId)
      (invoke config request) b s ⟨slot, request.envelope, .fresh⟩ := by
  unfold invoke
  split
  · exact peerEnds_error _ _ _ _
  split
  · exact peerEnds_error _ _ _ _
  next hnot =>
  have hbinds : binds config request.proof request.envelope := by simpa using hnot
  have hsubject := subject_of_binds hbinds
  refine .step_of fun t hinv _ hmay =>
    ⟨(authenticate config t request.proof request.payload).1, _, _, rfl, ?_, ?_⟩
  · obtain ⟨hguard, hexecuted⟩ := authenticate_frame config t request.proof request.payload
    have hle : ∀ x ∈ t.executed,
        x ∈ (authenticate config t request.proof request.payload).2.executed := by
      rw [hexecuted]
      exact fun _ => id
    refine ⟨hinv.of_answers hle (congrArg Guard.answers hguard), fun hslot => ?_, hle⟩
    refine sameFor_authenticate_other ?_
    by_cases hsource : request.envelope.sourceNode = peer
    · exact .inr (hmay hslot hsource)
    · refine .inl fun heq => hsource ?_
      rw [hsubject] at heq
      exact congrArg Subject.id heq
  · cases hreply : (authenticate config t request.proof request.payload).1 with
    | error failure => exact peerEnds_error _ _ _ _
    | ok subject =>
      have hown : Attributed peer used slots ⟨slot, request.envelope, .fresh⟩ := by
        refine ⟨hmine, fun hslot => ?_⟩
        have hsource : request.envelope.sourceNode ≠ peer :=
          fun heq => hmay hslot heq subject hreply
        exact ⟨hsource, hother hslot hsource⟩
      refine (peer_serve hown rfl rfl).attempt fun r u v own hends => ?_
      cases r with
      | error e => exact peerEnds_error _ _ _ _
      | ok served =>
        refine peer_ask fun w _ hle => ⟨_, _, rfl, ?_⟩
        split
        · exact peerEnds_error _ _ _ _
        · rintro response answer hslot ⟨⟩ hanswer
          refine (hends served answer hslot rfl ?_).mono hle
          rwa [← answer_responseTo request.envelope]

end

end Aseman.Federation
