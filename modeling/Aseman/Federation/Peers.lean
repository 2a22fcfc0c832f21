import Aseman.Federation.Once
import Aseman.Identity.Directory
import Aseman.Lib.Isolation

/-!
# What a federated peer can tell

What the requests of one peer can tell of a destination node is the nonces of its own keys, the nonces of
its own envelopes and the answers recorded under its own request IDs: on two nodes that agree on these,
its requests get the same answers and leave nodes that agree on these.
-/

namespace Aseman.Federation

open Identity

open Identity (Bytes Proof KeyDirectory UsedNonce)

/-! ## The service -/

/-- A call of `invoke`: where it runs, and the peer it counts for. -/
structure ServiceCall where
  slot : Nat
  peer : Uuid
  request : Request
  deriving DecidableEq

variable (config : Config)

def service :
    Machine Node Own ServiceCall Op Op.Ans FederationHttpError SignedFederationResponse Change where
  exec := exec config
  environment := surroundings
  prog call := invoke config call.request
  own call := ⟨call.slot, call.request.envelope, .fresh⟩

abbrev ServiceSys := Sys Nat Node Own ServiceCall Op Op.Ans FederationHttpError SignedFederationResponse

abbrev ServiceEvent := Event Nat ServiceCall Change

/-! ## What a peer can tell -/

section

variable (peer : Uuid) (used : Uuid → Prop)

def peerKey (keys : KeyDirectory) (keyId : String) : Bool :=
  (keys.key keyId).any fun key => key.epoch.subject = ⟨.node, peer⟩

def peerNonces (world : World) : List UsedNonce :=
  world.nonces.filter fun used => peerKey peer world.keys used.keyId

/-- Two nodes that the requests of the peer cannot tell apart. -/
structure SameFor (s t : Node) : Prop where
  ports : s.ports = t.ports
  keys : s.identity.keys = t.identity.keys
  credentials : peerNonces peer s.identity = peerNonces peer t.identity
  nonces : ∀ nonce, s.guard.nonces (peer, nonce) = t.guard.nonces (peer, nonce)
  answers : ∀ id, used id → s.guard.answers id = t.guard.answers id

variable {peer used} {s t : Node}

theorem SameFor.refl (s : Node) : SameFor peer used s s :=
  ⟨rfl, rfl, rfl, fun _ => rfl, fun _ _ => rfl⟩

theorem SameFor.symm (h : SameFor peer used s t) : SameFor peer used t s :=
  ⟨h.ports.symm, h.keys.symm, h.credentials.symm, fun nonce => (h.nonces nonce).symm,
    fun id hid => (h.answers id hid).symm⟩

theorem SameFor.trans {u} (h : SameFor peer used s t) (h' : SameFor peer used t u) :
    SameFor peer used s u :=
  ⟨h.ports.trans h'.ports, h.keys.trans h'.keys, h.credentials.trans h'.credentials,
    fun nonce => (h.nonces nonce).trans (h'.nonces nonce),
    fun id hid => (h.answers id hid).trans (h'.answers id hid)⟩

/-- Nodes that differ in their guard and in what is only remembered about them. -/
theorem SameFor.of_guard (h : SameFor peer used s t) {s' t'} (hs : s'.ports = s.ports)
    (hs' : s'.identity = s.identity) (ht : t'.ports = t.ports) (ht' : t'.identity = t.identity)
    (hnonces : ∀ nonce, s'.guard.nonces (peer, nonce) = t'.guard.nonces (peer, nonce))
    (hanswers : ∀ id, used id → s'.guard.answers id = t'.guard.answers id) :
    SameFor peer used s' t' where
  ports := by rw [hs, ht, h.ports]
  keys := by rw [hs', ht', h.keys]
  credentials := by rw [hs', ht', h.credentials]
  nonces := hnonces
  answers := hanswers

theorem sameFor_guarded (h : SameFor peer used s t) {α : Type} {a : α} {s' t' : Node}
    (hdone : SameFor peer used s' t') :
    (guarded s a s').1 = (guarded t a t').1 ∧
      SameFor peer used (guarded s a s').2 (guarded t a t').2 := by
  unfold guarded
  rw [← h.ports]
  rcases s.ports.fault with _ | ⟨error, _ | _⟩
  · exact ⟨rfl, hdone⟩
  · exact ⟨rfl, h⟩
  · exact ⟨rfl, hdone⟩

end

/-! ## Authentication -/

section

variable {config} {peer : Uuid} {used : Uuid → Prop} {s t : Node} {proof : Proof} {body : Bytes}

def sameNonce (keyId : String) (nonce : Bytes) (used : UsedNonce) : Bool :=
  used.keyId = keyId && used.nonce = nonce

/-- The nonces after a first use. -/
def withNonce (nonces : List UsedNonce) (keyId : String) (nonce : Bytes) (retainUntil : Int) :
    List UsedNonce :=
  nonces.filter (fun used => !sameNonce keyId nonce used) ++ [⟨keyId, nonce, retainUntil⟩]

variable {p : String → Bool} {keyId : String} {nonce : Bytes}

/-- A nonce of a key that is not the peer's leaves the peer's nonces alone. -/
theorem filter_withNonce_of_false {nonces retainUntil} (h : p keyId = false) :
    (withNonce nonces keyId nonce retainUntil).filter (fun used => p used.keyId) =
      nonces.filter fun used => p used.keyId := by
  rw [withNonce, List.filter_append, List.filter_filter]
  have hnew : [UsedNonce.mk keyId nonce retainUntil].filter (fun used => p used.keyId) = [] := by
    simp [h]
  rw [hnew, List.append_nil]
  refine List.filter_congr fun used _ => ?_
  cases hp : p used.keyId with
  | false => simp
  | true =>
    have hne : used.keyId ≠ keyId := by
      rintro rfl
      rw [h] at hp
      cases hp
    simp [sameNonce, hne]

theorem filter_withNonce_of_true {nonces retainUntil} (h : p keyId = true) :
    (withNonce nonces keyId nonce retainUntil).filter (fun used => p used.keyId) =
      withNonce (nonces.filter fun used => p used.keyId) keyId nonce retainUntil := by
  rw [withNonce, withNonce, List.filter_append]
  have hnew : [UsedNonce.mk keyId nonce retainUntil].filter (fun used => p used.keyId) =
      [⟨keyId, nonce, retainUntil⟩] := by
    simp [h]
  rw [List.filter_filter, List.filter_filter]
  congr 1
  exact List.filter_congr fun used _ => Bool.and_comm _ _

theorem any_filter_of_true (nonces : List UsedNonce) {now} (h : p keyId = true) :
    (nonces.filter fun used => p used.keyId).any
        (fun used => sameNonce keyId nonce used && used.retainUntilMillis > now) =
      nonces.any fun used => sameNonce keyId nonce used && used.retainUntilMillis > now := by
  rw [Bool.eq_iff_iff, List.any_eq_true, List.any_eq_true]
  constructor
  · rintro ⟨x, hx, hlive⟩
    exact ⟨x, (List.mem_filter.mp hx).1, hlive⟩
  · rintro ⟨x, hx, hlive⟩
    refine ⟨x, List.mem_filter.mpr ⟨hx, ?_⟩, hlive⟩
    simp only [sameNonce, Bool.and_eq_true, decide_eq_true_eq] at hlive
    rw [hlive.1.1]
    exact h

theorem recordNonce_eq (keyId : String) (nonce : Bytes) (retainUntil now : Int) (w : World) :
    recordNonce keyId nonce retainUntil now w =
      if w.nonces.any fun used => sameNonce keyId nonce used && used.retainUntilMillis > now then
        .ok false w
      else .ok true { w with nonces := withNonce w.nonces keyId nonce retainUntil } :=
  rfl

/-- How an authentication ends: a failed check, or the nonce of the key that signed. -/
theorem authenticate_cases (config : Config) (ports : Ports) (keys : KeyDirectory) (proof : Proof)
    (body : Bytes) :
    (∃ e faults, ∀ node : Node, node.ports = ports → node.identity.keys = keys →
      authenticate config node proof body =
        (.error e, { node with identity := { node.identity with faults := faults } })) ∨
    ∃ key faults, keys.key proof.keyId = some key ∧ key.epoch.subject = proof.subject ∧
      ∀ node : Node, node.ports = ports → node.identity.keys = keys →
        authenticate config node proof body = if node.identity.nonces.any fun used =>
              sameNonce proof.keyId proof.nonce used && used.retainUntilMillis > ports.now then
            (.error (.rejected .replayed),
              { node with identity := { node.identity with faults := faults } })
          else (.ok proof.subject, { node with identity := { node.identity with
            faults := faults
            nonces := withNonce node.identity.nonces proof.keyId proof.nonce
              (proof.window.replayRetentionUntil (credentialPolicy config).freshness) } }) := by
  have hdetermined : Determined (checkProof config.verifier ports.now proof body
      (credentialPolicy config)) := .checkProof _ _ _ _
  obtain ⟨r, faults, hcheck⟩ := hdetermined keys ports.keyFaults
  cases r with
  | error e =>
    refine .inl ⟨e, faults, fun node hports hkeys => ?_⟩
    have h := hcheck { node.identity with faults := node.ports.keyFaults } hkeys
      (congrArg Ports.keyFaults hports)
    subst hports
    simp only [authenticate, authenticateProof, Bind.bind, EStateM.bind, h, ended]
  | ok key =>
    have hfound := checkProof_ok (hcheck ⟨keys, [], [], ports.keyFaults, 0⟩ rfl rfl)
    refine .inr ⟨key, faults, hfound.1, hfound.2.1, fun node hports hkeys => ?_⟩
    have h := hcheck { node.identity with faults := node.ports.keyFaults } hkeys
      (congrArg Ports.keyFaults hports)
    subst hports
    simp only [authenticate, authenticateProof, Bind.bind, EStateM.bind, h, ended, recordNonce_eq]
    split_ifs <;> rfl

/-- An authentication as the peer, on nodes that it cannot tell apart. -/
theorem sameFor_authenticate (config : Config) (body : Bytes) (h : SameFor peer used s t)
    (hsubject : proof.subject = ⟨.node, peer⟩) :
    (authenticate config s proof body).1 = (authenticate config t proof body).1 ∧
      SameFor peer used (authenticate config s proof body).2
        (authenticate config t proof body).2 := by
  rcases authenticate_cases config s.ports s.identity.keys proof body with
    ⟨e, faults, hend⟩ | ⟨key, faults, hkey, hown, hend⟩
  · rw [hend s rfl rfl, hend t h.ports.symm h.keys.symm]
    exact ⟨rfl, h.ports, h.keys, h.credentials, h.nonces, h.answers⟩
  · have hpeer : peerKey peer s.identity.keys proof.keyId = true := by
      simp [peerKey, hkey, hown, hsubject]
    have hpeer' : peerKey peer t.identity.keys proof.keyId = true := h.keys ▸ hpeer
    have hlive : (s.identity.nonces.any fun used =>
          sameNonce proof.keyId proof.nonce used && used.retainUntilMillis > s.ports.now) =
        t.identity.nonces.any fun used =>
          sameNonce proof.keyId proof.nonce used && used.retainUntilMillis > s.ports.now := by
      rw [← any_filter_of_true s.identity.nonces hpeer,
        ← any_filter_of_true t.identity.nonces hpeer']
      exact congrArg (List.any · _) h.credentials
    rw [hend s rfl rfl, hend t h.ports.symm h.keys.symm, hlive]
    split
    · exact ⟨rfl, h.ports, h.keys, h.credentials, h.nonces, h.answers⟩
    · refine ⟨rfl, h.ports, h.keys, ?_, h.nonces, h.answers⟩
      show (withNonce s.identity.nonces _ _ _).filter _ = (withNonce t.identity.nonces _ _ _).filter _
      rw [filter_withNonce_of_true hpeer, filter_withNonce_of_true hpeer']
      exact congrArg (withNonce · _ _ _) h.credentials

/-- An authentication that fails, or that is of another subject, shows nothing to the peer. -/
theorem sameFor_authenticate_other (hother : proof.subject ≠ ⟨.node, peer⟩ ∨
      ∀ subject, (authenticate config s proof body).1 ≠ .ok subject) :
    SameFor peer used s (authenticate config s proof body).2 := by
  rcases authenticate_cases config s.ports s.identity.keys proof body with
    ⟨e, faults, hend⟩ | ⟨key, faults, hkey, hown, hend⟩
  · rw [hend s rfl rfl]
    exact ⟨rfl, rfl, rfl, fun _ => rfl, fun _ _ => rfl⟩
  · have heq := hend s rfl rfl
    split at heq
    · rw [heq]
      exact ⟨rfl, rfl, rfl, fun _ => rfl, fun _ _ => rfl⟩
    · rcases hother with hsubject | hfails
      · have hpeer : peerKey peer s.identity.keys proof.keyId = false := by
          simp [peerKey, hkey, hown, hsubject]
        rw [heq]
        exact ⟨rfl, rfl, (filter_withNonce_of_false hpeer).symm, fun _ => rfl, fun _ _ => rfl⟩
      · exact absurd (congrArg Prod.fst heq) (hfails _)

end

/-! ## What a peer's calls ask -/

section

variable (peer : Uuid) (used : Uuid → Prop)

/-- The port calls of the peer's requests. -/
def PeerAsks : Op → Prop
  | .authenticate proof _ => proof.subject = ⟨.node, peer⟩
  | .recordedAnswer id => used id
  | .rememberNonce envelope => envelope.sourceNode = peer
  | .forgetNonce envelope => envelope.sourceNode = peer
  | .recordAnswer id _ _ => used id
  | _ => True

variable {peer used} {s t : Node} {envelope : Envelope}

theorem nonceKey_eq (h : envelope.sourceNode = peer) : envelope.nonceKey = (peer, envelope.nonce) := by
  rw [Envelope.nonceKey, h]

theorem sameFor_remembered (own : Own) (h : SameFor peer used s t) (hpeer : envelope.sourceNode = peer) :
    (s.guard.rememberNonce envelope).1 = (t.guard.rememberNonce envelope).1 ∧
      SameFor peer used (remembered s own envelope) (remembered t own envelope) := by
  have hnonce := h.nonces envelope.nonce
  rw [← nonceKey_eq hpeer] at hnonce
  cases hs : s.guard.nonces envelope.nonceKey with
  | some time =>
    have ht := hnonce.symm.trans hs
    have hsame := remembered_of_seen hs
    have hsame' := remembered_of_seen ht
    refine ⟨by rw [hsame, hsame'], h.of_guard rfl rfl rfl rfl ?_ ?_⟩
    · intro nonce
      simp only [remembered, hsame, hsame']
      exact h.nonces nonce
    · intro id hid
      simp only [remembered, hsame, hsame']
      exact h.answers id hid
  | none =>
    have ht := hnonce.symm.trans hs
    have hnew := remembered_of_new hs
    have hnew' := remembered_of_new ht
    refine ⟨by rw [hnew, hnew'], h.of_guard rfl rfl rfl rfl ?_ ?_⟩
    · intro nonce
      simp only [remembered, hnew, hnew', Function.update_apply]
      rw [h.nonces nonce]
    · intro id hid
      simp only [remembered, hnew, hnew']
      exact h.answers id hid

theorem sameFor_forgotten (envelope : Envelope) (h : SameFor peer used s t) :
    SameFor peer used (forgotten s envelope) (forgotten t envelope) := by
  refine h.of_guard rfl rfl rfl rfl ?_ h.answers
  intro nonce
  simp only [forgotten, Guard.forgetNonce, Function.update_apply]
  rw [h.nonces nonce]

theorem recordAnswer_nonces (guard : Guard) (id : Uuid) (answer : String) (time : Int) :
    (guard.recordAnswer id answer time).nonces = guard.nonces := by
  unfold Guard.recordAnswer
  split <;> rfl

theorem recordAnswer_answers (guard : Guard) (id : Uuid) (answer : String) (time : Int) :
    (guard.recordAnswer id answer time).answers =
      Function.update guard.answers id (some ((guard.answers id).getD (answer, time))) := by
  unfold Guard.recordAnswer
  split
  · next row hrow =>
    rw [hrow, Option.getD_some, ← hrow, Function.update_eq_self]
  · next hnone => rw [hnone, Option.getD_none]

theorem sameFor_answered {id} (answer : String) (time : Int) (h : SameFor peer used s t)
    (hid : used id) :
    SameFor peer used (answered s id answer time) (answered t id answer time) := by
  refine h.of_guard rfl rfl rfl rfl ?_ ?_
  · intro nonce
    simp only [answered, recordAnswer_nonces]
    exact h.nonces nonce
  · intro other hother
    simp only [answered, recordAnswer_answers, Function.update_apply]
    rw [h.answers id hid, h.answers other hother]

/-- **The peer's port calls** get the same answers from nodes that the peer cannot tell apart. -/
theorem exec_same (config : Config) (own : Own) {o : Op} (h : SameFor peer used s t)
    (hask : PeerAsks peer used o) :
    (exec config o s own).1 = (exec config o t own).1 ∧
      (exec config o s own).2.2 = (exec config o t own).2.2 ∧
      SameFor peer used (exec config o s own).2.1 (exec config o t own).2.1 := by
  cases o with
  | authenticate proof body =>
    obtain ⟨hreply, hnode⟩ := sameFor_authenticate config body h hask
    exact ⟨hreply, rfl, hnode⟩
  | now | node source now | decide request | sign response =>
    simp only [exec, h.ports]
    exact ⟨trivial, trivial, h⟩
  | recordedAnswer id =>
    obtain ⟨hreply, hnode⟩ := sameFor_guarded (a := (s.guard.answers id).map (·.1)) h h
    rw [h.answers id hask] at hreply hnode
    simp only [exec, h.answers id hask]
    exact ⟨hreply, trivial, hnode⟩
  | rememberNonce envelope =>
    obtain ⟨hfirst, hdone⟩ := sameFor_remembered own h hask
    obtain ⟨hreply, hnode⟩ := sameFor_guarded (a := (s.guard.rememberNonce envelope).1) h hdone
    rw [hfirst] at hreply hnode
    simp only [exec, hfirst, hreply]
    exact ⟨trivial, trivial, hnode⟩
  | execute envelope payload =>
    simp only [exec, h.ports]
    split
    · exact ⟨rfl, rfl, h.of_guard rfl rfl rfl rfl h.nonces h.answers⟩
    · exact ⟨rfl, rfl, h⟩
  | forgetNonce envelope =>
    obtain ⟨hreply, hnode⟩ := sameFor_guarded h (sameFor_forgotten envelope h)
    exact ⟨hreply, rfl, hnode⟩
  | recordAnswer id answer time =>
    obtain ⟨hreply, hnode⟩ := sameFor_guarded h (sameFor_answered answer time h hask)
    exact ⟨hreply, rfl, hnode⟩

theorem sameFor_surroundings (change : Change) (h : SameFor peer used s t) :
    SameFor peer used (surroundings change s) (surroundings change t) := by
  cases change with
  | ports ports => exact ⟨rfl, h.keys, h.credentials, h.nonces, h.answers⟩
  | purge now =>
    refine h.of_guard rfl rfl rfl rfl ?_ ?_
    · intro nonce
      simp only [surroundings, Guard.purgeExpired, h.nonces nonce]
    · intro id hid
      simp only [surroundings, Guard.purgeExpired, h.answers id hid]

/-- The port calls of `serve`: all that name an envelope name the one that is served. -/
def ServeAsks (envelope : Envelope) (payload : Bytes) : Op → Prop
  | .authenticate .. => False
  | .recordedAnswer id => id = envelope.requestId
  | .rememberNonce served => served = envelope
  | .forgetNonce served => served = envelope
  | .recordAnswer id _ _ => id = envelope.requestId
  | .execute served body => served = envelope ∧ body = payload
  | _ => True

theorem only_serve (config : Config) (envelope : Envelope) (payload : Bytes) :
    (serve config envelope payload).Only (ServeAsks envelope payload) := by
  refine .perform trivial fun now => .perform rfl fun reply => .check fun found _ => ?_
  split
  · trivial
  refine .perform rfl fun reply => .check fun first _ => ?_
  split
  · trivial
  refine .perform trivial fun reply => .check fun known _ => ?_
  split
  · trivial
  split
  · trivial
  split
  · trivial
  refine .perform trivial fun reply => .check fun decision _ => ?_
  split
  · trivial
  refine .perform ⟨rfl, rfl⟩ fun reply => ?_
  split
  · exact .perform rfl fun reply => .check fun _ _ => trivial
  · exact .perform rfl fun reply => .check fun _ _ => trivial

theorem subject_of_binds {config proof} (h : binds config proof envelope) :
    proof.subject = ⟨.node, envelope.sourceNode⟩ := by
  simp only [binds, Bool.and_eq_true, decide_eq_true_eq] at h
  obtain ⟨⟨⟨⟨⟨-, hkind⟩, hid⟩, -⟩, -⟩, -⟩ := h
  cases hsubject : proof.subject
  rw [hsubject] at hkind hid
  rw [← hkind, ← hid]

theorem only_invoke (config : Config) {request} (hpeer : request.envelope.sourceNode = peer)
    (hused : used request.envelope.requestId) :
    (invoke config request).Only (PeerAsks peer used) := by
  unfold invoke
  split
  · trivial
  split
  · trivial
  next hbinds =>
  refine .perform ?_ fun reply => ?_
  · rw [← hpeer]
    exact subject_of_binds (by simpa using hbinds)
  · split
    · trivial
    have hserve : (serve config request.envelope request.payload).Only (PeerAsks peer used) := by
      refine (only_serve config _ _).mono fun o ho => ?_
      cases o <;> first | trivial | cases ho; assumption
    refine hserve.attempt.bind fun served => ?_
    split
    · trivial
    refine .perform trivial fun reply => ?_
    split <;> trivial

end

def peerObserver (peer : Uuid) (used : Uuid → Prop) (slots : Nat → Bool) :
    Observer Nat (service config) where
  names := slots
  calls call := call.peer = peer
  Same := SameFor peer used
  symm _ _ := SameFor.symm
  trans _ _ _ := SameFor.trans
  Asks _ := PeerAsks peer used
  answers _ _ _ _ own hask h := exec_same config own h hask
  environment change _ _ := sameFor_surroundings change

end Aseman.Federation
