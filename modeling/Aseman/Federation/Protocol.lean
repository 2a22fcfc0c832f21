import Aseman.Federation.Serve

/-!
# What serve calls promise each other

Any number of serve calls interleave at their port calls with each other, with the passing of time and
with purges. A call that has read the clock before its envelope expired finds the nonce recorded as long
as another call holds it; the one that holds it is the only one that executes. `safe_serve` shows that
one call keeps to this.
-/

namespace Aseman.Federation

open Function

open Identity (Bytes)

/-! ## The system -/

structure ServeCall where
  slot : Nat
  envelope : Envelope
  payload : Bytes

/-- What happens around the calls. -/
inductive Change where
  | ports (ports : Ports)
  | purge (nowMillis : Int)

def surroundings : Change → Node → Node
  | .ports ports, node => { node with ports := ports }
  | .purge nowMillis, node => { node with guard := node.guard.purgeExpired nowMillis }

variable (config : Config)

def serving : Machine Node Own ServeCall Op Op.Ans PortError Served Change where
  exec := exec config
  environment := surroundings
  prog call := serve config call.envelope call.payload
  own call := ⟨call.slot, call.envelope, .fresh⟩

abbrev ServeSys := Sys Nat Node Own ServeCall Op Op.Ans PortError Served

abbrev ServeEvent := Event Nat ServeCall Change

/-- A step of the system. The clock does not go back, and a purge is made for a time that has come. -/
structure ServeStep (s : ServeSys) (e : ServeEvent) (t : ServeSys) : Prop where
  step : (serving config).Step s e t
  slot : ∀ i call, e = .start i call → call.slot = i
  clock : ∀ ports, e = .environment (.ports ports) → s.shared.ports.now ≤ ports.now
  purge : ∀ now, e = .environment (.purge now) → now ≤ s.shared.ports.now

/-- As the condition on purges and envelopes: a nonce has one expiry, a request ID has one nonce, and no
purge of an expired envelope runs while a call that read the clock before its expiry has not asked for its
nonce. -/
structure OnceStep (expiry : Uuid × String → Int) (origin : Uuid → Uuid × String)
    (s : ServeSys) (e : ServeEvent) (t : ServeSys) : Prop extends ServeStep config s e t where
  expires : ∀ i call, e = .start i call → call.envelope.expiresAtMillis = expiry call.envelope.nonceKey
  request : ∀ i call, e = .start i call → call.envelope.nonceKey = origin call.envelope.requestId
  settled : ∀ now, e = .environment (.purge now) → ∀ i th, s.threads i = some th →
    ∀ read, th.own.stage = .pending read → th.own.envelope.expiresAtMillis < now →
      th.own.envelope.expiresAtMillis ≤ read

def Served.answer : Served → Option String
  | .executed answer => some answer
  | .replayed answer => some answer
  | .refused _ => none

/-- The same source node, request ID and nonce. -/
def SameRequest (a b : Envelope) : Prop :=
  a.sourceNode = b.sourceNode ∧ a.requestId = b.requestId ∧ a.nonce = b.nonce

instance (a b : Envelope) : Decidable (SameRequest a b) := by
  unfold SameRequest; infer_instance

/-- Of the calls of one request at most one execution succeeded, and every answer returned for its request
ID is the one of that execution. -/
def AtMostOnce (s : ServeSys) : Prop :=
  (∀ envelope, (s.shared.executed.filter fun x => SameRequest x.2.1 envelope).length ≤ 1) ∧
    ∀ call served answer, (call, Except.ok served) ∈ s.finished → served.answer = some answer →
      (∃ x ∈ s.shared.executed, x.2.1.requestId = call.envelope.requestId) ∧
      ∀ x ∈ s.shared.executed, x.2.1.requestId = call.envelope.requestId → x.2.2 = answer

/-! ## What holds of the node -/

section

variable (expiry : Uuid × String → Int) (origin : Uuid → Uuid × String)

/-- No call of this nonce has succeeded. -/
def NotRun (node : Node) (key : Uuid × String) : Prop := ∀ x ∈ node.executed, x.2.1.nonceKey ≠ key

/-- A held nonce is recorded. -/
def Recorded (node : Node) (key : Uuid × String) : Prop :=
  node.holder key ≠ none → node.guard.nonces key ≠ none

/-- The answer is one of a successful execution for the request. -/
def Answers (node : Node) (requestId : Uuid) (answer : String) : Prop :=
  ∃ x ∈ node.executed, x.2.1.requestId = requestId ∧ x.2.2 = answer

structure NodeInv (node : Node) : Prop where
  /-- A held nonce is recorded, unless it has expired. -/
  held : ∀ key, node.holder key ≠ none → node.guard.nonces key ≠ none ∨ expiry key ≤ node.ports.now
  expires : ∀ key time, node.guard.nonces key = some time → time = expiry key
  /-- The nonce of a successful call stays held. -/
  ran : ∀ x ∈ node.executed, node.holder x.2.1.nonceKey ≠ none
  once : ∀ key, (node.executed.filter fun x => x.2.1.nonceKey = key).length ≤ 1
  answers : ∀ requestId answer time, node.guard.answers requestId = some (answer, time) →
    Answers node requestId answer
  request : ∀ x ∈ node.executed, x.2.1.nonceKey = origin x.2.1.requestId

/-- What a call relies on: time passes, executions are not undone; while it is on its way to its nonce in
time, a held nonce stays recorded; and while it holds its nonce, nobody else does. -/
structure NodeRely (own : Own) (s t : Node) : Prop where
  clock : s.ports.now ≤ t.ports.now
  executed : ∀ x ∈ s.executed, x ∈ t.executed
  pending : own.inTime → Recorded s own.envelope.nonceKey → Recorded t own.envelope.nonceKey
  holding : own.stage = .holding →
    s.holder own.envelope.nonceKey = some own.slot → NotRun s own.envelope.nonceKey →
    t.holder own.envelope.nonceKey = some own.slot ∧ NotRun t own.envelope.nonceKey

/-- What a call does to the holder of its nonce. -/
inductive HolderMoves (own : Own) (s t : Node) : Prop
  | stays (h : t.holder = s.holder)
      (hnonce : s.guard.nonces own.envelope.nonceKey ≠ none →
        t.guard.nonces own.envelope.nonceKey ≠ none)
  | claims (hfree : s.holder own.envelope.nonceKey = none)
      (h : t.holder = update s.holder own.envelope.nonceKey (some own.slot))
      (hnonce : t.guard.nonces own.envelope.nonceKey ≠ none)
  | releases (hheld : s.holder own.envelope.nonceKey = some own.slot)
      (h : t.holder = update s.holder own.envelope.nonceKey none)

/-- What a port call of a call does to the node. -/
structure NodeGuar (own : Own) (s t : Node) : Prop where
  ports : t.ports = s.ports
  nonces : ∀ key, key ≠ own.envelope.nonceKey → t.guard.nonces key = s.guard.nonces key
  holder : HolderMoves own s t
  executed : t.executed = s.executed ∨
    (∃ answer, t.executed = s.executed ++ [(own.slot, own.envelope, answer)]) ∧
      s.holder own.envelope.nonceKey = some own.slot

theorem NodeRely.refl (own : Own) (s : Node) : NodeRely own s s :=
  ⟨le_rfl, fun _ => id, fun _ => id, fun _ hholder hrun => ⟨hholder, hrun⟩⟩

variable {s t : Node}

theorem NodeRely.trans {own u} (h : NodeRely own s t) (h' : NodeRely own t u) :
    NodeRely own s u where
  clock := h.clock.trans h'.clock
  executed x hx := h'.executed x (h.executed x hx)
  pending hstage hs := h'.pending hstage (h.pending hstage hs)
  holding hstage hholder hrun := by
    obtain ⟨hholder', hrun'⟩ := h.holding hstage hholder hrun
    exact h'.holding hstage hholder' hrun'

/-- What one call does is what another, in another slot, relies on. -/
theorem NodeGuar.rely {own other} (h : NodeGuar own s t) (hslot : own.slot ≠ other.slot) :
    NodeRely other s t where
  clock := (congrArg Ports.now h.ports).ge
  executed x hx := by
    rcases h.executed with heq | ⟨⟨_, heq⟩, -⟩ <;> rw [heq]
    · exact hx
    · exact List.mem_append_left _ hx
  pending _ hrecorded hheld := by
    have hnonces := h.nonces other.envelope.nonceKey
    -- a nonce of its own stays recorded while it is held
    cases h.holder with
    | stays hsame => grind [Recorded]
    | claims _ hclaim => rw [hclaim] at hheld; grind [Recorded]
    | releases _ hnone => rw [hnone] at hheld; grind [Recorded]
  holding _ hholder hrun := by
    refine ⟨?_, ?_⟩
    · cases h.holder with
      | stays hsame => rwa [hsame]
      | claims _ hclaim => rw [hclaim]; grind
      | releases _ hnone => rw [hnone]; grind
    · rcases h.executed with heq | ⟨⟨answer, heq⟩, hheld⟩ <;> grind [NotRun]

def onceProtocol : Protocol (serving config) where
  Inv := NodeInv expiry origin
  Rely := NodeRely
  Guar own _ _ s t := NodeGuar own s t
  refl := NodeRely.refl
  trans _ _ _ _ := NodeRely.trans

variable {config expiry origin} {own : Own} {b s : Node} {envelope : Envelope} {payload : Bytes}

theorem guarded_cases {α : Type} (node : Node) (answer : α) (done : Node) :
    guarded node answer done = (.ok answer, done) ∨
      ∃ e node', guarded node answer done = (.error e, node') ∧ (node' = done ∨ node' = node) := by
  unfold guarded
  rcases node.ports.fault with _ | ⟨error, _ | _⟩
  · exact .inl rfl
  · exact .inr ⟨error, node, rfl, .inr rfl⟩
  · exact .inr ⟨error, done, rfl, .inl rfl⟩

theorem NodeGuar.refl (own : Own) (s : Node) : NodeGuar own s s :=
  ⟨rfl, fun _ _ => rfl, .stays rfl id, .inl rfl⟩

/-- What a call may return, in the node that it leaves behind. -/
def ServePost (requestId : Uuid) (r : Except PortError Served) (node : Node) : Prop :=
  ∀ served answer, r = .ok served → served.answer = some answer → Answers node requestId answer

variable {requestId : Uuid} {answer : String}

theorem Answers.mono (h : Answers s requestId answer) (hle : ∀ x ∈ s.executed, x ∈ t.executed) :
    Answers t requestId answer := by
  obtain ⟨x, hx, hrest⟩ := h
  exact ⟨x, hle x hx, hrest⟩

variable {node : Node}

theorem remembered_of_seen {time} (h : node.guard.nonces envelope.nonceKey = some time) :
    node.guard.rememberNonce envelope = (false, node.guard) := by
  simp only [Guard.rememberNonce, h]

theorem remembered_of_new (h : node.guard.nonces envelope.nonceKey = none) :
    node.guard.rememberNonce envelope = (true, { node.guard with
      nonces := update node.guard.nonces envelope.nonceKey (some envelope.expiresAtMillis) }) := by
  simp only [Guard.rememberNonce, h]

variable (hinv : NodeInv expiry origin node)

include hinv

/-- Remembering a nonce: the invariant stays, and the holder changes only where nobody holds it. -/
theorem remember_step (hexpires : own.envelope.expiresAtMillis = expiry own.envelope.nonceKey)
    (hrecorded : own.inTime → Recorded node own.envelope.nonceKey) :
    NodeInv expiry origin (remembered node own own.envelope) ∧
      NodeGuar own node (remembered node own own.envelope) := by
  cases hnonce : node.guard.nonces own.envelope.nonceKey with
  | some time =>
    have hsame : remembered node own own.envelope = node := by
      simp only [remembered, remembered_of_seen hnonce, Bool.false_and, Bool.false_eq_true, if_false]
    rw [hsame]
    exact ⟨hinv, .refl own node⟩
  | none =>
    have hnonces : (remembered node own own.envelope).guard.nonces =
        update node.guard.nonces own.envelope.nonceKey (some own.envelope.expiresAtMillis) := by
      simp only [remembered, remembered_of_new hnonce]
    have hholder : (remembered node own own.envelope).holder = if own.inTime
        then update node.holder own.envelope.nonceKey (some own.slot)
        else node.holder := by
      simp only [remembered, remembered_of_new hnonce, Bool.true_and]
    have hanswers : (remembered node own own.envelope).guard.answers = node.guard.answers := by
      simp only [remembered, remembered_of_new hnonce]
    refine ⟨⟨?_, ?_, ?_, hinv.once, hanswers ▸ hinv.answers, hinv.request⟩, rfl, ?_, ?_, .inl rfl⟩
    · intro key hheld
      show _ ∨ expiry key ≤ node.ports.now
      rw [hholder] at hheld
      rw [hnonces]
      grind [hinv.held key, update_apply]
    · intro key time htime
      rw [hnonces] at htime
      grind [hinv.expires key time]
    · intro x hx
      have hran : node.holder x.2.1.nonceKey ≠ none := hinv.ran x hx
      rw [hholder]
      grind [update_apply]
    · intro key hne
      rw [hnonces, update_of_ne hne]
    · have hmine : (remembered node own own.envelope).guard.nonces own.envelope.nonceKey ≠ none := by
        simp [hnonces]
      by_cases hin : own.inTime
      · rw [if_pos hin] at hholder
        exact .claims (by_contra fun hheld => hrecorded hin hheld hnonce) hholder hmine
      · rw [if_neg hin] at hholder
        exact .stays hholder fun _ => hmine

/-- Forgetting a nonce that the call holds and that nobody has run. -/
theorem forget_step (hheld : node.holder own.envelope.nonceKey = some own.slot)
    (hrun : NotRun node own.envelope.nonceKey) :
    NodeInv expiry origin (forgotten node own.envelope) ∧
      NodeGuar own node (forgotten node own.envelope) := by
  have hnonces : (forgotten node own.envelope).guard.nonces =
      update node.guard.nonces own.envelope.nonceKey none := rfl
  have hholder : (forgotten node own.envelope).holder =
      update node.holder own.envelope.nonceKey none := rfl
  refine ⟨⟨?_, ?_, ?_, hinv.once, hinv.answers, hinv.request⟩, rfl, ?_, .releases hheld rfl, .inl rfl⟩
  · intro key h
    show _ ∨ expiry key ≤ node.ports.now
    rw [hholder] at h
    rw [hnonces]
    grind [hinv.held key]
  · intro key time htime
    rw [hnonces] at htime
    grind [hinv.expires key time]
  · intro x hx
    rw [hholder, update_of_ne (hrun x hx)]
    exact hinv.ran x hx
  · intro key hne
    exact update_of_ne hne _ _

/-- A successful execution of the call that holds the nonce, of which nobody has run. -/
theorem execute_step (answer : String) (hheld : node.holder own.envelope.nonceKey = some own.slot)
    (hrun : NotRun node own.envelope.nonceKey)
    (horigin : own.envelope.nonceKey = origin own.envelope.requestId) :
    NodeInv expiry origin (ran node own own.envelope answer) ∧
      NodeGuar own node (ran node own own.envelope answer) := by
  have hcases : ∀ x ∈ (ran node own own.envelope answer).executed,
      x ∈ node.executed ∨ x = (own.slot, own.envelope, answer) := by
    simpa [ran] using hx
  have hran : node.executed.filter (fun x => x.2.1.nonceKey = own.envelope.nonceKey) = [] := by
    refine List.filter_eq_nil_iff.mpr fun x hx => ?_
    simpa using hrun x hx
  refine ⟨⟨hinv.held, hinv.expires, ?_, ?_, ?_, ?_⟩, rfl, fun _ _ => rfl, .stays rfl id,
    .inr ⟨⟨answer, rfl⟩, hheld⟩⟩
  · intro x hx
    show node.holder x.2.1.nonceKey ≠ none
    rcases hcases x hx with hx | rfl
    · exact hinv.ran x hx
    · simp [hheld]
  · intro key
    show ((node.executed ++ _).filter _).length ≤ 1
    -- nobody has run this nonce, so that the new entry is the only one
    by_cases hkey : own.envelope.nonceKey = key
    · simp [← hkey, hran]
    · simpa [hkey] using hinv.once key
  · intro requestId text time hanswer
    exact (hinv.answers requestId text time hanswer).mono fun x hx => List.mem_append_left _ hx
  · intro x hx
    rcases hcases x hx with hx | rfl
    · exact hinv.request x hx
    · exact horigin

omit hinv

theorem record_step (own : Own) (hinv : NodeInv expiry origin node) (time : Int)
    (hanswer : Answers node requestId answer) :
    NodeInv expiry origin (answered node requestId answer time) ∧
      NodeGuar own node (answered node requestId answer time) := by
  have hnonces : (answered node requestId answer time).guard.nonces = node.guard.nonces := by
    show (node.guard.recordAnswer requestId answer time).nonces = _
    unfold Guard.recordAnswer
    split <;> rfl
  refine ⟨⟨hnonces ▸ hinv.held, hnonces ▸ hinv.expires, hinv.ran, hinv.once, ?_, hinv.request⟩, rfl,
    fun _ _ => by rw [hnonces], .stays rfl (by rw [hnonces]; exact id), .inl rfl⟩
  intro id text expires hstored
  change (node.guard.recordAnswer requestId answer time).answers id = _ at hstored
  unfold Guard.recordAnswer at hstored
  have hold := hinv.answers id text expires
  split at hstored
  · exact hold hstored
  · simp only [update_apply] at hstored
    split at hstored
    · next hid =>
      cases hstored
      exact hid ▸ hanswer
    · exact hold hstored

/-! ## One call -/

theorem safe_ask {β ε : Type} {o : Op} {f : Op.Ans o → Code ε β}
    {R : Except ε β → Node → Node → Own → Prop}
    (h : ∀ t, NodeInv expiry origin t → NodeRely own s t → ∃ a, exec config o t own = (a, t, own) ∧
      Safe (onceProtocol config expiry origin) R (f a) t t own) :
    Safe (onceProtocol config expiry origin) R (Prog.perform o >>= f) b s own := by
  refine .step_of fun t hinv hrely _ => ?_
  obtain ⟨a, heq, hrest⟩ := h t hinv hrely
  exact ⟨a, t, own, heq, ⟨hinv, .refl own t⟩, hrest⟩

/-- What a call has at its end. -/
def ServeEnds (requestId : Uuid) (r : Except PortError Served) (_ s : Node) (_ : Own) : Prop :=
  ServePost requestId r s

theorem servePost_error (requestId : Uuid) (e : PortError) (node : Node) :
    ServePost requestId (.error e) node := by
  intro served answer h
  cases h

theorem servePost_refused (requestId : Uuid) (refusal : Refusal) (node : Node) :
    ServePost requestId (.ok (.refused refusal)) node := by
  intro served answer h hanswer
  cases h
  cases hanswer

theorem servePost_of_answers {served} (hserved : served.answer = some answer)
    (h : Answers node requestId answer) : ServePost requestId (.ok served) node := by
  intro served' answer' heq hanswer
  cases heq
  rw [hserved] at hanswer
  cases hanswer
  exact h

variable (own) (hexpires : own.envelope.expiresAtMillis = expiry own.envelope.nonceKey)
  (horigin : own.envelope.nonceKey = origin own.envelope.requestId)

theorem safe_recordAnswer (h : Answers s own.envelope.requestId answer) :
    Safe (onceProtocol config expiry origin) (ServeEnds own.envelope.requestId)
      (do
        Prog.ofExcept (← Prog.perform
          (.recordAnswer own.envelope.requestId answer own.envelope.expiresAtMillis))
        pure (.executed answer)) b s own := by
  refine .step_of fun t hinv hrely _ => ?_
  have hanswer : Answers t own.envelope.requestId answer := h.mono hrely.executed
  have hdone := record_step own hinv own.envelope.expiresAtMillis hanswer
  have hpost : ∀ t' : Node, t'.executed = t.executed →
      ServePost own.envelope.requestId (.ok (.executed answer)) t' := by
    intro t' heq
    exact servePost_of_answers rfl (hanswer.mono fun x hx => heq ▸ hx)
  rcases guarded_cases t () (answered t own.envelope.requestId answer own.envelope.expiresAtMillis)
    with heq | ⟨e, t', heq, hcases⟩
  · refine ⟨.ok (), _, own, by simp only [serving, exec, heq], hdone, hpost _ rfl⟩
  · refine ⟨.error e, t', own, by simp only [serving, exec, heq], ?_, servePost_error _ _ _⟩
    rcases hcases with rfl | rfl
    · exact hdone
    · exact ⟨hinv, .refl own t'⟩

include horigin in
theorem safe_effect (hstage : own.stage = .holding)
    (hheld : s.holder own.envelope.nonceKey = some own.slot)
    (hrun : NotRun s own.envelope.nonceKey) :
    Safe (onceProtocol config expiry origin) (ServeEnds own.envelope.requestId)
      (effect own.envelope payload) b s own := by
  refine Safe.step_of fun t hinv hrely _ => ?_
  obtain ⟨hheld, hrun⟩ := hrely.holding hstage hheld hrun
  cases hexec : t.ports.execute own.envelope payload with
  | ok answer =>
    refine ⟨.ok answer, _, { own with stage := .past }, by simp only [serving, exec, hexec],
      execute_step hinv answer hheld hrun horigin, ?_⟩
    refine safe_recordAnswer { own with stage := .past } ⟨(own.slot, own.envelope, answer), ?_, rfl,
      rfl⟩
    exact List.mem_append_right _ (List.mem_singleton.mpr rfl)
  | error e =>
    refine ⟨.error e, t, own, by simp only [serving, exec, hexec], ⟨hinv, NodeGuar.refl own t⟩, ?_⟩
    refine Safe.step_of fun u hinv hrely _ => ?_
    obtain ⟨hheld, hrun⟩ := hrely.holding hstage hheld hrun
    have hdone := forget_step hinv hheld hrun
    rcases guarded_cases u () (forgotten u own.envelope) with heq | ⟨e', u', heq, hcases⟩
    · exact ⟨.ok (), _, { own with stage := .past }, by simp only [serving, exec, heq], hdone,
        servePost_error _ _ _⟩
    · refine ⟨.error e', u', { own with stage := .past }, by simp only [serving, exec, heq], ?_,
        servePost_error _ _ _⟩
      rcases hcases with rfl | rfl
      · exact hdone
      · exact ⟨hinv, NodeGuar.refl own u'⟩

include horigin in
theorem safe_reauthorize (now : Int) (hstage : own.stage = .holding)
    (hheld : s.holder own.envelope.nonceKey = some own.slot)
    (hrun : NotRun s own.envelope.nonceKey) :
    Safe (onceProtocol config expiry origin) (ServeEnds own.envelope.requestId)
      (reauthorize config own.envelope payload now) b s own := by
  refine safe_ask fun t _ hrely => ⟨_, rfl, ?_⟩
  obtain ⟨hheld, hrun⟩ := hrely.holding hstage hheld hrun
  refine Safe.check (fun _ _ => servePost_error _ _ _) fun known _ => ?_
  split
  · exact servePost_refused _ _ _
  split
  · exact servePost_refused _ _ _
  split
  · exact servePost_refused _ _ _
  refine safe_ask fun u _ hrely => ⟨_, rfl, ?_⟩
  obtain ⟨hheld, hrun⟩ := hrely.holding hstage hheld hrun
  refine Safe.check (fun _ _ => servePost_error _ _ _) fun decision _ => ?_
  split
  · exact servePost_refused _ _ _
  · exact safe_effect own horigin hstage hheld hrun

include hexpires horigin in
theorem safe_remember {read} (hstage : own.stage = .pending read)
    (hrecorded : own.inTime → Recorded s own.envelope.nonceKey) :
    Safe (onceProtocol config expiry origin) (ServeEnds own.envelope.requestId)
      (do
        let first ← Prog.ofExcept (← Prog.perform (.rememberNonce own.envelope))
        match accept own.envelope config.nodeId read (!first) with
        | .error e => pure (.refused (.envelope e))
        | .ok () => reauthorize config own.envelope payload read) b s own := by
  refine Safe.step_of fun t hinv hrely _ => ?_
  have hrecorded : own.inTime → Recorded t own.envelope.nonceKey :=
    fun hin => hrely.pending hin (hrecorded hin)
  have hdone := remember_step hinv hexpires hrecorded
  rcases guarded_cases t (t.guard.rememberNonce own.envelope).1 (remembered t own own.envelope) with
    heq | ⟨e, t', heq, hcases⟩
  · refine ⟨_, _, _, by simp only [serving, exec, heq]; rfl, hdone, ?_⟩
    refine Safe.check (fun _ _ => servePost_error _ _ _) fun first hfirst => ?_
    cases hfirst
    split
    · exact servePost_refused _ _ _
    · next haccept =>
      obtain ⟨hlive, hseen⟩ := accept_eq_ok haccept
      have hin : own.inTime := by simp [Own.inTime, hstage, hlive]
      have hnew : (t.guard.rememberNonce own.envelope).1 = true := by simpa using hseen
      cases hnonce : t.guard.nonces own.envelope.nonceKey with
      | some time =>
        rw [remembered_of_seen hnonce] at hnew
        cases hnew
      | none =>
        have hholder : (remembered t own own.envelope).holder =
            update t.holder own.envelope.nonceKey (some own.slot) := by
          simp only [remembered, remembered_of_new hnonce, hin, Bool.and_self, if_true]
        -- Nobody held the nonce, so that nobody has run it.
        have hfree : t.holder own.envelope.nonceKey = none := by
          by_contra hheld
          exact hrecorded hin hheld hnonce
        simp only [hnew, hin, Bool.and_self, decide_true, if_true]
        refine safe_reauthorize { own with stage := .holding } horigin read rfl ?_ ?_
        · rw [hholder, update_self]
        · intro x hx hkey
          exact hinv.ran x hx (hkey ▸ hfree)
  · refine ⟨.error e, t', _, by simp only [serving, exec, heq]; rfl, ?_, servePost_error _ _ _⟩
    rcases hcases with rfl | rfl
    · exact hdone
    · exact ⟨hinv, NodeGuar.refl own t'⟩

include hexpires horigin in
/-- **One serve call** keeps the protocol from its start to its end. -/
theorem safe_serve : Safe (onceProtocol config expiry origin) (ServeEnds own.envelope.requestId)
      (serve config own.envelope payload) b s own := by
  refine Safe.step_of fun t hinv _ _ => ⟨t.ports.now, t, { own with stage := .pending t.ports.now }, rfl,
    ⟨hinv, NodeGuar.refl own t⟩, ?_⟩
  -- While the envelope has not expired, a held nonce is recorded.
  have hrecorded : Own.inTime { own with stage := .pending t.ports.now } →
      Recorded t own.envelope.nonceKey := by
    intro hin hheld
    have hlive : t.ports.now < own.envelope.expiresAtMillis := by simpa [Own.inTime] using hin
    rcases hinv.held _ hheld with hsome | hexpired
    · exact hsome
    · omega
  refine safe_ask fun u hinv hrely => ?_
  have hrecorded := fun hin => hrely.pending hin (hrecorded hin)
  rcases guarded_cases u ((u.guard.answers own.envelope.requestId).map (·.1)) u with
    heq | ⟨e, u', heq, hcases⟩
  · refine ⟨_, by simp only [exec, heq]; rfl, ?_⟩
    refine Safe.check (fun _ _ => servePost_error _ _ _) fun found hfound => ?_
    cases hfound
    cases hanswer : u.guard.answers own.envelope.requestId with
    | none => exact safe_remember { own with stage := .pending t.ports.now } hexpires horigin rfl hrecorded
    | some row =>
      refine servePost_of_answers rfl (hinv.answers _ _ row.2 ?_)
      rw [hanswer]
  · have hu : u' = u := hcases.elim id id
    subst hu
    exact ⟨.error e, by simp only [exec, heq], servePost_error _ _ _⟩

end

end Aseman.Federation
