import Aseman.Identity.UseCases

/-!
# What the identity use cases do to the key directory

Authentication leaves it as it is, an introduction or a registration adds one key, and a rotation adds one
key and retires the others of its subject and purpose. Each of these is stated for a use case that
succeeded; where a use case is made of several calls, a failure may leave any part of them done.
-/

namespace Aseman.Identity

/-! ## One call -/

variable {α : Type} {w w' : World}

theorem directory_ok {call : KeyDirectory → Except PortError (α × KeyDirectory)} {a : α}
    (h : directory call w = .ok (.ok a) w') : call w.keys = .ok (a, w'.keys) := by
  unfold directory at h
  cases hc : call w.keys with
  | error e =>
    rcases hf : w.faults with _ | ⟨_ | fault, faults⟩ <;> simp [hc, hf, Except.map] at h
  | ok answer =>
    rcases hf : w.faults with _ | ⟨_ | fault, faults⟩ <;>
      simp only [hc, hf, Except.map, EStateM.Result.ok.injEq, Except.ok.injEq, reduceCtorEq,
        false_and] at h
    all_goals
      obtain ⟨rfl, rfl⟩ := h
      rfl

theorem directory_keys (call : KeyDirectory → Except PortError (α × KeyDirectory)) (w : World) :
    ∃ reply w', directory call w = .ok reply w' ∧
      (w'.keys = w.keys ∨ ∃ a, call w.keys = .ok (a, w'.keys)) := by
  unfold directory
  rcases w.faults with _ | ⟨_ | ⟨error, _ | _⟩, faults⟩ <;> cases call w.keys <;>
    refine ⟨_, _, rfl, ?_⟩ <;> simp <;> exact .inr ⟨_, rfl⟩

theorem readKeys_ok {read : KeyDirectory → α} {a : α} (h : readKeys read w = .ok (.ok a) w') :
    read w.keys = a ∧ w'.keys = w.keys := by
  have hcall := directory_ok h
  simp only [Except.ok.injEq, Prod.mk.injEq] at hcall
  exact ⟨hcall.1, hcall.2.symm⟩

theorem changeKeys_ok {change : KeyDirectory → Except PortError KeyDirectory} {u : Unit}
    (h : changeKeys change w = .ok (.ok u) w') : change w.keys = .ok w'.keys := by
  have hcall := directory_ok h
  cases hc : change w.keys with
  | error e => simp [hc, Except.map] at hcall
  | ok keys => simpa [hc, Except.map] using hcall

theorem changeKeys_keys (change : KeyDirectory → Except PortError KeyDirectory) (w : World) :
    ∃ reply w', changeKeys change w = .ok reply w' ∧
      (w'.keys = w.keys ∨ change w.keys = .ok w'.keys) := by
  obtain ⟨reply, w', heq, hkeys⟩ := directory_keys (fun keys => (change keys).map ((), ·)) w
  refine ⟨reply, w', heq, hkeys.imp_right fun ⟨a, hcall⟩ => ?_⟩
  cases hc : change w.keys with
  | error e => simp [hc, Except.map] at hcall
  | ok keys => simpa [hc, Except.map] using hcall

/-! ## What an answer depends on -/

def ended {α : Type} : Except IdentityFailure α → World → EStateM.Result IdentityFailure World α
  | .ok a, w => .ok a w
  | .error e, w => .error e w

/-- The keys and the faults alone decide how the use case ends, and it leaves the rest as it is. -/
def Determined {α : Type} (x : UseCase α) : Prop :=
  ∀ keys faults, ∃ r faults', ∀ w : World, w.keys = keys → w.faults = faults →
    x w = ended r { w with faults := faults' }

variable {β : Type} {x : UseCase α} {f : α → UseCase β} {verifier : Verifier}

theorem Determined.bind (hx : Determined x) (hf : ∀ a, Determined (f a)) :
    Determined (x >>= f) := by
  intro keys faults
  obtain ⟨r, faults₁, h⟩ := hx keys faults
  cases r with
  | error e =>
    refine ⟨.error e, faults₁, fun w hkeys hfaults => ?_⟩
    exact bind_apply_error.mpr (.inl (h w hkeys hfaults))
  | ok a =>
    obtain ⟨r', faults₂, h'⟩ := hf a keys faults₁
    refine ⟨r', faults₂, fun w hkeys hfaults => ?_⟩
    have hfirst : x w = .ok a { w with faults := faults₁ } := h w hkeys hfaults
    simp only [Bind.bind, EStateM.bind, hfirst]
    exact h' { w with faults := faults₁ } hkeys rfl

theorem Determined.pure (a : α) : Determined (Pure.pure a : UseCase α) :=
  fun _ faults => ⟨.ok a, faults, fun w _ hfaults => by subst hfaults; rfl⟩

theorem Determined.ofExcept {ε : Type} (f : ε → IdentityFailure) (r : Except ε α) :
    Determined (ofExcept f r) := by
  intro keys faults
  cases r with
  | ok a => exact ⟨.ok a, faults, fun w _ hfaults => by subst hfaults; rfl⟩
  | error e => exact ⟨.error (f e), faults, fun w _ hfaults => by subst hfaults; rfl⟩

theorem Determined.readKeys (read : KeyDirectory → α) : Determined (readKeys read) := by
  intro keys faults
  rcases faults with _ | ⟨_ | fault, faults⟩
  · refine ⟨.ok (.ok (read keys)), [], fun w hkeys hfaults => ?_⟩
    simp only [Identity.readKeys, directory, hfaults, hkeys, ended, Except.map]
  · refine ⟨.ok (.ok (read keys)), faults, fun w hkeys hfaults => ?_⟩
    simp only [Identity.readKeys, directory, hfaults, hkeys, ended, Except.map]
  · refine ⟨.ok (.error fault.error), faults, fun w hkeys hfaults => ?_⟩
    simp only [Identity.readKeys, directory, hfaults, ended]
    split <;> simp [hkeys]

theorem Determined.checkProof (now : Int) (proof : Proof) (body : Bytes) (policy : VerifierPolicy) :
    Determined (checkProof verifier now proof body policy) := by
  refine .bind (.readKeys _) fun named => .bind (.ofExcept _ _) fun named => ?_
  refine .bind (.ofExcept _ _) fun key => .bind (.ofExcept _ _) fun _ => ?_
  refine .bind (.ofExcept _ _) fun _ => .bind (.readKeys _) fun stored => ?_
  refine .bind (.ofExcept _ _) fun stored => .bind (.ofExcept _ _) fun _ => ?_
  refine .bind (.ofExcept _ _) fun _ => .bind (.ofExcept _ _) fun _ => ?_
  exact .bind (.ofExcept _ _) fun _ => .bind (.ofExcept _ _) fun _ => .pure _

/-! ## Methods that keep the directory -/

def SameKeys (w w' : World) : Prop := w'.keys = w.keys

/-- A use case that never changes the directory. -/
def Reads {α : Type} (x : UseCase α) : Prop := ∀ w, SameKeys w (endState (x w))

theorem Determined.reads (h : Determined x) : Reads x := by
  intro w
  obtain ⟨r, faults, hx⟩ := h w.keys w.faults
  rw [hx w rfl rfl]
  cases r <;> rfl

theorem Reads.bind (hx : Reads x) (hf : ∀ a, Reads (f a)) : Reads (x >>= f) := by
  intro w
  have hfirst := hx w
  rcases bind_apply_cases x f w with ⟨e, w₁, hxw, hbind⟩ | ⟨a, w₁, hxw, hbind⟩
  · rw [hxw] at hfirst
    rw [hbind]
    exact hfirst
  · rw [hxw] at hfirst
    rw [hbind]
    exact (hf a w₁).trans hfirst

theorem Reads.ofExcept {ε : Type} (f : ε → IdentityFailure) (r : Except ε α) : Reads (ofExcept f r) :=
  (Determined.ofExcept f r).reads

theorem Reads.pure (a : α) : Reads (Pure.pure a) := fun _ => rfl

theorem Reads.recordNonce (keyId : String) (nonce : Bytes) (retainUntil now : Int) :
    Reads (recordNonce keyId nonce retainUntil now) := by
  intro w
  unfold Identity.recordNonce
  dsimp only
  split_ifs <;> rfl

/-- A use case that leaves the directory as it is or changes it once, as `P` says. -/
def Changes {α : Type} (P : KeyDirectory → KeyDirectory → Prop) (x : UseCase α) : Prop :=
  ∀ w, SameKeys w (endState (x w)) ∨ P w.keys (endState (x w)).keys

theorem Changes.after {P} (hx : Reads x) (hf : ∀ a, Changes P (f a)) : Changes P (x >>= f) := by
  intro w
  have hfirst := hx w
  rcases bind_apply_cases x f w with ⟨e, w₁, hxw, hbind⟩ | ⟨a, w₁, hxw, hbind⟩
  · rw [hxw] at hfirst
    rw [hbind]
    exact .inl hfirst
  · rw [hxw] at hfirst
    have hkeys : w₁.keys = w.keys := hfirst
    rw [hbind, SameKeys, ← hkeys]
    exact hf a w₁

theorem Changes.before {P} (hx : Changes P x) (hf : ∀ a, Reads (f a)) : Changes P (x >>= f) := by
  intro w
  have hfirst := hx w
  rcases bind_apply_cases x f w with ⟨e, w₁, hxw, hbind⟩ | ⟨a, w₁, hxw, hbind⟩
  · rw [hxw] at hfirst
    rw [hbind]
    exact hfirst
  · rw [hxw] at hfirst
    have hkeys : (endState (f a w₁)).keys = w₁.keys := hf a w₁
    rw [hbind, SameKeys, hkeys]
    exact hfirst

theorem Reads.authenticateProof (now : Int) (proof : Proof) (body : Bytes)
    (policy : VerifierPolicy) : Reads (authenticateProof verifier now proof body policy) :=
  .bind (Determined.checkProof _ _ _ _).reads fun _ => .bind (.recordNonce _ _ _ _) fun _ =>
    .bind (.ofExcept _ _) fun _ => .pure _

/-! ## What a successful use case did -/

variable {now : Int} {proof : Proof} {policy : VerifierPolicy}

theorem checkProof_ok {body key} (h : checkProof verifier now proof body policy w = .ok key w') :
    w.keys.key proof.keyId = some key ∧ key.epoch.subject = proof.subject ∧
      key.epoch.epoch = proof.keyEpoch ∧
      acceptEpoch ((w.keys.epochs proof.subject key.epoch.purpose).map (·.epoch)) proof.keyEpoch
        proof.context now policy.rotation = .ok () ∧
      proof.window.check now policy.freshness = .ok () ∧
      verifier.bodyDigest body = proof.bodyDigest ∧ verifier.verify proof key = .ok () := by
  simp only [checkProof, ↓ofExcept_bind_ok, bind_apply_ok, okOr_eq_ok, ensure_eq_ok,
    pure_apply_ok] at h
  obtain ⟨_, w₁, hread, named, rfl, key, rfl, _, hsubject, _, hepoch, _, w₂, hread', stored, rfl, _,
    haccept, _, -, ⟨⟩, hfresh, _, hdigest, ⟨⟩, hverify, rfl, -⟩ := h
  obtain ⟨hkey, hkeys⟩ := readKeys_ok hread
  obtain ⟨rfl, -⟩ := readKeys_ok hread'
  rw [hkeys] at haccept
  exact ⟨hkey, hsubject, hepoch, haccept, hfresh, hdigest, hverify⟩

variable {subject : Subject}

theorem authenticateProof_ok {body}
    (h : authenticateProof verifier now proof body policy w = .ok subject w') :
    ∃ key, w.keys.key proof.keyId = some key ∧ key.epoch.subject = proof.subject ∧
      key.epoch.epoch = proof.keyEpoch ∧
      acceptEpoch ((w.keys.epochs proof.subject key.epoch.purpose).map (·.epoch)) proof.keyEpoch
        proof.context now policy.rotation = .ok () ∧
      proof.window.check now policy.freshness = .ok () ∧
      verifier.bodyDigest body = proof.bodyDigest ∧ verifier.verify proof key = .ok () := by
  unfold authenticateProof at h
  rw [bind_apply_ok] at h
  obtain ⟨key, _, hcheck, -⟩ := h
  exact ⟨key, checkProof_ok hcheck⟩

variable {key : NewKey}

theorem canonical_ok {description} (h : canonical verifier key w = .ok description w') :
    description.legacy = false ∧ w' = w := by
  simp only [canonical, ↓ofExcept_bind_ok, ensure_eq_ok, pure_apply_ok] at h
  obtain ⟨_, -, _, hlegacy, rfl, rfl⟩ := h
  exact ⟨by simpa using hlegacy, rfl⟩

theorem registerKey_ok {key u} (h : registerKey key w = .ok u w') :
    w.keys.register key = .ok w'.keys := by
  simp only [registerKey, bind_apply_ok] at h
  obtain ⟨reply, w₁, hcall, h⟩ := h
  rcases reply with (_ | _ | _ | _ | _ | _ | _ | _) | _ <;> cases h
  exact changeKeys_ok hcall

theorem changeKeys_changes (change : KeyDirectory → Except PortError KeyDirectory) :
    Changes (fun keys keys' => change keys = .ok keys') (changeKeys change) := by
  intro w
  obtain ⟨reply, w', heq, hkeys⟩ := changeKeys_keys change w
  rw [heq]
  exact hkeys

theorem registerKey_changes (key : IdentityKey) :
    Changes (fun keys keys' => keys.register key = .ok keys') (registerKey key) :=
  .before (changeKeys_changes _) fun reply _ => by
    rcases reply with (_ | _ | _ | _ | _ | _ | _ | _) | _ <;> rfl

theorem revokeKey_changes (now : Int) (keyId : String) :
    Changes (fun keys keys' => keys.revoke keyId now = .ok keys') (revokeKey now keyId) :=
  .before (changeKeys_changes _) fun reply _ => by
    rcases reply with (_ | _ | _ | _ | _ | _ | _ | _) | _ <;> rfl

theorem Reads.issueChallenge (now : Int) (subject : Subject) (audience : String) (lifetime : Int)
    (nonce : Bytes) : Reads (issueChallenge now subject audience lifetime nonce) :=
  .bind (.ofExcept _ _) fun _ => .bind (fun _ => rfl) fun _ => .pure _

/-- An introduction that changes the directory registers the introduced key. -/
theorem acceptIntroduction_changes (now : Int) (proof : Proof) (introduction : Introduction)
    (policy : VerifierPolicy) :
    Changes (fun keys keys' => ∃ description,
        keys.register (introducedRecord description introduction) = .ok keys')
      (acceptIntroduction verifier now proof introduction policy) := by
  refine .after (.ofExcept _ _) fun _ => .after (.authenticateProof _ _ _ _) fun root => ?_
  refine .after (.ofExcept _ _) fun _ => .after (.ofExcept _ _) fun description => ?_
  refine .after (.ofExcept _ _) fun _ => .before (fun w => ?_) fun _ => .pure _
  exact (registerKey_changes _ w).imp_right fun h => ⟨description, h⟩

theorem retireEach_ok {stored : List IdentityKey} {u : PUnit} (h : (stored.forM fun key => do
      ofExcept .unavailable (← changeKeys (·.retire key.keyId now)) : UseCase PUnit) w = .ok u w') :
    (stored.map (·.keyId)).foldlM (fun keys keyId => keys.retire keyId now) w.keys =
      .ok w'.keys := by
  induction stored generalizing w with
  | nil =>
    obtain ⟨-, rfl⟩ := h
    rfl
  | cons key stored ih =>
    simp only [List.forM_eq_forM, List.forM_cons, bind_apply_ok, ofExcept_apply_ok] at h
    obtain ⟨_, w₁, ⟨_, w₂, hcall, rfl, rfl⟩, hrest⟩ := h
    rw [List.map_cons, List.foldlM_cons, changeKeys_ok hcall]
    exact ih hrest

theorem rotateKey_ok {purpose record}
    (h : rotateKey verifier now subject purpose key w = .ok record w') :
    let existing := w.keys.epochs subject purpose
    ∃ description keys₁, description.legacy = false ∧
      record = epochRecord description key subject purpose (epochAfter existing) now ∧
      w.keys.register record = .ok keys₁ ∧
      ((existing.filter (·.epoch.retiredAtMillis.isNone)).map (·.keyId)).foldlM
        (fun keys keyId => keys.retire keyId now) keys₁ = .ok w'.keys := by
  simp only [rotateKey, ↓ofExcept_bind_ok, bind_apply_ok, pure_apply_ok] at h
  obtain ⟨description, w₁, hcanonical, _, w₂, hread, existing, rfl, _, w₃, hregister, _, w₄, hretire,
    rfl, rfl⟩ := h
  obtain ⟨hlegacy, rfl⟩ := canonical_ok hcanonical
  obtain ⟨rfl, hkeys⟩ := readKeys_ok hread
  have hregistered := registerKey_ok hregister
  rw [hkeys] at hregistered
  exact ⟨description, w₃.keys, hlegacy, rfl, hregistered, retireEach_ok hretire⟩

theorem consumeChallenge_keys {nonce audience answered}
    (h : consumeChallenge nonce subject audience now w = .ok answered w') : w'.keys = w.keys := by
  simp only [consumeChallenge, EStateM.Result.ok.injEq] at h
  rw [← h.2]

/-- A successful enrolment: the subject had no canonical key, and where it had no key at all the legacy
key of the proof was registered before the new one. -/
theorem enrollCanonicalKey_ok {legacy record}
    (h : enrollCanonicalKey verifier now legacy proof key policy w = .ok record w') :
    let existing := w.keys.epochs legacy.subject .authentication
    ∃ old description keys₁, old.keyId = proof.keyId ∧ description.legacy = false ∧
      existing.all (·.epoch.legacy) ∧
      record = epochRecord description key legacy.subject .authentication 1 now ∧
      (existing = [] → w.keys.register (legacyRecord old legacy now) = .ok keys₁) ∧
      (existing ≠ [] → keys₁ = w.keys) ∧ keys₁.register record = .ok w'.keys := by
  unfold enrollCanonicalKey at h
  simp only [↓ofExcept_bind_ok, bind_apply_ok, ensure_eq_ok, pure_apply_ok] at h
  obtain ⟨old, -, _, -, _, -, _, hid, _, -, _, -, _, -, _, -, _, -, _, -, answered, w₁, hconsume, _, -,
    description, w₂, hcanonical, _, w₃, hread, existing, rfl, _, hlegacy, _, w₄, hfirst, _, w₅,
    hregister, rfl, rfl⟩ := h
  obtain ⟨hnew, rfl⟩ := canonical_ok hcanonical
  obtain ⟨rfl, hkeys⟩ := readKeys_ok hread
  rw [consumeChallenge_keys hconsume] at hlegacy hfirst hkeys
  refine ⟨old, description, w₄.keys, hid.symm, hnew, hlegacy, rfl, ?_, ?_, registerKey_ok hregister⟩
  · intro hnone
    rw [if_pos (by simp [hnone])] at hfirst
    have hregistered := registerKey_ok hfirst
    rwa [hkeys] at hregistered
  · intro hsome
    rw [if_neg (by simp [hsome])] at hfirst
    obtain ⟨-, rfl⟩ := hfirst
    exact hkeys

end Aseman.Identity
