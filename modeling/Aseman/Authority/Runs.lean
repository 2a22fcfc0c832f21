import Aseman.Authority.Grants
import Aseman.Lib.Calls

/-!
# Runs of the grant store

Calls of `IssueGrant`, `DelegateGrant` and `RevokeGrant`, one after the other, on a store that was empty.
A grant that is stored stays, only its revocation may be recorded, and its parent is stored before it; so
every grant has a lineage up to a root that was issued.
-/

namespace Aseman.Authority

open OrderedMap

/-! ## Calls -/

inductive Call where
  | issue (nowMillis : Int) (g : Grant)
  | delegate (nowMillis : Int) (delegator : Subject) (parent : Uuid) (request : DelegationRequest)
      (policyVersion : String)
  | revoke (nowMillis : Int) (id : Uuid)
  deriving DecidableEq

inductive Reply where
  | issued
  | delegated (g : Grant)
  | revoked (closure : List Uuid)
  deriving DecidableEq

variable (registry : ActionRegistry) (store : GrantStore)

/-- The call, and the store after it: an error changes nothing. -/
def Call.execute : Call → Outcome Reply × GrantStore
  | issue nowMillis g =>
    match issueGrant registry store nowMillis g with
    | .ok store => (.ok .issued, store)
    | .error error => (.error error, store)
  | delegate nowMillis delegator parent request policyVersion =>
    match delegateGrant registry store nowMillis delegator parent request policyVersion with
    | .ok (g, store) => (.ok (.delegated g), store)
    | .error error => (.error error, store)
  | revoke nowMillis id =>
    match revokeGrant store nowMillis id with
    | .ok (closure, store) => (.ok (.revoked closure), store)
    | .error error => (.error error, store)

/-- A call and what it returned. -/
structure Event where
  call : Call
  result : Outcome Reply
  deriving DecidableEq

/-- One call. -/
def Step (e : Event) (store' : GrantStore) : Prop :=
  e.call.execute registry store = (e.result, store')

def after (calls : List Call) : List Event × GrantStore :=
  callsFrom (Call.execute registry) Event.mk store calls

theorem run_after (calls : List Call) :
    Run (Step registry) store (after registry store calls).1 (after registry store calls).2 :=
  run_callsFrom (fun _ _ => rfl) store calls

/-! ## What a call does -/

/-- The subject may hold the action on the kind of resource. -/
def MayHold (g : Grant) (action : String) : Prop :=
  ∃ registered, registry.actions.get action = some registered ∧
    registered.resource = g.resource.kind ∧ g.subject.kind ∈ registered.subjects

def Revised (g g' : Grant) : Prop := g' = { g with revokedAtMillis := g'.revokedAtMillis }

inductive Effect (registry : ActionRegistry) (store : GrantStore) : Event → GrantStore → Prop
  | refused {call : Call} {error : ApplicationError} :
      Effect registry store ⟨call, .error error⟩ store
  | issued {nowMillis : Int} {g : Grant} (hparent : g.parent = none)
      (hdelegable : g.delegableActions ⊆ g.actions)
      (hhold : ∀ action ∈ g.actions, MayHold registry g action) (hfresh : store.get g.id = none) :
      Effect registry store ⟨.issue nowMillis g, .ok .issued⟩ (store.insert g.id g)
  | delegated {nowMillis : Int} {delegator : Subject} {parent : Uuid} {request : DelegationRequest}
      {policyVersion : String} {g above : Grant} (habove : store.get parent = some above)
      (hlink : attenuates g above) (hhold : ∀ action ∈ g.actions, MayHold registry g action)
      (hfresh : store.get g.id = none) :
      Effect registry store
        ⟨.delegate nowMillis delegator parent request policyVersion, .ok (.delegated g)⟩
        (store.insert g.id g)
  | revoked {nowMillis : Int} {id : Uuid} {closure : List Uuid} {store' : GrantStore} {g : Grant}
      {at' : Int} (hget : store.get id = some g) (hat : at' ≤ nowMillis)
      (hkeep : ∀ before, g.revokedAtMillis = some before → at' ≤ before)
      (hstore : ∀ id', store'.get id' =
        if id' = id then some { g with revokedAtMillis := some at' } else store.get id') :
      Effect registry store ⟨.revoke nowMillis id, .ok (.revoked closure)⟩ store'

variable {store store' : GrantStore} {g : Grant}

theorem putNew_eq_ok (h : putNew store g = .ok store') :
    store.get g.id = none ∧ store' = store.insert g.id g := by
  unfold putNew at h
  split at h
  · next hput =>
    cases h
    simp only [GrantStore.put, bind_eq_ok, ensure_eq_ok, pure_eq_ok] at hput
    obtain ⟨-, -, -, -, -, -, -, hfresh, rfl⟩ := hput
    exact ⟨hfresh, rfl⟩
  · cases h
  · cases h

theorem forM_eq_ok {ε α : Type} {f : α → Except ε Unit} {l : List α} {u : Unit}
    (h : l.forM f = .ok u) : ∀ a ∈ l, f a = .ok () := by
  induction l with
  | nil => simp
  | cons a l ih =>
    obtain ⟨⟨⟩, ha, hl⟩ := bind_eq_ok.mp h
    exact List.forall_mem_cons.mpr ⟨ha, ih hl⟩

variable {registry : ActionRegistry} {nowMillis : Int}

theorem effect_issue (h : issueGrant registry store nowMillis g = .ok store') :
    Effect registry store ⟨.issue nowMillis g, .ok .issued⟩ store' := by
  simp only [issueGrant, bind_eq_ok, ensure_eq_ok] at h
  obtain ⟨-, hparent, -, ⟨-, hdelegable⟩, ⟨⟩, hactions, -, -, hput⟩ := h
  obtain ⟨hfresh, rfl⟩ := putNew_eq_ok hput
  refine .issued hparent hdelegable (fun action haction => ?_) hfresh
  have haction := forM_eq_ok hactions action haction
  simp only [bind_eq_ok, okOr_eq_ok, ensure_eq_ok] at haction
  obtain ⟨registered, hget, -, hresource, -, hsubject, -⟩ := haction
  exact ⟨registered, hget, hresource, hsubject⟩

theorem head?_ancestors {more chain} (h : ancestors store more g = some chain) :
    chain.head? = some g := by
  unfold ancestors at h
  split at h
  · cases h; rfl
  · split at h
    · cases h
    · split at h
      · obtain ⟨rest, -, rfl⟩ := Option.map_eq_some_iff.mp h
        rfl
      · cases h

theorem effect_delegate {delegator parent request policyVersion}
    (h : delegateGrant registry store nowMillis delegator parent request policyVersion =
      .ok (g, store')) :
    Effect registry store
      ⟨.delegate nowMillis delegator parent request policyVersion, .ok (.delegated g)⟩ store' := by
  simp only [delegateGrant, bind_eq_ok, okOr_eq_ok, mapError_eq_ok, pure_eq_ok] at h
  obtain ⟨above, habove, chain, hchain, child, hdelegate, store'', hput, h⟩ := h
  cases h
  obtain ⟨hfresh, rfl⟩ := putNew_eq_ok hput
  have hdelegated := delegate_eq_ok hdelegate
  obtain ⟨above', hhead, hlink⟩ := hdelegated.parent
  obtain rfl : above = above' := Option.some.inj ((head?_ancestors hchain).symm.trans hhead)
  refine .delegated habove hlink (fun action haction => ?_) hfresh
  obtain ⟨registered, hget, -, hresource, hsubject⟩ := hdelegated.actions action haction
  exact ⟨registered, hget, hresource, hsubject⟩

variable {id : Uuid}

theorem revokeGrant_eq_ok {closure} : revokeGrant store nowMillis id = .ok (closure, store') ↔
    store.revoke id nowMillis = .ok store' ∧
      revocationClosure store' maxRevocationClosure [id] [id] = closure := by
  unfold revokeGrant
  cases hrevoke : store.revoke id nowMillis with
  | ok revoked =>
    simp only [bind_eq_ok, pure_eq_ok, Except.ok.injEq, exists_eq_left', Prod.mk.injEq]
    constructor
    · rintro ⟨rfl, rfl⟩
      exact ⟨rfl, rfl⟩
    · rintro ⟨rfl, rfl⟩
      exact ⟨rfl, rfl⟩
  | error error => cases error <;> simp [refused, bind, Except.bind]

theorem effect_revoke {closure} (h : revokeGrant store nowMillis id = .ok (closure, store')) :
    Effect registry store ⟨.revoke nowMillis id, .ok (.revoked closure)⟩ store' := by
  have hrevoke := (revokeGrant_eq_ok.mp h).1
  simp only [GrantStore.revoke, bind_eq_ok, okOr_eq_ok] at hrevoke
  obtain ⟨g, hget, hrevoke⟩ := hrevoke
  split at hrevoke
  · next hbefore =>
    -- an earlier revocation stands
    obtain rfl := pure_eq_ok.mp hrevoke
    obtain ⟨before, hsome, hle⟩ := (Option.any_eq_true _ _).mp hbefore
    refine .revoked hget (decide_eq_true_eq.mp hle) (fun _ h => ?_) (fun id' => ?_)
    · rw [hsome] at h
      exact (Option.some.inj h).le
    · split
      · next heq => rw [heq, hget, ← hsome]
      · rfl
  · next hbefore =>
    simp only [bind_eq_ok, pure_eq_ok] at hrevoke
    obtain ⟨-, -, rfl⟩ := hrevoke
    refine .revoked hget le_rfl (fun before hsome => ?_) (fun id' => get_insert ..)
    simp only [hsome, Option.any_some, decide_eq_true_eq, not_le] at hbefore
    exact hbefore.le

variable {e : Event}

/-- **One call**. -/
theorem Step.effect (h : Step registry store e store') : Effect registry store e store' := by
  obtain ⟨call, result⟩ := e
  cases call with
  | issue nowMillis g =>
    simp only [Step, Call.execute] at h
    split at h <;> cases h
    · next hok => exact effect_issue hok
    · exact .refused
  | delegate nowMillis delegator parent request policyVersion =>
    simp only [Step, Call.execute] at h
    split at h <;> cases h
    · next hok => exact effect_delegate hok
    · exact .refused
  | revoke nowMillis id =>
    simp only [Step, Call.execute] at h
    split at h <;> cases h
    · next hok => exact effect_revoke hok
    · exact .refused

/-! ## What stays -/

theorem Revised.refl (g : Grant) : Revised g g := rfl

variable {g' : Grant}

theorem Revised.trans {g''} (h : Revised g g') (h' : Revised g' g'') : Revised g g'' := by
  unfold Revised at *
  rw [h', h]

theorem attenuates_of_revised {above above'} (hg : Revised g g') (habove : Revised above above')
    (h : attenuates g above) : attenuates g' above' := by
  rw [hg, habove]
  exact h

/-- Every stored grant stays, with its revocation or an earlier one. -/
theorem Effect.later (h : Effect registry store e store') (hget : store.get id = some g) :
    ∃ g', store'.get id = some g' ∧ Revised g g' ∧ ∀ before, g.revokedAtMillis = some before →
        ∃ at', g'.revokedAtMillis = some at' ∧ at' ≤ before := by
  have hsame : ∀ store' : GrantStore, store'.get id = some g →
      ∃ g', store'.get id = some g' ∧ Revised g g' ∧ ∀ before, g.revokedAtMillis = some before →
        ∃ at', g'.revokedAtMillis = some at' ∧ at' ≤ before :=
    fun _ hget' => ⟨g, hget', .refl g, fun before hbefore => ⟨before, hbefore, le_rfl⟩⟩
  cases h with
  | refused => exact hsame _ hget
  | @issued _ new _ _ _ hfresh | @delegated _ _ _ _ _ new _ _ _ _ hfresh =>
    apply hsame
    rw [get_insert, if_neg (by rintro rfl; simp [hget] at hfresh), hget]
  | @revoked _ id' _ _ g₀ at' hget₀ _ hkeep hstore =>
    by_cases hid : id = id'
    · subst hid
      obtain rfl : g₀ = g := Option.some.inj (hget₀.symm.trans hget)
      exact ⟨{ g₀ with revokedAtMillis := some at' }, by rw [hstore, if_pos rfl], rfl,
        fun before hbefore => ⟨at', rfl, hkeep before hbefore⟩⟩
    · exact hsame _ (by rw [hstore, if_neg hid, hget])

inductive Added (registry : ActionRegistry) (store : GrantStore) (g : Grant) : Event → Prop
  | issued {nowMillis : Int} (hparent : g.parent = none)
      (hdelegable : g.delegableActions ⊆ g.actions) :
      Added registry store g ⟨.issue nowMillis g, .ok .issued⟩
  | delegated {nowMillis : Int} {delegator : Subject} {parent : Uuid} {request : DelegationRequest}
      {policyVersion : String} {above : Grant} (habove : store.get parent = some above)
      (hlink : attenuates g above) :
      Added registry store g
        ⟨.delegate nowMillis delegator parent request policyVersion, .ok (.delegated g)⟩

theorem Effect.origin (h : Effect registry store e store') (hget : store'.get id = some g') :
    (∃ g, store.get id = some g ∧ Revised g g') ∨
      (id = g'.id ∧ Added registry store g' e ∧ ∀ action ∈ g'.actions, MayHold registry g' action) := by
  cases h with
  | refused => exact .inl ⟨g', hget, .refl g'⟩
  | @issued nowMillis g hparent hdelegable hhold _ =>
    rw [get_insert] at hget
    split at hget
    · next hid => cases hget; exact .inr ⟨hid, .issued hparent hdelegable, hhold⟩
    · exact .inl ⟨g', hget, .refl g'⟩
  | @delegated _ _ _ _ _ g above habove hlink hhold _ =>
    rw [get_insert] at hget
    split at hget
    · next hid => cases hget; exact .inr ⟨hid, .delegated habove hlink, hhold⟩
    · exact .inl ⟨g', hget, .refl g'⟩
  | @revoked _ id' _ _ g at' hget₀ _ _ hstore =>
    rw [hstore] at hget
    split at hget
    · next hid =>
      cases hget
      exact .inl ⟨g, hid ▸ hget₀, rfl⟩
    · exact .inl ⟨g', hget, .refl g'⟩

/-! ## Lineages -/

/-- The ids from a grant up to a root. -/
inductive Lineage (store : GrantStore) : Uuid → List Uuid → Prop
  | root {id : Uuid} {g : Grant} (hget : store.grant id = some g) (hparent : g.parent = none) :
      Lineage store id [id]
  | link {id parent : Uuid} {g : Grant} {ids : List Uuid} (hget : store.grant id = some g)
      (hparent : g.parent = some parent) (h : Lineage store parent ids) :
      Lineage store id (id :: ids)

theorem Lineage.later (heffect : Effect registry store e store') {ids} (h : Lineage store id ids) :
    Lineage store' id ids := by
  induction h with
  | root hget hparent =>
    obtain ⟨g', hget', hrevised, -⟩ := heffect.later hget
    exact .root hget' (by rw [hrevised]; exact hparent)
  | link hget hparent _ ih =>
    obtain ⟨g', hget', hrevised, -⟩ := heffect.later hget
    exact .link hget' (by rw [hrevised]; exact hparent) ih

/-! ## The invariant -/

structure Sound (registry : ActionRegistry) (es : List Event) (store : GrantStore) : Prop where
  keyed : ∀ {id g}, store.get id = some g → g.id = id
  issued : ∀ {id g}, store.get id = some g → g.parent = none → g.delegableActions ⊆ g.actions ∧
      ∃ nowMillis g₀, ⟨.issue nowMillis g₀, .ok .issued⟩ ∈ es ∧ Revised g₀ g
  linked : ∀ {id g parent}, store.get id = some g → g.parent = some parent →
    ∃ above, store.get parent = some above ∧ attenuates g above
  held : ∀ {id g}, store.get id = some g → ∀ action ∈ g.actions, MayHold registry g action
  revoked : ∀ {nowMillis id closure}, ⟨.revoke nowMillis id, .ok (.revoked closure)⟩ ∈ es →
    ∃ g at', store.get id = some g ∧ g.revokedAtMillis = some at' ∧ at' ≤ nowMillis
  delegated : ∀ {nowMillis delegator parent request policyVersion g},
    ⟨.delegate nowMillis delegator parent request policyVersion, .ok (.delegated g)⟩ ∈ es →
      ∃ g', store.get g.id = some g' ∧ Revised g g'
  lineage : ∀ {id g}, store.get id = some g → ∃ ids, Lineage store id ids

theorem sound_empty (registry : ActionRegistry) : Sound registry [] ∅ := by
  constructor <;> simp

theorem MayHold.revised {action} (hrevised : Revised g g') (h : MayHold registry g action) :
    MayHold registry g' action := by
  rw [hrevised]
  exact h

theorem Sound.step {es} (h : Sound registry es store) (heffect : Effect registry store e store') :
    Sound registry (es ++ [e]) store' where
  keyed := by
    intro id g' hget
    rcases heffect.origin hget with ⟨g, hget₀, hrevised⟩ | ⟨hid, -⟩
    · have hid := h.keyed hget₀
      rw [hrevised]
      exact hid
    · exact hid.symm
  issued := by
    intro id g' hget hparent
    rcases heffect.origin hget with ⟨g, hget₀, hrevised⟩ | ⟨-, hadded, -⟩
    · obtain ⟨hdelegable, nowMillis, g₀, hmem, hg₀⟩ :=
        h.issued hget₀ (by rw [hrevised] at hparent; exact hparent)
      refine ⟨by rw [hrevised]; exact hdelegable, nowMillis, g₀, ?_, hg₀.trans hrevised⟩
      exact List.mem_append_left _ hmem
    · cases hadded with
      | @issued nowMillis _ hdelegable =>
        exact ⟨hdelegable, nowMillis, g', List.mem_append_right _ (List.mem_singleton_self _),
          .refl g'⟩
      | delegated _ hlink => simp [(attenuates_iff.mp hlink).1.parent_eq] at hparent
  linked := by
    intro id g' parent hget hparent
    rcases heffect.origin hget with ⟨g, hget₀, hrevised⟩ | ⟨-, hadded, -⟩
    · obtain ⟨above, habove, hlink⟩ := h.linked hget₀ (by rw [hrevised] at hparent; exact hparent)
      obtain ⟨above', habove', hrevised', -⟩ := heffect.later habove
      exact ⟨above', habove', attenuates_of_revised hrevised hrevised' hlink⟩
    · cases hadded with
      | issued hnone _ => rw [hnone] at hparent; cases hparent
      | @delegated _ _ parent' _ _ above habove hlink =>
        -- the parent that the child names is the one it was delegated from
        have hid : parent = parent' := by
          rw [(attenuates_iff.mp hlink).1.parent_eq, h.keyed habove] at hparent
          exact (Option.some.inj hparent).symm
        obtain ⟨above', habove', hrevised', -⟩ := heffect.later habove
        exact ⟨above', hid ▸ habove', attenuates_of_revised (.refl g') hrevised' hlink⟩
  held := by
    intro id g' hget action haction
    rcases heffect.origin hget with ⟨g, hget₀, hrevised⟩ | ⟨-, -, hhold⟩
    · exact (h.held hget₀ action (by rw [hrevised] at haction; exact haction)).revised hrevised
    · exact hhold action haction
  revoked := by
    intro nowMillis id closure hmem
    rcases List.mem_append.mp hmem with hmem | hlast
    · obtain ⟨g, at', hget, hat, hle⟩ := h.revoked hmem
      obtain ⟨g', hget', -, hkeep⟩ := heffect.later hget
      obtain ⟨at'', hat', hle'⟩ := hkeep at' hat
      exact ⟨g', at'', hget', hat', hle'.trans hle⟩
    · obtain rfl := List.mem_singleton.mp hlast
      cases heffect with
      | revoked hget hle _ hstore => exact ⟨_, _, by rw [hstore, if_pos rfl], rfl, hle⟩
  delegated := by
    intro nowMillis delegator parent request policyVersion g hmem
    rcases List.mem_append.mp hmem with hmem | hlast
    · obtain ⟨g', hget, hrevised⟩ := h.delegated hmem
      obtain ⟨g'', hget', hrevised', -⟩ := heffect.later hget
      exact ⟨g'', hget', hrevised.trans hrevised'⟩
    · obtain rfl := List.mem_singleton.mp hlast
      cases heffect with
      | delegated _ _ _ _ => exact ⟨g, by rw [get_insert, if_pos rfl], .refl g⟩
  lineage := by
    intro id g' hget
    rcases heffect.origin hget with ⟨g, hget₀, hrevised⟩ | ⟨-, hadded, -⟩
    · obtain ⟨ids, hids⟩ := h.lineage hget₀
      exact ⟨ids, hids.later heffect⟩
    · cases hadded with
      | issued hparent _ => exact ⟨[id], .root hget hparent⟩
      | @delegated _ _ parent' _ _ above habove hlink =>
        obtain ⟨ids, hids⟩ := h.lineage habove
        have hparent : g'.parent = some parent' := by
          rw [(attenuates_iff.mp hlink).1.parent_eq, h.keyed habove]
        exact ⟨id :: ids, .link hget hparent (hids.later heffect)⟩

/-- **Every run** from an empty store. -/
theorem sound_of_run {es} (h : Run (Step registry) ∅ es store) : Sound registry es store := by
  induction h with
  | nil => exact sound_empty registry
  | snoc _ hstep ih => exact ih.step hstep.effect

end Aseman.Authority
