import Aseman.Authority.Runs

/-!
# What a decision rests on

A decision through the condition `granted` rests on a chain of stored grants, which goes up to a root that
`IssueGrant` accepted; authority is never widened on the way. In the other direction, a grant that was
delegated authorizes as long as it and its ancestors are live, if its chain is not longer than what
`chain_of` loads, and its subject holds no more grants than one page lists.
-/

namespace Aseman.Authority

variable {registry : ActionRegistry} {store : GrantStore} {es : List Event}

/-! ## The evaluator -/

variable {request : PolicyRequest} {subject : Subject} {ids : List Uuid}

theorem granted_of_firstHolding {rule}
    (h : firstHolding request subject rule = some (.granted, ids)) :
    ∃ chain ∈ request.grants, chainAuthorizes chain subject request.action request.resource.kind
      request.resource.id request.atMillis ∧ ids = chain.map (·.id) := by
  fun_induction firstHolding request subject rule with
  | case5 rest chain hfind =>
    cases h
    exact ⟨chain, List.mem_of_find?_eq_some hfind, by simpa using List.find?_some hfind, rfl⟩
  | case4 rest ih => exact ih h
  | case6 rest _ ih => exact ih h
  | case7 fact rest _ _ _ hgranted _ =>
    -- the facts that a caller establishes are other conditions
    cases h
    exact absurd rfl hgranted
  | case8 fact rest _ _ _ _ _ ih => exact ih h
  | _ => cases h

variable {chain : List Grant}

theorem isSome_firstHolding {rule} (hrule : .granted ∈ rule) (hchain : chain ∈ request.grants)
    (h : chainAuthorizes chain subject request.action request.resource.kind request.resource.id
      request.atMillis) : (firstHolding request subject rule).isSome := by
  fun_induction firstHolding request subject rule with
  | case1 => simp at hrule
  | case4 rest ih => exact ih (by simpa using hrule)
  | case6 rest hnone ih =>
    have := List.find?_eq_none.mp hnone chain hchain
    simp [h] at this
  | case8 fact rest _ _ _ hgranted _ ih =>
    exact ih ((List.mem_cons.mp hrule).resolve_left fun heq => hgranted heq.symm)
  | _ => rfl

theorem granted_of_evaluate {policyVersion}
    (h : (evaluate registry request policyVersion).matched = some .granted) :
    ∃ subject, request.subject = some subject ∧ ∃ chain ∈ request.grants,
      chainAuthorizes chain subject request.action request.resource.kind request.resource.id
        request.atMillis := by
  simp only [evaluate] at h
  split at h
  · cases h
  · split at h
    · cases h
    · split at h
      · cases h
      · split at h
        · split at h <;> cases h
        · next subject hsubject =>
          split at h
          · cases h
          · split at h
            · next condition ids hholding =>
              obtain rfl : condition = .granted := Option.some.inj h
              obtain ⟨chain, hmem, hauthorizes, -⟩ := granted_of_firstHolding hholding
              exact ⟨subject, hsubject, chain, hmem, hauthorizes⟩
            · cases h

theorem allowed_of_chain {policyVersion registered}
    (hget : registry.actions.get request.action = some registered)
    (hresource : request.resource.kind = registered.resource) (hnever : .never ∉ registered.rule)
    (hsubject : request.subject = some subject) (hkind : subject.kind ∈ registered.subjects)
    (hrule : .granted ∈ registered.rule) (hchain : chain ∈ request.grants)
    (h : chainAuthorizes chain subject request.action request.resource.kind request.resource.id
      request.atMillis) : (evaluate registry request policyVersion).allowed = true := by
  obtain ⟨⟨condition, ids⟩, hholding⟩ :=
    Option.isSome_iff_exists.mp (isSome_firstHolding hrule hchain h)
  simp [evaluate, hget, hresource, hnever, hsubject, hkind, hholding]

/-! ## The chains of the store -/

variable {g : Grant}

theorem mem_grantsOf (h : g ∈ store.grantsOf subject) :
    g.subject = subject ∧ ∃ id, store.get id = some g := by
  have hmem := List.mem_filter.mp (List.mem_of_mem_take h)
  obtain ⟨⟨id, g'⟩, hentry, rfl⟩ := List.mem_map.mp hmem.1
  exact ⟨by simpa using hmem.2, id, OrderedMap.get_eq_some_iff.mpr hentry⟩

theorem stored_of_ancestors (hsound : Sound registry es store) {more}
    (hget : store.grant g.id = some g) (h : ancestors store more g = some chain) :
    ∀ a ∈ chain, store.grant a.id = some a := by
  induction more generalizing g chain with
  | zero =>
    unfold ancestors at h
    split at h
    · cases h
      simpa using hget
    · cases h
  | succ more ih =>
    unfold ancestors at h
    split at h
    · cases h
      simpa using hget
    · next parent hparent =>
      dsimp only at h
      split at h
      · next above habove =>
        obtain ⟨rest, hrest, rfl⟩ := Option.map_eq_some_iff.mp h
        have hid : above.id = parent := hsound.keyed habove
        exact List.forall_mem_cons.mpr ⟨hget, ih (hid ▸ habove) hrest⟩
      · cases h

/-! ## No authority amplification -/

/-- The chain of grants behind an allowed action: from a grant of the subject up to an issued root. -/
structure Backed (es : List Event) (store : GrantStore) (subject : Subject) (action : String)
    (resource : ResourceRef) (atMillis : Int) (root g : Grant) (rest : List Grant) : Prop where
  stored : ∀ a ∈ g :: rest, store.grant a.id = some a
  holder : g.subject = subject
  root_eq : (g :: rest).getLast? = some root
  issued : ∃ nowMillis g₀, ⟨.issue nowMillis g₀, .ok .issued⟩ ∈ es ∧ Revised g₀ root
  live : ∀ a ∈ g :: rest, a.liveAt atMillis
  granted : action ∈ root.actions
  delegable : ∀ a ∈ rest, action ∈ a.delegableActions
  covers : ∀ a ∈ g :: rest, a.resource.covers resource.kind resource.id
  issuers : (g :: rest).IsChain fun child parent =>
    child.parent = some parent.id ∧ child.issuer = parent.subject
  depth : rest.length ≤ root.maxDepth
  unrevoked : ∀ nowMillis id closure, ⟨.revoke nowMillis id, .ok (.revoked closure)⟩ ∈ es →
    id ∈ (g :: rest).map (·.id) → atMillis < nowMillis

theorem lt_of_revoked (hsound : Sound registry es store) {atMillis nowMillis closure}
    (hget : store.grant g.id = some g) (hlive : g.liveAt atMillis)
    (h : ⟨.revoke nowMillis g.id, .ok (.revoked closure)⟩ ∈ es) : atMillis < nowMillis := by
  obtain ⟨g', at', hget', hat, hle⟩ := hsound.revoked h
  obtain rfl : g = g' := Option.some.inj (hget.symm.trans hget')
  simp only [Grant.liveAt, Bool.and_eq_true, hat, Option.all_some, decide_eq_true_eq] at hlive
  exact hlive.2.trans_le hle

/-- In every run of `IssueGrant`, `DelegateGrant` and `RevokeGrant` from an empty store, a decision
through the condition `granted` rests on a chain of live stored grants up to an issued root, none of
which widens its parent. -/
theorem granted_rests_on_chain (registry : ActionRegistry) {es : List Event} {store : GrantStore}
    (h : Run (Step registry) ∅ es store) {policyVersion action : String} {subject : Subject}
    {resource : ResourceRef} {facts : List Condition} {atMillis : Int}
    (hgranted : (authorize registry policyVersion store (some subject) action resource facts
      atMillis).matched = some .granted) :
    ∃ root g rest, Backed es store subject action resource atMillis root g rest := by
  have hsound := sound_of_run h
  obtain ⟨subject', hsubject, chain, hchain, hauthorizes⟩ := granted_of_evaluate hgranted
  obtain rfl : subject = subject' := Option.some.inj hsubject
  obtain ⟨root, g, rest, rfl, hlinked, hlive, hholder, haction, hcovers⟩ :=
    chainAuthorizes_iff.mp hauthorizes
  obtain ⟨leaf, hleaf, hload⟩ := List.mem_filterMap.mp hchain
  have hload : chainOf store leaf = some (g :: rest) := by
    split at hload
    · exact hload
    · cases hload
  obtain rfl : g = leaf := Option.some.inj (head?_ancestors hload)
  -- the leaf is listed under its id, and its ancestors are found under theirs
  obtain ⟨-, id, hget⟩ := mem_grantsOf hleaf
  have hget : store.grant g.id = some g := (hsound.keyed hget).symm ▸ hget
  have hstored := stored_of_ancestors hsound hget hload
  have hroot : root ∈ g :: rest := List.mem_of_getLast? hlinked.getLast
  have hactions := hlinked.actions haction
  refine ⟨root, g, rest, hstored, hholder, hlinked.getLast, ?_, hlive, hactions.1, hactions.2,
    hlinked.covers hcovers, hlinked.issuers, ?_, ?_⟩
  · exact (hsound.issued (hstored root hroot) hlinked.root_eq.1).2
  · have := hlinked.depth
    omega
  · intro nowMillis id closure hrevoked hmem
    obtain ⟨a, ha, rfl⟩ := List.mem_map.mp hmem
    exact lt_of_revoked hsound (hstored a ha) (hlive a ha) hrevoked

/-- One action on stores, which users may hold and delegate. -/
def sampleRegistry : ActionRegistry where
  version := "1"
  actions := .ofList [("store.signal",
    { resource := "store", subjects := [.user], rule := [.granted], delegable := true })]

def sampleUser (id : Uuid) : Subject := ⟨.user, id⟩

/-- A root grant of user 1, which allows `depth` delegations below it. -/
def sampleRoot (depth : Nat) : Grant where
  id := 0
  subject := sampleUser 1
  issuer := sampleUser 0
  actions := .ofList ["store.signal"]
  resource := .anyOfKind "store"
  delegableActions := .ofList ["store.signal"]
  maxDepth := depth
  parent := none
  notBeforeMillis := 0
  expiresAtMillis := none
  revokedAtMillis := none
  policyVersion := "1"

/-- User 1 delegates the grant `parent` on, for one store. -/
def sampleDelegation (parent id : Uuid) (subject : Subject) : Call :=
  .delegate 10 (sampleUser 1) parent
    { id, subject, actions := .ofList ["store.signal"], resource := .exact "store" "s"
      delegableActions := .ofList ["store.signal"], maxDepth := 100, notBeforeMillis := 0
      expiresAtMillis := none } "1"

/-- A root, one delegation, and its revocation in the future. -/
def sampleCalls : List Call :=
  [.issue 0 (sampleRoot 1), sampleDelegation 0 1 (sampleUser 2), .revoke 50 1]

theorem granted_rests_on_chain_sample :
    (authorize sampleRegistry "1" (after sampleRegistry ∅ sampleCalls).2 (some (sampleUser 2))
      "store.signal" ⟨"store", "s"⟩ [] 20).matched = some .granted ∧
    ∃ root g rest, Backed (after sampleRegistry ∅ sampleCalls).1
      (after sampleRegistry ∅ sampleCalls).2 (sampleUser 2) "store.signal" ⟨"store", "s"⟩ 20
      root g rest := by
  have hgranted : (authorize sampleRegistry "1" (after sampleRegistry ∅ sampleCalls).2
      (some (sampleUser 2)) "store.signal" ⟨"store", "s"⟩ [] 20).matched = some .granted := by
    decide +kernel
  exact ⟨hgranted, granted_rests_on_chain sampleRegistry (run_after _ _ _) hgranted⟩

/-! ## A delegated grant works -/

variable {id : Uuid}

theorem ancestors_of_lineage (hsound : Sound registry es store) (h : Lineage store id ids) {more}
    (hmore : ids.length ≤ more + 1) (hget : store.grant id = some g) :
    ∃ root rest, ancestors store more g = some (g :: rest) ∧ Linked root g rest ∧
      ∀ a ∈ g :: rest, a.id ∈ ids ∧ store.grant a.id = some a := by
  induction h generalizing more g with
  | @root id g' hget' hparent =>
    obtain rfl : g = g' := Option.some.inj (hget.symm.trans hget')
    have hid : g.id = id := hsound.keyed hget
    refine ⟨g, [], by unfold ancestors; simp [hparent],
      .root hparent (hsound.issued hget hparent).1, ?_⟩
    simp [hid, hget]
  | @link id parent g' ids hget' hparent hparents ih =>
    obtain rfl : g = g' := Option.some.inj (hget.symm.trans hget')
    have hid : g.id = id := hsound.keyed hget
    obtain ⟨above, habove, hlink⟩ := hsound.linked hget hparent
    cases more with
    | zero => cases hparents <;> simp at hmore
    | succ more =>
      have hlength : ids.length ≤ more + 1 := by simpa using hmore
      obtain ⟨root, rest, hload, hlinked, hall⟩ := ih hlength habove
      refine ⟨root, above :: rest, ?_, .link hlink hlinked, ?_⟩
      · unfold ancestors
        simp only [hparent]
        have habove' : store.grant parent = some above := habove
        simp [habove', hload]
      · refine List.forall_mem_cons.mpr ⟨⟨by simp [hid], hid ▸ hget⟩, ?_⟩
        intro a ha
        exact ⟨List.mem_cons_of_mem _ (hall a ha).1, (hall a ha).2⟩

def allGrantsOf (store : GrantStore) (subject : Subject) : List Grant :=
  (store.entries.map (·.2)).filter fun g => g.subject = subject

theorem mem_loadChains {action} (hget : store.grant id = some g) (hsubject : g.subject = subject)
    (haction : action ∈ g.actions) (hpage : (allGrantsOf store subject).length ≤ maxQueryLimit)
    (hload : chainOf store g = some chain) : chain ∈ loadChains store subject action := by
  refine List.mem_filterMap.mpr ⟨g, ?_, by simp [haction, hload]⟩
  have hall : store.grantsOf subject = allGrantsOf store subject := List.take_of_length_le hpage
  rw [hall]
  refine List.mem_filter.mpr ⟨List.mem_map.mpr ⟨(id, g), ?_, rfl⟩, by simpa using hsubject⟩
  exact OrderedMap.get_eq_some_iff.mp hget

/-- In every run from an empty store, a grant that `DelegateGrant` returned has a lineage, and as long as
that has at most 16 grants and its subject's grants fit on one page, `Authorize` allows its actions on
its resources at every time at which the whole lineage is live. -/
theorem delegated_grant_authorizes (registry : ActionRegistry) {es : List Event} {store : GrantStore}
    (h : Run (Step registry) ∅ es store) {nowMillis : Int} {delegator : Subject} {parent : Uuid}
    {request : DelegationRequest} {version : String} {g : Grant}
    (hdelegated : ⟨.delegate nowMillis delegator parent request version, .ok (.delegated g)⟩ ∈ es) :
    ∃ ids, Lineage store g.id ids ∧
      (ids.length ≤ maxChainLength → (allGrantsOf store g.subject).length ≤ maxQueryLimit →
        ∀ atMillis, (∀ id ∈ ids, ∀ a, store.grant id = some a → a.liveAt atMillis) →
        ∀ action ∈ g.actions, ∀ registered, registry.actions.get action = some registered →
        .granted ∈ registered.rule → .never ∉ registered.rule →
        ∀ kind id, g.resource.covers kind id → ∀ facts policyVersion,
          (authorize registry policyVersion store (some g.subject) action ⟨kind, id⟩ facts
            atMillis).allowed = true) := by
  have hsound := sound_of_run h
  obtain ⟨g', hget, hrevised⟩ := hsound.delegated hdelegated
  obtain ⟨ids, hids⟩ := hsound.lineage hget
  refine ⟨ids, hids, ?_⟩
  intro hlength hpage atMillis hlive action haction registered hregistered hrule hnever kind id
    hcovers facts policyVersion
  obtain ⟨root, rest, hload, hlinked, hall⟩ := ancestors_of_lineage hsound hids hlength hget
  have hsubject : g'.subject = g.subject := by rw [hrevised]
  have haction' : action ∈ g'.actions := by rw [hrevised]; exact haction
  have hcovers' : g'.resource.covers kind id := by rw [hrevised]; exact hcovers
  -- the registered action fits the grant, as it did when it was delegated
  obtain ⟨registered', hregistered', hresource, hkind⟩ := hsound.held hget action haction'
  obtain rfl : registered = registered' := Option.some.inj (hregistered.symm.trans hregistered')
  refine allowed_of_chain hregistered ?_ hnever rfl (hsubject ▸ hkind) hrule
    (mem_loadChains hget hsubject haction' hpage hload) ?_
  · exact (ResourceSelector.kind_of_covers hcovers').symm.trans hresource.symm
  · refine chainAuthorizes_iff.mpr ⟨root, g', rest, rfl, hlinked, ?_, hsubject, haction', hcovers'⟩
    intro a ha
    exact hlive a.id (hall a ha).1 a (hall a ha).2

/-- A root and `links` delegations, each from the one before; the last is to user 2. -/
def sampleChain (links : Nat) : List Call :=
  .issue 0 (sampleRoot 16) :: (List.range links).map fun i =>
    sampleDelegation (Fin.ofNat _ i) (Fin.ofNat _ (i + 1))
      (if i + 1 = links then sampleUser 2 else sampleUser 1)

/-- The last grant of such a chain. -/
def sampleLeaf (links : Nat) : Grant :=
  { sampleRoot 16 with
    id := Fin.ofNat _ links, subject := sampleUser 2, issuer := sampleUser 1
    resource := .exact "store" "s", maxDepth := 16 - links, parent := some (Fin.ofNat _ (links - 1)) }

/-- Sixteen delegations below one root all succeed, and every grant is live, but the chain of the last
one has 17 grants: it is not loaded, and the grant allows nothing. -/
theorem long_chain_not_loaded :
    Run (Step sampleRegistry) ∅ (after sampleRegistry ∅ (sampleChain 16)).1
        (after sampleRegistry ∅ (sampleChain 16)).2 ∧
      ⟨sampleDelegation 15 16 (sampleUser 2), .ok (.delegated (sampleLeaf 16))⟩ ∈
        (after sampleRegistry ∅ (sampleChain 16)).1 ∧
      (∀ e ∈ (after sampleRegistry ∅ (sampleChain 16)).2.entries, e.2.liveAt 20) ∧
      "store.signal" ∈ (sampleLeaf 16).actions ∧ (sampleLeaf 16).resource.covers "store" "s" ∧
      (authorize sampleRegistry "1" (after sampleRegistry ∅ (sampleChain 16)).2 (some (sampleUser 2))
        "store.signal" ⟨"store", "s"⟩ [] 20).allowed = false := by
  refine ⟨run_after _ _ _, ?_⟩
  decide +kernel

theorem Lineage.length_of_root (h : Lineage store id ids) (parent : Uuid)
    (hchild : (store.grant id).map (·.parent) = some (some parent))
    (hroot : (store.grant parent).map (·.parent) = some none) : ids.length = 2 := by
  cases h with
  | root hget hparent => simp [hget, hparent] at hchild
  | link hget hparent h =>
    obtain rfl : _ = parent := by simpa [hget, hparent] using hchild
    cases h with
    | root => rfl
    | link hget' hparent' _ => simp [hget', hparent'] at hroot

theorem delegated_grant_authorizes_sample :
    (authorize sampleRegistry "1" (after sampleRegistry ∅ (sampleChain 1)).2 (some (sampleUser 2))
      "store.signal" ⟨"store", "s"⟩ [] 20).allowed = true := by
  have hdelegated : ⟨sampleDelegation 0 1 (sampleUser 2), .ok (.delegated (sampleLeaf 1))⟩ ∈
      (after sampleRegistry ∅ (sampleChain 1)).1 := by
    decide +kernel
  obtain ⟨ids, hids, hallowed⟩ :=
    delegated_grant_authorizes sampleRegistry (run_after _ _ _) hdelegated
  have hlength : ids.length = 2 := hids.length_of_root 0 (by decide +kernel) (by decide +kernel)
  have hlive : ∀ e ∈ (after sampleRegistry ∅ (sampleChain 1)).2.entries, e.2.liveAt 20 := by
    decide +kernel
  refine hallowed (by rw [hlength]; decide) (by decide +kernel) 20 ?_ "store.signal"
    (by decide +kernel)
    { resource := "store", subjects := [.user], rule := [.granted], delegable := true } rfl
    (by decide) (by decide) "store" "s" (by decide) [] "1"
  intro id _ a hget
  exact hlive (id, a) (OrderedMap.get_eq_some_iff.mp hget)

end Aseman.Authority
