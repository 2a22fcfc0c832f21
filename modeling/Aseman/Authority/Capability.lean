import Aseman.Lib.OrderedSet
import Aseman.Lib.Result
import Aseman.Ports

/-!
# Capability grants

`aseman-domain`, `capability.rs`: a chain is a grant followed by its ancestors up to its root. It
authorizes only while every link is live, correctly linked, and attenuates its parent; a delegation
receives the intersection of what was requested and what the parent may delegate.
-/

namespace Aseman.Authority

/-! ## The action registry -/

/-- The conditions of a rule; the first one that holds allows. -/
inductive Condition where
  | anyone
  | authenticated
  | selfResource
  | owner
  | sameCreature
  | storeRead
  | storeSignal
  | storeManage
  | secretGrantee
  | counterparty
  | financeOperator
  | nodeAdmin
  | granted
  | never
  deriving DecidableEq

structure RegisteredAction where
  resource : String
  subjects : List SubjectKind
  rule : List Condition
  delegable : Bool

structure ActionRegistry where
  version : String
  actions : OrderedMap String RegisteredAction

/-! ## Grants -/

/-- The resources a grant covers. -/
inductive ResourceSelector where
  | exact (kind id : String)
  | anyOfKind (kind : String)
  deriving DecidableEq

namespace ResourceSelector

def kind : ResourceSelector → String
  | exact kind _ => kind
  | anyOfKind kind => kind

def covers : ResourceSelector → String → String → Bool
  | exact ownKind ownId, kind, id => ownKind == kind && ownId == id
  | anyOfKind ownKind, kind, _ => ownKind == kind

/-- The largest selector inside both, if any. -/
def intersect (s t : ResourceSelector) : Option ResourceSelector :=
  match s, t with
  | anyOfKind left, anyOfKind right => if left = right then some s else none
  | anyOfKind kind, exact _ _ => if t.kind = kind then some t else none
  | exact _ _, anyOfKind kind => if s.kind = kind then some s else none
  | exact _ _, exact _ _ => if s = t then some s else none

def within (s outer : ResourceSelector) : Bool := s.intersect outer == some s

end ResourceSelector

structure Grant where
  id : Uuid
  subject : Subject
  issuer : Subject
  actions : OrderedSet String
  resource : ResourceSelector
  delegableActions : OrderedSet String
  maxDepth : Nat
  parent : Option Uuid
  notBeforeMillis : Int
  expiresAtMillis : Option Int
  revokedAtMillis : Option Int
  policyVersion : String
  deriving DecidableEq

def Grant.liveAt (g : Grant) (nowMillis : Int) : Bool :=
  g.notBeforeMillis ≤ nowMillis && g.expiresAtMillis.all (fun expires => nowMillis < expires) &&
    g.revokedAtMillis.all (fun revoked => nowMillis < revoked)

inductive CapabilityError where
  | brokenChain
  | notLive
  | amplifies
  | notHolder
  | nothingDelegable
  | resourceOutside
  | depthExhausted
  | subjectNotAllowed
  | unknownAction
  deriving DecidableEq

def CapabilityError.text : CapabilityError → String
  | brokenChain => "the grant chain is empty or broken"
  | notLive => "a grant in the chain is not live"
  | amplifies => "a grant in the chain widens its parent"
  | notHolder => "the delegator does not hold the parent grant"
  | nothingDelegable => "nothing requested can be delegated"
  | resourceOutside => "the requested resources are outside the parent grant"
  | depthExhausted => "the parent grant allows no further delegation"
  | subjectNotAllowed => "the subject class may not hold the action"
  | unknownAction => "an action is not registered"

/-! ## Chains -/

def attenuates (child parent : Grant) : Bool :=
  child.parent == some parent.id && child.issuer == parent.subject &&
    decide (child.actions ⊆ parent.delegableActions) &&
    decide (child.delegableActions ⊆ child.actions) &&
    child.resource.within parent.resource &&
    decide (parent.notBeforeMillis ≤ child.notBeforeMillis) &&
    (match child.expiresAtMillis, parent.expiresAtMillis with
      | _, none => true
      | some childExpiry, some parentExpiry => decide (childExpiry ≤ parentExpiry)
      | none, some _ => false) &&
    decide (1 ≤ parent.maxDepth) && decide (child.maxDepth < parent.maxDepth)

/-- The windows of two of a chain. -/
def checkLinks : List Grant → Except CapabilityError Unit
  | child :: parent :: rest => do
      ensure (child.parent = some parent.id) .brokenChain
      ensure (attenuates child parent) .amplifies
      checkLinks (parent :: rest)
  | _ => .ok ()

def checkChain (chain : List Grant) (nowMillis : Int) : Except CapabilityError Unit := do
  let root ← okOr chain.getLast? .brokenChain
  ensure (root.parent = none ∧ root.delegableActions ⊆ root.actions) .brokenChain
  ensure (∀ g ∈ chain, g.liveAt nowMillis) .notLive
  checkLinks chain

def chainAuthorizes (chain : List Grant) (subject : Subject) (action kind id : String)
    (nowMillis : Int) : Bool :=
  chain.head?.any (fun g =>
    g.subject == subject && decide (action ∈ g.actions) && g.resource.covers kind id) &&
    (checkChain chain nowMillis).isOk

/-! ## Delegation -/

structure DelegationRequest where
  id : Uuid
  subject : Subject
  actions : OrderedSet String
  resource : ResourceSelector
  delegableActions : OrderedSet String
  maxDepth : Nat
  notBeforeMillis : Int
  expiresAtMillis : Option Int
  deriving DecidableEq

variable (registry : ActionRegistry)

def delegatedActions (subject : SubjectKind) (kind : String)
    (requested : List String) : Except CapabilityError (OrderedSet String) :=
  requested.foldlM (fun actions action => do
    let registered ← okOr (registry.actions.get action) .unknownAction
    if !registered.delegable || registered.resource ≠ kind then
      pure actions
    else
      ensure (subject ∈ registered.subjects) .subjectNotAllowed
      pure (actions.insert action)) ∅

def delegate (parentChain : List Grant) (delegator : Subject)
    (request : DelegationRequest) (policyVersion : String) (nowMillis : Int) :
    Except CapabilityError Grant := do
  checkChain parentChain nowMillis
  let parent ← okOr parentChain.head? .brokenChain
  ensure (parent.subject = delegator) .notHolder
  ensure (parent.maxDepth ≠ 0) .depthExhausted
  let resource ← okOr (request.resource.intersect parent.resource) .resourceOutside
  let actions ← delegatedActions registry request.subject.kind resource.kind
    (request.actions.inter parent.delegableActions).toList
  ensure (actions ≠ ∅) .nothingDelegable
  return {
    id := request.id
    subject := request.subject
    issuer := delegator
    actions
    resource
    delegableActions := request.delegableActions.inter actions
    maxDepth := min request.maxDepth (parent.maxDepth - 1)
    parent := some parent.id
    notBeforeMillis := max request.notBeforeMillis parent.notBeforeMillis
    expiresAtMillis := match request.expiresAtMillis, parent.expiresAtMillis with
      | some requested, some limit => some (min requested limit)
      | requested, none => requested
      | none, limit => limit
    revokedAtMillis := none
    policyVersion }

/-! ## What the checks say -/

/-- What `attenuates` says of a link, besides the times. -/
structure Attenuates (child parent : Grant) : Prop where
  parent_eq : child.parent = some parent.id
  issuer : child.issuer = parent.subject
  actions : child.actions ⊆ parent.delegableActions
  delegable : child.delegableActions ⊆ child.actions
  resource : child.resource.within parent.resource
  depth : child.maxDepth < parent.maxDepth

theorem attenuates_iff {child parent} :
    attenuates child parent ↔ Attenuates child parent ∧
      parent.notBeforeMillis ≤ child.notBeforeMillis ∧
      ∀ limit, parent.expiresAtMillis = some limit →
        ∃ expires, child.expiresAtMillis = some expires ∧ expires ≤ limit := by
  have hexpiry : (match child.expiresAtMillis, parent.expiresAtMillis with
      | _, none => true
      | some childExpiry, some parentExpiry => decide (childExpiry ≤ parentExpiry)
      | none, some _ => false) = true ↔ ∀ limit, parent.expiresAtMillis = some limit →
        ∃ expires, child.expiresAtMillis = some expires ∧ expires ≤ limit := by
    cases child.expiresAtMillis <;> cases parent.expiresAtMillis <;> simp
  simp only [attenuates, Bool.and_eq_true, hexpiry, beq_iff_eq, decide_eq_true_eq]
  constructor
  · rintro ⟨⟨⟨⟨⟨⟨⟨⟨hparent, hissuer⟩, hactions⟩, hdelegable⟩, hresource⟩, hstart⟩, hexp⟩, -⟩, hdepth⟩
    exact ⟨⟨hparent, hissuer, hactions, hdelegable, hresource, hdepth⟩, hstart, hexp⟩
  · rintro ⟨h, hstart, hexp⟩
    have hpositive : 1 ≤ parent.maxDepth := Nat.one_le_of_lt h.depth
    exact ⟨⟨⟨⟨⟨⟨⟨⟨h.parent_eq, h.issuer⟩, h.actions⟩, h.delegable⟩, h.resource⟩, hstart⟩, hexp⟩,
      hpositive⟩, h.depth⟩

namespace ResourceSelector

theorem intersect_eq_some {s t u} (h : s.intersect t = some u) :
    u = t ∨ u = s ∧ t = anyOfKind s.kind := by
  cases s <;> cases t <;> simp only [intersect] at h <;> split at h <;> cases h
  · next heq => exact .inl heq
  · next heq => exact .inr ⟨rfl, by rw [heq]⟩
  · exact .inl rfl
  · next heq => exact .inl (by rw [heq])

@[simp] theorem intersect_self (s : ResourceSelector) : s.intersect s = some s := by
  cases s <;> simp [intersect]

theorem intersect_anyOfKind (s : ResourceSelector) : s.intersect (anyOfKind s.kind) = some s := by
  cases s <;> simp [intersect, kind]

theorem within_iff {s t} : s.within t ↔ s = t ∨ t = anyOfKind s.kind := by
  rw [within, beq_iff_eq]
  constructor
  · intro h
    rcases intersect_eq_some h with h | ⟨-, h⟩
    · exact .inl h
    · exact .inr h
  · rintro (rfl | h)
    · exact intersect_self s
    · rw [h, intersect_anyOfKind]

theorem within_of_intersect {s t u : ResourceSelector} (h : s.intersect t = some u) :
    u.within t := by
  rw [within_iff]
  rcases intersect_eq_some h with rfl | ⟨rfl, h⟩
  · exact .inl rfl
  · exact .inr h

theorem kind_of_covers {s : ResourceSelector} {kind id : String} (h : s.covers kind id) :
    s.kind = kind := by
  cases s with
  | exact ownKind ownId =>
    simp only [covers, Bool.and_eq_true, beq_iff_eq] at h
    exact h.1
  | anyOfKind ownKind => exact beq_iff_eq.mp h

theorem covers_of_within {s outer : ResourceSelector} (h : s.within outer) {kind id : String}
    (hcovers : s.covers kind id) : outer.covers kind id := by
  rcases within_iff.mp h with rfl | rfl
  · exact hcovers
  · simp [covers, kind_of_covers hcovers]

end ResourceSelector

/-! ## Linked chains -/

/-- The grant, and above it the grants up to the root, each attenuating the next. -/
inductive Linked (root : Grant) : Grant → List Grant → Prop
  | root (hparent : root.parent = none) (hdelegable : root.delegableActions ⊆ root.actions) :
      Linked root root []
  | link {g above : Grant} {rest : List Grant} (hlink : attenuates g above)
      (h : Linked root above rest) : Linked root g (above :: rest)

namespace Linked

variable {root g : Grant} {rest : List Grant}

variable (h : Linked root g rest)

include h

theorem getLast : (g :: rest).getLast? = some root := by
  induction h with
  | root => rfl
  | link _ _ ih => rw [List.getLast?_cons_cons, ih]

theorem root_eq : root.parent = none ∧ root.delegableActions ⊆ root.actions := by
  induction h with
  | root hparent hdelegable => exact ⟨hparent, hdelegable⟩
  | link _ _ ih => exact ih

theorem delegable_subset : g.delegableActions ⊆ g.actions := by
  cases h with
  | root _ hdelegable => exact hdelegable
  | link hlink _ => exact (attenuates_iff.mp hlink).1.delegable

theorem depth : g.maxDepth + rest.length ≤ root.maxDepth := by
  induction h with
  | root => simp
  | link hlink _ ih =>
    have hdepth := (attenuates_iff.mp hlink).1.depth
    rw [List.length_cons]
    omega

/-- An action of the grant may be delegated by every grant above it. -/
theorem actions {action} (haction : action ∈ g.actions) :
    action ∈ root.actions ∧ ∀ above ∈ rest, action ∈ above.delegableActions := by
  induction h with
  | root => exact ⟨haction, by simp⟩
  | @link g above rest hlink hrest ih =>
    have habove : action ∈ above.delegableActions := (attenuates_iff.mp hlink).1.actions _ haction
    obtain ⟨hroot, hall⟩ := ih (hrest.delegable_subset _ habove)
    exact ⟨hroot, List.forall_mem_cons.mpr ⟨habove, hall⟩⟩

/-- A resource that the grant covers is covered by every grant above it. -/
theorem covers {kind id : String} (hcovers : g.resource.covers kind id) :
    ∀ above ∈ g :: rest, above.resource.covers kind id := by
  induction h with
  | root => simpa using hcovers
  | link hlink _ ih =>
    have habove := ResourceSelector.covers_of_within (attenuates_iff.mp hlink).1.resource hcovers
    exact List.forall_mem_cons.mpr ⟨hcovers, ih habove⟩

theorem issuers : (g :: rest).IsChain fun child parent =>
      child.parent = some parent.id ∧ child.issuer = parent.subject := by
  induction h with
  | root => exact .singleton _
  | link hlink _ ih =>
    have hlink := (attenuates_iff.mp hlink).1
    exact .cons_cons ⟨hlink.parent_eq, hlink.issuer⟩ ih

end Linked

theorem checkLinks_of_linked {root g rest} (h : Linked root g rest) :
    checkLinks (g :: rest) = .ok () := by
  induction h with
  | root => rfl
  | link hlink _ ih =>
    have hparent := (attenuates_iff.mp hlink).1.parent_eq
    simp [checkLinks, hlink, hparent, ih]

theorem linked_of_checkLinks {root g rest} (hlast : (g :: rest).getLast? = some root)
    (hparent : root.parent = none) (hdelegable : root.delegableActions ⊆ root.actions)
    (h : checkLinks (g :: rest) = .ok ()) : Linked root g rest := by
  induction rest generalizing g with
  | nil =>
    obtain rfl : g = root := by simpa using hlast
    exact .root hparent hdelegable
  | cons above rest ih =>
    simp only [checkLinks, bind_eq_ok, ensure_eq_ok] at h
    obtain ⟨-, -, -, hlink, hrest⟩ := h
    exact .link hlink (ih hlast hrest)

theorem checkChain_eq_ok {chain nowMillis} :
    checkChain chain nowMillis = .ok () ↔
      ∃ root g rest, chain = g :: rest ∧ Linked root g rest ∧ ∀ a ∈ chain, a.liveAt nowMillis := by
  simp only [checkChain, bind_eq_ok, okOr_eq_ok, ensure_eq_ok]
  constructor
  · rintro ⟨root, hlast, -, ⟨hparent, hdelegable⟩, -, hlive, hlinks⟩
    cases chain with
    | nil => simp at hlast
    | cons g rest =>
      exact ⟨root, g, rest, rfl, linked_of_checkLinks hlast hparent hdelegable hlinks, hlive⟩
  · rintro ⟨root, g, rest, rfl, hlinked, hlive⟩
    exact ⟨root, hlinked.getLast, (), hlinked.root_eq, (), hlive, checkLinks_of_linked hlinked⟩

theorem isOk_eq_true {ε α : Type} {x : Except ε α} : x.isOk = true ↔ ∃ a, x = .ok a := by
  cases x <;> simp [Except.isOk, Except.toBool]

theorem chainAuthorizes_iff {chain : List Grant} {subject : Subject} {action kind id : String}
    {nowMillis : Int} :
    chainAuthorizes chain subject action kind id nowMillis ↔
      ∃ root g rest, chain = g :: rest ∧ Linked root g rest ∧ (∀ a ∈ chain, a.liveAt nowMillis) ∧
        g.subject = subject ∧ action ∈ g.actions ∧ g.resource.covers kind id := by
  have hok : (checkChain chain nowMillis).isOk = true ↔ checkChain chain nowMillis = .ok () := by
    rw [isOk_eq_true]
    exact ⟨fun ⟨_, h⟩ => h, fun h => ⟨_, h⟩⟩
  rw [chainAuthorizes, Bool.and_eq_true, hok, checkChain_eq_ok]
  constructor
  · rintro ⟨hhead, root, g, rest, rfl, hlinked, hlive⟩
    simp only [List.head?_cons, Option.any_some, Bool.and_eq_true, beq_iff_eq,
      decide_eq_true_eq] at hhead
    obtain ⟨⟨hsubject, haction⟩, hcovers⟩ := hhead
    exact ⟨root, g, rest, rfl, hlinked, hlive, hsubject, haction, hcovers⟩
  · rintro ⟨root, g, rest, rfl, hlinked, hlive, hsubject, haction, hcovers⟩
    exact ⟨by simp [hsubject, haction, hcovers], root, g, rest, rfl, hlinked, hlive⟩

/-! ## What a delegation gives -/

def MayDelegate (subject : SubjectKind) (kind action : String) : Prop :=
  ∃ registered, registry.actions.get action = some registered ∧ registered.delegable = true ∧
    registered.resource = kind ∧ subject ∈ registered.subjects

theorem delegatedActions_eq_ok {registry subject kind requested actions}
    (h : delegatedActions registry subject kind requested = .ok actions) :
    ∀ action ∈ actions, action ∈ requested ∧ MayDelegate registry subject kind action := by
  refine foldlM_invariant
    (fun actions => ∀ action ∈ actions, action ∈ requested ∧ MayDelegate registry subject kind action)
    ?_ (by simp) h
  intro before action after hmem hbefore hstep
  simp only [bind_eq_ok, okOr_eq_ok] at hstep
  obtain ⟨registered, hget, hstep⟩ := hstep
  split at hstep
  · obtain rfl := pure_eq_ok.mp hstep
    exact hbefore
  · next hskip =>
    simp only [bind_eq_ok, ensure_eq_ok, pure_eq_ok] at hstep
    obtain ⟨-, hsubject, rfl⟩ := hstep
    simp only [Bool.or_eq_true, Bool.not_eq_true', decide_eq_true_eq, not_or, not_not,
      Bool.not_eq_false] at hskip
    intro action' hmem'
    rcases OrderedSet.mem_insert.mp hmem' with rfl | hmem'
    · exact ⟨hmem, registered, hget, hskip.1, hskip.2, hsubject⟩
    · exact hbefore action' hmem'

/-- **What a delegation gives**: a grant of the chain's holder to the requested subject, inside the
parent, of actions that its class may hold. -/
structure Delegated (registry : ActionRegistry) (parentChain : List Grant) (delegator : Subject)
    (request : DelegationRequest) (nowMillis : Int) (child : Grant) : Prop where
  checked : checkChain parentChain nowMillis = .ok ()
  parent : ∃ parent, parentChain.head? = some parent ∧ attenuates child parent
  id : child.id = request.id
  subject : child.subject = request.subject
  unrevoked : child.revokedAtMillis = none
  actions : ∀ action ∈ child.actions,
    MayDelegate registry child.subject.kind child.resource.kind action

theorem delegate_eq_ok {registry : ActionRegistry} {parentChain : List Grant} {delegator : Subject}
    {request : DelegationRequest} {policyVersion : String} {nowMillis : Int} {child : Grant}
    (h : delegate registry parentChain delegator request policyVersion nowMillis = .ok child) :
    Delegated registry parentChain delegator request nowMillis child := by
  simp only [delegate, bind_eq_ok, okOr_eq_ok, ensure_eq_ok, pure_eq_ok] at h
  obtain ⟨⟨⟩, hchecked, parent, hhead, -, hholder, -, hdepth, resource, hresource, actions, hactions,
    -, -, rfl⟩ := h
  have hloop := delegatedActions_eq_ok hactions
  refine ⟨hchecked, ⟨parent, hhead, attenuates_iff.mpr ⟨⟨rfl, hholder.symm, ?_, ?_, ?_, ?_⟩, ?_, ?_⟩⟩,
    rfl, rfl, rfl, fun action haction => (hloop action haction).2⟩
  · intro action haction
    exact (OrderedSet.mem_inter.mp (OrderedSet.mem_toList.mp (hloop action haction).1)).2
  · intro action haction
    exact (OrderedSet.mem_inter.mp haction).2
  · exact ResourceSelector.within_of_intersect hresource
  · show min request.maxDepth (parent.maxDepth - 1) < parent.maxDepth
    omega
  · exact le_max_right _ _
  · intro limit hlimit
    rw [hlimit]
    cases request.expiresAtMillis with
    | none => exact ⟨limit, rfl, le_rfl⟩
    | some requested => exact ⟨min requested limit, rfl, min_le_right _ _⟩

end Aseman.Authority
