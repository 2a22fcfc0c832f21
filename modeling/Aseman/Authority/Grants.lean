import Aseman.Authority.Capability

/-!
# Deciding, issuing, delegating and revoking

`aseman-domain`, `authority.rs` and `aseman-application`, `capability.rs`: the reference evaluator, and the
use cases over a store of grants. A decision loads the chains of the subject's grants and asks the
evaluator.
-/

namespace Aseman.Authority

/-! ## The reference evaluator -/

structure ResourceRef where
  kind : String
  id : String
  deriving DecidableEq

structure PolicyRequest where
  subject : Option Subject
  action : String
  resource : ResourceRef
  facts : List Condition
  grants : List (List Grant)
  atMillis : Int

inductive DecisionReason where
  | allowed
  | unknownAction
  | resourceMismatch
  | forbidden
  | authenticationRequired
  | subjectNotAllowed
  | conditionNotMet
  | providerError
  deriving DecidableEq

structure PolicyDecision where
  allowed : Bool
  reason : DecisionReason
  matched : Option Condition
  considered : List Condition
  grantChain : List Uuid
  registryVersion : String
  policyVersion : String
  deriving DecidableEq

/-- The loop over the rule: the first condition that holds, with the chain that made `granted` hold. -/
def firstHolding (request : PolicyRequest) (subject : Subject) :
    List Condition → Option (Condition × List Uuid)
  | [] => none
  | .anyone :: _ => some (.anyone, [])
  | .authenticated :: _ => some (.authenticated, [])
  | .never :: rest => firstHolding request subject rest
  | .granted :: rest =>
    match request.grants.find? fun chain =>
        chainAuthorizes chain subject request.action request.resource.kind request.resource.id
          request.atMillis with
    | some chain => some (.granted, chain.map (·.id))
    | none => firstHolding request subject rest
  | fact :: rest =>
    if fact ∈ request.facts then some (fact, []) else firstHolding request subject rest

variable (registry : ActionRegistry)

def evaluate (request : PolicyRequest) (policyVersion : String) : PolicyDecision :=
  let decide (reason : DecisionReason) (matched : Option Condition) (considered : List Condition)
      (grantChain : List Uuid) : PolicyDecision :=
    { allowed := reason == .allowed, reason, matched, considered, grantChain
      registryVersion := registry.version, policyVersion }
  match registry.actions.get request.action with
  | none => decide .unknownAction none [] []
  | some action =>
    let considered := action.rule
    if request.resource.kind ≠ action.resource then
      decide .resourceMismatch none considered []
    else if .never ∈ action.rule then
      decide .forbidden none considered []
    else
      match request.subject with
      | none =>
        if .anyone ∈ action.rule then decide .allowed (some .anyone) considered []
        else decide .authenticationRequired none considered []
      | some subject =>
        if subject.kind ∉ action.subjects then
          decide .subjectNotAllowed none considered []
        else
          match firstHolding request subject action.rule with
          | some (condition, chain) => decide .allowed (some condition) considered chain
          | none => decide .conditionNotMet none considered []

/-! ## The store of grants

A put refuses a taken id, a revocation keeps an earlier one, and a listing is one page in the order of
the ids. Times are kept in microseconds. -/

abbrev GrantStore := OrderedMap Uuid Grant

def maxQueryLimit : Nat := 10000

namespace GrantStore

variable (store : GrantStore)

def grant (id : Uuid) : Option Grant := store.get id

def grantsOf (subject : Subject) : List Grant :=
  ((store.entries.map (·.2)).filter fun g => g.subject = subject).take maxQueryLimit

def children (parent : Uuid) : List Grant :=
  ((store.entries.map (·.2)).filter fun g => g.parent = some parent).take maxQueryLimit

/-- `micros`, without its result. -/
def fitsMicros (millis : Int) : Except PortError Unit :=
  ensure (-2 ^ 63 ≤ millis * 1000 ∧ millis * 1000 < 2 ^ 63)
    (.failed "grant time overflows microseconds")

def put (g : Grant) : Except PortError GrantStore := do
  fitsMicros g.notBeforeMillis
  g.expiresAtMillis.forM fitsMicros
  g.revokedAtMillis.forM fitsMicros
  ensure (store.get g.id = none) .conflict
  return store.insert g.id g

def revoke (id : Uuid) (atMillis : Int) : Except PortError GrantStore := do
  let g ← okOr (store.get id) .notFound
  if g.revokedAtMillis.any fun revoked => revoked ≤ atMillis then
    return store
  else
    fitsMicros atMillis
    return store.insert id { g with revokedAtMillis := some atMillis }

end GrantStore

/-! ## Chains of the store -/

/-- The longest chain loaded. -/
def maxChainLength : Nat := 16

def ancestors (store : GrantStore) : Nat → Grant → Option (List Grant)
  | more, g =>
    match g.parent with
    | none => some [g]
    | some parent =>
      match more with
      | 0 => none
      | more + 1 =>
        match store.grant parent with
        | some above => (ancestors store more above).map (g :: ·)
        | none => none

variable (store : GrantStore)

/-- The chain of the grant; `none` when a link is missing or the chain is too long. -/
def chainOf (g : Grant) : Option (List Grant) :=
  ancestors store (maxChainLength - 1) g

def loadChains (subject : Subject) (action : String) : List (List Grant) :=
  (store.grantsOf subject).filterMap fun g =>
    if action ∈ g.actions then chainOf store g else none

/-- `Authorize::decide`, with the reference evaluator. -/
def authorize (policyVersion : String) (store : GrantStore)
    (subject : Option Subject) (action : String) (resource : ResourceRef) (facts : List Condition)
    (atMillis : Int) : PolicyDecision :=
  let grants := match subject with
    | some subject => loadChains store subject action
    | none => []
  evaluate registry { subject, action, resource, facts, grants, atMillis } policyVersion

/-! ## The use cases -/

inductive ApplicationError where
  | denied (message : String)
  | port (error : PortError)
  deriving DecidableEq

abbrev Outcome (α : Type) := Except ApplicationError α

def refused {α : Type} (message : String) : Outcome α := .error (.denied message)

/-- `put` of a use case: a taken id is refused. -/
def putNew (g : Grant) : Outcome GrantStore :=
  match store.put g with
  | .ok store => .ok store
  | .error .conflict => refused "the grant already exists"
  | .error error => .error (.port error)

/-- `IssueGrant::execute`. -/
def issueGrant (nowMillis : Int) (g : Grant) : Outcome GrantStore := do
  ensure (g.parent = none) (.denied "a root grant has no parent; delegate instead")
  ensure (g.actions ≠ ∅ ∧ g.delegableActions ⊆ g.actions)
    (.denied "delegable actions must be granted actions")
  g.actions.toList.forM fun action => do
    let registered ← okOr (registry.actions.get action) (.denied "unknown action")
    ensure (registered.resource = g.resource.kind)
      (.denied "the action does not apply to the resource")
    ensure (g.subject.kind ∈ registered.subjects)
      (.denied "the subject class may not hold the action")
    ensure (action ∈ g.delegableActions → registered.delegable)
      (.denied "the action is not delegable")
  ensure (∀ expires, g.expiresAtMillis = some expires → nowMillis < expires)
    (.denied "the grant has already expired")
  putNew store g

/-- `DelegateGrant::execute`. -/
def delegateGrant (nowMillis : Int)
    (delegator : Subject) (parent : Uuid) (request : DelegationRequest) (policyVersion : String) :
    Outcome (Grant × GrantStore) := do
  let parent ← okOr (store.grant parent) (.denied "unknown parent grant")
  let chain ← okOr (chainOf store parent) (.denied "the parent chain is broken")
  let child ← (delegate registry chain delegator request policyVersion nowMillis).mapError
    fun error => .denied error.text
  let store ← putNew store child
  return (child, store)

def maxRevocationClosure : Nat := 10000

/-- The loop of `RevokeGrant::execute` over the grants whose children are not listed yet; every grant is
pushed once, so it ends within `maxRevocationClosure` rounds. -/
def revocationClosure (store : GrantStore) : Nat → List Uuid → List Uuid → List Uuid
  | 0, closure, _ => closure
  | _, closure, [] => closure
  | rounds + 1, closure, next :: pending =>
    let step := fun (acc : List Uuid × List Uuid × Bool) (child : Grant) =>
      if acc.2.2 then acc
      else if maxRevocationClosure ≤ acc.1.length then (acc.1, acc.2.1, true)
      else if child.id ∈ acc.1 then acc
      else (acc.1 ++ [child.id], acc.2.1 ++ [child.id], false)
    match (store.children next).foldl step (closure, pending, false) with
    | (closure, _, true) => closure
    | (closure, pending, false) => revocationClosure store rounds closure pending

/-- `RevokeGrant::execute`. -/
def revokeGrant (nowMillis : Int) (id : Uuid) : Outcome (List Uuid × GrantStore) := do
  let store ← match store.revoke id nowMillis with
    | .ok store => .ok store
    | .error .notFound => refused "unknown grant"
    | .error error => .error (.port error)
  return (revocationClosure store maxRevocationClosure [id] [id], store)

end Aseman.Authority
