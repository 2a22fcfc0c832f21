import Aseman.Finance.Ledger

/-!
# Quotes

`publish_finance_quote`, the only writer of billing quotes: a quote is checked against the billing
catalogue, the registered nodes and the market, and is immutable once published.
-/

namespace Aseman.Finance

open Json

def federatedFinanceObject (value : Value) (label : String) : Result Map := do
  let object ← okOr value.asObject (denied (label ++ " must be an object"))
  ensure (¬ (Value.object object).print.utf8ByteSize > federatedFinanceMaxRecordBytes)
    (denied (label ++ " is too large"))
  pure object

mutual
def federatedFinanceSafeNumbers : Value → Bool
  | .null | .bool _ | .string _ => true
  | .number n =>
    match (Value.number n).asI64 with
    | some n => 0 ≤ n && n ≤ 9007199254740991
    | none => false
  | .array values => safeItems values
  | .object members => safeMembers members

def safeItems : List Value → Bool
  | [] => true
  | value :: rest => federatedFinanceSafeNumbers value && safeItems rest

def safeMembers : List (String × Value) → Bool
  | [] => true
  | (_, value) :: rest => federatedFinanceSafeNumbers value && safeMembers rest
end

def federatedFinanceMarketBucket (kind : String) : Option String :=
  if kind = "agent" then some "agents"
  else if kind = "tool" then some "tools"
  else if kind = "frontend" then some "frontends"
  else none

def nodeField (node : Option Map) (field : String) : Option Value := node.bind (Map.get · field)

def validateFederatedQuoteResource (ports : Ports) (execution : Map) : Result Unit := do
  let resourceId := (strField execution "resourceId").getD ""
  let kind := (strField execution "kind").getD ""
  let bucket ← okOr (federatedFinanceMarketBucket kind)
    (denied "invalid quote execution resource kind")
  ensure (validFinanceId resourceId) (denied "invalid quote execution resource id")
  let entries := ports.marketDoc bucket
  let resource ← okOr ((entries.get resourceId).bind Value.asObject)
    (denied "quoted resource is not globally registered")
  ensure (strField resource "status" = some "approved")
    (denied "quoted resource is not globally approved")
  let nodeOwner := (strField resource "hostNodeOwnerAccountId").getD ""
  let node ← okOr ((ports.billingNodes.get nodeOwner).bind Value.asObject)
    (denied "quoted resource node is not registered")
  ensure (strField node "status" = some "active" ∧
      execution.get "nodeOwnerAccountId" = resource.get "hostNodeOwnerAccountId" ∧
      execution.get "hostOriginId" = resource.get "hostOriginId" ∧
      execution.get "meterProgramId" = resource.get "billingMeterProgramId" ∧
      execution.get "meterCreatureId" = resource.get "billingMeterCreatureId" ∧
      execution.get "meterEntityId" = resource.get "billingMeterEntityId" ∧
      execution.get "nodeRegistrationRevision" = resource.get "nodeRegistrationRevision" ∧
      execution.get "sandboxPerMinuteMinor" = resource.get "nodeSandboxPerMinuteMinor" ∧
      resource.get "hostOriginId" = node.get "originId" ∧
      resource.get "billingMeterProgramId" = node.get "meterProgramId" ∧
      resource.get "billingMeterCreatureId" = node.get "meterCreatureId" ∧
      resource.get "billingMeterEntityId" = node.get "meterEntityId" ∧
      resource.get "nodeRegistrationRevision" = node.get "revision" ∧
      resource.get "nodeSandboxPerMinuteMinor" = node.get "sandboxPerMinuteMinor" ∧
      execution.get "settlementAuthority" = node.get "settlementAuthority")
    (denied "quote execution does not match the active global resource binding")

/-- The loop over the execution resources of a quote. -/
def validateQuoteResources (ports : Ports) (quoteKind quoteResourceId : String) :
    Nat → Store String Bool → List Value → Result Unit
  | _, _, [] => pure ()
  | index, seen, raw :: rest => do
      let row ← okOr raw.asObject (denied "invalid quote execution resource")
      validateFederatedQuoteResource ports row
      let resourceId := (strField row "resourceId").getD ""
      ensure (seen.get resourceId = none) (denied "duplicate quote execution resource")
      ensure (¬ (index = 0 ∧ (strField row "kind" ≠ some quoteKind ∨ resourceId ≠ quoteResourceId)))
        (denied "quote coordinator resource mismatch")
      validateQuoteResources ports quoteKind quoteResourceId (index + 1)
        (seen.put resourceId true) rest

/-- The checks on the execution resources of a quote: a talent quote has none, any other quote
has one to nine, and the first is the coordinator. -/
def validateQuoteExecution (ports : Ports) (quote execution : Map)
    (authority meter meterCreature meterEntity : String) : Result Unit := do
  let quoteKind := (strField quote "kind").getD ""
  let resources ← okOr ((execution.get "resources").bind Value.asArray)
    (denied "quote execution resources missing")
  if quoteKind = "talent" then
    ensure (resources = []) (denied "talent quote cannot contain execution resources")
  else do
    ensure (resources ≠ [] ∧ resources.length ≤ 9) (denied "invalid quote execution resource count")
    validateQuoteResources ports quoteKind ((strField quote "resourceId").getD "") 0 ∅ resources
    let coordinator := (resources.head?.bind Value.asObject).getD []
    ensure (strField coordinator "settlementAuthority" = some authority ∧
        strField coordinator "meterProgramId" = some meter ∧
        strField coordinator "meterCreatureId" = some meterCreature ∧
        strField coordinator "meterEntityId" = some meterEntity)
      (denied "quote coordinator execution mismatch")

/-- One round of the loop over the beneficiaries of a quote's hold request. -/
def addQuoteCap (s : Ledger) (capTotal : Int64) (raw : Value) : Result Int64 := do
  let row ← okOr raw.asObject (denied "invalid quote beneficiary")
  let userId := (strField row "userId").getD ""
  let amount := ((row.get "maxAmount").bind Value.asI64).getD 0
  ensure (validFinanceId userId ∧ ¬ amount ≤ 0 ∧ (s.wallets.account userId).isSome)
    (denied "invalid quote beneficiary")
  okOr (checkedAdd capTotal amount) (denied "quote beneficiary overflow")

def publishedQuote (ports : Ports) (caller : String) (quote : Map) : Map :=
  (quote.insert "quoteIssuerNodeOwnerId" (.string caller)).insert "publishedAt" (.ofI64 ports.now)

def publishFinanceQuote (ports : Ports) (caller : String) (input : PublishFinanceQuoteInput)
    (s : Ledger) : Result (Reply × Ledger) := do
  let quote ← federatedFinanceObject input.quote "finance quote"
  let quoteId := (strField quote "quoteId").getD ""
  let payer := (strField quote "payerUserId").getD ""
  let maxAmount := ((quote.get "maxAmount").bind Value.asI64).getD 0
  let hold ← okOr ((quote.get "holdRequest").bind Value.asObject)
    (denied "quote holdRequest missing")
  let execution ← okOr ((quote.get "executionPlan").bind Value.asObject)
    (denied "quote executionPlan missing")
  let quoteKind := (strField quote "kind").getD ""
  let authority := (strField execution "settlementAuthority").getD ""
  let meter := (strField execution "meterProgramId").getD ""
  let meterCreature := (strField execution "meterCreatureId").getD ""
  let meterEntity := (strField execution "meterEntityId").getD ""
  let pricingVersion := (strField quote "pricingVersion").getD ""
  let catalogExists := pricingVersion ≠ "" ∧ (ports.billingCatalog pricingVersion).getD [] ≠ []
  let issuerNode := (ports.billingNodes.get caller).bind Value.asObject
  let coordinatorNode := (ports.billingNodes.get authority).bind Value.asObject
  let expectedMeter := nodeField coordinatorNode
    (if quoteKind = "talent" then "talentMeterProgramId" else "meterProgramId")
  ensure (validFinanceId quoteId ∧ validFinanceId payer ∧
      quoteKind ∈ ["agent", "tool", "talent"] ∧
      strField ports.billingCurrent "version" = some pricingVersion ∧ catalogExists ∧
      ¬ maxAmount ≤ 0 ∧ ¬ (quoteKind = "talent" ∧ authority ≠ caller) ∧
      (nodeField issuerNode "status").bind Value.asStr = some "active" ∧
      (nodeField coordinatorNode "status").bind Value.asStr = some "active" ∧
      expectedMeter.bind Value.asStr = some meter ∧
      (quoteKind ≠ "talent" →
        (nodeField coordinatorNode "meterCreatureId").bind Value.asStr = some meterCreature ∧
        (nodeField coordinatorNode "meterEntityId").bind Value.asStr = some meterEntity) ∧
      strField hold "quoteId" = some quoteId ∧
      (hold.get "maxAmount").bind Value.asI64 = some maxAmount ∧
      strField hold "settlementAuthority" = some authority ∧
      strField hold "meterProgramId" = some meter ∧
      (s.wallets.account payer).isSome ∧ (s.wallets.account caller).isSome ∧
      federatedFinanceSafeNumbers (.object quote))
    (denied "invalid immutable finance quote")
  validateQuoteExecution ports quote execution authority meter meterCreature meterEntity
  let beneficiaries ← okOr ((hold.get "beneficiaries").bind Value.asArray)
    (denied "quote beneficiaries missing")
  ensure (beneficiaries ≠ [] ∧ beneficiaries.length ≤ financeMaxBeneficiaries)
    (denied "invalid quote beneficiary count")
  let capTotal ← beneficiaries.foldlM (addQuoteCap s) 0
  ensure (capTotal = maxAmount) (denied "quote caps do not equal maxAmount")
  let existing := (s.quotes.get quoteId).getD []
  if existing ≠ [] then do
    let comparable := (existing.remove "quoteIssuerNodeOwnerId").remove "publishedAt"
    ensure (comparable = quote) (denied "quote id is immutable")
    pure (.quote true existing, s)
  else do
    let quote := publishedQuote ports caller quote
    pure (.quote false quote, { s with quotes := s.quotes.put quoteId quote })

structure PublishFinanceQuoteApplied (ports : Ports) (caller : String)
    (input : PublishFinanceQuoteInput) (s : Ledger) (r : Reply) (s' : Ledger) where
  quote : Map
  hold : Map
  rows : List Value
  capTotal : Int64
  quoteId : String
  payer : String
  object : input.quote.asObject = some quote
  hold_get : (quote.get "holdRequest").bind Value.asObject = some hold
  rows_get : (hold.get "beneficiaries").bind Value.asArray = some rows
  rows_read : rows.foldlM (addQuoteCap s) 0 = .ok capTotal
  payer_eq : strField quote "payerUserId" = some payer
  payer_valid : validFinanceId payer = true
  account : (s.wallets.account payer).isSome
  fresh : (s.quotes.get quoteId).getD [] = []
  reply : r = .quote false (publishedQuote ports caller quote)
  state : s' = { s with quotes := s.quotes.put quoteId (publishedQuote ports caller quote) }

theorem publishFinanceQuote_ok {ports caller input s s' r}
    (h : publishFinanceQuote ports caller input s = .ok (r, s')) :
    (s' = s ∧ r.applied = false) ∨
      Nonempty (PublishFinanceQuoteApplied ports caller input s r s') := by
  simp only [publishFinanceQuote, federatedFinanceObject, bind_eq_ok, ensure_eq_ok, okOr_eq_ok,
    pure_eq_ok, exists_const] at h
  obtain ⟨quote, ⟨object, hobject, -, rfl⟩, hold, hold_get, execution, -, hchecks, -, -, rows, rows_get,
    -, total, rows_read, -, h⟩ := h
  obtain ⟨-, payer_valid, -, -, -, -, -, -, -, -, -, -, -, -, -, account, -, -⟩ := hchecks
  split at h <;>
    simp only [bind_eq_ok, ensure_eq_ok, pure_eq_ok, exists_const, Prod.mk.injEq] at h
  · obtain ⟨-, rfl, rfl⟩ := h
    exact .inl ⟨rfl, rfl⟩
  · next hfresh =>
    obtain ⟨rfl, rfl⟩ := h
    obtain ⟨payer, payer_eq⟩ : ∃ payer, strField object "payerUserId" = some payer := by
      cases payer_eq : strField object "payerUserId" with
      | none => simp [payer_eq, validFinanceId] at payer_valid
      | some payer => exact ⟨payer, rfl⟩
    rw [payer_eq] at payer_valid account
    exact .inr ⟨{
      hold, rows, payer, hold_get, rows_get, rows_read, payer_eq, payer_valid, account
      quote := object
      capTotal := total
      quoteId := _
      object := hobject
      fresh := not_ne_iff.mp hfresh
      reply := rfl
      state := rfl }⟩

end Aseman.Finance
