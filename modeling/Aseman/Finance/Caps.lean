import Aseman.Finance.Finality

/-!
# The caps of a quote

A quote carries its beneficiaries twice. `publish_finance_quote` checks the list inside the hold
request; a hold is created with exactly that list, so `settle_hold` pays within it. `settle_pool`
reads the list beside the hold request, which nobody checked. The two settlements agree on quotes
whose second list grants no pair more than the first.
-/

namespace Aseman.Finance

open Json

/-! ## The two lists -/

/-- A row of the hold request's beneficiaries, as `publish_finance_quote` reads it. -/
def quoteRow (raw : Value) : HoldBeneficiary where
  userId := (strField (raw.asObject.getD []) "userId").getD ""
  role := (strField (raw.asObject.getD []) "role").getD ""
  maxAmount := (((raw.asObject.getD []).get "maxAmount").bind Value.asI64).getD 0

def holdRequestRows (quote : Map) : List HoldBeneficiary :=
  ((((quote.get "holdRequest").bind Value.asObject).bind (Map.get · "beneficiaries")).bind
    Value.asArray).getD [] |>.map quoteRow

def granted (rows : List HoldBeneficiary) (userId role : String) : ℤ := (rows.map fun row =>
    if row.userId = userId ∧ row.role = role then row.maxAmount.toInt else 0).sum

/-- The list `settle_pool` reads grants no pair more than the hold request does. -/
def quoteListsAgree (quote : Map) : Bool :=
  match quoteBeneficiaries quote with
  | .ok rows => rows.all fun row =>
    row.maxAmount.toInt ≤ granted (holdRequestRows quote) row.userId row.role
  | .error _ => true

/-- A published quote whose two lists agree. -/
def Call.publishesAgreeing (c : Call) (_ : Ledger) : Bool :=
  match c.op with
  | .publishFinanceQuote input => input.quote.asObject.elim true quoteListsAgree
  | _ => true

theorem granted_nonneg {rows} (h : ∀ row ∈ rows, 0 < row.maxAmount.toInt) (userId role : String) :
    0 ≤ granted rows userId role := by
  apply List.sum_nonneg
  intro x hx
  obtain ⟨row, hrow, rfl⟩ := List.mem_map.mp hx
  have := h row hrow
  split <;> omega

theorem le_granted {rows} (h : ∀ row ∈ rows, 0 < row.maxAmount.toInt) {row} (hrow : row ∈ rows) :
    row.maxAmount.toInt ≤ granted rows row.userId row.role := by
  apply List.single_le_sum
  · intro x hx
    obtain ⟨row', hrow', rfl⟩ := List.mem_map.mp hx
    have := h row' hrow'
    split <;> omega
  · exact List.mem_map.mpr ⟨row, hrow, by simp⟩

/-- A key made of valid parts is the key of no other pair, valid or not: it has one bar. -/
theorem capKey_inj_of_valid {userId role userId' role'} (huser : validFinanceId userId = true)
    (hrole : validFinanceId role = true) (h : capKey userId' role' = capKey userId role) :
    userId' = userId ∧ role' = role := by
  have huser₀ := List.count_eq_zero.mpr (bar_notMem_of_validFinanceId huser)
  have hrole₀ := List.count_eq_zero.mpr (bar_notMem_of_validFinanceId hrole)
  have hcount := congrArg (fun s => s.toList.count '|') h
  simp only [capKey, String.toList_append, String.toList_ofList, List.count_append,
    List.count_singleton_self, huser₀, hrole₀] at hcount
  exact Text.append_inj_of_notMem (List.count_eq_zero.mp (by omega))
    (bar_notMem_of_validFinanceId huser) h

/-! ## What publication checks -/

theorem quoteRow_pos {s : Ledger} {rows : List Value} {total : Int64}
    (h : rows.foldlM (addQuoteCap s) 0 = .ok total) :
    ∀ row ∈ rows.map quoteRow, 0 < row.maxAmount.toInt := by
  have hrows := foldlM_induct (fun _ done => ∀ row ∈ done.map quoteRow, 0 < row.maxAmount.toInt)
    ?_ (by simp) h
  · exact hrows
  · intro total done raw total' hdone hraw row hrow
    simp only [addQuoteCap, bind_eq_ok, ensure_eq_ok, okOr_eq_ok, exists_const,
      not_nonpos_iff_toInt] at hraw
    obtain ⟨object, hobject, ⟨-, hpos, -⟩, -⟩ := hraw
    rw [List.map_append, List.mem_append] at hrow
    rcases hrow with hrow | hrow
    · exact hdone row hrow
    · simp only [List.map_cons, List.map_nil, List.mem_singleton] at hrow
      subst hrow
      simpa [quoteRow, hobject] using hpos

theorem get_publishedQuote {ports caller quote field} (h₁ : field ≠ "quoteIssuerNodeOwnerId")
    (h₂ : field ≠ "publishedAt") :
    (publishedQuote ports caller quote).get field = quote.get field := by
  rw [publishedQuote, Map.get_insert, Map.get_insert, if_neg h₂, if_neg h₁]

theorem holdRequestRows_publishedQuote (ports : Ports) (caller : String) (quote : Map) :
    holdRequestRows (publishedQuote ports caller quote) = holdRequestRows quote := by
  rw [holdRequestRows, holdRequestRows, get_publishedQuote (by decide) (by decide)]

theorem quoteListsAgree_publishedQuote (ports : Ports) (caller : String) (quote : Map) :
    quoteListsAgree (publishedQuote ports caller quote) = quoteListsAgree quote := by
  unfold quoteListsAgree
  rw [holdRequestRows_publishedQuote, quoteBeneficiaries, quoteBeneficiaries,
    get_publishedQuote (by decide) (by decide)]

theorem publishedQuote_ne_nil (ports : Ports) (caller : String) (quote : Map) :
    publishedQuote ports caller quote ≠ [] := by
  intro h
  have hget : (publishedQuote ports caller quote).get "publishedAt" = some (.ofI64 ports.now) := by
    rw [publishedQuote, Map.get_insert, if_pos rfl]
  rw [h] at hget
  cases hget

theorem holdRequestRows_of_request {quote : Map} {input : CreateHoldInput}
    (h : quote.get "holdRequest" = some input.toJson) :
    holdRequestRows quote = input.beneficiaries := by
  have hrow : ∀ b : HoldBeneficiary, quoteRow b.toJson = b := by
    simp [quoteRow, HoldBeneficiary.toJson, obj, Map.ofList, strField, Value.asObject,
      Map.get_insert, Value.asStr]
  have hget : (input.toJson.asObject.bind (Map.get · "beneficiaries")) =
      some (.array (input.beneficiaries.map HoldBeneficiary.toJson)) := by
    simp [CreateHoldInput.toJson, obj, Map.ofList, Value.asObject, Map.get_insert]
  rw [holdRequestRows, h, Option.bind_some, hget]
  simp [Value.asArray, hrow, Function.comp_def]

/-! ## Runs -/

/-- Every quote went through publication with lists that agree, and every hold was created from the
quote it names. -/
structure Quoted (s : Ledger) : Prop where
  quote : ∀ id q, s.quotes.get id = some q →
    q ≠ [] ∧ (∀ row ∈ holdRequestRows q, 0 < row.maxAmount.toInt) ∧ quoteListsAgree q = true
  hold : ∀ id h, s.holds.get id = some h →
    s.quotes.Has h.quoteId (holdRequestRows · = h.beneficiaries) ∧
      ∃ plan : CapPlan, plan.Of h.payerUserId h.beneficiaries

namespace Quoted

variable {s s' : Ledger} {r : Reply} {c : Call}

theorem of_hold (h : Quoted s) (hquotes : s'.quotes = s.quotes)
    (hholds : s.holds.Wrote (fun _ h => s.quotes.Has h.quoteId (holdRequestRows · = h.beneficiaries) ∧
      ∃ plan : CapPlan, plan.Of h.payerUserId h.beneficiaries) s'.holds) : Quoted s' where
  quote := by rw [hquotes]; exact h.quote
  hold := by rw [hquotes]; exact hholds.get h.hold

theorem of_applied (ha : Applied s r s' c) (hagree : c.publishesAgreeing s = true)
    (h : Quoted s) : Quoted s' := by
  cases ha with
  | @publishFinanceQuote ports caller input a =>
    have hquotes : s'.quotes = s.quotes.put a.quoteId (publishedQuote ports caller a.quote) :=
      congrArg Ledger.quotes a.state
    have hholds : s'.holds = s.holds := by rw [a.state]
    -- a published quote is never empty, so the quote id was not in use
    have hnew : s.quotes.get a.quoteId = none := by
      cases hget : s.quotes.get a.quoteId with
      | none => rfl
      | some q =>
        have hempty := a.fresh
        rw [hget] at hempty
        exact absurd hempty (h.quote _ _ hget).1
    have hrows : holdRequestRows a.quote = a.rows.map quoteRow := by
      rw [holdRequestRows, a.hold_get, Option.bind_some, a.rows_get, Option.getD_some]
    simp only [Call.publishesAgreeing, a.object, Option.elim_some] at hagree
    refine ⟨?_, ?_⟩
    · rw [hquotes]
      refine Store.Wrote.get (.put _ _ ⟨publishedQuote_ne_nil _ _ _, ?_, ?_⟩) h.quote
      · rw [holdRequestRows_publishedQuote, hrows]
        exact quoteRow_pos a.rows_read
      · rw [quoteListsAgree_publishedQuote, hagree]
    · intro id hold hget
      rw [hholds] at hget
      obtain ⟨hquote, hplan⟩ := h.hold id hold hget
      refine ⟨?_, hplan⟩
      rw [hquotes]
      refine (Store.Wrote.put _ _ fun ⟨q, hq, _⟩ => ?_).has hquote
      rw [hnew] at hq
      cases hq
  | createHold a =>
    refine h.of_hold (by rw [a.state]; rfl) ?_
    rw [a.state]
    exact .put _ _ ⟨⟨_, a.quote_get, holdRequestRows_of_request a.quote_request⟩, _, a.planned⟩
  | startHold a | settleHold a | releaseHold a =>
    have hhold := h.hold _ _ a.hold_get
    refine h.of_hold (by rw [a.state]; rfl) ?_
    rw [a.state]
    exact .put _ _ hhold
  | _ a =>
    refine h.of_hold (by rw [a.state]; rfl) ?_
    rw [a.state]
    exact .same

theorem of_run {creatures es t}
    (h : Run (GuardedStep Call.publishesAgreeing) (.initial creatures) es t) : Quoted t :=
  h.invariant
    (fun s e s' hstep => GuardedStep.keeps_of (J := fun _ => True)
      (fun _ ha hagree _ => of_applied ha hagree) s e s' hstep trivial)
    ⟨by simp [Ledger.initial], by simp [Ledger.initial]⟩

end Quoted

/-- Lines within caps that grant no pair more than `rows` do stay within `rows`. -/
theorem credited_le_granted {rows : List HoldBeneficiary} {caps : Store String Int64}
    {acc : Allocation} {lines : List SettlementLine}
    (hrows : ∀ row ∈ rows, 0 < row.maxAmount.toInt) (hlines : acc.Of caps lines)
    (hcaps : ∀ userId role cap, validFinanceId userId = true → validFinanceId role = true →
      caps.get (capKey userId role) = some cap → cap.toInt ≤ granted rows userId role)
    (userId role : String) : creditedTo lines userId role ≤ granted rows userId role := by
  by_cases hex : ∃ line ∈ lines, line.userId = userId ∧ line.role = role
  · obtain ⟨line, hline, rfl, rfl⟩ := hex
    obtain ⟨cap, hcap, hle⟩ := hlines.le_cap hline
    obtain ⟨-, huser, hrole, -⟩ := hlines.valid line hline
    rw [roleBook_capKey hlines.valid huser] at hle
    exact hle.trans (hcaps _ _ _ huser hrole hcap)
  · -- nobody is paid under this pair
    rw [creditedTo_eq_zero hex]
    exact granted_nonneg hrows userId role

/-- **Both settlements stay within the quote**: in every run in which only quotes with agreeing
lists are published, an applied settlement of a pool reservation credits no user, under no role,
more than the hold request of its quote grants; and so does a settlement of a hold. -/
theorem settled_within_quote {creatures : Creatures} {es : List Event} {t t' : Ledger} {e : Event}
    {r : Reply} (h : Run (GuardedStep Call.publishesAgreeing) (.initial creatures) es t)
    (hstep : Step t e t') (hr : e.appliedReply = some r) :
    (∀ input, e.call.op = .settlePool input → t.quotes.Has input.quoteId fun quote =>
      ∀ userId role, creditedTo input.lines userId role ≤
        granted (holdRequestRows quote) userId role) ∧
    ∀ input, e.call.op = .settleHold input → t.quotes.Has input.quoteId fun quote =>
      ∀ userId role, creditedTo input.lines userId role ≤
        granted (holdRequestRows quote) userId role := by
  have hquoted := Quoted.of_run h
  rcases hstep.cases with ⟨-, hnone⟩ | ⟨r', -, ha, -⟩
  · rw [hnone] at hr
    cases hr
  obtain ⟨⟨ports, caller, op⟩, result⟩ := e
  refine ⟨?_, ?_⟩
  · rintro input rfl
    cases ha with
    | settlePool a =>
      obtain ⟨-, hpos, hagree⟩ := hquoted.quote _ _ a.quote_get
      simp only [quoteListsAgree, a.rows_read, List.all_eq_true, decide_eq_true_eq] at hagree
      refine ⟨a.quote, a.quote_get, credited_le_granted hpos a.allocated ?_⟩
      intro userId role cap huser hrole hcap
      obtain ⟨row, hrow, hkey, rfl⟩ := readCaps_ok a.caps_read hcap
      obtain ⟨rfl, rfl⟩ := capKey_inj_of_valid huser hrole hkey
      exact hagree row hrow
  · rintro input rfl
    cases ha with
    | settleHold a =>
      obtain ⟨⟨quote, hquote, hrows⟩, plan, hplan⟩ := hquoted.hold _ _ a.hold_get
      obtain ⟨-, hpos, -⟩ := hquoted.quote _ _ hquote
      rw [a.quote] at hquote
      refine ⟨quote, hquote, credited_le_granted hpos a.allocated ?_⟩
      intro userId role cap huser hrole hcap
      obtain ⟨row, hrow, hkey, rfl⟩ := readCaps_ok a.caps_read hcap
      obtain ⟨rfl, rfl⟩ := capKey_inj_of_valid huser hrole hkey
      rw [← hrows] at hrow
      exact le_granted hpos hrow

namespace Sample

/-- A reservation of 100 for the run `run1`. -/
def reservePool (id poolId : String) : Call :=
  ⟨ports id id, "node", .reservePool
    { poolId, payerUserId := "alice", quoteId := "q1", runId := "run1", maxAmount := 100 }⟩

def settlePoolInput (poolId user : String) (amount : Int64) : SettlePoolInput where
  poolId
  payerUserId := "alice"
  quoteId := "q1"
  runId := "run1"
  settlementId := "s1"
  usageHash
  lines := [{ userId := user, role := "dev", amount, sourceRef := "" }]

def settlePool (id poolId user : String) (amount : Int64) : Call :=
  ⟨ports id id, "node", .settlePool (settlePoolInput poolId user amount)⟩

/-- A quote whose hold request pays `bob`, and whose other list pays `carol`. -/
def skewedQuote : Value :=
  .object (((quote "q1" "alice").asObject.getD []).insert "beneficiaries"
    (.array [HoldBeneficiary.toJson { userId := "carol", role := "dev", maxAmount := 100 }]))

/-- A pool of 100 with 100 of it reserved under the given quote. -/
def reserved (quote : Value) : List Call :=
  [mint "id1" "alice" 100, ⟨ports "id2" "id2", "node", .publishFinanceQuote { quote }⟩,
    openPool "id3" "alice" 100, reservePool "id4" "id3"]

end Sample

open Sample

theorem settled_within_quote_of_bob :
    (runCalls (reserved (quote "q1" "alice")) ledger).quotes.Has "q1"
      fun quote => creditedTo (settlePoolInput "id3" "bob" 60).lines "bob" "dev" ≤
        granted (holdRequestRows quote) "bob" "dev" := by
  have hrun : allFresh (reserved (quote "q1" "alice")) ledger = true ∧
      allGuarded Call.publishesAgreeing (reserved (quote "q1" "alice")) ledger = true ∧
      (Sample.settlePool "id5" "id3" "bob" 60).Fresh
        (runCalls (reserved (quote "q1" "alice")) ledger) ∧
      (Event.appliedReply ⟨Sample.settlePool "id5" "id3" "bob" 60,
        ((Sample.settlePool "id5" "id3" "bob" 60).transact
          (runCalls (reserved (quote "q1" "alice")) ledger)).1⟩).isSome =
        true := by
    decide +kernel
  obtain ⟨hfresh, hagree, hsettle, happlied⟩ := hrun
  obtain ⟨r, hr⟩ := Option.isSome_iff_exists.mp happlied
  obtain ⟨quote, hquote, hle⟩ := (settled_within_quote
    (guarded_runCalls Call.publishesAgreeing _ _ hfresh hagree) (Step.of_fresh hsettle) hr).1 _ rfl
  exact ⟨quote, hquote, hle "bob" "dev"⟩

/-- Under a quote whose hold request grants `carol` nothing, the settlement of a reservation pays
`carol` 100. -/
theorem settled_beyond_quote_of_carol : Run Step ledger (callEvents (reserved skewedQuote) ledger)
        (runCalls (reserved skewedQuote) ledger) ∧
      (runCalls (reserved skewedQuote) ledger).quotes.Has "q1"
        (fun quote => granted (holdRequestRows quote) "carol" "dev" = 0 ∧
          granted (holdRequestRows quote) "bob" "dev" = 100) ∧
      (Event.appliedReply ⟨Sample.settlePool "id5" "id3" "carol" 100,
        ((Sample.settlePool "id5" "id3" "carol" 100).transact
          (runCalls (reserved skewedQuote) ledger)).1⟩).isSome = true ∧
      ((Sample.settlePool "id5" "id3" "carol" 100).transact
        (runCalls (reserved skewedQuote) ledger)).2.wallets.amount ("carol", .available) = 100 := by
  have hrun : allFresh (reserved skewedQuote) ledger = true ∧
      ((runCalls (reserved skewedQuote) ledger).quotes.get "q1").any
        (fun quote => granted (holdRequestRows quote) "carol" "dev" = 0 ∧
          granted (holdRequestRows quote) "bob" "dev" = 100) = true ∧
      (Event.appliedReply ⟨Sample.settlePool "id5" "id3" "carol" 100,
        ((Sample.settlePool "id5" "id3" "carol" 100).transact
          (runCalls (reserved skewedQuote) ledger)).1⟩).isSome = true ∧
      ((Sample.settlePool "id5" "id3" "carol" 100).transact
        (runCalls (reserved skewedQuote) ledger)).2.wallets.amount ("carol", .available) = 100 := by
    decide +kernel
  obtain ⟨hfresh, hquote, happlied, hcarol⟩ := hrun
  obtain ⟨quote, hget, hquote⟩ := (Option.any_eq_true _ _).mp hquote
  exact ⟨run_runCalls _ _ hfresh, ⟨quote, hget, of_decide_eq_true hquote⟩, happlied, hcarol⟩

end Aseman.Finance
