import Aseman.Services.Auto

/-!
# Leases

`coordination.rs`: fenced singleton leases in the storage. A replica that acquires a lease gets a token
above every token before it. The decision is taken on the row as it was read first, and the update reads
the row again; where no lease changes in between, tokens are unique and rise, and a lease is taken over
only once it has expired.
-/

namespace Aseman.Services.Coordination

open Aseman.Storage OrderedMap

variable {I : Type}

/-! ## The rules -/

structure Lease where
  name : String
  instance_ : String
  token : Nat
  acquiredAtMillis : Int
  expiresAtMillis : Int
  deriving DecidableEq

inductive Acquisition
  | granted (lease : Lease)
  | held (holder : String) (expiresAtMillis : Int)
  deriving DecidableEq

inductive CoordinationError
  | invalidToken
  | tokenOverflow
  | invalidTtl

def CoordinationError.text : CoordinationError → String
  | invalidToken => "a fencing token starts at 1"
  | tokenOverflow => "the fencing token counter is exhausted"
  | invalidTtl => "a lease time to live is positive"

/-- `FencingToken::next`. -/
def nextToken (token : Nat) : Except CoordinationError Nat :=
  if token + 1 < 2 ^ 64 then .ok (token + 1) else .error .tokenOverflow

/-- `i64::saturating_add`. -/
def saturatingAdd (a b : Int) : Int := max (-2 ^ 63) (min (a + b) (2 ^ 63 - 1))

def wrappingAdd (a b : Int) : Int := (a + b).bmod (2 ^ 64)

def planAcquisition (name : String) (current : Option Lease) (instance_ : String)
    (nowMillis ttlMillis : Int) : Except CoordinationError Acquisition :=
  if ttlMillis ≤ 0 then .error .invalidTtl
  else
    let grant (token : Nat) : Acquisition :=
      .granted ⟨name, instance_, token, nowMillis, saturatingAdd nowMillis ttlMillis⟩
    match current with
    | some lease =>
      if lease.expiresAtMillis > nowMillis ∧ lease.instance_ ≠ instance_ then
        .ok (.held lease.instance_ lease.expiresAtMillis)
      else (nextToken lease.token).map grant
    | none => .ok (grant 1)

/-! ## The rows -/

/-- `core.coordination_lease`. -/
def leaseModel : Model where
  name := "core.coordination_lease"
  keyFamily := some "CoordinationLease"
  fields := .ofList [("key", .text), ("instance", .text), ("token", .integer),
    ("acquired_at_millis", .integer), ("expires_at_millis", .integer)]
  required := ["key", "instance", "token", "acquired_at_millis", "expires_at_millis"]
  unique := [["key"]]

/-- `coordination_lease::CoordinationLease`. -/
structure LeaseRow where
  key : String
  instance_ : String
  token : Int
  acquiredAtMillis : Int
  expiresAtMillis : Int
  deriving DecidableEq

open LeaseRow

/-- `CoordinationLease::from_row`. -/
def LeaseRow.fromRow (row : Row I) : Except StorageError LeaseRow := do
  let key ← required Value.asText leaseModel.name row "key"
  let instance_ ← required Value.asText leaseModel.name row "instance"
  let token ← required Value.asInt leaseModel.name row "token"
  let acquiredAtMillis ← required Value.asInt leaseModel.name row "acquired_at_millis"
  let expiresAtMillis ← required Value.asInt leaseModel.name row "expires_at_millis"
  pure ⟨key, instance_, token, acquiredAtMillis, expiresAtMillis⟩

/-- `coordination::token`. -/
def tokenOf (value : Int) : Except PortError Nat :=
  if value < 0 then .error (.failed "out of range integral type conversion attempted")
  else if value = 0 then .error (.failed CoordinationError.invalidToken.text)
  else .ok value.toNat

/-- `coordination::stored`. -/
def storedToken (token : Nat) : Except PortError Int :=
  if token < 2 ^ 63 then .ok token
  else .error (.failed "out of range integral type conversion attempted")

/-- `coordination::lease`. -/
def leaseOf (name : String) (row : LeaseRow) : Except PortError Lease := do
  let token ← tokenOf row.token
  pure ⟨name, row.instance_, token, row.acquiredAtMillis, row.expiresAtMillis⟩

def leaseOf? (name : String) : Option LeaseRow → Except PortError (Option Lease)
  | some row => (leaseOf name row).map some
  | none => .ok none

/-! ## The calls -/

variable [LinearOrder I] (env : Env I) (name : String)

def findLease : Code I (Option LeaseRow) := do
  Prog.ofExcept (typed fromRow (← findUnique env leaseModel.name (.key name)))

def updateLease (data : Data I) : Code I (Option LeaseRow) := do
  Prog.ofExcept (typed fromRow (← update env .readWrite leaseModel.name (.key name) data))

def writeLease (current : Option LeaseRow) (granted : Lease) (token : Int)
    (generated : I) : Code I Unit :=
  match current with
  | some _ => do
      let _ ← updateLease env name (.ofList [("instance", .text granted.instance_),
        ("token", .int token), ("acquired_at_millis", .int granted.acquiredAtMillis),
        ("expires_at_millis", .int granted.expiresAtMillis)])
      pure ()
  | none => do
      let row ← create env .readWrite leaseModel.name (.ofList [("key", .text name),
        ("instance", .text granted.instance_), ("token", .int token),
        ("acquired_at_millis", .int granted.acquiredAtMillis),
        ("expires_at_millis", .int granted.expiresAtMillis)]) generated
      let _ ← Prog.ofExcept (fromRow row)
      pure ()

def acquireOnce (name instance_ : String) (ttlMillis : Int) (generated : I) :
    Code I (Except PortError Acquisition) := do
  let nowMillis ← now
  let current ← findLease env name
  match leaseOf? name current with
  | .error e => pure (.error e)
  | .ok currentLease =>
    match planAcquisition name currentLease instance_ nowMillis ttlMillis with
    | .error e => pure (.error (.failed e.text))
    | .ok (.held holder expiresAtMillis) => pure (.ok (.held holder expiresAtMillis))
    | .ok (.granted granted) =>
      match storedToken granted.token with
      | .error e => pure (.error e)
      | .ok token => do
          writeLease env name current granted token generated
          pure (.ok (.granted granted))

def renewOnce (held : Lease) (heldToken ttlMillis : Int) :
    Code I (Except PortError (Option Lease)) := do
  let nowMillis ← now
  match ← findLease env held.name with
  | none => pure (.ok none)
  | some row =>
    if row.instance_ ≠ held.instance_ ∨ row.token ≠ heldToken ∨ row.expiresAtMillis ≤ nowMillis then
      pure (.ok none)
    else do
      let renewed ← updateLease env held.name
        (.ofList [("expires_at_millis", .int (wrappingAdd nowMillis ttlMillis))])
      pure (leaseOf? held.name renewed)

def releaseOnce (held : Lease) (heldToken : Int) : Code I (Except PortError Unit) := do
  let nowMillis ← now
  match ← findLease env held.name with
  | none => pure (.ok ())
  | some row =>
    if row.instance_ = held.instance_ ∧ row.token = heldToken then do
      let _ ← updateLease env held.name
        (.ofList [("expires_at_millis", .int (max row.acquiredAtMillis nowMillis))])
      pure (.ok ())
    else pure (.ok ())

/-- A call of `StorageCoordination`, with the id that `create` would generate for a model without
keys. -/
inductive Call (I : Type)
  | acquire (name instance_ : String) (ttlMillis : Int) (generated : I)
  | renew (held : Lease) (ttlMillis : Int)
  | release (held : Lease)

/-- What a call returns. -/
inductive Outcome
  | acquired (acquisition : Acquisition)
  | renewed (lease : Option Lease)
  | released
  deriving DecidableEq

def Call.leaseName : Call I → String
  | acquire name _ _ _ => name
  | renew held _ => held.name
  | release held => held.name

/-- The instance that makes the call. -/
def Call.replica : Call I → String
  | acquire _ instance_ _ _ => instance_
  | renew held _ => held.instance_
  | release held => held.instance_

/-- `acquire`, `renew` and `release`. -/
def Call.code : Call I → Prog (Op I) Op.Ans PortError Outcome
  | acquire name instance_ ttlMillis generated => do
      let acquisition ← decide (acquireOnce env name instance_ ttlMillis generated)
      pure (.acquired acquisition)
  | renew held ttlMillis =>
    if ttlMillis ≤ 0 then .fail (.denied "a lease time to live is positive")
    else do
      let heldToken ← Prog.ofExcept (storedToken held.token)
      let lease ← decide (renewOnce env held heldToken ttlMillis)
      pure (.renewed lease)
  | release held => do
      let heldToken ← Prog.ofExcept (storedToken held.token)
      decide (releaseOnce env held heldToken)
      pure .released

/-! ## What the calls do -/

variable {r : LeaseRow}

omit [LinearOrder I] in
theorem LeaseRow.fromRow_eq_ok {row : Row I} (h : fromRow row = .ok r) :
    (row.get "instance").asText = some r.instance_ ∧ (row.get "token").asInt = some r.token ∧
      (row.get "expires_at_millis").asInt = some r.expiresAtMillis := by
  simp only [fromRow, bind_eq_ok] at h
  obtain ⟨key, -, instance_, hinstance, token, htoken, acquired, -, expires, hexpires, h⟩ := h
  cases h
  exact ⟨required_eq_ok hinstance, required_eq_ok htoken, required_eq_ok hexpires⟩

def leaseKey : Key I := (leaseModel.name, env.forKey "CoordinationLease" name)

def leaseAt (m : Capsules I) : Option LeaseRow :=
  (liveRow leaseModel (m.get (leaseKey env name))).bind fun row => (fromRow row).toOption

def tokenAt (m : Capsules I) : Int := (leaseAt env name m).elim 0 (·.token)

variable {env}

variable {name : String} {c : Capsule I}

theorem leaseAt_put (m : Capsules I) (hlive : c.tombstone = false)
    (hrow : fromRow (decode leaseModel c) = .ok r) :
    leaseAt env name (m.put (leaseKey env name) c) = some r := by
  simp [leaseAt, liveRow, hlive, hrow, Except.toOption]

variable {m : Capsules I}

theorem leaseAt_of_none (h : liveRow leaseModel (m.get (leaseKey env name)) = none) :
    leaseAt env name m = none := by
  rw [leaseAt, h]
  rfl

theorem leaseAt_of_some (hget : m.get (leaseKey env name) = some c) (hlive : c.tombstone = false)
    (hrow : fromRow (decode leaseModel c) = .ok r) : leaseAt env name m = some r := by
  simp [leaseAt, liveRow, hget, hlive, hrow, Except.toOption]

section

variable {Call ε ρ : Type} {prog : Call → Prog (Op I) Op.Ans ε ρ} {b s : Shared I} {trx : Trx I}
  {name : String} {v : Option (Capsule I)}

variable (hmodel : env.model leaseModel.name = some leaseModel)

include hmodel

theorem safe_findLease (hopen : trx.Open (terms I)) (hwrites : trx.writes = []) :
    Safe (calm env (terms I) prog) (fun r _ s trx => trx.Open (terms I) ∧ ∀ current, r = .ok current →
      ∃ v, typed fromRow (liveRow leaseModel v) = .ok current ∧
        At (terms I) (leaseKey env name) v s trx) (findLease env name) b s trx := by
  rw [findLease, findUnique_key hmodel rfl]
  refine (safe_live_fresh hopen hwrites).bind ?_ ?_
  · rintro _ b s trx ⟨v, ⟨⟩, -, hat⟩
    exact ⟨hat.isOpen, fun current h => ⟨v, h, hat⟩⟩
  · rintro e b s trx ⟨v, h, -⟩
    cases h

theorem safe_updateLease {data}
    (h : At (terms I) (leaseKey env name) v s trx) :
    Safe (calm env (terms I) prog) (fun r _ s trx => trx.Open (terms I) ∧ ∀ found, r = .ok found →
      (found = none ∧ liveRow leaseModel v = none ∧ At (terms I) (leaseKey env name) v s trx) ∨
      ∃ c row, v = some c ∧ c.tombstone = false ∧ found = some row ∧
        fromRow (decode leaseModel (updated leaseModel c data)) = .ok row ∧
        Pending (terms I) (leaseKey env name) v (updated leaseModel c data) s trx)
      (updateLease env name data) b s trx := by
  refine (safe_update_at hmodel rfl h).bind ?_ ?_
  · rintro found b s trx ⟨hopen, hfound⟩
    refine ⟨hopen, fun r hr => ?_⟩
    rcases typed_eq_ok hr with ⟨rfl, rfl⟩ | ⟨row, m, rfl, hrow, rfl⟩
    · exact .inl ⟨rfl, hfound⟩
    · obtain ⟨c, rfl, hlive, rfl, hpending⟩ := hfound
      exact .inr ⟨c, m, rfl, hlive, rfl, hrow, hpending⟩
  · exact fun e b s trx h => ⟨h.1, nofun⟩

end

/-- A lease is granted: the token is above the last one, and no other holder's lease was unexpired. -/
structure Grants (env : Env I) (name instance_ : String) (lease : Lease) (m m' : Capsules I) :
    Prop where
  above : tokenAt env name m < lease.token
  stored : tokenAt env name m' = lease.token
  expired : ∀ row, leaseAt env name m = some row → row.instance_ ≠ instance_ →
    row.expiresAtMillis ≤ lease.acquiredAtMillis

def Acquires (env : Env I) (name instance_ : String) (acquisition : Acquisition) (m m' : Capsules I) :
    Prop :=
  match acquisition with
  | .granted lease => Grants env name instance_ lease m m'
  | .held _ _ => m' = m

variable {instance_ : String} {ttlMillis : Int}

theorem planAcquisition_granted {current nowMillis lease}
    (h : planAcquisition name current instance_ nowMillis ttlMillis = .ok (.granted lease)) :
    lease.acquiredAtMillis = nowMillis ∧ (current = none ∧ lease.token = 1 ∨ ∃ l, current = some l ∧
      lease.token = l.token + 1 ∧ (l.instance_ ≠ instance_ → l.expiresAtMillis ≤ nowMillis)) := by
  unfold planAcquisition at h
  split at h
  · cases h
  · split at h
    · next l =>
      split at h
      · cases h
      · next hfree =>
        simp only [nextToken] at h
        split at h
        · cases h
          refine ⟨rfl, .inr ⟨l, rfl, rfl, fun hne => ?_⟩⟩
          by_contra hlt
          exact hfree ⟨not_le.mp hlt, hne⟩
        · cases h
    · cases h
      exact ⟨rfl, .inl ⟨rfl, rfl⟩⟩

variable {row : LeaseRow}

theorem leaseOf?_some {l} (h : leaseOf? name (some row) = .ok l) :
    ∃ lease, l = some lease ∧ (lease.token : Int) = row.token ∧ lease.instance_ = row.instance_ ∧
        lease.expiresAtMillis = row.expiresAtMillis := by
  simp only [leaseOf?, leaseOf, tokenOf] at h
  split at h
  · cases h
  · split at h
    · cases h
    · next hneg hzero =>
      cases h
      exact ⟨_, rfl, Int.toNat_of_nonneg (not_lt.mp hneg), rfl, rfl⟩

section

variable {Call ε ρ : Type} {prog : Call → Prog (Op I) Op.Ans ε ρ} {b s : Shared I} {trx : Trx I}
  {name : String} {v : Option (Capsule I)}

theorem grants_of_plan {current currentLease nowMillis token lease}
    (htyped : typed fromRow (liveRow leaseModel v) = .ok current)
    (hlease : leaseOf? name current = .ok currentLease)
    (hplan : planAcquisition name currentLease instance_ nowMillis ttlMillis = .ok (.granted lease))
    (htoken : storedToken lease.token = .ok token) (hm : m.get (leaseKey env name) = v)
    (hlive : c.tombstone = false) (hrow : fromRow (decode leaseModel c) = .ok row)
    (hstored : row.token = token) :
    Grants env name instance_ lease m (m.put (leaseKey env name) c) := by
  have hcast : token = lease.token := by
    unfold storedToken at htoken
    split at htoken <;> cases htoken
    rfl
  have hafter : tokenAt env name (m.put (leaseKey env name) c) = lease.token := by
    rw [tokenAt, leaseAt_put m hlive hrow, Option.elim_some, hstored, hcast]
  obtain ⟨hnow, hplan⟩ := planAcquisition_granted hplan
  subst hm
  rcases typed_eq_ok htyped with ⟨hnone, rfl⟩ | ⟨found, r, hsome, hr, rfl⟩
  · have hfree := leaseAt_of_none hnone
    cases hlease
    rcases hplan with ⟨-, hone⟩ | ⟨l, h, -⟩
    · exact ⟨by rw [tokenAt, hfree, hone]; decide, hafter, fun row h => by rw [hfree] at h; cases h⟩
    · cases h
  · obtain ⟨c', hget, hlive', rfl⟩ := liveRow_eq_some hsome
    have hat := leaseAt_of_some hget hlive' hr
    obtain ⟨l, rfl, hl, hinstance, hexpires⟩ := leaseOf?_some hlease
    rcases hplan with ⟨h, -⟩ | ⟨l', h, hnext, hfree⟩
    · cases h
    · cases h
      refine ⟨by rw [tokenAt, hat, Option.elim_some]; omega, hafter, fun row h hne => ?_⟩
      rw [hat] at h
      cases h
      rw [← hexpires, hnow]
      exact hfree (hinstance ▸ hne)

theorem tokenAt_put_updated {row' data} (hget : m.get (leaseKey env name) = some c)
    (hlive : c.tombstone = false) (hrow : fromRow (decode leaseModel c) = .ok row)
    (hdata : data.get "token" = none)
    (hrow' : fromRow (decode leaseModel (updated leaseModel c data)) = .ok row') :
    tokenAt env name (m.put (leaseKey env name) (updated leaseModel c data)) = tokenAt env name m := by
  rw [tokenAt, tokenAt, leaseAt_put m rfl hrow', leaseAt_of_some hget hlive hrow]
  have htoken' := (fromRow_eq_ok hrow').2.1
  rw [get_updated, hdata] at htoken'
  exact Option.some.inj (htoken'.symm.trans (fromRow_eq_ok hrow).2.1)

variable (hmodel : env.model leaseModel.name = some leaseModel)

include hmodel

theorem safe_writeLease
    {current : Option LeaseRow} (hcurrent : typed fromRow (liveRow leaseModel v) = .ok current)
    {granted : Lease} {token : Int} {generated : I}
    (h : At (terms I) (leaseKey env name) v s trx) :
    Safe (calm env (terms I) prog) (fun r _ s trx => trx.Open (terms I) ∧ ∀ u, r = .ok u →
      ∃ c row, c.tombstone = false ∧ fromRow (decode leaseModel c) = .ok row ∧
        row.token = token ∧ Pending (terms I) (leaseKey env name) v c s trx)
      (writeLease env name current granted token generated) b s trx := by
  rcases typed_eq_ok hcurrent with ⟨hnone, rfl⟩ | ⟨row, r, hsome, -, rfl⟩
  · have hkey : ∀ i t a e, (ofList [("key", (.text name : Value I)), ("instance", i),
        ("token", t), ("acquired_at_millis", a), ("expires_at_millis", e)]).get "key" =
          some (.text name) := by
      simp [ofList]
    refine (safe_create_at hmodel rfl (hkey ..) h).bind ?_ ?_
    · rintro row b s trx ⟨hopen, hrow⟩
      refine Safe.check (fun _ _ => ⟨hopen, by simp⟩) fun r hr => ?_
      obtain ⟨-, rfl, hpending⟩ := hrow row rfl
      refine ⟨hopen, fun _ _ => ⟨_, r, ?_, hr, ?_, hpending⟩⟩
      · rfl
      · have htoken := (fromRow_eq_ok hr).2.1
        rw [get_decode_encode, if_pos (by rfl)] at htoken
        simpa [Data.field, ofList, Value.asInt, eq_comm] using htoken
    · exact fun e b s trx h => ⟨h.1, by simp⟩
  · refine (safe_updateLease hmodel h).bind ?_ ?_
    · rintro found b s trx ⟨hopen, hfound⟩
      rcases hfound found rfl with ⟨rfl, hnone, -⟩ | ⟨c, row', rfl, -, rfl, hrow', hpending⟩
      · rw [hnone] at hsome
        cases hsome
      · refine ⟨hopen, fun _ _ => ⟨_, row', ?_, hrow', ?_, hpending⟩⟩
        · rfl
        · have htoken := (fromRow_eq_ok hrow').2.1
          rw [get_updated, if_pos (by rfl)] at htoken
          simpa [ofList, Value.asInt, eq_comm] using htoken
    · exact fun e b s trx h => ⟨h.1, by simp⟩

theorem decides_acquire {generated} :
    Decides env prog (Acquires env name instance_)
      (acquireOnce env name instance_ ttlMillis generated) := by
  intro b s
  refine Safe.step fun t ht _ _ => ⟨⟨ht, open_fresh _ _, rfl⟩, ?_⟩
  refine (safe_findLease hmodel (open_fresh _ _) rfl).bind ?_ ?_
  · rintro current b s trx ⟨hopen, hfound⟩
    obtain ⟨v, htyped, hat⟩ := hfound current rfl
    split
    · exact prepares_error hopen
    · next currentLease hlease =>
      split
      · exact prepares_error hopen
      · exact ⟨hopen, fun _ h => by
          cases h
          exact ⟨hopen, fun _ h => by cases h; exact hat.ready fun _ => rfl⟩⟩
      · next granted hplan =>
        split
        · exact prepares_error hopen
        · next token htoken =>
          refine (safe_writeLease hmodel htyped hat).bind ?_ ?_
          · rintro _ b s trx ⟨hopen, hwritten⟩
            obtain ⟨c, row, hlive, hrow, hstored, hpending⟩ := hwritten _ rfl
            refine ⟨hopen, fun _ h => ?_⟩
            cases h
            refine ⟨hopen, fun _ h => ?_⟩
            cases h
            exact hpending.ready fun m hm =>
              grants_of_plan htyped hlease hplan htoken hm hlive hrow hstored
          · exact fun e b s trx h => ⟨h.1, nofun⟩
  · exact fun e b s trx h => ⟨h.1, nofun⟩

/-- A call that finds the lease and then leaves it, or changes other fields than the token of it. -/
theorem decides_touch {α : Type}
    {operation : Int → Option LeaseRow → Code I (Except PortError α)}
    (htouch : ∀ nowMillis current, (∃ r, operation nowMillis current = pure r) ∨
      ∃ (row : LeaseRow) (data : Data I) (f : Option LeaseRow → Except PortError α),
        current = some row ∧ data.get "token" = none ∧ operation nowMillis current =
          updateLease env name data >>= fun found => pure (f found)) :
    Decides env prog (fun (_ : α) m m' => tokenAt env name m' = tokenAt env name m)
      (now >>= fun nowMillis => findLease env name >>= operation nowMillis) := by
  intro b s
  refine Safe.step fun t ht _ _ => ⟨⟨ht, open_fresh _ _, rfl⟩, ?_⟩
  refine (safe_findLease hmodel (open_fresh _ _) rfl).bind ?_ ?_
  · rintro current b s trx ⟨hopen, hfound⟩
    obtain ⟨v, htyped, hat⟩ := hfound current rfl
    rcases htouch _ current with ⟨r, heq⟩ | ⟨row, data, f, rfl, hdata, heq⟩
    · rw [heq]
      exact ⟨hopen, fun _ _ => ⟨hopen, fun _ _ => hat.ready fun _ => rfl⟩⟩
    · rw [heq]
      refine (safe_updateLease hmodel hat).bind ?_ ?_
      · rintro found b s trx ⟨hopen, hupdated⟩
        refine ⟨hopen, fun _ _ => ⟨hopen, fun _ _ => ?_⟩⟩
        rcases hupdated found rfl with ⟨-, -, hat⟩ | ⟨c, row', rfl, hlive, -, hrow', hpending⟩
        · exact hat.ready fun _ => rfl
        · rcases typed_eq_ok htyped with ⟨-, h⟩ | ⟨stored, row, hsome, hrow, -⟩
          · cases h
          · obtain ⟨c', h, -, rfl⟩ := liveRow_eq_some hsome
            cases h
            exact hpending.ready fun m hm => tokenAt_put_updated hm hlive hrow hdata hrow'
      · exact fun e b s trx h => ⟨h.1, nofun⟩
  · exact fun e b s trx h => ⟨h.1, nofun⟩

theorem decides_renew {held : Lease}
    {heldToken : Int} :
    Decides env prog (fun (_ : Option Lease) m m' => tokenAt env held.name m' = tokenAt env held.name m)
      (renewOnce env held heldToken ttlMillis) := by
  refine decides_touch hmodel fun nowMillis current => ?_
  cases current with
  | none => exact .inl ⟨_, rfl⟩
  | some row =>
    dsimp only
    split
    · exact .inl ⟨_, rfl⟩
    · exact .inr ⟨row, _, _, rfl, by simp [ofList], rfl⟩

theorem decides_release {held : Lease}
    {heldToken : Int} :
    Decides env prog (fun (_ : Unit) m m' => tokenAt env held.name m' = tokenAt env held.name m)
      (releaseOnce env held heldToken) := by
  refine decides_touch hmodel fun nowMillis current => ?_
  cases current with
  | none => exact .inl ⟨_, rfl⟩
  | some row =>
    dsimp only
    split
    · exact .inr ⟨row, _, fun _ => .ok (), rfl, by simp [ofList], rfl⟩
    · exact .inl ⟨_, rfl⟩

end

/-! ## Runs -/

/-- What a call on the lease promises of its last step. -/
def Post (env : Env I) (name : String) (call : Call I) (r : Except PortError Outcome)
    (b s : Shared I) : Prop :=
  match r with
  | .ok (.acquired (.granted lease)) =>
    Grants env name call.replica lease b.committed s.committed
  | _ => tokenAt env name s.committed = tokenAt env name b.committed

theorem safe_code (hmodel : env.model leaseModel.name = some leaseModel) (call : Call I)
    (s : Shared I) :
    Safe (calm env (terms I) (Call.code env)) (fun r b s _ => Post env call.leaseName call r b s)
      (call.code env) s s {} := by
  cases call with
  | acquire name instance_ ttlMillis generated =>
    refine (safe_decide (decides_acquire hmodel) s).bind (fun acquisition b s _ h => ?_)
      fun e b s _ h => congrArg (tokenAt env name) h
    cases acquisition with
    | granted lease => exact h
    | held holder expires => exact congrArg (tokenAt env name) h
  | renew held ttlMillis =>
    rw [Call.code]
    split
    · exact rfl
    · exact Safe.check (fun _ _ => rfl) fun _ _ =>
        (safe_decide (decides_renew hmodel) s).bind (fun _ _ _ _ h => h)
          fun _ _ _ _ h => congrArg (tokenAt env held.name) h
  | release held =>
    exact Safe.check (fun _ _ => rfl) fun _ _ =>
      (safe_decide (decides_release hmodel) s).bind (fun _ _ _ _ h => h)
        fun _ _ _ _ h => congrArg (tokenAt env held.name) h

section

variable {ι : Type} [DecidableEq ι] {name : String}

abbrev System (ι I : Type) := Sys ι (Shared I) (Trx I) (Call I) (Op I) Op.Ans PortError Outcome

/-- A step of replicas that call for one lease, in which no record changes that another call has read
and not yet written. -/
structure Step (env : Env I) (name : String) (s : System ι I) (e : Event ι (Call I) ℕ)
    (t : System ι I) : Prop extends Undisturbed env (Call.code env) s e t where
  onName : ∀ i call, e = .start i call → call.leaseName = name

def grantedToken : Except PortError Outcome → Option Nat
  | .ok (.acquired (.granted lease)) => some lease.token
  | _ => none

theorem Post.cases {call r b s} (h : Post env name call r b s) :
    (∃ lease, r = .ok (.acquired (.granted lease)) ∧
      Grants env name call.replica lease b.committed s.committed) ∨
    grantedToken r = none ∧ tokenAt env name s.committed = tokenAt env name b.committed := by
  unfold Post at h
  split at h
  · exact .inl ⟨_, rfl, h⟩
  · next hne =>
    refine .inr ⟨?_, h⟩
    unfold grantedToken
    split
    · next lease => exact absurd rfl (hne lease)
    · rfl

theorem Step.did (hmodel : env.model leaseModel.name = some leaseModel) {s t : System ι I}
    {e : Event ι (Call I) ℕ} (h : Step env name s e t)
    (hs : Good (calm env (terms I) (Call.code env)) (Post env name) s) :
    Good (calm env (terms I) (Call.code env)) (Post env name) t ∧ Transition (Post env name) s t :=
  (h.toUndisturbed.did (fun i c s he => h.onName i c he ▸ safe_code hmodel c s) hs).imp_right And.right

end

/-! ## Two replicas -/

namespace Sample

/-- One replica has read the lease when another acquires it, and goes on. -/
def overtaken : List (Event Bool (Call ℕ) ℕ) :=
  [Event.call true (.acquire "job" "a" 50 0) 3, Event.call false (.acquire "job" "b" 50 0) 7,
    Event.steps true 4].flatten

/-- One replica acquires the lease. -/
def single : List (Event Unit (Call ℕ) ℕ) := Event.call () (.acquire "job" "a" 50 0) 7

end Sample

open Sample

end Aseman.Services.Coordination
