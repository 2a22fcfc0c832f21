import Aseman.Lib.Hex
import Aseman.Services.Auto
import Aseman.Storage.Reading

/-!
# Nonces and challenges

The replay guard and the challenges of `auto.rs`. A nonce is recorded until its time, and a challenge is
consumed by deleting it. Both look at the record first and then write it through a call that looks again:
an upsert that finds a record updates it, and a delete that finds none does nothing. Where no record
changes in between, and time does not go back, each is used once.
-/

namespace Aseman.Services.Nonces

open Aseman.Storage

variable {I : Type}

/-! ## The rows -/

/-- `core.replay_nonce`. -/
def nonceModel : Model where
  name := "core.replay_nonce"
  keyFamily := some "ReplayNonce"
  fields := .ofList [("key", .text), ("key_ref", .text), ("retain_until_millis", .integer)]
  required := ["key", "key_ref", "retain_until_millis"]
  unique := [["key"]]
  rangeIndexes := [["retain_until_millis"]]

/-- `core.identity_challenge`. -/
def challengeModel : Model where
  name := "core.identity_challenge"
  keyFamily := some "IdentityChallenge"
  fields := .ofList [("key", .text), ("subject", .text), ("audience", .text),
    ("expires_at_millis", .integer)]
  required := ["key", "subject", "audience", "expires_at_millis"]
  unique := [["key"]]
  rangeIndexes := [["expires_at_millis"]]

/-- `replay_nonce::ReplayNonce`. -/
structure NonceRow where
  key : String
  keyRef : String
  retainUntilMillis : Int

open NonceRow

/-- `ReplayNonce::from_row`. -/
def NonceRow.fromRow (row : Row I) : Except StorageError NonceRow := do
  let key ← required Value.asText nonceModel.name row "key"
  let keyRef ← required Value.asText nonceModel.name row "key_ref"
  let retainUntilMillis ← required Value.asInt nonceModel.name row "retain_until_millis"
  pure ⟨key, keyRef, retainUntilMillis⟩

/-- `identity_challenge::IdentityChallenge`. -/
structure ChallengeRow where
  key : String
  subject : String
  audience : String
  expiresAtMillis : Int

/-- `IdentityChallenge::from_row`. -/
def ChallengeRow.fromRow (row : Row I) : Except StorageError ChallengeRow := do
  let key ← required Value.asText challengeModel.name row "key"
  let subject ← required Value.asText challengeModel.name row "subject"
  let audience ← required Value.asText challengeModel.name row "audience"
  let expiresAtMillis ← required Value.asInt challengeModel.name row "expires_at_millis"
  pure ⟨key, subject, audience, expiresAtMillis⟩

/-- `Challenge`. A subject is kept as its text. -/
structure Challenge where
  nonce : List UInt8
  subject : String
  audience : String
  expiresAtMillis : Int
  deriving DecidableEq

/-! ## The calls -/

variable [LinearOrder I] (env : Env I) (keyId : String) (nonce : List UInt8)

def nonceKey : String := keyId ++ "|" ++ Hex.encode nonce

def recordNonceOnce (retainUntilMillis nowMillis : Int) (generated : I) : Code I Bool := do
  let found ← findUnique env nonceModel.name (.key (nonceKey keyId nonce))
  let stored ← Prog.ofExcept (typed fromRow found)
  if stored.any fun stored => stored.retainUntilMillis > nowMillis then pure false
  else do
    let row ← upsert env .readWrite nonceModel.name (.key (nonceKey keyId nonce))
      (.ofList [("key", .text (nonceKey keyId nonce)), ("key_ref", .text keyId),
        ("retain_until_millis", .int retainUntilMillis)])
      (.ofList [("retain_until_millis", .int retainUntilMillis)]) generated
    let _ ← Prog.ofExcept (fromRow row)
    pure true

def recordNonce (retainUntilMillis nowMillis : Int)
    (generated : I) : Prog (Op I) Op.Ans PortError Bool := do
  match ← (run .readWrite
    (recordNonceOnce env keyId nonce retainUntilMillis nowMillis generated)).attempt with
  | .error (.conflict _) => pure false
  | .error e => .fail (port e)
  | .ok recorded => pure recorded

variable (subject audience : String)

def issueOnce (expiresAtMillis : Int) (nonce : List UInt8) (generated : I) : Code I Unit := do
  let row ← create env .readWrite challengeModel.name (.ofList [("key", .text (Hex.encode nonce)),
    ("subject", .text subject), ("audience", .text audience),
    ("expires_at_millis", .int expiresAtMillis)]) generated
  let _ ← Prog.ofExcept (ChallengeRow.fromRow row)
  pure ()

/-- `issue`; `nonce` is the bytes of the two fresh uuids. -/
def issue (expiresAtMillis : Int) (nonce : List UInt8) (generated : I) :
    Prog (Op I) Op.Ans PortError Challenge := do
  ported (run .readWrite (issueOnce env subject audience expiresAtMillis nonce generated))
  pure ⟨nonce, subject, audience, expiresAtMillis⟩

variable (nowMillis : Int)

def consumeOnce : Code I Bool := do
  let found ← findUnique env challengeModel.name (.key (Hex.encode nonce))
  match ← Prog.ofExcept (typed ChallengeRow.fromRow found) with
  | none => pure false
  | some challenge =>
    if challenge.subject ≠ subject ∨ challenge.audience ≠ audience ∨
        challenge.expiresAtMillis ≤ nowMillis then pure false
    else do
      let deleted ← delete env .readWrite challengeModel.name (.key (Hex.encode nonce))
      let _ ← Prog.ofExcept (typed ChallengeRow.fromRow deleted)
      pure true

/-- The transaction of `purge_expired_nonces`; a walk over the records of a model ends within the given
number of pages. -/
def purgeOnce (pages : Nat) : Code I Nat := do
  let nonces ← deleteMany env .readWrite nonceModel.name
    (some (.field "retain_until_millis" (.lte (.int nowMillis)))) pages
  let challenges ← deleteMany env .readWrite challengeModel.name
    (some (.field "expires_at_millis" (.lte (.int nowMillis)))) pages
  pure (nonces + challenges)

/-- A call of the replay guard and the challenge store. -/
inductive Call (I : Type)
  | recordNonce (keyId : String) (nonce : List UInt8) (retainUntilMillis nowMillis : Int) (generated : I)
  | issue (subject audience : String) (expiresAtMillis : Int) (nonce : List UInt8) (generated : I)
  | consume (nonce : List UInt8) (subject audience : String) (nowMillis : Int)
  | purgeExpiredNonces (nowMillis : Int) (pages : Nat)

inductive Outcome
  | recorded (fresh : Bool)
  | issued (challenge : Challenge)
  | consumed (valid : Bool)
  | purged (count : Nat)
  deriving DecidableEq

def Call.code : Call I → Prog (Op I) Op.Ans PortError Outcome
  | recordNonce keyId nonce retainUntilMillis nowMillis generated => do
      let fresh ← Nonces.recordNonce env keyId nonce retainUntilMillis nowMillis generated
      pure (.recorded fresh)
  | issue subject audience expiresAtMillis nonce generated => do
      let challenge ← Nonces.issue env subject audience expiresAtMillis nonce generated
      pure (.issued challenge)
  | consume nonce subject audience nowMillis => do
      let valid ← ported (run .readWrite (consumeOnce env nonce subject audience nowMillis))
      pure (.consumed valid)
  | purgeExpiredNonces nowMillis pages => do
      let count ← ported (run .readWrite (purgeOnce env nowMillis pages))
      pure (.purged count)

/-! ## What is stored -/

def nonceId : I := env.forKey "ReplayNonce" (nonceKey keyId nonce)

def challengeId : I := env.forKey "IdentityChallenge" (Hex.encode nonce)

/-- Until when the nonce is recorded. -/
def retainAt (id : I) (m : Capsules I) : Option Int :=
  (liveRow nonceModel (m.get (nonceModel.name, id))).bind fun row =>
    (row.get "retain_until_millis").asInt

def challengeAt (id : I) (m : Capsules I) : Bool :=
  (liveRow challengeModel (m.get (challengeModel.name, id))).isSome

def Records (id : I) (retainUntilMillis nowMillis : Int) (fresh : Bool) (m m' : Capsules I) : Prop :=
  if fresh then
    (∀ until_, retainAt id m = some until_ → until_ ≤ nowMillis) ∧
      retainAt id m' = some retainUntilMillis ∧ Only (nonceModel.name, id) m m'
  else m' = m

def Issues (id : I) (m m' : Capsules I) : Prop :=
  challengeAt id m = false ∧ Only (challengeModel.name, id) m m'

def Consumes (id : I) (valid : Bool) (m m' : Capsules I) : Prop :=
  if valid then
    challengeAt id m = true ∧ challengeAt id m' = false ∧ Only (challengeModel.name, id) m m'
  else m' = m

/-- What `purge_expired_nonces` does: records are deleted, nonces only at their time. -/
def Purges (m m' : Capsules I) : Prop :=
  ∀ k, m'.get k = m.get k ∨ ∃ c c', m.get k = some c ∧ m'.get k = some c' ∧ c'.tombstone = true ∧
    c.tombstone = false ∧ (k.1 = nonceModel.name → ∀ until_,
      ((decode nonceModel c).get "retain_until_millis").asInt = some until_ → until_ ≤ nowMillis)

variable {env}

omit [LinearOrder I] in
theorem NonceRow.fromRow_eq_ok {row : Row I} {r : NonceRow} (h : fromRow row = .ok r) :
    (row.get "retain_until_millis").asInt = some r.retainUntilMillis := by
  simp only [fromRow, bind_eq_ok] at h
  obtain ⟨key, -, keyRef, -, retain, hretain, h⟩ := h
  cases h
  exact required_eq_ok hretain

/-- A nonce is recorded in place of nothing, or of one whose time has come. -/
theorem records_put {id : I} {retainUntilMillis nowMillis : Int} {v : Option (Capsule I)}
    {stored : Option NonceRow} {m : Capsules I} {c : Capsule I}
    (htyped : typed fromRow (liveRow nonceModel v) = .ok stored)
    (hstored : ¬ stored.any fun stored => stored.retainUntilMillis > nowMillis)
    (hm : m.get (nonceModel.name, id) = v) (hlive : c.tombstone = false)
    (hretain : (decode nonceModel c).get "retain_until_millis" = .int retainUntilMillis) :
    Records id retainUntilMillis nowMillis true m (m.put (nonceModel.name, id) c) := by
  refine ⟨fun until_ huntil => ?_, ?_, only_put _ m c⟩
  · rw [retainAt, hm] at huntil
    rcases typed_eq_ok htyped with ⟨hnone, rfl⟩ | ⟨row, r, hsome, hr, rfl⟩
    · rw [hnone] at huntil
      cases huntil
    · rw [hsome, Option.bind_some, fromRow_eq_ok hr] at huntil
      cases huntil
      simpa using hstored
  · simp [retainAt, liveRow, hlive, hretain, Value.asInt]

section

variable {Call ε ρ : Type} {prog : Call → Prog (Op I) Op.Ans ε ρ}

theorem safe_recordNonceOnce (hmodel : env.model nonceModel.name = some nonceModel) {keyId : String}
    {nonce : List UInt8} {retainUntilMillis nowMillis : Int} {generated : I} (b s : Shared I) :
    Safe (calm env (terms I) prog) (fun r _ s trx =>
        Prepares env (Records (nonceId env keyId nonce) retainUntilMillis nowMillis) r s trx)
      (recordNonceOnce env keyId nonce retainUntilMillis nowMillis generated) b s
      { mode := .readWrite } := by
  have hwrite : ∀ v stored b s trx,
      typed fromRow (liveRow nonceModel v) = .ok stored →
      (¬ stored.any fun stored => stored.retainUntilMillis > nowMillis) →
      At (terms I) (nonceModel.name, nonceId env keyId nonce) v s trx → Safe (calm env (terms I) prog)
        (fun r _ s trx =>
          Prepares env (Records (nonceId env keyId nonce) retainUntilMillis nowMillis) r s trx)
        (do
          let row ← upsert env .readWrite nonceModel.name (.key (nonceKey keyId nonce))
            (.ofList [("key", .text (nonceKey keyId nonce)), ("key_ref", .text keyId),
              ("retain_until_millis", .int retainUntilMillis)])
            (.ofList [("retain_until_millis", .int retainUntilMillis)]) generated
          let _ ← Prog.ofExcept (fromRow row)
          pure true) b s trx := by
    intro v stored b s trx htyped hstored hat
    refine (safe_upsert_at hmodel rfl (by simp [OrderedMap.ofList]) hat).bind ?_
      fun e b s trx h => ⟨h.1, nofun⟩
    rintro row b s trx ⟨hopen, hrow⟩
    refine Safe.check (fun _ _ => ⟨hopen, nofun⟩) fun _ _ => ⟨hopen, fun _ h => ?_⟩
    cases h
    rcases hrow row rfl with ⟨c, rfl, -, -, hpending⟩ | ⟨-, -, hpending⟩
    · refine hpending.ready fun m hm => records_put htyped hstored hm rfl ?_
      rw [get_updated, if_pos (by rfl)]
      simp [OrderedMap.ofList]
    · refine hpending.ready fun m hm => records_put htyped hstored hm rfl ?_
      rw [get_decode_encode, if_pos (by rfl)]
      simp [Data.field, OrderedMap.ofList]
  refine safe_findTyped hmodel rfl (fun e b s trx h => ⟨h, nofun⟩)
    (fun v b s trx hv hat => ?_) fun c r b s trx hlive hr hat => ?_
  · exact hwrite v none b s trx (by rw [hv]; rfl) (by simp) hat
  · split
    · exact ⟨hat.isOpen, fun _ h => by cases h; exact hat.ready fun _ => rfl⟩
    · next hstored =>
      exact hwrite (some c) (some r) b s trx (by simp [typed, liveRow, hlive, hr, Except.map])
        hstored hat

theorem safe_issueOnce (hmodel : env.model challengeModel.name = some challengeModel)
    {subject audience expiresAtMillis nonce generated} (b s : Shared I) :
    Safe (calm env (terms I) prog)
      (fun r _ s trx => Prepares env (fun (_ : Unit) => Issues (challengeId env nonce)) r s trx)
      (issueOnce env subject audience expiresAtMillis nonce generated) b s { mode := .readWrite } := by
  have hkey : ∀ subject audience expires, (OrderedMap.ofList [("key", (.text (Hex.encode nonce) : Value I)),
      ("subject", subject), ("audience", audience), ("expires_at_millis", expires)]).get "key" =
        some (.text (Hex.encode nonce)) := by simp [OrderedMap.ofList]
  refine (safe_create (P := fun _ => True) hmodel rfl (hkey ..) (open_fresh _ _)
    ((safe_get_fresh (open_fresh _ _) rfl).mono ?_)).bind ?_ ?_
  · rintro r b s trx ⟨v, h, -, hat⟩
    exact ⟨v, h, trivial, hat⟩
  · rintro row b s trx ⟨hopen, hrow⟩
    refine Safe.check (fun _ _ => ⟨hopen, by simp⟩) fun _ _ => ⟨hopen, fun _ _ => ?_⟩
    obtain ⟨v, -, -, hcreates⟩ := hrow row rfl
    obtain ⟨hnone, -, hpending⟩ := hcreates row rfl
    refine hpending.ready fun m hm => ⟨?_, only_put _ m _⟩
    subst hm
    exact congrArg Option.isSome hnone
  · exact fun e b s trx h => ⟨h.1, by simp⟩

theorem safe_consumeOnce (hmodel : env.model challengeModel.name = some challengeModel)
    {subject audience nowMillis nonce} (b s : Shared I) :
    Safe (calm env (terms I) prog)
      (fun r _ s trx => Prepares env (Consumes (challengeId env nonce)) r s trx)
      (consumeOnce env nonce subject audience nowMillis) b s { mode := .readWrite } := by
  refine safe_findTyped hmodel rfl (fun e b s trx h => ⟨h, nofun⟩)
    (fun v b s trx _ hat => ?_) fun c challenge b s trx hlive _ hat => ?_
  · exact ⟨hat.isOpen, fun _ h => by cases h; exact hat.ready fun _ => rfl⟩
  · dsimp only
    split
    · exact ⟨hat.isOpen, fun _ h => by cases h; exact hat.ready fun _ => rfl⟩
    · refine (safe_delete_at hmodel rfl hat).bind ?_ fun e b s trx h => ⟨h.1, nofun⟩
      rintro deleted b s trx ⟨hopen, hdeleted⟩
      refine Safe.check (fun _ _ => ⟨hopen, nofun⟩) fun _ _ => ⟨hopen, fun _ h => ?_⟩
      cases h
      rcases hdeleted deleted rfl with ⟨-, hnone, -⟩ | ⟨c', -, -, -, hpending⟩
      · simp [liveRow, hlive] at hnone
      · refine hpending.ready fun m hm => ⟨?_, ?_, only_put _ m _⟩
        · simp [challengeAt, challengeId, hm, liveRow, hlive]
        · simp [challengeAt, liveRow, challengeId, tombstone]

/-- A record that is deleted; a nonce, only at its time. -/
def Expired (v : Option (Capsule I)) (w : Storage.Write I) : Prop :=
  ∃ c, v = some c ∧ c.tombstone = false ∧ w.capsule.tombstone = true ∧
    (w.kind = nonceModel.name → ∀ until_,
      ((decode nonceModel c).get "retain_until_millis").asInt = some until_ → until_ ≤ nowMillis)

theorem purges_of_replaces {nowMillis} (m : Capsules I) (ws : List (Storage.Write I))
    (h : Replaces (Expired nowMillis) m ws) : Purges nowMillis m (applyWrites m ws) := by
  induction ws generalizing m with
  | nil => exact fun _ => .inl rfl
  | cons w ws ih =>
    obtain ⟨⟨c, hget, hlive, htomb, huntil⟩, hrest⟩ := h
    intro k
    have hrest := ih _ hrest k
    rw [Store.get_put] at hrest
    split at hrest
    · next hk =>
      subst hk
      -- a record that is deleted once is not deleted again
      rcases hrest with hsame | ⟨c', c'', hc', -, -, hlive', -⟩
      · exact .inr ⟨c, w.capsule, hget, hsame, htomb, hlive, huntil⟩
      · cases hc'
        rw [htomb] at hlive'
        cases hlive'
    · exact hrest

omit [LinearOrder I] in
theorem le_of_keeps [LinearOrder I] {lower : String → String} {row : Row I} {field : String}
    {bound until_ : Int} (h : keeps lower (.field field (.lte (.int bound))) row)
    (huntil : (row.get field).asInt = some until_) : until_ ≤ bound := by
  cases hvalue : row.get field <;> rw [hvalue] at huntil <;> cases huntil
  simp only [keeps, evaluate, condition, hvalue, compareValues, Option.map_some,
    decide_eq_true_eq, Option.some.injEq] at h
  by_contra hlt
  exact h (compare_gt_iff_gt.mpr (not_le.mp hlt))

/-- **Purging** deletes what has expired. -/
theorem safe_purgeOnce (hnonce : env.model nonceModel.name = some nonceModel)
    (hchallenge : env.model challengeModel.name = some challengeModel) {nowMillis : Int} {pages : Nat}
    (b s : Shared I) :
    Safe (calm env (terms I) prog)
      (fun r _ s trx => Prepares env (fun (_ : Nat) => Purges nowMillis) r s trx)
      (purgeOnce env nowMillis pages) b s { mode := .readWrite } := by
  have hready : ∀ (r : Except StorageError Nat) (s : Shared I) (trx : Trx I), (trx.Open (terms I) ∧
      SoundWrites (Expired nowMillis) s.committed trx.writes) →
      Prepares env (fun (_ : Nat) => Purges nowMillis) r s trx :=
    fun r s trx h => ⟨h.1, fun _ _ => Ready.of_sound h.1 h.2 purges_of_replaces⟩
  have hnonces : Safe (calm env (terms I) prog) (fun _ _ s trx => trx.Open (terms I) ∧
      SoundWrites (Expired nowMillis) s.committed trx.writes)
      (deleteMany env .readWrite nonceModel.name
        (some (.field "retain_until_millis" (.lte (.int nowMillis)))) pages) b s
      { mode := .readWrite } := by
    refine safe_deleteMany (K := fun _ c => c.tombstone = true ∨ ∀ until_,
        ((decode nonceModel c).get "retain_until_millis").asInt = some until_ → until_ ≤ nowMillis)
      hnonce (some (.field "retain_until_millis" (.lte (.int nowMillis)))) pages
      (fun c _ hkeeps => .inr fun until_ => le_of_keeps hkeeps)
      (fun row c hlive hK => ⟨c, rfl, hlive, rfl, fun _ => hK.resolve_left (by simp [hlive])⟩)
      (fun row c => .inl rfl) (open_fresh _ _) (SoundWrites.nil _)
  refine hnonces.bind (fun nonces b s trx h => ?_) fun e b s trx => hready (.error e) s trx
  have hchallenges : Safe (calm env (terms I) prog) (fun _ _ s trx => trx.Open (terms I) ∧
      SoundWrites (Expired nowMillis) s.committed trx.writes)
      (deleteMany env .readWrite challengeModel.name
        (some (.field "expires_at_millis" (.lte (.int nowMillis)))) pages) b s trx := by
    refine safe_deleteMany (K := fun _ _ => True) hchallenge _ pages (fun _ _ _ => trivial)
      (fun row c hlive _ => ⟨c, rfl, hlive, rfl, fun h => ?_⟩) (fun _ _ => trivial) h.1 h.2
    simp [deletion, challengeModel, nonceModel] at h
  exact hchallenges.bind (fun challenges b s trx h => hready _ s trx h)
    fun e b s trx => hready (.error e) s trx

end

/-! ## Runs -/

/-- What a call promises of its last step. -/
def Post (env : Env I) (call : Call I) (r : Except PortError Outcome) (b s : Shared I) : Prop :=
  match call, r with
  | .recordNonce keyId nonce retainUntilMillis nowMillis _, .ok (.recorded fresh) =>
    Records (nonceId env keyId nonce) retainUntilMillis nowMillis fresh b.committed s.committed
  | .issue _ _ _ nonce _, .ok (.issued _) => Issues (challengeId env nonce) b.committed s.committed
  | .consume nonce _ _ _, .ok (.consumed valid) =>
    Consumes (challengeId env nonce) valid b.committed s.committed
  | .purgeExpiredNonces nowMillis _, .ok (.purged _) => Purges nowMillis b.committed s.committed
  | _, _ => s.committed = b.committed

theorem safe_code (hnonce : env.model nonceModel.name = some nonceModel)
    (hchallenge : env.model challengeModel.name = some challengeModel) (call : Call I)
    (s : Shared I) :
    Safe (calm env (terms I) (Call.code env)) (fun r b s _ => Post env call r b s)
      (call.code env) s s {} := by
  cases call with
  | recordNonce keyId nonce retainUntilMillis nowMillis generated =>
    refine Safe.bind (Q := fun r b s _ =>
      Ends (Records (nonceId env keyId nonce) retainUntilMillis nowMillis) r b s) ?_
      (fun _ _ _ _ h => h) fun _ _ _ _ h => h
    refine (safe_run (safe_recordNonceOnce hnonce) fun _ => rfl).attempt ?_
    intro r b s trx h
    split
    · exact h
    · exact h
    · exact h
  | issue subject audience expiresAtMillis nonce generated =>
    refine Safe.bind (Q := fun r b s _ =>
      Ends (fun (_ : Challenge) => Issues (challengeId env nonce)) r b s) ?_
      (fun _ _ _ _ h => h) fun _ _ _ _ h => h
    exact (safe_ported (safe_run (safe_issueOnce hchallenge) fun _ => rfl)).bind
      (fun _ _ _ _ h => h) fun _ _ _ _ h => h
  | consume nonce subject audience nowMillis =>
    exact (safe_ported (safe_run (safe_consumeOnce hchallenge) fun _ => rfl)).bind
      (fun _ _ _ _ h => h) fun _ _ _ _ h => h
  | purgeExpiredNonces nowMillis pages =>
    exact (safe_ported (safe_run (safe_purgeOnce hnonce hchallenge) fun _ => rfl)).bind
      (fun _ _ _ _ h => h) fun _ _ _ _ h => h

/-- The record, the retention and the time of a nonce that was recorded. -/
def recorded (env : Env I) : Call I × Except PortError Outcome → Option (I × Int × Int)
  | (.recordNonce keyId nonce retainUntilMillis nowMillis _, .ok (.recorded true)) =>
    some (nonceId env keyId nonce, retainUntilMillis, nowMillis)
  | _ => none

/-- The time of a call that has recorded a nonce, or purged. -/
def stamp : Call I × Except PortError Outcome → Option Int
  | (.recordNonce _ _ _ nowMillis _, .ok (.recorded true)) => some nowMillis
  | (.purgeExpiredNonces nowMillis _, .ok (.purged _)) => some nowMillis
  | _ => none

def issuedAt (env : Env I) (id : I) : Call I × Except PortError Outcome → Bool
  | (.issue _ _ _ nonce _, .ok (.issued _)) => challengeId env nonce = id
  | _ => false

def consumedAt (env : Env I) (id : I) : Call I × Except PortError Outcome → Bool
  | (.consume nonce _ _ _, .ok (.consumed true)) => challengeId env nonce = id
  | _ => false

variable {call : Call I} {r : Except PortError Outcome} {b s : Shared I}

theorem retainAt_congr {id : I} {m m' : Capsules I}
    (h : m'.get (nonceModel.name, id) = m.get (nonceModel.name, id)) :
    retainAt id m' = retainAt id m := by
  rw [retainAt, retainAt, h]

theorem challengeAt_congr {id : I} {m m' : Capsules I}
    (h : m'.get (challengeModel.name, id) = m.get (challengeModel.name, id)) :
    challengeAt id m' = challengeAt id m := by
  rw [challengeAt, challengeAt, h]

/-- A nonce stays recorded until a call whose time is not before the end of its retention. -/
theorem Post.retain (h : Post env call r b s) {id : I} {until_ : Int}
    (hb : retainAt id b.committed = some until_) :
    retainAt id s.committed = some until_ ∨ ∃ now, stamp (call, r) = some now ∧ until_ ≤ now := by
  unfold Post at h
  split at h
  · next keyId nonce retain now _ fresh =>
    cases fresh with
    | false => exact .inl (h ▸ hb)
    | true =>
      obtain ⟨hbefore, -, honly⟩ := h
      by_cases hid : id = nonceId env keyId nonce
      · exact .inr ⟨now, rfl, hbefore until_ (hid ▸ hb)⟩
      · exact .inl ((retainAt_congr (honly _ (by simpa using hid))).trans hb)
  · exact .inl ((retainAt_congr (h.2 _ (by simp [nonceModel, challengeModel]))).trans hb)
  · next valid =>
    cases valid with
    | false => exact .inl (h ▸ hb)
    | true =>
      exact .inl ((retainAt_congr (h.2.2 _ (by simp [nonceModel, challengeModel]))).trans hb)
  · next now _ _ =>
    rcases h (nonceModel.name, id) with hsame | ⟨c, c', hc, -, -, hlive, huntil⟩
    · exact .inl ((retainAt_congr hsame).trans hb)
    · refine .inr ⟨now, rfl, huntil rfl until_ ?_⟩
      simpa [retainAt, hc, liveRow, hlive] using hb
  · exact .inl (h ▸ hb)

/-- A nonce is recorded at its time, in place of none or of one whose retention has ended. -/
theorem Post.recorded (h : Post env call r b s) {id retain now}
    (hr : recorded env (call, r) = some (id, retain, now)) :
    stamp (call, r) = some now ∧ (∀ until_, retainAt id b.committed = some until_ → until_ ≤ now) ∧
      retainAt id s.committed = some retain := by
  unfold Nonces.recorded at hr
  split at hr
  · next heq =>
    cases heq
    cases hr
    exact ⟨rfl, h.1, h.2.1⟩
  · cases hr

/-- A challenge is consumed only if it is there, and then it is gone. -/
theorem Post.challenge (h : Post env call r b s) (id : I) :
    (if consumedAt env id (call, r) then 1 else 0) + (if challengeAt id s.committed then 1 else 0) ≤
      (if issuedAt env id (call, r) then 1 else 0) + if challengeAt id b.committed then 1 else 0 := by
  unfold Post at h
  split at h
  · next keyId nonce retain now _ fresh =>
    have hsame : challengeAt id s.committed = challengeAt id b.committed := by
      cases fresh with
      | false => rw [h]
      | true => exact challengeAt_congr (h.2.2 _ (by simp [nonceModel, challengeModel]))
    simp [consumedAt, issuedAt, hsame]
  · next nonce _ _ =>
    by_cases hid : challengeId env nonce = id
    · subst hid
      simp only [consumedAt, issuedAt, h.1, Bool.false_eq_true, if_false]
      split <;> simp
    · rw [challengeAt_congr (h.2 _ (by simpa using Ne.symm hid))]
      simp [consumedAt, issuedAt, hid]
  · next nonce _ _ _ valid =>
    cases valid with
    | false =>
      rw [show s.committed = b.committed from h]
      simp [consumedAt, issuedAt]
    | true =>
      by_cases hid : challengeId env nonce = id
      · subst hid
        simp [consumedAt, issuedAt, h.1, h.2.1]
      · rw [challengeAt_congr (h.2.2 _ (by simpa using Ne.symm hid))]
        simp [consumedAt, issuedAt, hid]
  · rcases h (challengeModel.name, id) with hsame | ⟨c, c', -, hc', htomb, -⟩
    · rw [challengeAt_congr hsame]
      simp [consumedAt, issuedAt]
    · have hgone : challengeAt id s.committed = false := by
        simp [challengeAt, hc', liveRow, htomb]
      simp [consumedAt, issuedAt, hgone]
  · next hother _ =>
    rw [show s.committed = b.committed from h]
    have hnot : consumedAt env id (call, r) = false := by
      unfold consumedAt
      split
      · next heq =>
        cases heq
        exact absurd rfl (hother _ _ _ _ _ rfl)
      · rfl
    simp [hnot]

section

variable {ι : Type} [DecidableEq ι]

abbrev System (ι I : Type) := Sys ι (Shared I) (Trx I) (Call I) (Op I) Op.Ans PortError Outcome

/-- A step in which no record changes that another call has read and not yet written, and no call that
records a nonce or purges is of a time before that of one that has ended. -/
structure Step (env : Env I) (s : System ι I) (e : Event ι (Call I) ℕ) (t : System ι I) : Prop
    extends Undisturbed env (Call.code env) s e t where
  timely : ∀ ended now, t.finished = s.finished ++ [ended] → stamp ended = some now →
    ∀ now' ∈ s.finished.filterMap stamp, now' ≤ now

/-- Of two calls that have recorded one nonce, the second was made when the retention of the first had
ended. -/
def Spaced (env : Env I) (a a' : Call I × Except PortError Outcome) : Prop :=
  ∀ id retain now retain' now', recorded env a = some (id, retain, now) →
    recorded env a' = some (id, retain', now') → retain ≤ now'

/-- What holds at all times, from a state `s₀` on. -/
structure Used (env : Env I) (s₀ s : System ι I) : Prop where
  good : Good (calm env (terms I) (Call.code env)) (Post env) s
  spaced : s.finished.Pairwise (Spaced env)
  covered : ∀ a ∈ s.finished, ∀ id retain now, recorded env a = some (id, retain, now) →
    retainAt id s.shared.committed = some retain ∨ ∃ now' ∈ s.finished.filterMap stamp, retain ≤ now'
  consumed : ∀ id, s.finished.countP (consumedAt env id) +
      (if challengeAt id s.shared.committed then 1 else 0) ≤
    s.finished.countP (issuedAt env id) + if challengeAt id s₀.shared.committed then 1 else 0

theorem Step.used (hnonce : env.model nonceModel.name = some nonceModel)
    (hchallenge : env.model challengeModel.name = some challengeModel) {s₀ s t : System ι I}
    {e : Event ι (Call I) ℕ} (h : Step env s e t) (hs : Used env s₀ s) : Used env s₀ t := by
  obtain ⟨hgood, -, hdid⟩ := h.toUndisturbed.did (fun _ c s _ => safe_code hnonce hchallenge c s) hs.good
  rcases hdid with ⟨hsame, hfinished⟩ | ⟨call, r, hfinished, hpost⟩
  · refine ⟨hgood, ?_, ?_, ?_⟩ <;> rw [hfinished]
    · exact hs.spaced
    · rw [hsame]
      exact hs.covered
    · rw [hsame]
      exact hs.consumed
  · refine ⟨hgood, ?_, ?_, fun id => ?_⟩
    · rw [hfinished]
      refine List.pairwise_append.mpr ⟨hs.spaced, List.pairwise_singleton _ _, fun a ha a' ha' => ?_⟩
      obtain rfl := List.mem_singleton.mp ha'
      intro id retain now retain' now' hrec hrec'
      obtain ⟨hstamp, hbefore, -⟩ := hpost.recorded hrec'
      rcases hs.covered a ha id retain now hrec with hat | ⟨now'', hmem, hle⟩
      · exact hbefore retain hat
      · exact hle.trans (h.timely _ now' hfinished hstamp now'' hmem)
    · intro a ha id retain now hrec
      rw [hfinished] at ha ⊢
      rcases List.mem_append.mp ha with ha | ha
      · rcases hs.covered a ha id retain now hrec with hat | ⟨now', hmem, hle⟩
        · rcases hpost.retain hat with hat' | ⟨now', hstamp, hle⟩
          · exact .inl hat'
          · refine .inr ⟨now', ?_, hle⟩
            simp [hstamp]
        · refine .inr ⟨now', ?_, hle⟩
          rw [List.filterMap_append]
          exact List.mem_append_left _ hmem
      · obtain rfl := List.mem_singleton.mp ha
        exact .inl (hpost.recorded hrec).2.2
    · have hold := hs.consumed id
      have hnew := hpost.challenge id
      rw [hfinished, List.countP_append, List.countP_append, List.countP_singleton,
        List.countP_singleton]
      omega

/-- **Nonces and challenges are used at most once**, in every run in which no record changes between the
time a call has read it and the time it writes it, and the times of the calls that record a nonce or
purge do not go back: a nonce is recorded again only when its retention has ended, and a challenge is
consumed at most as often as it was issued (and once more if it was there before). -/
theorem undisturbed_nonces_used_once (hnonce : env.model nonceModel.name = some nonceModel)
    (hchallenge : env.model challengeModel.name = some challengeModel) {s s' : System ι I}
    {events : List (Event ι (Call I) ℕ)} (hplaced : Placed s.shared.committed)
    (hidle : ∀ i, s.threads i = none) (hfinished : s.finished = []) (hrun : Run (Step env) s events s') :
    s'.finished.Pairwise (Spaced env) ∧ ∀ id, s'.finished.countP (consumedAt env id) ≤
      s'.finished.countP (issuedAt env id) + if challengeAt id s.shared.committed then 1 else 0 := by
  have hused : Used env s s' := by
    refine hrun.invariant (fun _ _ _ h => h.used hnonce hchallenge)
      ⟨⟨hplaced, fun i th hth => ?_⟩, ?_, ?_, ?_⟩
    · rw [hidle] at hth
      cases hth
    all_goals simp [hfinished]
  exact ⟨hused.spaced, fun id => (Nat.le_add_right _ _).trans (hused.consumed id)⟩

end

/-! ## Two uses -/

namespace Sample

def nonceEnv : Env ℕ where
  model name := if name = nonceModel.name then some nonceModel
    else if name = challengeModel.name then some challengeModel else none
  named name m h := by
    split at h
    · next hname => cases h; exact hname.symm
    · split at h
      · next hname => cases h; exact hname.symm
      · cases h
  forKey _ _ := 7
  lower := id
  idText := toString

def guards (ι : Type) : System ι ℕ := ⟨⟨∅, 0⟩, fun _ => none, []⟩

/-- One call has looked for the nonce when another records it, and goes on. -/
def recordTwice : List (Event Bool (Call ℕ) ℕ) :=
  [Event.call true (.recordNonce "k" [1] 100 10 0) 2,
    Event.call false (.recordNonce "k" [1] 100 10 0) 6, Event.steps true 4].flatten

/-- A challenge is issued; one call has found it when another consumes it, and goes on. -/
def consumeTwice : List (Event Bool (Call ℕ) ℕ) :=
  [Event.call true (.issue "user" "aud" 100 [1] 0) 4,
    Event.call true (.consume [1] "user" "aud" 10) 2,
    Event.call false (.consume [1] "user" "aud" 10) 6, Event.steps true 2].flatten

/-- A nonce is recorded, refused, purged at its time and recorded again. -/
def oneAfterTheOther : List (Event Unit (Call ℕ) ℕ) :=
  [Event.call () (.recordNonce "k" [1] 100 10 0) 6, Event.call () (.recordNonce "k" [1] 100 50 0) 3,
    Event.call () (.purgeExpiredNonces 100 1) 7,
    Event.call () (.recordNonce "k" [1] 200 110 0) 6].flatten

/-- Whether the times of the calls do not go back at a step. -/
def timelyNext (s : System Unit ℕ) (e : Event Unit (Call ℕ) ℕ) : Bool :=
  ((provider nonceEnv (Call.code nonceEnv)).next s e).all fun t =>
    (t.finished.drop s.finished.length).all fun ended =>
      (stamp ended).all fun now => (s.finished.filterMap stamp).all (· ≤ now)

theorem step_of_alone {s e t} (hstep : (provider nonceEnv (Call.code nonceEnv)).Step s e t)
    (htest : timelyNext s e) :
    Step nonceEnv s e t where
  toUndisturbed := undisturbed_of_alone hstep
  timely ended now hended hstamp now' hmem := by
    rw [timelyNext, show (provider nonceEnv (Call.code nonceEnv)).next s e = some t from hstep,
      Option.all_some, hended, List.drop_left] at htest
    simp only [List.all_cons, List.all_nil, Bool.and_true, hstamp, Option.all_some,
      List.all_eq_true, decide_eq_true_eq] at htest
    exact htest now' hmem

end Sample

open Sample

/-- Both calls record the nonce, and both calls consume the challenge. -/
theorem overtaken_nonce_used_twice :
    (∃ s : System Bool ℕ, Run (provider nonceEnv (Call.code nonceEnv)).Step
        (guards Bool) recordTwice s ∧
      s.finished.map Prod.snd = [.ok (.recorded true), .ok (.recorded true)]) ∧
    ∃ s : System Bool ℕ, Run (provider nonceEnv (Call.code nonceEnv)).Step
        (guards Bool) consumeTwice s ∧
      s.finished.map Prod.snd = [.ok (.issued ⟨[1], "user", "aud", 100⟩), .ok (.consumed true),
        .ok (.consumed true)] := by
  refine ⟨Machine.exists_run (fun _ _ => true) (fun _ _ _ h _ => h) ?_,
    Machine.exists_run (fun _ _ => true) (fun _ _ _ h _ => h) ?_⟩
  · decide +kernel
  · decide +kernel

/-- A nonce that is recorded again after its retention has ended. -/
theorem undisturbed_nonces_used_once_alone : ∃ s : System Unit ℕ,
    s.finished.map Prod.snd = [.ok (.recorded true), .ok (.recorded false), .ok (.purged 1),
      .ok (.recorded true)] ∧ s.finished.Pairwise (Spaced nonceEnv) := by
  obtain ⟨s, hrun, hfinished⟩ := Machine.exists_run timelyNext (fun _ _ _ => step_of_alone)
    (s := guards Unit) (l := oneAfterTheOther) (f := fun s => s.finished.map Prod.snd)
    (v := [.ok (.recorded true), .ok (.recorded false), .ok (.purged 1), .ok (.recorded true)])
    (by decide +kernel)
  have hplaced : Placed (guards Unit).shared.committed := nofun
  exact ⟨s, hfinished, (undisturbed_nonces_used_once rfl rfl hplaced (fun _ => rfl) rfl hrun).1⟩

end Aseman.Services.Nonces
