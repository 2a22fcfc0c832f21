import Aseman.Storage.OneRecord

/-!
# Services with a transaction per call

`auto.rs` and the typed client: each call of a service is a short transaction of its own, which `decide`
retries when another writer has won. If every call of a service is described by what it does to the
committed capsules at its last step, then these descriptions are all that happens in a run, as long as no
record changes between the time a call has read it and the time it writes it (`Undisturbed.did`).
-/

namespace Aseman.Services

open Aseman.Storage

variable {I : Type}

/-- `PortError`, as far as these services return it. -/
inductive PortError
  | notFound
  | conflict
  | denied (message : String)
  | failed (message : String)
  deriving DecidableEq

def errorText : StorageError → String
  | .invalid message => "invalid storage request: " ++ message
  | .conflict message => "storage conflict: " ++ message
  | .notFound message => "not found: " ++ message
  | .unbounded => ""

/-- `auto::port`. -/
def port : StorageError → PortError
  | .conflict _ => .conflict
  | .notFound _ => .notFound
  | other => .failed (errorText other)

/-! ## The typed client -/

/-- `typed::required`, of a value of one kind. -/
def required {α : Type} (as : Value I → Option α) (model : String) (row : Row I) (field : String) :
    Except StorageError α :=
  match as (row.get field) with
  | some value => .ok value
  | none => .error (.invalid (model ++ ": stored record lacks required field " ++ field))

omit I in
theorem required_eq_ok {I α : Type} {as : Value I → Option α} {model : String} {row : Row I}
    {field : String} {value : α} (h : required as model row field = .ok value) :
    as (row.get field) = some value := by
  unfold required at h
  split at h
  · next heq => cases h; exact heq
  · cases h

def typed {M : Type} (fromRow : Row I → Except StorageError M) (found : Option (Row I)) :
    Except StorageError (Option M) :=
  match found with
  | some row => (fromRow row).map some
  | none => .ok none

theorem typed_eq_ok {M : Type} {fromRow : Row I → Except StorageError M} {found : Option (Row I)}
    {r : Option M} (h : typed fromRow found = .ok r) :
    (found = none ∧ r = none) ∨ ∃ row m, found = some row ∧ fromRow row = .ok m ∧ r = some m := by
  cases found with
  | none => cases h; exact .inl ⟨rfl, rfl⟩
  | some row =>
    cases hrow : fromRow row with
    | error e => simp [typed, hrow, Except.map] at h
    | ok m =>
      simp only [typed, hrow, Except.map, Except.ok.injEq] at h
      exact .inr ⟨row, m, rfl, hrow, h.symm⟩

/-! ## Transactions -/

/-- `AutoCommit::run`. A transaction that is dropped is rolled back. -/
def run {α : Type} (mode : Mode) (operation : Code I α) : Code I α := do
  begin mode
  match ← operation.attempt with
  | .error e => do
      rollback
      .fail e
  | .ok value => do
      (match mode with
        | .readWrite => commit
        | .readOnly => rollback)
      pure value

/-- `map_err(port)` of a transaction. -/
def ported {α : Type} (p : Code I α) : Prog (Op I) Op.Ans PortError α := do
  match ← p.attempt with
  | .error e => .fail (port e)
  | .ok value => pure value

def maxCasAttempts : Nat := 8

/-- The rounds of `AutoCommit::decide` that are left. -/
def decideLoop {α : Type} (operation : Code I (Except PortError α)) :
    Nat → Prog (Op I) Op.Ans PortError α
  | 0 => .fail .conflict
  | attempts + 1 => do
      begin .readWrite
      match ← operation.attempt with
      | .error (.conflict _) => do
          rollback
          decideLoop operation attempts
      | .error e => do
          rollback
          .fail (port e)
      | .ok (.error refusal) => do
          rollback
          .fail refusal
      | .ok (.ok value) => do
          match ← (commit (I := I)).attempt with
          | .ok () => pure value
          | .error (.conflict _) => decideLoop operation attempts
          | .error e => .fail (port e)

/-- `AutoCommit::decide`. -/
def decide {α : Type} (operation : Code I (Except PortError α)) : Prog (Op I) Op.Ans PortError α :=
  decideLoop operation maxCasAttempts

/-! ## What a call does -/

/-- A call ends with the one commit that succeeds. -/
def terms (I : Type) : Terms I := { once := True }

variable [LinearOrder I] {env : Env I} {Call ε ε' ρ : Type} {prog : Call → Prog (Op I) Op.Ans ε ρ}
  {b s : Shared I} {trx : Trx I} {α : Type} {E : α → Capsules I → Capsules I → Prop}

/-- The last step of a call: `E` if it has returned, and nothing if it has failed. -/
def Ends (E : α → Capsules I → Capsules I → Prop) (r : Except ε' α) (b s : Shared I) : Prop :=
  match r with
  | .ok a => E a b.committed s.committed
  | .error _ => s.committed = b.committed

/-- The operation of a call leaves a buffer that does `E` when it is committed. -/
def Prepares (env : Env I) (E : α → Capsules I → Capsules I → Prop) (r : Except ε' α)
    (s : Shared I) (trx : Trx I) : Prop :=
  trx.Open (terms I) ∧ ∀ a, r = .ok a → Ready env (terms I) (E a) s trx

omit [LinearOrder I] in
theorem open_fresh (mode : Mode) (finished : Bool) :
    Trx.Open (terms I) { mode := mode, finished := finished } := fun _ => rfl

/-- An operation that `decide` retries, by what it has prepared when it returns. -/
abbrev Decides (env : Env I) (prog : Call → Prog (Op I) Op.Ans ε ρ) {α : Type}
    (E : α → Capsules I → Capsules I → Prop) (operation : Code I (Except PortError α)) : Prop :=
  ∀ b s, Safe (calm env (terms I) prog)
    (fun r _ s trx => trx.Open (terms I) ∧ ∀ r', r = .ok r' → Prepares env E r' s trx)
    operation b s { mode := .readWrite }

theorem prepares_error {r : Except StorageError (Except PortError α)} (h : trx.Open (terms I))
    (hr : ∀ a, r ≠ .ok (.ok a) := by simp) :
    trx.Open (terms I) ∧ ∀ r', r = .ok r' → Prepares env E r' s trx :=
  ⟨h, fun _ hr' => ⟨h, fun a ha => absurd (hr'.trans (congrArg _ ha)) (hr a)⟩⟩

theorem safe_rollback_fail {β : Type} {E} (e : ε') (h : trx.Open (terms I)) :
    Safe (calm env (terms I) prog) (fun r b s _ => Ends E r b s)
      (rollback >>= fun _ => (.fail e : Prog (Op I) Op.Ans ε' β)) b s trx :=
  Safe.step fun _ ht _ _ => ⟨⟨ht, h, rfl⟩, rfl⟩

theorem safe_run {operation}
    (hop : ∀ b s, Safe (calm env (terms I) prog) (fun r _ s trx => Prepares env E r s trx)
      operation b s { mode := .readWrite }) (h : trx.Open (terms I)) :
    Safe (calm env (terms I) prog) (fun r b s _ => Ends E r b s) (run .readWrite operation) b s trx := by
  refine Safe.step fun t ht _ _ => ⟨⟨ht, h, rfl⟩, (hop t t).attempt ?_⟩
  rintro r b s trx ⟨hopen, hready⟩
  cases r with
  | error e => exact safe_rollback_fail e hopen
  | ok a =>
    refine (safe_commit_ready (fun _ _ => trivial) (hready a rfl)).bind ?_ ?_
    · rintro _ b s trx (⟨-, hE⟩ | ⟨⟨e, h⟩, -⟩)
      · exact hE
      · cases h
    · rintro e b s trx (⟨h, -⟩ | ⟨-, -, h⟩)
      · cases h
      · exact h

theorem safe_ported {p} (h : Safe (calm env (terms I) prog) (fun r b s _ => Ends E r b s) p b s trx) :
    Safe (calm env (terms I) prog) (fun r b s _ => Ends E r b s) (ported p) b s trx :=
  h.attempt fun r b s trx h => by cases r <;> exact h

theorem safe_decideLoop {operation} (hop : Decides env prog E operation) (attempts : Nat)
    (hcommitted : s.committed = b.committed) (h : trx.Open (terms I)) :
    Safe (calm env (terms I) prog) (fun r b s _ => Ends E r b s) (decideLoop operation attempts)
      b s trx := by
  induction attempts generalizing b s trx with
  | zero => exact hcommitted
  | succ attempts ih =>
    refine Safe.step fun t ht _ _ => ⟨⟨ht, h, rfl⟩, (hop t t).attempt ?_⟩
    rintro r b s trx ⟨hopen, hready⟩
    split
    · exact Safe.step fun t ht _ _ => ⟨⟨ht, hopen, rfl⟩, ih rfl (open_fresh _ _)⟩
    · exact safe_rollback_fail _ hopen
    · exact safe_rollback_fail _ hopen
    · next value =>
      refine (safe_commit_ready (fun _ _ => trivial) ((hready _ rfl).2 value rfl)).attempt ?_
      rintro r b s trx (⟨rfl, hE⟩ | ⟨⟨e, rfl⟩, hopen, hsame⟩)
      · exact hE
      · cases e with
        | conflict message => exact ih hsame hopen
        | _ => exact hsame

/-- **A call that decides** does at its last step what its operation has prepared, or nothing. -/
theorem safe_decide {operation} (hop : Decides env prog E operation) (s : Shared I) :
    Safe (calm env (terms I) prog) (fun r b s _ => Ends E r b s) (decide operation) s s {} :=
  safe_decideLoop hop _ rfl fun _ => rfl

/-! ## Typed calls -/

section

variable {M : Type} {fromRow : Row I → Except StorageError M} {model : Model} {name family key : String}
  {β : Type} {Q : Except StorageError β → Shared I → Shared I → Trx I → Prop}

/-- All but one record is as it was. -/
def Only (k : Key I) (m m' : Capsules I) : Prop := ∀ k', k' ≠ k → m'.get k' = m.get k'

theorem only_put (k : Key I) (m : Capsules I) (c : Capsule I) : Only k m (m.put k c) :=
  fun _ hne => Store.get_put_of_ne hne

/-- A record is looked up by its key and decoded, and then the rest. -/
theorem safe_findTyped (hmodel : env.model name = some model) (hfamily : model.keyFamily = some family)
    {f : Option M → Code I β} (herror : ∀ e b s trx, trx.Open (terms I) → Q (.error e) b s trx)
    (hnone : ∀ v b s trx, liveRow model v = none →
      At (terms I) (model.name, env.forKey family key) v s trx →
      Safe (calm env (terms I) prog) Q (f none) b s trx)
    (hsome : ∀ c r b s trx, c.tombstone = false → fromRow (decode model c) = .ok r →
      At (terms I) (model.name, env.forKey family key) (some c) s trx →
      Safe (calm env (terms I) prog) Q (f (some r)) b s trx) :
    Safe (calm env (terms I) prog) Q
      (findUnique env name (.key key) >>= fun found => Prog.ofExcept (typed fromRow found) >>= f)
      b s { mode := .readWrite } := by
  rw [findUnique_key hmodel hfamily]
  refine (safe_live_fresh (open_fresh _ _) rfl).bind ?_ ?_
  · rintro found b s trx ⟨v, heq, -, hat⟩
    refine Safe.check (fun e _ => herror e _ _ _ hat.isOpen) fun r hr => ?_
    cases heq
    rcases typed_eq_ok hr with ⟨hv, rfl⟩ | ⟨row, r, hv, hrow, rfl⟩
    · exact hnone v b s trx hv hat
    · obtain ⟨c, rfl, hlive, rfl⟩ := liveRow_eq_some hv
      exact hsome c r b s trx hlive hrow hat
  · rintro e b s trx ⟨v, h, -⟩
    cases h

/-- A record that was found is updated and decoded, and then the rest. -/
theorem safe_updateTyped (hmodel : env.model name = some model)
    (hfamily : model.keyFamily = some family) {data : Data I} {f : Option M → Code I β} {c : Capsule I}
    (hat : At (terms I) (model.name, env.forKey family key) (some c) s trx)
    (hlive : c.tombstone = false)
    (herror : ∀ e b s trx, trx.Open (terms I) → Q (.error e) b s trx)
    (hsome : ∀ r b s trx, fromRow (decode model (updated model c data)) = .ok r →
      Pending (terms I) (model.name, env.forKey family key) (some c) (updated model c data) s trx →
      Safe (calm env (terms I) prog) Q (f (some r)) b s trx) :
    Safe (calm env (terms I) prog) Q (update env .readWrite name (.key key) data >>= fun found =>
        Prog.ofExcept (typed fromRow found) >>= f) b s trx := by
  refine (safe_update_at hmodel hfamily hat).bind ?_ fun e b s trx h => herror e b s trx h.1
  rintro found b s trx ⟨hopen, hfound⟩
  refine Safe.check (fun e _ => herror e _ _ _ hopen) fun r hr => ?_
  rcases typed_eq_ok hr with ⟨rfl, rfl⟩ | ⟨row, r, rfl, hrow, rfl⟩
  · have hnone := hfound.1
    simp [liveRow, hlive] at hnone
  · obtain ⟨c', h, -, rfl, hpending⟩ := hfound
    cases h
    exact hsome r b s trx hrow hpending

end

/-! ## Runs -/

section

variable {ι : Type} [DecidableEq ι] {Post : Call → Except ε ρ → Shared I → Shared I → Prop}

/-- A step in which no record changes that another call has read and not yet written. -/
structure Undisturbed (env : Env I) (prog : Call → Prog (Op I) Op.Ans ε ρ)
    (s : Sys ι (Shared I) (Trx I) Call (Op I) Op.Ans ε ρ) (e : Event ι Call ℕ)
    (t : Sys ι (Shared I) (Trx I) Call (Op I) Op.Ans ε ρ) : Prop where
  step : (provider env prog).Step s e t
  untouched : ∀ j th, s.threads j = some th → (∀ i, e = .step i → j ≠ i) →
    ∀ k, th.own.Awaits k → t.shared.committed.get k = s.shared.committed.get k

theorem undisturbed_of_alone {s t : Sys Unit (Shared I) (Trx I) Call (Op I) Op.Ans ε ρ}
    {e : Event Unit Call ℕ} (h : (provider env prog).Step s e t) : Undisturbed env prog s e t where
  step := h
  untouched j th _ hne k _ := by
    cases e with
    | step i => exact absurd rfl (hne i rfl)
    | start i call => rw [h.shared_start]
    | environment e =>
      cases h
      rfl

/-- What a step has done: nothing that is committed, or what the call promised that it ends. -/
def Transition (Post : Call → Except ε ρ → Shared I → Shared I → Prop)
    (s t : Sys ι (Shared I) (Trx I) Call (Op I) Op.Ans ε ρ) : Prop :=
  (t.shared.committed = s.shared.committed ∧ t.finished = s.finished) ∨
    ∃ call r, t.finished = s.finished ++ [(call, r)] ∧ Post call r s.shared t.shared

/-- **The steps of a service.** -/
theorem Undisturbed.did {s t : Sys ι (Shared I) (Trx I) Call (Op I) Op.Ans ε ρ}
    {e : Event ι Call ℕ} (h : Undisturbed env prog s e t)
    (hprog : ∀ i c s, e = .start i c → Safe (calm env (terms I) prog)
      (fun r b s _ => Post c r b s) (prog c) s s {})
    (hs : Good (calm env (terms I) prog) Post s) :
    Good (calm env (terms I) prog) Post t ∧ Rising s.shared.committed t.shared.committed ∧
      Transition Post s t := by
  obtain ⟨ht, hdid⟩ := hs.step h.step (fun i c he => hprog i c s.shared he) (fun _ _ hs => hs)
    (fun _ _ _ _ _ _ _ => trivial)
    (fun i call own o next j th he hthread hth hne hguar =>
      ⟨h.untouched j th hth fun i' hi' => by cases he.symm.trans hi'; exact hne, hguar.rising⟩)
    (fun e' j th he _ => by subst he; cases h.step; exact Rely.refl _ _)
  refine ⟨ht, ?_⟩
  cases hdid with
  | environment hshared hfinished =>
    have hsame : t.shared.committed = s.shared.committed := by rw [hshared]; rfl
    exact ⟨hsame ▸ Rising.refl _, .inl ⟨hsame, hfinished⟩⟩
  | started hshared hfinished =>
    refine ⟨hshared ▸ Rising.refl _, ?_⟩
    rcases hfinished with hfinished | ⟨r, hfinished, hpost⟩
    · exact .inl ⟨by rw [hshared], hfinished⟩
    · exact .inr ⟨_, r, hfinished, hpost⟩
  | operation hthread hshared hguar hfinished =>
    rename_i i call own o next
    refine ⟨hguar.rising, ?_⟩
    rcases hfinished with ⟨hfinished, rest, hrest⟩ | ⟨r, hfinished, hpost⟩
    · refine .inl ⟨?_, hfinished⟩
      -- a call that has more to do has not committed: it would not be open any more
      obtain ⟨⟨o', next', heq⟩, hsafe⟩ := ht.safe i _ hrest
      rw [heq] at hsafe
      have hopen := (hsafe t.shared ht.inv (Rely.refl _ _) trivial).1.2.1 trivial
      cases o with
      | commit =>
        rcases Guar.commit hguar with hok | hsame
        · cases (succeeded_commit env hok).symm.trans hopen
        · exact hsame
      | _ => exact hguar.2
    · exact .inr ⟨call, r, hfinished, hpost⟩

end

end Aseman.Services
