import Aseman.Storage.Reading

/-!
# Interleaved transactions

Any number of transactions of the engine over the memory provider, each with a client that makes the
calls it likes and looks at their answers. An update reads its record twice: first the row that it merges
into, then the revision that it replaces. If another transaction commits in between, what that one
changed is lost. As long as no record changes between the time a transaction has read it and the time it
buffers its write, an update changes the fields it names and no other.
-/

namespace Aseman.Storage

variable {I : Type} [LinearOrder I] (env : Env I)

/-! ## Clients -/

inductive Call (I : Type)
  | findUnique (model : String) (unique : Unique I)
  | findMany (model : String) (query : FindMany I)
  | count (model : String) (filter : Option (Where I))
  | create (model : String) (data : Data I) (generated : I)
  | update (model : String) (unique : Unique I) (data : Data I)
  | upsert (model : String) (unique : Unique I) (created updated : Data I) (generated : I)
  | delete (model : String) (unique : Unique I)
  | updateMany (model : String) (filter : Option (Where I)) (data : Data I) (pages : Nat)
  | deleteMany (model : String) (filter : Option (Where I)) (pages : Nat)
  | capsule (model : String) (id : I)
  | capsules (model : String) (query : FindMany I)
  | putCapsule (capsule : Capsule I) (expected : Option Nat)
  | commit
  | rollback

@[reducible] def Call.Returns : Call I → Type
  | findUnique _ _ => Option (Row I)
  | findMany _ _ => List (Row I)
  | count _ _ => Nat
  | create _ _ _ => Row I
  | update _ _ _ => Option (Row I)
  | upsert _ _ _ _ _ => Row I
  | delete _ _ => Option (Row I)
  | updateMany _ _ _ _ => Nat
  | deleteMany _ _ _ => Nat
  | capsule _ _ => Option (Capsule I)
  | capsules _ _ => List (Capsule I)
  | putCapsule _ _ => Unit
  | commit => Unit
  | rollback => Unit

/-- What a client sees of a call. -/
@[reducible] def Call.Ans (c : Call I) : Type := Except StorageError c.Returns

/-- The program of a call, in a transaction of the mode. -/
def Call.code (mode : Mode) : (c : Call I) → Code I c.Returns
  | findUnique model unique => Storage.findUnique env model unique
  | findMany model query => Storage.findMany env model query
  | count model filter => Storage.count env model filter
  | create model data generated => Storage.create env mode model data generated
  | update model unique data => Storage.update env mode model unique data
  | upsert model unique created updated generated =>
    Storage.upsert env mode model unique created updated generated
  | delete model unique => Storage.delete env mode model unique
  | updateMany model filter data pages => Storage.updateMany env mode model filter data pages
  | deleteMany model filter pages => Storage.deleteMany env mode model filter pages
  | capsule model id => Storage.capsule env model id
  | capsules model query => Storage.capsules env model query
  | putCapsule sealedCapsule expected => Storage.putCapsule env mode sealedCapsule expected
  | commit => Storage.commit
  | rollback => Storage.rollback

/-- A transaction: its mode, and its client. -/
structure Transaction (I : Type) where
  mode : Mode
  client : Prog (Call I) Call.Ans Unit Unit

open Transaction

def runClient (mode : Mode) : Prog (Call I) Call.Ans Unit Unit → Code I Unit
  | .done _ => pure ()
  | .step c next => do
      let a ← (c.code env mode).attempt
      runClient mode (next a)

/-- A transaction from `begin` to the drop, which rolls it back unless it is finished. -/
def Transaction.code (t : Transaction I) : Code I Unit := do
  begin t.mode
  runClient env t.mode t.client
  rollback

def machine : Machine (Shared I) (Trx I) (Transaction I) (Op I) Op.Ans StorageError Unit ℕ :=
  provider env (code env)

/-! ## Updates -/

/-- The runs that are spoken about: no write is of a revision that is not above the one it replaces. The
engine's own never are; those of `put_capsule` are the caller's. -/
def RisingPuts : Op I → Prop
  | .put _ w => w.Rises
  | _ => True

def AgreeOutside (model : Model) (named : Data I) (c c' : Capsule I) : Prop :=
  ∀ f, named.get f = none → (decode model c).get f = (decode model c').get f

/-- A write of an update replaces the revision before it, and changes the fields it names and no
other. -/
def KeepsFields (v : Option (Capsule I)) (w : Write I) : Prop :=
  ∀ named, w.named = some named → ∃ previous, v = some previous ∧
    w.capsule.revision = previous.revision + 1 ∧
      ∀ model, env.model w.kind = some model → AgreeOutside model named w.capsule previous

/-- What is asked of the transactions. -/
def terms : Terms I where
  May := RisingPuts
  Effect := Replaces (KeepsFields env)

variable {env}

/-- The buffer of the transaction is sound. -/
def SoundTrx (env : Env I) (s : Shared I) (trx : Trx I) : Prop :=
  SoundWrites (KeepsFields env) s.committed trx.writes

/-- The program leaves the buffer of its transaction sound. -/
def KeepsSound (env : Env I) {α : Type} (p : Code I α) : Prop :=
  ∀ b s trx, SoundTrx env s trx → Safe (calm env (terms env) (code env))
    (fun _ _ s trx => SoundTrx env s trx) p b s trx

theorem Trx.open_terms (trx : Trx I) : trx.Open (terms env) := False.elim

variable {s : Shared I} {trx : Trx I}

theorem SoundTrx.of_rely {t} (h : SoundTrx env s trx) (hrely : Rely trx s t) : SoundTrx env t trx :=
  SoundWrites.rising h hrely.2

variable (mode : Mode) (model : String) (filter : Option (Where I)) (query : FindMany I)
  (unique : Unique I)

namespace KeepsSound

variable {α β : Type}

theorem done (r : Except StorageError α) : KeepsSound env (.done r) := fun _ _ _ h => h

theorem test {p : Code I α} (h : ∃ r, p = .done r) : KeepsSound env p := by
  obtain ⟨r, rfl⟩ := h
  exact done r

theorem bind {p : Code I α} {f : α → Code I β} (h : KeepsSound env p)
    (hf : ∀ a, KeepsSound env (f a)) : KeepsSound env (p >>= f) := fun b s trx hs =>
  (h b s trx hs).bind (fun a b s trx hs => hf a b s trx hs) fun _ _ _ _ hs => hs

theorem each {f} (h : ∀ a, KeepsSound env (f a)) (as : List α) :
    KeepsSound env (Prog.each f as) := fun _ _ _ hs =>
  Safe.each (fun a _ b s trx hs => h a b s trx hs) hs

theorem begin : KeepsSound env (Storage.begin mode) := fun _ _ trx _ =>
  safe_begin trx.open_terms fun _ => SoundWrites.nil _

theorem rollback : KeepsSound env (Storage.rollback : Code I Unit) := fun _ _ trx _ =>
  safe_rollback trx.open_terms fun _ => SoundWrites.nil _

theorem commit : KeepsSound env (Storage.commit : Code I Unit) := fun _ _ trx hs =>
  safe_commit trx.open_terms (fun _ _ hrely hcheck =>
      have hcommit := SoundWrites.commit (hs.of_rely hrely) hcheck
      ⟨hcommit.1, hcommit.2, SoundWrites.nil _⟩)
    fun _ _ hrely => ⟨hs.of_rely hrely, SoundWrites.nil _⟩

theorem put {model w} (hkind : w.kind = model.name) (hnamed : w.named = none) :
    KeepsSound env (Storage.put model w) := fun _ _ trx hs =>
  safe_put hkind trx.open_terms
    (fun t _ hrely hrises hexpected => SoundWrites.push (hs.of_rely hrely)
      ⟨hrises, _, Seen.of_view trx t.committed w.key, hexpected.symm, fun _ h => by
        rw [hnamed] at h
        cases h⟩)
    fun _ _ hrely => hs.of_rely hrely

theorem get (model : Model) (id : I) : KeepsSound env (Storage.get model id) := fun _ _ trx hs =>
  safe_get trx.open_terms fun _ _ hrely => hs.of_rely hrely

theorem find (model : Model) (query : FindMany I) : KeepsSound env (Storage.find model query) :=
  fun _ _ trx hs => Safe.perform fun _ ht hrely _ =>
    ⟨⟨ht, trx.open_terms, rfl⟩, SoundWrites.rising hs hrely.2⟩

theorem modelOf (name : String) : KeepsSound env (Storage.modelOf env name) := by
  unfold Storage.modelOf
  split <;> exact done _

theorem checkFilter (model : Model) (filter : Option (Where I)) :
    KeepsSound env (Storage.checkFilter model filter) := by
  unfold Storage.checkFilter
  split <;> exact done _

theorem count : KeepsSound env (Storage.count env model filter) :=
  bind (modelOf _) fun _ => bind (checkFilter _ _) fun _ => fun _ _ trx hs =>
    Safe.perform fun _ ht hrely _ => ⟨⟨ht, trx.open_terms, rfl⟩, hs.of_rely hrely⟩

theorem findMany : KeepsSound env (Storage.findMany env model query) := by
  refine bind (modelOf _) fun model => bind (checkFilter _ _) fun _ => ?_
  split
  · exact done _
  · exact bind (find _ _) fun _ => done _

theorem findUnique : KeepsSound env (Storage.findUnique env model unique) := by
  refine bind (modelOf _) fun model => bind (test (directId_eq ..)) fun id => ?_
  split
  · refine bind (get _ _) fun c => ?_
    split <;> exact done _
  · unfold findByFields
    split
    · exact bind (find _ _) fun _ => done _
    · exact done _
  · exact done _

theorem create (data : Data I) (generated : I) :
    KeepsSound env (Storage.create env mode model data generated) := by
  refine bind (modelOf _) fun model => bind (test (writable_eq ..)) fun _ => bind (done _) fun _ =>
    bind (test (newId_eq ..)) fun id => bind (get _ _) fun previous => ?_
  split
  · exact done _
  · exact bind (put rfl rfl) fun _ => done _

theorem delete : KeepsSound env (Storage.delete env mode model unique) := by
  refine bind (findUnique _ _) fun found => ?_
  split
  · exact done _
  · refine bind (modelOf _) fun model => bind (test (writable_eq ..)) fun _ =>
      bind (test (notAppendOnly_eq ..)) fun _ => bind (get _ _) fun previous => ?_
    split
    · exact done _
    · exact bind (put rfl rfl) fun _ => done _

theorem all (pages : Nat) (rows : List (Row I)) :
    KeepsSound env (Storage.all env model filter pages rows) := by
  induction pages generalizing rows with
  | zero => exact done _
  | succ pages ih =>
    refine bind (findMany _ _) fun found => ?_
    split
    · exact done _
    · exact ih _

theorem deleteMany (pages : Nat) :
    KeepsSound env (Storage.deleteMany env mode model filter pages) :=
  bind (all _ _ _ _) fun _ => bind (each (fun _ => bind (delete _ _ _) fun _ => done _) _) fun _ => done _

theorem capsule (id : I) : KeepsSound env (Storage.capsule env model id) :=
  bind (modelOf _) fun _ => get _ _

theorem capsules : KeepsSound env (Storage.capsules env model query) :=
  bind (modelOf _) fun _ => bind (checkFilter _ _) fun _ => find _ _

theorem putCapsule (capsule : Capsule I) (expected : Option Nat) :
    KeepsSound env (Storage.putCapsule env mode capsule expected) :=
  bind (modelOf _) fun _ => bind (test (writable_eq ..)) fun _ => bind (done _) fun _ => put rfl rfl

end KeepsSound

/-! ### Rows that are rewritten -/

variable {model : Model} {named : Data I} {rows : List (Row I)}

def Agrees (model : Model) (named : Data I) (row : Row I) (c : Capsule I) : Prop :=
  ∀ f, named.get f = none → (decode model c).get f = row.get f

/-- What is known while rows are rewritten. -/
abbrev Rewriting (env : Env I) (model : Model) (named : Data I) :=
  Holds (terms env) (KeepsFields env) (Agrees model named) model

variable {row : Row I}

omit [LinearOrder I] in
/-- **Merging into a known row** changes the named fields only. -/
theorem agreeOutside_merge {c previous} (hc : Agrees model named row c) :
    AgreeOutside model named (encode model row.id previous (merge row.data named)) c := by
  intro f hf
  have hrow : (decode model c).get f = row.data.field f := hc f hf
  rw [get_decode_encode, field_merge, hf, Option.getD_none, ← hrow, get_decode]
  split <;> rfl

theorem Holds.push_update {c} (h : Rewriting env model named rows s trx)
    (hmodel : env.model model.name = some model)
    (hget : (trx.view s.committed).get (model.name, row.id) = some c)
    (hc : Agrees model named row c) :
    Rewriting env model named rows s { trx with writes := trx.writes ++ [⟨model.name,
      encode model row.id (some c) (merge row.data named), some c.revision, some named⟩] } where
  isOpen := trx.open_terms
  sound := by
    refine SoundWrites.push h.sound ⟨by simp [Write.Rises, encode], some c, ?_, rfl, ?_⟩
    · rw [← hget]
      exact Seen.of_view trx s.committed _
    · rintro _ ⟨⟩
      refine ⟨c, rfl, rfl, fun model' hmodel' => ?_⟩
      obtain rfl : model = model' := Option.some.inj (hmodel.symm.trans hmodel')
      exact agreeOutside_merge hc
  knows row' hrow' := by
    obtain ⟨hread, c', hget', hc'⟩ := h.knows row' hrow'
    refine ⟨hread, ?_⟩
    by_cases heq : (model.name, row.id) = (model.name, row'.id)
    · -- the same record again: both rows agree with what the transaction saw outside `named`
      obtain rfl : c = c' := by rw [heq, hget'] at hget; exact (Option.some.inj hget).symm
      exact ⟨_, Trx.get_view_push.trans (if_pos heq),
        fun f hf => (agreeOutside_merge hc f hf).trans (hc' f hf)⟩
    · exact ⟨c', (Trx.get_view_push.trans (if_neg heq)).trans hget', hc'⟩

variable {name : String}

theorem safe_rewrite {mode} (hmodel : env.model name = some model) (hrow : row ∈ rows) {b}
    (h : Rewriting env model named rows s trx) :
    Safe (calm env (terms env) (code env))
      (fun _ _ s trx => Rewriting env model named rows s trx)
      (rewrite env mode name row named) b s trx := by
  have hname := env.named name model hmodel
  rw [rewrite, modelOf_bind hmodel]
  refine Safe.test (writable_eq ..) (fun _ => h) fun _ _ =>
    Safe.test (notAppendOnly_eq ..) (fun _ => h) fun _ _ =>
    Safe.check (fun _ _ => h) fun _ _ => ?_
  split
  · exact h
  · refine Safe.check (fun _ _ => h) fun _ _ => Safe.bind
      (Q := fun r _ s trx => Rewriting env model named rows s trx ∧
        (model.name, row.id) ∈ trx.reads ∧ r = .ok ((trx.view s.committed).get (model.name, row.id)))
      (safe_get h.isOpen fun t _ hrely => ⟨h.read hrely (List.subset_cons_self _ _),
        List.mem_cons_self, rfl⟩) (fun previous b s trx hs => ?_) fun e b s trx hs => hs.1
    obtain ⟨hs, hread, heq⟩ := hs
    cases heq
    split
    · exact hs
    · next c hget =>
      refine Safe.bind (Q := fun _ _ s trx => Rewriting env model named rows s trx)
        (safe_put rfl trx.open_terms (fun t _ hrely _ _ => ?_) fun t e hrely => ?_)
        (fun _ b s trx hs => hs) fun _ _ _ _ hs => hs
      · have hs' : Rewriting env model named rows t trx := hs.read hrely (List.Subset.refl _)
        obtain ⟨-, c', hget', hc'⟩ := hs'.knows row hrow
        obtain rfl : c = c' := by
          rw [hrely.get_view hread, hget] at hget'
          exact Option.some.inj hget'
        exact hs'.push_update (hname ▸ hmodel) hget' hc'
      · exact hs.read hrely (List.Subset.refl _)

namespace KeepsSound

theorem rewrite_of_found {mode} (hmodel : env.model name = some model) {b}
    (h : Rewriting env model named [row] s trx) :
    Safe (calm env (terms env) (code env)) (fun _ _ s trx => SoundTrx env s trx) (rewrite env mode name row named)
      b s trx :=
  (safe_rewrite hmodel List.mem_cons_self h).mono fun _ _ _ _ h => h.sound

theorem findUnique_bind {α : Type} {unique : Unique I} (named : Data I)
    {f : Option (Row I) → Code I α} (hnone : KeepsSound env (f none))
    (hsome : ∀ model row b s trx, env.model name = some model → Rewriting env model named [row] s trx →
      Safe (calm env (terms env) (code env)) (fun _ _ s trx => SoundTrx env s trx) (f (some row)) b s trx) :
    KeepsSound env (Storage.findUnique env name unique >>= f) := by
  intro b s trx hs
  cases hmodel : env.model name with
  | none =>
    rw [Storage.findUnique, Storage.modelOf, hmodel]
    exact hs
  | some model =>
    refine (Learns.findUnique hmodel unique (fun _ _ _ _ => rfl) [] b s trx
      ⟨trx.open_terms, hs, by simp⟩).bind
      (Q := fun r _ s trx => Rewriting env model named ([] ++ rowsOf Option.toList r) s trx)
      (fun found b s trx hs => ?_) fun e b s trx hs => hs.sound
    cases found with
    | none => exact hnone b s trx hs.sound
    | some row => exact hsome model row b s trx hmodel hs

theorem update (model : String) (unique : Unique I) (data : Data I) :
    KeepsSound env (Storage.update env mode model unique data) :=
  findUnique_bind data (done _) fun _ _ _ _ _ hmodel h =>
    (rewrite_of_found hmodel h).bind (fun _ _ _ _ h => h) fun _ _ _ _ h => h

theorem upsert (model : String) (unique : Unique I) (created updated : Data I)
    (generated : I) : KeepsSound env (Storage.upsert env mode model unique created updated generated) :=
  findUnique_bind updated (bind (test (withSelector_eq ..)) fun _ => create _ _ _ _)
    fun _ _ _ _ _ hmodel h => rewrite_of_found hmodel h

theorem updateMany (name : String) (filter : Option (Where I)) (data : Data I)
    (pages : Nat) : KeepsSound env (Storage.updateMany env mode name filter data pages) := by
  intro b s trx hs
  cases hmodel : env.model name with
  | none =>
    obtain ⟨e, he⟩ := all_of_unknown env hmodel filter pages []
    rw [Storage.updateMany, he]
    exact hs
  | some model =>
    have hall : Safe (calm env (terms env) (code env))
        (fun r _ s trx => Rewriting env model data ([] ++ rowsOf id r) s trx)
        (Storage.all env name filter pages []) b s trx :=
      Learns.all hmodel filter (fun _ _ _ _ _ => rfl) pages [] ⟨trx.open_terms, hs, by simp⟩
    refine hall.bind (fun rows b s trx hs => ?_) fun e b s trx hs => hs.sound
    refine Safe.bind (Q := fun _ _ s trx => Rewriting env model data rows s trx) ?_
      (fun _ _ _ _ h => h.sound) fun _ _ _ _ h => h.sound
    refine Safe.each (fun row hrow b s trx h => ?_) hs
    exact (safe_rewrite hmodel hrow h).bind (fun _ _ _ _ h => h) fun _ _ _ _ h => h

/-- **Every call** leaves the buffer of its transaction sound. -/
theorem code (c : Call I) : KeepsSound env (c.code env mode) := by
  cases c with
  | findUnique model unique => exact findUnique _ _
  | findMany model query => exact findMany _ _
  | count model filter => exact count _ _
  | create model data generated => exact create _ _ _ _
  | update model unique data => exact update _ _ _ _
  | upsert model unique created updated generated => exact upsert _ _ _ _ _ _
  | delete model unique => exact delete _ _ _
  | updateMany model filter data pages => exact updateMany _ _ _ _ _
  | deleteMany model filter pages => exact deleteMany _ _ _ _
  | capsule model id => exact capsule _ _
  | capsules model query => exact capsules _ _
  | putCapsule sealedCapsule expected => exact putCapsule _ _ _
  | commit => exact commit
  | rollback => exact rollback

theorem runClient (client : Prog (Call I) Call.Ans Unit Unit) :
    KeepsSound env (Storage.runClient env mode client) := by
  induction client with
  | done r => exact done _
  | step c next ih =>
    intro b s trx hs
    exact Safe.attempt (code mode c b s trx hs) fun a b s trx hs => ih a b s trx hs

theorem transaction (t : Transaction I) : KeepsSound env (t.code env) :=
  bind (begin _) fun _ => bind (runClient _ _) fun _ => rollback

end KeepsSound

/-! ## Runs -/

abbrev System (ι I : Type) :=
  Sys ι (Shared I) (Trx I) (Transaction I) (Op I) Op.Ans StorageError Unit

section

variable {ι : Type} [DecidableEq ι]

/-- A step in which no record changes that another transaction has read and not yet written, and no
write is of a revision that is not above the one it replaces. -/
structure Calm (env : Env I) (s : System ι I) (e : Event ι (Transaction I) ℕ) (t : System ι I) :
    Prop where
  step : (machine env).Step s e t
  rises : ∀ i call trx o next, e = .step i → s.threads i = some ⟨call, trx, .step o next⟩ →
    RisingPuts o
  untouched : ∀ j th, s.threads j = some th → (∀ i, e = .step i → j ≠ i) →
    ∀ k, th.own.Awaits k → t.shared.committed.get k = s.shared.committed.get k

/-- The writes that the next step of a thread commits, if it is a commit that succeeds. -/
def committing (env : Env I) (s : System ι I) (i : ι) : Option (List (Write I)) :=
  match s.threads i with
  | some ⟨_, trx, .step .commit _⟩ =>
    match (exec env .commit s.shared trx).1 with
    | .ok () => some trx.writes
    | .error _ => none
  | _ => none

theorem Calm.good {s t : System ι I} {e : Event ι (Transaction I) ℕ} (h : Calm env s e t)
    (hs : Good (calm env (terms env) (code env)) (fun _ _ _ _ => True) s) :
    Good (calm env (terms env) (code env)) (fun _ _ _ _ => True) t := by
  refine (hs.step h.step (fun _ c _ => ?_) (fun _ _ hs => hs) h.rises
    (fun i call own o next j th he hthread hth hne hguar => ?_) fun e' j th he _ => ?_).1
  · exact (KeepsSound.transaction c _ _ {} (SoundWrites.nil _)).mono fun _ _ _ _ _ => trivial
  · exact ⟨h.untouched j th hth fun i' hi' => by cases he.symm.trans hi'; exact hne, hguar.rising⟩
  · subst he
    cases h.step
    exact Rely.refl _ _

/-- **An update changes only the fields it names**, in every run in which no record changes between
the time a transaction has read it and the time it writes it. -/
theorem calm_run_keepsFields {s s' : System ι I} {events : List (Event ι (Transaction I) ℕ)} {i : ι}
    {writes : List (Write I)} (hplaced : Placed s.shared.committed)
    (hidle : ∀ i, s.threads i = none) (hrun : Run (Calm env) s events s')
    (hcommit : committing env s' i = some writes) :
    Replaces (KeepsFields env) s'.shared.committed writes := by
  have hgood : Good (calm env (terms env) (code env)) (fun _ _ _ _ => True) s' :=
    hrun.invariant (fun _ _ _ h => h.good) ⟨hplaced, fun i th hth => by rw [hidle] at hth; cases hth⟩
  unfold committing at hcommit
  split at hcommit
  · next call trx next hthread =>
    obtain ⟨-, hsafe⟩ := hgood.safe i _ hthread
    obtain ⟨⟨-, hguar⟩, -⟩ := hsafe _ hgood.inv (Rely.refl _ _) trivial
    split at hcommit
    · next hok =>
      cases hcommit
      change Guar (terms env) trx .commit (exec env .commit s'.shared trx).1 _ _ at hguar
      rw [hok] at hguar
      exact hguar.2.2
    · cases hcommit
  · cases hcommit

end

/-! ## Two updates of one record -/

namespace Sample

def pairModel : Model :=
  { name := "Pair", fields := .ofList [("left", .integer), ("right", .integer)] }

def pairEnv : Env ℕ where
  model name := if name = "Pair" then some pairModel else none
  named name m h := by
    split at h
    · next hname => cases h; exact hname.symm
    · cases h
  forKey _ _ := 0
  lower := id
  idText := toString

def pairCapsule : Capsule ℕ := ⟨"Pair", 7, 1, false, .ofList [("left", .int 0), ("right", .int 0)]⟩

/-- A transaction that sets one field of record 7 to 1 and commits. -/
def setField (field : String) : Transaction ℕ where
  mode := .readWrite
  client := .step (.update "Pair" (.id 7) (.ofList [(field, .int 1)])) fun _ =>
    .step .commit fun _ => .done (.ok ())

def pairSystem (ι : Type) : System ι ℕ :=
  ⟨⟨Store.put ∅ ("Pair", 7) pairCapsule, 0⟩, fun _ => none, []⟩

/-- Whether the next write of the one thread is of a newer revision. -/
def risesNext (s : System Unit ℕ) : Event Unit (Transaction ℕ) ℕ → Bool
  | .step () =>
    match s.threads () with
    | some ⟨_, _, .step (.put _ w) _⟩ => decide (w.expected.elim 0 (· + 1) < w.capsule.revision + 1)
    | _ => true
  | _ => true

theorem calm_of_alone (s : System Unit ℕ) (e : Event Unit (Transaction ℕ) ℕ) (t : System Unit ℕ)
    (hstep : (machine pairEnv).Step s e t) (htest : risesNext s e) : Calm pairEnv s e t where
  step := hstep
  rises i call trx o next he hthread := by
    subst he
    cases o with
    | put model w => simpa [risesNext, hthread, RisingPuts, Write.Rises] using htest
    | _ => trivial
  untouched j th hth hne k _ := by
    cases e with
    | step i => exact absurd rfl (hne i rfl)
    | start i call => rw [hstep.shared_start]
    | environment e =>
      cases hstep
      rfl

/-- The first transaction has read the row when the second one starts, and reads the revision after
the second one has committed. -/
def overtaken : List (Event Bool (Transaction ℕ) ℕ) :=
  [Event.call true (setField "left") 2, Event.call false (setField "right") 5,
    Event.steps true 2].flatten

/-- Of the update that the first transaction is about to commit: the other field, as it writes it and as
it is committed. -/
def otherField (s : System Bool ℕ) : Option (Option ℤ × Option ℤ) := do
  let writes ← committing pairEnv s true
  let w ← writes.head?
  let named ← w.named
  let previous ← s.shared.committed.get w.key
  if w.kind = "Pair" ∧ named.get "right" = none then
    some (((decode pairModel w.capsule).get "right").asInt,
      ((decode pairModel previous).get "right").asInt)
  else none

end Sample

open Sample

/-- An update of the one field takes back what the update of the other had changed. -/
theorem overtaken_update_loses_field : ∃ s writes,
    Run (machine pairEnv).Step (pairSystem Bool) overtaken s ∧
      committing pairEnv s true = some writes ∧
        ¬ Replaces (KeepsFields pairEnv) s.shared.committed writes := by
  have hlost : ((machine pairEnv).after (fun _ _ => true) (pairSystem Bool)
      overtaken).bind otherField = some (some 0, some 1) := by decide +kernel
  obtain ⟨s, hafter, hother⟩ := Option.bind_eq_some_iff.mp hlost
  obtain ⟨writes, hcommit, hother⟩ := Option.bind_eq_some_iff.mp hother
  refine ⟨s, writes, Machine.run_after (fun _ _ _ h _ => h) hafter, hcommit, fun hkeeps => ?_⟩
  obtain ⟨w, hw, hother'⟩ := Option.bind_eq_some_iff.mp hother
  obtain ⟨named, hnamed, hother'⟩ := Option.bind_eq_some_iff.mp hother'
  obtain ⟨previous, hprevious, hvalues⟩ := Option.bind_eq_some_iff.mp hother'
  split at hvalues
  · next hright =>
    obtain ⟨rest, rfl⟩ := List.head?_eq_some_iff.mp hw
    obtain ⟨previous', hprevious', -, hagree⟩ := hkeeps.1 named hnamed
    obtain rfl : previous = previous' := Option.some.inj (hprevious.symm.trans hprevious')
    have hsame := hagree pairModel (by rw [hright.1]; rfl) "right" hright.2
    rw [hsame] at hvalues
    obtain ⟨hzero, hone⟩ := Prod.mk.inj (Option.some.inj hvalues)
    cases hzero.symm.trans hone
  · cases hvalues

/-- A record whose one writer is never overtaken. -/
theorem calm_run_keepsFields_alone : ∃ (s : System Unit ℕ) (writes : List (Write ℕ)),
    committing pairEnv s () = some writes ∧ writes.length = 1 ∧
      Replaces (KeepsFields pairEnv) s.shared.committed writes := by
  have hfact : ((machine pairEnv).after risesNext (pairSystem Unit)
      (Event.call () (setField "left") 4)).bind (fun s =>
        (committing pairEnv s ()).map List.length) = some 1 := by decide +kernel
  obtain ⟨s, hafter, hlength⟩ := Option.bind_eq_some_iff.mp hfact
  obtain ⟨writes, hcommit, hlength⟩ := Option.map_eq_some_iff.mp hlength
  have hplaced : Placed (pairSystem Unit).shared.committed := Placed.single rfl
  exact ⟨s, writes, hcommit, hlength, calm_run_keepsFields hplaced (fun _ => rfl)
    (Machine.run_after calm_of_alone hafter) hcommit⟩

end Aseman.Storage
