import Aseman.Storage.Optimistic

/-!
# Transactions on one record

A short transaction reads one record, decides, and writes it through a call that reads it again. As long
as the others leave alone what it has read, all its reads see one capsule (`At`), its write expects the
revision of that capsule (`Pending`), and a commit that succeeds has replaced it.
-/

namespace Aseman.Storage

variable {I : Type} [LinearOrder I] {env : Env I} {T : Terms I} {Call ε ρ : Type}
  {prog : Call → Prog (Op I) Op.Ans ε ρ}

/-- The record that a capsule stands for, unless it is a tombstone. -/
def liveRow (model : Model) (v : Option (Capsule I)) : Option (Row I) :=
  v.bind fun c => if c.tombstone then none else some (decode model c)

def updated (model : Model) (c : Capsule I) (data : Data I) : Capsule I :=
  encode model c.id (some c) (merge (decode model c).data data)

omit [LinearOrder I] in
theorem get_updated (model : Model) (c : Capsule I) (data : Data I) (f : String) :
    (decode model (updated model c data)).get f =
      if model.has f then (data.get f).getD ((decode model c).get f) else .null := by
  rw [updated, get_decode_encode, field_merge]
  rfl

omit [LinearOrder I] in
theorem liveRow_eq_some {model : Model} {v : Option (Capsule I)} {row : Row I}
    (h : liveRow model v = some row) :
    ∃ c, v = some c ∧ c.tombstone = false ∧ row = decode model c := by
  obtain ⟨c, rfl, hc⟩ := Option.bind_eq_some_iff.mp h
  split at hc
  · cases hc
  · next hlive => exact ⟨c, rfl, by simpa using hlive, (Option.some.inj hc).symm⟩

omit [LinearOrder I] in
theorem liveRow_of_absent {model : Model} {v : Option (Capsule I)}
    (h : v.any (fun c => !c.tombstone) = false) : liveRow model v = none := by
  cases v with
  | none => rfl
  | some c => simpa [liveRow] using h

/-! ## What a transaction knows of its record -/

/-- The transaction has read the record, seen `v`, and written nothing. -/
structure At (T : Terms I) (k : Key I) (v : Option (Capsule I)) (s : Shared I) (trx : Trx I) :
    Prop where
  isOpen : trx.Open T
  writes : trx.writes = []
  read : k ∈ trx.reads
  value : s.committed.get k = v

/-- The transaction has seen `v` and buffered `c` in its place. -/
structure Pending (T : Terms I) (k : Key I) (v : Option (Capsule I)) (c : Capsule I) (s : Shared I)
    (trx : Trx I) : Prop where
  isOpen : trx.Open T
  writes : ∃ named, trx.writes = [⟨k.1, c, v.map (·.revision), named⟩]
  id : c.id = k.2
  rises : rank v < c.revision + 1
  value : s.committed.get k = v ∨ rank v < rank (s.committed.get k)

/-- Whenever the buffer is committed from now on, it does `E`. -/
structure Ready (env : Env I) (T : Terms I) (E : Capsules I → Capsules I → Prop) (s : Shared I)
    (trx : Trx I) : Prop where
  isOpen : trx.Open T
  commit : ∀ m, Rising s.committed m → checkRevisions env m trx.writes = .ok () →
    Rising m (applyWrites m trx.writes) ∧ E m (applyWrites m trx.writes)

theorem At.rely {k v s t trx} (h : At T k v s trx) (hrely : Rely trx s t) {reads}
    (hreads : trx.reads ⊆ reads) : At T k v t { trx with reads := reads } where
  isOpen := h.isOpen
  writes := h.writes
  read := hreads h.read
  value := (hrely.1 k ⟨h.read, by simp [h.writes]⟩).trans h.value

theorem Ready.of_nil {E s trx} (hopen : trx.Open T) (hwrites : trx.writes = []) (hE : ∀ m, E m m) :
    Ready env T E s trx where
  isOpen := hopen
  commit m _ _ := by
    rw [hwrites]
    exact ⟨Rising.refl m, hE m⟩

theorem At.ready {E k v s trx} (h : At T k v s trx) (hE : ∀ m, E m m) : Ready env T E s trx :=
  Ready.of_nil h.isOpen h.writes hE

/-- A commit of any number of writes replaces what the transaction has seen. -/
theorem Ready.of_sound {E R s trx} (hopen : trx.Open T)
    (hsound : SoundWrites R s.committed trx.writes)
    (hE : ∀ m ws, Replaces R m ws → E m (applyWrites m ws)) : Ready env T E s trx where
  isOpen := hopen
  commit m hrise hcheck := by
    obtain ⟨hrising, hreplaces⟩ := (hsound.rising hrise).commit hcheck
    exact ⟨hrising, hE m _ hreplaces⟩

/-- **A commit of one write** replaces what the transaction has seen. -/
theorem Pending.ready {E k v c s trx} (h : Pending T k v c s trx)
    (hE : ∀ m, m.get k = v → E m (m.put k c)) : Ready env T E s trx where
  isOpen := h.isOpen
  commit m hrise hcheck := by
    obtain ⟨named, hwrites⟩ := h.writes
    have hkey : Write.key ⟨k.1, c, v.map (·.revision), named⟩ = k := Prod.ext rfl h.id
    have hsound : SoundWrites (fun v' _ => v' = v) m trx.writes := by
      rw [hwrites]
      refine SoundWrites.push (SoundWrites.nil m) ⟨?_, v, ?_, rfl, rfl⟩
      · have hrises := h.rises
        cases v with
        | none => simp [Write.Rises]
        | some previous => simpa [Write.Rises, rank] using hrises
      · rw [hkey]
        have hseen : Seen s.committed [] k v := h.value
        exact hseen.rising hrise
    obtain ⟨hrising, hreplaces⟩ := hsound.commit hcheck
    refine ⟨hrising, ?_⟩
    rw [hwrites] at hreplaces ⊢
    have hget := hreplaces.1
    rw [hkey] at hget
    have happly : applyWrites m [⟨k.1, c, v.map (·.revision), named⟩] = m.put k c := by
      rw [applyWrites, List.foldl_cons, List.foldl_nil, hkey]
    rw [happly]
    exact hE m hget

/-! ## Calls -/

variable {model : Model} {b s : Shared I} {trx : Trx I}

omit [LinearOrder I] in
theorem findUnique_key {name family} (hmodel : env.model name = some model)
    (hfamily : model.keyFamily = some family) (key : String) :
    findUnique env name (.key key) = live model (env.forKey family key) := by
  rw [findUnique, modelOf_bind hmodel, directId]
  simp only [hfamily]
  rfl

theorem safe_get_fresh {id} (hopen : trx.Open T) (hwrites : trx.writes = []) :
    Safe (calm env T prog) (fun r _ s trx => ∃ v, r = .ok v ∧ Placed s.committed ∧
      At T (model.name, id) v s trx) (get model id) b s trx :=
  safe_get hopen fun t ht _ => ⟨_, by rw [Trx.view, hwrites]; rfl, ht, hopen, hwrites,
    List.mem_cons_self, rfl⟩

theorem safe_get_at {id v} (h : At T (model.name, id) v s trx) :
    Safe (calm env T prog) (fun r _ s trx => r = .ok v ∧ Placed s.committed ∧
      At T (model.name, id) v s trx) (get model id) b s trx :=
  safe_get h.isOpen fun t ht hrely => by
    have hat := h.rely hrely (List.subset_cons_self (model.name, id) trx.reads)
    refine ⟨?_, ht, hat⟩
    rw [Trx.view, h.writes, ← hat.value]
    rfl

theorem safe_live_fresh {id} (hopen : trx.Open T) (hwrites : trx.writes = []) :
    Safe (calm env T prog) (fun r _ s trx => ∃ v, r = .ok (liveRow model v) ∧ Placed s.committed ∧
      At T (model.name, id) v s trx) (live model id) b s trx := by
  refine (safe_get_fresh hopen hwrites).bind ?_ ?_
  · rintro v b s trx ⟨_, ⟨⟩, hplaced, hat⟩
    cases v <;> exact ⟨_, rfl, hplaced, hat⟩
  · rintro e b s trx ⟨v, h, -⟩
    cases h

theorem safe_live_at {id v} (h : At T (model.name, id) v s trx) :
    Safe (calm env T prog) (fun r _ s trx => r = .ok (liveRow model v) ∧ Placed s.committed ∧
      At T (model.name, id) v s trx) (live model id) b s trx := by
  refine (safe_get_at h).bind ?_ ?_
  · rintro _ b s trx ⟨⟨⟩, hplaced, hat⟩
    cases v <;> exact ⟨rfl, hplaced, hat⟩
  · rintro e b s trx ⟨h, -⟩
    cases h

theorem safe_put_at {id v c named} (h : At T (model.name, id) v s trx) (hid : c.id = id)
    (hrises : rank v < c.revision + 1) :
    Safe (calm env T prog) (fun r _ s trx => trx.Open T ∧ ((∃ e, r = .error e) ∨
      r = .ok () ∧ Pending T (model.name, id) v c s trx))
      (put model ⟨model.name, c, v.map (·.revision), named⟩) b s trx :=
  safe_put rfl h.isOpen
    (fun t _ hrely _ _ => ⟨h.isOpen, .inr ⟨rfl, h.isOpen, ⟨named, by rw [h.writes]; rfl⟩, hid, hrises,
      .inl (h.rely hrely (List.Subset.refl _)).value⟩⟩)
    fun t e hrely => ⟨h.isOpen, .inl ⟨e, rfl⟩⟩

/-- What an update of a record that is `v` leaves. -/
def Updates (T : Terms I) (model : Model) (id : I) (v : Option (Capsule I)) (data : Data I)
    (r : Except StorageError (Option (Row I))) (s : Shared I) (trx : Trx I) : Prop :=
  trx.Open T ∧ match r with
    | .error _ => True
    | .ok none => liveRow model v = none ∧ At T (model.name, id) v s trx
    | .ok (some row) => ∃ c, v = some c ∧ c.tombstone = false ∧
        row = decode model (updated model c data) ∧
          Pending T (model.name, id) v (updated model c data) s trx

theorem safe_rewrite_at {mode name} (hmodel : env.model name = some model) {id c data}
    (hid : c.id = id) (hlive : c.tombstone = false) (h : At T (model.name, id) (some c) s trx) :
    Safe (calm env T prog)
      (fun r _ s trx => Updates T model id (some c) data (r.map some) s trx)
      (rewrite env mode name (decode model c) data) b s trx := by
  subst hid
  rw [rewrite, modelOf_bind hmodel]
  have hfail : ∀ e : StorageError,
      Updates T model c.id (some c) data (Except.map some (.error e)) s trx :=
    fun e => ⟨h.isOpen, trivial⟩
  refine Safe.test (writable_eq ..) hfail fun _ _ => Safe.test (notAppendOnly_eq ..) hfail fun _ _ =>
    Safe.check (fun e _ => hfail e) fun _ _ => ?_
  split
  · exact hfail (model.invalid "a record's key never changes")
  · refine Safe.check (fun e _ => hfail e) fun _ _ => (safe_get_at h).bind ?_ ?_
    · rintro _ b s trx ⟨⟨⟩, -, hat⟩
      refine (safe_put_at (c := updated model c data) hat rfl
        (by simp [rank, updated, encode])).bind ?_ ?_
      · rintro _ b s trx ⟨hopen, ⟨e, h⟩ | ⟨-, hpending⟩⟩
        · cases h
        · exact ⟨hopen, c, rfl, hlive, rfl, hpending⟩
      · exact fun e b s trx h => ⟨h.1, trivial⟩
    · rintro e b s trx ⟨h, -⟩
      cases h

/-- What the creation of a record that is `v` leaves. -/
def Creates (T : Terms I) (model : Model) (id : I) (v : Option (Capsule I)) (data : Data I)
    (r : Except StorageError (Row I)) (s : Shared I) (trx : Trx I) : Prop :=
  trx.Open T ∧ ∀ row, r = .ok row → liveRow model v = none ∧
    row = decode model (encode model id v data) ∧
      Pending T (model.name, id) v (encode model id v data) s trx

variable {mode : Mode} {name family key : String} {v : Option (Capsule I)}
  {P : Option (Capsule I) → Prop}

omit [LinearOrder I] in
theorem newId_key {data} (hfamily : model.keyFamily = some family)
    (hkey : data.get "key" = some (.text key)) (generated : I) :
    newId env model data generated = .done (.ok (env.forKey family key)) := by
  rw [newId, hfamily, hkey]
  rfl

theorem safe_commit_ready {E} (hT : ∀ m ws, T.Effect m ws) (h : Ready env T E s trx) :
    Safe (calm env T prog) (fun r b s trx =>
        (r = .ok () ∧ E b.committed s.committed) ∨
          (∃ e, r = .error e) ∧ trx.Open T ∧ s.committed = b.committed)
      commit b s trx :=
  safe_commit h.isOpen (fun t _ hrely hcheck =>
      have hcommit := h.commit t.committed hrely.2 hcheck
      ⟨hcommit.1, hT _ _, .inl ⟨rfl, hcommit.2⟩⟩)
    fun _ e _ => ⟨.inr ⟨⟨e, rfl⟩, h.isOpen, rfl⟩, .inr ⟨⟨e, rfl⟩, fun _ => rfl, rfl⟩⟩

variable (hmodel : env.model name = some model) (hfamily : model.keyFamily = some family)

include hmodel hfamily

theorem safe_update {data : Data I}
    (hlive : Safe (calm env T prog) (fun r _ s trx => ∃ v, r = .ok (liveRow model v) ∧ P v ∧
      Placed s.committed ∧ At T (model.name, env.forKey family key) v s trx)
      (live model (env.forKey family key)) b s trx) :
    Safe (calm env T prog)
      (fun r _ s trx => ∃ v, P v ∧ Updates T model (env.forKey family key) v data r s trx)
      (update env mode name (.key key) data) b s trx := by
  rw [update, findUnique_key hmodel hfamily]
  refine hlive.bind ?_ ?_
  · rintro _ b s trx ⟨v, ⟨⟩, hv, hplaced, hat⟩
    split
    · next hnone => exact ⟨v, hv, hat.isOpen, hnone, hat⟩
    · next row hrow =>
      obtain ⟨c, rfl, hlive, rfl⟩ := liveRow_eq_some hrow
      exact (safe_rewrite_at hmodel (hplaced _ _ hat.value) hlive hat).bind
        (fun _ _ _ _ h => ⟨some c, hv, h⟩) fun _ _ _ _ h => ⟨some c, hv, h⟩
  · rintro e b s trx ⟨v, h, -⟩
    cases h

theorem safe_update_at {data : Data I} (h : At T (model.name, env.forKey family key) v s trx) :
    Safe (calm env T prog)
      (fun r _ s trx => Updates T model (env.forKey family key) v data r s trx)
      (update env mode name (.key key) data) b s trx := by
  refine (safe_update hmodel hfamily
    ((safe_live_at h).mono fun r _ _ _ h => ⟨v, h.1, rfl, h.2⟩)).mono ?_
  rintro r b s trx ⟨_, rfl, hupdates⟩
  exact hupdates

theorem safe_create {data : Data I} {generated : I}
    (hkey : data.get "key" = some (.text key)) (hopen : trx.Open T)
    (hget : Safe (calm env T prog) (fun r _ s trx => ∃ v, r = .ok v ∧ P v ∧
      At T (model.name, env.forKey family key) v s trx) (get model (env.forKey family key)) b s trx) :
    Safe (calm env T prog) (fun r _ s trx => trx.Open T ∧ ∀ row, r = .ok row →
        ∃ v, P v ∧ Creates T model (env.forKey family key) v data r s trx)
      (create env mode name data generated) b s trx := by
  rw [create, modelOf_bind hmodel]
  refine Safe.test (writable_eq ..) (fun _ => ⟨hopen, nofun⟩) fun _ _ =>
    Safe.check (fun _ _ => ⟨hopen, nofun⟩) fun _ _ => ?_
  rw [newId_key hfamily hkey]
  refine hget.bind ?_ ?_
  · rintro v b s trx ⟨_, ⟨⟩, hv, hat⟩
    split
    · exact ⟨hat.isOpen, nofun⟩
    · next habsent =>
      refine (safe_put_at hat rfl (by cases v <;> simp [rank, encode])).bind ?_ ?_
      · rintro _ b s trx ⟨hopen, ⟨e, h⟩ | ⟨-, hpending⟩⟩
        · cases h
        · refine ⟨hopen, fun row h => ⟨v, hv, hopen, fun _ h' => ?_⟩⟩
          cases h'
          exact ⟨liveRow_of_absent (by simpa using habsent), rfl, hpending⟩
      · exact fun e b s trx h => ⟨h.1, nofun⟩
  · rintro e b s trx ⟨v, h, -⟩
    cases h

/-- A record that the transaction has seen to be absent is created. -/
theorem safe_create_at {data : Data I} {generated : I} (hkey : data.get "key" = some (.text key))
    (h : At T (model.name, env.forKey family key) v s trx) :
    Safe (calm env T prog)
      (fun r _ s trx => Creates T model (env.forKey family key) v data r s trx)
      (create env mode name data generated) b s trx := by
  refine (safe_create hmodel hfamily hkey h.isOpen
    ((safe_get_at h).mono fun r _ _ _ h => ⟨v, h.1, rfl, h.2.2⟩)).mono ?_
  rintro r b s trx ⟨hopen, hr⟩
  refine ⟨hopen, fun row hrow => ?_⟩
  obtain ⟨_, rfl, -, hcreates⟩ := hr row hrow
  exact hcreates row hrow

theorem safe_delete_at (h : At T (model.name, env.forKey family key) v s trx) :
    Safe (calm env T prog) (fun r _ s trx => trx.Open T ∧ ∀ found, r = .ok found →
        (found = none ∧ liveRow model v = none ∧ At T (model.name, env.forKey family key) v s trx) ∨
        ∃ c, v = some c ∧ c.tombstone = false ∧ found = some (decode model c) ∧
          Pending T (model.name, env.forKey family key) v (tombstone model c) s trx)
      (delete env mode name (.key key)) b s trx := by
  rw [delete, findUnique_key hmodel hfamily]
  refine (safe_live_at h).bind ?_ ?_
  · rintro _ b s trx ⟨⟨⟩, hplaced, hat⟩
    split
    · next hnone =>
      refine ⟨hat.isOpen, fun found hfound => ?_⟩
      cases hfound
      exact .inl ⟨rfl, hnone, hat⟩
    · next row hrow =>
      obtain ⟨c, rfl, hlive, rfl⟩ := liveRow_eq_some hrow
      have hid : c.id = env.forKey family key := hplaced _ _ hat.value
      rw [modelOf_bind hmodel]
      refine Safe.test (writable_eq ..) (fun _ => ⟨hat.isOpen, nofun⟩) fun _ _ =>
        Safe.test (notAppendOnly_eq ..) (fun _ => ⟨hat.isOpen, nofun⟩) fun _ _ => ?_
      rw [← hid] at hat
      refine (safe_get_at hat).bind ?_ ?_
      · rintro _ b s trx ⟨⟨⟩, -, hat⟩
        refine (safe_put_at (c := tombstone model c) hat rfl (by simp [rank, tombstone])).bind ?_ ?_
        · rintro _ b s trx ⟨hopen, ⟨e, h⟩ | ⟨-, hpending⟩⟩
          · cases h
          · refine ⟨hopen, fun _ h => ?_⟩
            cases h
            exact .inr ⟨c, rfl, hlive, rfl, hid ▸ hpending⟩
        · exact fun e b s trx h => ⟨h.1, nofun⟩
      · rintro e b s trx ⟨h, -⟩
        cases h
  · rintro e b s trx ⟨h, -⟩
    cases h

theorem safe_upsert_at {createData updateData generated}
    (hkey : createData.get "key" = some (.text key))
    (h : At T (model.name, env.forKey family key) v s trx) :
    Safe (calm env T prog) (fun r _ s trx => trx.Open T ∧ ∀ row, r = .ok row →
        (∃ c, v = some c ∧ c.tombstone = false ∧ row = decode model (updated model c updateData) ∧
          Pending T (model.name, env.forKey family key) v (updated model c updateData) s trx) ∨
        liveRow model v = none ∧
          row = decode model (encode model (env.forKey family key) v createData) ∧
          Pending T (model.name, env.forKey family key) v
            (encode model (env.forKey family key) v createData) s trx)
      (upsert env mode name (.key key) createData updateData generated) b s trx := by
  rw [upsert, findUnique_key hmodel hfamily]
  refine (safe_live_at h).bind ?_ ?_
  · rintro _ b s trx ⟨⟨⟩, hplaced, hat⟩
    split
    · next row hrow =>
      obtain ⟨c, rfl, hlive, rfl⟩ := liveRow_eq_some hrow
      refine (safe_rewrite_at hmodel (hplaced _ _ hat.value) hlive hat).mono ?_
      rintro r b s trx ⟨hopen, hr⟩
      refine ⟨hopen, fun row h => .inl ?_⟩
      subst h
      exact hr
    · rw [withSelector, OrderedMap.contains, hkey]
      refine (safe_create_at hmodel hfamily hkey hat).mono ?_
      rintro r b s trx ⟨hopen, hr⟩
      exact ⟨hopen, fun row h => .inr (hr row h)⟩
  · rintro e b s trx ⟨h, -⟩
    cases h

end Aseman.Storage
