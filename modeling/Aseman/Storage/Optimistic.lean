import Aseman.Storage.Engine

/-!
# What a commit replaces

Programs over a memory provider, in any number, whose operations interleave in any way. A commit checks
revisions only, and reads of one transaction see what others have committed in between. What can be
relied on is this: if no record ever gets an older revision, a commit that succeeds replaces exactly
what was there when the write was buffered (`SoundWrites.commit`); and if no record changes between the
time a transaction has read it and the time it buffers its write, that is what the transaction has read.
-/

namespace Aseman.Storage

variable {I : Type} [LinearOrder I]

/-! ## What transactions promise each other -/

/-- How new a stored capsule is; where there is none, it is older than any. -/
def rank (c : Option (Capsule I)) : Nat := c.elim 0 (·.revision + 1)

/-- Every record is as it was, or newer. -/
def Rising (m m' : Capsules I) : Prop := ∀ k, m'.get k = m.get k ∨ rank (m.get k) < rank (m'.get k)

/-- The transaction has read the record and has not written it. -/
def Trx.Awaits (trx : Trx I) (k : Key I) : Prop := k ∈ trx.reads ∧ k ∉ trx.writes.map Write.key

def Write.Rises (w : Write I) : Prop := w.expected.elim 0 (· + 1) < w.capsule.revision + 1

def Placed (m : Capsules I) : Prop := ∀ k c, m.get k = some c → c.id = k.2

/-- What a transaction relies on: no record that it has read changes before it writes it, and no record
ever gets an older revision. -/
def Rely (trx : Trx I) (s t : Shared I) : Prop :=
  (∀ k, trx.Awaits k → t.committed.get k = s.committed.get k) ∧ Rising s.committed t.committed

/-- What is asked of the programs. -/
structure Terms (I : Type) where
  /-- The operations of the runs that are spoken about. -/
  May : Op I → Prop := fun _ => True
  /-- What every commit does that succeeds. -/
  Effect : Capsules I → List (Write I) → Prop := fun _ _ => True
  /-- Whether a program ends with the first commit that succeeds. -/
  once : Prop := False

/-- The transaction may still make operations. -/
def Trx.Open (T : Terms I) (trx : Trx I) : Prop := T.once → trx.succeeded = false

/-- What an operation does to the committed capsules: nothing, unless it is a commit that succeeds. -/
def Guar (T : Terms I) (trx : Trx I) (o : Op I) (a : o.Ans) (s t : Shared I) : Prop :=
  trx.Open T ∧
    match o, a with
    | .commit, .ok () => Rising s.committed t.committed ∧ T.Effect s.committed trx.writes
    | _, _ => t.committed = s.committed

theorem Rising.refl (m : Capsules I) : Rising m m := fun _ => .inl rfl

variable {m : Capsules I}

variable {m' : Capsules I}

theorem Rising.trans {m''} (h : Rising m m') (h' : Rising m' m'') : Rising m m'' := by
  intro k
  rcases h k with heq | hlt
  · rw [← heq]
    exact h' k
  · rcases h' k with heq' | hlt'
    · rw [heq']
      exact .inr hlt
    · exact .inr (hlt.trans hlt')

theorem Rely.refl (trx : Trx I) (s : Shared I) : Rely trx s s := ⟨fun _ _ => rfl, Rising.refl _⟩

variable {trx : Trx I} {s t : Shared I}

theorem Rely.trans {u} (h : Rely trx s t) (h' : Rely trx t u) : Rely trx s u :=
  ⟨fun k hk => (h'.1 k hk).trans (h.1 k hk), h.2.trans h'.2⟩

/-- What one transaction does is what the others rely on, if they have not read it. -/
theorem Guar.rising {T o a} (h : Guar T trx o a s t) : Rising s.committed t.committed := by
  obtain ⟨-, h⟩ := h
  split at h
  · exact h.1
  · rw [h]
    exact Rising.refl _

theorem Guar.commit {T a} (h : Guar T trx .commit a s t) :
    a = .ok () ∨ t.committed = s.committed := by
  cases a with
  | ok u => exact .inl rfl
  | error e => exact .inr h.2

section

variable {Call ε ρ : Type}

/-- The provider and the programs over it; the clock goes on by itself. -/
def provider (env : Env I) (prog : Call → Prog (Op I) Op.Ans ε ρ) :
    Machine (Shared I) (Trx I) Call (Op I) Op.Ans ε ρ ℕ where
  exec := exec env
  environment elapsed s := { s with clock := s.clock + elapsed }
  prog := prog
  own _ := {}

/-- Transactions among others that leave alone what they have read. -/
def calm (env : Env I) (T : Terms I) (prog : Call → Prog (Op I) Op.Ans ε ρ) :
    Protocol (provider env prog) where
  Inv s := Placed s.committed
  Rely := Rely
  May _ o _ := T.May o
  Guar := Guar T
  refl := Rely.refl
  trans _ _ _ _ := Rely.trans

end

/-! ## Buffers -/

def written : List (Write I) → Key I → Option (Capsule I)
  | [], _ => none
  | w :: writes, k => (written writes k).or (if w.key = k then some w.capsule else none)

theorem get_applyWrites (m : Capsules I) (writes : List (Write I)) (k : Key I) :
    (applyWrites m writes).get k = (written writes k).or (m.get k) := by
  induction writes generalizing m with
  | nil => rfl
  | cons w writes ih =>
    rw [applyWrites, List.foldl_cons, ← applyWrites, ih, Store.get_put, written]
    cases written writes k with
    | some c => rfl
    | none =>
      by_cases h : w.key = k
      · simp [h]
      · simp [h, Ne.symm h]

theorem written_append (writes : List (Write I)) (w : Write I) (k : Key I) :
    written (writes ++ [w]) k = if w.key = k then some w.capsule else written writes k := by
  induction writes with
  | nil => simp [written]
  | cons a writes ih =>
    rw [List.cons_append, written, ih, written]
    split <;> simp

variable {k : Key I}

variable {writes : List (Write I)}

theorem written_eq_none_iff : written writes k = none ↔ k ∉ writes.map Write.key := by
  induction writes with
  | nil => simp [written]
  | cons w writes ih =>
    rw [written, Option.or_eq_none_iff, ih]
    by_cases h : w.key = k
    · simp [h]
    · simp [h, Ne.symm h]

theorem applyWrites_append (m : Capsules I) (writes writes' : List (Write I)) :
    applyWrites m (writes ++ writes') = applyWrites (applyWrites m writes) writes' := by
  simp [applyWrites]

/-- The view of a record is the transaction's own write, or what is committed. -/
theorem Trx.get_view (trx : Trx I) (m : Capsules I) (k : Key I) :
    (trx.view m).get k = (written trx.writes k).or (m.get k) :=
  get_applyWrites m trx.writes k

variable {w : Write I}

theorem Trx.get_view_push : (Trx.view { trx with writes := trx.writes ++ [w] } m).get k =
      if w.key = k then some w.capsule else (trx.view m).get k := by
  rw [Trx.get_view, Trx.get_view, written_append]
  split <;> rfl

theorem Rely.get_view (h : Rely trx s t) (hread : k ∈ trx.reads) :
    (trx.view t.committed).get k = (trx.view s.committed).get k := by
  rw [Trx.get_view, Trx.get_view]
  cases hw : written trx.writes k with
  | some c => rfl
  | none => rw [h.1 k ⟨hread, written_eq_none_iff.mp hw⟩]

variable {c : Capsule I}

theorem exists_of_written (h : written writes k = some c) :
    ∃ w ∈ writes, w.key = k ∧ w.capsule = c := by
  induction writes with
  | nil => cases h
  | cons w writes ih =>
    rw [written, Option.or_eq_some_iff] at h
    rcases h with h | ⟨-, h⟩
    · obtain ⟨w', hmem, hw'⟩ := ih h
      exact ⟨w', List.mem_cons_of_mem _ hmem, hw'⟩
    · split at h
      · next heq => exact ⟨w, List.mem_cons_self, heq, Option.some.inj h⟩
      · cases h

theorem Placed.applyWrites (h : Placed m) (writes : List (Write I)) :
    Placed (applyWrites m writes) := by
  intro k c hget
  rw [get_applyWrites, Option.or_eq_some_iff] at hget
  rcases hget with hw | ⟨-, hm⟩
  · obtain ⟨w, -, rfl, rfl⟩ := exists_of_written hw
    rfl
  · exact h k c hm

theorem Placed.empty : Placed (∅ : Capsules I) := nofun

theorem Placed.put (h : Placed m) (hid : c.id = k.2) : Placed (m.put k c) := by
  intro k' c' hget
  obtain ⟨hk, rfl⟩ | ⟨-, hget⟩ := Store.get_put_eq_some hget
  · exact hk ▸ hid
  · exact h k' c' hget

theorem Placed.single {kind id} (h : c.id = id) : Placed (Store.put ∅ (kind, id) c) :=
  Placed.empty.put h

/-- What the transaction sees under the key after the writes `before` is `v`: what they wrote, or what
was committed and may have been replaced since. -/
def Seen (m : Capsules I) (before : List (Write I)) (k : Key I) (v : Option (Capsule I)) : Prop :=
  match written before k with
  | some c => v = some c
  | none => m.get k = v ∨ rank v < rank (m.get k)

theorem Seen.of_view (trx : Trx I) (m : Capsules I) (k : Key I) :
    Seen m trx.writes k ((trx.view m).get k) := by
  rw [Trx.get_view]
  unfold Seen
  split
  · next hw => rw [hw, Option.some_or]
  · next hw => exact .inl (by rw [hw, Option.none_or])

theorem Seen.rising {before v} (h : Seen m before k v) (hrise : Rising m m') :
    Seen m' before k v := by
  unfold Seen at h ⊢
  split
  · next hw => simpa [hw] using h
  · next hw =>
    rw [hw] at h
    rcases h with heq | hlt
    · rcases hrise k with hsame | hnew
      · exact .inl (hsame.trans heq)
      · exact .inr (heq ▸ hnew)
    · rcases hrise k with hsame | hnew
      · exact .inr (hsame ▸ hlt)
      · exact .inr (hlt.trans hnew)

/-- What a transaction saw is what is committed, if that has the revision it saw. -/
theorem Seen.get_eq {before v} (h : Seen m before k v)
    (hrevision : ((applyWrites m before).get k).map (·.revision) = v.map (·.revision)) :
    (applyWrites m before).get k = v := by
  unfold Seen at h
  rw [get_applyWrites] at hrevision ⊢
  split at h
  · next hw => rw [hw, h, Option.some_or]
  · next hw =>
    rw [hw] at hrevision ⊢
    rcases h with heq | hlt
    · exact heq
    · cases hget : m.get k <;> cases v <;> simp_all [rank]

section

variable (R : Option (Capsule I) → Write I → Prop)

/-- One write of a buffer, after the writes `before`: it expects the revision of what the transaction
saw, and relates to that as `R` says. -/
structure Sound (m : Capsules I) (before : List (Write I)) (w : Write I) : Prop where
  rises : w.Rises
  replaces : ∃ v, Seen m before w.key v ∧ w.expected = v.map (·.revision) ∧ R v w

def SoundWrites (m : Capsules I) (writes : List (Write I)) : Prop :=
  ∀ before w after, writes = before ++ w :: after → Sound R m before w

/-- Each write relates as `R` says to what it replaces. -/
def Replaces : Capsules I → List (Write I) → Prop
  | _, [] => True
  | m, w :: writes => R (m.get w.key) w ∧ Replaces (m.put w.key w.capsule) writes

variable {R}

theorem SoundWrites.nil (m : Capsules I) : SoundWrites R m [] := by
  intro before w after heq
  simp at heq

variable {m : Capsules I}

variable (h : SoundWrites R m writes)

include h

theorem SoundWrites.rising (hrise : Rising m m') : SoundWrites R m' writes := by
  intro before w after heq
  obtain ⟨hrises, v, hseen, hrest⟩ := h before w after heq
  exact ⟨hrises, v, hseen.rising hrise, hrest⟩

theorem SoundWrites.push (hw : Sound R m writes w) : SoundWrites R m (writes ++ [w]) := by
  intro before w' after heq
  rcases List.eq_nil_or_concat after with rfl | ⟨after, w'', rfl⟩
  · obtain ⟨rfl, hlast⟩ := List.append_inj' heq rfl
    cases hlast
    exact hw
  · have heq' : writes ++ [w] = (before ++ w' :: after) ++ [w''] := by
      simpa [List.concat_eq_append] using heq
    obtain ⟨rfl, -⟩ := List.append_inj' heq' rfl
    exact h before w' after rfl

/-- **A commit** of a sound buffer replaces every record by a newer revision, and each write relates to
what it replaces as it did to what the transaction saw. -/
theorem SoundWrites.commit {env} (hcheck : checkRevisions env m writes = .ok ()) :
    Rising m (applyWrites m writes) ∧ Replaces R m writes := by
  suffices ∀ before after, writes = before ++ after →
      checkRevisions env (applyWrites m before) after = .ok () →
      Rising (applyWrites m before) (applyWrites m writes) ∧
        Replaces R (applyWrites m before) after from this [] writes rfl hcheck
  intro before after
  induction after generalizing before with
  | nil =>
    rintro rfl -
    rw [List.append_nil]
    exact ⟨Rising.refl _, trivial⟩
  | cons w after ih =>
    intro heq hcheck
    obtain ⟨hrises, v, hseen, hv, hR⟩ := h before w after heq
    rw [checkRevisions] at hcheck
    split at hcheck
    · cases hcheck
    · next hexpected =>
      have hput : (applyWrites m before).put w.key w.capsule = applyWrites m (before ++ [w]) := by
        rw [applyWrites_append]
        rfl
      rw [not_ne_iff] at hexpected
      rw [hput] at hcheck
      obtain ⟨hrising, hrest⟩ := ih (before ++ [w]) (by simp [heq]) hcheck
      refine ⟨Rising.trans ?_ hrising, ?_, ?_⟩
      · intro k
        rw [← hput, Store.get_put]
        split
        · next hk =>
          refine .inr ?_
          subst hk
          rw [Write.Rises, ← hexpected] at hrises
          revert hrises
          cases (applyWrites m before).get w.key <;> simp [rank]
        · exact .inl rfl
      · rwa [hseen.get_eq (hexpected.trans hv)]
      · rw [hput]
        exact hrest

end

/-! ## Operations -/

section

variable {env : Env I} {T : Terms I} {Call ε ε' ρ : Type} {prog : Call → Prog (Op I) Op.Ans ε ρ}
  {b s : Shared I} {trx : Trx I}

variable {Q : Except ε' Unit → Shared I → Shared I → Trx I → Prop}

theorem safe_begin {mode : Mode} (hopen : trx.Open T) (h : ∀ t, Q (.ok ()) t t { mode := mode }) :
    Safe (calm env T prog) Q (begin mode) b s trx :=
  Safe.perform fun t ht _ _ => ⟨⟨ht, hopen, rfl⟩, h t⟩

theorem safe_rollback
    (hopen : trx.Open T) (h : ∀ t, Q (.ok ()) t t { mode := trx.mode, finished := true }) :
    Safe (calm env T prog) Q rollback b s trx :=
  Safe.perform fun t ht _ _ => ⟨⟨ht, hopen, rfl⟩, h t⟩

theorem safe_get {Q model id} (hopen : trx.Open T) (h : ∀ t, Placed t.committed → Rely trx s t →
      Q (.ok ((trx.view t.committed).get (model.name, id))) t t
        { trx with reads := (model.name, id) :: trx.reads }) :
    Safe (calm env T prog) Q (get model id) b s trx :=
  Safe.perform fun t ht hrely _ => ⟨⟨ht, hopen, rfl⟩, h t ht hrely⟩

/-- A write: it is buffered if it expects the revision that the transaction sees. -/
theorem safe_put {Q model} (hkind : w.kind = model.name) (hopen : trx.Open T)
    (hok : ∀ t, Placed t.committed → Rely trx s t → T.May (.put model w) →
      ((trx.view t.committed).get w.key).map (·.revision) = w.expected →
      Q (.ok ()) t t { trx with writes := trx.writes ++ [w] })
    (herror : ∀ t e, Rely trx s t → Q (.error e) t t trx) :
    Safe (calm env T prog) Q (put model w) b s trx := by
  refine Safe.bind (Q := fun r b s trx => ∃ a, r = .ok a ∧ Q a b s trx) ?_ ?_ ?_
  · refine Safe.perform fun t ht hrely hmay => ?_
    simp only [provider, exec]
    split
    · next hcheck =>
      refine ⟨⟨ht, hopen, rfl⟩, .ok (), rfl, hok t ht hrely hmay ?_⟩
      rw [Write.key, hkind]
      exact checkPut_eq_ok env hcheck
    · exact ⟨⟨ht, hopen, rfl⟩, _, rfl, herror t _ hrely⟩
  · rintro a b s trx ⟨r, ⟨⟩, h⟩
    exact h
  · rintro e b s trx ⟨r, h, -⟩
    cases h

/-- A commit: it changes the committed capsules only if every write of it replaces what it expects. -/
theorem safe_commit {Q} (hopen : trx.Open T) (hok : ∀ t, Placed t.committed → Rely trx s t →
      checkRevisions env t.committed trx.writes = .ok () →
      Rising t.committed (applyWrites t.committed trx.writes) ∧ T.Effect t.committed trx.writes ∧
        Q (.ok ()) t { t with committed := applyWrites t.committed trx.writes }
          { mode := trx.mode, finished := true, succeeded := true })
    (herror : ∀ t e, Rely trx s t → Q (.error e) t t trx ∧
      Q (.error e) t t { mode := trx.mode, finished := true }) :
    Safe (calm env T prog) Q commit b s trx := by
  refine Safe.bind (Q := fun r b s trx => ∃ a, r = .ok a ∧ Q a b s trx) ?_ ?_ ?_
  · refine Safe.perform fun t ht hrely hmay => ?_
    simp only [provider, exec]
    split
    · exact ⟨⟨ht, hopen, rfl⟩, _, rfl, (herror t _ hrely).1⟩
    · split
      · next committed hcommit =>
        obtain ⟨hcheck, rfl⟩ := commitWrites_eq_ok env hcommit
        obtain ⟨hrising, heffect, hQ⟩ := hok t ht hrely hcheck
        exact ⟨⟨Placed.applyWrites ht _, hopen, hrising, heffect⟩, _, rfl, hQ⟩
      · exact ⟨⟨ht, hopen, rfl⟩, _, rfl, (herror t _ hrely).2⟩
  · rintro a b s trx ⟨r, ⟨⟩, h⟩
    exact h
  · rintro e b s trx ⟨r, h, -⟩
    cases h

end

end Aseman.Storage
