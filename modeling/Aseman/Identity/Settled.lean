import Aseman.Identity.Directory

/-!
# Settled rotations

A rotation is settled while some key of its epoch or a later one is in force and the epoch right before it
is retired since then. Registering, retiring and revoking keys are taken one by one: what each of them
needs so that the rotations of the past stay settled.
-/

namespace Aseman.Identity

open KeyDirectory KeyEpoch

/-- A key registered by `RotateKey`. -/
structure Rotation where
  subject : Subject
  purpose : KeyPurpose
  epoch : Nat
  since : Int

/-- A later epoch of the same subject and purpose is in force and not revoked. -/
def Superseded (keys : KeyDirectory) (now : Int) (key : IdentityKey) : Prop :=
  ∃ other ∈ keys, other.epoch.of key.epoch.subject key.epoch.purpose ∧
    key.epoch.epoch < other.epoch.epoch ∧ other.epoch.notBeforeMillis ≤ now ∧
    other.epoch.revokedAtMillis = none

instance (keys : KeyDirectory) (now : Int) (key : IdentityKey) :
    Decidable (Superseded keys now key) := by
  unfold Superseded; infer_instance

/-- The epochs of each subject and purpose fit on one page of the directory. -/
def Paged (keys : KeyDirectory) : Prop :=
  ∀ key ∈ keys, keys.countP (·.epoch.of key.epoch.subject key.epoch.purpose) ≤ maxQueryLimit

instance (keys : KeyDirectory) : Decidable (Paged keys) := by
  unfold Paged; infer_instance

/-! ## Distinct keys -/

def Distinct (keys : KeyDirectory) : Prop := keys.Pairwise fun a b => clashes a b = false

variable {a b : IdentityKey}

theorem clashes_symm (h : clashes a b = false) : clashes b a = false := by
  simp only [clashes, of, Bool.or_eq_false_iff, Bool.and_eq_false_iff,
    decide_eq_false_iff_not] at h ⊢
  exact ⟨fun heq => h.1 heq.symm, by
    rcases h.2 with (h | h) | h
    · exact .inl (.inl fun heq => h heq.symm)
    · exact .inl (.inr fun heq => h heq.symm)
    · exact .inr fun heq => h heq.symm⟩

variable {keys : KeyDirectory}

theorem Distinct.eq_of_clashes (hd : Distinct keys) (ha : a ∈ keys) (hb : b ∈ keys)
    (h : clashes a b = true) : a = b := by
  have hsymm : Std.Symm fun a b => clashes a b = false := ⟨fun _ _ => clashes_symm⟩
  by_contra hne
  rw [hd.forall ha hb hne] at h
  cases h

theorem clashes_of_keyId (h : a.keyId = b.keyId) : clashes a b = true := by
  simp [clashes, h]

variable {subject : Subject} {purpose : KeyPurpose}

theorem clashes_of_epoch (ha : a.epoch.of subject purpose) (hb : b.epoch.of subject purpose)
    (h : a.epoch.epoch = b.epoch.epoch) : clashes a b = true := by
  simp only [of, Bool.and_eq_true, decide_eq_true_eq] at ha hb
  simp [clashes, of, ha, hb, h]

variable {key : IdentityKey}

theorem Distinct.key_eq (hd : Distinct keys) (hmem : key ∈ keys) :
    keys.key key.keyId = some key := by
  unfold KeyDirectory.key
  cases hfind : keys.find? (·.keyId = key.keyId) with
  | none =>
    have := List.find?_eq_none.mp hfind key hmem
    simp at this
  | some found =>
    have hid : found.keyId = key.keyId := by simpa using List.find?_some hfind
    rw [hd.eq_of_clashes (List.mem_of_find?_eq_some hfind) hmem (clashes_of_keyId hid)]

theorem mem_epochs (hp : Paged keys) :
    key ∈ keys.epochs subject purpose ↔ key ∈ keys ∧ key.epoch.of subject purpose := by
  have hlength : (keys.filter (·.epoch.of subject purpose)).length ≤ maxQueryLimit := by
    by_cases hnone : ∃ other ∈ keys, other.epoch.of subject purpose
    · obtain ⟨other, hmem, hof⟩ := hnone
      have hcount := hp other hmem
      simp only [of, Bool.and_eq_true, decide_eq_true_eq] at hof
      rwa [hof.1, hof.2, List.countP_eq_length_filter] at hcount
    · have hempty : keys.filter (·.epoch.of subject purpose) = [] :=
        List.filter_eq_nil_iff.mpr fun other hmem hof => hnone ⟨other, hmem, hof⟩
      rw [hempty]
      exact Nat.zero_le _
  rw [KeyDirectory.epochs, List.take_of_length_le hlength, List.mem_insertionSort, List.mem_filter]

/-! ## Settled rotations -/

def RetiredBy (time : Int) (key : IdentityKey) : Prop :=
  ∃ retired, key.epoch.retiredAtMillis = some retired ∧ retired ≤ time

/-- Some key of the rotation's epoch or a later one is in force, and the epoch right before it is retired
since the rotation; that epoch is taken, so that no other key can be registered under it. -/
structure Settled (clock : Int) (keys : KeyDirectory) (r : Rotation) : Prop where
  since_le : r.since ≤ clock
  current : ∃ key ∈ keys, key.epoch.of r.subject r.purpose ∧ r.epoch ≤ key.epoch.epoch ∧
    key.epoch.notBeforeMillis ≤ clock ∧ key.epoch.revokedAtMillis = none
  prior : ∀ key ∈ keys, key.epoch.of r.subject r.purpose → key.epoch.epoch + 1 = r.epoch →
    RetiredBy r.since key
  taken : r.epoch = 1 ∨
    ∃ key ∈ keys, key.epoch.of r.subject r.purpose ∧ key.epoch.epoch + 1 = r.epoch

/-- What the careful runs keep. -/
structure Sound (rotated : Rotation → Prop) (clock : Int) (keys : KeyDirectory) : Prop where
  distinct : Distinct keys
  paged : Paged keys
  bounded : ∀ key ∈ keys, key.epoch.epoch < 2 ^ 32
  retired : ∀ key ∈ keys, ∀ time, key.epoch.retiredAtMillis = some time → time ≤ clock
  /-- A subject with a legacy key has a canonical one. -/
  paired : ∀ key ∈ keys, key.epoch.legacy → ∃ other ∈ keys,
    other.epoch.of key.epoch.subject key.epoch.purpose ∧ other.epoch.legacy = false
  settled : ∀ r, rotated r → Settled clock keys r

variable {clock : Int}

theorem Settled.later {clock' r} (h : Settled clock keys r) (hle : clock ≤ clock') :
    Settled clock' keys r where
  since_le := h.since_le.trans hle
  current := by
    obtain ⟨key, hmem, hof, hepoch, hbefore, hrevoked⟩ := h.current
    exact ⟨key, hmem, hof, hepoch, hbefore.trans hle, hrevoked⟩
  prior := h.prior
  taken := h.taken

variable {rotated : Rotation → Prop}

theorem Sound.mono {rotated'} (h : Sound rotated clock keys) (hle : ∀ r, rotated' r → rotated r) :
    Sound rotated' clock keys :=
  ⟨h.distinct, h.paged, h.bounded, h.retired, h.paired, fun r hr => h.settled r (hle r hr)⟩

theorem Sound.later {clock'} (h : Sound rotated clock keys) (hle : clock ≤ clock') :
    Sound rotated clock' keys where
  distinct := h.distinct
  paged := h.paged
  bounded := h.bounded
  retired key hmem time htime := (h.retired key hmem time htime).trans hle
  paired := h.paired
  settled r hr := (h.settled r hr).later hle

/-! ## Changing recorded times -/

/-- The fields of a key that retirement and revocation leave alone. -/
structure SameKey (a b : IdentityKey) : Prop where
  keyId : b.keyId = a.keyId
  subject : b.epoch.subject = a.epoch.subject
  purpose : b.epoch.purpose = a.epoch.purpose
  epoch : b.epoch.epoch = a.epoch.epoch
  notBefore : b.epoch.notBeforeMillis = a.epoch.notBeforeMillis
  legacy : b.epoch.legacy = a.epoch.legacy

theorem SameKey.of_eq (h : SameKey a b) (subject : Subject) (purpose : KeyPurpose) :
    b.epoch.of subject purpose = a.epoch.of subject purpose := by
  simp only [of, h.subject, h.purpose]

theorem SameKey.clashes_eq {a' b'} (ha : SameKey a a') (hb : SameKey b b') :
    clashes a' b' = clashes a b := by
  simp only [clashes, ha.keyId, hb.keyId, ha.of_eq, hb.subject, hb.purpose, ha.epoch, hb.epoch]

section

variable {keys : KeyDirectory} {f : IdentityKey → IdentityKey}
  (hsame : ∀ key ∈ keys, SameKey key (f key))
include hsame

theorem Distinct.map (h : Distinct keys) : Distinct (keys.map f) := by
  refine List.pairwise_map.mpr (h.imp_of_mem fun ha hb hapart => ?_)
  rw [(hsame _ ha).clashes_eq (hsame _ hb)]
  exact hapart

theorem countP_map_of_same (subject : Subject) (purpose : KeyPurpose) :
    (keys.map f).countP (·.epoch.of subject purpose) = keys.countP (·.epoch.of subject purpose) := by
  rw [List.countP_map]
  refine List.countP_congr fun key hmem => ?_
  rw [Function.comp_apply, (hsame key hmem).of_eq]

theorem Paged.map (h : Paged keys) : Paged (keys.map f) := by
  intro key hmem
  obtain ⟨old, hold, rfl⟩ := List.mem_map.mp hmem
  rw [countP_map_of_same hsame, (hsame old hold).subject, (hsame old hold).purpose]
  exact h old hold

/-- Recording times keeps what the runs keep, as long as a time recorded as retired stays and a key in
force remains for every rotation. -/
theorem Sound.map {rotated clock} (h : Sound rotated clock keys)
    (hretired : ∀ key ∈ keys, (f key).epoch.retiredAtMillis = key.epoch.retiredAtMillis ∨
      ¬ RetiredBy clock key ∧ (f key).epoch.retiredAtMillis = some clock)
    (hcurrent : ∀ r, rotated r → ∃ key ∈ keys, key.epoch.of r.subject r.purpose ∧
      r.epoch ≤ key.epoch.epoch ∧ key.epoch.notBeforeMillis ≤ clock ∧
      (f key).epoch.revokedAtMillis = none) :
    Sound rotated clock (keys.map f) where
  distinct := h.distinct.map hsame
  paged := h.paged.map hsame
  bounded := by
    intro key hmem
    obtain ⟨old, hold, rfl⟩ := List.mem_map.mp hmem
    rw [(hsame old hold).epoch]
    exact h.bounded old hold
  retired := by
    intro key hmem time htime
    obtain ⟨old, hold, rfl⟩ := List.mem_map.mp hmem
    rcases hretired old hold with heq | ⟨-, heq⟩
    · exact h.retired old hold time (heq ▸ htime)
    · rw [heq, Option.some.injEq] at htime
      exact htime.ge
  paired := by
    intro key hmem hlegacy
    obtain ⟨old, hold, rfl⟩ := List.mem_map.mp hmem
    rw [(hsame old hold).legacy] at hlegacy
    obtain ⟨other, hother, hof, hcanonical⟩ := h.paired old hold hlegacy
    refine ⟨f other, List.mem_map_of_mem hother, ?_, (hsame other hother).legacy.trans hcanonical⟩
    rw [(hsame other hother).of_eq, (hsame old hold).subject, (hsame old hold).purpose]
    exact hof
  settled := by
    intro r hr
    have hsettled := h.settled r hr
    refine ⟨hsettled.since_le, ?_, ?_, hsettled.taken.imp_right ?_⟩
    · obtain ⟨key, hmem, hof, hepoch, hbefore, hrevoked⟩ := hcurrent r hr
      have hkey := hsame key hmem
      refine ⟨f key, List.mem_map_of_mem hmem, ?_, ?_, ?_, hrevoked⟩
      · rwa [hkey.of_eq]
      · rwa [hkey.epoch]
      · rwa [hkey.notBefore]
    · intro key hmem hof hepoch
      obtain ⟨old, hold, rfl⟩ := List.mem_map.mp hmem
      rw [(hsame old hold).of_eq] at hof
      rw [(hsame old hold).epoch] at hepoch
      obtain ⟨time, htime, hle⟩ := hsettled.prior old hold hof hepoch
      rcases hretired old hold with heq | ⟨hnot, -⟩
      · exact ⟨time, heq.trans htime, hle⟩
      -- The prior epoch is retired already, so that its time is not overwritten.
      · exact absurd ⟨time, htime, hle.trans hsettled.since_le⟩ hnot
    · rintro ⟨key, hmem, hof, hepoch⟩
      have hkey := hsame key hmem
      exact ⟨f key, List.mem_map_of_mem hmem, by rwa [hkey.of_eq], by rwa [hkey.epoch]⟩

end

def retiredAt (key : IdentityKey) (time : Int) : IdentityKey :=
  { key with epoch := { key.epoch with retiredAtMillis := some time } }

def revokedAt (key : IdentityKey) (time : Int) : IdentityKey :=
  { key with epoch := { key.epoch with revokedAtMillis := some time } }

variable {keys' : KeyDirectory} {keyId : String} {now : Int}

/-- `retire` sets the time of the named key alone, and only where none is recorded up to now. -/
theorem retire_ok (hd : Distinct keys) (h : keys.retire keyId now = .ok keys') :
    ∃ f : IdentityKey → IdentityKey, keys' = keys.map f ∧
      (∀ key ∈ keys, f key = key ∨ ¬ RetiredBy now key ∧ f key = retiredAt key now) ∧
      ∀ key ∈ keys, key.keyId = keyId → RetiredBy now (f key) := by
  simp only [retire, keepEarliest, bind_eq_ok, okOr_eq_ok] at h
  obtain ⟨current, hcurrent, h⟩ := h
  have hof : ∀ key ∈ keys, key.keyId = keyId → key = current := by
    intro key hmem hid
    have := hd.key_eq hmem
    rw [hid, hcurrent] at this
    exact (Option.some.inj this).symm
  have hretired : current.epoch.retiredAtMillis.any (· ≤ now) = true ↔ RetiredBy now current := by
    simp [RetiredBy, Option.any_eq_true]
  split_ifs at h with hrecorded
  · obtain rfl := pure_eq_ok.mp h
    refine ⟨id, by simp, fun key _ => .inl rfl, fun key hmem hid => ?_⟩
    rw [hof key hmem hid]
    exact hretired.mp hrecorded
  · simp only [bind_eq_ok, ensure_eq_ok, pure_eq_ok] at h
    obtain ⟨-, -, rfl⟩ := h
    refine ⟨_, rfl, fun key hmem => ?_, fun key hmem hid => ?_⟩
    · by_cases hid : key.keyId = keyId
      · rw [if_pos hid, hof key hmem hid]
        exact .inr ⟨fun hby => hrecorded (hretired.mpr hby), rfl⟩
      · exact .inl (if_neg hid)
    · rw [if_pos hid]
      exact ⟨now, rfl, le_rfl⟩

theorem SameKey.retiredAt (key : IdentityKey) (time : Int) : SameKey key (retiredAt key time) :=
  ⟨rfl, rfl, rfl, rfl, rfl, rfl⟩

theorem SameKey.of_retire {new}
    (h : new = key ∨ ¬ RetiredBy now key ∧ new = Identity.retiredAt key now) : SameKey key new := by
  rcases h with rfl | ⟨-, rfl⟩
  · exact ⟨rfl, rfl, rfl, rfl, rfl, rfl⟩
  · exact .retiredAt key now

/-- The retirement loop of a rotation: every key it names ends up retired. -/
theorem retireAll_ok {keyIds : List String} (hd : Distinct keys)
    (h : keyIds.foldlM (fun keys keyId => keys.retire keyId now) keys = .ok keys') :
    ∃ f : IdentityKey → IdentityKey, keys' = keys.map f ∧
      (∀ key ∈ keys, f key = key ∨ ¬ RetiredBy now key ∧ f key = retiredAt key now) ∧
      ∀ key ∈ keys, key.keyId ∈ keyIds → RetiredBy now (f key) := by
  induction keyIds generalizing keys with
  | nil =>
    simp only [List.foldlM_nil, pure_eq_ok] at h
    exact ⟨id, by simp [h], fun key _ => .inl rfl, by simp⟩
  | cons keyId keyIds ih =>
    rw [List.foldlM_cons, bind_eq_ok] at h
    obtain ⟨keys₁, hfirst, hrest⟩ := h
    obtain ⟨f, rfl, hf, hfid⟩ := retire_ok hd hfirst
    obtain ⟨g, rfl, hg, hgid⟩ := ih (hd.map fun key hmem => .of_retire (hf key hmem)) hrest
    -- What the first call retired, the rest of the loop leaves alone.
    have hstay : ∀ key ∈ keys, RetiredBy now (f key) → g (f key) = f key := by
      intro key hmem hby
      rcases hg (f key) (List.mem_map_of_mem hmem) with heq | ⟨hnot, -⟩
      · exact heq
      · exact absurd hby hnot
    refine ⟨g ∘ f, by rw [List.map_map], fun key hmem => ?_, fun key hmem hid => ?_⟩
    · rcases hf key hmem with heq | ⟨hnot, heq⟩
      · rw [Function.comp_apply, heq]
        have := hg (f key) (List.mem_map_of_mem hmem)
        rwa [heq] at this
      · have hby : RetiredBy now (f key) := heq ▸ ⟨now, rfl, le_rfl⟩
        exact .inr ⟨hnot, by rw [Function.comp_apply, hstay key hmem hby, heq]⟩
    · rcases List.mem_cons.mp hid with hid | hid
      · have hby := hfid key hmem hid
        rw [Function.comp_apply, hstay key hmem hby]
        exact hby
      · refine hgid (f key) (List.mem_map_of_mem hmem) ?_
        rwa [(SameKey.of_retire (hf key hmem)).keyId]

theorem revoke_ok (h : keys.revoke keyId now = .ok keys') :
    ∃ f : IdentityKey → IdentityKey, keys' = keys.map f ∧
      ∀ key, f key = key ∨ key.keyId = keyId ∧ f key = revokedAt key now := by
  simp only [revoke, keepEarliest, bind_eq_ok, okOr_eq_ok] at h
  obtain ⟨current, -, h⟩ := h
  split_ifs at h
  · obtain rfl := pure_eq_ok.mp h
    exact ⟨id, by simp, fun key => .inl rfl⟩
  · simp only [bind_eq_ok, ensure_eq_ok, pure_eq_ok] at h
    obtain ⟨-, -, rfl⟩ := h
    refine ⟨_, rfl, fun key => ?_⟩
    by_cases hid : key.keyId = keyId
    · exact .inr ⟨hid, if_pos hid⟩
    · exact .inl (if_neg hid)

/-- Revoking a superseded key leaves the key that supersedes it in force. -/
theorem Sound.revoke (h : Sound rotated now keys)
    (hsuperseded : ∀ key ∈ keys, key.keyId = keyId → Superseded keys now key)
    (hok : keys.revoke keyId now = .ok keys') : Sound rotated now keys' := by
  obtain ⟨f, rfl, hf⟩ := revoke_ok hok
  refine h.map (fun key _ => ?_) (fun key _ => .inl ?_) fun r hr => ?_
  · rcases hf key with heq | ⟨-, heq⟩ <;> rw [heq] <;> exact ⟨rfl, rfl, rfl, rfl, rfl, rfl⟩
  · rcases hf key with heq | ⟨-, heq⟩
    · rw [heq]
    · rw [heq]
      rfl
  · obtain ⟨key, hmem, hof, hepoch, hbefore, hrevoked⟩ := (h.settled r hr).current
    rcases hf key with heq | ⟨hid, -⟩
    · exact ⟨key, hmem, hof, hepoch, hbefore, by rw [heq]; exact hrevoked⟩
    · obtain ⟨other, hother, hof', hlt, hbefore', hrevoked'⟩ := hsuperseded key hmem hid
      simp only [of, Bool.and_eq_true, decide_eq_true_eq] at hof hof' ⊢
      refine ⟨other, hother, ⟨hof'.1.trans hof.1, hof'.2.trans hof.2⟩, by omega, hbefore', ?_⟩
      rcases hf other with heq | ⟨hid', -⟩
      · rwa [heq]
      -- The other key has another ID, since the two differ.
      · have hsame := h.distinct.eq_of_clashes hother hmem (clashes_of_keyId (hid'.trans hid.symm))
        rw [hsame] at hlt
        exact absurd hlt (lt_irrefl _)

/-! ## Registering keys -/

theorem register_ok (h : keys.register key = .ok keys') :
    keys' = keys ++ [key] ∧ ∀ stored ∈ keys, clashes stored key = false := by
  simp only [register, bind_eq_ok, ensure_eq_ok, pure_eq_ok] at h
  obtain ⟨-, -, -, hall, rfl⟩ := h
  exact ⟨rfl, by simpa using hall⟩

theorem Distinct.register (h : Distinct keys) (hfresh : ∀ stored ∈ keys, clashes stored key = false) :
    Distinct (keys ++ [key]) := by
  refine List.pairwise_append.mpr ⟨h, List.pairwise_singleton _ _, ?_⟩
  intro a ha b hb
  rw [List.mem_singleton.mp hb]
  exact hfresh a ha

/-- A new key leaves the rotations settled, unless it takes epoch 0 of a subject that has keys. -/
theorem Settled.register {r} (h : Settled clock keys r)
    (hfresh : ∀ stored ∈ keys, clashes stored key = false) (hzero : key.epoch.epoch ≠ 0 ∨
      ∀ stored ∈ keys, stored.epoch.of key.epoch.subject key.epoch.purpose = false) :
    Settled clock (keys ++ [key]) r where
  since_le := h.since_le
  current := by
    obtain ⟨stored, hmem, hrest⟩ := h.current
    exact ⟨stored, List.mem_append_left _ hmem, hrest⟩
  prior := by
    intro stored hmem hof hepoch
    rcases List.mem_append.mp hmem with hmem | hmem
    · exact h.prior stored hmem hof hepoch
    · obtain rfl := List.mem_singleton.mp hmem
      rcases h.taken with hone | ⟨other, hother, hof', hepoch'⟩
      · rcases hzero with hzero | hnone
        · omega
        · obtain ⟨other, hother, hof', -⟩ := h.current
          simp only [of, Bool.and_eq_true, decide_eq_true_eq] at hof hof'
          have := hnone other hother
          simp [of, hof, hof'] at this
      · have := hfresh other hother
        rw [clashes_of_epoch hof' hof (by omega)] at this
        cases this
  taken := by
    refine h.taken.imp_right ?_
    rintro ⟨stored, hmem, hrest⟩
    exact ⟨stored, List.mem_append_left _ hmem, hrest⟩

theorem Sound.register (h : Sound rotated clock keys) (hok : keys.register key = .ok keys')
    (hpaged : Paged keys') (hretired : key.epoch.retiredAtMillis = none)
    (hlegacy : key.epoch.legacy = false) (hzero : key.epoch.epoch ≠ 0)
    (hbound : key.epoch.epoch < 2 ^ 32) : Sound rotated clock keys' := by
  obtain ⟨rfl, hfresh⟩ := register_ok hok
  refine ⟨h.distinct.register hfresh, hpaged, ?_, ?_, ?_, ?_⟩
  · intro stored hmem
    rcases List.mem_append.mp hmem with hmem | hmem
    · exact h.bounded stored hmem
    · rwa [List.mem_singleton.mp hmem]
  · intro stored hmem time htime
    rcases List.mem_append.mp hmem with hmem | hmem
    · exact h.retired stored hmem time htime
    · rw [List.mem_singleton.mp hmem, hretired] at htime
      cases htime
  · intro stored hmem hold
    rcases List.mem_append.mp hmem with hmem | hmem
    · obtain ⟨other, hother, hrest⟩ := h.paired stored hmem hold
      exact ⟨other, List.mem_append_left _ hother, hrest⟩
    · rw [List.mem_singleton.mp hmem, hlegacy] at hold
      cases hold
  · intro r hr
    exact (h.settled r hr).register hfresh (.inl hzero)

/-! ## Rotating and enrolling -/

variable (existing : List IdentityKey)

theorem epochAfter_ne_zero : epochAfter existing ≠ 0 := by
  unfold epochAfter nextEpoch
  split <;> omega

theorem epochAfter_lt : epochAfter existing < 2 ^ 32 := by
  unfold epochAfter nextEpoch
  split <;> omega

/-- Where the next epoch is free, it is one above the highest, or 1. -/
theorem epochAfter_taken {existing} (hbounded : ∀ key ∈ existing, key.epoch.epoch < 2 ^ 32)
    (hfree : ∀ key ∈ existing, key.epoch.epoch ≠ epochAfter existing) :
    epochAfter existing = 1 ∨ ∃ key ∈ existing, key.epoch.epoch + 1 = epochAfter existing := by
  cases hmax : (existing.map (·.epoch.epoch)).max? with
  | none => exact .inl (by rw [epochAfter, hmax])
  | some latest =>
    right
    obtain ⟨key, hmem, hlatest⟩ := List.mem_map.mp (List.max?_mem hmax)
    have hafter : epochAfter existing = min (latest + 1) (2 ^ 32 - 1) := by
      rw [epochAfter, hmax]
      rfl
    have hlt := hbounded key hmem
    have hne := hfree key hmem
    refine ⟨key, hmem, ?_⟩
    omega

section

variable {rotated : Rotation → Prop} {now : Int} {keys keys₁ keys' : KeyDirectory}

theorem Paged.of_map {f} (hsame : ∀ key ∈ keys, SameKey key (f key)) (h : Paged (keys.map f)) :
    Paged keys := by
  intro key hmem
  have hcount := h (f key) (List.mem_map_of_mem hmem)
  rwa [countP_map_of_same hsame, (hsame key hmem).subject, (hsame key hmem).purpose] at hcount

variable (h : Sound rotated now keys)

include h

/-- A rotation that ran to its end is settled, and so are those before it. -/
theorem Sound.rotate {description : KeyDescription} {key : NewKey} {record : IdentityKey} (hlegacy : description.legacy = false)
    (hrecord : record = epochRecord description key subject purpose
      (epochAfter (keys.epochs subject purpose)) now) (hregister : keys.register record = .ok keys₁)
    (hretire : (((keys.epochs subject purpose).filter (·.epoch.retiredAtMillis.isNone)).map
      (·.keyId)).foldlM (fun keys keyId => keys.retire keyId now) keys₁ = .ok keys')
    (hpaged : Paged keys') :
    Sound (fun r => rotated r ∨ r = ⟨subject, purpose, record.epoch.epoch, now⟩) now keys' ∧
      ∃ f : IdentityKey → IdentityKey, keys' = (keys ++ [record]).map f ∧
        SameKey record (f record) := by
  obtain ⟨rfl, hfresh⟩ := register_ok hregister
  obtain ⟨f, rfl, hf, hfid⟩ := retireAll_ok (h.distinct.register hfresh) hretire
  have hsame : ∀ key ∈ keys ++ [record], SameKey key (f key) :=
    fun key hmem => .of_retire (hf key hmem)
  have hnew : record ∈ keys ++ [record] := by simp
  have hfields : record.epoch.of subject purpose ∧ record.epoch.notBeforeMillis = now ∧
      record.epoch.revokedAtMillis = none ∧ record.epoch.legacy = false := by
    subst hrecord
    exact ⟨by simp [of, epochRecord], rfl, rfl, hlegacy⟩
  have hepoch : record.epoch.epoch = epochAfter (keys.epochs subject purpose) := by
    rw [hrecord]
    rfl
  have hadded := h.register hregister (.of_map hsame hpaged) (by rw [hrecord]; rfl) hfields.2.2.2
    (hepoch ▸ epochAfter_ne_zero _) (hepoch ▸ epochAfter_lt _)
  have hrevoked : ∀ key ∈ keys ++ [record],
      (f key).epoch.revokedAtMillis = key.epoch.revokedAtMillis := by
    intro key hmem
    rcases hf key hmem with heq | ⟨-, heq⟩
    · rw [heq]
    · rw [heq]
      rfl
  have hsound : Sound rotated now ((keys ++ [record]).map f) := by
    refine hadded.map hsame (fun key hmem => ?_) fun r hr => ?_
    · rcases hf key hmem with heq | ⟨hnot, heq⟩
      · exact .inl (by rw [heq])
      · exact .inr ⟨hnot, by rw [heq]; rfl⟩
    · obtain ⟨key, hmem, hof, hle, hbefore, hnone⟩ := (hadded.settled r hr).current
      exact ⟨key, hmem, hof, hle, hbefore, (hrevoked key hmem).trans hnone⟩
  refine ⟨⟨hsound.distinct, hsound.paged, hsound.bounded, hsound.retired, hsound.paired, ?_⟩, f, rfl,
    hsame record hnew⟩
  rintro r (hr | rfl)
  · exact hsound.settled r hr
  refine ⟨le_rfl, ?_, ?_, ?_⟩
  · refine ⟨f record, List.mem_map_of_mem hnew, ?_, (hsame record hnew).epoch.ge, ?_, ?_⟩
    · rw [(hsame record hnew).of_eq]
      exact hfields.1
    · rw [(hsame record hnew).notBefore, hfields.2.1]
    · rw [hrevoked record hnew, hfields.2.2.1]
  · intro key hmem hof hprior
    obtain ⟨old, hold, rfl⟩ := List.mem_map.mp hmem
    rw [(hsame old hold).of_eq] at hof
    rw [(hsame old hold).epoch] at hprior
    dsimp only at hprior
    rcases List.mem_append.mp hold with hkeys | hrec
    · have hexisting := (mem_epochs h.paged).mpr ⟨hkeys, hof⟩
      cases hretired : old.epoch.retiredAtMillis with
      | none =>
        refine hfid old hold (List.mem_map.mpr ⟨old, ?_, rfl⟩)
        exact List.mem_filter.mpr ⟨hexisting, by rw [hretired]; rfl⟩
      | some time =>
        have hby : RetiredBy now old := ⟨time, hretired, h.retired old hkeys time hretired⟩
        rcases hf old hold with heq | ⟨hnot, -⟩
        · rwa [heq]
        · exact absurd hby hnot
    · rw [List.mem_singleton.mp hrec] at hprior
      omega
  · have hmem_existing : ∀ key ∈ keys.epochs subject purpose,
        key ∈ keys ∧ key.epoch.of subject purpose := fun key => (mem_epochs h.paged).mp
    rw [hepoch]
    refine (epochAfter_taken (fun key hmem => h.bounded key (hmem_existing key hmem).1) ?_).imp_right ?_
    · intro key hmem heq
      have hclash := hfresh key (hmem_existing key hmem).1
      rw [clashes_of_epoch (hmem_existing key hmem).2 hfields.1 (heq.trans hepoch.symm)] at hclash
      cases hclash
    · rintro ⟨key, hmem, heq⟩
      have hkey : key ∈ keys ++ [record] := List.mem_append_left _ (hmem_existing key hmem).1
      refine ⟨f key, List.mem_map_of_mem hkey, ?_, ?_⟩
      · rw [(hsame key hkey).of_eq]
        exact (hmem_existing key hmem).2
      · rw [(hsame key hkey).epoch]
        exact heq

/-- In a sound directory, a subject whose keys are all legacy ones has none. -/
theorem Sound.epochs_eq_nil (hall : (keys.epochs subject purpose).all (·.epoch.legacy)) :
    keys.epochs subject purpose = [] := by
  refine List.eq_nil_iff_forall_not_mem.mpr fun key hmem => ?_
  have hlegacy := List.all_eq_true.mp hall
  obtain ⟨hkey, hof⟩ := (mem_epochs h.paged).mp hmem
  obtain ⟨other, hother, hof', hcanonical⟩ := h.paired key hkey (hlegacy key hmem)
  simp only [of, Bool.and_eq_true, decide_eq_true_eq] at hof
  rw [hof.1, hof.2] at hof'
  have := hlegacy other ((mem_epochs h.paged).mpr ⟨hother, hof'⟩)
  rw [hcanonical] at this
  cases this

theorem Sound.enroll {old description legacy key}
    (hlegacy : description.legacy = false) (hnone : keys.epochs legacy.subject .authentication = [])
    (hold : keys.register (legacyRecord old legacy now) = .ok keys₁)
    (hnew : keys₁.register (epochRecord description key legacy.subject .authentication 1 now) =
      .ok keys') (hpaged : Paged keys') : Sound rotated now keys' := by
  obtain ⟨rfl, hfresh⟩ := register_ok hold
  obtain ⟨rfl, hfresh'⟩ := register_ok hnew
  have hempty : ∀ stored ∈ keys, stored.epoch.of legacy.subject .authentication = false := by
    intro stored hmem
    by_contra hof
    have := (mem_epochs h.paged).mpr ⟨hmem, by simpa using hof⟩
    rw [hnone] at this
    exact List.not_mem_nil this
  have hcases : ∀ stored ∈ (keys ++ [legacyRecord old legacy now]) ++
      [epochRecord description key legacy.subject .authentication 1 now],
      stored ∈ keys ∨ stored = legacyRecord old legacy now ∨
        stored = epochRecord description key legacy.subject .authentication 1 now := by
    simpa [or_assoc] using hmem
  refine ⟨(h.distinct.register hfresh).register hfresh', hpaged, ?_, ?_, ?_, ?_⟩
  · intro stored hmem
    rcases hcases stored hmem with hmem | rfl | rfl
    · exact h.bounded stored hmem
    · exact Nat.two_pow_pos 32
    · exact Nat.one_lt_two_pow (by omega)
  · intro stored hmem time htime
    rcases hcases stored hmem with hmem | rfl | rfl
    · exact h.retired stored hmem time htime
    · exact (Option.some.inj htime).ge
    · cases htime
  · intro stored hmem hold
    rcases hcases stored hmem with hmem | rfl | rfl
    · obtain ⟨other, hother, hrest⟩ := h.paired stored hmem hold
      exact ⟨other, by simp [hother], hrest⟩
    -- The legacy key is paired with the key that was enrolled with it.
    · refine ⟨epochRecord description key legacy.subject .authentication 1 now, by simp, ?_, hlegacy⟩
      simp [of, epochRecord, legacyRecord]
    · change description.legacy = true at hold
      rw [hlegacy] at hold
      cases hold
  · intro r hr
    refine ((h.settled r hr).register hfresh (.inr hempty)).register hfresh' (.inl ?_)
    exact Nat.one_ne_zero

end

end Aseman.Identity
