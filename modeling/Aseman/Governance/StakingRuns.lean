import Aseman.Governance.Staking
import Aseman.Lib.Run

/-!
# What every run of the staking ledger keeps

Each action on a stake has one specification over the integers (`applyBond_eq_ok` and its
companions), a request has one inversion lemma (`apply_eq_ok`: ignored, refused or applied), and the
two results about runs follow from them: the bounds of the ledger, and how long a bond is locked.
-/

namespace Aseman.Governance

/-! ## Arithmetic -/

variable {a b c : Int64}

@[simp] theorem plus_eq_ok : plus a b = .ok c ↔ c.toInt = a.toInt + b.toInt := by
  simp [plus]

@[simp] theorem minus_eq_ok : minus a b = .ok c ↔ c.toInt = a.toInt - b.toInt := by
  simp [minus]

theorem exists_plus (h : -2 ^ 63 ≤ a.toInt + b.toInt ∧ a.toInt + b.toInt < 2 ^ 63) :
    ∃ c, plus a b = .ok c := by
  obtain ⟨c, -, hc⟩ := exists_checkedAdd h.1 h.2
  exact ⟨c, plus_eq_ok.mpr hc⟩

theorem exists_minus (h : -2 ^ 63 ≤ a.toInt - b.toInt ∧ a.toInt - b.toInt < 2 ^ 63) :
    ∃ c, minus a b = .ok c := by
  obtain ⟨c, -, hc⟩ := exists_checkedSub h.1 h.2
  exact ⟨c, minus_eq_ok.mpr hc⟩

theorem foldlM_plus_eq_ok {l : List Int64} (h : l.foldlM plus a = .ok c) :
    c.toInt = a.toInt + (l.map Int64.toInt).sum := by
  induction l generalizing a with
  | nil =>
    obtain rfl := pure_eq_ok.mp h
    simp
  | cons b l ih =>
    obtain ⟨d, hd, hrest⟩ := bind_eq_ok.mp h
    rw [ih hrest, plus_eq_ok.mp hd, List.map_cons, List.sum_cons, add_assoc]

/-- A sum of amounts none of which is negative overflows only if the whole sum does. -/
theorem exists_foldlM_plus {l : List Int64} (ha : 0 ≤ a.toInt) (hl : ∀ b ∈ l, 0 ≤ b.toInt)
    (hsum : a.toInt + (l.map Int64.toInt).sum < 2 ^ 63) : ∃ c, l.foldlM plus a = .ok c := by
  induction l generalizing a with
  | nil => exact ⟨a, rfl⟩
  | cons b l ih =>
    have hb := hl b List.mem_cons_self
    have hrest : ∀ x ∈ l, 0 ≤ x.toInt := fun x hx => hl x (List.mem_cons_of_mem _ hx)
    have hnonneg : 0 ≤ (l.map Int64.toInt).sum := by
      apply List.sum_nonneg
      simpa using hrest
    rw [List.map_cons, List.sum_cons] at hsum
    obtain ⟨d, hd⟩ := exists_plus (a := a) (b := b) (by omega)
    have hval := plus_eq_ok.mp hd
    obtain ⟨c, hc⟩ := ih (a := d) (by omega) hrest (by omega)
    exact ⟨c, bind_eq_ok.mpr ⟨d, hd, hc⟩⟩

theorem pos_iff_toInt : 0 < a ↔ 0 < a.toInt := Int64.lt_iff_toInt_lt

/-! ## One stake -/

namespace ValidatorStake

variable {st st' : ValidatorStake} {amount lockSeconds now maxStake unbonding : Int64}

theorem applyBond_eq_ok (hamount : 0 < amount.toInt)
    (h : st.applyBond amount lockSeconds now maxStake = .ok st') :
    st'.bondedStake.toInt = min (st.bondedStake.toInt + amount.toInt) maxStake.toInt ∧
      st'.pendingUnbond = st.pendingUnbond ∧
      st'.unbondUnlockAt.toInt =
        if 0 < lockSeconds.toInt then max st.unbondUnlockAt.toInt (now.toInt + lockSeconds.toInt)
        else st.unbondUnlockAt.toInt := by
  unfold applyBond at h
  rw [if_neg (not_nonpos_iff_toInt.mpr hamount)] at h
  simp only [bind_eq_ok, plus_eq_ok] at h
  obtain ⟨sum, hsum, h⟩ := h
  have hcap : (if sum > maxStake then maxStake else sum).toInt =
      min (st.bondedStake.toInt + amount.toInt) maxStake.toInt := by
    split
    · next hgt =>
      have := Int64.lt_iff_toInt_lt.mp hgt
      omega
    · next hle =>
      have := not_lt_iff_toInt.mp hle
      omega
  split at h
  · next hlock =>
    rw [if_pos (pos_iff_toInt.mp hlock)]
    obtain ⟨deadline, hdeadline, h⟩ := bind_eq_ok.mp h
    rw [plus_eq_ok] at hdeadline
    split at h
    · next hlater =>
      obtain rfl := pure_eq_ok.mp h
      have := Int64.lt_iff_toInt_lt.mp hlater
      exact ⟨hcap, rfl, by simp only; omega⟩
    · next hearlier =>
      obtain rfl := pure_eq_ok.mp h
      have := not_lt_iff_toInt.mp hearlier
      exact ⟨hcap, rfl, by simp only at this ⊢; omega⟩
  · next hlock =>
    rw [if_neg (mt pos_iff_toInt.mpr hlock)]
    obtain rfl := pure_eq_ok.mp h
    exact ⟨hcap, rfl, rfl⟩

theorem exists_applyBond (hbonded : 0 ≤ st.bondedStake.toInt) (hnow : 0 ≤ now.toInt)
    (hsum : st.bondedStake.toInt + amount.toInt < 2 ^ 63)
    (hlock : now.toInt + lockSeconds.toInt < 2 ^ 63) :
    ∃ st', st.applyBond amount lockSeconds now maxStake = .ok st' := by
  unfold applyBond
  split
  · exact ⟨_, rfl⟩
  · next hamount =>
    have hamount := not_nonpos_iff_toInt.mp hamount
    obtain ⟨sum, hsum⟩ := exists_plus (a := st.bondedStake) (b := amount) (by omega)
    simp only [bind_eq_ok, hsum, Except.ok.injEq, exists_eq_left']
    by_cases hpos : 0 < lockSeconds
    · have hpos' := pos_iff_toInt.mp hpos
      obtain ⟨deadline, hdeadline⟩ := exists_plus (a := now) (b := lockSeconds) (by omega)
      simp only [if_pos hpos, bind_eq_ok, hdeadline, Except.ok.injEq, exists_eq_left']
      split <;> exact ⟨_, rfl⟩
    · exact ⟨_, if_neg hpos⟩

/-- An unbond that goes through: the stake is not locked, and what is moved was bonded. -/
structure Unbonded (st : ValidatorStake) (amount now unbonding : Int64) (st' : ValidatorStake) :
    Prop where
  unlocked : st.unbondUnlockAt.toInt ≤ now.toInt
  bonded : st'.bondedStake.toInt = st.bondedStake.toInt - min amount.toInt st.bondedStake.toInt
  pending : st'.pendingUnbond.toInt = st.pendingUnbond.toInt + min amount.toInt st.bondedStake.toInt
  unlockAt : st'.unbondUnlockAt.toInt = now.toInt + unbonding.toInt
  positive : 0 < st.bondedStake.toInt

theorem applyUnbond_eq_ok (h : st.applyUnbond amount now unbonding = .ok st') :
    st' = st ∨ st.Unbonded amount now unbonding st' := by
  unfold applyUnbond at h
  split at h
  · exact .inl (pure_eq_ok.mp h).symm
  · next hgoes =>
    simp only [not_or, not_nonpos_iff_toInt, not_lt_iff_toInt] at hgoes
    simp only [bind_eq_ok, plus_eq_ok, minus_eq_ok, pure_eq_ok, toInt_min] at h
    obtain ⟨bonded, hbonded, pending, hpending, unlockAt, hunlock, rfl⟩ := h
    exact .inr ⟨hgoes.2.2, hbonded, hpending, hunlock, hgoes.2.1⟩

theorem exists_applyUnbond
    (hpending : st.unbondUnlockAt.toInt ≤ now.toInt → st.pendingUnbond.toInt = 0)
    (hnow : 0 ≤ now.toInt) (hunlock : now.toInt + unbonding.toInt < 2 ^ 63) :
    ∃ st', st.applyUnbond amount now unbonding = .ok st' := by
  unfold applyUnbond
  split
  · exact ⟨_, rfl⟩
  · next hgoes =>
    simp only [not_or, not_nonpos_iff_toInt, not_lt_iff_toInt] at hgoes
    have hmin := toInt_min amount st.bondedStake
    have hbound := st.bondedStake.toInt_lt
    have hlow := unbonding.le_toInt
    obtain ⟨bonded, hb⟩ := exists_minus (a := st.bondedStake) (b := min amount st.bondedStake)
      (by omega)
    obtain ⟨pending, hp⟩ := exists_plus (a := st.pendingUnbond) (b := min amount st.bondedStake)
      (by omega)
    obtain ⟨unlockAt, hu⟩ := exists_plus (a := now) (b := unbonding) (by omega)
    exact ⟨_, bind_eq_ok.mpr ⟨_, hb, bind_eq_ok.mpr ⟨_, hp, bind_eq_ok.mpr ⟨_, hu, rfl⟩⟩⟩⟩

theorem applySlash_eq_ok (hamount : 0 < amount.toInt)
    (h : st.applySlash amount now unbonding = .ok st') :
    st'.bondedStake.toInt = st.bondedStake.toInt - min amount.toInt st.bondedStake.toInt ∧
      st'.pendingUnbond.toInt = (if 0 < amount.toInt - min amount.toInt st.bondedStake.toInt then
        st.pendingUnbond.toInt - min (amount.toInt - min amount.toInt st.bondedStake.toInt)
          st.pendingUnbond.toInt
        else st.pendingUnbond.toInt) ∧
      st'.unbondUnlockAt.toInt = now.toInt + unbonding.toInt := by
  unfold applySlash at h
  rw [if_neg (not_nonpos_iff_toInt.mpr hamount)] at h
  simp only [bind_eq_ok, plus_eq_ok, minus_eq_ok, pure_eq_ok, toInt_min] at h
  obtain ⟨bonded, hbonded, remaining, hremaining, pending, hpending, unlockAt, hunlock, rfl⟩ := h
  refine ⟨hbonded, ?_, hunlock⟩
  rw [← hremaining]
  split at hpending
  · next hpos =>
    rw [if_pos (pos_iff_toInt.mp hpos)]
    rw [minus_eq_ok, toInt_min] at hpending
    exact hpending
  · next hpos =>
    rw [if_neg (mt pos_iff_toInt.mpr hpos)]
    rw [pure_eq_ok.mp hpending]

theorem exists_applySlash (hbonded : 0 ≤ st.bondedStake.toInt) (hpending : 0 ≤ st.pendingUnbond.toInt)
    (hnow : 0 ≤ now.toInt) (hunlock : now.toInt + unbonding.toInt < 2 ^ 63) :
    ∃ st', st.applySlash amount now unbonding = .ok st' := by
  unfold applySlash
  split
  · exact ⟨_, rfl⟩
  · next hamount =>
    have hamount := not_nonpos_iff_toInt.mp hamount
    have hmin := toInt_min amount st.bondedStake
    have hbound := st.bondedStake.toInt_lt
    have hbound' := amount.toInt_lt
    have hbound'' := st.pendingUnbond.toInt_lt
    have hlow := unbonding.le_toInt
    obtain ⟨bonded, hb⟩ := exists_minus (a := st.bondedStake) (b := min amount st.bondedStake)
      (by omega)
    obtain ⟨remaining, hr⟩ := exists_minus (a := amount) (b := min amount st.bondedStake) (by omega)
    have hval := minus_eq_ok.mp hr
    have hmin' := toInt_min remaining st.pendingUnbond
    obtain ⟨pending, hp⟩ : ∃ pending, (if 0 < remaining then
        minus st.pendingUnbond (min remaining st.pendingUnbond)
        else pure st.pendingUnbond : Arith Int64) = .ok pending := by
      split
      · exact exists_minus (by omega)
      · exact ⟨_, rfl⟩
    obtain ⟨unlockAt, hu⟩ := exists_plus (a := now) (b := unbonding) (by omega)
    exact ⟨_, bind_eq_ok.mpr ⟨_, hb, bind_eq_ok.mpr ⟨_, hr, bind_eq_ok.mpr ⟨_, hp,
      bind_eq_ok.mpr ⟨_, hu, rfl⟩⟩⟩⟩⟩

/-! ### Settling -/

@[simp] theorem bondedStake_settled (st : ValidatorStake) (now : Int64) :
    (st.settled now).bondedStake = st.bondedStake := by
  unfold settled
  split <;> rfl

@[simp] theorem unbondUnlockAt_settled (st : ValidatorStake) (now : Int64) :
    (st.settled now).unbondUnlockAt = st.unbondUnlockAt := by
  unfold settled
  split <;> rfl

/-- Settling pays out what has matured, and so only what is not yet due is left. -/
theorem pendingUnbond_settled (st : ValidatorStake) (now : Int64) :
    (st.settled now).pendingUnbond.toInt =
      if 0 < st.pendingUnbond.toInt ∧ st.unbondUnlockAt.toInt ≤ now.toInt then 0
      else st.pendingUnbond.toInt := by
  unfold settled
  simp only [Int64.lt_iff_toInt_lt, Int64.le_iff_toInt_le, Int64.toInt_zero]
  split <;> rfl

theorem pending_act {request} (hamount : 0 < request.amount.toInt)
    (hpending : 0 ≤ st.pendingUnbond.toInt)
    (hacted : st.act request now maxStake unbonding = .ok st') : 0 ≤ st'.pendingUnbond.toInt := by
  unfold act at hacted
  cases haction : request.action <;> rw [haction] at hacted
  · rw [(applyBond_eq_ok hamount hacted).2.1]
    exact hpending
  · rcases applyUnbond_eq_ok hacted with rfl | hunbonded
    · exact hpending
    · have hp := hunbonded.pending
      have hpos := hunbonded.positive
      omega
  · rw [(applySlash_eq_ok hamount hacted).2.1]
    split <;> omega

theorem pending_settled_nonneg (hpending : 0 ≤ st.pendingUnbond.toInt) (now : Int64) :
    0 ≤ (st.settled now).pendingUnbond.toInt := by
  rw [pendingUnbond_settled]
  split <;> omega

end ValidatorStake

/-! ## One request -/

section Request

def StakeRequest.Formed (request : StakeRequest) : Prop :=
  request.nodeId ≠ "" ∧ request.ownerId ≠ "" ∧ 0 < request.amount.toInt

variable (s : StakingState) (request : StakeRequest) (now : Int64)

namespace StakingState

/-- The stake that a request finds: that of its node, with what has matured settled, or a new one. -/
def found : ValidatorStake :=
  ((s.nodeStates.get request.nodeId).map fun state => state.settled now).getD request.newStake

/-- The request is well formed and not refused: it is its node's owner's, with a newer nonce if it
has one. -/
def Accepts : Prop :=
  request.Formed ∧
    ((s.found request now).ownerId = "" ∨ (s.found request now).ownerId = request.ownerId) ∧
    (0 < request.nonce → (s.found request now).nonce < request.nonce)

instance : Decidable (s.Accepts request now) := by
  unfold Accepts StakeRequest.Formed
  infer_instance

def bondedSum : ℤ := s.nodeStates.sumBy fun _ state => state.bondedStake.toInt

/-- The stake as the action gets it. -/
def presented : ValidatorStake :=
  { s.found request now with
    nonce := if 0 < request.nonce then request.nonce else (s.found request now).nonce
    ownerId := request.ownerId }

/-- The records with what has matured settled and the request's node among them. -/
def entered : Store String ValidatorStake :=
  (s.settleMatureUnbonds now).nodeStates.orInsert request.nodeId request.newStake

/-- The records after the request's node has got the stake `after`. -/
def writeStake (after : ValidatorStake) : Store String ValidatorStake :=
  (s.entered request now).put request.nodeId after

end StakingState

structure Applied (t : StakingState) (after : ValidatorStake) : Prop where
  accepted : s.Accepts request now
  acted : (s.presented request now).act request now s.maxValidatorStake s.unbondingSeconds =
    .ok after
  states : ∀ n, t.nodeStates.get n =
    if n = request.nodeId then some { after with lastUpdatedAt := now }
    else (s.nodeStates.get n).map fun state => state.settled now
  sum : t.bondedSum =
    s.bondedSum - (s.found request now).bondedStake.toInt + after.bondedStake.toInt
  total : t.totalBondedStake.toInt = t.bondedSum
  stakes : t.nodeStakes = s.nodeStakes.put request.nodeId after.bondedStake
  limits : t.maxValidatorStake = s.maxValidatorStake ∧ t.unbondingSeconds = s.unbondingSeconds

inductive Outcome : StakingState → Prop
  | ignored (h : ¬ request.Formed) : Outcome s
  | refused (h : ¬ s.Accepts request now) : Outcome (s.settleMatureUnbonds now)
  | applied {t : StakingState} {after : ValidatorStake} (a : Applied s request now t after) : Outcome t

theorem get_entered (n : String) : (s.entered request now).get n =
      if n = request.nodeId then some (s.found request now)
      else (s.nodeStates.get n).map fun state => state.settled now := by
  rw [StakingState.entered, Store.get_orInsert, StakingState.settleMatureUnbonds, Store.get_map,
    Store.get_map]
  rfl

theorem bondedSum_settle : (s.settleMatureUnbonds now).bondedSum = s.bondedSum := by
  rw [StakingState.bondedSum, StakingState.settleMatureUnbonds, Store.sumBy_map]
  simp [StakingState.bondedSum]

theorem bondedSum_entered : (s.entered request now).sumBy
      (fun _ state => state.bondedStake.toInt) = s.bondedSum := by
  unfold StakingState.entered Store.orInsert
  split
  · exact bondedSum_settle s now
  · next hnone =>
    rw [Option.not_isSome_iff_eq_none] at hnone
    rw [Store.sumBy_put_of_none hnone]
    exact (add_zero _).trans (bondedSum_settle s now)

variable (after : ValidatorStake)

theorem get_writeStake (n : String) : (s.writeStake request now after).get n =
      if n = request.nodeId then some after
      else (s.nodeStates.get n).map fun state => state.settled now := by
  rw [StakingState.writeStake, Store.get_put]
  split
  · rfl
  · next hne => rw [get_entered, if_neg hne]

theorem sum_writeStake :
    (s.writeStake request now after).sumBy (fun _ state => state.bondedStake.toInt) =
      s.bondedSum - (s.found request now).bondedStake.toInt + after.bondedStake.toInt := by
  rw [StakingState.writeStake, Store.sumBy_put_of_some ((get_entered ..).trans (if_pos rfl)),
    bondedSum_entered]

theorem sum_bondedStakes (m : Store String ValidatorStake) :
    ((m.toList.map fun e => e.2.bondedStake).map Int64.toInt).sum =
      m.sumBy fun _ state => state.bondedStake.toInt := by
  rw [List.map_map]
  rfl

variable {s request now} {t : StakingState}

instance : Decidable request.Formed := by
  unfold StakeRequest.Formed
  infer_instance

variable (s request now) in
theorem apply_eq : s.apply request now =
    if s.Accepts request now then do
      let after ← (s.presented request now).act request now s.maxValidatorStake s.unbondingSeconds
      let after := { after with lastUpdatedAt := now }
      let total ← sumAll ((s.writeStake request now after).toList.map fun e => e.2.bondedStake)
      pure (true, { s.settleMatureUnbonds now with
          nodeStates := s.writeStake request now after
          totalBondedStake := total
          nodeOwners := s.nodeOwners.put request.nodeId request.ownerId
          nodeStakes := s.nodeStakes.put request.nodeId after.bondedStake })
    else pure (true, if request.Formed then s.settleMatureUnbonds now else s) := by
  have hstate : ((s.entered request now).get request.nodeId).getD request.newStake =
      s.found request now := by
    rw [get_entered, if_pos rfl, Option.getD_some]
  have hmalformed : (request.nodeId = "" ∨ request.ownerId = "" ∨ request.amount ≤ 0) ↔
      ¬ request.Formed := by
    rw [StakeRequest.Formed, not_and_or, not_and_or, not_not, not_not, ← not_nonpos_iff_toInt,
      not_not]
  unfold StakingState.entered at hstate
  simp only [StakingState.apply, hstate, hmalformed]
  by_cases hformed : request.Formed
  · rw [if_neg (not_not.mpr hformed), if_pos hformed]
    by_cases haccepts : s.Accepts request now
    · rw [if_pos haccepts, if_neg (by have := haccepts.2.1; tauto),
        if_neg fun h => absurd (haccepts.2.2 h.1) (UInt64.not_lt.mpr h.2)]
      rfl
    · rw [if_neg haccepts]
      -- a refused request has a stake to be refused by: a new one is its own
      have hentered : (s.settleMatureUnbonds now).nodeStates.orInsert request.nodeId
          request.newStake = (s.settleMatureUnbonds now).nodeStates := by
        refine if_pos (by_contra fun hnone => haccepts ?_)
        rw [StakingState.settleMatureUnbonds, Store.get_map, Option.not_isSome_iff_eq_none] at hnone
        rw [StakingState.Accepts, StakingState.found, hnone]
        exact ⟨hformed, .inr rfl, id⟩
      rw [hentered]
      split
      · rfl
      · next howner =>
        rw [not_and_or, not_not, not_not] at howner
        rw [if_pos]
        by_contra hnonce
        exact haccepts ⟨hformed, howner, fun hpos => UInt64.not_le.mp fun hle => hnonce ⟨hpos, hle⟩⟩
  · rw [if_pos hformed, if_neg fun h => hformed h.1, if_neg hformed]

/-- **What a request does**: it is ignored, refused, or applied. -/
theorem apply_eq_ok {accepted : Bool} (h : s.apply request now = .ok (accepted, t)) :
    accepted = true ∧ Outcome s request now t := by
  rw [apply_eq] at h
  split at h
  · next haccepts =>
    simp only [bind_eq_ok, pure_eq_ok, Prod.mk.injEq] at h
    obtain ⟨after, hacted, total, htotal, rfl, rfl⟩ := h
    refine ⟨rfl, .applied ⟨haccepts, hacted, fun n => get_writeStake s request now _ n,
      sum_writeStake s request now _, ?_, rfl, rfl, rfl⟩⟩
    rw [StakingState.bondedSum, ← sum_bondedStakes]
    exact (foldlM_plus_eq_ok htotal).trans (zero_add _)
  · next hnot =>
    cases h
    refine ⟨rfl, ?_⟩
    split
    · exact .refused hnot
    · next hformed => exact .ignored hformed

/-- A request is answered where its action, if it comes to that, and the new sum do not overflow. -/
theorem exists_apply
    (hstakes : ∀ n state, s.nodeStates.get n = some state → 0 ≤ state.bondedStake.toInt)
    (hact : s.Accepts request now → ∃ after, (s.presented request now).act request now
      s.maxValidatorStake s.unbondingSeconds = .ok after ∧ 0 ≤ after.bondedStake.toInt ∧
      s.bondedSum - (s.found request now).bondedStake.toInt + after.bondedStake.toInt < 2 ^ 63) :
    ∃ t, s.apply request now = .ok (true, t) := by
  rw [apply_eq]
  split
  · next haccepts =>
    obtain ⟨after, hacted, hbonded, hsum⟩ := hact haccepts
    have hnonneg : ∀ b ∈ (s.writeStake request now
        { after with lastUpdatedAt := now }).toList.map fun e => e.2.bondedStake, 0 ≤ b.toInt := by
      intro b hb
      obtain ⟨⟨n, state⟩, he, rfl⟩ := List.mem_map.mp hb
      have hget := Store.mem_toList_iff.mp he
      rw [get_writeStake] at hget
      split at hget
      · cases hget
        exact hbonded
      · rw [Option.map_eq_some_iff] at hget
        obtain ⟨state, hget, rfl⟩ := hget
        rw [ValidatorStake.bondedStake_settled]
        exact hstakes _ _ hget
    obtain ⟨total, htotal⟩ := exists_foldlM_plus le_rfl hnonneg (by
      rw [sum_bondedStakes, sum_writeStake, Int64.toInt_zero, zero_add]
      exact hsum)
    exact ⟨_, bind_eq_ok.mpr ⟨after, hacted, bind_eq_ok.mpr ⟨total, htotal, rfl⟩⟩⟩
  · exact ⟨_, rfl⟩

end Request

/-! ## Sound ledgers -/

variable (s : StakingState)

/-- The snapshot of the ledger lists the bonded stakes. -/
def StakingState.Listed : Prop :=
  ∀ n, s.nodeStakes.get n = (s.nodeStates.get n).map ValidatorStake.bondedStake

variable {request : StakeRequest} {now : Int64}

theorem Outcome.listed {s t} (h : Outcome s request now t) (hs : s.Listed) : t.Listed := by
  have hsettled : ∀ n, s.nodeStakes.get n =
      ((s.nodeStates.get n).map fun state => state.settled now).map ValidatorStake.bondedStake := by
    intro n
    rw [Option.map_map, hs n]
    congr 1
    funext state
    simp
  intro n
  cases h with
  | ignored => exact hs n
  | refused => exact (hsettled n).trans (congrArg _ (Store.get_map ..).symm)
  | applied a =>
    rw [a.stakes, Store.get_put, a.states]
    split
    · rfl
    · exact hsettled n

/-- The stake is within the cap and owes nothing. -/
structure ValidatorStake.Sound (maxStake : Int64) (st : ValidatorStake) : Prop where
  bonded : 0 ≤ st.bondedStake.toInt ∧ st.bondedStake.toInt ≤ maxStake.toInt
  pending : 0 ≤ st.pendingUnbond.toInt

open ValidatorStake

/-- What a stake stands for: what is bonded and what is on its way out. -/
def ValidatorStake.held (st : ValidatorStake) : ℤ := st.bondedStake.toInt + st.pendingUnbond.toInt

theorem ValidatorStake.held_settled_le (st : ValidatorStake) (now : Int64) :
    (st.settled now).held ≤ st.held := by
  rw [held, held, bondedStake_settled, pendingUnbond_settled]
  split <;> omega

namespace ValidatorStake.Sound

variable {st st' : ValidatorStake} {request : StakeRequest} {now maxStake unbonding : Int64}

variable (h : st.Sound maxStake)

include h

theorem settled (now : Int64) : (st.settled now).Sound maxStake := by
  refine ⟨?_, pending_settled_nonneg h.pending now⟩
  rw [bondedStake_settled]
  exact h.bonded

theorem act (hamount : 0 < request.amount.toInt)
    (hacted : st.act request now maxStake unbonding = .ok st') : st'.Sound maxStake := by
  refine ⟨?_, pending_act hamount h.pending hacted⟩
  have hbonded := h.bonded
  unfold ValidatorStake.act at hacted
  cases haction : request.action <;> rw [haction] at hacted
  · have hb := (applyBond_eq_ok hamount hacted).1
    omega
  · rcases applyUnbond_eq_ok hacted with rfl | hunbonded
    · exact hbonded
    · have hb := hunbonded.bonded
      omega
  · have hb := (applySlash_eq_ok hamount hacted).1
    omega

/-- An action other than a bond never adds to what a stake has bonded, nor to what it stands for. -/
theorem act_le (hamount : 0 < request.amount.toInt) (haction : request.action ≠ .bond)
    (hacted : st.act request now maxStake unbonding = .ok st') :
    st'.bondedStake.toInt ≤ st.bondedStake.toInt ∧ st'.held ≤ st.held := by
  obtain ⟨hbonded, hpending⟩ := h
  unfold ValidatorStake.act at hacted
  unfold held
  cases haction' : request.action <;> rw [haction'] at hacted
  · exact absurd haction' haction
  · rcases applyUnbond_eq_ok hacted with rfl | hunbonded
    · exact ⟨le_rfl, le_rfl⟩
    · have hb := hunbonded.bonded
      have hp := hunbonded.pending
      omega
  · obtain ⟨hb, hp, -⟩ := applySlash_eq_ok hamount hacted
    rw [hp]
    split <;> omega

end ValidatorStake.Sound

/-- The ledger is sound: every stake is, the total is their sum, and the snapshot lists them. -/
structure StakingState.Sound (s : StakingState) : Prop where
  cap : 0 ≤ s.maxValidatorStake.toInt
  stakes : ∀ n state, s.nodeStates.get n = some state → state.Sound s.maxValidatorStake
  total : s.totalBondedStake.toInt = s.bondedSum
  snapshot : ∀ n, s.nodeStakes.get n = (s.nodeStates.get n).map bondedStake

open StakingState

/-- What the node stands for. -/
def StakingState.heldBy (n : String) : ℤ := (s.nodeStates.get n).elim 0 held

theorem StakingState.held_settled_le (n : String) (now : Int64) :
    ((s.nodeStates.get n).map fun state => state.settled now).elim 0 held ≤ s.heldBy n := by
  unfold heldBy
  cases s.nodeStates.get n with
  | none => exact le_rfl
  | some state => exact state.held_settled_le now

theorem StakingState.held_found (request : StakeRequest) (now : Int64) :
    (s.found request now).held =
      ((s.nodeStates.get request.nodeId).map fun state => state.settled now).elim 0 held := by
  unfold found
  cases s.nodeStates.get request.nodeId <;> rfl

namespace StakingState.Sound

variable {s t : StakingState} {request : StakeRequest} {now : Int64}

variable (h : s.Sound)

include h

theorem found (request : StakeRequest) (now : Int64) :
    (s.found request now).Sound s.maxValidatorStake := by
  unfold StakingState.found
  cases hget : s.nodeStates.get request.nodeId with
  | none => exact ⟨⟨le_rfl, h.cap⟩, le_rfl⟩
  | some state => exact (h.stakes _ _ hget).settled now

theorem presented (request : StakeRequest) (now : Int64) :
    (s.presented request now).Sound s.maxValidatorStake :=
  ⟨(h.found request now).bonded, (h.found request now).pending⟩

theorem outcome (ho : Outcome s request now t) : t.Sound := by
  have hlisted := ho.listed h.snapshot
  cases ho with
  | ignored => exact h
  | refused =>
    refine ⟨h.cap, fun n state hget => ?_, ?_, hlisted⟩
    · rw [settleMatureUnbonds, Store.get_map, Option.map_eq_some_iff] at hget
      obtain ⟨state, hget, rfl⟩ := hget
      exact (h.stakes n state hget).settled now
    · rw [bondedSum_settle]
      exact h.total
  | @applied t after a =>
    have hafter := (h.presented request now).act a.accepted.1.2.2 a.acted
    refine ⟨a.limits.1 ▸ h.cap, fun n state hget => ?_, a.total, hlisted⟩
    rw [a.limits.1]
    rw [a.states] at hget
    split at hget
    · cases hget
      exact ⟨hafter.bonded, hafter.pending⟩
    · rw [Option.map_eq_some_iff] at hget
      obtain ⟨state, hget, rfl⟩ := hget
      exact (h.stakes n state hget).settled now

/-- A request that is no bond never adds to what a node stands for. -/
theorem heldBy_le (ho : Outcome s request now t) (haction : request.action ≠ .bond)
    (n : String) : t.heldBy n ≤ s.heldBy n := by
  cases ho with
  | ignored => exact le_rfl
  | refused =>
    unfold heldBy settleMatureUnbonds
    rw [Store.get_map]
    exact s.held_settled_le n now
  | @applied t after a =>
    rw [heldBy, a.states]
    split
    · next heq =>
      subst heq
      exact ((h.presented request now).act_le a.accepted.1.2.2 haction a.acted).2.trans
        ((s.held_found request now).trans_le (s.held_settled_le _ now))
    · exact s.held_settled_le n now

end StakingState.Sound

/-! ## Runs -/

/-- A stake packet that arrives at a time, and whether it is applied. -/
structure StakeEvent where
  packet : ChainStakePacket
  now : Int64
  applied : Bool

/-- The packet is handled, without an overflow. -/
def StakeStep (s : StakingState) (e : StakeEvent) (t : StakingState) : Prop :=
  s.handleStake e.packet e.now = .ok (true, t) ∧
    (e.applied = true ↔ s.Accepts e.packet.request e.now)

/-- The sums that a request asks for are in the range of `i64`: that of the node's bonded stake and
the amount, and of the time and the lock, and what is then bonded in all; or that of the time and
the unbonding window. -/
structure Fits (s : StakingState) (request : StakeRequest) (now : Int64) : Prop where
  amount : request.action = .bond →
    (s.found request now).bondedStake.toInt + request.amount.toInt < 2 ^ 63
  lock : request.action = .bond → now.toInt + request.lockSeconds.toInt < 2 ^ 63
  total : request.action = .bond → s.bondedSum - (s.found request now).bondedStake.toInt +
      min ((s.found request now).bondedStake.toInt + request.amount.toInt)
        s.maxValidatorStake.toInt < 2 ^ 63
  window : request.action ≠ .bond → now.toInt + s.unbondingSeconds.toInt < 2 ^ 63

/-- A step at a time from 0 on whose sums are in range. -/
def FittingStep (s : StakingState) (e : StakeEvent) (t : StakingState) : Prop :=
  0 ≤ e.now.toInt ∧ Fits s e.packet.request e.now ∧ StakeStep s e t

variable {s : StakingState}

/-- A request that finds its stake unlocked finds nothing pending: what was has matured, and was
settled first. -/
theorem StakingState.Sound.pending_of_unlocked (h : s.Sound)
    (hunlocked : (s.found request now).unbondUnlockAt.toInt ≤ now.toInt) :
    (s.found request now).pendingUnbond.toInt = 0 := by
  unfold StakingState.found at hunlocked ⊢
  cases hget : s.nodeStates.get request.nodeId with
  | none => rfl
  | some state =>
    rw [hget, Option.map_some, Option.getD_some, unbondUnlockAt_settled] at hunlocked
    rw [Option.map_some, Option.getD_some, pendingUnbond_settled]
    have := (h.stakes _ _ hget).pending
    split <;> omega

theorem exists_apply_of_fits (h : s.Sound) (hnow : 0 ≤ now.toInt) (hfits : Fits s request now) :
    ∃ t, s.apply request now = .ok (true, t) := by
  refine exists_apply (fun n state hget => (h.stakes n state hget).bonded.1) fun haccepts => ?_
  have hsound := h.presented request now
  have hamount := haccepts.1.2.2
  have hbonded : (s.presented request now).bondedStake = (s.found request now).bondedStake := rfl
  obtain ⟨after, hacted⟩ : ∃ after, (s.presented request now).act request now s.maxValidatorStake
      s.unbondingSeconds = .ok after := by
    unfold ValidatorStake.act
    cases haction : request.action with
    | bond =>
      exact exists_applyBond hsound.bonded.1 hnow (hfits.amount haction) (hfits.lock haction)
    | unbond =>
      exact exists_applyUnbond h.pending_of_unlocked hnow (hfits.window (by simp [haction]))
    | slash =>
      exact exists_applySlash hsound.bonded.1 hsound.pending hnow (hfits.window (by simp [haction]))
  have hafter := hsound.act hamount hacted
  refine ⟨after, hacted, hafter.bonded.1, ?_⟩
  by_cases haction : request.action = .bond
  · have hcapped := hfits.total haction
    rw [ValidatorStake.act, haction] at hacted
    rw [(applyBond_eq_ok hamount hacted).1]
    exact hcapped
  · -- nothing is added to the sum that is there
    have hle := (hsound.act_le hamount haction hacted).1
    have htotal := s.totalBondedStake.toInt_lt
    rw [h.total] at htotal
    rw [hbonded] at hle
    omega

/-! ### Samples -/

namespace Sample

/-- A packet of the owner of one node, applied at a time. -/
def event (action : String) (amount : Int64) (nonce : UInt64) (lockSeconds now : Int64) :
    StakeEvent where
  packet := ⟨"a", "o", action, amount, nonce, lockSeconds⟩
  now := now
  applied := true

end Sample

open Sample

def StakingState.afterEvent (s : StakingState) (e : StakeEvent) : StakingState :=
  ((s.handleStake e.packet e.now).toOption.map Prod.snd).getD s

/-- The event happens as it says. -/
def StakingState.handles (s : StakingState) (e : StakeEvent) : Bool :=
  (s.handleStake e.packet e.now).toOption.any (fun r => r.1) &&
    decide (e.applied = true ↔ s.Accepts e.packet.request e.now)

theorem stakeStep_afterEvent {e} (h : s.handles e = true) : StakeStep s e (s.afterEvent e) := by
  rw [handles, Bool.and_eq_true, decide_eq_true_eq] at h
  obtain ⟨⟨accepted, t⟩, hok, haccepted⟩ := exists_of_any_toOption h.1
  subst haccepted
  refine ⟨?_, h.2⟩
  rw [afterEvent, hok]
  rfl

/-! ### The bounds of the ledger -/

/-- A new ledger with its limits set. -/
def configured (least cap window : Int64) : StakingState :=
  ((new.setMinValidatorStake least).setMaxValidatorStake cap).setUnbondingSeconds window

section Bounds

variable {s t : StakingState} {e : StakeEvent} {es : List StakeEvent} {least cap window : Int64}

theorem StakeStep.outcome (h : StakeStep s e t) : Outcome s e.packet.request e.now t :=
  (apply_eq_ok h.1).2

theorem Outcome.limits (h : Outcome s request now t) :
    t.maxValidatorStake = s.maxValidatorStake ∧ t.unbondingSeconds = s.unbondingSeconds := by
  cases h with
  | ignored => exact ⟨rfl, rfl⟩
  | refused => exact ⟨rfl, rfl⟩
  | applied a => exact a.limits

theorem limits_of_run (h : Run StakeStep (configured least cap window) es s) :
    s.maxValidatorStake = cap ∧ s.unbondingSeconds = window := by
  refine h.invariant (I := fun s => s.maxValidatorStake = cap ∧ s.unbondingSeconds = window)
    (fun s e t hstep hs => ?_) ⟨rfl, rfl⟩
  have hlimits := hstep.outcome.limits
  exact ⟨hlimits.1.trans hs.1, hlimits.2.trans hs.2⟩

theorem sound_of_run (hcap : 0 ≤ cap.toInt)
    (h : Run StakeStep (configured least cap window) es s) : s.Sound := by
  refine h.invariant (fun s e t hstep hs => hs.outcome hstep.outcome) ⟨hcap, ?_, rfl, fun _ => rfl⟩
  rintro n state hget
  cases hget

/-- A step makes a node known just when it applies a request of the node. -/
theorem known_of_step (h : StakeStep s e t) (n : String) : (t.nodeStates.get n).isSome ↔
      (s.nodeStates.get n).isSome ∨ e.applied = true ∧ e.packet.nodeId = n := by
  rw [h.2]
  cases h.outcome with
  | ignored hnot =>
    have hnot : ¬ s.Accepts e.packet.request e.now := fun h => hnot h.1
    simp [hnot]
  | refused hnot =>
    change ((s.nodeStates.map _).get n).isSome ↔ _
    simp [hnot]
  | applied a =>
    have hnode : e.packet.request.nodeId = e.packet.nodeId := rfl
    rw [a.states, hnode]
    by_cases heq : n = e.packet.nodeId
    · simp [heq, a.accepted]
    · simp [heq, Ne.symm heq]

theorem known_of_run (h : Run StakeStep (configured least cap window) es s) (n : String) :
    (s.nodeStates.get n).isSome ↔ ∃ e ∈ es, e.applied = true ∧ e.packet.nodeId = n := by
  induction h with
  | nil => simp [configured, new, setMinValidatorStake, setMaxValidatorStake, setUnbondingSeconds]
  | snoc _ hstep ih =>
    rw [known_of_step hstep, ih]
    simp [or_and_right, exists_or]

/-- **The bounds of the stake ledger.** In every ledger that a run of stake packets has reached,
where the sums that the packets asked for were in range: a further packet whose sums are in range
overflows nowhere; every stake is between 0 and the cap, and nothing pending is negative; the total
is the sum of the bonded stakes; the snapshot lists just the bonded stakes of the nodes that had a
request applied; and a packet that is no bond never adds to what a node stands for. -/
theorem stakes_bounded_of_run (hcap : 0 ≤ cap.toInt)
    (hrun : Run FittingStep (configured least cap window) es s) :
    (∀ packet now, 0 ≤ now.toInt → Fits s packet.request now →
      ∃ t, s.handleStake packet now = .ok (true, t)) ∧
    (∀ n state, s.nodeStates.get n = some state → 0 ≤ state.bondedStake.toInt ∧
      state.bondedStake.toInt ≤ cap.toInt ∧ 0 ≤ state.pendingUnbond.toInt) ∧
    s.totalBondedStake.toInt = s.bondedSum ∧
    (∀ n amount, s.nodeStakes.get n = some amount ↔
      (∃ e ∈ es, e.applied = true ∧ e.packet.nodeId = n) ∧
        (s.nodeStates.get n).map bondedStake = some amount) ∧
    ∀ packet now t, s.handleStake packet now = .ok (true, t) → packet.request.action ≠ .bond →
      ∀ n, t.heldBy n ≤ s.heldBy n := by
  have hsteps : Run StakeStep (configured least cap window) es s :=
    hrun.mono fun _ _ _ hstep => hstep.2.2
  have hsound := sound_of_run hcap hsteps
  refine ⟨fun packet now hnow hfits => exists_apply_of_fits hsound hnow hfits, ?_, hsound.total, ?_,
    fun packet now t hok haction n => hsound.heldBy_le (apply_eq_ok hok).2 haction n⟩
  · intro n state hget
    have hstate := hsound.stakes n state hget
    rw [(limits_of_run hsteps).1] at hstate
    exact ⟨hstate.bonded.1, hstate.bonded.2, hstate.pending⟩
  · intro n amount
    rw [hsound.snapshot, ← known_of_run hsteps]
    cases s.nodeStates.get n <;> simp

end Bounds

/-- A bond of ten thousand. -/
theorem stakes_bounded_of_bond : ∃ s, Run FittingStep (configured 1000 1000000000000 86400)
        [event "bond" 10000 1 0 1000000] s ∧
      s.totalBondedStake = 10000 ∧ s.totalBondedStake.toInt = s.bondedSum := by
  have hrun : (configured 1000 1000000000000 86400).handles
      (event "bond" 10000 1 0 1000000) = true := by decide
  have hfits : FittingStep (configured 1000 1000000000000 86400)
      (event "bond" 10000 1 0 1000000) _ :=
    ⟨by decide, ⟨fun _ => by decide, fun _ => by decide, fun _ => by decide, fun _ => by decide⟩,
      stakeStep_afterEvent hrun⟩
  have hbounded := stakes_bounded_of_run (by decide) (.single hfits)
  exact ⟨_, .single hfits, by decide, hbounded.2.2.1⟩

/-- After a bond of 1, a bond of the largest amount overflows before it is capped. -/
theorem bond_overflows : ∃ s, Run StakeStep .new [event "bond" 1 1 0 0] s ∧
      s.handleStake (event "bond" 9223372036854775807 2 0 1).packet 1 = .error .overflow := by
  have hrun : new.handles (event "bond" 1 1 0 0) = true := by decide
  exact ⟨_, .single (stakeStep_afterEvent hrun), errorOf_eq_some.mp (by decide)⟩

/-! ### How long a bond is locked -/

section Lock

variable {s s' t u v : StakingState} {b e : StakeEvent} {es : List StakeEvent} {n : String}
  {least cap window : Int64}

/-- The node's stake cannot be unbonded before the time `deadline`. -/
def LockedUntil (n : String) (deadline : ℤ) (s : StakingState) : Prop :=
  s.nodeStates.Has n fun state => deadline ≤ state.unbondUnlockAt.toInt

variable {deadline : ℤ}

theorem LockedUntil.presented (h : LockedUntil request.nodeId deadline s) (now : Int64) :
    deadline ≤ (s.presented request now).unbondUnlockAt.toInt := by
  obtain ⟨state, hget, hlocked⟩ := h
  change _ ≤ (s.found request now).unbondUnlockAt.toInt
  rw [StakingState.found, hget, Option.map_some, Option.getD_some, unbondUnlockAt_settled]
  exact hlocked

theorem LockedUntil.settled (h : LockedUntil n deadline s) (now : Int64) :
    ∃ state, (s.nodeStates.get n).map (fun state => state.settled now) = some state ∧
      deadline ≤ state.unbondUnlockAt.toInt := by
  obtain ⟨state, hget, hlocked⟩ := h
  refine ⟨state.settled now, by rw [hget, Option.map_some], ?_⟩
  rw [unbondUnlockAt_settled]
  exact hlocked

/-- An action before the end of a lock moves nothing out, and leaves the lock, where a slash does
not set an earlier end. -/
theorem locked_act {st st' : ValidatorStake} {maxStake unbonding : Int64}
    (hlocked : deadline ≤ st.unbondUnlockAt.toInt) (hbefore : now.toInt < deadline)
    (hamount : 0 < request.amount.toInt) (hacted : st.act request now maxStake unbonding = .ok st') :
    (0 ≤ st.pendingUnbond.toInt → st'.pendingUnbond.toInt ≤ st.pendingUnbond.toInt) ∧
      ((request.action = .slash → deadline ≤ now.toInt + unbonding.toInt) →
        deadline ≤ st'.unbondUnlockAt.toInt) := by
  unfold ValidatorStake.act at hacted
  cases haction : request.action <;> rw [haction] at hacted
  · obtain ⟨-, hp, hu⟩ := applyBond_eq_ok hamount hacted
    refine ⟨fun _ => by rw [hp], fun _ => ?_⟩
    rw [hu]
    split <;> omega
  · rcases applyUnbond_eq_ok hacted with rfl | hunbonded
    · exact ⟨fun _ => le_rfl, fun _ => hlocked⟩
    · have hunlocked := hunbonded.unlocked
      omega
  · obtain ⟨-, hp, hu⟩ := applySlash_eq_ok hamount hacted
    refine ⟨fun hnonneg => ?_, fun hslash => ?_⟩
    · rw [hp]
      split <;> omega
    · rw [hu]
      exact hslash rfl

theorem LockedUntil.step (h : LockedUntil n deadline s) (hstep : StakeStep s e t)
    (hbefore : e.now.toInt < deadline)
    (hslash : e.packet.request.action = .slash → e.packet.nodeId = n →
      deadline ≤ e.now.toInt + s.unbondingSeconds.toInt) : LockedUntil n deadline t := by
  cases hstep.outcome with
  | ignored => exact h
  | refused =>
    obtain ⟨state, hget, hlocked⟩ := h.settled e.now
    exact ⟨state, (Store.get_map ..).trans hget, hlocked⟩
  | @applied _ after a =>
    by_cases hnode : n = e.packet.request.nodeId
    · subst hnode
      refine ⟨_, (a.states _).trans (if_pos rfl), ?_⟩
      exact (locked_act (h.presented e.now) hbefore a.accepted.1.2.2 a.acted).2 fun haction =>
        hslash haction rfl
    · obtain ⟨state, hget, hlocked⟩ := h.settled e.now
      exact ⟨state, by rw [a.states, if_neg hnode, hget], hlocked⟩

end Lock

end Aseman.Governance
