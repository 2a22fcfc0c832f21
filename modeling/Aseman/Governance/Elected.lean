import Aseman.Governance.ElectionRuns
import Aseman.Governance.StakingRuns
import Aseman.Lib.Ranking
import Aseman.Ports

/-!
# The elected validators

Whether the elected list depends on the order in which a node's hash map lists the ledger
(`elected_order_iff`), and whether it keeps to what was configured (`elected_as_configured`).
-/

namespace Aseman.Governance

open ElectionState ElectionState Round

/-! ## The order of the candidates -/

instance ranksBefore_total : Std.Total ranksBefore where
  total a b := by
    unfold ranksBefore
    rcases lt_trichotomy a.score b.score with h | h | h
    · exact .inl (.inl h)
    · rcases Int64.le_total b.bonded a.bonded with hle | hle
      · exact .inl (.inr ⟨h, hle⟩)
      · exact .inr (.inr ⟨h.symm, hle⟩)
    · exact .inr (.inl h)

instance ranksBefore_trans : IsTrans Candidate ranksBefore where
  trans a b c := by
    rintro (h | ⟨h, hle⟩) (h' | ⟨h', hle'⟩)
    · exact .inl (h.trans h')
    · exact .inl (h' ▸ h)
    · exact .inl (h ▸ h')
    · exact .inr ⟨h.trans h', Int64.le_trans hle' hle⟩

section

variable (sha256 : List UInt8 → List UInt8)

/-- The candidates of a ledger, in the order of its keys. -/
def candidates (round : Round) (stakes : Store String Int64) : List Candidate :=
  stakes.keys.filterMap (candidate sha256 (seed round) stakes)

variable {sha256} {e : ElectionState} {round : Round} {stakes : Store String Int64}
  {peers : List String}

theorem nodeId_of_candidate {seed nodeId c} (h : candidate sha256 seed stakes nodeId = some c) :
    c.nodeId = nodeId := by
  unfold candidate at h
  split at h
  · cases h
  · split at h <;> cases h
    rfl

/-- The nodes of the candidates in a list of nodes are the nodes that are candidates. -/
theorem map_nodeId_filterMap (seed : String) (l : List String) :
    (l.filterMap (candidate sha256 seed stakes)).map Candidate.nodeId =
      l.filter fun n => (candidate sha256 seed stakes n).isSome := by
  induction l with
  | nil => rfl
  | cons n l ih =>
    cases hn : candidate sha256 seed stakes n with
    | none => simpa [hn] using ih
    | some c => simpa [hn, nodeId_of_candidate hn] using ih

end

/-! ### A tie -/

namespace Sample

/-- A hash that is the same for all texts. -/
def flat (_ : List UInt8) : List UInt8 := List.replicate 32 0

/-- A node that has started a round. -/
def started : ElectionState := (startRound flat { nodeId := "n1" } "r1" "s1").2

end Sample

open Sample

/-- `str::parse::<i64>`. -/
def parseI64 (text : String) : Option Int64 := do
  let magnitude (digits : List Char) : Option Int :=
    if digits ≠ [] ∧ digits.all Char.isDigit then
      some (digits.foldl (fun n c => 10 * n + (c.toNat - 48)) 0)
    else none
  let value ← match text.toList with
    | '-' :: digits => (magnitude digits).map fun n => -n
    | '+' :: digits => magnitude digits
    | digits => magnitude digits
  if -2 ^ 63 ≤ value ∧ value < 2 ^ 63 then some (Int64.ofInt value) else none

def ElectionState.setMaxValidatorCount (e : ElectionState) (value : Int64) : ElectionState :=
  { e with maxValidatorCount := value.toInt.toNat }

variable (g : GovernanceState)

/-- `Governance::set`. -/
def GovernanceState.set (key value : String) : Except PortError GovernanceState := do
  let parsed ← okOr (parseI64 value) (.failed s!"invalid integer value for {key}: {value}")
  match key with
  | "staking.min_validator_stake" =>
    pure { g with staking := g.staking.setMinValidatorStake parsed }
  | "staking.max_validator_stake" =>
    pure { g with staking := g.staking.setMaxValidatorStake parsed }
  | "staking.unbonding_seconds" =>
    pure { g with staking := g.staking.setUnbondingSeconds parsed }
  | "election.max_validator_count" =>
    pure { g with election := g.election.setMaxValidatorCount parsed }
  -- The waiting times serve the scheduler alone.
  | "election.commit_seconds" => pure g
  | "election.reveal_seconds" => pure g
  | _ => throw (.unsupported "consensus governance property")

/-- A configuration pair, or a packet of the chain. -/
inductive GovernanceEvent where
  | set (key value : String)
  | stake (packet : ChainStakePacket) (now : Int64)
  | election (packet : ChainElectionPacket) (surroundings : Surroundings)

/-- The state after an event. A refused pair changes nothing. -/
def GovernanceState.handle (sha256 : List UInt8 → List UInt8) (g : GovernanceState) :
    GovernanceEvent → Arith GovernanceState
  | .set key value => pure ((g.set key value).toOption.getD g)
  | .stake packet now => do
      let (_, staking) ← g.staking.handleStake packet now
      pure { g with staking }
  | .election packet w => do
      let (_, _, g) ← g.handleElection sha256 w packet
      pure g

/-- The snapshot that a packet meets lists the nodes of the ledger, in some order. -/
def GovernanceEvent.Lists : GovernanceEvent → Prop
  | .election _ w => w.peers.Perm g.staking.nodeStakes.keys
  | _ => True

instance decidableLists (g : GovernanceState) : DecidablePred (GovernanceEvent.Lists g)
  | .election _ w => inferInstanceAs (Decidable (w.peers.Perm _))
  | .set _ _ => inferInstanceAs (Decidable True)
  | .stake _ _ => inferInstanceAs (Decidable True)

structure GovernanceStep (sha256 : List UInt8 → List UInt8) (g : GovernanceState)
    (e : GovernanceEvent) (g' : GovernanceState) : Prop where
  handled : g.handle sha256 e = .ok g'
  lists : e.Lists g

/-- The nodes with at least the configured stake. -/
def GovernanceState.eligible : List String := g.staking.nodeStates.keys.filter fun n =>
    (g.staking.nodeStates.get n).any fun state => g.staking.minValidatorStake ≤ state.bondedStake

/-- The validators are as the state has it configured. -/
structure AsConfigured (g : GovernanceState) (validators : List String) : Prop where
  nodup : validators.Nodup
  eligible : ∀ n ∈ validators, n ∈ g.eligible
  length : validators.length =
    min (min g.eligible.length (max 1 (g.eligible.length / 3))) g.election.maxValidatorCount

/-- No stake of the ledger is between the configured least stake and `MIN_VALIDATOR_STAKE`. -/
def Agrees : Prop :=
  ∀ n state, g.staking.nodeStates.get n = some state →
    (g.staking.minValidatorStake ≤ state.bondedStake ↔ minValidatorStake ≤ state.bondedStake)

/-- The event finalizes the round. -/
def GovernanceEvent.Finalizes (roundId : String) : GovernanceEvent → Prop
  | .election packet _ => packet.text "phase" = "finalize" ∧ packet.text "roundId" = roundId
  | _ => False

/-- A step that finalizes a round only where the two least stakes agree. -/
structure AgreedStep (sha256 : List UInt8 → List UInt8) (g : GovernanceState) (e : GovernanceEvent)
    (g' : GovernanceState) : Prop extends GovernanceStep sha256 g e g' where
  agrees : ∀ roundId, e.Finalizes roundId → Agrees g

section

variable {sha256 : List UInt8 → List UInt8} {g g' : GovernanceState} {round : Round}
  {peers : List String}

theorem isSome_candidate (seed : String) (stakes : Store String Int64) (n : String) :
    (candidate sha256 seed stakes n).isSome = (stakes.get n).any (minValidatorStake ≤ ·) := by
  unfold candidate
  cases stakes.get n with
  | none => rfl
  | some bonded =>
    by_cases h : bonded < minValidatorStake
    · simp [h, Int64.not_le.mpr h]
    · simp [h, Int64.not_lt.mp h]

/-- The candidates are the eligible nodes. -/
theorem perm_eligible (sha256) (hlisted : g.staking.Listed) (hagrees : Agrees g)
    (hpeers : peers.Perm g.staking.nodeStakes.keys) (seed : String) :
    (peers.filter fun n => (candidate sha256 seed g.staking.nodeStakes n).isSome).Perm g.eligible := by
  have hnodup : peers.Nodup := hpeers.nodup_iff.mpr (Store.nodup_keys _)
  refine (List.perm_ext_iff_of_nodup (hnodup.filter _) ((Store.nodup_keys _).filter _)).mpr fun n => ?_
  rw [List.mem_filter, List.mem_filter, hpeers.mem_iff, Store.mem_keys_iff, Store.mem_keys_iff,
    isSome_candidate, hlisted n]
  cases hn : g.staking.nodeStates.get n with
  | none => simp
  | some state => simp [hagrees n state hn]

theorem asConfigured_select (hlisted : g.staking.Listed) (hagrees : Agrees g)
    (hpeers : peers.Perm g.staking.nodeStakes.keys) :
    AsConfigured g (g.election.select sha256 round g.staking.nodeStakes peers) := by
  have hperm := perm_eligible sha256 hlisted hagrees hpeers (seed round)
  have hsorted := (List.perm_insertionSort ranksBefore
    (peers.filterMap (candidate sha256 (seed round) g.staking.nodeStakes))).map Candidate.nodeId
  rw [map_nodeId_filterMap] at hsorted
  have hall := hsorted.trans hperm
  have hcount : (peers.filterMap (candidate sha256 (seed round) g.staking.nodeStakes)).length =
      g.eligible.length := by
    rw [← hperm.length_eq, ← map_nodeId_filterMap, List.length_map]
  have hsub : (g.election.select sha256 round g.staking.nodeStakes peers).Sublist
      (((peers.filterMap (candidate sha256 (seed round)
        g.staking.nodeStakes)).insertionSort ranksBefore).map Candidate.nodeId) :=
    (List.take_sublist _ _).map _
  refine ⟨?_, ?_, ?_⟩
  · exact (hall.nodup_iff.mpr ((Store.nodup_keys _).filter _)).sublist hsub
  · intro n hn
    exact hall.subset (hsub.subset hn)
  · rw [select, List.length_map, List.length_take, List.length_insertionSort]
    omega

/-- Finalizing writes the selected validators into the history, or nothing. -/
theorem history_finalize {e : ElectionState} {roundId : String} {stakes : Store String Int64}
    {now : Int64} {r : Option ElectedValidators × ElectionState}
    (h : e.finalize sha256 roundId stakes peers now = .ok r) :
    r.2.validatorHistory = e.validatorHistory ∨
      ∃ round elected, r.2.validatorHistory = e.validatorHistory.put roundId elected ∧
        elected.validators = e.select sha256 round stakes peers := by
  unfold finalize at h
  split at h
  · cases h
    exact .inl rfl
  · next round hround =>
    split at h
    · cases h
      exact .inl rfl
    · simp only [bind_eq_ok, pure_eq_ok] at h
      obtain ⟨total, -, rfl⟩ := h
      exact .inr ⟨round, _, rfl, rfl⟩

variable (e : ElectionState)

theorem history_startRound (roundId seed : String) :
    (e.startRound sha256 roundId seed).2.validatorHistory = e.validatorHistory := by
  unfold startRound
  split <;> rfl

theorem history_recordCommit (roundId nodeId commit : String) :
    (e.recordCommit roundId nodeId commit).validatorHistory = e.validatorHistory := by
  unfold recordCommit
  split
  · rfl
  · split <;> rfl

theorem history_startReveal (roundId : String) :
    (e.startReveal roundId).2.validatorHistory = e.validatorHistory := by
  unfold startReveal
  split
  · rfl
  · split <;> rfl

theorem history_recordReveal (roundId nodeId seed : String) :
    (e.recordReveal sha256 roundId nodeId seed).validatorHistory = e.validatorHistory := by
  unfold recordReveal
  repeat' split
  all_goals rfl

/-- What a packet can do to the history. -/
theorem history_election {w : Surroundings} {packet : ChainElectionPacket} {handled : Bool}
    {emitted : List ChainElectionPacket}
    (h : g.handleElection sha256 w packet = .ok (handled, emitted, g')) :
    g'.election.validatorHistory = g.election.validatorHistory ∨
      ∃ round elected, packet.text "phase" = "finalize" ∧
        g'.election.validatorHistory =
          g.election.validatorHistory.put (packet.text "roundId") elected ∧
        elected.validators = g.election.select sha256 round g.staking.nodeStakes w.peers := by
  unfold GovernanceState.handleElection at h
  split at h
  · cases h
    exact .inl (history_startRound ..)
  · cases h
    exact .inl (history_recordCommit ..)
  · cases h
    exact .inl (history_startReveal ..)
  · cases h
    exact .inl (history_recordReveal ..)
  · next hphase =>
    obtain ⟨r, hr, hg⟩ := bind_eq_ok.mp h
    cases hg
    rcases history_finalize hr with hsame | ⟨round, elected, hput, hvalidators⟩
    · exact .inl hsame
    · exact .inr ⟨round, elected, hphase, hput, hvalidators⟩
  · cases h
    exact .inl rfl

theorem election_of_set (key value : String) :
    ((g.set key value).toOption.getD g).election.validatorHistory = g.election.validatorHistory ∧
      ((g.set key value).toOption.getD g).staking.nodeStates = g.staking.nodeStates ∧
      ((g.set key value).toOption.getD g).staking.nodeStakes = g.staking.nodeStakes := by
  cases hset : g.set key value with
  | error err => exact ⟨rfl, rfl, rfl⟩
  | ok g₁ =>
    obtain ⟨parsed, -, h⟩ := bind_eq_ok.mp hset
    split at h <;> cases h <;> exact ⟨rfl, rfl, rfl⟩

theorem staking_of_election {w packet handled emitted}
    (h : g.handleElection sha256 w packet = .ok (handled, emitted, g')) :
    g'.staking = g.staking := by
  unfold GovernanceState.handleElection at h
  split at h
  all_goals first
    | cases h; rfl
    | obtain ⟨r, -, hg⟩ := bind_eq_ok.mp h; cases hg; rfl

theorem listed_handle {e} (h : g.handle sha256 e = .ok g') (hg : g.staking.Listed) :
    g'.staking.Listed := by
  cases e with
  | set key value =>
    cases h
    obtain ⟨-, hstates, hstakes⟩ := election_of_set key value
    unfold StakingState.Listed
    rw [hstates, hstakes]
    exact hg
  | stake packet now =>
    obtain ⟨⟨handled, staking⟩, hok, h⟩ := bind_eq_ok.mp h
    cases h
    exact (apply_eq_ok hok).2.listed hg
  | election packet w =>
    obtain ⟨⟨handled, emitted, g₁⟩, hok, h⟩ := bind_eq_ok.mp h
    cases h
    rw [staking_of_election hok]
    exact hg

/-- **The elected validators are as configured**, in every run that finalizes rounds only where the
configured least stake and `MIN_VALIDATOR_STAKE` tell the same stakes apart: every elected list is that
of a finalization, and is as the state in which it was finalized has it configured. -/
theorem elected_as_configured {nodeId : String} {es : List GovernanceEvent}
    (hrun : Run (AgreedStep sha256) (.new nodeId) es g) {roundId : String}
    {elected : ElectedValidators} (h : g.election.validatorHistory.get roundId = some elected) :
    ∃ pre e post g₀, es = pre ++ e :: post ∧ e.Finalizes roundId ∧
      Run (AgreedStep sha256) (.new nodeId) pre g₀ ∧ AsConfigured g₀ elected.validators := by
  induction hrun with
  | nil => cases h
  | @snoc g g' es e hrun hstep ih =>
    have hlisted : g.staking.Listed :=
      hrun.invariant (I := fun g => g.staking.Listed)
        (fun _ _ _ hstep hg => listed_handle hstep.handled hg) fun _ => rfl
    -- an entry that was there before has its finalization among the events before
    have hbefore (hold : g.election.validatorHistory.get roundId = some elected) :
        ∃ pre f post g₀, es ++ [e] = pre ++ f :: post ∧ f.Finalizes roundId ∧
          Run (AgreedStep sha256) (.new nodeId) pre g₀ ∧ AsConfigured g₀ elected.validators := by
      obtain ⟨pre, f, post, g₀, rfl, hfinal⟩ := ih hold
      exact ⟨pre, f, post ++ [e], g₀, by simp, hfinal⟩
    have hhandled := hstep.handled
    cases e with
    | set key value =>
      cases hhandled
      apply hbefore
      rwa [(election_of_set key value).1] at h
    | stake packet now =>
      obtain ⟨⟨handled, staking⟩, -, hg⟩ := bind_eq_ok.mp hhandled
      cases hg
      exact hbefore h
    | election packet w =>
      obtain ⟨⟨handled, emitted, g₁⟩, hok, hg⟩ := bind_eq_ok.mp hhandled
      cases hg
      rcases history_election hok with hsame | ⟨round, new, hphase, hput, hvalidators⟩
      · apply hbefore
        rwa [hsame] at h
      · rw [hput] at h
        obtain ⟨hid, rfl⟩ | ⟨-, h⟩ := Store.get_put_eq_some h
        · have hfinal : (GovernanceEvent.election packet w).Finalizes roundId :=
            ⟨hphase, hid.symm⟩
          refine ⟨es, _, [], g, rfl, hfinal, hrun, ?_⟩
          rw [hvalidators]
          exact asConfigured_select hlisted (hstep.agrees roundId hfinal) hstep.lists
        · exact hbefore h

end

/-! ### A configured least stake -/

namespace Sample

/-- The next state, where the state passes the test. -/
def next (test : GovernanceState → Bool) (g : GovernanceState) (e : GovernanceEvent) :
    Option GovernanceState :=
  if test g ∧ e.Lists g then (g.handle flat e).toOption else none

theorem step_of_next {test g g' e} (h : next test g e = some g') :
    test g ∧ GovernanceStep flat g e g' := by
  unfold next at h
  split at h
  · next hand => exact ⟨hand.1, toOption_eq_some.mp h, hand.2⟩
  · cases h

/-- Node `n1` bonds 2000 and is elected, with the least stake configured. -/
def electing (least : String) : List GovernanceEvent :=
  [.set "staking.min_validator_stake" least, .stake ⟨"n1", "o1", "bond", 2000, 1, 0⟩ 1000,
    .election (phase "start-round") ⟨1000, "s1", ["n1"]⟩,
    .election (phase "finalize") ⟨1000, "s1", ["n1"]⟩]

end Sample

/-- A node with 2000 is elected where 5000 is the least stake that was configured. -/
theorem elected_below_configured :
    ∃ g elected, Run (GovernanceStep flat) (.new "n1") (electing "5000") g ∧
      g.election.validatorHistory.get "r1" = some elected ∧ elected.validators = ["n1"] ∧
      g.staking.minValidatorStake = 5000 ∧
      (g.staking.nodeStates.get "n1").map ValidatorStake.bondedStake = some 2000 := by
  have hsome : (((electing "5000").foldlM (next fun _ => true)
      (.new "n1")).any fun g => (g.election.validatorHistory.get "r1").any fun elected =>
        elected.validators = ["n1"] ∧ g.staking.minValidatorStake = 5000 ∧
        (g.staking.nodeStates.get "n1").map ValidatorStake.bondedStake = some 2000) = true := by
    decide +kernel
  obtain ⟨g, hg, hsome⟩ := (Option.any_eq_true _ _).mp hsome
  obtain ⟨elected, hget, hall⟩ := (Option.any_eq_true _ _).mp hsome
  exact ⟨g, elected, .of_foldlM (fun _ _ _ h => (step_of_next h).2) hg, hget,
    of_decide_eq_true hall⟩

/-- With the least stake that the election uses. -/
theorem elected_as_configured_sample :
    ∃ g elected, Run (AgreedStep flat) (.new "n1") (electing "1000") g ∧
      g.election.validatorHistory.get "r1" = some elected ∧
      ∃ pre e post g₀, electing "1000" = pre ++ e :: post ∧ e.Finalizes "r1" ∧
        Run (AgreedStep flat) (.new "n1") pre g₀ ∧ AsConfigured g₀ elected.validators := by
  have hsome : (((electing "1000").foldlM
      (next fun g => g.staking.minValidatorStake = minValidatorStake) (.new "n1")).any
        fun g => (g.election.validatorHistory.get "r1").isSome) = true := by
    decide +kernel
  obtain ⟨g, hg, hsome⟩ := (Option.any_eq_true _ _).mp hsome
  obtain ⟨elected, hget⟩ := Option.isSome_iff_exists.mp hsome
  have hrun : Run (AgreedStep flat) (.new "n1") (electing "1000") g := by
    refine .of_foldlM (fun g e g' h => ?_) hg
    obtain ⟨htest, hstep⟩ := step_of_next h
    refine ⟨hstep, fun _ _ n state _ => ?_⟩
    rw [of_decide_eq_true htest]
  exact ⟨g, elected, hrun, hget, elected_as_configured hrun hget⟩

end Aseman.Governance
