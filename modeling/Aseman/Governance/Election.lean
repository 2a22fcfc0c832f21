import Aseman.Governance.Staking
import Aseman.Lib.Hex
import Aseman.Lib.Json

/-!
# The validator election

`ElectionState` and `Governance::handle_election`: a round of commits and reveals, driven by the
election packets of the chain, that weighs the staked nodes by the revealed seeds. SHA-256 is
outside the source and a parameter. What a node does not compute itself comes with each packet as
its `Surroundings`: the time, the seed it draws, and the order in which its hash map lists the
staked nodes.
-/

namespace Aseman.Governance

open Json

/-! ## The round -/

inductive Phase where
  | commit
  | reveal
  | finalized
  deriving DecidableEq

structure Round where
  id : String
  phase : Phase
  commits : Store String String
  reveals : Store String String
  commitParticipants : Store String Bool

structure ElectedValidators where
  roundId : String
  validators : List String
  totalBonded : Int64
  selectedAt : Int64
  deriving DecidableEq

/-- The election state of one node; the hour of its last scheduled election plays no part here. -/
structure ElectionState where
  nodeId : String
  maxValidatorCount : Nat := 50
  round : Option Round := none
  validatorHistory : Store String ElectedValidators := ∅

/-- A staked node with its bonded stake and its score. -/
structure Candidate where
  nodeId : String
  bonded : Int64
  score : Nat
  deriving DecidableEq

section

variable (sha256 : List UInt8 → List UInt8)

def commitTo (roundId nodeId seed : String) : String :=
  Hex.encode (sha256 (utf8 (roundId ++ "::" ++ nodeId ++ "::" ++ seed)))

namespace ElectionState

variable (e : ElectionState)

/-- `ElectionState::election_commit`. -/
def electionCommit (roundId seed : String) : String := commitTo sha256 roundId e.nodeId seed

/-- `start_round`; the shared commit seed is not used. -/
def startRound (roundId mySeed : String) : Option String × ElectionState :=
  if roundId = "" then (none, e)
  else
    let commit := e.electionCommit sha256 roundId mySeed
    let round : Round :=
      { id := roundId
        phase := .commit
        commits := (∅ : Store String String).put e.nodeId commit
        reveals := (∅ : Store String String).put e.nodeId mySeed
        commitParticipants := (∅ : Store String Bool).put e.nodeId true }
    (some commit, { e with round := some round })

def recordCommit (roundId nodeId commit : String) : ElectionState :=
  match e.round with
  | none => e
  | some round =>
    if roundId ≠ round.id ∨ nodeId = "" ∨ commit = "" then e
    else
      { e with round := some { round with
          commits := round.commits.put nodeId commit
          commitParticipants := round.commitParticipants.put nodeId true } }

def startReveal (roundId : String) : Option String × ElectionState :=
  match e.round with
  | none => (none, e)
  | some round =>
    if roundId ≠ round.id then (none, e)
    else
      ((round.reveals.get e.nodeId).filter (· ≠ ""),
        { e with round := some { round with phase := .reveal } })

def recordReveal (roundId nodeId seed : String) : ElectionState :=
  match e.round.bind fun round => round.commits.get nodeId with
  | none => e
  | some expected =>
    if expected = "" then e
    else if e.electionCommit sha256 roundId seed ≠ expected then e
    else match e.round with
      | none => e
      | some round =>
        if roundId ≠ round.id then e
        else
          { e with round := some { round with reveals := round.reveals.put nodeId seed } }

def Round.seed (round : Round) : String :=
  let parts := (round.reveals.toList.map fun e => e.1 ++ "=" ++ e.2).insertionSort (· ≤ ·)
  round.id ++ "::" ++ "|".intercalate parts

def candidate (seed : String) (stakes : Store String Int64) (nodeId : String) : Option Candidate :=
  match stakes.get nodeId with
  | none => none
  | some bonded =>
    if bonded < minValidatorStake then none
    else
      let weight := bonded.toUInt64.toNat
      let rawScore := ofBigEndian ((sha256 (utf8 (seed ++ "::" ++ nodeId))).take 8)
      some ⟨nodeId, bonded, rawScore / max weight 1⟩

/-- The order of the candidates: by score, and then by stake from high to low. -/
def ranksBefore (a b : Candidate) : Prop :=
  a.score < b.score ∨ a.score = b.score ∧ b.bonded ≤ a.bonded

instance : DecidableRel ranksBefore := fun a b => by
  unfold ranksBefore
  infer_instance

/-- The validators that the reveals of a round select. -/
def select (round : Round) (stakes : Store String Int64) (peers : List String) : List String :=
  let seed := Round.seed round
  let candidates := (peers.filterMap (candidate sha256 seed stakes)).insertionSort ranksBefore
  let target := min (min (max (candidates.length / 3) 1) e.maxValidatorCount) candidates.length
  (candidates.take target).map Candidate.nodeId

def finalize (roundId : String) (stakes : Store String Int64)
    (peers : List String) (now : Int64) : Arith (Option ElectedValidators × ElectionState) :=
  match e.round with
  | none => pure (none, e)
  | some round =>
    if roundId ≠ round.id then pure (none, e)
    else do
      let validators := e.select sha256 round stakes peers
      let total ← sumAll (stakes.toList.map Prod.snd)
      let elected : ElectedValidators :=
        { roundId, validators, totalBonded := total, selectedAt := now }
      pure (some elected,
        { e with
          round := some { round with phase := .finalized }
          validatorHistory := e.validatorHistory.put roundId elected })

end ElectionState

/-! ## Packets -/

/-- An election packet: the fields of its `meta`; its type, key and payload are the same for all and play no part. -/
structure ChainElectionPacket where
  fields : Map
  deriving DecidableEq

def ChainElectionPacket.text (packet : ChainElectionPacket) (key : String) : String :=
  ((packet.fields.get key).bind Value.asStr).getD ""

def electionPacket (kvs : List (String × String)) : ChainElectionPacket :=
  ⟨.ofList (kvs.map fun e => (e.1, .string e.2))⟩

/-- What a node meets while it handles a packet. -/
structure Surroundings where
  now : Int64
  /-- What `unique_seed` draws. -/
  mySeed : String
  /-- The order in which the snapshot of the stakes lists its nodes. -/
  peers : List String

/-- `Governance`: the state of one node; `voter_id` and the waiting times serve the scheduler alone. -/
structure GovernanceState where
  nodeId : String
  staking : StakingState := .new
  election : ElectionState

def GovernanceState.new (nodeId : String) : GovernanceState where
  nodeId := nodeId
  election := { nodeId }

def GovernanceState.handleElection (g : GovernanceState) (w : Surroundings) (packet : ChainElectionPacket) :
    Arith (Bool × List ChainElectionPacket × GovernanceState) :=
  let roundId := packet.text "roundId"
  match packet.text "phase" with
  | "start-round" =>
    let (commit, election) := g.election.startRound sha256 roundId w.mySeed
    let emitted := commit.toList.map fun commit =>
      electionPacket [("phase", "commit"), ("roundId", roundId), ("nodeId", g.nodeId),
        ("commit", commit)]
    pure (true, emitted, { g with election })
  | "commit" =>
    let election := g.election.recordCommit roundId (packet.text "nodeId") (packet.text "commit")
    pure (true, [], { g with election })
  | "start-reveal" =>
    let (seed, election) := g.election.startReveal roundId
    let emitted := seed.toList.map fun seed =>
      electionPacket [("phase", "reveal"), ("roundId", roundId), ("nodeId", g.nodeId),
        ("seed", seed)]
    pure (true, emitted, { g with election })
  | "reveal" =>
    let election :=
      g.election.recordReveal sha256 roundId (packet.text "nodeId") (packet.text "seed")
    pure (true, [], { g with election })
  | "finalize" => do
      let (_, election) ← g.election.finalize sha256 roundId g.staking.nodeStakes w.peers w.now
      pure (true, [], { g with election })
  | _ => pure (false, [], g)

end

end Aseman.Governance
