import Aseman.Lib.Checked
import Aseman.Lib.Result
import Aseman.Lib.Store

/-!
# The staking ledger

`StakingState` of the consensus engine: bonding, unbonding and slashing a validator's stake, and the
settlement of unbonds that have matured. The source computes with plain `i64` operators; here an
operation that leaves the range fails with `overflow`, whatever a build makes of it (a panic with
overflow checks, a wrapped value without).
-/

namespace Aseman.Governance

/-! ## Arithmetic -/

inductive ArithError where
  | overflow
  deriving DecidableEq

abbrev Arith := Except ArithError

def plus (a b : Int64) : Arith Int64 := okOr (checkedAdd a b) .overflow
def minus (a b : Int64) : Arith Int64 := okOr (checkedSub a b) .overflow

def sumAll (l : List Int64) : Arith Int64 := l.foldlM plus 0

/-! ## The ledger -/

def minValidatorStake : Int64 := 1000
def maxValidatorStake : Int64 := 1000000000000
def unbondingSeconds : Int64 := 24 * 60 * 60

structure ValidatorStake where
  nodeId : String
  ownerId : String
  bondedStake : Int64 := 0
  pendingUnbond : Int64 := 0
  unbondUnlockAt : Int64 := 0
  nonce : UInt64 := 0
  lastUpdatedAt : Int64 := 0
  deriving DecidableEq

inductive StakeAction where
  | bond
  | unbond
  | slash
  deriving DecidableEq

structure StakeRequest where
  nodeId : String
  ownerId : String
  action : StakeAction
  amount : Int64
  nonce : UInt64
  lockSeconds : Int64
  deriving DecidableEq

structure StakingState where
  nodeStates : Store String ValidatorStake := ∅
  nodeOwners : Store String String := ∅
  nodeStakes : Store String Int64 := ∅
  totalBondedStake : Int64 := 0
  minValidatorStake : Int64 := Governance.minValidatorStake
  maxValidatorStake : Int64 := Governance.maxValidatorStake
  unbondingSeconds : Int64 := Governance.unbondingSeconds
  deriving DecidableEq

/-! ## The operations on one stake -/

namespace ValidatorStake

variable (state : ValidatorStake)

def applyBond (amount lockSeconds now maxStake : Int64) : Arith ValidatorStake :=
  if amount ≤ 0 then pure state
  else do
    let newBonded ← plus state.bondedStake amount
    let state := { state with bondedStake := if newBonded > maxStake then maxStake else newBonded }
    if 0 < lockSeconds then do
      let lockUntil ← plus now lockSeconds
      if lockUntil > state.unbondUnlockAt then pure { state with unbondUnlockAt := lockUntil }
      else pure state
    else pure state

def applyUnbond (amount now unbondingSeconds : Int64) : Arith ValidatorStake :=
  if amount ≤ 0 ∨ state.bondedStake ≤ 0 ∨ now < state.unbondUnlockAt then pure state
  else do
    let amount := min amount state.bondedStake
    let bonded ← minus state.bondedStake amount
    let pending ← plus state.pendingUnbond amount
    let unlockAt ← plus now unbondingSeconds
    pure { state with bondedStake := bonded, pendingUnbond := pending, unbondUnlockAt := unlockAt }

def applySlash (amount now unbondingSeconds : Int64) : Arith ValidatorStake :=
  if amount ≤ 0 then pure state
  else do
    let slashBonded := min amount state.bondedStake
    let bonded ← minus state.bondedStake slashBonded
    let remaining ← minus amount slashBonded
    let pending ←
      (if 0 < remaining then minus state.pendingUnbond (min remaining state.pendingUnbond)
      else pure state.pendingUnbond)
    let unlockAt ← plus now unbondingSeconds
    pure { state with bondedStake := bonded, pendingUnbond := pending, unbondUnlockAt := unlockAt }

/-- The round of `settle_mature_unbonds` for one stake. -/
def settled (now : Int64) : ValidatorStake :=
  if 0 < state.pendingUnbond ∧ state.unbondUnlockAt ≤ now then { state with pendingUnbond := 0 }
  else state

/-- What an action makes of a stake. -/
def act (request : StakeRequest) (now maxStake unbondingSeconds : Int64) : Arith ValidatorStake :=
  match request.action with
  | .bond => state.applyBond request.amount request.lockSeconds now maxStake
  | .unbond => state.applyUnbond request.amount now unbondingSeconds
  | .slash => state.applySlash request.amount now unbondingSeconds

end ValidatorStake

/-! ## Requests -/

/-- The stake that a node starts with. -/
def StakeRequest.newStake (request : StakeRequest) : ValidatorStake :=
  { nodeId := request.nodeId, ownerId := request.ownerId }

variable (s : StakingState)

namespace StakingState

/-- `StakingState::new`. -/
def new : StakingState := {}

def setMinValidatorStake (value : Int64) : StakingState := { s with minValidatorStake := value }

def setMaxValidatorStake (value : Int64) : StakingState := { s with maxValidatorStake := value }

def setUnbondingSeconds (value : Int64) : StakingState := { s with unbondingSeconds := value }

def settleMatureUnbonds (now : Int64) : StakingState :=
  { s with nodeStates := s.nodeStates.map fun state => state.settled now }

/-- `StakingState::apply`. -/
def apply (request : StakeRequest) (now : Int64) : Arith (Bool × StakingState) :=
  if request.nodeId = "" ∨ request.ownerId = "" ∨ request.amount ≤ 0 then pure (true, s)
  else
    let settled := s.settleMatureUnbonds now
    let states := settled.nodeStates.orInsert request.nodeId request.newStake
    let state := (states.get request.nodeId).getD request.newStake
    if state.ownerId ≠ "" ∧ state.ownerId ≠ request.ownerId then
      pure (true, { settled with nodeStates := states })
    else if 0 < request.nonce ∧ request.nonce ≤ state.nonce then
      pure (true, { settled with nodeStates := states })
    else do
      let nonce := if 0 < request.nonce then request.nonce else state.nonce
      let state := { state with nonce, ownerId := request.ownerId }
      let state ← state.act request now s.maxValidatorStake s.unbondingSeconds
      let state := { state with lastUpdatedAt := now }
      let states := states.put request.nodeId state
      let total ← sumAll (states.toList.map fun e => e.2.bondedStake)
      pure (true, { settled with
          nodeStates := states
          totalBondedStake := total
          nodeOwners := s.nodeOwners.put request.nodeId request.ownerId
          nodeStakes := s.nodeStakes.put request.nodeId state.bondedStake })

end StakingState

/-! ## Packets -/

/-- A stake packet of the chain; its `reason` and `timestamp` play no part. -/
structure ChainStakePacket where
  nodeId : String
  ownerId : String
  action : String
  amount : Int64
  nonce : UInt64
  lockSeconds : Int64
  deriving DecidableEq

def ChainStakePacket.request (packet : ChainStakePacket) : StakeRequest where
  nodeId := packet.nodeId
  ownerId := packet.ownerId
  action :=
    if packet.action = "" then .bond
    else match packet.action with
      | "unbond" => .unbond
      | "slash" => .slash
      | _ => .bond
  amount := packet.amount
  nonce := packet.nonce
  lockSeconds := packet.lockSeconds

/-- `Governance::handle_stake`, at the time `now`. -/
def StakingState.handleStake (packet : ChainStakePacket) (now : Int64) :
    Arith (Bool × StakingState) :=
  s.apply packet.request now

end Aseman.Governance
