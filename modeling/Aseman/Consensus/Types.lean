import Aseman.Consensus.Peers
import Aseman.Lib.OrderedMap

/-!
# Events, frames and blocks

The records of `hashgraph/event.rs`, `root.rs`, `frame.rs`, `block.rs` and `internal_transaction.rs`.
Events are named by the hexadecimal text of their hash, of which the consensus methods use that it can
be compared and ordered: it is any type `H`, and the empty text of a missing parent is `none`.
-/

namespace Aseman.Consensus

inductive TransactionType
  | peerAdd
  | peerRemove
  deriving DecidableEq, Repr

structure InternalTransaction (K : Type) where
  typ : TransactionType
  peer : Peer K
  signature : String
  deriving DecidableEq, Repr

structure InternalTransactionReceipt (K : Type) where
  internalTransaction : InternalTransaction K
  accepted : Bool
  deriving DecidableEq, Repr

structure BlockSignature (V : Type) where
  validator : V
  index : Int
  signature : String
  deriving DecidableEq, Repr

/-! ## Events -/

/-- `EventBody`, without the numbers of the wire form. -/
structure EventBody (H K : Type) where
  transactions : List (List UInt8)
  internalTransactions : List (InternalTransaction K)
  selfParent : Option H
  otherParent : Option H
  creator : K
  index : Int
  blockSignatures : List (BlockSignature K)
  timestamp : Int
  deriving DecidableEq, Repr

/-- The part of an event that is hashed, signed and sent, with the hash of its body. -/
structure SignedEvent (H K : Type) where
  hex : H
  body : EventBody H K
  signature : String
  deriving DecidableEq, Repr

/-! ## Frames -/

structure FrameEvent (H K : Type) where
  core : SignedEvent H K
  round : Int
  lamportTimestamp : Int
  witness : Bool
  deriving DecidableEq, Repr

/-- `Root`: the last events of a participant before the frame, oldest first. -/
abbrev Root (H K : Type) := List (FrameEvent H K)

structure Frame (H K : Type) [LinearOrder K] where
  round : Int
  peers : List (Peer K)
  roots : OrderedMap K (Root H K)
  events : List (FrameEvent H K)
  peerSets : OrderedMap Int (List (Peer K))
  timestamp : Int

/-! ## Blocks -/

structure BlockBody (K : Type) where
  index : Int
  roundReceived : Int
  timestamp : Int
  stateHash : List UInt8
  frameHash : List UInt8
  peersHash : List UInt8
  transactions : List (List UInt8)
  internalTransactions : List (InternalTransaction K)
  internalTransactionReceipts : List (InternalTransactionReceipt K)
  deriving DecidableEq, Repr

/-- `Block`: its body and the signatures of it, by the spelling of the signer's key. -/
structure Block (K : Type) [LinearOrder K] where
  body : BlockBody K
  signatures : OrderedMap K String

end Aseman.Consensus
