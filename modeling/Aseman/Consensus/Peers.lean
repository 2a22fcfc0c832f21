import Aseman.Lib.Hex
import Aseman.Lib.Store

/-!
# Peers and peer sets

`peers/peer.rs`, `peers/peer_set.rs` and `common/hex.rs`. A public key is spelled as a text: `0X` and
its bytes in upper-case hexadecimal, or as whoever wrote the peer list spelled it. The consensus
methods only compare and order spellings, so they are modelled over any type `K` of them; where the
text itself is read, `K` is `String`.
-/

namespace Aseman.Consensus

def hash32Step (h : UInt32) (b : UInt8) : UInt32 := (h ^^^ b.toUInt32) * 0x01000193

def publicKeyId (bytes : List UInt8) : UInt32 := bytes.foldl hash32Step 0x811c9dc5

/-- What is read from the spelling of a key. -/
structure Spelling (K : Type) where
  /-- `str::to_uppercase`, by which keys are indexed. -/
  upper : K → K
  /-- `Peer::pub_key_bytes`: the empty key if the text is not hexadecimal. -/
  bytes : K → List UInt8

structure Peer (K : Type) where
  netAddr : String
  pubKeyHex : K
  moniker : String
  deriving DecidableEq, Repr

variable {K : Type}

/-- `Peer::pub_key_string`. -/
def Peer.pubKeyString (spelling : Spelling K) (p : Peer K) : K := spelling.upper p.pubKeyHex

/-- `Peer::id`. -/
def Peer.id (spelling : Spelling K) (p : Peer K) : UInt32 :=
  publicKeyId (spelling.bytes p.pubKeyHex)

/-- `PeerSet`. Of the cached values only those of `new` are kept: the others are computed from them
when asked for. -/
structure PeerSet (K : Type) where
  peers : List (Peer K)
  byPubKey : Store K (Peer K)
  byId : Store UInt32 (Peer K)

namespace PeerSet

variable [DecidableEq K] (spelling : Spelling K)

/-- `PeerSet::new`. -/
def new (peers : List (Peer K)) : PeerSet K where
  peers := peers
  byPubKey := peers.foldl (fun m p => m.put (p.pubKeyString spelling) p) ∅
  byId := peers.foldl (fun m p => m.put (p.id spelling) p) ∅

/-- `PeerSet::len`. -/
def len (ps : PeerSet K) : Nat := ps.byPubKey.keys.length

/-- `PeerSet::trust_count`. The source rounds a quotient of floats up, which is the quotient rounded
up for any number of peers below `2 ^ 52`. -/
def trustCount (ps : PeerSet K) : Nat :=
  if 1 < ps.peers.length then (ps.len + 2) / 3 else 0

/-- `PeerSet::hash`: the keys hashed together with `simple_hash_from_two_hashes`. -/
def hash (sha256 : List UInt8 → List UInt8) (ps : PeerSet K) : List UInt8 :=
  ps.peers.foldl (fun hash p => sha256 (hash ++ spelling.bytes p.pubKeyHex)) []

variable {spelling}

theorem get_foldl_put_isSome {α κ β : Type} [DecidableEq κ] {f : α → κ} {g : α → β} {l : List α}
    {m : Store κ β} {k : κ} :
    ((l.foldl (fun m a => m.put (f a) (g a)) m).get k).isSome ↔
      (m.get k).isSome ∨ ∃ a ∈ l, f a = k := by
  induction l generalizing m with
  | nil => simp
  | cons a l ih =>
    rw [List.foldl_cons, ih, Store.get_put]
    by_cases h : k = f a
    · simp [h]
    · simp [h, Ne.symm h]

/-- The keys of a peer set are the spellings of its peers in upper case. -/
theorem mem_keys_new {peers : List (Peer K)} {k : K} :
    k ∈ (new spelling peers).byPubKey.keys ↔ ∃ p ∈ peers, p.pubKeyString spelling = k := by
  rw [Store.mem_keys_iff]
  refine get_foldl_put_isSome.trans ?_
  simp

end PeerSet

/-! ## Keys as texts -/

def encodeToString (bytes : List UInt8) : String := "0X" ++ Hex.encodeUpper bytes

theorem encodeToString_injective : Function.Injective encodeToString := fun _ _ h =>
  Hex.encodeUpper_injective ((String.append_right_inj _).mp h)

/-- The slice `[2..]` of a text. It fails where the text has less than two bytes, or the second byte
is not the last of a character. -/
def sliceFromTwo (s : String) : Option String :=
  match s.toList with
  | [] => none
  | c :: rest =>
    if c.utf8Size = 2 then some (String.ofList rest)
    else if c.utf8Size = 1 then
      match rest with
      | [] => none
      | d :: rest => if d.utf8Size = 1 then some (String.ofList rest) else none
    else none

/-- `decode_from_string`; the outer `none` is the panic of the slice. -/
def decodeFromString (s : String) : Option (Option (List UInt8)) :=
  (sliceFromTwo s).map fun digits => Hex.decode (utf8 digits)

/-- `Peer::pub_key_bytes` of a text that can be sliced. -/
def keyBytes (s : String) : List UInt8 := ((decodeFromString s).bind id).getD []

/-- Keys spelled as texts. The upper case of a character is a table of Unicode. -/
def texts (upper : String → String) : Spelling String := ⟨upper, keyBytes⟩

/-- `PeerSet::new` over texts: `Peer::id` slices every key, so a list with a key that cannot be
sliced panics. -/
def PeerSet.ofPeers (upper : String → String) (peers : List (Peer String)) :
    Option (PeerSet String) :=
  if ∀ p ∈ peers, (sliceFromTwo p.pubKeyHex).isSome then some (new (texts upper) peers) else none

end Aseman.Consensus
