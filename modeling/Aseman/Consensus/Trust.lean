import Aseman.Consensus.Types
import Mathlib.Data.String.Basic

/-!
# Trusting a block

`Hashgraph::check_block`, `Block::get_signatures` and the checks of `Core::fast_forward`. A block is
trusted if it carries more than `trust_count` valid signatures. They are counted by the keys of the
signature map, and the signer is what its key decodes to: a map with two spellings of one signer
counts it twice, and one with a key that cannot be sliced panics (`trusted_iff`).
-/

namespace Aseman.Consensus

open PeerSet

/-- How `check_block` fails. -/
inductive CheckError
  | panic
  | wrongPeerSet
  | notEnough (got need : Nat)
  deriving DecidableEq, Repr

def CheckError.message : CheckError → String
  | .panic => "byte index 2 is not a char boundary"
  | .wrongPeerSet => "Wrong PeerSet"
  | .notEnough got need => s!"Not enough valid signatures: got {got}, need {need}"

def signer (key : String) : Option (List UInt8) := (decodeFromString key).map (·.getD [])

/-- `Block::get_signatures`; `none` is a panic. -/
def Block.getSignatures (block : Block String) : Option (List (BlockSignature (List UInt8))) :=
  block.signatures.entries.mapM fun e =>
    (signer e.1).map fun validator => ⟨validator, block.body.index, e.2⟩

/-- What a block is checked with: the hash functions, and the check of a signature, which parses the
key and the signature and verifies it. -/
structure Crypto (K : Type) where
  sha256 : List UInt8 → List UInt8
  bodyHash : BlockBody K → List UInt8
  verifies : List UInt8 → List UInt8 → String → Bool

/-- `Block::verify`, where an error is a signature that is not valid; `to_public_key` refuses the
empty key. -/
def Block.verify (crypto : Crypto String) (block : Block String)
    (sig : BlockSignature (List UInt8)) : Bool :=
  sig.validator ≠ [] && crypto.verifies sig.validator (crypto.bodyHash block.body) sig.signature

def counts (crypto : Crypto String) (block : Block String) (ps : PeerSet String)
    (sig : BlockSignature (List UInt8)) : Bool :=
  (ps.byPubKey.get (encodeToString sig.validator)).isSome && block.verify crypto sig

/-- `Hashgraph::check_block`. -/
def checkBlock (crypto : Crypto String) (upper : String → String) (block : Block String)
    (ps : PeerSet String) : Except CheckError Unit := do
  ensure (ps.hash (texts upper) crypto.sha256 = block.body.peersHash) .wrongPeerSet
  let signatures ← okOr block.getSignatures .panic
  let validSignatures := signatures.countP (counts crypto block ps)
  ensure (ps.trustCount < validSignatures) (.notEnough validSignatures ps.trustCount)

inductive FastForwardError
  | panic
  | block (e : CheckError)
  | invalidFrameHash
  | reset (message : String)
  deriving DecidableEq, Repr

/-- `Core::fast_forward`. What follows the checks, the reset of the hashgraph from the frame, is
`reset`. -/
def fastForward {H : Type} (crypto : Crypto String) (upper : String → String)
    (frameHash : Frame H String → List UInt8)
    (reset : Block String → Frame H String → Except FastForwardError Unit)
    (block : Block String) (frame : Frame H String) : Except FastForwardError Unit := do
  let ps ← okOr (ofPeers upper frame.peers) .panic
  (checkBlock crypto upper block ps).mapError .block
  ensure (block.body.frameHash = frameHash frame) .invalidFrameHash
  reset block frame

/-! ## Signers -/

/-- The public key `key` has a signature in the block that verifies its body's hash. -/
def Signed (crypto : Crypto String) (block : Block String) (key : String) : Prop :=
  ∃ e ∈ block.signatures.entries, ∃ validator, signer e.1 = some validator ∧
    encodeToString validator = key ∧ block.verify crypto ⟨validator, block.body.index, e.2⟩

instance decidableSigned (crypto : Crypto String) (block : Block String) (key : String) :
    Decidable (Signed crypto block key) :=
  decidable_of_iff (block.signatures.entries.any fun e => (signer e.1).any fun validator =>
      encodeToString validator = key && block.verify crypto ⟨validator, block.body.index, e.2⟩) <| by
    simp [Signed, Option.any_eq_true]

/-- The distinct public keys of the peer set that have signed the block. -/
def signers (crypto : Crypto String) (block : Block String) (ps : PeerSet String) : List String :=
  ps.byPubKey.keys.filter fun key => Signed crypto block key

/-- A signature map that decides rightly, whatever block body, peer set and signature check it meets:
the check does not panic, and what is accepted has more than `trust_count` signers. -/
def Trusted (upper : String → String) (signatures : OrderedMap String String) : Prop :=
  ∀ (crypto : Crypto String) (body : BlockBody String) (peers : List (Peer String))
    (ps : PeerSet String), ofPeers upper peers = some ps →
    checkBlock crypto upper ⟨body, signatures⟩ ps ≠ .error .panic ∧
    (checkBlock crypto upper ⟨body, signatures⟩ ps = .ok () →
      ps.trustCount < (signers crypto ⟨body, signatures⟩ ps).length) ∧
    ∀ (H : Type) (frameHash : Frame H String → List UInt8)
      (reset : Block String → Frame H String → Except FastForwardError Unit)
      (frame : Frame H String), frame.peers = peers →
      fastForward crypto upper frameHash reset ⟨body, signatures⟩ frame = .ok () →
        ps.trustCount < (signers crypto ⟨body, signatures⟩ ps).length

/-- The keys of a signature map can be sliced, and no two of them decode to one signer. -/
def WellSpelled (signatures : OrderedMap String String) : Prop :=
  (∀ key ∈ signatures.keys, (sliceFromTwo key).isSome) ∧
  ∀ a ∈ signatures.keys, ∀ b ∈ signatures.keys, signer a = signer b → signer a ≠ some [] → a = b

instance decidableWellSpelled (signatures : OrderedMap String String) :
    Decidable (WellSpelled signatures) :=
  inferInstanceAs (Decidable (_ ∧ _))

theorem signer_isSome {key} : (signer key).isSome ↔ (sliceFromTwo key).isSome := by
  simp [signer, decodeFromString]

theorem getSignatures_eq_some (block : Block String)
    (h : ∀ key ∈ block.signatures.keys, (sliceFromTwo key).isSome) :
    block.getSignatures = some (block.signatures.entries.map fun e =>
      ⟨(signer e.1).getD [], block.body.index, e.2⟩) := by
  have hsome : ∀ e ∈ block.signatures.entries, (signer e.1).isSome := fun e he =>
    signer_isSome.mpr (h e.1 (List.mem_map_of_mem he))
  unfold Block.getSignatures
  generalize block.signatures.entries = entries at hsome
  induction entries with
  | nil => rfl
  | cons e entries ih =>
    obtain ⟨validator, hvalidator⟩ := Option.isSome_iff_exists.mp (hsome e List.mem_cons_self)
    rw [List.mapM_cons, ih fun e he => hsome e (List.mem_cons_of_mem _ he)]
    simp [hvalidator]

theorem sliceable_of_getSignatures {block : Block String}
    {signatures : List (BlockSignature (List UInt8))} (h : block.getSignatures = some signatures) :
    ∀ key ∈ block.signatures.keys, (sliceFromTwo key).isSome := by
  unfold Block.getSignatures at h
  unfold OrderedMap.keys
  generalize block.signatures.entries = entries at h
  induction entries generalizing signatures with
  | nil => simp
  | cons e entries ih =>
    simp only [List.mapM_cons, Option.bind_eq_bind, Option.bind_eq_some_iff,
      Option.map_eq_some_iff] at h
    obtain ⟨-, ⟨validator, hvalidator, -⟩, rest, hrest, -⟩ := h
    intro key hkey
    rcases List.mem_cons.mp hkey with rfl | hkey
    · exact signer_isSome.mp (hvalidator ▸ rfl)
    · exact ih hrest key hkey

theorem checkBlock_eq_ok {crypto upper block ps} :
    checkBlock crypto upper block ps = .ok () ↔
      ps.hash (texts upper) crypto.sha256 = block.body.peersHash ∧
      ∃ signatures, block.getSignatures = some signatures ∧
        ps.trustCount < signatures.countP (counts crypto block ps) := by
  simp [checkBlock]

theorem countP_le_length_signers {crypto} (block : Block String) {ps}
    (h : WellSpelled block.signatures) :
    (block.signatures.entries.map fun e =>
        (⟨(signer e.1).getD [], block.body.index, e.2⟩ : BlockSignature _)).countP
      (counts crypto block ps) ≤ (signers crypto block ps).length := by
  rw [List.countP_map, List.countP_eq_length_filter]
  set counted := block.signatures.entries.filter _ with hcounted
  -- what is counted has a signer, which is a peer and not the empty key
  have hsigner : ∀ e ∈ counted, e ∈ block.signatures.entries ∧ ∃ validator,
      signer e.1 = some validator ∧ validator ≠ [] ∧
      (ps.byPubKey.get (encodeToString validator)).isSome ∧
      block.verify crypto ⟨validator, block.body.index, e.2⟩ := by
    intro e he
    obtain ⟨hmem, hcounts⟩ := List.mem_filter.mp he
    obtain ⟨validator, hvalidator⟩ := Option.isSome_iff_exists.mp
      (signer_isSome.mpr (h.1 e.1 (List.mem_map_of_mem hmem)))
    simp only [Function.comp_apply, counts, hvalidator, Option.getD_some, Bool.and_eq_true]
      at hcounts
    have hne : validator ≠ [] := by
      rintro rfl
      simp [Block.verify] at hcounts
    exact ⟨hmem, validator, hvalidator, hne, hcounts⟩
  have hnodup : (counted.map fun e => encodeToString ((signer e.1).getD [])).Nodup := by
    refine List.Nodup.map_on ?_ ((List.Nodup.of_map _ block.signatures.nodup_keys).filter _)
    intro a ha b hb hab
    obtain ⟨hamem, validator, ha, hane, -⟩ := hsigner a ha
    obtain ⟨hbmem, validator', hb, -⟩ := hsigner b hb
    rw [ha, hb] at hab
    obtain rfl := encodeToString_injective hab
    have hkey := h.2 a.1 (List.mem_map_of_mem hamem) b.1 (List.mem_map_of_mem hbmem)
      (ha.trans hb.symm) (by rw [ha]; simpa using hane)
    have hvalue := (OrderedMap.get_eq_some_iff.mpr hamem).symm.trans
      (hkey ▸ OrderedMap.get_eq_some_iff.mpr hbmem)
    exact Prod.ext hkey (Option.some.inj hvalue)
  have hsubset : (counted.map fun e => encodeToString ((signer e.1).getD [])) ⊆
      signers crypto block ps := by
    intro key hkey
    obtain ⟨e, he, rfl⟩ := List.mem_map.mp hkey
    obtain ⟨hmem, validator, hvalidator, -, hpeer, hverify⟩ := hsigner e he
    rw [hvalidator]
    exact List.mem_filter.mpr ⟨Store.mem_keys_iff.mpr hpeer,
      decide_eq_true ⟨e, hmem, validator, hvalidator, rfl, hverify⟩⟩
  calc counted.length = (counted.map fun e => encodeToString ((signer e.1).getD [])).length :=
        (List.length_map _).symm
    _ ≤ _ := (hnodup.subperm hsubset).length_le

theorem trusted_of_wellSpelled {upper signatures} (h : WellSpelled signatures) :
    Trusted upper signatures := by
  intro crypto body peers ps hps
  have hsome := getSignatures_eq_some ⟨body, signatures⟩ h.1
  have henough : checkBlock crypto upper ⟨body, signatures⟩ ps = .ok () →
      ps.trustCount < (signers crypto ⟨body, signatures⟩ ps).length := by
    intro hok
    obtain ⟨-, counted, hcounted, hlt⟩ := checkBlock_eq_ok.mp hok
    obtain rfl := Option.some.inj (hsome.symm.trans hcounted)
    exact hlt.trans_le (countP_le_length_signers ⟨body, signatures⟩ h)
  refine ⟨?_, henough, ?_⟩
  · rw [checkBlock, hsome]
    simp only [okOr, ne_eq, bind_eq_error, ensure_eq_error]
    simp
  · intro H frameHash reset frame hpeers hok
    simp only [fastForward, bind_eq_ok, okOr_eq_ok, mapError_eq_ok] at hok
    obtain ⟨ps', hps', ⟨⟩, hcheck, -⟩ := hok
    obtain rfl := Option.some.inj (hps.symm.trans (hpeers ▸ hps'))
    exact henough hcheck

/-! ## Maps that are not well spelled -/

theorem sliceFromTwo_encodeToString (bytes : List UInt8) :
    sliceFromTwo (encodeToString bytes) = some (Hex.encodeUpper bytes) := by
  have hlist : (encodeToString bytes).toList = '0' :: 'X' :: (Hex.encodeUpper bytes).toList := by
    simp [encodeToString, String.toList_append]
  unfold sliceFromTwo
  rw [hlist]
  simp [show ('0' : Char).utf8Size = 1 from by decide, show ('X' : Char).utf8Size = 1 from by decide]

section

variable {upper : String → String}
  (hupper : ∀ bytes, upper (encodeToString bytes) = encodeToString bytes)
include hupper

theorem ofPeers_pair {v w} (hne : v ≠ w) :
    ∃ ps, ofPeers upper [⟨"", encodeToString v, ""⟩, ⟨"", encodeToString w, ""⟩] = some ps ∧
      ps.trustCount = 1 ∧ ∀ key, key ∈ ps.byPubKey.keys ↔
        key = encodeToString v ∨ key = encodeToString w := by
  set peers : List (Peer String) := [⟨"", encodeToString v, ""⟩, ⟨"", encodeToString w, ""⟩]
  have hkeys : ∀ key, key ∈ (new (texts upper) peers).byPubKey.keys ↔
      key = encodeToString v ∨ key = encodeToString w := by
    intro key
    rw [mem_keys_new]
    simp [peers, Peer.pubKeyString, texts, hupper, eq_comm]
  have hlen : (new (texts upper) peers).len = 2 := by
    have hperm : (new (texts upper) peers).byPubKey.keys.Perm
        [encodeToString v, encodeToString w] := by
      refine (List.perm_ext_iff_of_nodup (Store.nodup_keys _) ?_).mpr fun key => ?_
      · simpa using fun h => hne (encodeToString_injective h)
      · rw [hkeys]
        simp
    exact hperm.length_eq
  refine ⟨.new (texts upper) peers, ?_, ?_, hkeys⟩
  · simp [ofPeers, peers, sliceFromTwo_encodeToString]
  · rw [trustCount, hlen]
    rfl

theorem wellSpelled_of_trusted {signatures : OrderedMap String String}
    (h : Trusted upper signatures) : WellSpelled signatures := by
  let body (peersHash : List UInt8) : BlockBody String := ⟨0, 0, 0, [], [], peersHash, [], [], []⟩
  let crypto : Crypto String := ⟨fun _ => [], fun _ => [], fun _ _ _ => true⟩
  have hslice : ∀ key ∈ signatures.keys, (sliceFromTwo key).isSome := by
    obtain ⟨hpanic, -⟩ := h crypto (body []) [] (.new (texts upper) []) rfl
    cases hsome : Block.getSignatures ⟨body [], signatures⟩ with
    | some counted => exact sliceable_of_getSignatures hsome
    | none =>
      refine absurd ?_ hpanic
      rw [checkBlock, hsome]
      rfl
  refine ⟨hslice, fun a ha b hb hsame hne => ?_⟩
  by_contra hab
  obtain ⟨v, hv⟩ := Option.isSome_iff_exists.mp (signer_isSome.mpr (hslice a ha))
  have hv0 : v ≠ [] := fun h0 => hne (h0 ▸ hv)
  -- a second peer that has not signed
  obtain ⟨w, hw⟩ := Infinite.exists_notMem_finset (v :: signatures.keys.filterMap signer).toFinset
  rw [List.mem_toFinset, List.mem_cons, not_or] at hw
  obtain ⟨ps, hps, htrust, hkeys⟩ := ofPeers_pair hupper (Ne.symm hw.1)
  obtain ⟨-, henough, -⟩ := h crypto (body (ps.hash (texts upper) crypto.sha256)) _ ps hps
  set block : Block String := ⟨body (ps.hash (texts upper) crypto.sha256), signatures⟩
  have hok : checkBlock crypto upper block ps = .ok () := by
    refine checkBlock_eq_ok.mpr ⟨rfl, _, getSignatures_eq_some block hslice, ?_⟩
    rw [htrust, List.countP_map, List.countP_eq_length_filter]
    have hcounted : ∀ key ∈ signatures.keys, signer key = some v → ∃ e ∈
        block.signatures.entries.filter (counts crypto block ps ∘ fun e =>
          ⟨(signer e.1).getD [], block.body.index, e.2⟩), e.1 = key := by
      intro key hkey hsigner
      obtain ⟨e, he, rfl⟩ := List.mem_map.mp hkey
      refine ⟨e, List.mem_filter.mpr ⟨he, ?_⟩, rfl⟩
      have hpeer := Store.mem_keys_iff.mp ((hkeys (encodeToString v)).mpr (Or.inl rfl))
      simp [counts, hsigner, hpeer, Block.verify, hv0, crypto]
    obtain ⟨x, hx, hxkey⟩ := hcounted a ha hv
    obtain ⟨y, hy, hykey⟩ := hcounted b hb (hsame ▸ hv)
    generalize List.filter _ _ = counted at hx hy
    obtain _ | ⟨z, _ | ⟨z', rest⟩⟩ := counted
    · cases hx
    · rw [List.mem_singleton] at hx hy
      exact absurd (hxkey.symm.trans (hx ▸ hy ▸ hykey)) hab
    · simp
  have hone : (signers crypto block ps).length ≤ 1 := by
    have hall : signers crypto block ps ⊆ [encodeToString v] := by
      intro key hkey
      obtain ⟨hmem, hsigned⟩ := List.mem_filter.mp hkey
      obtain ⟨e, he, validator, hvalidator, rfl, -⟩ := of_decide_eq_true hsigned
      rcases (hkeys _).mp hmem with hkey | hkey
      · exact List.mem_singleton.mpr hkey
      · obtain rfl := encodeToString_injective hkey
        exact absurd (List.mem_filterMap.mpr ⟨e.1, List.mem_map_of_mem he, hvalidator⟩) hw.2
    exact (((Store.nodup_keys _).filter _).subperm hall).length_le
  have := henough hok
  omega

/-- **When the signatures of a block can be trusted**: the check neither panics nor counts a signer
twice, on any peer set and with any signature scheme, if and only if every key of the signature map
can be sliced and no two of them decode to one signer. -/
theorem trusted_iff (signatures : OrderedMap String String) :
    Trusted upper signatures ↔ WellSpelled signatures :=
  ⟨wellSpelled_of_trusted hupper, trusted_of_wellSpelled⟩

end

namespace Sample

/-- The upper case of ASCII letters, which the keys of the samples are spelled in. -/
def upper (s : String) : String := String.ofList (s.toList.map Char.toUpper)

theorem upper_encodeToString (bytes : List UInt8) :
    upper (encodeToString bytes) = encodeToString bytes := by
  have hdigit : ∀ n < 16, (Hex.digit 'A' n).toUpper = Hex.digit 'A' n := by decide
  have hdigits : (Hex.digits 'A' bytes).map Char.toUpper = Hex.digits 'A' bytes := by
    induction bytes with
    | nil => rfl
    | cons b bytes ih =>
      have hlt := b.toNat_lt
      simp only [Hex.digits, List.flatMap_cons, List.map_append, List.map_cons, List.map_nil]
        at ih ⊢
      rw [ih, hdigit _ (by omega), hdigit _ (by omega)]
  rw [upper, ← String.toList_inj]
  simp [encodeToString, Hex.encodeUpper, String.toList_append, hdigits]

/-- SHA-256 of the first key, and of that digest and the second key. -/
def digests : List (List UInt8 × List UInt8) :=
  let first := [8, 125, 128, 247, 241, 130, 221, 68, 241, 132, 170, 134, 202, 52, 72, 136, 83, 235,
    204, 4, 240, 198, 13, 82, 148, 145, 154, 70, 107, 70, 56, 49]
  [([0xAB], first),
    (first ++ [0xCD], [155, 18, 244, 145, 4, 143, 212, 197, 14, 63, 64, 67, 148, 133, 63, 9, 182,
      229, 233, 85, 213, 218, 98, 137, 51, 178, 28, 204, 238, 123, 187, 179])]

/-- The key `AB` has made the signature `s`. -/
def crypto : Crypto String where
  sha256 bytes := (digests.lookup bytes).getD []
  bodyHash _ := []
  verifies key _ signature := key = [0xAB] && signature = "s"

def peers : List (Peer String) := [⟨"n1:1337", "0XAB", "n1"⟩, ⟨"n2:1337", "0XCD", "n2"⟩]

def peerSet : PeerSet String := .new (texts upper) peers

/-- A block of these peers with the given signatures. -/
def block (signatures : List (String × String)) : Block String where
  body := ⟨0, 1, 0, [], [], peerSet.hash (texts upper) crypto.sha256, [], [], []⟩
  signatures := .ofList signatures

end Sample

open Sample

theorem trusted_of_distinct_signers :
    Trusted upper (block [("0XAB", "s"), ("0XCD", "t")]).signatures :=
  (trusted_iff upper_encodeToString _).mpr (by decide +kernel)

/-- One of two peers has signed, under two spellings of its key, and the block is accepted; under a key
of one byte the check panics. -/
theorem one_signer_accepted : ofPeers upper peers = some peerSet ∧
    (checkBlock crypto upper (block [("0XAB", "s"), ("0Xab", "s")]) peerSet = .ok () ∧
    (signers crypto (block [("0XAB", "s"), ("0Xab", "s")]) peerSet).length ≤ peerSet.trustCount) ∧
    checkBlock crypto upper (block [("0", "s")]) peerSet = .error .panic := by
  refine ⟨if_pos (by decide +kernel), ⟨by decide +kernel, by decide +kernel⟩, by decide +kernel⟩

end Aseman.Consensus
