import Aseman.Governance.Election
import Aseman.Lib.Run

/-!
# What election packets can bring about

`handleElection` on each kind of packet is one equation. From them: where the seeds that a round
uses come from (`committed_of_run`), and what honest nodes record that handle one chain of packets
(`recorded_of_chain`).
-/

namespace Aseman.Governance

open Json GovernanceState

/-! ## One packet -/

section Packet

variable (sha256 : List UInt8 → List UInt8) (g : GovernanceState) (w : Surroundings)
  {packet : ChainElectionPacket}

theorem handleElection_startRound (h : packet.text "phase" = "start-round") :
    g.handleElection sha256 w packet =
      let r := g.election.startRound sha256 (packet.text "roundId") w.mySeed
      .ok (true, r.1.toList.map fun commit =>
        electionPacket [("phase", "commit"), ("roundId", packet.text "roundId"),
          ("nodeId", g.nodeId), ("commit", commit)], { g with election := r.2 }) := by
  simp only [handleElection, h]
  rfl

theorem handleElection_commit (h : packet.text "phase" = "commit") :
    g.handleElection sha256 w packet = .ok (true, [], { g with
      election := g.election.recordCommit (packet.text "roundId") (packet.text "nodeId")
        (packet.text "commit") }) := by
  simp only [handleElection, h]
  rfl

theorem handleElection_startReveal (h : packet.text "phase" = "start-reveal") :
    g.handleElection sha256 w packet =
      let r := g.election.startReveal (packet.text "roundId")
      .ok (true, r.1.toList.map fun seed =>
        electionPacket [("phase", "reveal"), ("roundId", packet.text "roundId"),
          ("nodeId", g.nodeId), ("seed", seed)], { g with election := r.2 }) := by
  simp only [handleElection, h]
  rfl

theorem handleElection_reveal (h : packet.text "phase" = "reveal") :
    g.handleElection sha256 w packet = .ok (true, [], { g with
      election := g.election.recordReveal sha256 (packet.text "roundId") (packet.text "nodeId")
        (packet.text "seed") }) := by
  simp only [handleElection, h]
  rfl

theorem handleElection_finalize (h : packet.text "phase" = "finalize") :
    g.handleElection sha256 w packet = (do
      let r ← g.election.finalize sha256 (packet.text "roundId") g.staking.nodeStakes w.peers w.now
      pure (true, [], { g with election := r.2 })) := by
  simp only [handleElection, h]

theorem handleElection_other (h : packet.text "phase" ∉
    ["start-round", "commit", "start-reveal", "reveal", "finalize"]) :
    g.handleElection sha256 w packet = .ok (false, [], g) := by
  unfold handleElection
  split <;> first | rfl | simp_all

end Packet

/-! ## Where the seeds of a round come from -/

section Source

variable {sha256 : List UInt8 → List UInt8}

/-- A packet that a node handles in its surroundings. -/
structure ElectionEvent where
  packet : ChainElectionPacket
  surroundings : Surroundings

def ElectionStep (sha256 : List UInt8 → List UInt8) (g : GovernanceState) (e : ElectionEvent)
    (g' : GovernanceState) : Prop :=
  ∃ handled emitted, g.handleElection sha256 e.surroundings e.packet = .ok (handled, emitted, g')

structure Commits (roundId n commit : String) (packet : ChainElectionPacket) : Prop where
  phase : packet.text "phase" = "commit"
  roundId : packet.text "roundId" = roundId
  nodeId : packet.text "nodeId" = n
  commit : packet.text "commit" = commit

/-- The commits and the seeds of the other nodes in the round rest on commit packets. -/
structure Sourced (sha256 : List UInt8 → List UInt8) (me : String) (es : List ElectionEvent)
    (round : Round) : Prop where
  commits : ∀ n commit, n ≠ me → round.commits.get n = some commit →
    ∃ e ∈ es, Commits round.id n commit e.packet
  reveals : ∀ n seed, n ≠ me → round.reveals.get n = some seed →
    ∃ e ∈ es, Commits round.id n (commitTo sha256 round.id me seed) e.packet

variable {me : String} {es : List ElectionEvent} {round : Round}

theorem Sourced.append (h : Sourced sha256 me es round) (fs : List ElectionEvent) :
    Sourced sha256 me (es ++ fs) round := by
  refine ⟨fun n commit hn hget => ?_, fun n seed hn hget => ?_⟩
  · obtain ⟨e, he, hcommits⟩ := h.commits n commit hn hget
    exact ⟨e, List.mem_append_left _ he, hcommits⟩
  · obtain ⟨e, he, hcommits⟩ := h.reveals n seed hn hget
    exact ⟨e, List.mem_append_left _ he, hcommits⟩

/-- What holds of a node along a run: its identity, and where its round comes from. -/
structure Tracked (sha256 : List UInt8 → List UInt8) (me : String) (es : List ElectionEvent)
    (e : ElectionState) : Prop where
  nodeId : e.nodeId = me
  sourced : ∀ round, e.round = some round → Sourced sha256 me es round

namespace Tracked

variable {st : ElectionState}

variable (h : Tracked sha256 me es st)

include h

theorem append (fs : List ElectionEvent) : Tracked sha256 me (es ++ fs) st :=
  ⟨h.nodeId, fun round hround => (h.sourced round hround).append fs⟩

theorem startRound (roundId mySeed : String) :
    Tracked sha256 me es (st.startRound sha256 roundId mySeed).2 := by
  unfold ElectionState.startRound
  split
  · exact h
  · refine ⟨h.nodeId, ?_⟩
    rintro round ⟨⟩
    refine ⟨fun n commit hn hget => ?_, fun n seed hn hget => ?_⟩
    · rw [Store.get_put_of_ne (h.nodeId ▸ hn)] at hget
      cases hget
    · rw [Store.get_put_of_ne (h.nodeId ▸ hn)] at hget
      cases hget

theorem recordCommit {e} (he : e ∈ es) (hphase : e.packet.text "phase" = "commit") :
    Tracked sha256 me es (st.recordCommit (e.packet.text "roundId") (e.packet.text "nodeId")
      (e.packet.text "commit")) := by
  unfold ElectionState.recordCommit
  split
  · exact h
  · next round hround =>
    have hsourced := h.sourced round hround
    split
    · exact h
    · next hrecorded =>
      simp only [not_or, not_not] at hrecorded
      refine ⟨h.nodeId, ?_⟩
      rintro _ ⟨⟩
      refine ⟨fun n commit hn hget => ?_, hsourced.reveals⟩
      obtain ⟨hnode, rfl⟩ | ⟨-, hget⟩ := Store.get_put_eq_some hget
      · exact ⟨e, he, hphase, hrecorded.1, hnode.symm, rfl⟩
      · exact hsourced.commits n commit hn hget

theorem startReveal (roundId : String) : Tracked sha256 me es (st.startReveal roundId).2 := by
  unfold ElectionState.startReveal
  split
  · exact h
  · next round hround =>
    have hsourced := h.sourced round hround
    split
    · exact h
    · refine ⟨h.nodeId, ?_⟩
      rintro _ ⟨⟩
      exact ⟨hsourced.commits, hsourced.reveals⟩

theorem recordReveal (roundId nodeId seed : String) :
    Tracked sha256 me es (st.recordReveal sha256 roundId nodeId seed) := by
  unfold ElectionState.recordReveal
  split
  · exact h
  · next expected hexpected =>
    split
    · exact h
    · split
      · exact h
      · next hmatches =>
        split
        · exact h
        · next round hround =>
          split
          · exact h
          · next hsame =>
            rw [not_not] at hmatches hsame
            rw [hround] at hexpected
            have hsourced := h.sourced round hround
            refine ⟨h.nodeId, ?_⟩
            rintro _ ⟨⟩
            refine ⟨hsourced.commits, fun n seed' hn hget => ?_⟩
            obtain ⟨hnode, rfl⟩ | ⟨-, hget⟩ := Store.get_put_eq_some hget
            · have hcommit := hsourced.commits n expected hn (hnode ▸ hexpected)
              rw [← hmatches, ElectionState.electionCommit, h.nodeId, hsame] at hcommit
              exact hcommit
            · exact hsourced.reveals n seed' hn hget

theorem finalize {roundId stakes peers now r}
    (hok : st.finalize sha256 roundId stakes peers now = .ok r) : Tracked sha256 me es r.2 := by
  unfold ElectionState.finalize at hok
  split at hok
  · cases hok
    exact h
  · next round hround =>
    have hsourced := h.sourced round hround
    split at hok
    · cases hok
      exact h
    · simp only [bind_eq_ok, pure_eq_ok] at hok
      obtain ⟨total, -, rfl⟩ := hok
      refine ⟨h.nodeId, ?_⟩
      rintro _ ⟨⟩
      exact ⟨hsourced.commits, hsourced.reveals⟩

omit h

theorem step {g g' e} (h : Tracked sha256 me es g.election) (hstep : ElectionStep sha256 g e g') :
    Tracked sha256 me (es ++ [e]) g'.election := by
  obtain ⟨handled, emitted, hok⟩ := hstep
  have h := h.append [e]
  have he : e ∈ es ++ [e] := List.mem_append_right _ (List.mem_singleton_self e)
  by_cases hstart : e.packet.text "phase" = "start-round"
  · rw [handleElection_startRound _ _ _ hstart] at hok
    cases hok
    exact h.startRound _ _
  by_cases hcommit : e.packet.text "phase" = "commit"
  · rw [handleElection_commit _ _ _ hcommit] at hok
    cases hok
    exact h.recordCommit he hcommit
  by_cases hstartReveal : e.packet.text "phase" = "start-reveal"
  · rw [handleElection_startReveal _ _ _ hstartReveal] at hok
    cases hok
    exact h.startReveal _
  by_cases hreveal : e.packet.text "phase" = "reveal"
  · rw [handleElection_reveal _ _ _ hreveal] at hok
    cases hok
    exact h.recordReveal _ _ _
  by_cases hfinalize : e.packet.text "phase" = "finalize"
  · rw [handleElection_finalize _ _ _ hfinalize] at hok
    simp only [bind_eq_ok, pure_eq_ok, Prod.mk.injEq] at hok
    obtain ⟨r, hr, -, -, rfl⟩ := hok
    exact h.finalize hr
  · rw [handleElection_other _ _ _ (by simp [*])] at hok
    cases hok
    exact h

end Tracked

theorem tracked_of_run {g₀ g} (hme : g₀.election.nodeId = me) (hround : g₀.election.round = none)
    (h : Run (ElectionStep sha256) g₀ es g) : Tracked sha256 me es g.election := by
  induction h with
  | nil => exact ⟨hme, by simp [hround]⟩
  | snoc _ hstep ih => exact ih.step hstep

/-- No commit packet of a node comes after a start of the reveals, or a reveal of another node, of
the same round. -/
def InTime (es : List ElectionEvent) : Prop :=
  es.Pairwise fun y x => x.packet.text "phase" = "commit" →
    y.packet.text "roundId" = x.packet.text "roundId" →
    y.packet.text "phase" ≠ "start-reveal" ∧
      (y.packet.text "phase" = "reveal" → y.packet.text "nodeId" = x.packet.text "nodeId")

/-- **Commits come before reveals.** Where every commit packet comes in time, the seed of another node
that a round uses was committed to by that node before the reveals of the round were started and
before any other node's reveal of the round was handled. -/
theorem committed_of_run {g₀ g : GovernanceState} (hme : g₀.election.nodeId = me)
    (hround₀ : g₀.election.round = none) (hrun : Run (ElectionStep sha256) g₀ es g)
    (htime : InTime es) (hround : g.election.round = some round) {n seed : String} (hn : n ≠ me)
    (hseed : round.reveals.get n = some seed) :
    ∃ pre e post, es = pre ++ e :: post ∧
      Commits round.id n (commitTo sha256 round.id me seed) e.packet ∧
      ∀ y ∈ pre, y.packet.text "roundId" = round.id → y.packet.text "phase" ≠ "start-reveal" ∧
        (y.packet.text "phase" = "reveal" → y.packet.text "nodeId" = n) := by
  obtain ⟨e, he, hcommits⟩ :=
    ((tracked_of_run hme hround₀ hrun).sourced round hround).reveals n seed hn hseed
  obtain ⟨pre, post, rfl⟩ := List.append_of_mem he
  refine ⟨pre, e, post, rfl, hcommits, fun y hy hsame => ?_⟩
  have hbefore := (List.pairwise_append.mp htime).2.2 y hy e List.mem_cons_self hcommits.phase
  rw [hcommits.roundId, hcommits.nodeId] at hbefore
  exact hbefore hsame

end Source

/-! ## What honest nodes record -/

section Honest

def commitPacket (sha256 : List UInt8 → List UInt8) (roundId nodeId seed : String) :
    ChainElectionPacket :=
  electionPacket [("phase", "commit"), ("roundId", roundId), ("nodeId", nodeId),
    ("commit", commitTo sha256 roundId nodeId seed)]

def revealPacket (roundId nodeId seed : String) : ChainElectionPacket :=
  electionPacket [("phase", "reveal"), ("roundId", roundId), ("nodeId", nodeId), ("seed", seed)]

theorem text_commitPacket (sha256 : List UInt8 → List UInt8) (roundId nodeId seed : String) :
    Commits roundId nodeId (commitTo sha256 roundId nodeId seed)
      (commitPacket sha256 roundId nodeId seed) := by
  constructor <;>
    simp [commitPacket, electionPacket, ChainElectionPacket.text, Map.ofList, Map.get_insert,
      Value.asStr]

theorem text_revealPacket (roundId nodeId seed : String) :
    (revealPacket roundId nodeId seed).text "phase" = "reveal" ∧
      (revealPacket roundId nodeId seed).text "roundId" = roundId ∧
      (revealPacket roundId nodeId seed).text "nodeId" = nodeId ∧
      (revealPacket roundId nodeId seed).text "seed" = seed := by
  simp [revealPacket, electionPacket, ChainElectionPacket.text, Map.ofList, Map.get_insert,
    Value.asStr]

/-- One round on the chain, as every node sees it: a start, the commit of each node in some order, a
start of the reveals, the reveal of each node in some order, and the end. -/
structure Chain (sha256 : List UInt8 → List UInt8) (roundId : String) (ids : List String)
    (seed : String → String) where
  start : ChainElectionPacket
  commits : List ChainElectionPacket
  startReveal : ChainElectionPacket
  reveals : List ChainElectionPacket
  finalize : ChainElectionPacket
  start_text : start.text "phase" = "start-round" ∧ start.text "roundId" = roundId
  commits_perm : commits.Perm (ids.map fun k => commitPacket sha256 roundId k (seed k))
  startReveal_text :
    startReveal.text "phase" = "start-reveal" ∧ startReveal.text "roundId" = roundId
  reveals_perm : reveals.Perm (ids.map fun k => revealPacket roundId k (seed k))
  finalize_text : finalize.text "phase" = "finalize" ∧ finalize.text "roundId" = roundId

def Chain.revealed {sha256 : List UInt8 → List UInt8} {roundId : String} {ids : List String}
    {seed : String → String} (c : Chain sha256 roundId ids seed) : List ChainElectionPacket :=
  c.start :: c.commits ++ c.startReveal :: c.reveals

def Chain.whole {sha256 : List UInt8 → List UInt8} {roundId : String} {ids : List String}
    {seed : String → String} (c : Chain sha256 roundId ids seed) : List ChainElectionPacket :=
  c.revealed ++ [c.finalize]

def GovernanceState.handleAll (sha256 : List UInt8 → List UInt8) (w : Surroundings) :
    List ChainElectionPacket → GovernanceState → Arith (List ChainElectionPacket × GovernanceState)
  | [], g => pure ([], g)
  | packet :: packets, g => do
      let (_, emitted, g) ← g.handleElection sha256 w packet
      let (emitted', g) ← handleAll sha256 w packets g
      pure (emitted ++ emitted', g)

def honestNode (ledger : StakingState) (maxValidatorCount : Nat) (nodeId : String) :
    GovernanceState where
  nodeId := nodeId
  staking := ledger
  election := { nodeId, maxValidatorCount }

def GovernanceState.recordedSeed (g : GovernanceState) (nodeId : String) : Option String :=
  g.election.round.bind fun round => round.reveals.get nodeId

variable {sha256 : List UInt8 → List UInt8} {roundId : String} {ids : List String}
  {seed : String → String} {w : Surroundings} {k : String} {g : GovernanceState}

theorem handleAll_append {packets packets' : List ChainElectionPacket}
    {emitted emitted' : List ChainElectionPacket} {g g' g'' : GovernanceState}
    (h : g.handleAll sha256 w packets = .ok (emitted, g'))
    (h' : g'.handleAll sha256 w packets' = .ok (emitted', g'')) :
    g.handleAll sha256 w (packets ++ packets') = .ok (emitted ++ emitted', g'') := by
  induction packets generalizing g emitted with
  | nil =>
    cases h
    exact h'
  | cons packet packets ih =>
    simp only [handleAll, bind_eq_ok, pure_eq_ok, Prod.exists, Prod.mk.injEq] at h
    obtain ⟨handled, out, g₁, hpacket, out', g₂, hrest, rfl, rfl⟩ := h
    refine bind_eq_ok.mpr ⟨_, hpacket, bind_eq_ok.mpr ⟨_, ih hrest, ?_⟩⟩
    rw [List.append_assoc]
    rfl

/-- What node `k` has recorded of the round: commits that are those of the nodes, and no seed but its
own. -/
structure Recorded (sha256 : List UInt8 → List UInt8) (roundId : String) (seed : String → String)
    (k : String) (g : GovernanceState) (round : Round) : Prop where
  node : g.nodeId = k ∧ g.election.nodeId = k
  current : g.election.round = some round
  id : round.id = roundId
  commits : ∀ m commit, m ≠ k → round.commits.get m = some commit →
    commit = commitTo sha256 roundId m (seed m)
  reveals : ∀ m, round.reveals.get m = if m = k then some (seed k) else none

theorem Recorded.recordedSeed {round} (h : Recorded sha256 roundId seed k g round) (m : String) :
    g.recordedSeed m = if m = k then some (seed k) else none := by
  rw [GovernanceState.recordedSeed, h.current, Option.bind_some, h.reveals]

theorem commitTo_ne (hsha : Function.Injective sha256) {m} (h : m ≠ k) (roundId seed : String) :
    commitTo sha256 roundId k seed ≠ commitTo sha256 roundId m seed := by
  intro heq
  have htext := utf8_injective (hsha (Hex.encode_injective heq))
  rw [String.append_left_inj, String.append_left_inj, String.append_right_inj] at htext
  exact h htext.symm

theorem recorded_of_start {start}
    (hstart : start.text "phase" = "start-round" ∧ start.text "roundId" = roundId)
    (hround : roundId ≠ "") (hnode : g.nodeId = k ∧ g.election.nodeId = k)
    (hseed : w.mySeed = seed k) :
    ∃ g' round, g.handleElection sha256 w start =
        .ok (true, [commitPacket sha256 roundId k (seed k)], g') ∧
      Recorded sha256 roundId seed k g' round := by
  rw [handleElection_startRound _ _ _ hstart.1, hstart.2, ElectionState.startRound, if_neg hround]
  simp only [ElectionState.electionCommit, hnode.1, hnode.2, hseed, Option.toList_some,
    List.map_cons, List.map_nil]
  refine ⟨_, _, rfl, ⟨rfl, rfl⟩, rfl, rfl, fun m commit hm hget => ?_, fun m => ?_⟩
  · rw [Store.get_put_of_ne hm] at hget
    cases hget
  · rw [Store.get_put]
    rfl

theorem Recorded.commit {round} (h : Recorded sha256 roundId seed k g round) (i : String) :
    ∃ g' round', g.handleElection sha256 w (commitPacket sha256 roundId i (seed i)) =
        .ok (true, [], g') ∧ Recorded sha256 roundId seed k g' round' := by
  have htext := text_commitPacket sha256 roundId i (seed i)
  rw [handleElection_commit _ _ _ htext.phase, htext.roundId, htext.nodeId, htext.commit]
  unfold ElectionState.recordCommit
  simp only [h.current]
  by_cases hrefused : roundId ≠ round.id ∨ i = "" ∨ commitTo sha256 roundId i (seed i) = ""
  · rw [if_pos hrefused]
    exact ⟨_, round, rfl, h.node, h.current, h.id, h.commits, h.reveals⟩
  · rw [if_neg hrefused]
    refine ⟨_, _, rfl, h.node, rfl, h.id, fun m commit hm hget => ?_, h.reveals⟩
    obtain ⟨heq, rfl⟩ | ⟨-, hget⟩ := Store.get_put_eq_some hget
    · rw [heq]
    · exact h.commits m commit hm hget

theorem Recorded.startReveal {round} (h : Recorded sha256 roundId seed k g round) {packet}
    (htext : packet.text "phase" = "start-reveal" ∧ packet.text "roundId" = roundId)
    (hseed : seed k ≠ "") :
    ∃ g' round', g.handleElection sha256 w packet =
        .ok (true, [revealPacket roundId k (seed k)], g') ∧
      Recorded sha256 roundId seed k g' round' := by
  rw [handleElection_startReveal _ _ _ htext.1, htext.2]
  unfold ElectionState.startReveal
  simp only [h.current]
  rw [if_neg (not_not.mpr h.id.symm), h.reveals, h.node.2, h.node.1]
  simp only [Option.filter_some, hseed, ne_eq, not_false_eq_true, decide_true, if_true,
    Option.toList_some, List.map_cons, List.map_nil]
  exact ⟨_, _, rfl, ⟨rfl, rfl⟩, rfl, h.id, h.commits, h.reveals⟩

/-- A node checks a reveal against a commit under its own name, so it takes no other node's. -/
theorem Recorded.reveal (hsha : Function.Injective sha256) {round}
    (h : Recorded sha256 roundId seed k g round) (i : String) :
    ∃ g' round', g.handleElection sha256 w (revealPacket roundId i (seed i)) =
        .ok (true, [], g') ∧ Recorded sha256 roundId seed k g' round' := by
  obtain ⟨hphase, hround, hnode, hseed⟩ := text_revealPacket roundId i (seed i)
  rw [handleElection_reveal _ _ _ hphase, hround, hnode, hseed]
  suffices ∃ round', Recorded sha256 roundId seed k
      { g with election := g.election.recordReveal sha256 roundId i (seed i) } round' by
    obtain ⟨round', hrecorded⟩ := this
    exact ⟨_, round', rfl, hrecorded⟩
  unfold ElectionState.recordReveal
  simp only [h.current, Option.bind_some]
  cases hexpected : round.commits.get i with
  | none => exact ⟨round, h⟩
  | some expected =>
    simp only
    by_cases hempty : expected = ""
    · rw [if_pos hempty]
      exact ⟨round, h⟩
    · rw [if_neg hempty]
      by_cases hmatches : g.election.electionCommit sha256 roundId (seed i) ≠ expected
      · rw [if_pos hmatches]
        exact ⟨round, h⟩
      · rw [if_neg hmatches, if_neg (not_not.mpr h.id.symm)]
        -- the commit matches, so it is the node's own reveal
        have hi : i = k := by
          by_contra hne
          rw [h.commits i expected hne hexpected, ElectionState.electionCommit, h.node.2,
            not_not] at hmatches
          exact commitTo_ne hsha hne roundId (seed i) hmatches
        refine ⟨_, h.node, rfl, h.id, h.commits, fun m => ?_⟩
        rw [Store.get_put, h.reveals, hi]
        split <;> rfl

/-- Packets that keep what is recorded, and to which nothing is answered. -/
theorem Recorded.handleAll (packets : List ChainElectionPacket)
    (hpackets : ∀ packet ∈ packets, ∀ {g : GovernanceState} {round : Round},
      Recorded sha256 roundId seed k g round → ∃ g' round',
        g.handleElection sha256 w packet = .ok (true, [], g') ∧
          Recorded sha256 roundId seed k g' round') {round}
    (h : Recorded sha256 roundId seed k g round) :
    ∃ g' round', g.handleAll sha256 w packets = .ok ([], g') ∧
      Recorded sha256 roundId seed k g' round' := by
  induction packets generalizing g round with
  | nil => exact ⟨g, round, rfl, h⟩
  | cons packet packets ih =>
    obtain ⟨g₁, round₁, hpacket, h₁⟩ := hpackets packet List.mem_cons_self h
    obtain ⟨g₂, round₂, hrest, h₂⟩ :=
      ih (fun packet hmem => hpackets packet (List.mem_cons_of_mem _ hmem)) h₁
    exact ⟨g₂, round₂, bind_eq_ok.mpr ⟨_, hpacket, bind_eq_ok.mpr ⟨_, hrest, rfl⟩⟩, h₂⟩

/-- **What a node records of a round**: it emits its commit and its reveal, and when all reveals are
on the chain it has recorded its own seed and no other. -/
theorem recorded_of_chain (hsha : Function.Injective sha256) (hround : roundId ≠ "")
    (c : Chain sha256 roundId ids seed) (hnode : g.nodeId = k ∧ g.election.nodeId = k)
    (hdraw : w.mySeed = seed k) (hseed : seed k ≠ "") :
    ∃ g' round, g.handleAll sha256 w c.revealed =
        .ok ([commitPacket sha256 roundId k (seed k), revealPacket roundId k (seed k)], g') ∧
      Recorded sha256 roundId seed k g' round := by
  obtain ⟨g₁, round₁, hstart, h₁⟩ := recorded_of_start c.start_text hround hnode hdraw
  obtain ⟨g₂, round₂, hcommits, h₂⟩ := h₁.handleAll (w := w) c.commits
    fun packet hmem _ _ h => by
      obtain ⟨i, -, rfl⟩ := List.mem_map.mp (c.commits_perm.mem_iff.mp hmem)
      exact h.commit i
  obtain ⟨g₃, round₃, hstartReveal, h₃⟩ := h₂.startReveal c.startReveal_text hseed
  obtain ⟨g₄, round₄, hreveals, h₄⟩ := h₃.handleAll (w := w) c.reveals
    fun packet hmem _ _ h => by
      obtain ⟨i, -, rfl⟩ := List.mem_map.mp (c.reveals_perm.mem_iff.mp hmem)
      exact h.reveal hsha i
  have hfirst : g.handleAll sha256 w (c.start :: c.commits) =
      .ok ([commitPacket sha256 roundId k (seed k)], g₂) :=
    bind_eq_ok.mpr ⟨_, hstart, bind_eq_ok.mpr ⟨_, hcommits, rfl⟩⟩
  have hsecond : g₂.handleAll sha256 w (c.startReveal :: c.reveals) =
      .ok ([revealPacket roundId k (seed k)], g₄) :=
    bind_eq_ok.mpr ⟨_, hstartReveal, bind_eq_ok.mpr ⟨_, hreveals, rfl⟩⟩
  exact ⟨g₄, round₄, handleAll_append hfirst hsecond, h₄⟩

/-- The node ends the round with these validators. -/
def Finalizes (sha256 : List UInt8 → List UInt8) (g : GovernanceState) (w : Surroundings)
    (packets : List ChainElectionPacket) (roundId : String) (validators : List String) : Prop :=
  ∃ emitted g' elected, g.handleAll sha256 w packets = .ok (emitted, g') ∧
    g'.election.validatorHistory.get roundId = some elected ∧ elected.validators = validators

/-- **Agreement of an election.** Nodes with equal ledgers that handle one chain of a round emit the
commits and reveals that are on it. That every node records the seed of every node, and that all end
the round with the same validators, holds just when there is but one node. -/
theorem election_agrees_iff (hsha : Function.Injective sha256) (hids : ids.Nodup)
    (hround : roundId ≠ "") (hseeds : ∀ k ∈ ids, seed k ≠ "") (c : Chain sha256 roundId ids seed)
    {surroundings : String → Surroundings} (hdraw : ∀ k, (surroundings k).mySeed = seed k)
    (ledger : StakingState) (count : Nat) :
    (∀ k ∈ ids, ∃ g, (honestNode ledger count k).handleAll sha256 (surroundings k) c.revealed =
      .ok ([commitPacket sha256 roundId k (seed k), revealPacket roundId k (seed k)], g)) ∧
    ((∀ k ∈ ids, ∀ m ∈ ids, ∀ emitted g, (honestNode ledger count k).handleAll sha256
        (surroundings k) c.revealed = .ok (emitted, g) → g.recordedSeed m = some (seed m)) ∧
      (∀ k ∈ ids, ∀ k' ∈ ids, ∀ validators validators',
        Finalizes sha256 (honestNode ledger count k) (surroundings k) c.whole roundId validators →
        Finalizes sha256 (honestNode ledger count k') (surroundings k') c.whole roundId
          validators' → validators = validators') ↔
      ids.length ≤ 1) := by
  have hreached : ∀ k ∈ ids, ∃ g' round, (honestNode ledger count k).handleAll sha256
      (surroundings k) c.revealed =
        .ok ([commitPacket sha256 roundId k (seed k), revealPacket roundId k (seed k)], g') ∧
      Recorded sha256 roundId seed k g' round := fun k hk =>
    recorded_of_chain hsha hround c ⟨rfl, rfl⟩ (hdraw k) (hseeds k hk)
  have hsame : ids.length ≤ 1 → ∀ k ∈ ids, ∀ m ∈ ids, k = m := by
    intro hone k hk m hm
    obtain ⟨i, hi, rfl⟩ := List.mem_iff_getElem.mp hk
    obtain ⟨j, hj, rfl⟩ := List.mem_iff_getElem.mp hm
    obtain rfl : i = j := by omega
    rfl
  refine ⟨fun k hk => ?_, fun hagree => ?_, fun hone => ⟨?_, ?_⟩⟩
  · obtain ⟨g, round, hok, -⟩ := hreached k hk
    exact ⟨g, hok⟩
  · -- a node has recorded no seed but its own, so all nodes are the first one
    by_contra hmany
    rw [not_le] at hmany
    have hne : ids[0] ≠ ids[1] := fun heq =>
      absurd ((List.Nodup.getElem_inj_iff hids).mp heq) (by decide)
    have hfirst := List.getElem_mem (l := ids) (n := 0) (by omega)
    have hsecond := List.getElem_mem hmany
    obtain ⟨g, round, hok, hrecorded⟩ := hreached _ hfirst
    have hseed := hagree.1 _ hfirst _ hsecond _ _ hok
    rw [hrecorded.recordedSeed, if_neg hne.symm] at hseed
    cases hseed
  · intro k hk m hm emitted g hok
    obtain ⟨g', round, hok', hrecorded⟩ := hreached k hk
    rw [hok', Except.ok.injEq, Prod.mk.injEq] at hok
    obtain rfl := hsame hone m hm k hk
    rw [← hok.2, hrecorded.recordedSeed, if_pos rfl]
  · rintro k hk k' hk' validators validators' ⟨_, g, elected, hok, hget, rfl⟩
      ⟨_, g', elected', hok', hget', rfl⟩
    obtain rfl := hsame hone k hk k' hk'
    rw [hok, Except.ok.injEq, Prod.mk.injEq] at hok'
    rw [← hok'.2, hget, Option.some.injEq] at hget'
    rw [hget']

end Honest

/-! ## Samples -/

namespace Sample

/-- SHA-256 of the texts that the samples hash. -/
def digests : List (String × String) :=
  [("r1::n1::s1", "99c5b76125719e92efde2b2db37b27b393af7310b15e43a0bfd4c71df66be99c"),
    ("r1::n2::s2", "dffbdf0281bbf63a0cb724d991f0eaf310f667a0793e7c3837c0d8c7d4d55230"),
    ("r1::n1::s2", "05a4fecb18b2cef35577d81437a497e9bbed69b202e92bb04c842ad50bc15bc8"),
    ("r1::n2::s1", "cdd2f02e19821777ab689e6c65fb938b7df2abcab318ff8b4e56ae44a9d4bebd"),
    ("r1::n1=s1::n1", "0a1538e7de8e0432bed514a21922601c70304d0b0e96a7a6f3fa93280f70b52e"),
    ("r1::n1=s1::n2", "29645bbca13d2a398cfa89a861a75b450922d3a9b42b0e0f7e847f9967c66e32"),
    ("r1::n2=s2::n1", "e858d5617f85fbd461c3170a6a70a93b4ca60d083ceafb76746ea1181776e9ea"),
    ("r1::n2=s2::n2", "5cdcfba73dc2d2120b70ce807e1fbfd7d288feae1020e965b2add6e04e765fb4")]

/-- An injective function that is SHA-256 on the texts of the samples. -/
def sha256 (bytes : List UInt8) : List UInt8 :=
  match digests.find? fun e => utf8 e.1 = bytes with
  | some e => (Hex.decode (utf8 e.2)).getD []
  | none => List.replicate 33 0 ++ bytes

theorem digests_inj : ∀ a ∈ digests, ∀ b ∈ digests,
    (Hex.decode (utf8 a.2)).getD [] = (Hex.decode (utf8 b.2)).getD [] → a = b := by
  decide +kernel

theorem length_digest : ∀ a ∈ digests, ((Hex.decode (utf8 a.2)).getD []).length = 32 := by
  decide +kernel

theorem sha256_injective : Function.Injective sha256 := by
  intro a b hab
  unfold sha256 at hab
  split at hab
  · next e he =>
    have hmem := List.mem_of_find?_eq_some he
    have hsome := List.find?_some he
    split at hab
    · next e' he' =>
      have hmem' := List.mem_of_find?_eq_some he'
      have hsome' := List.find?_some he'
      rw [decide_eq_true_eq] at hsome hsome'
      rw [← hsome, ← hsome', digests_inj e hmem e' hmem' hab]
    · have hlength := congrArg List.length hab
      rw [length_digest e hmem, List.length_append, List.length_replicate] at hlength
      omega
  · split at hab
    · next e' he' =>
      have hlength := congrArg List.length hab
      rw [length_digest e' (List.mem_of_find?_eq_some he'), List.length_append,
        List.length_replicate] at hlength
      omega
    · exact List.append_cancel_left hab

def seedOf (nodeId : String) : String := if nodeId = "n1" then "s1" else "s2"

def surroundings (nodeId : String) : Surroundings := ⟨1000, seedOf nodeId, ["n1", "n2"]⟩

def phase (name : String) : ChainElectionPacket :=
  electionPacket [("phase", name), ("roundId", "r1")]

/-- The round of some nodes, with their packets in the order of the nodes. -/
def chain (ids : List String) : Chain sha256 "r1" ids seedOf where
  start := phase "start-round"
  commits := ids.map fun k => commitPacket sha256 "r1" k (seedOf k)
  startReveal := phase "start-reveal"
  reveals := ids.map fun k => revealPacket "r1" k (seedOf k)
  finalize := phase "finalize"
  start_text := by decide
  commits_perm := .refl _
  startReveal_text := by decide
  reveals_perm := .refl _
  finalize_text := by decide

/-- The ledger after a bond of each of the two nodes. -/
def ledger : StakingState :=
  let bonds : Arith StakingState := do
    let (_, s) ← StakingState.new.handleStake ⟨"n1", "o1", "bond", 5000, 1, 0⟩ 1000
    let (_, s) ← s.handleStake ⟨"n2", "o2", "bond", 9000, 1, 0⟩ 1000
    pure s
  bonds.toOption.getD .new

end Sample

open Sample

/-- A node by itself agrees with itself. -/
theorem election_agrees_of_one :
    ∃ emitted g, (honestNode ledger 50 "n1").handleAll sha256
        (surroundings "n1") (chain ["n1"]).revealed = .ok (emitted, g) ∧
      g.recordedSeed "n1" = some "s1" := by
  have hagrees := election_agrees_iff sha256_injective (List.nodup_singleton "n1")
    (by decide) (by decide) (chain ["n1"])
    (fun k => (rfl : (surroundings k).mySeed = seedOf k)) ledger 50
  obtain ⟨g, hok⟩ := hagrees.1 "n1" (by decide)
  exact ⟨_, g, hok, (hagrees.2.mpr (by decide)).1 "n1" (by decide) "n1" (by decide) _ _ hok⟩

/-- Two nodes: neither records the other's seed, and each elects itself. -/
theorem two_nodes_disagree :
    Function.Injective sha256 ∧
      (∃ emitted g, (honestNode ledger 50 "n1").handleAll sha256
          (surroundings "n1") (chain ["n1", "n2"]).revealed = .ok (emitted, g) ∧
        g.recordedSeed "n2" = none) ∧
      Finalizes sha256 (honestNode ledger 50 "n1") (surroundings "n1")
        (chain ["n1", "n2"]).whole "r1" ["n1"] ∧
      Finalizes sha256 (honestNode ledger 50 "n2") (surroundings "n2")
        (chain ["n1", "n2"]).whole "r1" ["n2"] := by
  have hrecorded : (((honestNode ledger 50 "n1").handleAll sha256
      (surroundings "n1") (chain ["n1", "n2"]).revealed).toOption.any
        fun r => r.2.recordedSeed "n2" = none) = true := by
    decide +kernel
  have helected : ∀ k ∈ ["n1", "n2"], (((honestNode ledger 50 k).handleAll sha256
      (surroundings k) (chain ["n1", "n2"]).whole).toOption.any fun r =>
        (r.2.election.validatorHistory.get "r1").any fun e => e.validators = [k]) = true := by
    decide +kernel
  have hfinalizes : ∀ k ∈ ["n1", "n2"], Finalizes sha256 (honestNode ledger 50 k)
      (surroundings k) (chain ["n1", "n2"]).whole "r1" [k] := by
    intro k hk
    obtain ⟨⟨emitted, g⟩, hok, htest⟩ := exists_of_any_toOption (helected k hk)
    obtain ⟨elected, hget, hvalidators⟩ := (Option.any_eq_true _ _).mp htest
    exact ⟨emitted, g, elected, hok, hget, of_decide_eq_true hvalidators⟩
  obtain ⟨⟨emitted, g⟩, hok, htest⟩ := exists_of_any_toOption hrecorded
  exact ⟨sha256_injective, ⟨emitted, g, hok, of_decide_eq_true htest⟩,
    hfinalizes "n1" (by decide), hfinalizes "n2" (by decide)⟩

/-! ### Late commits -/

def GovernanceState.afterEvents (sha256 : List UInt8 → List UInt8) (g : GovernanceState)
    (es : List ElectionEvent) : Arith GovernanceState :=
  es.foldlM (fun g e => do
    let (_, _, g) ← g.handleElection sha256 e.surroundings e.packet
    pure g) g

theorem run_afterEvents {sha256 es g g'} (h : g.afterEvents sha256 es = .ok g') :
    Run (ElectionStep sha256) g es g' := by
  unfold afterEvents at h
  induction es generalizing g with
  | nil =>
    obtain rfl := pure_eq_ok.mp h
    exact .nil
  | cons e es ih =>
    simp only [List.foldlM_cons, bind_eq_ok, pure_eq_ok] at h
    obtain ⟨_, ⟨⟨handled, emitted, g₁⟩, hstep, rfl⟩, hrest⟩ := h
    exact (Run.single ⟨handled, emitted, hstep⟩).append (ih hrest)

namespace Sample

/-- The packets as node `n1` handles them. -/
def events (packets : List ChainElectionPacket) : List ElectionEvent :=
  packets.map fun packet => ⟨packet, surroundings "n1"⟩

/-- A commit of `n2` to the seed `s2`, as node `n1` will check it. -/
def commitOfOther : ChainElectionPacket :=
  electionPacket [("phase", "commit"), ("roundId", "r1"), ("nodeId", "n2"),
    ("commit", commitTo sha256 "r1" "n1" "s2")]

def committedFirst : List ElectionEvent :=
  events [phase "start-round", commitOfOther, phase "start-reveal", revealPacket "r1" "n2" "s2"]

def committedLast : List ElectionEvent :=
  events [phase "start-round", phase "start-reveal", commitOfOther, revealPacket "r1" "n2" "s2"]

end Sample

theorem exists_recorded (es : List ElectionEvent)
    (h : (((new "n1").afterEvents sha256 es).toOption.any fun g =>
      g.election.round.any fun round =>
        round.id = "r1" ∧ round.reveals.get "n2" = some "s2") = true) :
    ∃ g round, Run (ElectionStep sha256) (.new "n1") es g ∧
      g.election.round = some round ∧ round.id = "r1" ∧ round.reveals.get "n2" = some "s2" := by
  obtain ⟨g, hok, htest⟩ := exists_of_any_toOption h
  obtain ⟨round, hround, htest⟩ := (Option.any_eq_true _ _).mp htest
  obtain ⟨hid, hseed⟩ := of_decide_eq_true htest
  exact ⟨g, round, run_afterEvents hok, hround, hid, hseed⟩

theorem committed_of_committedFirst :
    ∃ pre e post, committedFirst = pre ++ e :: post ∧
      Commits "r1" "n2" (commitTo sha256 "r1" "n1" "s2") e.packet ∧
      ∀ y ∈ pre, y.packet.text "phase" ≠ "start-reveal" := by
  obtain ⟨g, round, hrun, hround, hid, hseed⟩ :=
    exists_recorded committedFirst (by decide +kernel)
  have htime : InTime committedFirst := by
    unfold InTime
    decide +kernel
  obtain ⟨pre, e, post, heq, hcommits, hbefore⟩ :=
    committed_of_run rfl rfl hrun htime hround (by decide) hseed
  rw [hid] at hcommits hbefore
  have hsame : ∀ y ∈ committedFirst, y.packet.text "roundId" = "r1" := by decide +kernel
  exact ⟨pre, e, post, heq, hcommits, fun y hy =>
    (hbefore y hy (hsame y (heq ▸ List.mem_append_left _ hy))).1⟩

/-- A commit that comes after the start of the reveals is taken, and so is the seed it fits. -/
theorem late_commit_recorded :
    (∃ g round, Run (ElectionStep sha256) (.new "n1") committedLast g ∧
      g.election.round = some round ∧ round.id = "r1" ∧ round.reveals.get "n2" = some "s2") ∧
    ¬ ∃ pre e post, committedLast = pre ++ e :: post ∧
      Commits "r1" "n2" (commitTo sha256 "r1" "n1" "s2") e.packet ∧
      ∀ y ∈ pre, y.packet.text "roundId" = "r1" → y.packet.text "phase" ≠ "start-reveal" := by
  refine ⟨exists_recorded committedLast (by decide +kernel), ?_⟩
  rintro ⟨pre, e, post, heq, hcommits, hbefore⟩
  have hstart : ¬ (phase "start-round").text "phase" = "commit" := by decide
  have hreveal : (phase "start-reveal").text "phase" = "start-reveal" ∧
      (phase "start-reveal").text "roundId" = "r1" := by decide
  -- the commit is neither of the first two packets, and the second starts the reveals
  match pre, heq, hbefore with
  | [], heq, _ =>
    obtain ⟨rfl, -⟩ := List.cons.inj heq
    exact hstart hcommits.phase
  | [_], heq, _ =>
    obtain ⟨-, heq⟩ := List.cons.inj heq
    obtain ⟨rfl, -⟩ := List.cons.inj heq
    exact absurd (hreveal.1.symm.trans hcommits.phase) (by decide)
  | _ :: b :: _, heq, hbefore =>
    obtain ⟨-, heq⟩ := List.cons.inj heq
    obtain ⟨rfl, -⟩ := List.cons.inj heq
    exact hbefore _ (List.mem_cons_of_mem _ List.mem_cons_self) hreveal.2 hreveal.1

end Aseman.Governance
