import HyperbyteDb.ShardWriteBatches
import HyperbyteDb.ShardedIngestConservation

/-!
# What a synchronous acknowledgement is worth

A synchronous write waits for a majority of the targets that are serving when it is dispatched,
and learners are among them.
-/

namespace HyperbyteDb

open PeerIngestionService (secondNode)

def OwedReplica (region : ShardRegion) (selfId : UInt64) (membership : ClusterMembership)
    (peer : UInt64) : Prop :=
  peer ∈ region.peers ∧ peer ≠ selfId ∧
    ∃ node, membership.getNode peer = some node ∧ node.state ≠ .leaving

def ReachesReplicas (client : PeerClient) (membership : ClusterMembership)
    (region : ShardRegion) (round : OutboundRound) (batch : OutboundReplicationBatch) : Prop :=
  ∀ peer, OwedReplica region client.nodeId membership peer →
    (∃ targets, batch.targetNodeIds = some targets ∧ peer ∈ targets) ∨
      peer ∈ client.hintedPeers round batch

def ReplicasServing (region : ShardRegion) (selfId : UInt64)
    (membership : ClusterMembership) : Prop :=
  ∀ peer, OwedReplica region selfId membership peer →
    region.isServing = true ∧ ∃ node, membership.getNode peer = some node ∧
      (node.state = .active ∨ node.state = .decommissioning)

variable {membership : ClusterMembership} {peer : UInt64}

theorem isServingNode_iff :
    membership.isServingNode peer = true ↔ ∃ node, membership.getNode peer = some node ∧
      (node.state = .active ∨ node.state = .decommissioning) := by
  unfold ClusterMembership.isServingNode
  cases membership.getNode peer <;> simp

variable {client : PeerClient} {round : OutboundRound} {batch : OutboundReplicationBatch}

/-- Hints are made for targets only. -/
theorem mem_of_mem_hintedPeers
    (keyed : round.membership.Keyed) {targets : List UInt64}
    (named : batch.targetNodeIds = some targets)
    (hinted : peer ∈ client.hintedPeers round batch) : peer ∈ targets := by
  have resolved := client.hintedPeers_subset round batch hinted
  rw [named, keyed.resolve_some] at resolved
  exact List.mem_of_mem_filter resolved

theorem reachesReplicas_iff
    {region : ShardRegion} (keyed : round.membership.Keyed) (named : batch.targetNodeIds =
      some (activeRegionPeerTargets region client.nodeId membership)) :
    ReachesReplicas client membership region round batch ↔
      ReplicasServing region client.nodeId membership := by
  constructor
  · intro reaches peer owed
    have target : peer ∈ activeRegionPeerTargets region client.nodeId membership := by
      rcases reaches peer owed with ⟨targets, sent, member⟩ | hinted
      · rw [named] at sent
        cases sent
        exact member
      · exact mem_of_mem_hintedPeers keyed named hinted
    obtain ⟨serving, -, -, up⟩ := mem_activeRegionPeerTargets.mp target
    exact ⟨serving, isServingNode_iff.mp up⟩
  · intro serving peer owed
    obtain ⟨isServing, up⟩ := serving peer owed
    exact Or.inl ⟨_, named, mem_activeRegionPeerTargets.mpr
      ⟨isServing, owed.1, owed.2.1, isServingNode_iff.mpr up⟩⟩

def restartingFirst : ClusterMembership :=
  (twoNodes.setState 1 .syncing).1

def secondClient : PeerClient := ⟨2, true⟩

def secondRegion : ShardRegion :=
  { soleRegion 2 ⟨0, 1⟩ with start := 100, peers := [1, 2], primary := 2 }

/-- The queue is full and every hint can be stored. -/
def fullRound (membership : ClusterMembership) : OutboundRound :=
  ⟨.full, membership, fun _ => false, fun _ => true⟩

theorem keyed_twoNodes : twoNodes.Keyed := by
  intro nodeId node found
  simp only [ClusterMembership.getNode, twoNodes, Std.ExtTreeMap.getElem?_insert] at found
  split at found
  next same =>
    cases found
    exact Std.compare_eq_iff_eq.mp same
  next =>
    split at found
    next same =>
      cases found
      exact Std.compare_eq_iff_eq.mp same
    next => simp at found

/-- On both write paths the peers that are owed a write are reached exactly if all of
them, and the region, are serving when it is accepted. -/
theorem shardedWrite_reachesReplicas_iff (client : PeerClient)
    (membership : ClusterMembership) (region : ShardRegion) (round : OutboundRound)
    (keyed : round.membership.Keyed) :
    (∀ request walSeq, ReachesReplicas client membership region round
        (replicateForwardedPart client.nodeId membership request region walSeq) ↔
      ReplicasServing region client.nodeId membership) ∧
    (∀ (ingestion : PeerIngestionService) db rp precision map bucket batch (walSeq : Nat),
      ingestion.nodeId = client.nodeId → regionById map bucket.1 = some region →
      ingestion.localReplica db rp precision map membership bucket = .ok batch →
      (ReachesReplicas client membership region round { batch with walSeq } ↔
        ReplicasServing region client.nodeId membership)) := by
  refine ⟨fun request walSeq => reachesReplicas_iff keyed rfl, ?_⟩
  intro ingestion db rp precision map bucket batch walSeq sameNode found made
  refine reachesReplicas_iff keyed ?_
  unfold PeerIngestionService.localReplica at made
  rw [found] at made
  dsimp only at made
  split at made
  next => cases made
  next =>
    cases made
    rw [← sameNode]

theorem replicasServing_twoNodes : ReplicasServing secondRegion 2 twoNodes := by
  rintro peer ⟨member, apart, -⟩
  simp only [secondRegion, List.mem_cons, List.not_mem_nil, or_false] at member
  rcases member with rfl | rfl
  · exact ⟨rfl, isServingNode_iff.mp (by decide +kernel)⟩
  · exact absurd rfl apart

/-- With both nodes up, a forwarded part and a local bucket reach the first node. -/
theorem secondRegion_reachesReplicas :
    ReachesReplicas secondClient twoNodes secondRegion (fullRound twoNodes)
        (replicateForwardedPart 2 twoNodes ⟨"db", "autogen", none, ⟨0, 1⟩, 2, [2]⟩
          secondRegion 1) ∧
      ∃ batch, secondNode.localReplica "db" "autogen" none twoRegions twoNodes
          (2, [bytePoint 2]) = .ok batch ∧
        ReachesReplicas secondClient twoNodes secondRegion (fullRound twoNodes)
          { batch with walSeq := 1 } := by
  have both := shardedWrite_reachesReplicas_iff secondClient twoNodes secondRegion
    (fullRound twoNodes) keyed_twoNodes
  have found : regionById twoRegions 2 = some secondRegion := by
    decide +kernel
  have made : ∃ batch, secondNode.localReplica "db" "autogen" none twoRegions twoNodes
      (2, [bytePoint 2]) = .ok batch := by
    exact ⟨_, rfl⟩
  obtain ⟨batch, made⟩ := made
  exact ⟨(both.1 _ 1).mpr replicasServing_twoNodes, batch, made,
    (both.2 secondNode "db" "autogen" none twoRegions (2, [bytePoint 2]) batch 1 rfl found
      made).mpr replicasServing_twoNodes⟩

/-- While the first node syncs after a restart, it is neither a target of a write nor
gets a hint for it, although hints can be stored. -/
theorem restartingReplica_not_reached :
    ¬ReachesReplicas secondClient restartingFirst secondRegion (fullRound restartingFirst)
      (replicateForwardedPart 2 restartingFirst ⟨"db", "autogen", none, ⟨0, 1⟩, 2, [2]⟩
        secondRegion 1) := by
  have known : ∃ node, restartingFirst.getNode 1 = some node ∧ node.state ≠ .leaving := by
    decide +kernel
  intro reaches
  have none_ : activeRegionPeerTargets secondRegion 2 restartingFirst = [] := by
    decide +kernel
  rcases reaches 1 ⟨by decide, by decide, known⟩ with ⟨targets, named, member⟩ | hinted
  · cases named
    cases member
  · have subset := secondClient.hintedPeers_subset _ _ hinted
    simp [replicateForwardedPart, none_, resolveReplicationPeers] at subset

/-! ## What a synchronous acknowledgement is worth -/

def ShardRegion.fullPeers (region : ShardRegion) : List UInt64 :=
  region.peers.filter (!region.stagingPeers.contains ·)

theorem length_filter_ne_add {α : Type} [DecidableEq α] (values : List α) (value : α)
    (keep : α → Bool) : (values.filter fun other => other = value || keep other).length =
      values.count value + (values.filter fun other => other ≠ value && keep other).length := by
  induction values with
  | nil => rfl
  | cons head rest ih =>
    by_cases same : head = value
    · subst same
      simp [ih]
      omega
    · by_cases kept : keep head = true
      · simp [same, kept, ih]
        omega
      · simp [same, kept, ih]

/-- Acknowledgements that were counted have arrived. -/
theorem awaitAcks_le (required acks : Nat) (arrivals : List (UInt64 × Bool)) :
    awaitAcks required acks arrivals ≤ acks + (arrivals.filter (·.2)).length := by
  induction arrivals generalizing acks with
  | nil => simp [awaitAcks]
  | cons arrival rest ih =>
    obtain ⟨peer, acked⟩ := arrival
    unfold awaitAcks
    split
    · omega
    · cases acked with
      | true =>
        have later := ih (acks + 1)
        simp only [if_true, List.filter_cons, List.length_cons] at later ⊢
        omega
      | false => simpa using ih acks

theorem le_awaitAcks {required acks : Nat} {peers : List UInt64}
    (enough : required ≤ acks + peers.length) :
    required ≤ awaitAcks required acks (peers.map (·, true)) := by
  induction peers generalizing acks with
  | nil => simpa [awaitAcks] using enough
  | cons peer rest ih =>
    rw [List.map_cons, awaitAcks]
    split
    · assumption
    · simp only [if_true]
      exact ih (by rw [List.length_cons] at enough; omega)

def ackedPeers (arrivals : List (UInt64 × Bool)) : List UInt64 :=
  (arrivals.filter (·.2)).map Prod.fst

theorem mem_ackedPeers {arrivals : List (UInt64 × Bool)} :
    peer ∈ ackedPeers arrivals ↔ (peer, true) ∈ arrivals := by
  simp [ackedPeers]

/-- What one synchronous write of a region meets: the membership that its targets are
chosen by and the one that they are looked up in. -/
structure SyncWrite where
  config : ReplicationConfig
  selfId : UInt64
  region : ShardRegion
  chosenBy : ClusterMembership
  membership : ClusterMembership

namespace SyncWrite

variable (write : SyncWrite)

def targets : List UInt64 :=
  activeRegionPeerTargets write.region write.selfId write.chosenBy

def contacted : List UInt64 :=
  (resolveReplicationPeers write.membership write.selfId (some write.targets)).map Prod.fst

def requiredAcks : Nat :=
  min (SyncQuorumMinAcks.majority.resolve write.targets.length) write.contacted.length

def contactedLearners : List UInt64 :=
  write.contacted.filter (write.region.stagingPeers.contains ·)

def contactedFull : List UInt64 :=
  write.contacted.filter (!write.region.stagingPeers.contains ·)

/-- Acknowledgements from learners first, and no more than are waited for. -/
def learnersFirst : List UInt64 :=
  (write.contactedLearners ++ write.contactedFull).take write.requiredAcks

/-- Full peers that have the batch in their logs: the primary and those that have
acknowledged. -/
def appendedPeers (arrivals : List (UInt64 × Bool)) : List UInt64 :=
  write.region.fullPeers.filter fun peer => peer = write.selfId || arrivals.contains (peer, true)

/-- Whatever the peers answer, each at most once for each time that it was contacted,
a write that returns is on a majority of the full peers. -/
def QuorumHolds : Prop :=
  ∀ batch queued arrivals, batch.targetNodeIds = some write.targets →
    List.Subperm (arrivals.map Prod.fst) write.contacted →
    dispatchOutboundReplication write.config write.membership write.selfId queued arrivals
      batch = .ok () →
    write.region.fullPeers.length / 2 + 1 ≤ (write.appendedPeers arrivals).length

/-- The primary and the acknowledgements that cannot be those of learners make a
majority of the full peers. -/
def EnoughFullAcks : Prop :=
  write.region.fullPeers.length / 2 + 1 ≤
    write.region.fullPeers.count write.selfId +
      (write.requiredAcks - write.contactedLearners.length)

instance : Decidable write.EnoughFullAcks :=
  inferInstanceAs (Decidable (_ ≤ _))

variable {write}

theorem targets_sublist : write.targets.Sublist (write.region.peers.filter (· ≠ write.selfId)) := by
  unfold targets activeRegionPeerTargets resolveRegionPeers
  split
  · have same : write.region.peers.filter (· != write.selfId) =
        write.region.peers.filter (· ≠ write.selfId) :=
      List.filter_congr fun peer _ => by simp [bne, beq_eq_decide]
    rw [← same]
    exact List.filter_sublist.filter _
  · exact List.nil_sublist _

theorem contacted_sublist (keyed : write.membership.Keyed) :
    write.contacted.Sublist (write.region.peers.filter (· ≠ write.selfId)) := by
  rw [contacted, keyed.resolve_some]
  exact List.filter_sublist.trans targets_sublist

theorem filter_fullPeers : (write.region.peers.filter (· ≠ write.selfId)).filter
        (!write.region.stagingPeers.contains ·) =
      write.region.fullPeers.filter (· ≠ write.selfId) := by
  rw [ShardRegion.fullPeers, List.filter_filter, List.filter_filter]
  exact List.filter_congr fun peer _ => Bool.and_comm _ _

section Majority

variable (synchronous : write.config.mode = .syncQuorum)
  (majority : write.config.minAcks = .majority)

include synchronous majority

/-- A write returns exactly if it gets the acknowledgements that it waits for. -/
theorem dispatch_eq_ok_iff
    (named : batch.targetNodeIds = some write.targets)
    (queued : Except HyperbytedbError Unit) (arrivals : List (UInt64 × Bool)) :
    dispatchOutboundReplication write.config write.membership write.selfId queued arrivals
        batch = .ok () ↔ write.requiredAcks ≤ awaitAcks write.requiredAcks 0 arrivals := by
  have length : (resolveReplicationPeers write.membership write.selfId
      (some write.targets)).length = write.contacted.length := by
    rw [contacted, List.length_map]
  have required : min (SyncQuorumMinAcks.majority.resolve write.targets.length)
      write.contacted.length = write.requiredAcks := rfl
  simp only [dispatchOutboundReplication, synchronous, majority, named, replicateWriteSync,
    length, required]
  by_cases none_ : write.requiredAcks = 0
  · simp [none_]
  · rw [if_neg none_]
    split <;> simp_all

theorem quorumHolds_of_enough (keyed : write.membership.Keyed)
    (enough : write.EnoughFullAcks) : write.QuorumHolds := by
  intro batch queued arrivals named once returned
  have counted := (dispatch_eq_ok_iff synchronous majority named queued arrivals).mp returned
  have arrived := awaitAcks_le write.requiredAcks 0 arrivals
  have ackedLength : (ackedPeers arrivals).length = (arrivals.filter (·.2)).length :=
    List.length_map _
  have ackedOnce : List.Subperm (ackedPeers arrivals) write.contacted :=
    ((List.filter_sublist.map Prod.fst).subperm).trans once
  -- Learners give at most as many acknowledgements as there are of them.
  have split : (ackedPeers arrivals).length = _ :=
    List.length_eq_length_filter_add (write.region.stagingPeers.contains ·)
  have learners : ((ackedPeers arrivals).filter
      (write.region.stagingPeers.contains ·)).length ≤ write.contactedLearners.length :=
    (ackedOnce.filter _).length_le
  -- Every other one is that of a full peer.
  have others : ((ackedPeers arrivals).filter
      (!write.region.stagingPeers.contains ·)).length ≤
        (write.region.fullPeers.filter fun peer =>
          peer ≠ write.selfId && arrivals.contains (peer, true)).length := by
    have among := ((ackedOnce.trans (contacted_sublist keyed).subperm).filter
      (!write.region.stagingPeers.contains ·)).filter fun peer => arrivals.contains (peer, true)
    rw [filter_fullPeers, List.filter_eq_self.mpr, List.filter_filter] at among
    · refine among.length_le.trans (le_of_eq (congrArg _ ?_))
      exact List.filter_congr fun peer _ => Bool.and_comm _ _
    · intro peer member
      simpa using mem_ackedPeers.mp (List.mem_of_mem_filter member)
  have appended := length_filter_ne_add write.region.fullPeers write.selfId
    fun peer => arrivals.contains (peer, true)
  unfold EnoughFullAcks at enough
  unfold appendedPeers
  omega

theorem enough_of_quorumHolds (distinct : write.region.peers.Nodup)
    (holds : write.QuorumHolds) : write.EnoughFullAcks := by
  have perm : (write.contactedLearners ++ write.contactedFull).Perm write.contacted :=
    List.filter_append_perm _ _
  have enoughPeers : write.learnersFirst.length = write.requiredAcks := by
    rw [learnersFirst, List.length_take, perm.length_eq]
    exact Nat.min_eq_left (Nat.min_le_right _ _)
  have named : (⟨"", "", none, [], 0, some write.targets, none⟩ :
      OutboundReplicationBatch).targetNodeIds = some write.targets := rfl
  have returned := (dispatch_eq_ok_iff synchronous majority named (.ok ())
    (write.learnersFirst.map (·, true))).mpr (le_awaitAcks (by omega))
  have once : List.Subperm ((write.learnersFirst.map (·, true)).map Prod.fst)
      write.contacted := by
    have ids : (write.learnersFirst.map (·, true)).map Prod.fst = write.learnersFirst := by
      simp [Function.comp_def]
    rw [ids]
    exact (List.take_sublist _ _).subperm.trans perm.subperm
  have quorum := holds _ _ _ named once returned
  have appended := length_filter_ne_add write.region.fullPeers write.selfId
    fun peer => (write.learnersFirst.map (·, true)).contains (peer, true)
  have subset : (write.region.fullPeers.filter fun peer => peer ≠ write.selfId &&
      (write.learnersFirst.map (·, true)).contains (peer, true)) ⊆
        write.contactedFull.take (write.requiredAcks - write.contactedLearners.length) := by
    intro peer member
    obtain ⟨isFull, isAcked⟩ := List.mem_filter.mp member
    have notLearner := (List.mem_filter.mp isFull).2
    have inAcked : peer ∈ write.learnersFirst := by
      simpa using (Bool.and_eq_true_iff.mp isAcked).2
    rw [learnersFirst, List.take_append] at inAcked
    rcases List.mem_append.mp inAcked with learner | full
    · have isLearner := (List.mem_filter.mp (List.mem_of_mem_take learner)).2
      rw [isLearner] at notLearner
      cases notLearner
    · exact full
  have nodup := (distinct.filter (!write.region.stagingPeers.contains ·)).filter
    fun peer => peer ≠ write.selfId && (write.learnersFirst.map (·, true)).contains (peer, true)
  have few := (List.subperm_of_subset nodup subset).length_le
  rw [List.length_take] at few
  unfold appendedPeers at quorum
  unfold EnoughFullAcks
  unfold ShardRegion.fullPeers at *
  omega

end Majority

end SyncWrite

def syncedPair (second : NodeState) (learners : List UInt64) : SyncWrite where
  config := { mode := .syncQuorum }
  selfId := 1
  region := { soleRegion 1 ⟨0, 1⟩ with peers := [1, 2], stagingPeers := learners }
  chosenBy := (twoNodes.setState 2 second).1
  membership := (twoNodes.setState 2 second).1

/-- The same with the second node as the primary, and both up. -/
def servingPair : SyncWrite where
  config := { mode := .syncQuorum }
  selfId := 2
  region := secondRegion
  chosenBy := twoNodes
  membership := twoNodes

def learningTrio : SyncWrite where
  config := { mode := .syncQuorum }
  selfId := 1
  region := { soleRegion 1 ⟨0, 1⟩ with peers := [1, 2, 3], stagingPeers := [3] }
  chosenBy := twoNodes.addNode
    { nodeId := 3, addr := "n3", state := .active, joinedAt := 0, lastHeartbeat := 0 }
  membership := twoNodes.addNode
    { nodeId := 3, addr := "n3", state := .active, joinedAt := 0, lastHeartbeat := 0 }

/-- A synchronous majority write that returns is on a majority of the full peers,
whatever the peers answer, if the primary and the acknowledgements beyond those of
learners make one; with distinct peers, only then. -/
theorem syncWrite_quorumHolds (write : SyncWrite) (synchronous : write.config.mode = .syncQuorum)
    (majority : write.config.minAcks = .majority) (keyed : write.membership.Keyed) :
    (write.EnoughFullAcks → write.QuorumHolds) ∧
      (write.region.peers.Nodup → write.QuorumHolds → write.EnoughFullAcks) :=
  ⟨SyncWrite.quorumHolds_of_enough synchronous majority keyed,
    SyncWrite.enough_of_quorumHolds synchronous majority⟩

/-- Both peers are up, so a write that returns is on both. -/
theorem servingPair_quorumHolds : servingPair.QuorumHolds ∧ servingPair.EnoughFullAcks := by
  have both := syncWrite_quorumHolds servingPair rfl rfl keyed_twoNodes
  have holds := both.1 (by decide +kernel)
  exact ⟨holds, both.2 (by decide) holds⟩

/-- With the other peer syncing a write returns at once, on one of two full peers; and
next to a learner the learner's acknowledgement alone lets it return. -/
theorem downPeer_not_quorumHolds :
    ¬(syncedPair .syncing []).QuorumHolds ∧ ¬learningTrio.QuorumHolds := by
  constructor
  · intro holds
    have quorum := holds ⟨"db", "autogen", none, [], 1, some [], some 1⟩ (.ok ()) []
      (by decide +kernel) (List.nil_subperm) (by rfl)
    exact absurd quorum (by decide +kernel)
  · intro holds
    have quorum := holds ⟨"db", "autogen", none, [], 1, some [2, 3], some 1⟩ (.ok ())
      [(3, true)] (by decide +kernel) (by decide) (by rfl)
    exact absurd quorum (by decide +kernel)

end HyperbyteDb
