import HyperbyteDb.FactTableRuns

/-!
# Truncation and acknowledgements

Without sharding, the log is truncated up to the least acknowledgement of the peers.
-/

namespace HyperbyteDb

open FlushService GuardedRuns List

/-- A node with a replication log, without sharding, that leaves no stale peer out. -/
structure BarrierNode where
  nodeId : UInt64
  heartbeatIntervalSecs : UInt64
  heartbeatMissThreshold : UInt64

structure BarrierWorld where
  seq : Nat := 0
  log : List (Nat × UInt64) := []
  cursor : Nat := 0
  lastLocalWalSeq : Nat := 0
  walAcks : Std.ExtTreeMap UInt64 Nat := ∅
  /-- The batches of this node that a peer has answered with success. -/
  acknowledged : List (UInt64 × Nat) := []

inductive BarrierEvent where
  | append (origin : UInt64)
  /-- A peer answers for the batch appended under `seq`, with a number or without one; the
  number may fail to be stored. -/
  | answer (peerId : UInt64) (seq : Nat) (ackSeq : Option Nat) (stored : Bool)
  /-- One chunk is flushed, while the acknowledgements of some peers cannot be read. -/
  | flush (count : Nat) (anyFailed : Bool) (membership : Option ClusterMembership)
      (unreadable : List UInt64) (now : Int64)

namespace BarrierNode

variable (node : BarrierNode)

def policy : TruncatePolicy where
  shardingEnabled := false
  shardedWalRetentionBytes := 0
  replicated := true
  heartbeatIntervalSecs := node.heartbeatIntervalSecs
  heartbeatMissThreshold := node.heartbeatMissThreshold
  truncateStalePeerMultiplier := 0

def isLocal (origin : UInt64) : Bool :=
  origin = node.nodeId || (0 < node.nodeId && origin = 0)

def noteLocal (last : Nat) (seen : List (Nat × UInt64)) : Nat :=
  seen.foldl (fun last item => if node.isLocal item.2 then max last item.1 else last) last

/-- Acknowledgements only go up. -/
def setWalAck (walAcks : Std.ExtTreeMap UInt64 Nat) (peerId : UInt64) (seq : Nat) :
    Std.ExtTreeMap UInt64 Nat :=
  if seq ≤ walAcks.getD peerId 0 then walAcks else walAcks.insert peerId seq

variable (world : BarrierWorld)

def nextChunk (count : Nat) : List (Nat × UInt64) :=
  (world.log.filter (world.cursor < ·.1)).take (min count walReadChunk)

def view (membership : Option ClusterMembership)
    (unreadable : List UInt64) (now : Int64) : PeerView where
  membership := membership
  walAck peer := if peer ∈ unreadable then none else some (world.walAcks.getD peer 0)
  now := now

def flushChunk (chunk : List (Nat × UInt64)) (anyFailed : Bool) (view : PeerView) : BarrierWorld :=
  let lastLocalWalSeq := node.noteLocal world.lastLocalWalSeq chunk
  let flushedThrough :=
    if anyFailed then world.cursor else chunkMax world.cursor chunk
  let safe := node.policy.computeSafeTruncateSeq node.nodeId view [] lastLocalWalSeq flushedThrough
  { world with
    lastLocalWalSeq
    cursor := flushedThrough
    log := world.log.filter (safe + 1 ≤ ·.1) }

def next : BarrierEvent → BarrierWorld
  | .append origin =>
    { world with seq := world.seq + 1, log := world.log ++ [(world.seq + 1, origin)] }
  | .answer peerId seq ackSeq stored =>
    if world.seq < seq then world
    else
      { world with
        walAcks :=
          if stored then setWalAck world.walAcks peerId (ackSeq.getD seq) else world.walAcks
        acknowledged := world.acknowledged ++ [(peerId, seq)] }
  | .flush count anyFailed membership unreadable now =>
    let chunk := nextChunk world count
    if chunk.isEmpty then world
    else node.flushChunk world chunk anyFailed (view world membership unreadable now)

def peers (membership : Option ClusterMembership) : List UInt64 :=
  (membership.map fun membership =>
    (membership.replicationPeers node.nodeId).map (·.nodeId)).getD []

def TruncatesAcknowledged : BarrierEvent → Prop
  | .flush count anyFailed membership unreadable now =>
    ∀ entry ∈ world.log,
      entry ∉ (node.next world (.flush count anyFailed membership unreadable now)).log →
      node.isLocal entry.2 → ∀ peer ∈ node.peers membership, (peer, entry.1) ∈ world.acknowledged
  | _ => True

/-- Fewer entries are in the log than are kept for peers that never acknowledge. -/
def Outstanding : BarrierEvent → Prop
  | .flush .. => world.log.length < maxWalRetentionEntries
  | _ => True

/-- The condition on a step: a number from a peer is recorded only if the peer has
acknowledged every local entry up to that number, and a local entry gets a number above
all those recorded. -/
def AcksCover : BarrierEvent → Prop
  | .answer peerId seq ackSeq stored => stored = true → ∀ entry ∈ world.log,
      node.isLocal entry.2 → entry.1 ≤ ackSeq.getD seq →
      entry.1 = seq ∨ (peerId, entry.1) ∈ world.acknowledged
  | .append origin => node.isLocal origin →
      ∀ peer ∈ world.walAcks.keys, world.walAcks.getD peer 0 ≤ world.seq
  | _ => True

variable {node}

theorem minMaxWalAck_le {view : PeerView} {peers : List UInt64} {minAck maxAck : Nat}
    (found : view.minMaxWalAck peers = some (minAck, maxAck)) :
    ∀ peer ∈ peers, ∃ ack, view.walAck peer = some ack ∧ minAck ≤ ack := by
  have general : ∀ (bounds : Nat × Nat), peers.foldlM
      (fun bounds peer => (view.walAck peer).map fun ack =>
        (min bounds.1 ack, max bounds.2 ack)) bounds = some (minAck, maxAck) →
      minAck ≤ bounds.1 ∧ ∀ peer ∈ peers, ∃ ack, view.walAck peer = some ack ∧ minAck ≤ ack := by
    clear found
    induction peers with
    | nil =>
      rintro bounds ⟨rfl⟩
      exact ⟨le_refl _, nofun⟩
    | cons peer peers ih =>
      intro bounds found
      obtain ⟨after, read, rest⟩ := Option.bind_eq_some_iff.mp found
      obtain ⟨ack, isAck, rfl⟩ := Option.map_eq_some_iff.mp read
      obtain ⟨below, others⟩ := ih _ rest
      refine ⟨below.trans (min_le_left _ _), forall_mem_cons.mpr ⟨?_, others⟩⟩
      exact ⟨ack, isAck, below.trans (min_le_right _ _)⟩
  exact (general _ found).2

variable (node) in
theorem safeTruncateSeq_cases (view : PeerView) (lastLocalWalSeq flushedThrough : Nat) :
    let safe := node.policy.computeSafeTruncateSeq node.nodeId view [] lastLocalWalSeq
      flushedThrough
    safe ≤ flushedThrough - maxWalRetentionEntries ∨ (lastLocalWalSeq = 0 ∧ safe ≤ flushedThrough) ∨
      ∀ peer ∈ node.peers view.membership, ∃ ack, view.walAck peer = some ack ∧ safe ≤ ack := by
  have everyone : node.policy.effectivePeers view (node.peers view.membership) =
      node.peers view.membership := if_neg (by simp [policy])
  dsimp only
  fun_cases TruncatePolicy.computeSafeTruncateSeq with
  | case1 sharded => cases sharded
  | case2 _ alone => cases alone
  | case4 _ _ peers some remote => exact .inr (.inl ⟨remote, le_refl _⟩)
  | case5 _ _ peers some isLocal effective none =>
    exact absurd ((congrArg List.isEmpty everyone).symm.trans none) some
  | case8 _ _ peers some isLocal effective _ minAck maxAck found _ _ =>
    refine .inr (.inr fun peer member => ?_)
    rw [← everyone] at member
    obtain ⟨ack, isAck, below⟩ := minMaxWalAck_le found peer member
    exact ⟨ack, isAck, (min_le_right _ _).trans below⟩
  | _ => exact .inl (by omega)

variable (node) in
theorem noteLocal_spec (last : Nat) (seen : List (Nat × UInt64)) :
    last ≤ node.noteLocal last seen ∧
      ∀ item ∈ seen, node.isLocal item.2 → item.1 ≤ node.noteLocal last seen := by
  induction seen generalizing last with
  | nil => exact ⟨le_refl _, nofun⟩
  | cons item seen ih =>
    obtain ⟨above, others⟩ := ih (if node.isLocal item.2 then max last item.1 else last)
    have kept : last ≤ if node.isLocal item.2 then max last item.1 else last := by
      split
      · exact le_max_left _ _
      · exact le_refl _
    refine ⟨kept.trans above, forall_mem_cons.mpr ⟨fun isLocal => ?_, others⟩⟩
    refine le_trans ?_ above
    rw [if_pos isLocal]
    exact le_max_right _ _

variable (node) in
/-- What holds in every state of a run that meets the condition. -/
structure Sound (world : BarrierWorld) : Prop where
  assigned : ∀ entry ∈ world.log, 0 < entry.1 ∧ entry.1 ≤ world.seq
  ascending : world.log.Pairwise fun first second => first.1 < second.1
  /-- Nothing is missing behind an entry. -/
  upward : ∀ entry ∈ world.log, ∀ seq, entry.1 ≤ seq → seq ≤ world.seq →
    ∃ other ∈ world.log, other.1 = seq
  flushed : world.cursor ≤ world.seq
  noted : world.lastLocalWalSeq = 0 → ∀ entry ∈ world.log, node.isLocal entry.2 →
    world.cursor < entry.1
  covered : ∀ peer, ∀ entry ∈ world.log, node.isLocal entry.2 →
    entry.1 ≤ world.walAcks.getD peer 0 → (peer, entry.1) ∈ world.acknowledged

namespace Sound

variable {world : BarrierWorld}

variable {entry : Nat × UInt64}

theorem initial : node.Sound {} where
  assigned := nofun
  ascending := List.Pairwise.nil
  upward := nofun
  flushed := le_refl 0
  noted _ := nofun
  covered _ := nofun

variable (sound : node.Sound world)
include sound

/-- The entries from one on to the last are all in the log. -/
theorem lt_add_length (member : entry ∈ world.log) : world.seq < entry.1 + world.log.length := by
  have present : List.range' entry.1 (world.seq + 1 - entry.1) ⊆ world.log.map Prod.fst := by
    intro seq inRange
    rw [mem_range'_1] at inRange
    obtain ⟨other, inLog, rfl⟩ := sound.upward entry member seq inRange.1 (by omega)
    exact mem_map_of_mem inLog
  have bound := (subperm_of_subset nodup_range' present).length_le
  rw [length_range', length_map] at bound
  omega

theorem append {origin : UInt64} (allowed : node.AcksCover world (.append origin)) :
    node.Sound (node.next world (.append origin)) where
  assigned := by
    refine forall_mem_append.mpr ⟨fun entry member => ?_, forall_mem_singleton.mpr ?_⟩
    · have := sound.assigned entry member
      exact ⟨this.1, this.2.trans (Nat.le_succ _)⟩
    · exact ⟨Nat.succ_pos _, le_refl _⟩
  ascending := by
    refine pairwise_append.mpr ⟨sound.ascending, pairwise_singleton _ _, ?_⟩
    intro entry member
    exact forall_mem_singleton.mpr (Nat.lt_succ_of_le (sound.assigned entry member).2)
  upward := by
    intro entry member seq above within
    rcases Nat.lt_or_eq_of_le within with old | rfl
    · rcases mem_append.mp member with before | isNew
      · obtain ⟨other, inLog, same⟩ := sound.upward entry before seq above (Nat.lt_succ_iff.mp old)
        exact ⟨other, mem_append_left _ inLog, same⟩
      · obtain rfl := mem_singleton.mp isNew
        exact absurd old (not_lt.mpr above)
    · exact ⟨(world.seq + 1, origin), by simp [next], rfl⟩
  flushed := sound.flushed.trans (Nat.le_succ _)
  noted := by
    intro none
    refine forall_mem_append.mpr ⟨sound.noted none, forall_mem_singleton.mpr fun _ => ?_⟩
    exact Nat.lt_succ_of_le sound.flushed
  covered := by
    intro peer
    refine forall_mem_append.mpr
      ⟨sound.covered peer, forall_mem_singleton.mpr fun isLocal reached => ?_⟩
    -- No recorded number reaches the new entry.
    have below : world.walAcks.getD peer 0 ≤ world.seq := by
      by_cases known : peer ∈ world.walAcks
      · exact allowed isLocal peer (Std.ExtTreeMap.mem_keys.mpr known)
      · rw [Std.ExtTreeMap.getD_eq_fallback known]
        exact Nat.zero_le _
    exact absurd (reached.trans below) (Nat.not_succ_le_self _)

theorem answer {peerId : UInt64} {seq : Nat} {ackSeq : Option Nat} {stored : Bool}
    (allowed : node.AcksCover world (.answer peerId seq ackSeq stored)) :
    node.Sound (node.next world (.answer peerId seq ackSeq stored)) := by
  simp only [BarrierNode.next]
  split
  · exact sound
  · refine { sound with covered := fun peer entry member isLocal reached => ?_ }
    by_cases before : entry.1 ≤ world.walAcks.getD peer 0
    · exact mem_append_left _ (sound.covered peer entry member isLocal before)
    -- Only the number just recorded can reach the entry.
    · have isNew : peer = peerId ∧ stored = true ∧ entry.1 ≤ ackSeq.getD seq := by
        split at reached
        · next isStored =>
            rw [setWalAck] at reached
            split at reached
            · exact absurd reached before
            · rw [Std.ExtTreeMap.getD_insert] at reached
              split at reached
              · next same =>
                  exact ⟨(Std.LawfulEqCmp.eq_of_compare same).symm, isStored, reached⟩
              · exact absurd reached before
        · exact absurd reached before
      obtain ⟨rfl, isStored, within⟩ := isNew
      rcases allowed isStored entry member isLocal within with same | known
      · rw [same]
        exact mem_append_right _ (mem_singleton_self _)
      · exact mem_append_left _ known

/-- The local entries up to the flushed one were noted. -/
theorem noted_flush (count : Nat) (anyFailed : Bool)
    (remote : node.noteLocal world.lastLocalWalSeq (nextChunk world count) = 0)
    (member : entry ∈ world.log) (isLocal : node.isLocal entry.2) : (if anyFailed then world.cursor
      else chunkMax world.cursor (nextChunk world count)) < entry.1 := by
  obtain ⟨above, noted⟩ := node.noteLocal_spec world.lastLocalWalSeq (nextChunk world count)
  have beyond := sound.noted (Nat.le_zero.mp (remote ▸ above)) entry member isLocal
  split
  · exact beyond
  · by_contra passed
    have inPassed : entry ∈ world.log.filter
        (·.1 ≤ chunkMax world.cursor (nextChunk world count)) :=
      mem_filter.mpr ⟨member, decide_eq_true (not_lt.mp passed)⟩
    have split := filter_chunkMax_eq sound.ascending world.cursor (min count walReadChunk)
    rw [nextChunk, split, mem_append] at inPassed
    rcases inPassed with old | inChunk
    · have behind := of_mem_filter old
      simp only [decide_eq_true_eq] at behind
      omega
    · have bound := noted entry inChunk isLocal
      omega

theorem flush (count : Nat) (anyFailed : Bool) (view : PeerView)
    (some : nextChunk world count ≠ []) :
    node.Sound (node.flushChunk world (nextChunk world count) anyFailed view) := by
  have kept : ∀ {threshold : Nat} {entry : Nat × UInt64},
      entry ∈ world.log.filter (threshold ≤ ·.1) → entry ∈ world.log :=
    fun member => mem_of_mem_filter member
  obtain ⟨⟨greatest, inChunk, isMax⟩, -⟩ := chunkMax_spec world.cursor some
  have greatestLe : greatest.1 ≤ world.seq :=
    (sound.assigned greatest (mem_of_mem_filter (mem_of_mem_take inChunk))).2
  exact {
    assigned := fun entry member => sound.assigned entry (kept member)
    ascending := sound.ascending.filter _
    upward := by
      intro entry member seq above within
      obtain ⟨inLog, threshold⟩ := mem_filter.mp member
      obtain ⟨other, otherInLog, rfl⟩ := sound.upward entry inLog seq above within
      refine ⟨other, mem_filter.mpr ⟨otherInLog, decide_eq_true ?_⟩, rfl⟩
      exact (of_decide_eq_true threshold).trans above
    flushed := by
      change (if anyFailed then world.cursor else _) ≤ world.seq
      split
      · exact sound.flushed
      · exact isMax ▸ greatestLe
    noted := fun remote entry member isLocal =>
      sound.noted_flush count anyFailed remote (kept member) isLocal
    covered := fun peer entry member => sound.covered peer entry (kept member) }

theorem next {event : BarrierEvent} (allowed : node.AcksCover world event) :
    node.Sound (node.next world event) := by
  cases event with
  | append origin => exact sound.append allowed
  | answer peerId seq ackSeq stored => exact sound.answer allowed
  | flush count anyFailed membership unreadable now =>
    simp only [BarrierNode.next]
    split
    · exact sound
    · next some => exact sound.flush count anyFailed _ (by simpa using some)

theorem acknowledged_of_flush {count : Nat} {anyFailed : Bool}
    {membership : Option ClusterMembership} {unreadable : List UInt64} {now : Int64}
    (outstanding : world.log.length < maxWalRetentionEntries) (some : nextChunk world count ≠ [])
    (member : entry ∈ world.log)
    (gone : entry ∉ (node.flushChunk world (nextChunk world count) anyFailed
      (view world membership unreadable now)).log) (isLocal : node.isLocal entry.2) :
    ∀ peer ∈ node.peers membership, (peer, entry.1) ∈ world.acknowledged := by
  have flushedLe := (sound.flush count anyFailed (view world membership unreadable now) some).flushed
  have dense := sound.lt_add_length member
  have positive := (sound.assigned entry member).1
  have truncated : ¬node.policy.computeSafeTruncateSeq node.nodeId
      (view world membership unreadable now) [] (node.noteLocal world.lastLocalWalSeq
        (nextChunk world count)) (if anyFailed then world.cursor
          else chunkMax world.cursor (nextChunk world count)) + 1 ≤ entry.1 :=
    fun kept => gone (mem_filter.mpr ⟨member, decide_eq_true kept⟩)
  rcases node.safeTruncateSeq_cases (view world membership unreadable now)
      (node.noteLocal world.lastLocalWalSeq (nextChunk world count))
      (if anyFailed then world.cursor
        else chunkMax world.cursor (nextChunk world count)) with
    retained | ⟨remote, behind⟩ | acked
  · -- Entries that far back are not in the log.
    have flushedSeq : (if anyFailed then world.cursor
        else chunkMax world.cursor (nextChunk world count)) ≤ world.seq := flushedLe
    omega
  · have beyond := sound.noted_flush count anyFailed remote member isLocal
    omega
  · intro peer isPeer
    obtain ⟨ack, read, reaches⟩ := acked peer isPeer
    refine sound.covered peer entry member isLocal ?_
    have isAck : world.walAcks.getD peer 0 = ack := by
      by_cases hidden : peer ∈ unreadable
      · simp [view, hidden] at read
      · simpa [view, hidden] using read
    omega

end Sound

/-- In every history whose recorded numbers cover only acknowledged entries, and with
fewer entries outstanding than are kept at most, every flush truncates only local entries
that every peer has acknowledged. -/
theorem truncates_acknowledged (node : BarrierNode) {events : List BarrierEvent}
    (outstanding : Along node.next Outstanding {} events)
    (cover : Along node.next node.AcksCover {} events) :
    Along node.next node.TruncatesAcknowledged {} events := by
  refine Along.of_invariant (fun world _ (sound : node.Sound world) both =>
    sound.next both.2) ?_ Sound.initial (outstanding.and cover)
  rintro world event sound ⟨few, -⟩
  cases event with
  | append origin => trivial
  | answer peerId seq ackSeq stored => trivial
  | flush count anyFailed membership unreadable now =>
    intro entry member gone isLocal
    by_cases none : (nextChunk world count).isEmpty
    · rw [next, if_pos none] at gone
      exact absurd member gone
    · rw [next, if_neg none] at gone
      exact sound.acknowledged_of_flush few (by simpa using none) member gone isLocal

instance (world : BarrierWorld) : (event : BarrierEvent) → Decidable (Outstanding world event)
  | .flush .. => inferInstanceAs (Decidable (_ < _))
  | .append _ | .answer .. => .isTrue trivial

-- The peers are checked one by one: there are too many numbers to try them all.
instance (world : BarrierWorld) : (event : BarrierEvent) → Decidable (node.AcksCover world event)
  | .append _ =>
    have : Decidable (∀ peer ∈ world.walAcks.keys, world.walAcks.getD peer 0 ≤ world.seq) :=
      List.decidableBAll _ _
    inferInstanceAs (Decidable (_ → _))
  | .answer .. => inferInstanceAs (Decidable (_ → ∀ entry ∈ _, _))
  | .flush .. => .isTrue trivial

instance (world : BarrierWorld) :
    (event : BarrierEvent) → Decidable (node.TruncatesAcknowledged world event)
  | .flush _ _ membership _ _ =>
    have : ∀ entry : Nat × UInt64, Decidable (∀ peer ∈ node.peers membership,
        (peer, entry.1) ∈ world.acknowledged) := fun _ => List.decidableBAll _ _
    inferInstanceAs (Decidable (∀ entry ∈ _, _))
  | .append _ | .answer .. => .isTrue trivial

end BarrierNode

def firstOfTwo : BarrierNode := ⟨1, 5, 3⟩

def withSecondNode : ClusterMembership :=
  ({} : ClusterMembership).addNode ⟨2, "b:8086", .active, 0, 0, false, 0⟩

/-- The peer numbers the two batches as this node does. -/
def sameNumbers : List BarrierEvent :=
  [.append 0, .append 0, .answer 2 1 (some 1) true, .answer 2 2 (some 2) true,
    .flush 2 false (some withSecondNode) [] 0]

theorem sameNumbers_truncates_acknowledged :
    Along firstOfTwo.next firstOfTwo.TruncatesAcknowledged {} sameNumbers ∧
      (run firstOfTwo.next {} sameNumbers).log = [] :=
  ⟨BarrierNode.truncates_acknowledged firstOfTwo (by decide +kernel) (by decide +kernel),
    by decide +kernel⟩

/-- The peer has ten entries of its own before the first batch. -/
def ownNumbers : List BarrierEvent := [.append 0, .append 0, .answer 2 1 (some 11) true]

/-- The second batch is answered before the first one. -/
def answeredAhead : List BarrierEvent := [.append 0, .append 0, .answer 2 2 (some 2) true]

/-- In both histories the next flush truncates a local entry that the peer has not
acknowledged. -/
theorem flush_truncates_unacknowledged :
    ¬firstOfTwo.TruncatesAcknowledged (run firstOfTwo.next {} ownNumbers)
        (.flush 2 false (some withSecondNode) [] 0) ∧
      ¬firstOfTwo.TruncatesAcknowledged (run firstOfTwo.next {} answeredAhead)
        (.flush 2 false (some withSecondNode) [] 0) := by
  decide +kernel

end HyperbyteDb
