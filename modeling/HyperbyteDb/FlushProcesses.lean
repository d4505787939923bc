import HyperbyteDb.ClusterMembership
import HyperbyteDb.FlushWorkItems
import HyperbyteDb.WalValueCodec

/-!
# Flush and drain calls interleaved with the log's writer

One writer appends batches to the write-ahead log while any number of flush and drain calls
run.
-/

namespace HyperbyteDb

open OrderedRows

/-- The settings of the flush service that decide how far it truncates. -/
structure TruncatePolicy where
  shardingEnabled : Bool
  shardedWalRetentionBytes : Nat
  replicated : Bool
  heartbeatIntervalSecs : UInt64
  heartbeatMissThreshold : UInt64
  truncateStalePeerMultiplier : UInt64

/-- What the barrier reads from the rest of the cluster. -/
structure PeerView where
  membership : Option ClusterMembership
  /-- The acknowledged sequence of a peer; `none` when it cannot be read. -/
  walAck : UInt64 → Option Nat
  now : Int64

/-- Unflushed entries retained while peers are lagging. -/
def maxWalRetentionEntries : Nat := 500000

/-- Go on from the newest size not looked at, having kept `kept` bytes. -/
def marginLoop (maxBytes : Nat) : Nat → Nat → List (Nat × Nat) → Nat
  | _, start, [] => start
  | kept, _, (seq, len) :: older =>
    if maxBytes < kept + len then seq
    else marginLoop maxBytes (kept + len) (seq - 1) older

/-- The sequence below which entries lie outside a margin of `maxBytes` bytes behind
`through`; `sizes` has the oldest entry first. -/
def flushedMarginStart (sizes : List (Nat × Nat)) (through maxBytes : Nat) : Nat :=
  marginLoop maxBytes 0 through (sizes.reverse.dropWhile fun entry => through < entry.1)

variable {maxBytes : Nat} {older : List (Nat × Nat)}

theorem marginLoop_le {kept start bound : Nat}
    (startLe : start ≤ bound) (olderLe : ∀ entry ∈ older, entry.1 ≤ bound) :
    marginLoop maxBytes kept start older ≤ bound := by
  induction older generalizing kept start with
  | nil => exact startLe
  | cons entry older ih =>
    have here : entry.1 ≤ bound := olderLe entry (by simp)
    unfold marginLoop
    split
    · exact here
    · apply ih
      · omega
      · intro other member
        exact olderLe other (by simp [member])

variable {sizes : List (Nat × Nat)}

/-- The sizes that are looked at are those up to `through`, the newest first. -/
theorem flushedMarginStart_eq
    (ascending : sizes.Pairwise fun first second => first.1 < second.1)
    (through maxBytes : Nat) : flushedMarginStart sizes through maxBytes =
      marginLoop maxBytes 0 through (sizes.filter (·.1 ≤ through)).reverse := by
  have descending : sizes.reverse.Pairwise fun first second => second.1 < first.1 :=
    List.pairwise_reverse.mpr ascending
  rw [flushedMarginStart, ← List.filter_reverse]
  congr 1
  generalize sizes.reverse = newest at descending
  -- Past the first size that is not skipped, sequences only get smaller.
  induction newest with
  | nil => rfl
  | cons entry newest ih =>
    obtain ⟨below, rest⟩ := List.pairwise_cons.mp descending
    by_cases skipped : through < entry.1
    · rw [List.dropWhile_cons_of_pos (by simpa using skipped),
        List.filter_cons_of_neg (by simpa using skipped), ih rest]
    · rw [List.dropWhile_cons_of_neg (by simpa using skipped), eq_comm, List.filter_eq_self]
      rintro other (_ | ⟨_, member⟩)
      · simpa using skipped
      · have := below other member
        simp
        omega

theorem flushedMarginStart_le
    (ascending : sizes.Pairwise fun first second => first.1 < second.1)
    (through maxBytes : Nat) : flushedMarginStart sizes through maxBytes ≤ through := by
  rw [flushedMarginStart_eq ascending]
  apply marginLoop_le (Nat.le_refl through)
  simp

def bytesBetween (sizes : List (Nat × Nat)) (first through : Nat) : Nat :=
  ((sizes.filter fun entry => first < entry.1 ∧ entry.1 ≤ through).map Prod.snd).sum

theorem marginLoop_spec {kept start found : Nat}
    (loop : marginLoop maxBytes kept start older = found)
    (descending : older.Pairwise fun first second => second.1 < first.1)
    (positive : ∀ entry ∈ older, 1 ≤ entry.1) (within : kept ≤ maxBytes) :
    kept + ((older.filter fun entry => found < entry.1).map Prod.snd).sum ≤ maxBytes ∧
      ((∀ entry ∈ older, found < entry.1) ∨ ∃ entry ∈ older, entry.1 = found ∧
        maxBytes < kept + ((older.filter fun entry => found < entry.1).map Prod.snd).sum +
          entry.2) := by
  induction older generalizing kept start with
  | nil => simpa using within
  | cons entry older ih =>
    obtain ⟨below, rest⟩ := List.pairwise_cons.mp descending
    obtain ⟨one, positive⟩ := List.forall_mem_cons.mp positive
    rw [marginLoop] at loop
    split at loop
    next full =>
      subst loop
      have none : ((entry :: older).filter fun other => entry.1 < other.1) = [] := by
        rw [List.filter_eq_nil_iff]
        rintro other (_ | ⟨_, member⟩)
        · simp
        · have := below other member
          simp
          omega
      simp [none, within, full]
    next room =>
      have before : found ≤ entry.1 - 1 := loop ▸ marginLoop_le (Nat.le_refl (entry.1 - 1))
        fun other member => Nat.le_sub_one_of_lt (below other member)
      obtain ⟨bounded, maximal⟩ := ih loop rest positive (by omega)
      rw [List.filter_cons_of_pos (by simp; omega), List.map_cons, List.sum_cons, ← Nat.add_assoc]
      refine ⟨bounded, maximal.imp (fun all => ?_) fun ⟨other, member, found⟩ => ?_⟩
      · exact List.forall_mem_cons.mpr ⟨by omega, all⟩
      · exact ⟨other, List.mem_cons_of_mem _ member, found⟩

/-- **The retained margin is bounded and maximal**: the recorded entries behind it hold at most
`maxBytes` bytes, and one more would be too many. -/
theorem flushedMarginStart_maximal {sizes : List (Nat × Nat)}
    (ascending : sizes.Pairwise fun first second => first.1 < second.1)
    (positive : ∀ entry ∈ sizes, 1 ≤ entry.1) (through maxBytes : Nat) :
    let start := flushedMarginStart sizes through maxBytes
    start ≤ through ∧ bytesBetween sizes start through ≤ maxBytes ∧
      ((∀ entry ∈ sizes, start < entry.1) ∨
        ∃ greatest ∈ sizes, greatest.1 ≤ start ∧
          (∀ other ∈ sizes, other.1 ≤ start → other.1 ≤ greatest.1) ∧
          maxBytes < bytesBetween sizes start through + greatest.2) := by
  intro start
  have descending : (sizes.filter (·.1 ≤ through)).reverse.Pairwise
      fun first second => second.1 < first.1 :=
    List.pairwise_reverse.mpr (ascending.filter _)
  have bytes : bytesBetween sizes start through =
      0 + (((sizes.filter (·.1 ≤ through)).reverse.filter fun entry =>
        start < entry.1).map Prod.snd).sum := by
    rw [Nat.zero_add, List.filter_reverse, List.map_reverse, List.sum_reverse, List.filter_filter]
    simp only [bytesBetween, Bool.decide_and]
  obtain ⟨bounded, maximal⟩ := marginLoop_spec
    (flushedMarginStart_eq ascending through maxBytes).symm descending
    (by simpa using fun _ _ member _ => positive _ member) (Nat.zero_le maxBytes)
  have behind := flushedMarginStart_le ascending through maxBytes
  rw [bytes]
  refine ⟨behind, bounded, maximal.imp (fun all entry member => ?_) ?_⟩
  · by_cases reached : entry.1 ≤ through
    · exact all entry (by simpa using ⟨member, reached⟩)
    · omega
  · rintro ⟨entry, member, same, full⟩
    exact ⟨entry, List.mem_of_mem_filter (List.mem_reverse.mp member), same.le,
      fun other _ before => before.trans same.ge, full⟩

/-- The newest of three entries fits, the middle one is one too many. -/
theorem flushedMarginStart_of_three :
    flushedMarginStart [(1, 5), (2, 7), (3, 4)] 3 10 = 2 ∧
      bytesBetween [(1, 5), (2, 7), (3, 4)] 2 3 ≤ 10 :=
  ⟨rfl, (flushedMarginStart_maximal (by decide) (by decide) 3 10).2.1⟩

variable (policy : TruncatePolicy)

namespace TruncatePolicy

variable (view : PeerView)

/-- Seconds without a heartbeat after which a peer that never acknowledged is left
out of the barrier. -/
def staleAfter : Int64 :=
  (policy.heartbeatIntervalSecs.toInt64.saturatingMul
    (max policy.heartbeatMissThreshold 1).toInt64).saturatingMul
    policy.truncateStalePeerMultiplier.toInt64

def isStale (membership : ClusterMembership) (peer : UInt64) : Bool :=
  match membership.nodes[peer]? with
  | some node => policy.staleAfter < view.now - node.lastHeartbeat
  | none => false

def effectivePeers (peers : List UInt64) : List UInt64 :=
  if 0 < policy.truncateStalePeerMultiplier ∧ 0 < policy.heartbeatIntervalSecs then
    match view.membership with
    | some membership =>
      peers.filter fun peer =>
        0 < (view.walAck peer).getD 0 || !policy.isStale view membership peer
    | none => peers
  else peers

end TruncatePolicy

/-- The least and the greatest acknowledgement of the peers, unless one cannot be
read. -/
def PeerView.minMaxWalAck (view : PeerView) (peers : List UInt64) : Option (Nat × Nat) :=
  peers.foldlM
    (fun bounds peer => (view.walAck peer).map fun ack =>
      (min bounds.1 ack, max bounds.2 ack))
    (UInt64.maxValue.toNat, 0)

variable (nodeId : UInt64) (view : PeerView)

def TruncatePolicy.computeSafeTruncateSeq (sizes : List (Nat × Nat)) (lastLocalWalSeq chunkMaxSeq : Nat) :
    Nat :=
  if policy.shardingEnabled then
    flushedMarginStart sizes chunkMaxSeq policy.shardedWalRetentionBytes
  else if !policy.replicated then chunkMaxSeq
  else
    let peers := (view.membership.map fun membership =>
      (membership.replicationPeers nodeId).map (·.nodeId)).getD []
    if peers.isEmpty then chunkMaxSeq - maxWalRetentionEntries
    -- Nothing here was written by a client of this node, so no peer needs it.
    else if lastLocalWalSeq = 0 then chunkMaxSeq
    else
      let effective := policy.effectivePeers view peers
      if effective.isEmpty then chunkMaxSeq
      else
        match view.minMaxWalAck effective with
        | none => 0
        | some (minAck, maxAck) =>
          if 0 < maxAck ∧ minAck = 0 then 0
          else if 0 < minAck then min chunkMaxSeq minAck
          else chunkMaxSeq - maxWalRetentionEntries

/-- Truncation stays behind the flush. -/
theorem TruncatePolicy.computeSafeTruncateSeq_le
    (ascending : sizes.Pairwise fun first second => first.1 < second.1)
    (lastLocalWalSeq chunkMaxSeq : Nat) :
    policy.computeSafeTruncateSeq nodeId view sizes lastLocalWalSeq chunkMaxSeq ≤ chunkMaxSeq := by
  unfold computeSafeTruncateSeq
  split
  · exact flushedMarginStart_le ascending _ _
  · dsimp only
    repeat' split
    all_goals omega

/-! ## Flush and drain calls interleaved with the log's writer -/

variable {ρ : Type}

/-- One write handed to the log.  Its slot, if it has one, holds all its points. -/
structure WalAppendBundle (stacking : BatchStacking ρ) where
  entry : WalEntry
  prepared : Option (PreparedWalSlot ρ)
  bytes : Nat
  prepares : ∀ slot ∈ prepared, PreparedFor stacking slot entry

structure FlushService (ρ : Type) where
  settings : FlushSettings
  policy : TruncatePolicy
  walFormat : WalFormat
  arrowWalEnabled : Bool
  stacking : BatchStacking ρ

inductive FlushPath where
  | prepared
  | native
deriving DecidableEq

def FlushPath.failureMessage : FlushPath → String
  | .prepared => "prepared flush sink write failed; holding WAL for retry"
  | .native => "native flush sink write failed; holding WAL for retry"

inductive CallPhase (ρ : Type) where
  | idle
  /-- `last_flushed` is read into the cursor. -/
  | started (cursor : Nat)
  /-- At the head of the loop over the log up to `snapshot`. -/
  | looping (cursor snapshot : Nat)
  /-- No slot is cached for the next sequence. -/
  | missed (cursor snapshot : Nat)
  | reading (cursor snapshot nativeLimit : Nat)
  /-- The read puts the slots it decoded back into the cache. -/
  | recaching (cursor snapshot : Nat) (found : List (Nat × WalRow ρ))
      (pending : List (Nat × PreparedWalSlot ρ))
  /-- Sink writes of the chunk up to `chunkMaxSeq` are outstanding. -/
  | writing (cursor snapshot chunkMaxSeq : Nat) (path : FlushPath)
      (pending : List (SinkWrite ρ)) (anyFailed : Bool)
  | truncating (snapshot flushedThrough : Nat) (failure : Option String)
  /-- The cache is truncated before `sequence`, the rows are not yet. -/
  | deleting (snapshot flushedThrough sequence : Nat) (failure : Option String)
  | recording (snapshot flushedThrough : Nat) (failure : Option String)
  | flushed
  /-- A drain looks for entries above the cursor. -/
  | checking (cursor : Nat)
  | returned (result : Except String Unit)

structure FlushCall (ρ : Type) where
  drains : Bool := false
  phase : CallPhase ρ := .idle

inductive WriterPhase (stacking : BatchStacking ρ) where
  | idle
  /-- Sequences from `firstSeq` on are assigned, nothing is stored. -/
  | reserved (firstSeq : Nat) (bundles : List (WalAppendBundle stacking))
  /-- The rows are stored, their sizes are not noted. -/
  | sizing (stored : List (Nat × WalRow ρ × Option (PreparedWalSlot ρ)))
  /-- The slots left to put into the cache. -/
  | caching (slots : List (Nat × PreparedWalSlot ρ))

/-- What happened so far; no step reads it. -/
structure FlushHistory (ρ : Type) where
  committed : Rows Nat WalEntry := ∅
  /-- The sequences deleted by a purge of their database. -/
  purged : List Nat := []
  /-- The sink writes that were accepted, or refused for good. -/
  settled : List (SinkWrite ρ) := []

structure FlushWorld (stacking : BatchStacking ρ) where
  seq : Nat
  rows : Rows Nat (WalRow ρ)
  cache : Rows Nat (PreparedWalSlot ρ)
  sizes : List (Nat × Nat)
  truncatedThrough : Nat
  writer : WriterPhase stacking
  lastFlushed : Nat
  /-- What the log tells others about the flush. -/
  flushedThrough : Nat
  lastLocalWalSeq : Nat
  calls : Nat → FlushCall ρ
  history : FlushHistory ρ

/-- The sink's answer to one write.  A refused write is one to the destination of a
materialized view, which no retry can make succeed. -/
inductive SinkOutcome where
  | accepted
  | refused
  | failed
deriving DecidableEq

/-- What a step of a call gets back from what it awaits. -/
inductive Answer where
  | proceed
  | fails (cause : String)
  /-- The outstanding sink write at `index` comes to an end. -/
  | sink (index : Nat) (outcome : SinkOutcome)
  /-- The state of the peers, for the truncation barrier. -/
  | peers (view : PeerView)

inductive FlushEvent (stacking : BatchStacking ρ) where
  /-- The idle writer takes a batch and assigns its sequences. -/
  | reserve (bundles : List (WalAppendBundle stacking))
  /-- The next step of the writer, whose store may fail. -/
  | write (succeeds : Bool)
  | purgeCache (database : String)
  | purgeRows (database : String) (scanned : List Nat)
  | start (call : Nat) (drains : Bool)
  | advance (call : Nat) (answer : Answer)

/-! ## The writer -/

/-- What is stored and cached for a bundle.  The Arrow format stores the slot, with its
ingest sequences patched, in the value; the other patches them when a flush takes the
slot. -/
def FlushService.encodeBundle (service : FlushService ρ) (seq : Nat)
    (bundle : WalAppendBundle service.stacking) :
    Except String (WalRow ρ × Option (PreparedWalSlot ρ)) :=
  match service.walFormat, bundle.prepared with
  | .bincode, prepared => .ok (⟨bundle.entry, none, bundle.bytes⟩, prepared)
  | .arrowIpc, none => .error "arrow IPC WAL requires prepared slot"
  | .arrowIpc, some slot =>
    (slot.patchAllIngestSeqs (.ofNat seq)).map fun patched =>
      (⟨bundle.entry, some patched, bundle.bytes⟩, some patched)

def FlushService.encodeBundles (service : FlushService ρ) :
    Nat → List (WalAppendBundle service.stacking) →
      Except String (List (Nat × WalRow ρ × Option (PreparedWalSlot ρ)))
  | _, [] => .ok []
  | seq, bundle :: bundles => do
      let encoded ← service.encodeBundle seq bundle
      let later ← service.encodeBundles (seq + 1) bundles
      return (seq, encoded) :: later

def entriesOf (rows : List (Nat × WalRow ρ)) : List (Nat × WalEntry) :=
  rows.map fun item => (item.1, item.2.entry)

namespace FlushWorld

variable {stacking : BatchStacking ρ}

def rowsOf (stored : List (Nat × WalRow ρ × Option (PreparedWalSlot ρ))) : List (Nat × WalRow ρ) :=
  stored.map fun item => (item.1, item.2.1)

def commitRows (world : FlushWorld stacking)
    (stored : List (Nat × WalRow ρ × Option (PreparedWalSlot ρ))) : FlushWorld stacking :=
  { world with
    rows := write world.rows ((rowsOf stored).map fun item => .put item.1 item.2)
    writer := .sizing stored
    history := { world.history with
      committed := write world.history.committed
        ((entriesOf (rowsOf stored)).map fun item => .put item.1 item.2) } }

def slotsOf (stored : List (Nat × WalRow ρ × Option (PreparedWalSlot ρ))) :
    List (Nat × PreparedWalSlot ρ) :=
  stored.filterMap fun item => item.2.2.map (item.1, ·)

def setPhase (world : FlushWorld stacking) (call : Nat) (phase : CallPhase ρ) :
    FlushWorld stacking :=
  { world with
    calls := Function.update world.calls call { world.calls call with phase := phase } }

end FlushWorld

namespace FlushService

variable (service : FlushService ρ)

variable (world : FlushWorld service.stacking)

/-- The sequence counter advances before anything is stored. -/
def reserveStep (bundles : List (WalAppendBundle service.stacking)) : FlushWorld service.stacking :=
  match world.writer with
  | .idle =>
    { world with
      seq := world.seq + bundles.length
      writer := .reserved (world.seq + 1) bundles }
  | _ => world

def writeStep (succeeds : Bool) : FlushWorld service.stacking :=
  match world.writer with
  | .idle => world
  | .reserved firstSeq bundles =>
    match service.encodeBundles firstSeq bundles with
    | .error _ => { world with writer := .idle }
    | .ok stored => if succeeds then world.commitRows stored else { world with writer := .idle }
  | .sizing stored =>
    { world with
      sizes := world.sizes ++ stored.map fun item => (item.1, item.2.1.bytes)
      writer := .caching (if service.arrowWalEnabled then FlushWorld.slotsOf stored else []) }
  | .caching [] => { world with writer := .idle }
  | .caching (item :: slots) =>
    { world with cache := world.cache.insert item.1 item.2, writer := .caching slots }

/-! ## One step of a call -/

def walReadChunk : Nat := 5000

/-- A native chunk stops at this many batches' worth of points. -/
def nativeChunkBatches : Nat := 4

def isLocal (origin : UInt64) : Bool :=
  origin = service.settings.nodeId || (0 < service.settings.nodeId && origin = 0)

/-- The last sequence of a local write, after seeing the given ones. -/
def noteLocal (last : Nat) (seen : List (Nat × UInt64)) : Nat :=
  seen.foldl (fun last item => if service.isLocal item.2 then max last item.1 else last) last

def patchSlot (seq : Nat) (slot : PreparedWalSlot ρ) : Except String (PreparedWalSlot ρ) :=
  match service.walFormat with
  | .bincode => slot.patchAllIngestSeqs (.ofNat seq)
  | .arrowIpc => .ok slot

def patchSlots : List (Nat × PreparedWalSlot ρ) → Except String (List (Nat × PreparedWalSlot ρ))
  | [] => .ok []
  | (seq, slot) :: slots => do
      let patched ← service.patchSlot seq slot
      let later ← patchSlots slots
      return (seq, patched) :: later

def chunkMax {β : Type} (cursor : Nat) (chunk : List (Nat × β)) : Nat :=
  (chunk.map Prod.fst).max?.getD cursor

/-- Flush a run of slots that left the cache. -/
def startPrepared (call cursor snapshot : Nat) (taken : List (Nat × PreparedWalSlot ρ)) :
    FlushWorld service.stacking :=
  match service.patchSlots taken with
  | .error cause => world.setPhase call (.returned (.error cause))
  | .ok slots =>
    let noted := { world with
      lastLocalWalSeq := service.noteLocal world.lastLocalWalSeq
        (slots.map fun item : Nat × PreparedWalSlot ρ => (item.1, item.2.originNodeId)) }
    match service.settings.preparedWork service.stacking slots with
    | .error cause => noted.setPhase call (.returned (.error cause))
    | .ok writes =>
      noted.setPhase call (.writing cursor snapshot (chunkMax cursor slots) .prepared writes false)

/-- The head of the loop: look for cached slots first. -/
def loopStep (call cursor snapshot : Nat) : FlushWorld service.stacking :=
  if cursor < snapshot then
    if service.arrowWalEnabled then
      match takeRange world.cache (cursor + 1) snapshot walReadChunk with
      | none => world.setPhase call (.missed cursor snapshot)
      | some (taken, left) =>
        service.startPrepared { world with cache := left } call cursor snapshot taken
    else world.setPhase call (.reading cursor snapshot walReadChunk)
  else world.setPhase call .flushed

def nativeLimit (cache : Rows Nat (PreparedWalSlot ρ)) (fromSeq : Nat) : Nat :=
  match nextSeqAtOrAfter cache fromSeq with
  | some next => if fromSeq < next then min (next - fromSeq) walReadChunk else walReadChunk
  | none => walReadChunk

/-- The slots that a read finds in the values of its rows. -/
def decodedSlots (found : List (Nat × WalRow ρ)) : List (Nat × PreparedWalSlot ρ) :=
  if service.arrowWalEnabled then
    found.filterMap fun item => item.2.prepared.map (item.1, ·)
  else []

def takeBudget (budget : Nat) : Nat → List (Nat × WalRow ρ) → List (Nat × WalRow ρ)
  | _, [] => []
  | takenPoints, item :: rest =>
    if takenPoints = 0 ∨ takenPoints < budget then
      item :: takeBudget budget (takenPoints + item.2.entry.points.length) rest
    else []

def selectChunk (snapshot : Nat) (found : List (Nat × WalRow ρ)) : List (Nat × WalRow ρ) :=
  takeBudget (service.settings.effectiveLimit * nativeChunkBatches) 0
    (found.filter fun item => item.1 ≤ snapshot)

def startNative (call cursor snapshot : Nat) (found : List (Nat × WalRow ρ)) :
    FlushWorld service.stacking :=
  let chunk := service.selectChunk snapshot found
  if chunk.isEmpty then world.setPhase call .flushed
  else
    let noted := { world with
      lastLocalWalSeq := service.noteLocal world.lastLocalWalSeq
        (chunk.map fun item : Nat × WalRow ρ => (item.1, item.2.entry.originNodeId)) }
    noted.setPhase call (.writing cursor snapshot (chunkMax cursor chunk) .native
      (service.settings.nativeWork (cursor + 1) (entriesOf chunk)) false)

variable (call cursor snapshot chunkMaxSeq : Nat) (path : FlushPath)

def settle (pending : List (SinkWrite ρ)) (anyFailed : Bool) (index : Nat) (outcome : SinkOutcome) :
    FlushWorld service.stacking :=
  match pending[index]? with
  | none => world
  | some sinkWrite =>
    let rest := pending.eraseIdx index
    match outcome with
    | .failed => world.setPhase call (.writing cursor snapshot chunkMaxSeq path rest true)
    | .accepted | .refused =>
      let settled := { world with
        history := { world.history with
          settled := world.history.settled ++ [sinkWrite] } }
      settled.setPhase call (.writing cursor snapshot chunkMaxSeq path rest anyFailed)

/-- All sink writes are done.  One failure holds the log at the start of the chunk. -/
def finishWrites (anyFailed : Bool) : FlushWorld service.stacking :=
  if anyFailed then
    world.setPhase call (.truncating snapshot cursor (some path.failureMessage))
  else world.setPhase call (.truncating snapshot chunkMaxSeq none)

def truncateStep (call snapshot flushedThrough : Nat) (failure : Option String) (view : PeerView) :
    FlushWorld service.stacking :=
  let sequence := service.policy.computeSafeTruncateSeq service.settings.nodeId view
    world.sizes world.lastLocalWalSeq flushedThrough + 1
  let truncated := { world with
    cache := truncateCache world.cache sequence
    sizes := world.sizes.dropWhile fun entry => entry.1 < sequence }
  truncated.setPhase call (.deleting snapshot flushedThrough sequence failure)

def deleteStep (call snapshot flushedThrough sequence : Nat) (failure : Option String) :
    FlushWorld service.stacking :=
  let deleted := { world with
    rows := truncateRows world.rows world.truncatedThrough sequence
    truncatedThrough := max world.truncatedThrough sequence }
  deleted.setPhase call (.recording snapshot flushedThrough failure)

def recordStep (call snapshot flushedThrough : Nat) (failure : Option String) :
    FlushWorld service.stacking :=
  let recorded := { world with
    lastFlushed := flushedThrough
    flushedThrough := flushedThrough }
  match failure with
  | some cause => recorded.setPhase call (.returned (.error cause))
  | none => recorded.setPhase call (.looping flushedThrough snapshot)

/-- A drain is done when it finds no entry above the cursor. -/
def checkStep (call cursor : Nat) : FlushWorld service.stacking :=
  let found := readRange world.rows (cursor + 1) 1
  let recached := { world with
    cache := write world.cache ((service.decodedSlots found).map
      fun item : Nat × PreparedWalSlot ρ => .put item.1 item.2) }
  if found.isEmpty then recached.setPhase call (.returned (.ok ()))
  else recached.setPhase call (.started world.lastFlushed)

def advance (call : Nat) (answer : Answer) : FlushWorld service.stacking :=
  match (world.calls call).phase, answer with
  | .started cursor, .proceed =>
    if world.seq ≤ cursor then world.setPhase call .flushed
    else world.setPhase call (.looping cursor world.seq)
  | .looping cursor snapshot, .proceed => service.loopStep world call cursor snapshot
  | .missed cursor snapshot, .proceed =>
    world.setPhase call (.reading cursor snapshot (nativeLimit world.cache (cursor + 1)))
  | .reading cursor snapshot limit, .proceed =>
    let found := readRange world.rows (cursor + 1) limit
    world.setPhase call (.recaching cursor snapshot found (service.decodedSlots found))
  | .reading .., .fails cause => world.setPhase call (.returned (.error cause))
  | .recaching cursor snapshot found [], .proceed =>
    service.startNative world call cursor snapshot found
  | .recaching cursor snapshot found (item :: pending), .proceed =>
    { world with cache := world.cache.insert item.1 item.2 }.setPhase call
      (.recaching cursor snapshot found pending)
  | .recaching .., .fails cause => world.setPhase call (.returned (.error cause))
  | .writing cursor snapshot chunkMaxSeq path pending anyFailed, .sink index outcome =>
    service.settle world call cursor snapshot chunkMaxSeq path pending anyFailed index outcome
  | .writing cursor snapshot chunkMaxSeq path [] anyFailed, .proceed =>
    service.finishWrites world call cursor snapshot chunkMaxSeq path anyFailed
  | .truncating snapshot flushedThrough failure, .peers view =>
    service.truncateStep world call snapshot flushedThrough failure view
  | .deleting snapshot flushedThrough sequence failure, .proceed =>
    service.deleteStep world call snapshot flushedThrough sequence failure
  | .deleting .., .fails cause => world.setPhase call (.returned (.error cause))
  | .recording snapshot flushedThrough failure, .proceed =>
    service.recordStep world call snapshot flushedThrough failure
  -- The rows are deleted, but the store fails to flush its memtable.
  | .recording .., .fails cause => world.setPhase call (.returned (.error cause))
  | .flushed, .proceed =>
    if (world.calls call).drains then world.setPhase call (.checking world.lastFlushed)
    else world.setPhase call (.returned (.ok ()))
  | .checking cursor, .proceed => service.checkStep world call cursor
  | .checking .., .fails cause => world.setPhase call (.returned (.error cause))
  | _, _ => world

def startCall (call : Nat) (drains : Bool) : FlushWorld service.stacking :=
  match (world.calls call).phase with
  | .idle | .returned _ =>
    { world with
      calls := Function.update world.calls call ⟨drains, .started world.lastFlushed⟩ }
  | _ => world

/-- One event.  An event that is not enabled changes nothing. -/
def next : FlushEvent service.stacking → FlushWorld service.stacking
  | .reserve bundles => service.reserveStep world bundles
  | .write succeeds => service.writeStep world succeeds
  | .purgeCache database => { world with cache := purgeCache world.cache database }
  | .purgeRows database scanned =>
    { world with
      rows := purgeRows world.rows database scanned
      history := { world.history with
        purged := (scanned.filter fun seq =>
          world.rows[seq]?.any (·.entry.database = database)) ++ world.history.purged } }
  | .start call drains => service.startCall world call drains
  | .advance call answer => service.advance world call answer

end FlushService

end HyperbyteDb
