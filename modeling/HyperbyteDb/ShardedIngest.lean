import HyperbyteDb.IngestMetadata
import HyperbyteDb.ShardForwardResults

/-!
# Ingestion of a sharded write

The coordinator of a write appends the points of its own regions and forwards the others, or
leaves them in its forward queue.
-/

namespace HyperbyteDb

open List Std

structure OutboundReplicationBatch where
  database : String
  retentionPolicy : String
  precision : Option String
  body : List UInt8
  walSeq : Nat
  /-- `none` stands for every replication peer. -/
  targetNodeIds : Option (List UInt64)
  regionId : Option UInt64

/-- Targets as node identifiers and addresses: those of the batch that are known, or
every replication peer. -/
def resolveReplicationPeers (membership : ClusterMembership) (selfId : UInt64)
    (targets : Option (List UInt64)) : List (UInt64 × String) :=
  match targets with
  | some targets => targets.filterMap fun target =>
    (membership.getNode target).map fun node => (node.nodeId, node.addr)
  | none => (membership.replicationPeers selfId).map fun node => (node.nodeId, node.addr)

/-- Every record is under its own identifier. -/
def ClusterMembership.Keyed (membership : ClusterMembership) : Prop :=
  ∀ nodeId node, membership.getNode nodeId = some node → node.nodeId = nodeId

theorem ClusterMembership.Keyed.resolve_some {membership : ClusterMembership}
    (keyed : membership.Keyed) (selfId : UInt64) (targets : List UInt64) :
    (resolveReplicationPeers membership selfId (some targets)).map Prod.fst =
      targets.filter fun target => (membership.getNode target).isSome := by
  rw [resolveReplicationPeers, map_filterMap, ← filterMap_eq_filter]
  apply filterMap_congr
  intro target _
  cases known : membership.getNode target with
  | none => simp [known, Option.guard]
  | some node => simp [known, keyed target node known]

inductive OutboundQueueAnswer where
  | queued
  | full
  | closed

/-- What an asynchronous batch meets: its queue, the membership when it is sent, the
peers that take it and the peers that hints are stored for. -/
structure OutboundRound where
  queue : OutboundQueueAnswer
  membership : ClusterMembership
  delivered : UInt64 → Bool
  hintStored : UInt64 → Bool

structure PeerClient where
  nodeId : UInt64
  hintedHandoff : Bool

variable (client : PeerClient) (round : OutboundRound) (batch : OutboundReplicationBatch)

/-- The peers that get a hint for a batch: those that did not take it, or, when the
queue is full, all of them up to the first that cannot be stored. -/
def PeerClient.hintedPeers : List UInt64 :=
  let peers := (resolveReplicationPeers round.membership client.nodeId
    batch.targetNodeIds).map Prod.fst
  if client.hintedHandoff then
    match round.queue with
    | .queued => peers.filter fun peer => !round.delivered peer && round.hintStored peer
    | .full => peers.takeWhile round.hintStored
    | .closed => []
  else []

theorem PeerClient.hintedPeers_subset : client.hintedPeers round batch ⊆
      (resolveReplicationPeers round.membership client.nodeId
        batch.targetNodeIds).map Prod.fst := by
  unfold PeerClient.hintedPeers
  split
  · split
    · exact filter_subset_self _
    · exact (takeWhile_sublist _).subset
    · exact nil_subset _
  · exact nil_subset _

inductive SyncQuorumMinAcks where
  | majority
  | count (acks : Nat)

/-- The acknowledgements to wait for, at most one from each peer. -/
def SyncQuorumMinAcks.resolve (minAcks : SyncQuorumMinAcks) (peerCount : Nat) : Nat :=
  min (match minAcks with
    | .majority => (peerCount + 1) / 2
    | .count acks => acks) peerCount

inductive ReplicationMode where
  | async
  | syncQuorum

structure ReplicationConfig where
  mode : ReplicationMode
  minAcks : SyncQuorumMinAcks := .majority
  ackTimeoutMs : Nat := 5000

/-- Count acknowledgements as they arrive, until there are enough. -/
def awaitAcks (required : Nat) (acks : Nat) : List (UInt64 × Bool) → Nat
  | [] => acks
  | (_, acked) :: rest =>
    if required ≤ acks then acks
    else awaitAcks required (if acked then acks + 1 else acks) rest

/-- The peers' answers in the order in which they arrive before the deadline. -/
def replicateWriteSync (membership : ClusterMembership) (selfId : UInt64)
    (batch : OutboundReplicationBatch) (minAcks timeoutMs : Nat)
    (arrivals : List (UInt64 × Bool)) : Except HyperbytedbError Unit :=
  let peers := resolveReplicationPeers membership selfId batch.targetNodeIds
  let required := min minAcks peers.length
  if required = 0 then .ok ()
  else
    let acks := awaitAcks required 0 arrivals
    if required ≤ acks then .ok ()
    else .error (.replicationQuorumTimeout acks required timeoutMs)

/-- Replicate in the configured mode; `queued` is the answer of the asynchronous queue. -/
def dispatchOutboundReplication (config : ReplicationConfig) (membership : ClusterMembership)
    (selfId : UInt64) (queued : Except HyperbytedbError Unit)
    (arrivals : List (UInt64 × Bool)) (batch : OutboundReplicationBatch) :
    Except HyperbytedbError Unit :=
  match config.mode with
  | .async => queued
  | .syncQuorum =>
    let peerCount := match batch.targetNodeIds with
      | some targets => targets.length
      | none => (membership.replicationPeers selfId).length
    replicateWriteSync membership selfId batch (config.minAcks.resolve peerCount)
      config.ackTimeoutMs arrivals

/-! ## Ingestion of a sharded write -/

structure ForwardEntry where
  db : String
  rp : String
  precision : Option String
  enqueuedMs : Nat
  notBeforeMs : Nat
  attempts : Nat
  body : List UInt8

/-- What the forward queue shows to a write, and answers to its entry. -/
structure QueueView where
  nowMs : Nat
  oldestAgeMs : Nat
  bytes : Nat
  enqueue : Except HyperbytedbError Unit

structure QueueViews where
  direct : QueueView
  hold : QueueView

/-- What the append of the coordinator's own buckets meets. -/
structure LocalAppend where
  snapshot : Except HyperbytedbError ShardMap
  membership : ClusterMembership
  metadata : IngestState
  /-- The log's answer, with the sequence number of the entry. -/
  append : Except HyperbytedbError Nat
  dispatch : OutboundReplicationBatch → Except HyperbytedbError Unit

structure IngestCall where
  metadata : MetadataStore
  bootstrap : String → Except HyperbytedbError Unit
  snapshot : Except HyperbytedbError ShardMap
  cache : ShardLocationCache
  queue : Option QueueViews
  localAppend : LocalAppend
  forward : ForwardCall
  retries : Nat → ForwardCall

structure IngestTrace where
  appended : List Point := []
  exchanges : List Exchange := []
  queued : List ForwardEntry := []

def capacityRetries : Nat := 4

def forwardBackoffMs (attempts : Nat) : Nat :=
  min (50 <<< min attempts 5) 1000

def PointWire.encodeFrames (wire : PointWire) :
    List (List Point) → Except HyperbytedbError (List UInt8)
  | [] => .ok []
  | points :: rest =>
    match wire.encodePointsBinary points with
    | .error cause => .error cause
    | .ok frame =>
      match wire.encodeFrames rest with
      | .error cause => .error cause
      | .ok frames => .ok (frame ++ frames)

def appendPoints (maxPoints : Nat) (append : Except HyperbytedbError Nat)
    (points : List Point) : Except HyperbytedbError Nat :=
  if pointLimit maxPoints < points.length then
    .error (.requestPointLimitExceeded points.length (pointLimit maxPoints))
  else append

def MetadataStore.checkMaterialized (store : MetadataStore) (db rp measurement : String) :
    Except HyperbytedbError Unit :=
  if (store.getMeasurement db rp measurement).any fun stored =>
      stored.materialized && stored.materializedRp.all (· == rp) then
    .error (.writeToMaterializedDestination measurement)
  else .ok ()

def partialWriteError (failures regions : Nat) (allCapacity : Bool)
    (first : HyperbytedbError) : HyperbytedbError :=
  if allCapacity then
    .clusterUnavailable
      s!"{failures} of {regions} region primaries at write capacity; retry the batch"
  else
    let cause := first.message
    .shardMap (s!"write partially applied: {failures} of {regions} forwarded regions failed " ++
      s!"(local bucket applied); first error: {cause}")

def isCapacity : HyperbytedbError → Bool
  | .clusterUnavailable _ => true
  | _ => false

/-- Errors that pass: the primary is unreachable or at capacity. -/
def isHeld : HyperbytedbError → Bool
  | .peerUnreachable _ | .clusterUnavailable _ => true
  | _ => false

def droppedPoints : HyperbytedbError → Option Nat
  | .partialWrite _ dropped => some dropped
  | _ => none

def failedRegions (kind : HyperbytedbError → Bool) (results : RegionResults) : List UInt64 :=
  results.filterMap fun result =>
    match result.2 with
    | .ok () => none
    | .error cause => if kind cause then some result.1 else none

def forwardFailure (regions : Nat) (results : RegionResults) : Option HyperbytedbError :=
  let failures := results.filterMap fun result =>
    match result.2 with
    | .ok () => none
    | .error cause => some cause
  failures.head?.map fun first =>
    let refused := failures.filterMap droppedPoints
    match first with
    | .partialWrite reason dropped =>
      if refused.length = failures.length then .partialWrite reason refused.sum
      else partialWriteError failures.length regions (failures.all isCapacity)
        (.partialWrite reason dropped)
    | first => partialWriteError failures.length regions (failures.all isCapacity) first

structure PeerIngestionService extends WriteCoordinator where
  hashes : SchemaHashes
  limits : CardinalityLimitValues

namespace PeerIngestionService

variable (ingestion : PeerIngestionService) (db rp : String) (precision : Option String)

def enqueueForwards (view : QueueView) (forward : ExtTreeMap UInt64 (List Point))
    (notBeforeMs : Nat) : Option ForwardEntry :=
  match ingestion.service.wire.encodeFrames (forward.toList.map Prod.snd), view.enqueue with
  | .ok body, .ok () =>
    some { db, rp, precision, body, enqueuedMs := view.nowMs, notBeforeMs, attempts := 0 }
  | _, _ => none

variable (queue : Option QueueViews) (forward : ExtTreeMap UInt64 (List Point))

/-- Queue the forwards if asynchronous forwarding is on and the queue keeps up. -/
def queueForwards : Option ForwardEntry :=
  match queue with
  | none => none
  | some views =>
    let view := views.direct
    if forward.isEmpty || !ingestion.settings.asyncForward then none
    else if ingestion.settings.asyncForwardMaxLagMs < view.oldestAgeMs then none
    else if ingestion.settings.asyncForwardMaxBytes < view.bytes then none
    else ingestion.enqueueForwards db rp precision view forward 0

def holdFailedForwards (results : RegionResults) : RegionResults × Option ForwardEntry :=
  match queue with
  | none => (results, none)
  | some views =>
    let view := views.hold
    let failed := failedRegions isHeld results
    let held := forward.filter fun regionId _ => failed.contains regionId
    if held.isEmpty then (results, none)
    else if ingestion.settings.asyncForwardMaxBytes < view.bytes then (results, none)
    else
      match ingestion.enqueueForwards db rp precision view held
          (view.nowMs + forwardBackoffMs 0) with
      | none => (results, none)
      | some entry =>
        (results.map fun result =>
          if held.contains result.1 then (result.1, .ok ()) else result, some entry)

def retryRefusedRegions (forward : ExtTreeMap UInt64 (List Point)) :
    List ForwardCall → RegionResults → RegionResults × List Exchange
  | [], results => (results, [])
  | call :: rest, results =>
    let refused := failedRegions isCapacity results
    if refused.isEmpty then (results, [])
    else
      let (retried, exchanges) := ingestion.forwardShardWritesByNode db rp precision call
        (forward.filter fun regionId _ => refused.contains regionId)
      let (results, later) := retryRefusedRegions forward rest
        (results.filter (!refused.contains ·.1) ++ retried)
      (results, exchanges ++ later)

/-- The batch that replicates one of the coordinator's own buckets; the sequence number
is not known yet. -/
def localReplica (map : ShardMap) (membership : ClusterMembership)
    (bucket : UInt64 × List Point) : Except HyperbytedbError OutboundReplicationBatch :=
  match regionById map bucket.1 with
  | none =>
    let regionId := bucket.1
    .error (.shardMap s!"no region {regionId}")
  | some region =>
    match ingestion.service.encodeForwarded precision bucket.2 with
    | .error cause => .error cause
    | .ok body => .ok
        { database := db, retentionPolicy := rp, precision, body, walSeq := 0
          targetNodeIds := some (activeRegionPeerTargets region ingestion.nodeId membership)
          regionId := some bucket.1 }

/-- Append the coordinator's own buckets and replicate them.  Returns also the points
that are in the log. -/
def appendLocalBuckets (env : LocalAppend) (buckets : ExtTreeMap UInt64 (List Point)) :
    Except HyperbytedbError Unit × List Point :=
  if buckets.isEmpty then (.ok (), [])
  else
    let points := buckets.toList.flatMap Prod.snd
    let prepared : Except HyperbytedbError (List OutboundReplicationBatch × Nat) := do
      let map ← env.snapshot
      let replicas ← buckets.toList.mapM (ingestion.localReplica db rp precision map env.membership)
      let _ ← env.metadata.prepareBatchMetadata ingestion.hashes db rp ingestion.limits points
      let walSeq ← appendPoints ingestion.service.maxPointsPerRequest env.append points
      return (replicas, walSeq)
    match prepared with
    | .error cause => (.error cause, [])
    | .ok (replicas, walSeq) =>
      (replicas.forM fun batch => env.dispatch { batch with walSeq }, points)

def ingestShardedPoints (call : IngestCall) (points : List Point) :
    Except HyperbytedbError Unit × IngestTrace :=
  let measurements := (points.map (·.measurement)).eraseDups
  let routed : Except HyperbytedbError PointBuckets := do
    measurements.forM (call.metadata.checkMaterialized db rp)
    measurements.forM call.bootstrap
    let map ← call.snapshot
    (ingestion.service.partitionPoints ingestion.nodeId map call.cache db rp points).1
  match routed with
  | .error cause => (.error cause, {})
  | .ok buckets =>
    let (localResult, appended) := ingestion.appendLocalBuckets db rp precision
      call.localAppend buckets.localPoints
    match ingestion.queueForwards db rp precision call.queue buckets.forward with
    | some entry => (localResult, { appended, queued := [entry] })
    | none =>
      let (sent, exchanges) := ingestion.forwardShardWritesByNode db rp precision
        call.forward buckets.forward
      let (settled, retried) := ingestion.retryRefusedRegions db rp precision
        buckets.forward ((range capacityRetries).map call.retries) sent
      let (results, held) := ingestion.holdFailedForwards db rp precision call.queue
        buckets.forward settled
      let trace : IngestTrace :=
        { appended, exchanges := exchanges ++ retried, queued := held.toList }
      match localResult, forwardFailure buckets.forward.size results with
      | .error cause, _ => (.error cause, trace)
      | .ok (), some cause => (.error cause, trace)
      | .ok (), none => (.ok (), trace)

end PeerIngestionService

end HyperbyteDb
