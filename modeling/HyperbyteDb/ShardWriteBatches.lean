import HyperbyteDb.FirstFitGroups
import HyperbyteDb.PreparedWalSlots
import HyperbyteDb.ShardedIngest

/-!
# Forwarded and replicated parts at the receiver

A primary checks, parses and splits each part of a request on its own.
-/

namespace HyperbyteDb

structure PrimaryState where
  metadata : IngestState := {}
  wal : List WalEntry := []

/-- What one request meets: the shard map (`none` without sharding), the log's answer to
appends and the outcome of a part's replication. -/
structure PrimaryCall where
  snapshot : Option (Except HyperbytedbError ShardMap)
  append : Except HyperbytedbError Nat
  replicate : ShardWriteRequest → ShardRegion → Except HyperbytedbError Unit

structure PartAnswer where
  result : ShardWritePartResult
  appended : List Point := []
deriving DecidableEq

structure ReadyPart where
  request : ShardWriteRequest
  region : ShardRegion
  points : List Point
  /-- The partial write to report once the kept points are written. -/
  partialWrite : Option String

/-- Parts of one database and retention policy that share an append. -/
structure ForwardGroup where
  db : String
  rp : String
  members : List (Nat × ReadyPart)

def ForwardGroup.points (group : ForwardGroup) : List Point :=
  group.members.flatMap (·.2.points)

structure ShardPrimary where
  service : ShardWriteService
  hashes : SchemaHashes
  limits : CardinalityLimitValues
  nodeId : UInt64
  /-- The JSON text of an error. -/
  errorJson : String → String

namespace ForwardGroup

/-- The group is for the part's database and retention policy and has room for it. -/
def takes (limit : Nat) (group : ForwardGroup) (member : Nat × ReadyPart) : Bool :=
  group.db == member.2.request.db && group.rp == member.2.request.rp &&
    group.points.length + member.2.points.length ≤ limit

def add (group : ForwardGroup) (member : Nat × ReadyPart) : ForwardGroup :=
  { group with members := group.members ++ [member] }

def start (member : Nat × ReadyPart) : ForwardGroup :=
  ⟨member.2.request.db, member.2.request.rp, [member]⟩

end ForwardGroup

def replicateForwardedPart (nodeId : UInt64) (membership : ClusterMembership)
    (request : ShardWriteRequest) (region : ShardRegion) (walSeq : Nat) :
    OutboundReplicationBatch where
  database := request.db
  retentionPolicy := request.rp
  precision := request.precision
  body := request.body
  walSeq := walSeq
  targetNodeIds := some (activeRegionPeerTargets region nodeId membership)
  regionId := some region.regionId

namespace ShardPrimary

variable (primary : ShardPrimary)

def partResult (regionId : UInt64) (status : Nat) (error : Option String) : ShardWritePartResult :=
  ⟨regionId, status, error.map primary.errorJson⟩

def refusedPart (request : ShardWriteRequest) (refusal : Nat × String) : PartAnswer :=
  ⟨primary.partResult request.regionId refusal.1 (some refusal.2), []⟩

/-- Drop the points of a part that conflict with the stored types.  The kept points then
replace the body, so that replicas get what is written here. -/
def splitForwardedConflicts (store : MetadataStore) (request : ShardWriteRequest)
    (points : List Point) :
    Except HyperbytedbError (ShardWriteRequest × List Point × Option String) :=
  match splitFieldTypeConflicts store request.db request.rp points with
  | (kept, none) => .ok (request, kept, none)
  | ([], some cause) => .ok (request, [], some cause.message)
  | (first :: rest, some cause) =>
    match primary.service.wire.encodePointsBinary (first :: rest) with
    | .error failure => .error failure
    | .ok body => .ok ({ request with body }, first :: rest, some cause.message)

def parsePart (request : ShardWriteRequest) : Except HyperbytedbError (List Point) :=
  primary.service.wire.parseLineBodyToPointsLimited request.precision
    primary.service.maxPointsPerRequest request.body

def checkPart (map : ShardMap) (store : MetadataStore) (request : ShardWriteRequest) :
    Except (Nat × String) ReadyPart :=
  match forwardedWriteRegion map primary.nodeId request with
  | .error refusal => .error refusal
  | .ok region =>
    match primary.parsePart request with
    | .error cause => .error (400, cause.message)
    | .ok points =>
      match primary.splitForwardedConflicts store request points with
      | .error cause => .error (500, cause.message)
      | .ok (_, [], some message) => .error (400, message)
      | .ok (request, kept, partialWrite) =>
        .ok { request, region, points := kept, partialWrite }

def appendForwardedGroup (call : PrimaryCall) (state : PrimaryState) (db rp : String)
    (points : List Point) : Except (Nat × String) Unit × PrimaryState :=
  match state.metadata.prepareBatchMetadata primary.hashes db rp primary.limits points with
  | .error cause => (.error (422, cause.message), state)
  | .ok metadata =>
    match appendPoints primary.service.maxPointsPerRequest call.append points with
    | .error cause => (.error (500, cause.message), { state with metadata })
    | .ok _ => (.ok (), { metadata, wal := state.wal ++ [⟨db, rp, points, primary.nodeId⟩] })

def replicatedPart (call : PrimaryCall) (part : ReadyPart) : PartAnswer where
  result :=
    match call.replicate part.request part.region with
    | .error cause => primary.partResult part.request.regionId 500 (some cause.message)
    | .ok () =>
      match part.partialWrite with
      | some message => primary.partResult part.request.regionId 400 (some message)
      | none => primary.partResult part.request.regionId 204 none
  appended := part.points

/-- The answer to a part, given what became of its group. -/
def memberAnswer (call : PrimaryCall) (outcome : Except (Nat × String) Unit)
    (part : ReadyPart) : PartAnswer :=
  match outcome with
  | .error refusal => primary.refusedPart part.request refusal
  | .ok () => primary.replicatedPart call part

def settleGroups (call : PrimaryCall) (state : PrimaryState) :
    List ForwardGroup → List (Nat × PartAnswer) × PrimaryState
  | [] => ([], state)
  | group :: rest =>
    let (outcome, after) := primary.appendForwardedGroup call state group.db group.rp group.points
    let (later, final) := settleGroups call after rest
    (group.members.map (fun member =>
      (member.1, primary.memberAnswer call outcome member.2)) ++ later, final)

variable (map : ShardMap) (store : MetadataStore) (parts : List ShardWriteRequest)

def readyParts : List (Nat × ReadyPart) :=
  parts.zipIdx.filterMap fun (request, index) =>
    (primary.checkPart map store request).toOption.map (index, ·)

def refusedParts : List (Nat × PartAnswer) :=
  parts.zipIdx.filterMap fun (request, index) =>
    match primary.checkPart map store request with
    | .ok _ => none
    | .error refusal => some (index, primary.refusedPart request refusal)

def forwardGroups : List ForwardGroup :=
  FirstFitGroups.gather
    (ForwardGroup.takes (pointLimit primary.service.maxPointsPerRequest)) ForwardGroup.add
    ForwardGroup.start (primary.readyParts map store parts)

def unprocessedPart : PartAnswer :=
  ⟨primary.partResult 0 500 (some "part not processed"), []⟩

def applyShardWriteBatch (call : PrimaryCall) (state : PrimaryState)
    (parts : List ShardWriteRequest) : List PartAnswer × PrimaryState :=
  match call.snapshot with
  | none => (parts.map (primary.refusedPart · (400, "sharding disabled")), state)
  | some (.error cause) => (parts.map (primary.refusedPart · (500, cause.message)), state)
  | some (.ok map) =>
    let refused := primary.refusedParts map state.metadata.store parts
    let (settled, after) := primary.settleGroups call state
      (primary.forwardGroups map state.metadata.store parts)
    ((List.range parts.length).map fun index =>
      ((refused ++ settled).lookup index).getD primary.unprocessedPart, after)

def applyOneByOne (call : PrimaryCall) (state : PrimaryState) :
    List ShardWriteRequest → List PartAnswer × PrimaryState
  | [] => ([], state)
  | part :: rest =>
    let (answers, after) := primary.applyShardWriteBatch call state [part]
    let (later, final) := applyOneByOne call after rest
    (answers ++ later, final)

end ShardPrimary

/-! ## Replicated parts at the receiver -/

structure ReplicateBatchPart where
  database : String
  retentionPolicy : String
  precision : Option String
  regionId : Option UInt64
  body : List UInt8

structure ReplicateBatchRequest where
  originNode : UInt64
  parts : List ReplicateBatchPart

inductive ReplicatePartOutcome where
  | accepted
  | notARegionPeer
  | queueFull
  | failed (message : String)
deriving DecidableEq

inductive EnqueueAnswer where
  | queued
  | full
  | workerGone
deriving DecidableEq

structure ApplyJob where
  database : String
  retentionPolicy : String
  precision : Option String
  body : List UInt8
  originNodeId : UInt64

structure ReplicateApplyGroup where
  database : String
  retentionPolicy : String
  precision : Option String
  parts : List Nat
  body : List UInt8

namespace ReplicateApplyGroup

variable (group : ReplicateApplyGroup) (part : ReplicateBatchPart × Nat)

def takes : Bool :=
  group.database == part.1.database && group.retentionPolicy == part.1.retentionPolicy &&
    group.precision == part.1.precision &&
    isBinaryPoints group.body == isBinaryPoints part.1.body

/-- Frames skip whitespace between them, so one separator serves both encodings. -/
def add : ReplicateApplyGroup :=
  { group with parts := group.parts ++ [part.2], body := group.body ++ 10 :: part.1.body }

def start : ReplicateApplyGroup :=
  ⟨part.1.database, part.1.retentionPolicy, part.1.precision, [part.2], part.1.body⟩

def job (origin : UInt64) (group : ReplicateApplyGroup) : ApplyJob :=
  ⟨group.database, group.retentionPolicy, group.precision, group.body, origin⟩

end ReplicateApplyGroup

def ReplicateBatchPart.job (origin : UInt64) (part : ReplicateBatchPart) : ApplyJob :=
  ⟨part.database, part.retentionPolicy, part.precision, part.body, origin⟩

/-- What the checks of a part answer, before the queue is asked. -/
def replicatePartOutcome (isPeer : UInt64 → Bool) (part : ReplicateBatchPart) :
    ReplicatePartOutcome :=
  if part.database = "" ∨ part.retentionPolicy = "" then
    .failed "missing database or retention policy"
  else if part.regionId.any (!isPeer ·) then .notARegionPeer
  else .accepted

def groupReplicateParts (isPeer : UInt64 → Bool) (parts : List ReplicateBatchPart) :
    List ReplicatePartOutcome × List ReplicateApplyGroup :=
  (parts.map (replicatePartOutcome isPeer),
    FirstFitGroups.gather ReplicateApplyGroup.takes ReplicateApplyGroup.add
      ReplicateApplyGroup.start
      (parts.zipIdx.filter fun part => replicatePartOutcome isPeer part.1 = .accepted))

structure ReplicaState where
  metadata : IngestState := {}
  wal : List WalEntry := []

structure ReplicaNode where
  wire : PointWire
  hashes : SchemaHashes
  limits : CardinalityLimitValues
  maxPointsPerRequest : Nat
  shardingEnabled : Bool
  nodeId : UInt64
  membership : Option ClusterMembership

/-- What one request meets: whether the apply queue is configured and what it says to
the jobs in turn, and the shard map (`none` without sharding). -/
structure ReplicateCall where
  queueConfigured : Bool
  snapshot : Option (Except HyperbytedbError ShardMap)
  enqueue : Nat → EnqueueAnswer

def settleOutcomes (enqueue : Nat → EnqueueAnswer) (outcomes : List ReplicatePartOutcome)
    (groups : List ReplicateApplyGroup) : List ReplicatePartOutcome :=
  groups.zipIdx.foldl (fun outcomes group =>
    match enqueue group.2 with
    | .queued => outcomes
    | .full => group.1.parts.foldl (fun outcomes index => outcomes.set index .queueFull) outcomes
    | .workerGone => group.1.parts.foldl (fun outcomes index =>
      outcomes.set index (.failed "replication apply worker unavailable")) outcomes)
    outcomes

def queuedGroups (enqueue : Nat → EnqueueAnswer) (groups : List ReplicateApplyGroup) :
    List ReplicateApplyGroup :=
  groups.zipIdx.filterMap fun group =>
    match enqueue group.2 with
    | .queued => some group.1
    | .full | .workerGone => none

namespace ReplicaNode

variable (node : ReplicaNode)

def validateOriginNodeId (originNode : UInt64) : Bool :=
  originNode == 0 || node.membership.any fun members => (members.getNode originNode).isSome

/-- Only a region that is known not to be held here is refused. -/
def isRegionPeer (call : ReplicateCall) (regionId : UInt64) : Bool :=
  match call.snapshot with
  | some (.ok map) => (regionById map regionId).all (·.peers.contains node.nodeId)
  | _ => true

def handleReplicateBatch (call : ReplicateCall) (request : ReplicateBatchRequest) :
    Except (Nat × String) (List ReplicatePartOutcome × List ApplyJob) :=
  if !node.validateOriginNodeId request.originNode then .error (400, "invalid origin node id")
  else if !call.queueConfigured then .error (500, "replication apply queue not configured")
  else
    let (outcomes, groups) := groupReplicateParts (node.isRegionPeer call) request.parts
    .ok (settleOutcomes call.enqueue outcomes groups,
      (queuedGroups call.enqueue groups).map (·.job request.originNode))

/-- A replica of a sharded cluster leaves the limits to the primary. -/
def replicaMetadataLimits : CardinalityLimitValues :=
  if node.shardingEnabled then {} else node.limits

def verifyReplicationPeer (originNodeId : UInt64) : Except HyperbytedbError Unit :=
  if !node.shardingEnabled || originNodeId == node.nodeId then .ok ()
  else if node.membership.all (fun members => (members.getNode originNodeId).isSome) then .ok ()
  else .error (.internal s!"replicate apply rejected: unknown origin peer {originNodeId}")

variable (append : Except HyperbytedbError Nat) (state : ReplicaState)

def applyBatch (job : ApplyJob) : Except HyperbytedbError Unit × ReplicaState :=
  if job.body = [] then (.ok (), state)
  else
    match node.verifyReplicationPeer job.originNodeId with
    | .error cause => (.error cause, state)
    | .ok () =>
      match node.wire.parseLineBodyToPointsLimited job.precision node.maxPointsPerRequest
          job.body with
      | .error cause => (.error cause, state)
      | .ok [] => (.ok (), state)
      | .ok (first :: rest) =>
        match state.metadata.prepareBatchMetadata node.hashes job.database
            job.retentionPolicy node.replicaMetadataLimits (first :: rest) with
        | .error cause => (.error cause, state)
        | .ok metadata =>
          match appendPoints node.maxPointsPerRequest append (first :: rest) with
          | .error cause => (.error cause, { state with metadata })
          | .ok _ => (.ok (), { metadata, wal := state.wal ++
              [⟨job.database, job.retentionPolicy, first :: rest, job.originNodeId⟩] })

def applyJobs (jobs : List ApplyJob) : ReplicaState :=
  jobs.foldl (fun state job => (node.applyBatch append state job).2) state

end ReplicaNode

def acceptedJobs (request : ReplicateBatchRequest) (outcomes : List ReplicatePartOutcome) :
    List ApplyJob :=
  (request.parts.zip outcomes).filterMap fun answered =>
    if answered.2 = .accepted then some (answered.1.job request.originNode) else none

/-- The points in a log with where they belong and whose they are. -/
def walRows (wal : List WalEntry) : List (String × String × UInt64 × Point) :=
  wal.flatMap fun entry =>
    entry.points.map (entry.database, entry.retentionPolicy, entry.originNodeId, ·)

end HyperbyteDb
