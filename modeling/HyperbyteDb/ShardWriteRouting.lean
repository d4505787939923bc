import HyperbyteDb.ClusterMembership
import HyperbyteDb.KeyedBatches
import HyperbyteDb.PointFrames
import HyperbyteDb.ServingRegions
import HyperbyteDb.ShardEpochFencing

/-!
# Routing the points of a sharded write

The coordinator sorts the points of a batch into buckets, one for each region, and appends the
buckets of its own regions.
-/

namespace HyperbyteDb

open List

/-- Whatever the map stores under the identifier of `region` is `region` itself or is
at a later epoch. -/
structure ShardMap.Follows (map : ShardMap) (region : ShardRegion) : Prop where
  allocated : region.regionId < map.nextRegionId
  later : ∀ key found, map.Stores key found → found.regionId = region.regionId →
    found = region ∨ region.epoch.isBehind found.epoch = true

variable {map : ShardMap} {key : MeasurementKey}

theorem IdsAllocated.stores_unique (allocated : IdsAllocated map)
    {firstKey secondKey : MeasurementKey} {first second : ShardRegion}
    (firstStored : map.Stores firstKey first) (secondStored : map.Stores secondKey second)
    (sameId : first.regionId = second.regionId) : first = second := by
  obtain ⟨spaces, apart⟩ := map.regionIds_nodup_iff.mp allocated.distinct
  obtain rfl := apart firstKey secondKey first second firstStored secondStored sameId
  obtain ⟨space, lookup, firstMember⟩ := firstStored
  obtain ⟨same, sameLookup, secondMember⟩ := secondStored
  obtain rfl := Option.some.inj (lookup.symm.trans sameLookup)
  exact inj_on_of_nodup_map (spaces firstKey space lookup) firstMember secondMember sameId

variable {region : ShardRegion}

theorem IdsAllocated.follows (allocated : IdsAllocated map) (stored : map.Stores key region) :
    map.Follows region where
  allocated := allocated.below key region stored
  later _ _ found sameId := Or.inl (allocated.stores_unique found stored sameId)

/-- What an operation must carry for region names to stay unambiguous: it creates no
measurement, and its replay would be refused. -/
structure ShardMapOp.KeepsVersions (op : ShardMapOp) (map : ShardMap) : Prop where
  notCreated : op.bootstrapRegions = none
  fenced : op.ReplayFenced map
  versionBelow : map.mapVersion < UInt64.maxValue

variable {found : ShardRegion}

theorem ShardMap.Follows.of_ahead {old : ShardRegion} (follows : map.Follows region)
    (stored : map.Stores key old) (sameId : old.regionId = region.regionId)
    (ahead : old.epoch.isBehind found.epoch = true) : region.epoch.isBehind found.epoch = true := by
  rcases follows.later key old stored sameId with rfl | behind
  · exact ahead
  · exact ShardEpoch.isBehind_trans behind ahead

variable {after : ShardMap} {op : ShardMapOp}

/-- A region that was followed before an operation is followed after it. -/
theorem ShardMap.Follows.applied (follows : map.Follows region) (applied : Applied map op after)
    (keeps : op.KeepsVersions map) : after.Follows region := by
  refine ⟨lt_of_lt_of_le follows.allocated applied.nextRegionId_le, ?_⟩
  intro key found stored sameId
  cases applied.origin stored with
  | kept stored => exact follows.later key found stored sameId
  | carried source isKey installed same =>
    rw [sameId] at installed
    obtain ⟨fence, member, -, fenceId, ahead⟩ := applied.installed_ahead
      keeps.fenced.keepsIds isKey keeps.notCreated installed follows.allocated
    obtain ⟨old, oldStored, oldId, oldEpoch⟩ := applied.openIn member
    rw [← oldEpoch, ← same.epochEq] at ahead
    exact Or.inr (follows.of_ahead oldStored (oldId.trans fenceId) ahead)
  | edited change isEdit keyEq old oldStored oldId oldEpoch edited editEq regionEq =>
    have frame := ShardMapOp.regionEdit_frame isEdit editEq
    have below := keeps.fenced.belowTop ⟨change.key, change.regionId, change.epoch⟩
      (by simp [ShardMapOp.fences_of_regionEdit isEdit])
    have oldSame : old.regionId = region.regionId := by
      rw [← sameId, regionEq]
      exact frame.1.symm
    have ahead : old.epoch.isBehind found.epoch = true := by
      rw [regionEq, oldEpoch]
      exact ShardEpoch.isBehind_bumpConfVer below
    exact Or.inr (follows.of_ahead oldStored oldSame ahead)

theorem ShardMap.Follows.eq_of_epoch (follows : map.Follows region) (stored : map.Stores key found)
    (sameId : found.regionId = region.regionId) (sameEpoch : found.epoch = region.epoch) :
    found = region := by
  rcases follows.later key found stored sameId with same | behind
  · exact same
  · exact absurd sameEpoch.symm (ShardEpoch.isBehind_iff.mp behind).1

theorem Applied.mapVersion_eq (applied : Applied map op after) :
    after.mapVersion = map.mapVersion.saturatingAdd 1 := by
  cases applied <;> rfl

structure ShardMap.Precedes (earlier later : ShardMap) : Prop where
  version : earlier.mapVersion < later.mapVersion
  follows : ∀ key region, earlier.Stores key region → later.Follows region

structure Lineage (maps : List ShardMap) : Prop where
  valid : ∀ map ∈ maps, map.Valid
  allocated : ∀ map ∈ maps, IdsAllocated map
  ordered : maps.Pairwise ShardMap.Precedes

namespace Lineage

variable {maps : List ShardMap}

theorem singleton (valid : map.Valid) (allocated : IdsAllocated map) : Lineage [map] where
  valid _ member := mem_singleton.mp member ▸ valid
  allocated _ member := mem_singleton.mp member ▸ allocated
  ordered := pairwise_singleton _ _

/-- An accepted operation on the newest map continues the history. -/
theorem commit (lineage : Lineage (maps ++ [map])) (applied : Applied map op after)
    (keeps : op.KeepsVersions map) : Lineage (maps ++ [map] ++ [after]) := by
  have member : map ∈ maps ++ [map] := by simp
  have version : map.mapVersion < after.mapVersion := by
    rw [applied.mapVersion_eq]
    exact UInt64.lt_saturatingAdd_one keeps.versionBelow
  have now : map.Precedes after :=
    ⟨version, fun _ _ stored =>
      ((lineage.allocated map member).follows stored).applied applied keeps⟩
  refine ⟨?_, ?_, pairwise_append.mpr ⟨lineage.ordered, pairwise_singleton _ _, ?_⟩⟩
  · simp only [forall_mem_append, forall_mem_singleton]
    exact ⟨forall_mem_append.mp lineage.valid |>.imp_right
      (forall_mem_singleton.mp ·), applied.valid (lineage.valid map member)⟩
  · simp only [forall_mem_append, forall_mem_singleton]
    exact ⟨forall_mem_append.mp lineage.allocated |>.imp_right
      (forall_mem_singleton.mp ·),
      applied.idsAllocated (lineage.allocated map member) keeps.fenced.allocates⟩
  · intro earlier earlierMember later laterMember
    obtain rfl := mem_singleton.mp laterMember
    rcases mem_append.mp earlierMember with old | newest
    · have before := (pairwise_append.mp lineage.ordered).2.2 earlier old map (by simp)
      exact ⟨lt_trans before.version version, fun key region stored =>
        (before.follows key region stored).applied applied keeps⟩
    · exact mem_singleton.mp newest ▸ now

/-- Two maps of a history agree on what a region name and an epoch stand for. -/
theorem same_region (lineage : Lineage maps) {first second : ShardMap} (firstMember : first ∈ maps)
    (secondMember : second ∈ maps) {firstKey secondKey : MeasurementKey}
    (stored : first.Stores firstKey region) (foundStored : second.Stores secondKey found)
    (sameId : found.regionId = region.regionId) (sameEpoch : found.epoch = region.epoch) :
    found = region := by
  obtain ⟨i, iBound, rfl⟩ := mem_iff_getElem.mp firstMember
  obtain ⟨j, jBound, rfl⟩ := mem_iff_getElem.mp secondMember
  have ordered := pairwise_iff_getElem.mp lineage.ordered
  rcases lt_trichotomy i j with before | rfl | after
  · exact ((ordered i j iBound jBound before).follows _ _ stored).eq_of_epoch foundStored
      sameId sameEpoch
  · exact (lineage.allocated _ firstMember).stores_unique foundStored stored sameId
  · exact (((ordered j i jBound iBound after).follows _ _ foundStored).eq_of_epoch stored
      sameId.symm sameEpoch.symm).symm

def versionHistory (lineage : Lineage maps) : VersionHistory where
  Includes map := map ∈ maps
  valid := lineage.valid
  unique first second firstMember secondMember sameVersion := by
    obtain ⟨i, iBound, rfl⟩ := mem_iff_getElem.mp firstMember
    obtain ⟨j, jBound, rfl⟩ := mem_iff_getElem.mp secondMember
    have ordered := pairwise_iff_getElem.mp lineage.ordered
    rcases lt_trichotomy i j with before | rfl | after
    · exact absurd sameVersion (ne_of_lt (ordered i j iBound jBound before).version)
    · rfl
    · exact absurd sameVersion.symm (ne_of_lt (ordered j i jBound iBound after).version)

end Lineage

end HyperbyteDb

namespace HyperbyteDb

open KeyedBatches List Option Std

section

inductive RegionTargetRole where
  | read
  /-- Aggregates prefer the primary's copy. -/
  | primaryRead
  | write
  | replicate
deriving DecidableEq

namespace ClusterMembership

variable (membership : ClusterMembership)

variable (nodeId : UInt64)

def getNode : Option NodeInfo :=
  membership.nodes[nodeId]?

/-- A decommissioning node is alive and holds its regions until they have moved
off. -/
def isServingNode : Bool :=
  (membership.getNode nodeId).any fun node =>
    node.state == .active || node.state == .decommissioning

/-- A draining node still answers reads. -/
def isReadableNode : Bool :=
  membership.isServingNode nodeId ||
    (membership.getNode nodeId).any fun node => node.state == .draining

def peerAddr : Option String :=
  (membership.getNode nodeId).map (·.addr)

end ClusterMembership

variable (region : ShardRegion) (selfId : UInt64) (membership : ClusterMembership)

/-- The candidates for a read, in order of preference and without repetition. -/
def readCandidates (preferred : List UInt64) : List UInt64 :=
  (preferred ++ selfId :: region.primary :: region.peers).eraseDups.filter fun peer =>
    region.isServingPeer peer && membership.isReadableNode peer

def resolveRegionPeers (role : RegionTargetRole) : List UInt64 :=
  if region.isServing then
    match role with
    | .write =>
      if region.isServingPeer region.primary && membership.isServingNode region.primary
      then [region.primary] else []
    | .replicate =>
      region.peers.filter fun peer => peer != selfId && membership.isServingNode peer
    | .primaryRead => readCandidates region selfId membership [region.primary]
    | .read => readCandidates region selfId membership []
  else []

def activeRegionPeerTargets : List UInt64 :=
  (resolveRegionPeers region selfId membership .replicate).filter (· != selfId)

variable {region : ShardRegion} {selfId : UInt64} {membership : ClusterMembership}

/-- Replication goes to the serving members other than the sender. -/
theorem mem_activeRegionPeerTargets {peer : UInt64} :
    peer ∈ activeRegionPeerTargets region selfId membership ↔
      region.isServing = true ∧ peer ∈ region.peers ∧ peer ≠ selfId ∧
        membership.isServingNode peer = true := by
  unfold activeRegionPeerTargets resolveRegionPeers
  cases region.isServing with
  | false => simp
  | true =>
    simp only [if_true, List.mem_filter, bne_iff_ne, Bool.and_eq_true]
    tauto

end

/-! ## Routing the points of a sharded write -/

/-- Region identifiers are meant to be unique in the whole map. -/
def regionById (map : ShardMap) (regionId : UInt64) : Option ShardRegion :=
  (map.spaces.toList.flatMap fun entry => entry.2.regions).find? (·.regionId == regionId)

def lookupRegionInDbRp (map : ShardMap) (db rp : String) (regionId : UInt64) : Option ShardRegion :=
  map.spaces.toList.findSome? fun entry =>
    if entry.2.key.db != db || entry.2.key.rp != rp then none
    else entry.2.regions.find? (·.regionId == regionId)

/-- A part of a write for the primary of one region. -/
structure ShardWriteRequest where
  db : String
  rp : String
  precision : Option String
  epoch : ShardEpoch
  regionId : UInt64
  body : List UInt8
deriving DecidableEq

/-- What the nodes of a cluster share on the write path. -/
structure ShardWriteService where
  wire : PointWire
  seriesId : String → ExtTreeMap String String → UInt64
  binaryPointsWire : Bool
  maxPointsPerRequest : Nat

structure PointBuckets where
  /-- The regions that the coordinator is the primary of. -/
  localPoints : ExtTreeMap UInt64 (List Point) := ∅
  forward : ExtTreeMap UInt64 (List Point) := ∅

namespace ShardWriteService

variable (service : ShardWriteService)

def seriesIdForPoint (point : Point) : UInt64 :=
  service.seriesId point.measurement point.tags

/-- Sort points into the buckets, looking each of them up in the cache. -/
def placePoints (selfId : UInt64) (map : ShardMap) (db rp : String)
    (buckets : PointBuckets) (cache : ShardLocationCache) :
    List Point → Except HyperbytedbError PointBuckets × ShardLocationCache
  | [] => (.ok buckets, cache)
  | point :: rest =>
    let seriesId := service.seriesIdForPoint point
    match cache.locateRoute map ⟨db, rp, point.measurement⟩ seriesId selfId with
    | (none, cache) => (.error (.shardMap s!"no region for series_id {seriesId}"), cache)
    | (some route, cache) =>
      if route.selfIsPeer && route.primary == selfId then
        placePoints selfId map db rp { buckets with
          localPoints := push buckets.localPoints route.regionId point }
          cache rest
      else
        placePoints selfId map db rp { buckets with
          forward := push buckets.forward route.regionId point } cache rest

def partitionPoints (selfId : UInt64) (map : ShardMap) (cache : ShardLocationCache)
    (db rp : String) (points : List Point) :
    Except HyperbytedbError PointBuckets × ShardLocationCache :=
  match points.find? fun point => (map.space ⟨db, rp, point.measurement⟩).isNone with
  | some point =>
    let measurement := point.measurement
    (.error (.shardMap s!"measurement {db}.{rp}.{measurement} not bootstrapped"), cache)
  | none => service.placePoints selfId map db rp {} cache points

def encodeForwarded (precision : Option String) (points : List Point) :
    Except HyperbytedbError (List UInt8) :=
  if service.binaryPointsWire then service.wire.encodePointsBinary points
  else service.wire.encodeLines precision points

end ShardWriteService

def forwardNode (region : ShardRegion) (selfId : UInt64)
    (membership : ClusterMembership) : Option UInt64 :=
  match (resolveRegionPeers region selfId membership .write).head? with
  | some node => if node != selfId then some node else none
  | none => none

/-- Regions by the node that takes their writes, and the regions without one. -/
def groupForwardsByPrimary (regions : List ShardRegion) (selfId : UInt64)
    (membership : ClusterMembership) : ExtTreeMap UInt64 (List UInt64) × List UInt64 :=
  (collect Prod.fst Prod.snd (regions.filterMap fun region =>
      (forwardNode region selfId membership).map (·, region.regionId)),
    (regions.filter fun region => (forwardNode region selfId membership).isNone).map (·.regionId))

/-- Requests by node, regions left to the single-region path, and regions whose points
could not be encoded. -/
structure ForwardPlan where
  sends : List (UInt64 × List ShardWriteRequest) := []
  single : List UInt64 := []
  failed : List (UInt64 × HyperbytedbError) := []

/-- The regions of the snapshot with these identifiers, and the identifiers it does
not know. -/
def findRegions (snapshot : Except HyperbytedbError ShardMap) (regionIds : List UInt64) :
    List ShardRegion × List UInt64 :=
  match snapshot with
  | .ok map => (regionIds.filterMap (regionById map),
      regionIds.filter fun regionId => (regionById map regionId).isNone)
  | .error _ => ([], regionIds)

namespace ShardWriteService

variable (service : ShardWriteService)

def forwardPart (db rp : String) (precision : Option String) (regions : List ShardRegion)
    (forward : ExtTreeMap UInt64 (List Point)) (regionId : UInt64) :
    Option (Except (UInt64 × HyperbytedbError) ShardWriteRequest) :=
  forward[regionId]?.map fun points =>
    match service.encodeForwarded precision points with
    | .ok body => .ok
        { db, rp, precision, regionId, body
          epoch := ((regions.find? (·.regionId == regionId)).map (·.epoch)).getD {} }
    | .error cause => .error (regionId, cause)

/-- What `forward_shard_writes_by_node` sends, before any answer.  A node without an
address leaves its regions to the single-region path. -/
def planForwards (selfId : UInt64) (snapshot : Except HyperbytedbError ShardMap)
    (membership : ClusterMembership) (db rp : String) (precision : Option String)
    (forward : ExtTreeMap UInt64 (List Point)) : ForwardPlan :=
  let (regions, missing) := findRegions snapshot forward.keys
  let (byNode, unrouted) := groupForwardsByPrimary regions selfId membership
  let addressed := byNode.toList.filter fun group => (membership.peerAddr group.1).isSome
  let lost := byNode.toList.filter fun group => (membership.peerAddr group.1).isNone
  let parts := fun regionIds : List UInt64 =>
    regionIds.filterMap (service.forwardPart db rp precision regions forward)
  { sends := addressed.map fun group => (group.1, (parts group.2).filterMap Except.toOption)
    single := missing ++ unrouted ++ lost.flatMap (·.2)
    failed := addressed.flatMap fun group => (parts group.2).filterMap fun part =>
      match part with
      | .ok _ => none
      | .error failure => some failure }

end ShardWriteService

namespace ShardLocationCache

def checkEpoch (cache : ShardLocationCache) (map : ShardMap) (key : MeasurementKey)
    (seriesId : UInt64) (epoch : ShardEpoch) : Bool :=
  match cache.freshEntry map key with
  | some cached => (locateInRegions cached.regions seriesId).any (·.epoch == epoch)
  | none => (map.locate key seriesId).any (·.epoch == epoch)

end ShardLocationCache

namespace ShardWriteService

variable (service : ShardWriteService)

def singleRequest (map : ShardMap) (cache : ShardLocationCache) (db rp : String)
    (precision : Option String) (first : Point) (rest : List Point) :
    Except HyperbytedbError (ShardRegion × ShardWriteRequest) × ShardLocationCache :=
  let key : MeasurementKey := ⟨db, rp, first.measurement⟩
  let seriesId := service.seriesIdForPoint first
  match cache.locate map key seriesId with
  | (none, cache) => (.error (.shardMap "region missing for forward"), cache)
  | (some region, cache) =>
    if cache.checkEpoch map key seriesId region.epoch then
      match service.wire.encodeLines precision (first :: rest) with
      | .error cause => (.error cause, cache)
      | .ok body =>
        (.ok (region,
          { db, rp, precision, epoch := region.epoch, regionId := region.regionId, body }),
          cache)
    else
      (.error (.staleShardEpoch region.regionId), cache.invalidateMeasurement key)

end ShardWriteService

/-- The addressable nodes that a scattered request is tried on. -/
def scatterTargets (region : ShardRegion) (selfId : UInt64)
    (membership : ClusterMembership) (role : RegionTargetRole) (maxAttempts : Nat) : List UInt64 :=
  (((resolveRegionPeers region selfId membership role).filter (· != selfId)).take
    (max maxAttempts 1)).filter fun peer => (membership.peerAddr peer).isSome

def forwardedWriteRegion (map : ShardMap) (nodeId : UInt64) (request : ShardWriteRequest) :
    Except (Nat × String) ShardRegion :=
  match lookupRegionInDbRp map request.db request.rp request.regionId with
  | none => .error (404, "region not found")
  | some region =>
    if region.epoch != request.epoch then .error (409, "stale epoch")
    else if !region.peers.contains nodeId then .error (403, "not owner")
    else if region.primary != nodeId then .error (409, "not region primary")
    else .ok region

variable {map : ShardMap} {region : ShardRegion}

section Lookups

variable {regionId : UInt64}

theorem stores_of_regionById (found : regionById map regionId = some region) :
    (∃ key, map.Stores key region) ∧ region.regionId = regionId := by
  have member := mem_of_find?_eq_some found
  obtain ⟨entry, stored, inside⟩ := mem_flatMap.mp member
  refine ⟨⟨entry.1, entry.2, ?_, inside⟩, by simpa using find?_some found⟩
  exact ExtTreeMap.mem_toList_iff_getElem?_eq_some.mp stored

theorem IdsAllocated.regionById_eq (allocated : IdsAllocated map) {key : MeasurementKey}
    (stored : map.Stores key region) : regionById map region.regionId = some region := by
  obtain ⟨space, lookup, inside⟩ := stored
  have member : region ∈ map.spaces.toList.flatMap fun entry => entry.2.regions :=
    mem_flatMap.mpr ⟨(key, space), ExtTreeMap.mem_toList_iff_getElem?_eq_some.mpr lookup, inside⟩
  have some : (regionById map region.regionId).isSome = true :=
    find?_isSome.mpr ⟨region, member, by simp⟩
  obtain ⟨found, foundEq⟩ := isSome_iff_exists.mp some
  obtain ⟨⟨other, otherStored⟩, sameId⟩ := stores_of_regionById foundEq
  rw [foundEq, allocated.stores_unique otherStored ⟨space, lookup, inside⟩ sameId]

theorem stores_of_lookupRegionInDbRp {db rp : String}
    (found : lookupRegionInDbRp map db rp regionId = some region) :
    (∃ key, map.Stores key region) ∧ region.regionId = regionId := by
  obtain ⟨entry, stored, inside⟩ := exists_of_findSome?_eq_some found
  split at inside
  · cases inside
  · refine ⟨⟨entry.1, entry.2, ?_, mem_of_find?_eq_some inside⟩,
      by simpa using find?_some inside⟩
    exact ExtTreeMap.mem_toList_iff_getElem?_eq_some.mp stored

/-- What a primary has checked of a part that it accepts. -/
theorem forwardedWriteRegion_eq_ok {nodeId : UInt64} {request : ShardWriteRequest}
    (accepted : forwardedWriteRegion map nodeId request = .ok region) :
    (∃ key, map.Stores key region) ∧ region.regionId = request.regionId ∧
      region.epoch = request.epoch ∧ region.primary = nodeId := by
  revert accepted
  fun_cases forwardedWriteRegion with
  | case5 found lookup =>
    rintro ⟨⟩
    obtain ⟨stored, sameId⟩ := stores_of_lookupRegionInDbRp lookup
    simp_all
  | _ => rintro ⟨⟩

end Lookups

section Plans

variable {service : ShardWriteService} {selfId : UInt64}
  {membership : ClusterMembership} {db rp : String} {precision : Option String}
  {forward : ExtTreeMap UInt64 (List Point)}

variable {request : ShardWriteRequest}

section

variable {regionIds : List UInt64} (member : region ∈ (findRegions (.ok map) regionIds).1)
include member

theorem regionById_of_mem_findRegions : regionById map region.regionId = some region := by
  obtain ⟨regionId, -, found⟩ := mem_filterMap.mp member
  rwa [(stores_of_regionById found).2]

theorem forwardPart_eq_ok
    (made : service.forwardPart db rp precision (findRegions (.ok map) regionIds).1 forward
      region.regionId = some (.ok request)) :
    ∃ points, forward[request.regionId]? = some points ∧
      service.encodeForwarded precision points = .ok request.body ∧
      request.precision = precision ∧ request.regionId = region.regionId ∧
      request.epoch = region.epoch := by
  obtain ⟨points, lookup, encoded⟩ := map_eq_some_iff.mp made
  have some : ((findRegions (.ok map) regionIds).1.find?
      (·.regionId == region.regionId)).isSome = true :=
    find?_isSome.mpr ⟨region, member, by simp⟩
  obtain ⟨found, foundEq⟩ := isSome_iff_exists.mp some
  have sameId : found.regionId = region.regionId := by
    simpa using find?_some foundEq
  have foundById := regionById_of_mem_findRegions (mem_of_find?_eq_some foundEq)
  rw [sameId, regionById_of_mem_findRegions member] at foundById
  obtain rfl := Option.some.inj foundById
  split at encoded
  next body encodedOk =>
    rw [foundEq] at encoded
    cases encoded
    exact ⟨points, lookup, encodedOk, rfl, rfl, rfl⟩
  next => cases encoded

end

theorem ShardWriteService.mem_sends {send : UInt64 × List ShardWriteRequest}
    (sent : send ∈ (service.planForwards selfId (.ok map) membership db rp precision
      forward).sends) (part : request ∈ send.2) :
    ∃ points region, forward[request.regionId]? = some points ∧
      service.encodeForwarded precision points = .ok request.body ∧
      request.precision = precision ∧
      regionById map request.regionId = some region ∧ request.epoch = region.epoch := by
  obtain ⟨group, addressed, rfl⟩ := mem_map.mp sent
  have grouped := mem_of_mem_filter addressed
  obtain ⟨made, madeMember, isOk⟩ := mem_filterMap.mp part
  obtain ⟨regionId, inGroup, madeEq⟩ := mem_filterMap.mp madeMember
  have lookup := ExtTreeMap.mem_toList_iff_getElem?_eq_some.mp grouped
  obtain ⟨pair, pairMember, -, rfl⟩ := exists_item_of_mem lookup inGroup
  obtain ⟨region, member, routed⟩ := mem_filterMap.mp pairMember
  obtain ⟨node, -, rfl⟩ := map_eq_some_iff.mp routed
  cases made with
  | error failure => cases isOk
  | ok made =>
    cases isOk
    obtain ⟨points, held, encoded, samePrecision, sameId, sameEpoch⟩ :=
      forwardPart_eq_ok member madeEq
    refine ⟨points, region, held, encoded, samePrecision, ?_, sameEpoch⟩
    rw [sameId]
    exact regionById_of_mem_findRegions member

theorem ShardWriteService.singleRequest_eq_ok {cache : ShardLocationCache} {first : Point}
    {rest : List Point} (made : (service.singleRequest map cache db rp precision first rest).1 =
      .ok (region, request)) :
    (cache.locate map ⟨db, rp, first.measurement⟩ (service.seriesIdForPoint first)).1 =
        some region ∧
      region.regionId = request.regionId ∧ region.epoch = request.epoch ∧
      request.precision = precision ∧
      service.wire.encodeLines precision (first :: rest) = .ok request.body := by
  revert made
  fun_cases singleRequest with
  | case3 _ _ found after located _ body encoded =>
    rintro ⟨⟩
    exact ⟨by rw [located], rfl, rfl, rfl, encoded⟩
  | _ => rintro ⟨⟩

end Plans

def byteService : ShardWriteService where
  wire := byteWire
  seriesId _ tags := if tags["host"]? = some "a" then 50 else 150
  binaryPointsWire := false
  maxPointsPerRequest := 0

def twoNodes : ClusterMembership where
  nodes := (∅ : ExtTreeMap UInt64 NodeInfo)
    |>.insert 1 { nodeId := 1, addr := "n1", state := .active, joinedAt := 0, lastHeartbeat := 0 }
    |>.insert 2 { nodeId := 2, addr := "n2", state := .active, joinedAt := 0, lastHeartbeat := 0 }

/-- The two series in a region each, one for either node. -/
def twoRegions : ShardMap where
  mapVersion := 1
  nextRegionId := 3
  spaces := (∅ : ExtTreeMap MeasurementKey MeasurementShardSpace).insert sampleKey
    { key := sampleKey
      regions := [{ soleRegion 1 ⟨0, 1⟩ with end_ := 100, peers := [1, 2] },
        { soleRegion 2 ⟨0, 1⟩ with start := 100, peers := [1, 2], primary := 2 }] }

end HyperbyteDb
