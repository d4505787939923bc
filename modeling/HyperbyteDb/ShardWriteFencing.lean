import HyperbyteDb.ShardWriteRouting

/-!
# When a node writes only what it owns

A part is stamped with an epoch of one snapshot and checked on another.
-/

namespace HyperbyteDb

open List

section

structure RoutedBatch where
  coordinator : UInt64
  db : String
  rp : String
  precision : Option String
  /-- The snapshot that the batch was partitioned on. -/
  routedBy : ShardMap
  buckets : PointBuckets

structure AcceptedPoint where
  node : UInt64
  regionId : UInt64
  /-- The maps that the node looked the region up in. -/
  checked : List ShardMap
  point : Point

/-- A call that changes a node's location cache, made on the node's own snapshot. -/
inductive CacheUse where
  | refreshFromMap
  | refreshMeasurement (key : MeasurementKey)
  | invalidateAll
  | invalidateMeasurement (key : MeasurementKey)
  | servingRegions (key : MeasurementKey)
  | locate (key : MeasurementKey) (seriesId : UInt64)
  | locateRoute (key : MeasurementKey) (seriesId selfId : UInt64)

def ShardLocationCache.afterUse (cache : ShardLocationCache) (map : ShardMap) :
    CacheUse → ShardLocationCache
  | .refreshFromMap => cache.refreshFromMap map
  | .refreshMeasurement key => cache.refreshMeasurement map key
  | .invalidateAll => cache.invalidateAll
  | .invalidateMeasurement key => cache.invalidateMeasurement key
  | .servingRegions key => (cache.servingRegions map key).2
  | .locate key seriesId => (cache.locate map key seriesId).2
  | .locateRoute key seriesId selfId => (cache.locateRoute map key seriesId selfId).2

structure WriteCluster where
  /-- The maps before the newest, the oldest first. -/
  older : List ShardMap := []
  newest : ShardMap
  position : UInt64 → Nat := fun _ => 0
  caches : UInt64 → ShardLocationCache := fun _ => {}
  batches : List RoutedBatch := []
  /-- Requests with their destinations.  A request may arrive more than once. -/
  inFlight : List (UInt64 × ShardWriteRequest) := []
  accepted : List AcceptedPoint := []

inductive WriteEvent where
  | commit (op : ShardMapOp)
  | catchUp (node : UInt64) (position : Nat)
  | useCache (node : UInt64) (use : CacheUse)
  | partition (coordinator : UInt64) (db rp : String) (precision : Option String)
      (points : List Point)
  /-- The batch path for the buckets of other primaries. -/
  | forward (batch : Nat) (membership : ClusterMembership)
  | forwardRegion (batch : Nat) (regionId : UInt64) (membership : ClusterMembership)
      (maxAttempts : Nat)
  /-- A request arrives; `keep` says which points pass the receiver's type check. -/
  | receive (message : Nat) (keep : Point → Bool)
  | appendLocal (batch : Nat)

namespace WriteCluster

def maps (cluster : WriteCluster) : List ShardMap :=
  cluster.older ++ [cluster.newest]

def snapshot (cluster : WriteCluster) (node : UInt64) : ShardMap :=
  cluster.maps[cluster.position node]?.getD cluster.newest

def commit (cluster : WriteCluster) (op : ShardMapOp) : WriteCluster :=
  match applyShardMapOp cluster.newest op with
  | .ok after => { cluster with older := cluster.older ++ [cluster.newest], newest := after }
  | .error _ => cluster

def setCache (cluster : WriteCluster) (node : UInt64) (cache : ShardLocationCache) : WriteCluster :=
  { cluster with caches := Function.update cluster.caches node cache }

variable (service : ShardWriteService)

def partition (cluster : WriteCluster) (coordinator : UInt64) (db rp : String)
    (precision : Option String) (points : List Point) : WriteCluster :=
  let map := cluster.snapshot coordinator
  match service.partitionPoints coordinator map (cluster.caches coordinator) db rp points with
  | (.ok buckets, cache) =>
    { cluster.setCache coordinator cache with
      batches := cluster.batches ++ [⟨coordinator, db, rp, precision, map, buckets⟩] }
  | (.error _, cache) => cluster.setCache coordinator cache

def forward (cluster : WriteCluster) (batch : RoutedBatch)
    (membership : ClusterMembership) : WriteCluster :=
  let plan := service.planForwards batch.coordinator
    (.ok (cluster.snapshot batch.coordinator)) membership batch.db batch.rp batch.precision
    batch.buckets.forward
  { cluster with
    inFlight := cluster.inFlight ++ plan.sends.flatMap fun send => send.2.map (send.1, ·) }

def forwardRegion (cluster : WriteCluster) (batch : RoutedBatch) (regionId : UInt64)
    (membership : ClusterMembership) (maxAttempts : Nat) : WriteCluster :=
  let coordinator := batch.coordinator
  match batch.buckets.forward[regionId]? with
  | some (first :: rest) =>
    match service.singleRequest (cluster.snapshot coordinator) (cluster.caches coordinator)
        batch.db batch.rp batch.precision first rest with
    | (.ok (region, request), cache) =>
      { cluster.setCache coordinator cache with
        inFlight := cluster.inFlight ++
          (scatterTargets region coordinator membership .write maxAttempts).map (·, request) }
    | (.error _, cache) => cluster.setCache coordinator cache
  | _ => cluster

def receive (cluster : WriteCluster) (node : UInt64) (request : ShardWriteRequest)
    (keep : Point → Bool) : WriteCluster :=
  let map := cluster.snapshot node
  match forwardedWriteRegion map node request with
  | .error _ => cluster
  | .ok region =>
    match service.wire.parseLineBodyToPointsLimited request.precision
        service.maxPointsPerRequest request.body with
    | .error _ => cluster
    | .ok points =>
      { cluster with
        accepted := cluster.accepted ++
          (points.filter keep).map (⟨node, region.regionId, [map], ·⟩) }

/-- The buckets are looked up by identifier once more; nothing else is checked. -/
def appendLocal (cluster : WriteCluster) (batch : RoutedBatch) : WriteCluster :=
  let map := cluster.snapshot batch.coordinator
  let buckets := batch.buckets.localPoints
  if buckets.keys.all fun regionId => (regionById map regionId).isSome then
    { cluster with
      accepted := cluster.accepted ++ buckets.toList.flatMap fun bucket =>
        bucket.2.map (⟨batch.coordinator, bucket.1, [batch.routedBy, map], ·⟩) }
  else cluster

def next (cluster : WriteCluster) : WriteEvent → WriteCluster
  | .commit op => cluster.commit op
  | .catchUp node position =>
    { cluster with
      position := Function.update cluster.position node
        (max (cluster.position node) (min position cluster.older.length)) }
  | .useCache node use =>
    cluster.setCache node ((cluster.caches node).afterUse (cluster.snapshot node) use)
  | .partition coordinator db rp precision points =>
    cluster.partition service coordinator db rp precision points
  | .forward batch membership =>
    (cluster.batches[batch]?.map fun batch =>
      cluster.forward service batch membership).getD cluster
  | .forwardRegion batch regionId membership maxAttempts =>
    (cluster.batches[batch]?.map fun batch =>
      cluster.forwardRegion service batch regionId membership maxAttempts).getD cluster
  | .receive message keep =>
    (cluster.inFlight[message]?.map fun message =>
      cluster.receive service message.1 message.2 keep).getD cluster
  | .appendLocal batch =>
    (cluster.batches[batch]?.map fun batch => cluster.appendLocal batch).getD cluster

end WriteCluster

def ShardMap.ownedBy (map : ShardMap) (regionId node seriesId : UInt64) : Bool :=
  (regionById map regionId).any fun region =>
    region.contains seriesId && region.primary == node

def AcceptedPoint.owned (service : ShardWriteService) (accepted : AcceptedPoint) : Bool :=
  accepted.checked.all fun map =>
    map.ownedBy accepted.regionId accepted.node (service.seriesIdForPoint accepted.point)

/-! ## What the steps of a sharded write hand on -/

def ShardMap.unstaged (map : ShardMap) (key : MeasurementKey) (seriesId : UInt64) : Bool :=
  (map.space key).all fun space => space.regions.all fun region =>
    !region.contains seriesId || region.isServing || (servingDonor space.regions region).isNone

/-- Line protocol can carry every tag. -/
def Point.tagsWritten (point : Point) : Bool :=
  point.tags.toList.all fun tag => tag.2 != ""

variable {point : Point}

theorem Point.writtenSeries_eq (written : point.tagsWritten = true) :
    point.writtenSeries = point.series := by
  unfold writtenSeries series
  congr 1
  ext name value
  rw [Std.ExtTreeMap.getElem?_filter']
  cases lookup : point.tags[name]? with
  | none => simp
  | some found =>
    have member := Std.ExtTreeMap.mem_toList_iff_getElem?_eq_some.mpr lookup
    have some : found ≠ "" := by
      simpa using all_eq_true.mp written _ member
    simp [Option.filter, some]

variable {region : ShardRegion}

variable {map : ShardMap} {seriesId : UInt64}

section Ownership

variable {node : UInt64} {key : MeasurementKey}

theorem IdsAllocated.ownedBy (allocated : IdsAllocated map)
    (stored : map.Stores key region) (contains : region.contains seriesId = true)
    (primary : region.primary = node) : map.ownedBy region.regionId node seriesId = true := by
  rw [ShardMap.ownedBy, allocated.regionById_eq stored]
  simp [contains, primary]

end Ownership

variable {history : VersionHistory} {cache : ShardLocationCache}

namespace ShardLocationCache

theorem Sound.mono {later : VersionHistory} (sound : cache.Sound history)
    (extends_ : ∀ map, history.Includes map → later.Includes map) : cache.Sound later := by
  intro key entry lookup
  obtain ⟨map, space, included, rest⟩ := sound key entry lookup
  exact ⟨map, space, extends_ map included, rest⟩

theorem Sound.afterUse (sound : cache.Sound history) (included : history.Includes map)
    (use : CacheUse) : (cache.afterUse map use).Sound history := by
  cases use with
  | refreshFromMap => exact sound.afterCall (.refreshFromMap ⟨map, included⟩)
  | refreshMeasurement key => exact sound.afterCall (.refreshMeasurement ⟨map, included⟩ key)
  | invalidateAll => exact sound.afterCall .invalidateAll
  | invalidateMeasurement key => exact sound.afterCall (.invalidateMeasurement key)
  | servingRegions key => exact sound.afterCall (.servingRegions ⟨map, included⟩ key)
  | locate key seriesId => exact sound.afterCall (.locate ⟨map, included⟩ key seriesId)
  | locateRoute key seriesId selfId =>
    exact sound.afterCall (.locateRoute ⟨map, included⟩ key seriesId selfId)

/-- Away from staging regions a lookup answers from the map, warm or cold. -/
theorem Sound.locateWith_of_unstaged {α : Type} (view : ShardRegion → α)
    (sound : cache.Sound history) (included : history.Includes map)
    (unstaged : map.unstaged key seriesId = true) :
    (cache.locateWith view map key seriesId).1 = (map.locate key seriesId).map view := by
  rw [sound.locateWith_eq view included]
  split
  · rw [(history.valid map included).servingRegionFor_eq, ShardMap.locate]
    cases found : map.space key with
    | none => rfl
    | some space =>
      rw [ShardMap.unstaged, found, Option.all_some, all_eq_true] at unstaged
      rw [Option.bind_some, Option.bind_some, MeasurementShardSpace.locate]
      cases located : locateInRegions space.regions seriesId with
      | none => rfl
      | some region =>
        obtain ⟨member, contains⟩ := mem_of_locateInRegions located
        have direct := unstaged region member
        rw [Option.map_some, materialiseRegion]
        split
        · rfl
        · rename_i staging
          cases donor : servingDonor space.regions region with
          | none => rfl
          | some => simp [contains, staging, donor] at direct
  · rfl

end ShardLocationCache

theorem ShardMap.stores_of_locate {map : ShardMap}
    (located : map.locate key seriesId = some region) :
    map.Stores key region ∧ region.contains seriesId = true := by
  obtain ⟨space, found, inside⟩ := Option.bind_eq_some_iff.mp located
  obtain ⟨member, contains⟩ := mem_of_locateInRegions inside
  exact ⟨⟨space, found, member⟩, contains⟩

namespace ShardWriteService

variable {service : ShardWriteService}
  {selfId : UInt64} {db rp : String}

def LocalOwned (service : ShardWriteService) (map : ShardMap) (selfId : UInt64)
    (buckets : PointBuckets) : Prop :=
  ∀ regionId points, buckets.localPoints[regionId]? = some points → ∀ point ∈ points,
    map.ownedBy regionId selfId (service.seriesIdForPoint point) = true

variable {buckets : PointBuckets}

theorem LocalOwned.push
    (owned : service.LocalOwned map selfId buckets) {regionId : UInt64}
    (ownsPoint : map.ownedBy regionId selfId (service.seriesIdForPoint point) = true) :
    service.LocalOwned map selfId { buckets with
      localPoints := KeyedBatches.push buckets.localPoints regionId point } := by
  intro other points lookup
  rw [KeyedBatches.getElem?_push] at lookup
  split at lookup
  next same =>
    subst same
    cases lookup
    intro found member
    rcases mem_append.mp member with old | new
    · cases held : buckets.localPoints[regionId]? with
      | none => simp [held] at old
      | some points =>
        rw [held] at old
        exact owned regionId points held found old
    · exact mem_singleton.mp new ▸ ownsPoint
  next => exact owned other points lookup

variable {points : List Point}

/-- Sorting a batch keeps the cache sound and puts into local buckets only what the
node owns. -/
theorem placePoints_spec (included : history.Includes map) (allocated : IdsAllocated map)
    (unstaged : ∀ point ∈ points, map.unstaged ⟨db, rp, point.measurement⟩
      (service.seriesIdForPoint point) = true) (owned : service.LocalOwned map selfId buckets) (sound : cache.Sound history) :
    (service.placePoints selfId map db rp buckets cache points).2.Sound history ∧
      ∀ placed, (service.placePoints selfId map db rp buckets cache points).1 = .ok placed →
        service.LocalOwned map selfId placed := by
  induction points generalizing buckets cache with
  | nil =>
    refine ⟨sound, fun placed same => ?_⟩
    cases same
    exact owned
  | cons point points ih =>
    have later := fun other member => unstaged other (mem_cons_of_mem point member)
    have answer := sound.locateWith_of_unstaged (·.route selfId) included
      (unstaged point mem_cons_self)
    have soundAfter := sound.locateWith (·.route selfId) included
      ⟨db, rp, point.measurement⟩ (service.seriesIdForPoint point)
    rw [placePoints, ShardLocationCache.locateRoute]
    generalize cache.locateWith (fun region => region.route selfId) map
      ⟨db, rp, point.measurement⟩ (service.seriesIdForPoint point) = found at *
    obtain ⟨route, after⟩ := found
    cases route with
    | none => exact ⟨soundAfter, fun placed failed => by cases failed⟩
    | some route =>
      dsimp only at answer soundAfter ⊢
      obtain ⟨region, located, rfl⟩ := Option.map_eq_some_iff.mp answer.symm
      obtain ⟨stored, contains⟩ := ShardMap.stores_of_locate located
      split
      next here =>
        have primary : region.primary = selfId := by
          simpa [ShardRegion.route] using (Bool.and_eq_true_iff.mp here).2
        exact ih later (owned.push (allocated.ownedBy stored contains primary)) soundAfter
      next =>
        refine ih later ?_ soundAfter
        exact owned

variable {first : Point}

theorem seriesIdForPoint_congr {second : Point} (same : first.series = second.series) :
    service.seriesIdForPoint first = service.seriesIdForPoint second := by
  have sameMeasurement := congrArg Prod.fst same
  have sameTags := congrArg Prod.snd same
  exact congrArg₂ service.seriesId sameMeasurement sameTags

/-- The request carries a name and an epoch that some map has, and only points of the
range that the region has there. -/
def StampedIn (service : ShardWriteService) (maps : List ShardMap)
    (request : ShardWriteRequest) : Prop :=
  ∃ map ∈ maps, ∃ key region, map.Stores key region ∧
    region.regionId = request.regionId ∧ region.epoch = request.epoch ∧
    ∀ parsed, service.wire.parseLineBodyToPointsLimited request.precision
        service.maxPointsPerRequest request.body = .ok parsed →
      ∀ point ∈ parsed, region.contains (service.seriesIdForPoint point) = true

theorem StampedIn.mono {maps later : List ShardMap} {request : ShardWriteRequest}
    (stamped : service.StampedIn maps request) (extends_ : maps ⊆ later) :
    service.StampedIn later request := by
  obtain ⟨map, member, rest⟩ := stamped
  exact ⟨map, extends_ member, rest⟩

theorem contains_of_parse_lines {precision : Option String} {parsed : List Point}
    {body : List UInt8} (made : service.wire.encodeLines precision points = .ok body)
    {maxPoints : Nat}
    (taken : service.wire.parseLineBodyToPointsLimited precision maxPoints body = .ok parsed)
    (inside : ∀ point ∈ points, region.contains (service.seriesIdForPoint point) = true ∧
      point.tagsWritten = true) :
    ∀ point ∈ parsed, region.contains (service.seriesIdForPoint point) = true := by
  intro point member
  have series := PointWire.series_of_parse_lines made taken
  have listed : point.series ∈ points.map Point.writtenSeries :=
    series ▸ mem_map_of_mem member
  obtain ⟨source, sourceMember, same⟩ := mem_map.mp listed
  obtain ⟨contains, written⟩ := inside source sourceMember
  rw [Point.writtenSeries_eq written] at same
  rwa [← seriesIdForPoint_congr same]

/-- Away from staging regions the single-region path sends to the region that holds the
first point. -/
theorem singleRequest_spec (sound : cache.Sound history)
    (included : history.Includes map)
    (unstaged : map.unstaged ⟨db, rp, first.measurement⟩ (service.seriesIdForPoint first) =
      true) (precision : Option String) (rest : List Point) :
    (service.singleRequest map cache db rp precision first rest).2.Sound history ∧
      ∀ region request, (service.singleRequest map cache db rp precision first rest).1 =
          .ok (region, request) →
        map.locate ⟨db, rp, first.measurement⟩ (service.seriesIdForPoint first) = some region := by
  have answer := sound.locateWith_of_unstaged id included unstaged
  have soundAfter := sound.locateWith id included ⟨db, rp, first.measurement⟩
    (service.seriesIdForPoint first)
  rw [Option.map_id] at answer
  constructor
  · unfold singleRequest
    dsimp only
    rw [ShardLocationCache.locate]
    generalize cache.locateWith id map ⟨db, rp, first.measurement⟩
      (service.seriesIdForPoint first) = found at soundAfter
    obtain ⟨located, after⟩ := found
    cases located with
    | none => exact soundAfter
    | some region =>
      dsimp only
      split
      · split <;> exact soundAfter
      · exact soundAfter.afterCall (.invalidateMeasurement _)
  · intro region request made
    exact answer.symm.trans (singleRequest_eq_ok made).1

end ShardWriteService

end

/-! ## When a node writes only what it owns -/

open GuardedRuns List ShardMap ShardWriteService Std.ExtTreeMap

namespace WriteCluster

/-- The state in which the step finds the cluster leaves no room for a write to miss
its region: no point is routed to a donor; what is stamped with an epoch is in the
region of that epoch and keeps its series on the way; and local buckets are appended
under the regions that they were made for. -/
def windowClosed (service : ShardWriteService) (cluster : WriteCluster) : WriteEvent → Bool
  | .partition coordinator db rp _ points => points.all fun point =>
    (cluster.snapshot coordinator).unstaged ⟨db, rp, point.measurement⟩
      (service.seriesIdForPoint point)
  | .forward index _ => cluster.batches[index]?.all fun batch =>
    batch.buckets.forward.toList.all fun bucket =>
      (regionById (cluster.snapshot batch.coordinator) bucket.1).all fun region =>
        bucket.2.all fun point => region.contains (service.seriesIdForPoint point) &&
          (service.binaryPointsWire || point.tagsWritten)
  | .forwardRegion index regionId _ _ => cluster.batches[index]?.all fun batch =>
    match batch.buckets.forward[regionId]? with
    | some (first :: rest) =>
      let map := cluster.snapshot batch.coordinator
      let key : MeasurementKey := ⟨batch.db, batch.rp, first.measurement⟩
      let seriesId := service.seriesIdForPoint first
      map.unstaged key seriesId && (map.locate key seriesId).all fun region =>
        (first :: rest).all fun point =>
          region.contains (service.seriesIdForPoint point) && point.tagsWritten
    | _ => true
  | .appendLocal index => cluster.batches[index]?.all fun batch =>
    batch.buckets.localPoints.keys.all fun regionId =>
      regionById (cluster.snapshot batch.coordinator) regionId == regionById batch.routedBy regionId
  | _ => true

/-- A committed operation creates no measurement, allocates what it installs, and
carries epochs ahead of the ones that it replaces. -/
def KeepsVersions (cluster : WriteCluster) : WriteEvent → Prop
  | .commit op => ∀ after, applyShardMapOp cluster.newest op = .ok after →
      op.KeepsVersions cluster.newest
  | _ => True

theorem snapshot_mem (cluster : WriteCluster) (node : UInt64) :
    cluster.snapshot node ∈ cluster.maps := by
  unfold snapshot
  cases lookup : cluster.maps[cluster.position node]? with
  | none => simp [maps]
  | some map => exact mem_of_getElem? lookup

/-- What every reachable state keeps: the maps are one history and the caches belong
to it, local buckets were owned when they were made, and a request in flight names a
region of the history that holds all its points. -/
structure Fenced (service : ShardWriteService) (cluster : WriteCluster) : Prop where
  lineage : Lineage cluster.maps
  sound : ∀ node, (cluster.caches node).Sound lineage.versionHistory
  routed : ∀ batch ∈ cluster.batches,
    service.LocalOwned batch.routedBy batch.coordinator batch.buckets
  stamped : ∀ message ∈ cluster.inFlight, service.StampedIn cluster.maps message.2
  owned : ∀ accepted ∈ cluster.accepted, accepted.owned service = true

variable {service : ShardWriteService} {cluster : WriteCluster}

theorem Fenced.initial {map : ShardMap} (valid : map.Valid)
    (allocated : IdsAllocated map) : Fenced service { newest := map } where
  lineage := .singleton valid allocated
  sound _ key entry lookup := by simp at lookup
  routed := by simp
  stamped := by simp
  owned := by simp

variable (fenced : Fenced service cluster)

section Fenced

include fenced

theorem Fenced.setCache (node : UInt64) {cache : ShardLocationCache}
    (sound : cache.Sound fenced.lineage.versionHistory) :
    Fenced service (cluster.setCache node cache) where
  lineage := fenced.lineage
  sound other := by
    change ShardLocationCache.Sound _ (Function.update cluster.caches node cache other)
    rw [Function.update_apply]
    split
    · exact sound
    · exact fenced.sound other
  routed := fenced.routed
  stamped := fenced.stamped
  owned := fenced.owned

theorem Fenced.commit {op : ShardMapOp} (keeps : cluster.KeepsVersions (.commit op)) :
    Fenced service (cluster.commit op) := by
  unfold WriteCluster.commit
  split
  · rename_i after accepted
    have lineage := fenced.lineage.commit (applyShardMapOp_eq_ok_iff.mp accepted)
      (keeps after accepted)
    refine ⟨lineage, fun node => ?_, fenced.routed, fun message member => ?_, fenced.owned⟩
    · exact (fenced.sound node).mono fun map member => mem_append_left _ member
    · exact (fenced.stamped message member).mono (subset_append_left _ _)
  · exact fenced

theorem Fenced.partition {coordinator : UInt64} {db rp : String} {precision : Option String}
    {points : List Point}
    (closed : cluster.windowClosed service (.partition coordinator db rp precision points) =
      true) : Fenced service (cluster.partition service coordinator db rp precision points) := by
  have member := cluster.snapshot_mem coordinator
  have sound := fenced.sound coordinator
  have parts : (service.partitionPoints coordinator (cluster.snapshot coordinator)
        (cluster.caches coordinator) db rp points).2.Sound fenced.lineage.versionHistory ∧
      ∀ buckets, (service.partitionPoints coordinator (cluster.snapshot coordinator)
          (cluster.caches coordinator) db rp points).1 = .ok buckets →
        service.LocalOwned (cluster.snapshot coordinator) coordinator buckets := by
    unfold partitionPoints
    split
    · exact ⟨sound, fun _ failed => by cases failed⟩
    · refine service.placePoints_spec member (fenced.lineage.allocated _ member)
        (all_eq_true.mp closed) ?_ sound
      intro regionId points lookup
      simp at lookup
  unfold WriteCluster.partition
  dsimp only
  split
  next buckets cache made =>
    rw [made] at parts
    have kept := fenced.setCache coordinator parts.1
    refine ⟨kept.lineage, kept.sound, ?_, kept.stamped, kept.owned⟩
    intro batch added
    rcases mem_append.mp added with old | new
    · exact fenced.routed batch old
    · obtain rfl := mem_singleton.mp new
      exact parts.2 buckets rfl
  next cause cache made =>
    rw [made] at parts
    exact fenced.setCache coordinator parts.1

/-- New requests that are stamped keep the invariant. -/
theorem Fenced.send {requests : List (UInt64 × ShardWriteRequest)}
    (stamped : ∀ message ∈ requests, service.StampedIn cluster.maps message.2) :
    Fenced service { cluster with inFlight := cluster.inFlight ++ requests } :=
  ⟨fenced.lineage, fenced.sound, fenced.routed,
    forall_mem_append.mpr ⟨fenced.stamped, stamped⟩, fenced.owned⟩

/-- New acceptances of owned points keep the invariant. -/
theorem Fenced.accept {points : List AcceptedPoint}
    (owned : ∀ accepted ∈ points, accepted.owned service = true) :
    Fenced service { cluster with accepted := cluster.accepted ++ points } :=
  ⟨fenced.lineage, fenced.sound, fenced.routed, fenced.stamped,
    forall_mem_append.mpr ⟨fenced.owned, owned⟩⟩

end Fenced

variable {batch : RoutedBatch} {index : Nat}

section

include fenced

variable {membership : ClusterMembership}

theorem Fenced.forward (found : cluster.batches[index]? = some batch)
    (closed : cluster.windowClosed service (.forward index membership) = true) :
    Fenced service (cluster.forward service batch membership) := by
  rw [windowClosed, found, Option.all_some, all_eq_true] at closed
  refine fenced.send ?_
  intro message sent
  obtain ⟨send, planned, inSend⟩ := mem_flatMap.mp sent
  obtain ⟨request, part, rfl⟩ := mem_map.mp inSend
  obtain ⟨points, region, bucket, made, precision, lookup, sameEpoch⟩ :=
    mem_sends planned part
  obtain ⟨⟨key, stored⟩, sameId⟩ := stores_of_regionById lookup
  have inside := closed _ (mem_toList_iff_getElem?_eq_some.mpr bucket)
  simp only [lookup, Option.all_some, all_eq_true, Bool.and_eq_true, Bool.or_eq_true] at inside
  refine ⟨_, cluster.snapshot_mem batch.coordinator, key, region, stored, sameId,
    sameEpoch.symm, ?_⟩
  intro parsed taken
  rw [precision] at taken
  unfold encodeForwarded at made
  split at made
  next =>
    rw [PointWire.eq_of_parse_binary made taken]
    exact fun point member => (inside point member).1
  next lines =>
    refine contains_of_parse_lines made taken ?_
    intro point member
    exact ⟨(inside point member).1, (inside point member).2.resolve_left lines⟩

theorem Fenced.forwardRegion (found : cluster.batches[index]? = some batch) {regionId : UInt64}
    {maxAttempts : Nat} (closed : cluster.windowClosed service
      (.forwardRegion index regionId membership maxAttempts) = true) :
    Fenced service (cluster.forwardRegion service batch regionId membership maxAttempts) := by
  rw [windowClosed, found, Option.all_some] at closed
  unfold WriteCluster.forwardRegion
  dsimp only at closed ⊢
  split
  next first rest bucket =>
    rw [bucket] at closed
    obtain ⟨unstaged, inside⟩ := Bool.and_eq_true_iff.mp closed
    have member := cluster.snapshot_mem batch.coordinator
    obtain ⟨sound, sends⟩ := service.singleRequest_spec (fenced.sound batch.coordinator)
      member unstaged batch.precision rest
    split
    next region request cache made =>
      have sent := singleRequest_eq_ok (congrArg Prod.fst made)
      obtain ⟨-, sameId, sameEpoch, precision, encoded⟩ := sent
      rw [made] at sound sends
      have located := sends region request rfl
      obtain ⟨stored, -⟩ := stores_of_locate located
      rw [located, Option.all_some, all_eq_true] at inside
      refine (fenced.setCache batch.coordinator sound).send ?_
      intro message sent
      obtain ⟨node, -, rfl⟩ := mem_map.mp sent
      refine ⟨_, member, _, region, stored, sameId, sameEpoch, ?_⟩
      intro parsed taken
      rw [precision] at taken
      refine contains_of_parse_lines encoded taken ?_
      exact fun point inBucket => Bool.and_eq_true_iff.mp (inside point inBucket)
    next cause cache made =>
      rw [made] at sound
      exact fenced.setCache batch.coordinator sound
  next => exact fenced

theorem Fenced.receive {node : UInt64}
    {request : ShardWriteRequest} (sent : (node, request) ∈ cluster.inFlight)
    (keep : Point → Bool) : Fenced service (cluster.receive service node request keep) := by
  fun_cases receive with
  | case1 | case2 => exact fenced
  | case3 _ found accepted points taken =>
    have member := cluster.snapshot_mem node
    obtain ⟨⟨key, stored⟩, sameId, sameEpoch, primary⟩ :=
      forwardedWriteRegion_eq_ok accepted
    obtain ⟨map, mapMember, other, region, regionStored, regionId, regionEpoch, inside⟩ :=
      fenced.stamped _ sent
    have same : found = region := fenced.lineage.same_region mapMember member regionStored
      stored (sameId.trans regionId.symm) (sameEpoch.trans regionEpoch.symm)
    refine fenced.accept ?_
    intro accepted added
    obtain ⟨point, kept, rfl⟩ := mem_map.mp added
    have contains := inside points taken point (mem_of_mem_filter kept)
    rw [← same] at contains
    simpa [AcceptedPoint.owned] using
      (fenced.lineage.allocated _ member).ownedBy stored contains primary

theorem Fenced.appendLocal (found : cluster.batches[index]? = some batch)
    (closed : cluster.windowClosed service (.appendLocal index) = true) :
    Fenced service (cluster.appendLocal batch) := by
  rw [windowClosed, found, Option.all_some, all_eq_true] at closed
  unfold WriteCluster.appendLocal
  dsimp only
  split
  next =>
    refine fenced.accept ?_
    intro accepted added
    obtain ⟨bucket, inBuckets, inBucket⟩ := mem_flatMap.mp added
    obtain ⟨point, member, rfl⟩ := mem_map.mp inBucket
    have lookup := mem_toList_iff_getElem?_eq_some.mp inBuckets
    have before := fenced.routed batch (mem_of_getElem? found) bucket.1 bucket.2 lookup point member
    have listed : bucket.1 ∈ batch.buckets.localPoints.keys := by
      rw [Std.ExtTreeMap.mem_keys, mem_iff_isSome_getElem?, lookup]
      rfl
    have unchanged := closed bucket.1 listed
    rw [beq_iff_eq] at unchanged
    have after : (cluster.snapshot batch.coordinator).ownedBy bucket.1 batch.coordinator
        (service.seriesIdForPoint point) = true := by
      rw [ownedBy, unchanged]
      exact before
    simp [AcceptedPoint.owned, before, after]
  next => exact fenced

theorem Fenced.next {event : WriteEvent} (keeps : cluster.KeepsVersions event)
    (closed : cluster.windowClosed service event = true) :
    Fenced service (cluster.next service event) := by
  cases event with
  | commit op => exact fenced.commit keeps
  | catchUp node position =>
    exact ⟨fenced.lineage, fenced.sound, fenced.routed, fenced.stamped, fenced.owned⟩
  | useCache node use =>
    exact fenced.setCache node ((fenced.sound node).afterUse (cluster.snapshot_mem node) use)
  | partition coordinator db rp precision points => exact fenced.partition closed
  | forward index membership =>
    rw [WriteCluster.next]
    cases found : cluster.batches[index]? with
    | none => exact fenced
    | some batch => exact fenced.forward found closed
  | forwardRegion index regionId membership maxAttempts =>
    rw [WriteCluster.next]
    cases found : cluster.batches[index]? with
    | none => exact fenced
    | some batch => exact fenced.forwardRegion found closed
  | receive index keep =>
    rw [WriteCluster.next]
    cases found : cluster.inFlight[index]? with
    | none => exact fenced
    | some message => exact fenced.receive (mem_of_getElem? found) keep
  | appendLocal index =>
    rw [WriteCluster.next]
    cases found : cluster.batches[index]? with
    | none => exact fenced
    | some batch => exact fenced.appendLocal found closed

end

/-- A cluster whose nodes have applied the setup and cached nothing. -/
def start (setup : List ShardMapOp) : WriteCluster where
  newest := FallibleRuns.run applyShardMapOp ShardMap.default setup

/-- In every interleaving of batches with map operations that carry fresh epochs, as
long as no step finds a window open, every point is accepted under a region that holds
its series and has the accepting node as its primary, in each map that node checked. -/
theorem accepted_points_owned (service : ShardWriteService) (setup : List ShardMapOp)
    (allocates : AllocatingRun ShardMap.default setup) (events : List WriteEvent)
    (versions : Along (next service) KeepsVersions (start setup)
      events) (closed : Along (next service)
      (fun cluster event => cluster.windowClosed service event = true) (start setup)
      events) :
    ∀ accepted ∈ (run (next service) (start setup) events).accepted,
      accepted.owned service = true := by
  have allocated : IdsAllocated (FallibleRuns.run applyShardMapOp ShardMap.default setup) :=
    FallibleRuns.run_invariant_along (fun _ _ _ before allocates accepted =>
      (applyShardMapOp_eq_ok_iff.mp accepted).idsAllocated before allocates)
      idsAllocated_default allocates
  have initial : Fenced service (start setup) := .initial (valid_run setup) allocated
  exact (run_invariant (fun _ _ fenced meets => fenced.next meets.1 meets.2)
    initial (versions.and closed)).owned

def sampleSetup : List ShardMapOp := [.bootstrapMeasurement sampleKey (soleRegion 1 ⟨0, 0⟩)]

def sampleSplit : ShardMapOp :=
  .split sampleKey 1 100 ⟨0, 0⟩ { soleRegion 1 ⟨0, 1⟩ with end_ := 100 }
    { soleRegion 0 ⟨0, 1⟩ with start := 100 }

/-- Node 2 partitions a batch when the nodes know of the split at series 100, and each
part goes to its own region. -/
def splitBeforePartition : List WriteEvent :=
  [.commit sampleSplit, .catchUp 1 1, .catchUp 2 1,
    .partition 2 "db" "autogen" none [bytePoint 1, bytePoint 2],
    .forward 0 twoNodes, .receive 0 fun _ => true, .receive 1 fun _ => true]

theorem splitBeforePartition_owned :
    ((run (next byteService) (start sampleSetup) splitBeforePartition).accepted.map
      fun accepted => (accepted.regionId, byteService.seriesIdForPoint accepted.point)) =
        [(1, 50), (2, 150)] ∧
    ∀ accepted ∈ (run (next byteService) (start sampleSetup)
      splitBeforePartition).accepted, accepted.owned byteService = true := by
  refine ⟨by decide +kernel, accepted_points_owned byteService sampleSetup
    ⟨fun _ _ => (by decide : (1 : UInt64) < UInt64.maxValue), trivial⟩ splitBeforePartition
    ?_ (by decide +kernel)⟩
  refine ⟨?_, trivial, trivial, trivial, trivial, trivial, trivial, trivial⟩
  intro after accepted
  have allocates : (1 : UInt64) < (start sampleSetup).newest.nextRegionId ∧
      (start sampleSetup).newest.nextRegionId < UInt64.maxValue := by decide +kernel
  have keeps : (1 : UInt64) = 1 ∧ (⟨0, 0⟩ : ShardEpoch).isBehind ⟨0, 1⟩ = true := by decide
  refine ⟨rfl, ⟨allocates, keeps, ?_⟩, by decide +kernel⟩
  intro fence member
  obtain rfl := mem_singleton.mp member
  decide

def splitAfterPartition : List WriteEvent :=
  [.partition 2 "db" "autogen" none [bytePoint 1, bytePoint 2],
    .commit sampleSplit, .catchUp 1 1, .catchUp 2 1, .forward 0 twoNodes, .receive 0 fun _ => true]

/-- The receiver then accepts series 150 for a region that ends at 100. -/
theorem split_window_misplaces_point :
    (run (next byteService) (start sampleSetup) splitAfterPartition).accepted.map
      (fun accepted => (accepted.node, accepted.regionId,
        byteService.seriesIdForPoint accepted.point, accepted.owned byteService)) =
      [(1, 1, 50, true), (1, 1, 150, false)] := by
  decide +kernel

end WriteCluster

end HyperbyteDb
