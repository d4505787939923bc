import HyperbyteDb.ShardMapTransitions

/-!
# The routable view of a measurement's regions

A staging region is in the map but holds no rows yet.  The routable view keeps its
range and gives it the routing identity of its first serving ancestor.  The location cache
holds the view for one version of the map.
-/

namespace HyperbyteDb

open GuardedRuns List ShardRegion Std

section

section

variable {regions : List ShardRegion}

/-- Regions by identifier; of several with one identifier the last counts. -/
def regionsById (regions : List ShardRegion) : ExtTreeMap UInt64 ShardRegion :=
  regions.foldl (fun byId region => byId.insert region.regionId region) ∅

/-- Follow `stagedFrom` to the first serving region.  The fuel bounds the hops, so
that a cycle cannot spin. -/
def walkToServing (byId : ExtTreeMap UInt64 ShardRegion) : Nat → Option UInt64 → Option ShardRegion
  | _, none => none
  | 0, some _ => none
  | hops + 1, some donorId =>
    match byId[donorId]? with
    | none => none
    | some candidate =>
      if candidate.isServing then some candidate
      else walkToServing byId hops candidate.stagedFrom

/-- The region that still holds the rows of a staging one. -/
def servingDonor (regions : List ShardRegion) (region : ShardRegion) : Option ShardRegion :=
  walkToServing (regionsById regions) regions.length region.stagedFrom

/-- The child's range, the donor's identity. -/
def ShardRegion.standIn (region donor : ShardRegion) : ShardRegion where
  regionId := donor.regionId
  start := region.start
  end_ := region.end_
  epoch := donor.epoch
  peers := donor.peers
  primary := donor.primary
  lastSplitAt := region.lastSplitAt

/-- A staging region without a donor is kept as it is. -/
def materialiseRegion (regions : List ShardRegion) (region : ShardRegion) : ShardRegion :=
  if region.isServing then region
  else
    match servingDonor regions region with
    | some donor => region.standIn donor
    | none => region

def materialiseServing (regions : List ShardRegion) : List ShardRegion :=
  if regions.all (·.isServing) then regions
  else sortByStart (regions.map (materialiseRegion regions))

theorem regionsById_eq_insertMany :
    regionsById regions = (∅ : ExtTreeMap UInt64 ShardRegion).insertMany
      (regions.map fun region => (region.regionId, region)) := by
  unfold regionsById
  generalize (∅ : ExtTreeMap UInt64 ShardRegion) = byId
  induction regions generalizing byId with
  | nil => simp
  | cons region regions ih =>
    rw [foldl_cons, ih, map_cons, ExtTreeMap.insertMany_cons]

theorem mem_of_regionsById {regionId : UInt64} {region : ShardRegion}
    (found : (regionsById regions)[regionId]? = some region) :
    region ∈ regions ∧ region.regionId = regionId := by
  rw [regionsById_eq_insertMany, ExtTreeMap.getElem?_insertMany_list,
    findSomeRev?_eq_findSome?_reverse, ExtTreeMap.getElem?_empty, Option.or_none] at found
  obtain ⟨⟨id, other⟩, listed, same⟩ := exists_of_findSome?_eq_some found
  rw [Option.ite_none_right_eq_some] at same
  obtain ⟨rfl, rfl⟩ := same.imp Std.LawfulEqCmp.eq_of_compare Option.some.inj
  simpa [eq_comm] using listed

/-- The chain of `stagedFrom` links passes staging regions and ends at a serving one. -/
inductive ReachesServing (regions : List ShardRegion) :
    Option UInt64 → List ShardRegion → ShardRegion → Prop
  | here {id : UInt64} {donor : ShardRegion} (member : donor ∈ regions) (isId : donor.regionId = id)
    (serving : donor.isServing = true) : ReachesServing regions (some id) [] donor
  | next {id : UInt64} {region donor : ShardRegion} {passed : List ShardRegion}
    (member : region ∈ regions) (isId : region.regionId = id) (staging : region.isServing = false)
    (later : ReachesServing regions region.stagedFrom passed donor) :
    ReachesServing regions (some id) (region :: passed) donor

theorem reachesServing_of_walk {hops : Nat} {cursor : Option UInt64} {donor : ShardRegion}
    (found : walkToServing (regionsById regions) hops cursor = some donor) :
    ∃ passed, ReachesServing regions cursor passed donor := by
  fun_induction walkToServing (regionsById regions) hops cursor with
  | case1 | case2 | case3 => cases found
  | case4 hops donorId candidate lookup serving =>
    obtain ⟨member, isId⟩ := mem_of_regionsById lookup
    obtain rfl := Option.some.inj found
    exact ⟨[], .here member isId serving⟩
  | case5 hops donorId candidate lookup staging ih =>
    obtain ⟨member, isId⟩ := mem_of_regionsById lookup
    obtain ⟨passed, later⟩ := ih found
    exact ⟨candidate :: passed, .next member isId (by simpa using staging) later⟩

namespace ReachesServing

variable {cursor : Option UInt64} {passed : List ShardRegion} {donor : ShardRegion}

variable (reaches : ReachesServing regions cursor passed donor)
include reaches

theorem mem : donor ∈ regions ∧ donor.isServing = true := by
  induction reaches with
  | here member _ serving => exact ⟨member, serving⟩
  | next _ _ _ _ ih => exact ih

theorem passed_mem : ∀ region ∈ passed, region ∈ regions ∧ region.isServing = false := by
  induction reaches with
  | here => simp
  | next member _ staging _ ih => exact forall_mem_cons.mpr ⟨⟨member, staging⟩, ih⟩

/-- The chain goes on from each region that it passes. -/
theorem from_passed {region : ShardRegion} (member : region ∈ passed) :
    ∃ rest, ReachesServing regions (some region.regionId) (region :: rest) donor ∧
      rest.length < passed.length := by
  induction reaches with
  | here => cases member
  | next isMember isId staging later ih =>
    rcases mem_cons.mp member with rfl | inLater
    · exact ⟨_, .next isMember rfl staging later, by simp⟩
    · obtain ⟨rest, onward, shorter⟩ := ih inLater
      exact ⟨rest, onward, by simp; omega⟩

variable (distinct : (regions.map regionId).Nodup)
include distinct

theorem unique {others : List ShardRegion} {other : ShardRegion}
    (again : ReachesServing regions cursor others other) : passed = others := by
  have same := inj_on_of_nodup_map distinct
  induction reaches generalizing others with
  | here member isId serving =>
    cases again with
    | here => rfl
    | next member' isId' staging =>
      simp [same member member' (isId.trans isId'.symm), staging] at serving
  | next member isId staging later ih =>
    cases again with
    | here member' isId' serving =>
      simp [same member member' (isId.trans isId'.symm), serving] at staging
    | next member' isId' _ later' =>
      obtain rfl := same member member' (isId.trans isId'.symm)
      rw [ih later']

/-- No region is passed twice, so the chain is not longer than the list of regions. -/
theorem length_lt : passed.length < regions.length := by
  have nodup : passed.Nodup := by
    induction reaches with
    | here => exact nodup_nil
    | next member isId staging later ih =>
      refine nodup_cons.mpr ⟨fun again => ?_, ih⟩
      obtain ⟨rest, onward, shorter⟩ := later.from_passed again
      rw [(cons.inj ((ReachesServing.next member rfl staging later).unique distinct onward)).2]
        at shorter
      exact lt_irrefl _ shorter
  have apart : donor ∉ passed := fun member => by
    simpa [reaches.mem.2] using (reaches.passed_mem donor member).2
  exact (subperm_of_subset (nodup_cons.mpr ⟨apart, nodup⟩) (cons_subset.mpr
    ⟨reaches.mem.1, fun region member => (reaches.passed_mem region member).1⟩)).length_le

theorem walk_eq {hops : Nat} (enough : passed.length < hops) :
    walkToServing (regionsById regions) hops cursor = some donor := by
  have lookup : ∀ region ∈ regions, (regionsById regions)[region.regionId]? = some region := by
    intro region member
    rw [regionsById_eq_insertMany]
    refine ExtTreeMap.getElem?_insertMany_list_of_mem Std.ReflCmp.compare_self ?_
      (mem_map.mpr ⟨region, member, rfl⟩)
    rw [pairwise_map]
    exact (pairwise_map.mp distinct).imp fun apart same =>
      apart (Std.LawfulEqCmp.eq_of_compare same)
  induction reaches generalizing hops with
  | here member isId serving =>
    obtain ⟨fewer, rfl⟩ := Nat.exists_eq_add_of_lt enough
    simp [walkToServing, ← isId, lookup _ member, serving]
  | next member isId staging later ih =>
    obtain ⟨fewer, rfl⟩ : ∃ fewer, hops = fewer + 1 := ⟨hops - 1, by omega⟩
    rw [walkToServing, ← isId, lookup _ member]
    simp only [staging]
    exact ih (by simpa using enough)

end ReachesServing

theorem servingDonor_eq_some_iff (distinct : (regions.map regionId).Nodup)
    {region donor : ShardRegion} :
    servingDonor regions region = some donor ↔
      ∃ passed, ReachesServing regions region.stagedFrom passed donor :=
  ⟨reachesServing_of_walk, fun ⟨_, reaches⟩ =>
    reaches.walk_eq distinct (reaches.length_lt distinct)⟩

theorem mem_of_servingDonor {region donor : ShardRegion}
    (found : servingDonor regions region = some donor) :
    donor ∈ regions ∧ donor.isServing = true := by
  obtain ⟨passed, reaches⟩ := reachesServing_of_walk found
  exact reaches.mem

theorem materialiseRegion_of_serving {region : ShardRegion} (serving : region.isServing = true) :
    materialiseRegion regions region = region := by
  simp [materialiseRegion, serving]

/-- The routable view keeps every range. -/
theorem materialiseRegion_range (regions : List ShardRegion) (region : ShardRegion) :
    (materialiseRegion regions region).start = region.start ∧
      (materialiseRegion regions region).end_ = region.end_ := by
  unfold materialiseRegion
  split
  · exact ⟨rfl, rfl⟩
  · split <;> exact ⟨rfl, rfl⟩

/-- On a covering list the view is the list with each region materialised. -/
theorem materialiseServing_eq_map (covers : CoversSeries regions) :
    materialiseServing regions = regions.map (materialiseRegion regions) := by
  unfold materialiseServing
  split
  · rename_i allServing
    rw [all_eq_true] at allServing
    have same : regions.map (materialiseRegion regions) = regions.map id :=
      map_congr_left fun region member =>
        materialiseRegion_of_serving (allServing region member)
    rw [same, map_id]
  · apply sortByStart_of_ascending
    rw [pairwise_map]
    refine (IntervalPartitions.Spans.ascending covers).imp ?_
    intro first second
    rw [(materialiseRegion_range regions first).1, (materialiseRegion_range regions second).1]
    exact id

theorem locateInRegions_map {change : ShardRegion → ShardRegion}
    (range : ∀ region, (change region).start = region.start ∧ (change region).end_ = region.end_)
    (regions : List ShardRegion) (seriesId : UInt64) :
    locateInRegions (regions.map change) seriesId =
      (locateInRegions regions seriesId).map change := by
  have contains : ∀ region, (change region).contains seriesId = region.contains seriesId := by
    intro region
    simp [ShardRegion.contains, range region]
  unfold locateInRegions
  rw [PartitionedSearch.partitionPoint_map, isEmpty_map]
  simp only [range]
  split
  · rfl
  · split
    · rfl
    · rename_i idx _
      rw [getElem?_map]
      cases regions[idx]? with
      | none => rfl
      | some region =>
        simp only [Option.map_some, contains]
        split <;> rfl

/-! ## What the view keeps -/

/-- The ranges stay, a staging region has the identity of its first serving ancestor, and a peer
serves an entry only if it serves the region of that identity. -/
structure ServesRegions (regions view : List ShardRegion) : Prop where
  ranges : view.map (fun entry => (entry.start, entry.end_)) =
    regions.map fun region => (region.start, region.end_)
  serving : List.Forall₂ (fun region entry => region.isServing = true → entry = region) regions view
  staging : List.Forall₂ (fun region entry => region.isServing = false →
    ∀ passed donor, ReachesServing regions region.stagedFrom passed donor →
      entry.regionId = donor.regionId ∧ entry.epoch = donor.epoch ∧
        entry.peers = donor.peers ∧ entry.primary = donor.primary) regions view
  peers : ∀ entry ∈ view, ∀ region ∈ regions, region.regionId = entry.regionId →
    ∀ peer, entry.isServingPeer peer = true → region.isServingPeer peer = true

def DonorsWithoutLearners (regions : List ShardRegion) : Prop :=
  ∀ region ∈ regions, region.isServing = false →
    ∀ passed donor, ReachesServing regions region.stagedFrom passed donor →
      ∀ peer ∈ donor.peers, peer ∉ donor.stagingPeers

theorem materialiseRegion_of_donor {region donor : ShardRegion} (staging : region.isServing = false)
    (found : servingDonor regions region = some donor) :
    materialiseRegion regions region = region.standIn donor := by
  rw [materialiseRegion, found]
  simp [staging]

/-- The view serves the regions exactly if no donor that stands in for a staging region has a
learner among its peers. -/
theorem materialiseServing_serves_iff (covers : CoversSeries regions)
    (distinct : (regions.map regionId).Nodup) :
    ServesRegions regions (materialiseServing regions) ↔ DonorsWithoutLearners regions := by
  have donor_iff := @servingDonor_eq_some_iff _ distinct
  have unique := inj_on_of_nodup_map distinct
  rw [materialiseServing_eq_map covers]
  constructor
  · intro serves region member staging passed donor reaches peer isPeer learner
    have entry := materialiseRegion_of_donor staging (donor_iff.mpr ⟨passed, reaches⟩)
    have served := serves.peers _ (mem_map_of_mem member) donor reaches.mem.1
      (by rw [entry]; rfl) peer
      (by simp [entry, isServingPeer, standIn, isPeer])
    simp [isServingPeer, learner] at served
  · intro without
    refine ⟨by simp [materialiseRegion_range], ?_, ?_, ?_⟩
    · rw [forall₂_map_right_iff, forall₂_same]
      exact fun region _ => materialiseRegion_of_serving
    · rw [forall₂_map_right_iff, forall₂_same]
      intro region _ staging passed donor reaches
      rw [materialiseRegion_of_donor staging (donor_iff.mpr ⟨passed, reaches⟩)]
      exact ⟨rfl, rfl, rfl, rfl⟩
    · intro entry listed other isOther sameId peer serves
      obtain ⟨region, member, rfl⟩ := mem_map.mp listed
      unfold materialiseRegion at sameId serves
      split at sameId
      next serving =>
        rw [if_pos serving] at serves
        rwa [unique isOther member sameId]
      next staging =>
        rw [if_neg staging] at serves
        cases found : servingDonor regions region with
        | none =>
          rw [found] at sameId serves
          rwa [unique isOther member sameId]
        | some donor =>
          rw [found] at sameId serves
          obtain ⟨passed, reaches⟩ := donor_iff.mp found
          obtain rfl := unique isOther reaches.mem.1 sameId
          have isPeer : peer ∈ other.peers := by
            simpa [isServingPeer, standIn] using serves
          have notLearner := without region member (by simpa using staging) passed other reaches
            peer isPeer
          simp [isServingPeer, isPeer, notLearner]

/-- A donor, whose second peer is a learner if `learners` names it, and its staging child. -/
def donorAndChild (learners : List UInt64) : List ShardRegion :=
  [{ regionId := 1, start := 0, end_ := 100, epoch := {}, peers := [1, 2], primary := 1,
     stagingPeers := learners },
   { regionId := 2, start := 100, end_ := UInt64.maxValue, epoch := {}, peers := [3], primary := 3,
     state := .staging, stagedFrom := some 1 }]

theorem donorAndChild_served :
    ServesRegions (donorAndChild []) (materialiseServing (donorAndChild [])) := by
  have covers : CoversSeries (donorAndChild []) := ⟨rfl, by decide, rfl, by decide, rfl⟩
  refine (materialiseServing_serves_iff covers (by decide)).mpr ?_
  intro region _ _ passed donor reaches peer _
  have none_ : ∀ region ∈ donorAndChild [], region.stagingPeers = [] := by decide
  simp [none_ donor reaches.mem.1]

/-- The learner of the donor answers reads for the range of the child. -/
theorem learner_serves_child :
    ¬ServesRegions (donorAndChild [2]) (materialiseServing (donorAndChild [2])) := by
  intro serves
  have answers := serves.peers _ (getElem_mem (n := 1) (by decide +kernel)) _
    (getElem_mem (l := donorAndChild [2]) (n := 0) (by decide)) (by decide +kernel) 2
    (by decide +kernel)
  revert answers
  decide

end

/-! ## The shard location cache -/

structure CachedMeasurement where
  mapVersion : UInt64
  regions : List ShardRegion
deriving DecidableEq

structure ShardLocationCache where
  mapVersion : UInt64 := 0
  byMeasurement : Std.ExtTreeMap MeasurementKey CachedMeasurement := ∅

structure RegionRoute where
  regionId : UInt64
  primary : UInt64
  /-- Whether the asking node is a member of the region's peer set. -/
  selfIsPeer : Bool
deriving DecidableEq

def ShardRegion.route (region : ShardRegion) (selfId : UInt64) : RegionRoute where
  regionId := region.regionId
  primary := region.primary
  selfIsPeer := region.peers.contains selfId

variable {α : Type}

namespace ShardLocationCache

variable (cache : ShardLocationCache)

variable (map : ShardMap)

variable (key : MeasurementKey)

/-- Store the routable view of one space. -/
def fill (space : MeasurementShardSpace) : ShardLocationCache where
  mapVersion := max cache.mapVersion map.mapVersion
  byMeasurement := cache.byMeasurement.insert key ⟨map.mapVersion, materialiseServing space.regions⟩

def refreshFromMap : ShardLocationCache :=
  map.spaces.toList.foldl (fun cache entry => cache.fill map entry.2.key entry.2)
    { cache with mapVersion := max cache.mapVersion map.mapVersion }

def refreshMeasurement : ShardLocationCache :=
  match map.space key with
  | some space => cache.fill map key space
  | none =>
    { mapVersion := max cache.mapVersion map.mapVersion
      byMeasurement := cache.byMeasurement.erase key }

def invalidateAll : ShardLocationCache :=
  { cache with byMeasurement := ∅ }

def invalidateMeasurement : ShardLocationCache :=
  { cache with byMeasurement := cache.byMeasurement.erase key }

def freshEntry : Option CachedMeasurement :=
  match cache.byMeasurement[key]? with
  | some cached => if cached.mapVersion = map.mapVersion then some cached else none
  | none => none

def servingRegions : List ShardRegion × ShardLocationCache :=
  match cache.freshEntry map key with
  | some cached => (cached.regions, cache)
  | none =>
    match map.space key with
    | none => ([], cache)
    | some space => (materialiseServing space.regions, cache.fill map key space)

/-- The miss path of a lookup: the answer is the map's own region. -/
def locateInMap (view : ShardRegion → α) (cache : ShardLocationCache)
    (map : ShardMap) (key : MeasurementKey) (seriesId : UInt64) : Option α × ShardLocationCache :=
  match map.locate key seriesId with
  | none => (none, cache)
  | some region =>
    (some (view region),
      match map.space key with
      | some space => cache.fill map key space
      | none => cache)

/-- The two lookups differ only in what they return of the region they find. -/
def locateWith (view : ShardRegion → α) (cache : ShardLocationCache)
    (map : ShardMap) (key : MeasurementKey) (seriesId : UInt64) : Option α × ShardLocationCache :=
  match (cache.freshEntry map key).bind fun cached =>
      locateInRegions cached.regions seriesId with
  | some region => (some (view region), cache)
  | none => cache.locateInMap view map key seriesId

def locate (seriesId : UInt64) : Option ShardRegion × ShardLocationCache :=
  cache.locateWith id map key seriesId

def locateRoute (seriesId selfId : UInt64) : Option RegionRoute × ShardLocationCache :=
  cache.locateWith (·.route selfId) map key seriesId

end ShardLocationCache

structure VersionHistory where
  Includes : ShardMap → Prop
  valid : ∀ map, Includes map → map.Valid
  unique : ∀ first second, Includes first → Includes second →
    first.mapVersion = second.mapVersion → first = second

inductive CacheCall (history : VersionHistory) where
  | refreshFromMap (map : { map // history.Includes map })
  | refreshMeasurement (map : { map // history.Includes map }) (key : MeasurementKey)
  | invalidateAll
  | invalidateMeasurement (key : MeasurementKey)
  | servingRegions (map : { map // history.Includes map }) (key : MeasurementKey)
  | locate (map : { map // history.Includes map }) (key : MeasurementKey) (seriesId : UInt64)
  | locateRoute (map : { map // history.Includes map }) (key : MeasurementKey)
      (seriesId selfId : UInt64)

namespace ShardLocationCache

variable {history : VersionHistory}

def afterCall (cache : ShardLocationCache) :
    CacheCall history → ShardLocationCache
  | .refreshFromMap map => cache.refreshFromMap map
  | .refreshMeasurement map key => cache.refreshMeasurement map key
  | .invalidateAll => cache.invalidateAll
  | .invalidateMeasurement key => cache.invalidateMeasurement key
  | .servingRegions map key => (cache.servingRegions map key).2
  | .locate map key seriesId => (cache.locate map key seriesId).2
  | .locateRoute map key seriesId selfId => (cache.locateRoute map key seriesId selfId).2

def afterCalls (calls : List (CacheCall history)) : ShardLocationCache :=
  run afterCall {} calls

def Sound (history : VersionHistory) (cache : ShardLocationCache) : Prop :=
  ∀ (key : MeasurementKey) (entry : CachedMeasurement),
    cache.byMeasurement[key]? = some entry →
    ∃ map space, history.Includes map ∧ map.mapVersion = entry.mapVersion ∧
      map.space key = some space ∧ entry.regions = materialiseServing space.regions

variable {cache : ShardLocationCache} {map : ShardMap}
  {key : MeasurementKey}

variable (sound : cache.Sound history)
include sound

theorem Sound.fill (included : history.Includes map) {space : MeasurementShardSpace}
    (found : map.space key = some space) : (cache.fill map key space).Sound history := by
  intro other entry lookup
  rw [ShardLocationCache.fill, Std.ExtTreeMap.getElem?_insert] at lookup
  split at lookup
  · rename_i same
    obtain rfl := Std.LawfulEqCmp.eq_of_compare same
    obtain rfl := Option.some.inj lookup
    exact ⟨map, space, included, rfl, found, rfl⟩
  · exact sound other entry lookup

theorem Sound.erase (version : UInt64) (key : MeasurementKey) :
    Sound history ⟨version, cache.byMeasurement.erase key⟩ := by
  intro other entry lookup
  rw [Std.ExtTreeMap.getElem?_erase] at lookup
  split at lookup
  · simp at lookup
  · exact sound other entry lookup

theorem Sound.refreshFromMap (included : history.Includes map) :
    (cache.refreshFromMap map).Sound history := by
  refine List.foldlRecOn _ _ sound fun cache sound entry member => ?_
  have found : map.spaces[entry.1]? = some entry.2 :=
    Std.ExtTreeMap.mem_toList_iff_getElem?_eq_some.mp member
  have keyEq := (history.valid map included entry.1 entry.2 found).keyEq
  refine Sound.fill sound included ?_
  rw [keyEq]
  exact found

omit sound in
theorem Sound.locateWith (view : ShardRegion → α)
    (sound : cache.Sound history) (included : history.Includes map)
    (key : MeasurementKey) (seriesId : UInt64) :
    (cache.locateWith view map key seriesId).2.Sound history := by
  unfold ShardLocationCache.locateWith locateInMap
  split
  · exact sound
  · split
    · exact sound
    · dsimp only
      split
      · rename_i found
        exact sound.fill included found
      · exact sound

theorem Sound.afterCall (call : CacheCall history) : (cache.afterCall call).Sound history := by
  cases call with
  | refreshFromMap map => exact sound.refreshFromMap map.2
  | refreshMeasurement map key =>
    rw [ShardLocationCache.afterCall, ShardLocationCache.refreshMeasurement]
    split
    · rename_i found
      exact sound.fill map.2 found
    · exact sound.erase _ key
  | invalidateAll => simp [ShardLocationCache.afterCall, invalidateAll, Sound]
  | invalidateMeasurement key => exact sound.erase _ key
  | servingRegions map key =>
    rw [ShardLocationCache.afterCall, ShardLocationCache.servingRegions]
    split
    · exact sound
    · split
      · exact sound
      · rename_i found
        exact sound.fill map.2 found
  | locate map key seriesId => exact sound.locateWith id map.2 key seriesId
  | locateRoute map key seriesId selfId =>
    exact sound.locateWith (·.route selfId) map.2 key seriesId

omit sound in
theorem sound_afterCalls (calls : List (CacheCall history)) : (afterCalls calls).Sound history := by
  have initial : Sound history {} := by simp [Sound]
  exact run_preserves (fun cache call (sound : cache.Sound history) => sound.afterCall call)
    initial calls

end ShardLocationCache

end

end HyperbyteDb

/-! ## Routing decisions on cold and warm caches -/

namespace HyperbyteDb

open Option ShardRegion

/-- Where a request for a series should go: the region of the routable view that
holds it. -/
def ShardMap.servingRegionFor (map : ShardMap) (key : MeasurementKey)
    (seriesId : UInt64) : Option ShardRegion :=
  (map.space key).bind fun space =>
    locateInRegions (materialiseServing space.regions) seriesId

/-- The part of a region that routing uses. -/
structure RoutingDecision where
  regionId : UInt64
  primary : UInt64
  peers : List UInt64
  epoch : ShardEpoch
deriving DecidableEq

def ShardRegion.decision (region : ShardRegion) : RoutingDecision where
  regionId := region.regionId
  primary := region.primary
  peers := region.peers
  epoch := region.epoch

variable {region : ShardRegion}

theorem locateInRegions_of_contains {regions : List ShardRegion}
    (covers : CoversSeries regions) (member : region ∈ regions)
    {seriesId : UInt64} (contains : region.contains seriesId = true) :
    locateInRegions regions seriesId = some region := by
  have holds := (region.contains_iff seriesId).mp contains
  have below : seriesId < UInt64.maxValue :=
    lt_of_lt_of_le holds.2 (UInt64.le_maxValue _)
  obtain ⟨found, located, foundMember, foundContains⟩ :=
    locateInRegions_of_covers covers below
  obtain ⟨only, filtered⟩ := covers.exists_filter_contains below
  have sole : ∀ other ∈ regions, other.contains seriesId = true → other = only := by
    intro other otherMember otherContains
    have kept : other ∈ regions.filter (·.contains seriesId) :=
      List.mem_filter.mpr ⟨otherMember, otherContains⟩
    rwa [filtered, List.mem_singleton] at kept
  rw [located, sole found foundMember foundContains, sole region member contains]

variable {α : Type} {view : ShardRegion → α}

section Valid

variable {map : ShardMap} (valid : map.Valid) (key : MeasurementKey) (seriesId : UInt64)
include valid

/-- The routable view answers with the map's region, materialised. -/
theorem ShardMap.Valid.servingRegionFor_eq :
    map.servingRegionFor key seriesId = (map.space key).bind fun space =>
        (space.locate seriesId).map (materialiseRegion space.regions) := by
  unfold servingRegionFor
  cases found : map.space key with
  | none => rfl
  | some space =>
    have covers := (valid key space found).covers
    rw [bind_some, materialiseServing_eq_map covers,
      locateInRegions_map (materialiseRegion_range _)]
    rfl

/-- Materialising a region leaves its identity alone exactly if the region serves
or has no serving donor. -/
theorem ShardMap.Valid.materialise_same_iff
    (viewsId : ∀ first second, view first = view second →
      first.regionId = second.regionId)
    {space : MeasurementShardSpace} (found : map.space key = some space)
    (member : region ∈ space.regions) :
    view region = view (materialiseRegion space.regions region) ↔
      (region.isServing = false → servingDonor space.regions region = none) := by
  unfold materialiseRegion
  cases serving : region.isServing with
  | true => simp
  | false =>
    cases donorEq : servingDonor space.regions region with
    | none => simp
    | some donor =>
      simp only [forall_const, reduceCtorEq, iff_false]
      intro same
      obtain ⟨donorMember, donorServing⟩ := mem_of_servingDonor donorEq
      have sameRegion : region = donor := List.inj_on_of_nodup_map
        (valid key space found).distinct member donorMember
        (viewsId region (region.standIn donor) same)
      simp [← sameRegion, serving] at donorServing

end Valid

namespace ShardLocationCache

variable {history : VersionHistory} {cache : ShardLocationCache} {map : ShardMap}

theorem Sound.freshEntry (sound : cache.Sound history) (included : history.Includes map)
    {key : MeasurementKey} {entry : CachedMeasurement}
    (fresh : cache.freshEntry map key = some entry) :
    ∃ space, map.space key = some space ∧ entry.regions = materialiseServing space.regions := by
  unfold ShardLocationCache.freshEntry at fresh
  split at fresh
  · rename_i cached lookup
    split at fresh
    · rename_i versionEq
      obtain rfl := some.inj fresh
      obtain ⟨old, space, oldIncluded, oldVersion, found, regionsEq⟩ :=
        sound key cached lookup
      obtain rfl := history.unique old map oldIncluded included (oldVersion.trans versionEq)
      exact ⟨space, found, regionsEq⟩
    · simp at fresh
  · simp at fresh

theorem locateInMap_fst (view : ShardRegion → α) (cache : ShardLocationCache)
    (map : ShardMap) (key : MeasurementKey) (seriesId : UInt64) :
    (cache.locateInMap view map key seriesId).1 = (map.locate key seriesId).map view := by
  unfold locateInMap
  cases map.locate key seriesId <;> rfl

theorem Sound.locateWith_eq (view : ShardRegion → α)
    (sound : cache.Sound history) (included : history.Includes map)
    (key : MeasurementKey) (seriesId : UInt64) : (cache.locateWith view map key seriesId).1 =
      if (cache.freshEntry map key).isSome then (map.servingRegionFor key seriesId).map view
      else (map.locate key seriesId).map view := by
  unfold ShardLocationCache.locateWith
  cases fresh : cache.freshEntry map key with
  | none => simp [locateInMap_fst]
  | some entry =>
    obtain ⟨space, found, regionsEq⟩ := sound.freshEntry included fresh
    have expected : map.servingRegionFor key seriesId =
        locateInRegions entry.regions seriesId := by
      rw [ShardMap.servingRegionFor, found, regionsEq, bind_some]
    rw [bind_some, isSome_some, if_pos rfl, expected]
    cases located : locateInRegions entry.regions seriesId with
    | some region => rfl
    | none =>
      -- The view covers what the map covers, so the map has no region either.
      refine (cache.locateInMap_fst view map key seriesId).trans ?_
      have viewed := (history.valid map included).servingRegionFor_eq key seriesId
      rw [expected, located, found, bind_some, eq_comm, map_eq_none_iff] at viewed
      rw [ShardMap.locate, found, bind_some, viewed]

/-- The cache knows the measurement at this version, or the region that holds the
series serves or has no serving donor. -/
def RoutesDirectly (cache : ShardLocationCache) (map : ShardMap) (key : MeasurementKey)
    (seriesId : UInt64) : Prop :=
  (cache.freshEntry map key).isSome = true ∨
    ∀ space, map.space key = some space → ∀ region ∈ space.regions,
      region.contains seriesId = true → region.isServing = false →
      servingDonor space.regions region = none

theorem Sound.locateWith_transparent_iff
    (viewsId : ∀ first second, view first = view second →
      first.regionId = second.regionId)
    (sound : cache.Sound history) (included : history.Includes map)
    (key : MeasurementKey) (seriesId : UInt64) : (cache.locateWith view map key seriesId).1 =
        (map.servingRegionFor key seriesId).map view ↔ cache.RoutesDirectly map key seriesId := by
  have valid := history.valid map included
  rw [sound.locateWith_eq view included]
  unfold RoutesDirectly
  cases fresh : (cache.freshEntry map key).isSome with
  | true => simp
  | false =>
    rw [valid.servingRegionFor_eq, ShardMap.locate]
    simp only [Bool.false_eq_true, false_or]
    cases found : map.space key with
    | none => simp
    | some space =>
      have covers := (valid key space found).covers
      simp only [bind_some, some.injEq, forall_eq']
      constructor
      · intro agrees region member contains
        have located : space.locate seriesId = some region :=
          locateInRegions_of_contains covers member contains
        rw [located] at agrees
        exact (valid.materialise_same_iff key viewsId found member).mp (some.inj agrees)
      · intro direct
        cases located : space.locate seriesId with
        | none => rfl
        | some region =>
          obtain ⟨member, contains⟩ := mem_of_locateInRegions located
          exact congrArg some ((valid.materialise_same_iff key viewsId found
            member).mpr (direct region member contains))

/-- After any calls on maps of one history, a lookup returns the routing decision
of the routable view exactly when the cache has a fresh entry or the region that
holds the series serves or has no serving donor. -/
theorem locate_transparent_iff (calls : List (CacheCall history))
    (map : { map // history.Includes map }) (key : MeasurementKey) (seriesId : UInt64) :
    (((afterCalls calls).locate map key seriesId).1.map decision =
        (map.1.servingRegionFor key seriesId).map decision ↔
      (afterCalls calls).RoutesDirectly map key seriesId) ∧
    ∀ selfId, ((afterCalls calls).locateRoute map key seriesId selfId).1 =
        (map.1.servingRegionFor key seriesId).map (·.route selfId) ↔
      (afterCalls calls).RoutesDirectly map key seriesId := by
  have sound := sound_afterCalls calls
  constructor
  · have same : ((afterCalls calls).locate map key seriesId).1.map decision =
        ((afterCalls calls).locateWith decision map key seriesId).1 := by
      rw [locate, sound.locateWith_eq id map.2, sound.locateWith_eq _ map.2]
      split <;> simp
    rw [same]
    exact sound.locateWith_transparent_iff
      (fun _ _ decisionEq => congrArg RoutingDecision.regionId decisionEq) map.2 key seriesId
  · intro selfId
    exact sound.locateWith_transparent_iff
      (fun _ _ routeEq => congrArg RegionRoute.regionId routeEq) map.2 key seriesId

end ShardLocationCache

/-- A measurement whose right half is being moved out of region 1. -/
def stagedSplitRun : List ShardMapOp :=
  [.bootstrapMeasurement sampleKey (soleRegion 1 ⟨0, 0⟩),
    .split sampleKey 1 100 ⟨0, 0⟩ { soleRegion 1 ⟨0, 1⟩ with end_ := 100 }
      { soleRegion 0 ⟨0, 1⟩ with
        start := 100, peers := [2], primary := 2, state := .staging,
        stagedFrom := some 1 }]

/-- A cold cache routes series 150 to the staging region, a warm one to its
donor. -/
theorem cold_cache_routes_to_staging :
    let map := FallibleRuns.run applyShardMapOp ShardMap.default stagedSplitRun
    let cold : ShardLocationCache := {}
    let warm := cold.refreshFromMap map
    (cold.locate map sampleKey 150).1.map (fun region => (region.regionId, region.state)) =
      some (2, .staging) ∧
    (warm.locate map sampleKey 150).1.map (fun region => (region.regionId, region.state)) =
      some (1, .serving) ∧ (cold.locateRoute map sampleKey 150 1).1 = some ⟨2, 2, false⟩ ∧
    (warm.locateRoute map sampleKey 150 1).1 = some ⟨1, 1, true⟩ := by
  decide +kernel

end HyperbyteDb
