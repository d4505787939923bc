import HyperbyteDb.ShardMapTransitions

/-!
# Region membership

A region is well formed when its peers are distinct, its primary is one of them, its learners
are among them and the primary is not a learner.
-/

namespace HyperbyteDb

open FallibleRuns List ShardMap ShardMapOp

section

def ShardMap.Stores (map : ShardMap) (key : MeasurementKey) (region : ShardRegion) : Prop :=
  ∃ space, map.spaces[key]? = some space ∧ region ∈ space.regions

variable {key : MeasurementKey}

variable {map : ShardMap} {region : ShardRegion}

variable {nextRegionId : UInt64} {other : MeasurementKey} {space : MeasurementShardSpace}

theorem ShardMap.stores_advance_iff : (map.advance nextRegionId key space).Stores other region ↔
      if key = other then region ∈ space.regions else map.Stores other region := by
  unfold Stores
  rw [lookup_advance]
  split <;> simp

theorem ShardMap.stores_dropped_iff {db : String} {rp measurement : Option String} :
    (map.dropped db rp measurement).Stores key region ↔
      dropMatches db rp measurement key = false ∧ map.Stores key region := by
  unfold Stores
  rw [lookup_dropped]
  split
  · rename_i matched
    simp [matched]
  · rename_i kept
    simp [kept]

variable {op : ShardMapOp}

namespace ShardMapOp

/-- The regions an operation brings with it. -/
def carriedRegions : ShardMapOp → List ShardRegion
  | .bootstrapMeasurement _ region => [region]
  | .bootstrapMeasurementPresplit _ regions => regions
  | .split _ _ _ _ left right => [left, right]
  | .merge _ _ _ _ _ merged => [merged]
  | _ => []

/-- The regions an operation brings, each with the identifier it is stored under. -/
def installedAs (op : ShardMapOp) (map : ShardMap) : List (ShardRegion × UInt64) :=
  match op with
  | .bootstrapMeasurement _ region => [(region, region.regionId)]
  | .bootstrapMeasurementPresplit _ regions =>
    regions.map fun region => (region, region.regionId)
  | .split _ _ _ _ left right => [(left, left.regionId), (right, map.nextRegionId)]
  | .merge _ _ _ _ _ merged => [(merged, merged.regionId)]
  | _ => []

/-- The names an operation stores new regions under. -/
def installs (op : ShardMapOp) (map : ShardMap) : List (MeasurementKey × UInt64) :=
  match op with
  | .bootstrapMeasurement key region => [(key, region.regionId)]
  | .bootstrapMeasurementPresplit key regions =>
    regions.map fun region => (key, region.regionId)
  | .split key _ _ _ left _ => [(key, left.regionId), (key, map.nextRegionId)]
  | .merge key _ _ _ _ merged => [(key, merged.regionId)]
  | _ => []

variable {source : ShardRegion} {regionId : UInt64}

theorem mem_carriedRegions_of_installedAs
    (installed : (source, regionId) ∈ op.installedAs map) : source ∈ op.carriedRegions := by
  cases op <;> simp_all [installedAs, carriedRegions]
  all_goals grind

theorem mem_installs_of_installedAs (isKey : op.measurementKey = some key)
    (installed : (source, regionId) ∈ op.installedAs map) :
    (key, regionId) ∈ op.installs map := by
  cases op <;> simp_all [installedAs, installs, measurementKey] <;> grind

section

variable {regions : List ShardRegion} (isBootstrap : op.bootstrapRegions = some (key, regions))
include isBootstrap

theorem installedAs_of_bootstrap :
    op.installedAs map = regions.map fun region => (region, region.regionId) := by
  cases op <;> simp_all [installedAs, bootstrapRegions]
  grind

theorem installs_of_bootstrap (map : ShardMap) :
    op.installs map = regions.map fun region => (key, region.regionId) := by
  cases op <;> simp_all [installs, bootstrapRegions]
  grind

end

theorem installs_of_regionEdit {change : RegionEdit} (isEdit : op.regionEdit = some change)
    (map : ShardMap) : op.installs map = [] := by
  cases op <;> simp_all [installs, regionEdit]

end ShardMapOp

structure SameMembers (first second : ShardRegion) : Prop where
  peersEq : first.peers = second.peers
  learnersEq : first.stagingPeers = second.stagingPeers
  primaryEq : first.primary = second.primary
  epochEq : first.epoch = second.epoch

@[simp] theorem flagMovedChild_regionId (old child : ShardRegion) :
    (flagMovedChild old child).regionId = child.regionId := by
  unfold flagMovedChild
  split <;> rfl

theorem flagMovedChild_sameMembers (old child : ShardRegion) :
    SameMembers (flagMovedChild old child) child := by
  unfold flagMovedChild
  split <;> exact ⟨rfl, rfl, rfl, rfl⟩

/-- How a region came to be stored under `key` by `op`. -/
inductive RegionOrigin (map : ShardMap) (op : ShardMapOp) (key : MeasurementKey)
    (region : ShardRegion) : Prop
  | kept (stored : map.Stores key region)
  | carried (source : ShardRegion) (isKey : op.measurementKey = some key)
      (installed : (source, region.regionId) ∈ op.installedAs map)
      (same : SameMembers region source)
  | edited (change : RegionEdit) (isEdit : op.regionEdit = some change)
      (keyEq : change.key = key) (old : ShardRegion) (stored : map.Stores key old)
      (oldIdEq : old.regionId = change.regionId) (oldEpochEq : old.epoch = change.epoch)
      (edited : ShardRegion) (editEq : change.edit old = .ok edited)
      (regionEq : region = { edited with epoch := change.epoch.bumpConfVer })

/-- The regions of the other spaces are kept. -/
theorem RegionOrigin.advance
    (stored : (map.advance nextRegionId key space).Stores other region)
    (inside : region ∈ space.regions → RegionOrigin map op key region) :
    RegionOrigin map op other region := by
  rw [stores_advance_iff] at stored
  split at stored
  next sameKey => exact sameKey ▸ inside stored
  next => exact .kept stored

theorem Applied.origin {after : ShardMap} (applied : Applied map op after)
    (stored : after.Stores key region) : RegionOrigin map op key region := by
  cases applied with
  | @bootstrap _ _ regions isBootstrap absent distinct unused covers =>
    refine .advance stored fun inside => ?_
    have member : region ∈ regions := mem_sortByStart.mp inside
    refine .carried region (measurementKey_of_bootstrap isBootstrap) ?_ ⟨rfl, rfl, rfl, rfl⟩
    rw [installedAs_of_bootstrap isBootstrap]
    exact mem_map_of_mem member
  | @split _ _ _ _ left right old _ _ _ _ allocatable spaceEq found epochEq inside meets
      regionsEq covers distinct globallyDistinct =>
      refine .advance stored fun inside => ?_
      rw [regionsEq, mem_sortByStart, mem_append, mem_cons, mem_cons] at inside
      rcases inside with inFront | rfl | rfl | inBack
      · exact .kept ⟨_, spaceEq, found.front_subset inFront⟩
      · exact .carried left rfl (by simp [installedAs]) (flagMovedChild_sameMembers old left)
      · have same := flagMovedChild_sameMembers old { right with regionId := map.nextRegionId }
        exact .carried right rfl (by simp [installedAs])
          ⟨same.peersEq, same.learnersEq, same.primaryEq, same.epochEq⟩
      · exact .kept ⟨_, spaceEq, found.back_subset inBack⟩
  | merge spaceEq leftFound rightFound leftEpochEq rightEpochEq regionsEq covers
      distinct =>
      refine .advance stored fun inside => ?_
      rw [regionsEq, mem_sortByStart, mem_append, mem_cons] at inside
      rcases inside with inFront | rfl | inBack
      · exact .kept ⟨_, spaceEq, leftFound.front_subset inFront⟩
      · exact .carried region rfl (by simp [installedAs]) ⟨rfl, rfl, rfl, rfl⟩
      · exact .kept ⟨_, spaceEq, rightFound.back_subset inBack⟩
  | edit isEdit spaceEq found epochEq editEq =>
    refine .advance stored fun inside => ?_
    rw [mem_sortByStart, mem_append, mem_cons] at inside
    rcases inside with inFront | rfl | inBack
    · exact .kept ⟨_, spaceEq, found.front_subset inFront⟩
    · exact .edited _ isEdit rfl _ ⟨_, spaceEq, found.mem⟩ found.idEq epochEq _ editEq rfl
    · exact .kept ⟨_, spaceEq, found.back_subset inBack⟩
  | drop => exact .kept (stores_dropped_iff.mp stored).2

end

/-! ## Region membership -/

@[mk_iff]
structure ShardRegion.WellFormed (region : ShardRegion) : Prop where
  distinct : region.peers.Nodup
  primaryMember : region.primary ∈ region.peers
  learnersMembers : region.stagingPeers ⊆ region.peers
  primaryNotLearner : region.primary ∉ region.stagingPeers

instance (region : ShardRegion) : Decidable region.WellFormed :=
  decidable_of_iff _ (ShardRegion.wellFormed_iff region).symm

variable {op : ShardMapOp}

namespace ShardRegion.WellFormed

variable {region edited : ShardRegion}

variable (wellFormed : region.WellFormed)
include wellFormed

theorem congr (peersEq : edited.peers = region.peers)
    (learnersEq : edited.stagingPeers = region.stagingPeers)
    (primaryEq : edited.primary = region.primary) : edited.WellFormed where
  distinct := peersEq ▸ wellFormed.distinct
  primaryMember := by rw [peersEq, primaryEq]; exact wellFormed.primaryMember
  learnersMembers := by rw [peersEq, learnersEq]; exact wellFormed.learnersMembers
  primaryNotLearner := by
    rw [learnersEq, primaryEq]
    exact wellFormed.primaryNotLearner

theorem isServingPeer_primary : region.isServingPeer region.primary = true := by
  simp [isServingPeer, wellFormed.primaryMember, wellFormed.primaryNotLearner]

variable {fromPeer toPeer : UInt64}

theorem movePeer
    (moved : HyperbyteDb.movePeer fromPeer toPeer region = .ok edited) : edited.WellFormed := by
  obtain ⟨-, notLearner, rfl⟩ := movePeer_eq_ok_iff.mp moved
  have remainingDistinct := wellFormed.distinct.filter (· != fromPeer)
  have remaining : ∀ peer, peer ∈ region.peers.filter (· != fromPeer) ↔
      peer ∈ region.peers ∧ peer ≠ fromPeer := by simp
  -- Whether or not the target was a member, the new peers are the old ones
  -- without the source, with the target.
  have members : ∀ peer,
      peer ∈ (if (region.peers.filter (· != fromPeer)).contains toPeer then
          region.peers.filter (· != fromPeer)
        else region.peers.filter (· != fromPeer) ++ [toPeer]) ↔
      (peer ∈ region.peers ∧ peer ≠ fromPeer) ∨ peer = toPeer := by
    intro peer
    split
    · rename_i present
      rw [contains_iff_mem, remaining] at present
      rw [remaining]
      grind
    · rw [mem_append, mem_singleton, remaining]
  constructor
  · dsimp only
    split
    · exact remainingDistinct
    · rename_i absent
      exact List.Nodup.append remainingDistinct (nodup_singleton _) (by simpa using absent)
  · have primaryMember := wellFormed.primaryMember
    grind
  · intro peer learner
    rw [members]
    have member : peer ∈ region.peers :=
      wellFormed.learnersMembers (mem_of_mem_filter learner)
    exact Or.inl ⟨member, by simpa using (mem_filter.mp learner).2⟩
  · have primaryNotLearner := wellFormed.primaryNotLearner
    grind

theorem addPeer {staging : Bool}
    (added : HyperbyteDb.addPeer toPeer staging region = .ok edited) : edited.WellFormed := by
  obtain ⟨-, notMember, rfl⟩ := addPeer_eq_ok_iff.mp added
  constructor
  · exact List.Nodup.append wellFormed.distinct (nodup_singleton _) (by simpa using notMember)
  · exact mem_append_left _ wellFormed.primaryMember
  · have learnersMembers := wellFormed.learnersMembers
    grind
  · have primaryMember := wellFormed.primaryMember
    have primaryNotLearner := wellFormed.primaryNotLearner
    grind

theorem promotePeer {regionId peer : UInt64}
    (promoted : HyperbyteDb.promotePeer regionId peer region = .ok edited) : edited.WellFormed := by
  obtain ⟨-, rfl⟩ := promotePeer_eq_ok_iff.mp promoted
  refine ⟨wellFormed.distinct, wellFormed.primaryMember, ?_, ?_⟩
  · exact fun learner member =>
      wellFormed.learnersMembers (mem_of_mem_filter member)
  · exact fun member =>
      wellFormed.primaryNotLearner (mem_of_mem_filter member)

theorem removePeer
    (removed : HyperbyteDb.removePeer fromPeer region = .ok edited) : edited.WellFormed := by
  obtain ⟨-, -, notPrimary, -, -, rfl⟩ := removePeer_eq_ok_iff.mp removed
  refine ⟨wellFormed.distinct.filter _, ?_, ?_, ?_⟩
  · exact mem_filter.mpr ⟨wellFormed.primaryMember, by simpa using notPrimary⟩
  · intro peer learner
    obtain ⟨member, kept⟩ := mem_filter.mp learner
    exact mem_filter.mpr ⟨wellFormed.learnersMembers member, kept⟩
  · exact fun member =>
      wellFormed.primaryNotLearner (mem_of_mem_filter member)

theorem transferPrimary {regionId newPrimary : UInt64}
    (transferred : HyperbyteDb.transferPrimary regionId newPrimary region = .ok edited) :
    edited.WellFormed := by
  obtain ⟨notLearner, member, rfl⟩ := transferPrimary_eq_ok_iff.mp transferred
  exact ⟨wellFormed.distinct, member, wellFormed.learnersMembers, notLearner⟩

theorem regionEdit {change : RegionEdit} (isEdit : op.regionEdit = some change)
    (editEq : change.edit region = .ok edited) : edited.WellFormed := by
  cases op <;> cases isEdit
  case movePeer.refl => exact wellFormed.movePeer editEq
  case addPeer.refl => exact wellFormed.addPeer editEq
  case promotePeer.refl => exact wellFormed.promotePeer editEq
  case removePeer.refl => exact wellFormed.removePeer editEq
  case transferPrimary.refl => exact wellFormed.transferPrimary editEq
  case clearVerified.refl | activateRegion.refl =>
    cases editEq
    exact wellFormed.congr rfl rfl rfl

end ShardRegion.WellFormed

def ShardMap.RegionsWellFormed (map : ShardMap) : Prop :=
  map.ForallSpaces fun _ space => ∀ region ∈ space.regions, region.WellFormed

theorem Applied.regionsWellFormed {map after : ShardMap}
    (applied : Applied map op after) (before : map.RegionsWellFormed)
    (carried : ∀ region ∈ op.carriedRegions, region.WellFormed) : after.RegionsWellFormed := by
  intro key space lookup region member
  cases applied.origin ⟨space, lookup, member⟩ with
  | kept stored =>
    obtain ⟨oldSpace, oldLookup, oldMember⟩ := stored
    exact before key oldSpace oldLookup region oldMember
  | carried source _ installed same =>
    have wellFormed :=
      carried source (ShardMapOp.mem_carriedRegions_of_installedAs installed)
    exact wellFormed.congr same.peersEq same.learnersEq same.primaryEq
  | edited change isEdit keyEq old stored idEq epochEq edited editEq regionEq =>
    obtain ⟨oldSpace, oldLookup, oldMember⟩ := stored
    have oldWellFormed := before key oldSpace oldLookup old oldMember
    subst regionEq
    exact (oldWellFormed.regionEdit isEdit editEq).congr rfl rfl rfl

/-- Accepted operations that carry well-formed regions keep every region well
formed, so in no run of such operations does a region become ownerless, led by a
node outside its peers or led by a learner. -/
theorem applyShardMapOp_keeps_regions_wellFormed :
    (∀ (map after : ShardMap) (op : ShardMapOp), map.RegionsWellFormed →
      (∀ region ∈ op.carriedRegions, region.WellFormed) →
      applyShardMapOp map op = .ok after → after.RegionsWellFormed) ∧
    ∀ (map : ShardMap) (ops : List ShardMapOp), map.RegionsWellFormed →
      (∀ op ∈ ops, ∀ region ∈ op.carriedRegions, region.WellFormed) →
      (run applyShardMapOp map ops).ForallSpaces fun _ space =>
        ∀ region ∈ space.regions,
          region.peers ≠ [] ∧ region.primary ∈ region.peers ∧
          region.primary ∉ region.stagingPeers ∧
          ∃ peer ∈ region.peers, region.isServingPeer peer = true := by
  have step (map after : ShardMap) (op : ShardMapOp) (before : map.RegionsWellFormed)
      (carried : ∀ region ∈ op.carriedRegions, region.WellFormed)
      (accepted : applyShardMapOp map op = .ok after) : after.RegionsWellFormed :=
    (applyShardMapOp_eq_ok_iff.mp accepted).regionsWellFormed before carried
  refine ⟨step, fun map ops before carried key space stored region member => ?_⟩
  have reached : (run applyShardMapOp map ops).RegionsWellFormed :=
    run_invariant_along (fun state op after => step state after op) before
      (Along.of_forall fun _ => carried)
  have wellFormed := reached key space stored region member
  exact ⟨ne_nil_of_mem wellFormed.primaryMember, wellFormed.primaryMember,
    wellFormed.primaryNotLearner, region.primary, wellFormed.primaryMember,
    wellFormed.isServingPeer_primary⟩

theorem sampleSplitRun_keeps_regions_wellFormed : (∃ after, applyShardMapOp ShardMap.default
        (.bootstrapMeasurement sampleKey (soleRegion 1 ⟨0, 0⟩)) = .ok after ∧
      after.RegionsWellFormed) ∧
    ∃ space, (run applyShardMapOp ShardMap.default sampleSplitRun).spaces[sampleKey]? =
        some space ∧ space.regionIds = [1, 2] ∧
      ∀ region ∈ space.regions,
        region.peers ≠ [] ∧ region.primary ∈ region.peers ∧
        region.primary ∉ region.stagingPeers ∧
        ∃ peer ∈ region.peers, region.isServingPeer peer = true := by
  have empty : ShardMap.default.RegionsWellFormed := fun key space stored => by
    simp [ShardMap.default] at stored
  obtain ⟨step, runs⟩ := applyShardMapOp_keeps_regions_wellFormed
  refine ⟨⟨_, rfl, step _ _ (.bootstrapMeasurement sampleKey (soleRegion 1 ⟨0, 0⟩)) empty
    (by decide) rfl⟩, ⟨sampleKey, [{ soleRegion 1 ⟨0, 1⟩ with end_ := 100 },
      { soleRegion 2 ⟨0, 1⟩ with start := 100 }]⟩, ?_, rfl, ?_⟩
  · decide +kernel
  · exact runs ShardMap.default sampleSplitRun empty (by decide) sampleKey _ (by decide +kernel)

end HyperbyteDb
