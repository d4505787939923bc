import HyperbyteDb.ShardRegionMembership
import Mathlib.Data.List.Pairwise

/-!
# Region identifiers

Identifiers are meant to be unique across all spaces and below the allocator `nextRegionId`.
-/

namespace HyperbyteDb

open FallibleRuns List ShardMap ShardMapOp

variable {op : ShardMapOp} {map after : ShardMap} {key : MeasurementKey}

variable {regionId : UInt64} {region : ShardRegion}

/-- The whole map has distinct identifiers exactly when every space has and no
identifier occurs in two spaces. -/
theorem ShardMap.regionIds_nodup_iff (map : ShardMap) :
    map.regionIds.Nodup ↔ (map.ForallSpaces fun _ space => space.regionIds.Nodup) ∧
      ∀ firstKey secondKey first second, map.Stores firstKey first →
        map.Stores secondKey second → first.regionId = second.regionId → firstKey = secondKey := by
  rw [regionIds, nodup_flatMap]
  have stored : ∀ entry : MeasurementKey × MeasurementShardSpace,
      entry ∈ map.spaces.toList ↔ map.spaces[entry.1]? = some entry.2 := fun entry =>
    Std.ExtTreeMap.mem_toList_iff_getElem?_eq_some
  refine and_congr ?_ ?_
  · exact ⟨fun each key space lookup => each (key, space) ((stored _).mpr lookup),
      fun each entry member => each entry.1 entry.2 ((stored _).mp member)⟩
  · constructor
    · intro apart firstKey secondKey first second
      rintro ⟨firstSpace, firstLookup, firstMember⟩ ⟨secondSpace, secondLookup, secondMember⟩ sameId
      by_contra differ
      have symmetric : Std.Symm (Function.onFun List.Disjoint
          fun entry : MeasurementKey × MeasurementShardSpace => entry.2.regionIds) :=
        ⟨fun _ _ disjoint _ left right => disjoint right left⟩
      have disjoint := apart.forall ((stored (firstKey, firstSpace)).mpr firstLookup)
        ((stored (secondKey, secondSpace)).mpr secondLookup)
        (fun same => differ (congrArg Prod.fst same))
      refine disjoint (mem_map_of_mem firstMember) ?_
      rw [sameId]
      exact mem_map_of_mem secondMember
    · intro apart
      refine Std.ExtTreeMap.distinct_keys_toList.imp_of_mem ?_
      intro first second firstMember secondMember differ id firstId secondId
      obtain ⟨firstRegion, firstRegionMember, rfl⟩ := mem_map.mp firstId
      obtain ⟨secondRegion, secondRegionMember, sameId⟩ := mem_map.mp secondId
      refine differ (Std.compare_eq_iff_eq.mpr (apart first.1 second.1 firstRegion secondRegion
        ⟨_, (stored _).mp firstMember, firstRegionMember⟩
        ⟨_, (stored _).mp secondMember, secondRegionMember⟩ sameId.symm))

/-- Identifiers are unique in the whole map and the allocator is above them. -/
structure IdsAllocated (map : ShardMap) : Prop where
  distinct : map.regionIds.Nodup
  below : ∀ key region, map.Stores key region → region.regionId < map.nextRegionId

/-- The identifier a split would allocate is not in use. -/
theorem IdsAllocated.hasRegionId_next (allocated : IdsAllocated map) :
    map.hasRegionId map.nextRegionId = false := by
  rw [Bool.eq_false_iff]
  intro taken
  obtain ⟨key, space, lookup, region, member, idEq⟩ := (map.hasRegionId_iff _).mp taken
  exact absurd idEq (ne_of_lt (allocated.below key region ⟨space, lookup, member⟩))

theorem idsAllocated_default : IdsAllocated ShardMap.default where
  distinct := by decide
  below key region stored := by
    obtain ⟨space, lookup, -⟩ := stored
    simp [ShardMap.default] at lookup

/-- What an operation must carry for the identifiers to stay allocated: created
identifiers below the top word, a kept or merged identifier below the allocator,
and a merged identifier that no other space uses. -/
def ShardMapOp.AllocatesBelow (op : ShardMapOp) (map : ShardMap) : Prop :=
  match op with
  | .bootstrapMeasurement _ region => region.regionId < UInt64.maxValue
  | .bootstrapMeasurementPresplit _ regions =>
    ∀ region ∈ regions, region.regionId < UInt64.maxValue
  | .split _ _ _ _ left _ =>
    left.regionId < map.nextRegionId ∧ map.nextRegionId < UInt64.maxValue
  | .merge key _ _ _ _ merged =>
    merged.regionId < map.nextRegionId ∧
      ∀ other region, map.Stores other region → region.regionId = merged.regionId → other = key
  | _ => True

/-- A merge stores its result under an identifier no other space uses. -/
def ShardMapOp.InstallsApart (op : ShardMapOp) (map : ShardMap) : Prop :=
  match op with
  | .merge key _ _ _ _ merged =>
    ∀ other region, map.Stores other region → region.regionId = merged.regionId → other = key
  | _ => True

theorem ShardMapOp.AllocatesBelow.installsApart (allocates : op.AllocatesBelow map) :
    op.InstallsApart map := by
  cases op with
  | merge => exact allocates.2
  | _ => trivial

theorem ShardMapOp.allocatesBelow_of_bootstrap {regions : List ShardRegion}
    (isBootstrap : op.bootstrapRegions = some (key, regions)) :
    op.AllocatesBelow map ↔ ∀ region ∈ regions, region.regionId < UInt64.maxValue := by
  cases op <;> simp_all [bootstrapRegions, AllocatesBelow]
  grind

theorem ShardMapOp.allocatesBelow_of_regionEdit {change : RegionEdit}
    (isEdit : op.regionEdit = some change) : op.AllocatesBelow map := by
  cases op <;> simp_all [regionEdit, AllocatesBelow]

/-- All names an operation installs are in one space. -/
theorem ShardMapOp.measurementKey_of_installs (installed : (key, regionId) ∈ op.installs map) :
    op.measurementKey = some key := by
  cases op <;> simp_all [installs, measurementKey] <;> grind

/-- An identifier stored after an operation was stored in the same space before
it or is installed by it. -/
theorem Applied.id_origin (applied : Applied map op after) (stored : after.Stores key region) :
    (∃ old, map.Stores key old ∧ old.regionId = region.regionId) ∨
      (key, region.regionId) ∈ op.installs map := by
  cases applied.origin stored with
  | kept stored => exact Or.inl ⟨region, stored, rfl⟩
  | carried source isKey installed same =>
    exact Or.inr (mem_installs_of_installedAs isKey installed)
  | edited change isEdit keyEq old oldStored oldIdEq _ edited editEq regionEq =>
    refine Or.inl ⟨old, oldStored, ?_⟩
    rw [regionEq]
    exact (regionEdit_frame isEdit editEq).1.symm

theorem nextRegionId_le_bootstrap (regions : List ShardRegion) :
    map.nextRegionId ≤ bootstrapNextRegionId map regions := by
  unfold bootstrapNextRegionId
  split
  · exact le_max_left _ _
  · exact le_rfl

theorem lt_bootstrapNextRegionId {regions : List ShardRegion} (member : region ∈ regions)
    (below : ∀ region ∈ regions, region.regionId < UInt64.maxValue) :
    region.regionId < bootstrapNextRegionId map regions := by
  unfold bootstrapNextRegionId
  split
  · rename_i top topEq
    obtain ⟨topMember, upper⟩ := max?_eq_some_iff.mp topEq
    obtain ⟨topRegion, topRegionMember, rfl⟩ := mem_map.mp topMember
    have topBelow := below topRegion topRegionMember
    calc region.regionId ≤ topRegion.regionId := upper _ (mem_map_of_mem member)
      _ < topRegion.regionId.saturatingAdd 1 := UInt64.lt_saturatingAdd_one topBelow
      _ ≤ _ := le_max_right _ _
  · rename_i empty
    rw [max?_eq_none_iff, map_eq_nil_iff] at empty
    simp [empty] at member

theorem ShardMap.hasRegionId_of_stores (stored : map.Stores key region) :
    map.hasRegionId region.regionId = true := by
  obtain ⟨space, lookup, member⟩ := stored
  exact (map.hasRegionId_iff _).mpr ⟨key, space, lookup, region, member, rfl⟩

section Applied

variable (applied : Applied map op after)
include applied

theorem Applied.nextRegionId_le : map.nextRegionId ≤ after.nextRegionId := by
  cases applied with
  | bootstrap => exact nextRegionId_le_bootstrap _
  | split => exact UInt64.le_saturatingAdd_one _
  | merge => exact le_rfl
  | edit => exact le_rfl
  | drop => exact le_rfl

/-- An accepted operation installs nothing that another space uses. -/
theorem Applied.installs_apart (apart : op.InstallsApart map) {key other : MeasurementKey}
    {old : ShardRegion} (installed : (key, regionId) ∈ op.installs map)
    (stored : map.Stores other old) (sameId : old.regionId = regionId) : other = key := by
  have taken := hasRegionId_of_stores stored
  rw [sameId] at taken
  cases applied with
  | bootstrap isBootstrap absent distinct unused covers =>
    rw [installs_of_bootstrap isBootstrap] at installed
    obtain ⟨region, member, nameEq⟩ := mem_map.mp installed
    obtain ⟨-, rfl⟩ := Prod.mk.inj nameEq
    simp [unused region member] at taken
  | @split _ _ _ _ left _ parent space _ _ regions allocatable spaceEq found epochEq
      inside meets regionsEq covers distinct globallyDistinct =>
      simp only [installs, mem_cons, not_mem_nil, or_false] at installed
      rcases installed with ⟨rfl, rfl⟩ | ⟨rfl, rfl⟩
      · by_contra differ
        have globallyApart := ((regionIds_nodup_iff _).mp globallyDistinct).2
        refine differ (globallyApart other key old (flagMovedChild parent left) ?_ ?_ ?_)
        · rw [stores_advance_iff, if_neg (Ne.symm differ)]
          exact stored
        · rw [stores_advance_iff, regionsEq]
          simp
        · simpa using sameId
      · simp [allocatable] at taken
  | merge spaceEq leftFound rightFound leftEpochEq rightEpochEq regionsEq covers
      distinct =>
      obtain ⟨rfl, rfl⟩ := Prod.mk.inj (mem_singleton.mp installed)
      exact apart other old stored sameId
  | edit isEdit spaceEq found epochEq editEq =>
    simp [installs_of_regionEdit isEdit] at installed
  | drop => simp [installs] at installed

/-- Under the identifier condition, what is installed lies below the allocator. -/
theorem Applied.installs_below (allocates : op.AllocatesBelow map)
    (installed : (key, regionId) ∈ op.installs map) : regionId < after.nextRegionId := by
  cases applied with
  | bootstrap isBootstrap absent distinct unused covers =>
    rw [allocatesBelow_of_bootstrap isBootstrap] at allocates
    rw [installs_of_bootstrap isBootstrap] at installed
    obtain ⟨region, member, nameEq⟩ := mem_map.mp installed
    obtain ⟨-, rfl⟩ := Prod.mk.inj nameEq
    exact lt_bootstrapNextRegionId member allocates
  | split =>
    obtain ⟨leftBelow, nextBelow⟩ := allocates
    have grows := UInt64.lt_saturatingAdd_one nextBelow
    simp only [installs, mem_cons, not_mem_nil, or_false] at installed
    rcases installed with ⟨-, rfl⟩ | ⟨-, rfl⟩
    · exact lt_trans leftBelow grows
    · exact grows
  | merge =>
    obtain ⟨-, rfl⟩ := Prod.mk.inj (mem_singleton.mp installed)
    exact allocates.1
  | edit isEdit =>
    simp [installs_of_regionEdit isEdit] at installed
  | drop => simp [installs] at installed

/-- Accepted operations keep the identifiers of each space distinct. -/
theorem Applied.spaces_distinct (before : map.ForallSpaces fun _ space => space.regionIds.Nodup) :
    after.ForallSpaces fun _ space => space.regionIds.Nodup := by
  cases applied with
  | bootstrap isBootstrap absent distinct unused covers =>
    exact before.advance (((perm_sortByStart _).map _).nodup_iff.mpr distinct)
  | split _ _ _ _ _ _ _ _ distinct _ => exact before.advance distinct
  | merge _ _ _ _ _ _ _ distinct => exact before.advance distinct
  | edit isEdit spaceEq found epochEq editEq =>
    have old : (_ : MeasurementShardSpace).regionIds.Nodup := before _ _ spaceEq
    have idEq := (regionEdit_frame isEdit editEq).1
    rw [MeasurementShardSpace.regionIds, found.regionsEq] at old
    refine before.advance (((perm_sortByStart _).map _).nodup_iff.mpr ?_)
    simpa [idEq] using old
  | drop => exact before.dropped _ _ _

/-- Identifiers stay distinct in the whole map as long as a merge does not take
one from another space. -/
theorem Applied.regionIds_nodup (before : map.regionIds.Nodup) (apart : op.InstallsApart map) :
    after.regionIds.Nodup := by
  obtain ⟨spacesDistinct, oldApart⟩ := map.regionIds_nodup_iff.mp before
  rw [regionIds_nodup_iff]
  refine ⟨applied.spaces_distinct spacesDistinct, ?_⟩
  intro firstKey secondKey first second firstStored secondStored sameId
  rcases applied.id_origin firstStored with ⟨firstOld, firstOldStored, firstEq⟩ | firstNew
  · rcases applied.id_origin secondStored with
      ⟨secondOld, secondOldStored, secondEq⟩ | secondNew
    · exact oldApart _ _ _ _ firstOldStored secondOldStored
        (firstEq.trans (sameId.trans secondEq.symm))
    · exact applied.installs_apart apart secondNew firstOldStored (firstEq.trans sameId)
  · rcases applied.id_origin secondStored with
      ⟨secondOld, secondOldStored, secondEq⟩ | secondNew
    · exact (applied.installs_apart apart firstNew secondOldStored
        (secondEq.trans sameId.symm)).symm
    · have sameKey := (measurementKey_of_installs firstNew).symm.trans
        (measurementKey_of_installs secondNew)
      exact Option.some.inj sameKey

theorem Applied.idsAllocated (before : IdsAllocated map) (allocates : op.AllocatesBelow map) :
    IdsAllocated after where
  distinct := applied.regionIds_nodup before.distinct allocates.installsApart
  below key region stored := by
    rcases applied.id_origin stored with ⟨old, oldStored, idEq⟩ | installed
    · rw [← idEq]
      exact lt_of_lt_of_le (before.below key old oldStored) applied.nextRegionId_le
    · exact applied.installs_below allocates installed

/-- Conversely, identifiers stay allocated only under the condition. -/
theorem Applied.allocatesBelow (allocated : IdsAllocated after) : op.AllocatesBelow map := by
  have apart := (after.regionIds_nodup_iff.mp allocated.distinct).2
  cases applied with
  | @bootstrap _ key regions isBootstrap absent distinct unused covers =>
    rw [allocatesBelow_of_bootstrap isBootstrap]
    intro region member
    refine lt_of_lt_of_le (allocated.below key region ?_) (UInt64.le_maxValue _)
    rw [stores_advance_iff, if_pos rfl]
    exact mem_sortByStart.mpr member
  | @split key _ _ _ left right parent space front back regions allocatable spaceEq found
      epochEq inside meets regionsEq covers distinct globallyDistinct =>
      have stored : ∀ region ∈ [flagMovedChild parent left,
          flagMovedChild parent { right with regionId := map.nextRegionId }],
          region.regionId < map.nextRegionId.saturatingAdd 1 := by
        intro region member
        refine allocated.below key region ?_
        rw [stores_advance_iff, regionsEq]
        simp only [mem_cons, not_mem_nil, or_false] at member
        rcases member with rfl | rfl <;> simp
      have rightBelow : map.nextRegionId < map.nextRegionId.saturatingAdd 1 := by
        simpa using stored _ (mem_cons_of_mem _ (mem_singleton_self _))
      have nextBelow : map.nextRegionId < UInt64.maxValue :=
        lt_of_lt_of_le rightBelow (UInt64.le_maxValue _)
      have leftLe : left.regionId ≤ map.nextRegionId := by
        rw [← UInt64.lt_saturatingAdd_one_iff nextBelow]
        simpa using stored _ mem_cons_self
      have leftNe : left.regionId ≠ map.nextRegionId := by
        rw [regionsEq, ((perm_sortByStart _).map _).nodup_iff] at distinct
        simp only [map_append, map_cons, nodup_append, nodup_cons,
          mem_cons, flagMovedChild_regionId, not_or] at distinct
        exact distinct.2.1.1.1
      exact ⟨lt_of_le_of_ne leftLe leftNe, nextBelow⟩
  | @merge key _ _ _ _ merged _ _ space _ _ regions spaceEq leftFound rightFound
      leftEpochEq rightEpochEq regionsEq covers distinct =>
      have stored : (map.advance map.nextRegionId key ⟨space.key, regions⟩).Stores key
          merged := by
        rw [stores_advance_iff, regionsEq]
        simp
      refine ⟨allocated.below key merged stored, fun other region otherStored sameId => ?_⟩
      by_contra differ
      refine differ (apart other key region merged ?_ stored sameId)
      rw [stores_advance_iff, if_neg (Ne.symm differ)]
      exact otherStored
  | edit isEdit spaceEq found epochEq editEq =>
    exact allocatesBelow_of_regionEdit isEdit
  | drop => trivial

end Applied

/-- Every accepted operation of a run meets the identifier condition in the map it
is applied to. -/
def AllocatingRun (map : ShardMap) (ops : List ShardMapOp) : Prop :=
  Along applyShardMapOp (fun map op => op.AllocatesBelow map) map ops

/-- Identifiers stay unique across all spaces and below the allocator in every
map of a run exactly when every accepted operation meets the identifier condition;
the identifier the next split allocates is then never in use. -/
theorem reachable_ids_allocated_iff (ops : List ShardMapOp) : (∀ earlier, earlier <+: ops →
      IdsAllocated (run applyShardMapOp ShardMap.default earlier) ∧
      (run applyShardMapOp ShardMap.default earlier).hasRegionId
        (run applyShardMapOp ShardMap.default earlier).nextRegionId = false) ↔
    AllocatingRun ShardMap.default ops := by
  have everywhere : (∀ earlier, earlier <+: ops →
      IdsAllocated (run applyShardMapOp ShardMap.default earlier)) ↔
      AllocatingRun ShardMap.default ops := by
    refine forall_prefix_iff_along (fun map op after before accepted => ?_) idsAllocated_default ops
    have applied := applyShardMapOp_eq_ok_iff.mp accepted
    exact ⟨fun holds => applied.allocatesBelow holds,
      fun allocates => applied.idsAllocated before allocates⟩
  rw [← everywhere]
  constructor
  · exact fun holds earlier isPrefix => (holds earlier isPrefix).1
  · intro holds earlier isPrefix
    exact ⟨holds earlier isPrefix, (holds earlier isPrefix).hasRegionId_next⟩

/-- A merge may store its result under an identifier of another measurement, and a
split may keep a left child above the allocator. -/
theorem merge_repeats_id_and_split_passes_allocator : (run applyShardMapOp ShardMap.default
      [.bootstrapMeasurementPresplit sampleKey [{ soleRegion 1 ⟨0, 0⟩ with end_ := 100 },
            { soleRegion 2 ⟨0, 0⟩ with start := 100 }],
        .bootstrapMeasurement ⟨"db", "autogen", "mem"⟩ (soleRegion 3 ⟨0, 0⟩),
        .merge sampleKey 1 2 ⟨0, 0⟩ none (soleRegion 3 ⟨0, 1⟩)]).regionIds = [3, 3] ∧
    (run applyShardMapOp ShardMap.default [.bootstrapMeasurement sampleKey (soleRegion 1 ⟨0, 0⟩),
        .split sampleKey 1 100 ⟨0, 0⟩ { soleRegion 7 ⟨0, 1⟩ with end_ := 100 }
          { soleRegion 0 ⟨0, 1⟩ with start := 100 }]).regionIds = [7, 2] ∧
    (run applyShardMapOp ShardMap.default [.bootstrapMeasurement sampleKey (soleRegion 1 ⟨0, 0⟩),
        .split sampleKey 1 100 ⟨0, 0⟩ { soleRegion 7 ⟨0, 1⟩ with end_ := 100 }
          { soleRegion 0 ⟨0, 1⟩ with start := 100 }]).nextRegionId = 3 := by
  decide +kernel

end HyperbyteDb
