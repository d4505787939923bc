import HyperbyteDb.FallibleRuns
import HyperbyteDb.ShardMapAcceptance

/-!
# What an accepted shard map operation did

One case per way of changing the map: a bootstrap adds a space, a split or a merge replaces
neighbouring regions of one space, a region edit replaces one region, a drop removes spaces.
-/

namespace HyperbyteDb

open FallibleRuns IntervalPartitions List MeasurementShardSpace ShardMap ShardMapOp

section

variable {change : RegionEdit}

section

variable {region edited : ShardRegion}

theorem movePeer_eq_ok_iff {fromPeer toPeer : UInt64} :
    movePeer fromPeer toPeer region = .ok edited ↔
      fromPeer ∈ region.peers ∧ toPeer ∉ region.stagingPeers ∧
      edited = { region with
        peers :=
          if (region.peers.filter (· != fromPeer)).contains toPeer then
            region.peers.filter (· != fromPeer)
          else
            region.peers.filter (· != fromPeer) ++ [toPeer]
        stagingPeers := region.stagingPeers.filter (· != fromPeer)
        primary := if region.primary == fromPeer then toPeer else region.primary } := by
  unfold movePeer
  by_cases member : fromPeer ∈ region.peers <;>
    by_cases learner : toPeer ∈ region.stagingPeers <;>
    simp [member, learner, @eq_comm _ edited]

theorem addPeer_eq_ok_iff {toPeer : UInt64} {staging : Bool} :
    addPeer toPeer staging region = .ok edited ↔
      region.transferOutstanding = false ∧ toPeer ∉ region.peers ∧
      edited = { region with
        peers := region.peers ++ [toPeer]
        stagingPeers :=
          if staging && !region.stagingPeers.contains toPeer then
            region.stagingPeers ++ [toPeer]
          else
            region.stagingPeers } := by
  unfold addPeer
  by_cases debt : region.transferOutstanding = true <;>
    by_cases member : toPeer ∈ region.peers <;>
    simp [debt, member, @eq_comm _ edited]

theorem promotePeer_eq_ok_iff {regionId peer : UInt64} :
    promotePeer regionId peer region = .ok edited ↔
      peer ∈ region.peers ∧
      edited = { region with
        stagingPeers := region.stagingPeers.filter (· != peer) } := by
  unfold promotePeer
  by_cases member : peer ∈ region.peers <;> simp [member, @eq_comm _ edited]

theorem removePeer_eq_ok_iff {fromPeer : UInt64} :
    removePeer fromPeer region = .ok edited ↔
      region.transferOutstanding = false ∧ fromPeer ∈ region.peers ∧
      region.primary ≠ fromPeer ∧ 1 < region.peers.length ∧
      (∃ peer ∈ region.peers, peer ≠ fromPeer ∧ region.isServingPeer peer = true) ∧
      edited = { region with
        peers := region.peers.filter (· != fromPeer)
        stagingPeers := region.stagingPeers.filter (· != fromPeer) } := by
  unfold removePeer
  by_cases debt : region.transferOutstanding = true
  · simp [debt]
  by_cases member : fromPeer ∈ region.peers
  · by_cases leads : region.primary = fromPeer
    · simp [debt, member, leads]
    by_cases last : region.peers.length ≤ 1
    · simp [debt, member, leads, last]
    have serving : ((region.peers.filter fun peer =>
        peer != fromPeer && region.isServingPeer peer).length == 0) = false ↔
        ∃ peer ∈ region.peers, peer ≠ fromPeer ∧ region.isServingPeer peer = true := by
      simp
    rw [← serving]
    cases (region.peers.filter fun peer =>
        peer != fromPeer && region.isServingPeer peer).length == 0 <;>
      simp [debt, member, leads, last, not_le.mp last, @eq_comm _ edited]
  · simp [debt, member]

theorem transferPrimary_eq_ok_iff {regionId newPrimary : UInt64} :
    transferPrimary regionId newPrimary region = .ok edited ↔
      newPrimary ∉ region.stagingPeers ∧ newPrimary ∈ region.peers ∧
      edited = { region with primary := newPrimary } := by
  unfold transferPrimary
  by_cases learner : newPrimary ∈ region.stagingPeers <;>
    by_cases member : newPrimary ∈ region.peers <;>
    simp [learner, member, @eq_comm _ edited]

structure RegionEdit where
  key : MeasurementKey
  regionId : UInt64
  epoch : ShardEpoch
  operation : String
  edit : ShardRegion → Except ShardMapApplyError ShardRegion

/-- The edit of each operation that changes one region in place. -/
def ShardMapOp.regionEdit : ShardMapOp → Option RegionEdit
  | .movePeer key regionId fromPeer toPeer epoch =>
    some ⟨key, regionId, epoch, "MovePeer", HyperbyteDb.movePeer fromPeer toPeer⟩
  | .addPeer key regionId toPeer epoch staging =>
    some ⟨key, regionId, epoch, "AddPeer", HyperbyteDb.addPeer toPeer staging⟩
  | .promotePeer key regionId peer epoch =>
    some ⟨key, regionId, epoch, "PromotePeer", HyperbyteDb.promotePeer regionId peer⟩
  | .removePeer key regionId fromPeer epoch =>
    some ⟨key, regionId, epoch, "RemovePeer", HyperbyteDb.removePeer fromPeer⟩
  | .transferPrimary key regionId newPrimary epoch =>
    some ⟨key, regionId, epoch, "TransferPrimary",
      HyperbyteDb.transferPrimary regionId newPrimary⟩
  | .clearVerified key regionId epoch =>
    some ⟨key, regionId, epoch, "ClearVerified", HyperbyteDb.clearVerified⟩
  | .activateRegion key regionId epoch =>
    some ⟨key, regionId, epoch, "ActivateRegion", HyperbyteDb.activateRegion⟩
  | _ => none

/-- An edit keeps the region's identity and range. -/
theorem ShardMapOp.regionEdit_frame {op : ShardMapOp}
    (isEdit : op.regionEdit = some change) (editEq : change.edit region = .ok edited) :
    edited.regionId = region.regionId ∧ edited.start = region.start ∧
      edited.end_ = region.end_ := by
  cases op <;> cases isEdit
  case movePeer.refl =>
    obtain ⟨-, -, rfl⟩ := movePeer_eq_ok_iff.mp editEq
    simp
  case addPeer.refl =>
    obtain ⟨-, -, rfl⟩ := addPeer_eq_ok_iff.mp editEq
    simp
  case promotePeer.refl =>
    obtain ⟨-, rfl⟩ := promotePeer_eq_ok_iff.mp editEq
    simp
  case removePeer.refl =>
    obtain ⟨-, -, -, -, -, rfl⟩ := removePeer_eq_ok_iff.mp editEq
    simp
  case transferPrimary.refl =>
    obtain ⟨-, -, rfl⟩ := transferPrimary_eq_ok_iff.mp editEq
    simp
  case clearVerified.refl | activateRegion.refl =>
    cases editEq
    simp

end

/-! ## What an accepted shard map operation did -/

namespace ShardMapOp

def bootstrapRegions : ShardMapOp → Option (MeasurementKey × List ShardRegion)
  | .bootstrapMeasurement key region => some (key, [region])
  | .bootstrapMeasurementPresplit key regions => some (key, regions)
  | _ => none

end ShardMapOp

namespace ShardMap

variable {property : MeasurementKey → MeasurementShardSpace → Prop}

variable (map : ShardMap)

variable (nextRegionId : UInt64)

variable (key : MeasurementKey)

variable (space : MeasurementShardSpace)

def advance : ShardMap where
  mapVersion := map.mapVersion.saturatingAdd 1
  nextRegionId := nextRegionId
  spaces := map.spaces.insert key space

@[simp] theorem advance_mapVersion :
    (map.advance nextRegionId key space).mapVersion = map.mapVersion.saturatingAdd 1 := rfl

@[simp] theorem advance_nextRegionId :
    (map.advance nextRegionId key space).nextRegionId = nextRegionId := rfl

@[simp] theorem advance_spaces :
    (map.advance nextRegionId key space).spaces = map.spaces.insert key space := rfl

theorem lookup_advance (key other : MeasurementKey) (space : MeasurementShardSpace) :
    (map.advance nextRegionId key space).spaces[other]? =
      if key = other then some space else map.spaces[other]? := by
  simp [Std.ExtTreeMap.getElem?_insert]

variable (db : String) (rp measurement : Option String)

def dropped : ShardMap where
  mapVersion := map.mapVersion.saturatingAdd 1
  nextRegionId := map.nextRegionId
  spaces := map.spaces.filter fun key _ =>
    !dropMatches db rp measurement key

theorem lookup_dropped : (map.dropped db rp measurement).spaces[key]? =
      if dropMatches db rp measurement key then none
      else map.spaces[key]? := by
  simp only [dropped, Std.ExtTreeMap.getElem?_filter']
  cases map.spaces[key]? <;>
    cases dropMatches db rp measurement key <;> simp

/-- `property` holds of every stored space and the name it is stored under. -/
def ForallSpaces (property : MeasurementKey → MeasurementShardSpace → Prop) : Prop :=
  ∀ (key : MeasurementKey) (space : MeasurementShardSpace),
    map.spaces[key]? = some space → property key space

theorem ForallSpaces.advance {map : ShardMap} (everywhere : map.ForallSpaces property)
    {nextRegionId : UInt64} {key : MeasurementKey} {space : MeasurementShardSpace}
    (here : property key space) :
    (map.advance nextRegionId key space).ForallSpaces property := by
  intro other stored lookup
  rw [lookup_advance] at lookup
  split at lookup
  · rename_i same
    obtain rfl := Option.some.inj lookup
    exact same ▸ here
  · exact everywhere other stored lookup

theorem ForallSpaces.dropped {map : ShardMap} (everywhere : map.ForallSpaces property) (db : String)
    (rp measurement : Option String) :
    (map.dropped db rp measurement).ForallSpaces property := by
  intro other stored lookup
  rw [lookup_dropped] at lookup
  split at lookup
  · simp at lookup
  · exact everywhere other stored lookup

theorem validateGlobalRegionIds_eq_ok_iff :
    map.validateGlobalRegionIds = .ok () ↔ map.regionIds.Nodup := by
  have repeated := firstDuplicate_eq_none_iff [] map.regionIds
  unfold validateGlobalRegionIds
  cases duplicate : firstDuplicate [] map.regionIds with
  | none => simpa using (repeated.mp duplicate).1
  | some id =>
    simp only [reduceCtorEq, false_iff]
    intro distinct
    have none_ := repeated.mpr ⟨distinct, by simp⟩
    rw [duplicate] at none_
    simp at none_

end ShardMap

/-- `Applied map op after`: applying `op` to `map` was accepted and produced
`after`. -/
inductive Applied (map : ShardMap) : ShardMapOp → ShardMap → Prop
  | bootstrap {op : ShardMapOp} {key : MeasurementKey} {regions : List ShardRegion}
      (isBootstrap : op.bootstrapRegions = some (key, regions))
      (absent : map.spaces[key]? = none)
      (distinct : (regions.map (·.regionId)).Nodup)
      (unused : ∀ region ∈ regions, map.hasRegionId region.regionId = false)
      (covers : CoversSeries (sortByStart regions)) :
      Applied map op (map.advance (bootstrapNextRegionId map regions) key
        ⟨key, sortByStart regions⟩)
  | split {key : MeasurementKey} {regionId splitKey : UInt64} {epoch : ShardEpoch}
      {left right old : ShardRegion} {space : MeasurementShardSpace}
      {front back regions : List ShardRegion}
      (allocatable : map.hasRegionId map.nextRegionId = false)
      (spaceEq : map.spaces[key]? = some space)
      (found : FirstWithId space.regions regionId front old back)
      (fenced : old.epoch = epoch)
      (inside : old.start < splitKey ∧ splitKey < old.end_)
      (meets : left.end_ = splitKey ∧ right.start = splitKey)
      (regionsEq : regions = sortByStart (front ++ flagMovedChild old left ::
        flagMovedChild old { right with regionId := map.nextRegionId } :: back))
      (covers : CoversSeries regions)
      (distinct : (regions.map (·.regionId)).Nodup)
      (globallyDistinct : (map.advance (map.nextRegionId.saturatingAdd 1) key
        ⟨space.key, regions⟩).regionIds.Nodup) :
      Applied map (.split key regionId splitKey epoch left right)
        (map.advance (map.nextRegionId.saturatingAdd 1) key ⟨space.key, regions⟩)
  | merge {key : MeasurementKey} {leftRegionId rightRegionId : UInt64}
      {epoch : ShardEpoch} {rightEpoch : Option ShardEpoch}
      {merged left right : ShardRegion} {space : MeasurementShardSpace}
      {front back regions : List ShardRegion}
      (spaceEq : map.spaces[key]? = some space)
      (leftFound : FirstWithId space.regions leftRegionId front left (right :: back))
      (rightFound : FirstWithId space.regions rightRegionId (front ++ [left]) right back)
      (leftFenced : left.epoch = epoch)
      (rightFenced : right.epoch = rightEpoch.getD epoch)
      (regionsEq : regions = sortByStart (front ++ merged :: back))
      (covers : CoversSeries regions)
      (distinct : (regions.map (·.regionId)).Nodup) :
      Applied map (.merge key leftRegionId rightRegionId epoch rightEpoch merged)
        (map.advance map.nextRegionId key ⟨space.key, regions⟩)
  | edit {op : ShardMapOp} {change : RegionEdit} {old edited : ShardRegion}
      {space : MeasurementShardSpace} {front back : List ShardRegion}
      (isEdit : op.regionEdit = some change)
      (spaceEq : map.spaces[change.key]? = some space)
      (found : FirstWithId space.regions change.regionId front old back)
      (fenced : old.epoch = change.epoch)
      (editEq : change.edit old = .ok edited) :
      Applied map op (map.advance map.nextRegionId change.key ⟨space.key, sortByStart
        (front ++ { edited with epoch := change.epoch.bumpConfVer } :: back)⟩)
  | drop {db : String} {rp measurement : Option String} :
      Applied map (.dropSpace db rp measurement) (map.dropped db rp measurement)

variable {op : ShardMapOp} {key : MeasurementKey}

variable {regions : List ShardRegion}

theorem applyShardMapOp_of_bootstrapRegions {map : ShardMap}
    (isBootstrap : op.bootstrapRegions = some (key, regions)) :
    applyShardMapOp map op = applyBootstrapPresplit
      { map with mapVersion := map.mapVersion.saturatingAdd 1 } key regions := by
  cases op with
  | bootstrapMeasurement bootKey region =>
    obtain ⟨rfl, rfl⟩ : bootKey = key ∧ [region] = regions := by
      simpa [bootstrapRegions] using isBootstrap
    exact applyBootstrap_eq _ _ _
  | bootstrapMeasurementPresplit bootKey bootRegions =>
    obtain ⟨rfl, rfl⟩ : bootKey = key ∧ bootRegions = regions := by
      simpa [bootstrapRegions] using isBootstrap
    rfl
  | _ => simp [bootstrapRegions] at isBootstrap

theorem applyShardMapOp_of_regionEdit {map : ShardMap}
    (isEdit : op.regionEdit = some change) :
    applyShardMapOp map op = applyRegionEdit
      { map with mapVersion := map.mapVersion.saturatingAdd 1 }
      change.key change.regionId change.epoch change.operation change.edit := by
  cases op <;> simp only [regionEdit, reduceCtorEq, Option.some.injEq]
    at isEdit <;> subst isEdit <;> rfl

theorem applyShardMapOp_eq_ok_iff {map after : ShardMap} :
    applyShardMapOp map op = .ok after ↔ Applied map op after := by
  constructor
  · intro accepted
    cases editCase : op.regionEdit with
    | some change =>
      rw [applyShardMapOp_of_regionEdit editCase, applyRegionEdit_eq_ok_iff] at accepted
      obtain ⟨space, front, old, back, edited, spaceEq, found, fenced, editEq, rfl⟩ :=
        accepted
      exact .edit editCase spaceEq found fenced editEq
    | none =>
      cases bootCase : op.bootstrapRegions with
      | some created =>
        rw [applyShardMapOp_of_bootstrapRegions bootCase,
          applyBootstrapPresplit_eq_ok_iff] at accepted
        obtain ⟨absent, distinct, unused, covers, rfl⟩ := accepted
        exact .bootstrap bootCase absent distinct unused covers
      | none =>
        cases op with
        | split key regionId splitKey epoch left right =>
          obtain ⟨space, front, old, back, regions, allocatable, spaceEq, found,
            fenced, inside, meets, rfl, valid, global, rfl⟩ :=
            applySplit_eq_ok_iff.mp accepted
          rw [validate_eq_ok_iff, sortByStart_sortByStart] at valid
          exact .split allocatable spaceEq found fenced inside meets rfl valid.1
            valid.2 ((ShardMap.validateGlobalRegionIds_eq_ok_iff _).mp global)
        | merge key leftRegionId rightRegionId epoch rightEpoch merged =>
          obtain ⟨space, front, left, right, back, regions, spaceEq, leftFound,
            rightFound, leftFenced, rightFenced, rfl, valid, rfl⟩ :=
            applyMerge_eq_ok_iff.mp accepted
          rw [validate_eq_ok_iff, sortByStart_sortByStart] at valid
          exact .merge spaceEq leftFound rightFound leftFenced rightFenced rfl valid.1 valid.2
        | dropSpace db rp measurement =>
          obtain rfl := Except.ok.inj accepted
          exact .drop
        | bootstrapMeasurement | bootstrapMeasurementPresplit =>
          simp [bootstrapRegions] at bootCase
        | movePeer | addPeer | promotePeer | removePeer | transferPrimary
        | clearVerified | activateRegion =>
          simp [regionEdit] at editCase
  · intro applied
    cases applied with
    | bootstrap isBootstrap absent distinct unused covers =>
      rw [applyShardMapOp_of_bootstrapRegions isBootstrap,
        applyBootstrapPresplit_eq_ok_iff]
      exact ⟨absent, distinct, unused, covers, rfl⟩
    | split allocatable spaceEq found fenced inside meets regionsEq covers distinct
        globallyDistinct =>
        subst regionsEq
        refine applySplit_eq_ok_iff.mpr ⟨_, _, _, _, _, allocatable, spaceEq, found,
          fenced, inside, meets, rfl, ?_, ?_, rfl⟩
        · rw [validate_eq_ok_iff, sortByStart_sortByStart]
          exact ⟨covers, distinct⟩
        · exact (ShardMap.validateGlobalRegionIds_eq_ok_iff _).mpr globallyDistinct
    | merge spaceEq leftFound rightFound leftFenced rightFenced regionsEq covers
        distinct =>
        subst regionsEq
        refine applyMerge_eq_ok_iff.mpr ⟨_, _, _, _, _, _, spaceEq, leftFound,
          rightFound, leftFenced, rightFenced, rfl, ?_, rfl⟩
        rw [validate_eq_ok_iff, sortByStart_sortByStart]
        exact ⟨covers, distinct⟩
    | edit isEdit spaceEq found fenced editEq =>
      rw [applyShardMapOp_of_regionEdit isEdit, applyRegionEdit_eq_ok_iff]
      exact ⟨_, _, _, _, _, spaceEq, found, fenced, editEq, rfl⟩
    | drop => rfl

theorem ShardMapOp.measurementKey_of_bootstrap
    (isBootstrap : op.bootstrapRegions = some (key, regions)) :
    op.measurementKey = some key := by
  cases op <;> simp_all [bootstrapRegions, measurementKey]

theorem ShardMapOp.measurementKey_of_regionEdit
    (isEdit : op.regionEdit = some change) : op.measurementKey = some change.key := by
  cases op <;> simp_all [regionEdit, measurementKey] <;> grind

theorem ShardMapOp.affectedSpaceKeys_of_measurementKey
    (isKey : op.measurementKey = some key) (map : ShardMap) :
    op.affectedSpaceKeys map = [key] := by
  cases op <;> simp_all [measurementKey, affectedSpaceKeys]

/-- Seen from outside, an accepted operation replaces the space it names or drops
spaces. -/
theorem Applied.replaced_or_dropped {map after : ShardMap} (applied : Applied map op after) :
    (∃ key nextRegionId space, op.measurementKey = some key ∧
      after = map.advance nextRegionId key space) ∨
    ∃ db rp measurement, op = .dropSpace db rp measurement ∧
      after = map.dropped db rp measurement := by
  cases applied with
  | bootstrap isBootstrap =>
    exact Or.inl ⟨_, _, _, measurementKey_of_bootstrap isBootstrap, rfl⟩
  | split => exact Or.inl ⟨_, _, _, rfl, rfl⟩
  | merge => exact Or.inl ⟨_, _, _, rfl, rfl⟩
  | edit isEdit =>
    exact Or.inl ⟨_, _, _, measurementKey_of_regionEdit isEdit, rfl⟩
  | drop => exact Or.inr ⟨_, _, _, rfl, rfl⟩

end

/-! ## Every reachable shard map partitions its measurements -/

/-- The space stored under `key` carries that name, covers all series and has
distinct region identifiers. -/
structure ValidSpace (key : MeasurementKey) (space : MeasurementShardSpace) : Prop where
  keyEq : space.key = key
  covers : CoversSeries space.regions
  distinct : space.regionIds.Nodup

def ShardMap.Valid (map : ShardMap) : Prop :=
  map.ForallSpaces ValidSpace

/-- A shard map that carries the validity of its spaces. -/
structure ValidShardMap where
  map : ShardMap
  valid : map.Valid

theorem ShardMap.valid_default : default.Valid := by
  intro key space stored
  simp [default] at stored

variable {front back : List ShardRegion}

variable {space : MeasurementShardSpace}

/-- An in-place edit leaves the regions covering and in order, so the sort after
it changes nothing. -/
theorem ValidSpace.edit {key : MeasurementKey}
    (valid : ValidSpace key space) {op : ShardMapOp} {change : RegionEdit}
    (isEdit : op.regionEdit = some change)
    {old edited : ShardRegion} (found : FirstWithId space.regions change.regionId front old back)
    (editEq : change.edit old = .ok edited) (epoch : ShardEpoch) :
    sortByStart (front ++ { edited with epoch := epoch } :: back) =
        front ++ { edited with epoch := epoch } :: back ∧
      ValidSpace key ⟨space.key, front ++ { edited with epoch := epoch } :: back⟩ := by
  obtain ⟨idEq, startEq, endEq⟩ := ShardMapOp.regionEdit_frame isEdit editEq
  have oldCovers := valid.covers
  rw [found.regionsEq] at oldCovers
  have covers : CoversSeries (front ++ { edited with epoch := epoch } :: back) :=
    -- A region of the same range keeps the list covering.
    Spans.congr (by simp [startEq, endEq]) oldCovers
  refine ⟨covers.sortByStart_eq, valid.keyEq, covers, ?_⟩
  have distinct := valid.distinct
  rw [MeasurementShardSpace.regionIds, found.regionsEq] at distinct
  simpa [MeasurementShardSpace.regionIds, idEq] using distinct

theorem Applied.valid {map after : ShardMap} {op : ShardMapOp}
    (applied : Applied map op after) (valid : map.Valid) : after.Valid := by
  cases applied with
  | bootstrap isBootstrap absent distinct unused covers =>
    refine valid.advance ⟨rfl, covers, ?_⟩
    exact ((perm_sortByStart _).map _).nodup_iff.mpr distinct
  | split allocatable spaceEq found fenced inside meets regionsEq covers distinct
      globallyDistinct =>
      exact valid.advance ⟨(valid _ _ spaceEq).keyEq, covers, distinct⟩
  | merge spaceEq leftFound rightFound leftFenced rightFenced regionsEq covers
      distinct =>
      exact valid.advance ⟨(valid _ _ spaceEq).keyEq, covers, distinct⟩
  | edit isEdit spaceEq found fenced editEq =>
    obtain ⟨sorted, here⟩ := (valid _ _ spaceEq).edit isEdit found editEq _
    rw [sorted]
    exact valid.advance here
  | drop => exact valid.dropped _ _ _

theorem valid_run (ops : List ShardMapOp) : (run applyShardMapOp ShardMap.default ops).Valid :=
  run_invariant
    (fun _ _ _ valid accepted => (applyShardMapOp_eq_ok_iff.mp accepted).valid valid)
    valid_default ops

/-- In every reachable map, the regions of every space stand in ascending order
and partition `[0, u64::MAX)`, and looking a series up finds the one region that
contains it. -/
theorem reachable_space_partition (ops : List ShardMapOp) {key : MeasurementKey}
    (stored : (run applyShardMapOp ShardMap.default ops).spaces[key]? = some space) :
    space.regions.Pairwise (fun first second => first.start ≤ second.start) ∧
    (∃ first, space.regions.head? = some first ∧ first.start = 0) ∧
    space.regions.IsChain (fun first second => first.end_ = second.start) ∧
    (∃ last, space.regions.getLast? = some last ∧ last.end_ = UInt64.maxValue) ∧
    ∀ seriesId < UInt64.maxValue, ∃ region,
      space.locate seriesId = some region ∧ region.contains seriesId = true ∧
      space.regions.filter (·.contains seriesId) = [region] := by
  have covers := (valid_run ops key space stored).covers
  have nonempty := covers.ne_nil
  refine ⟨Spans.ascending covers, ?_, Spans.meet covers, ?_, ?_⟩
  · exact ⟨_, head?_eq_some_head nonempty, Spans.starts covers _ (head?_eq_some_head nonempty)⟩
  · exact ⟨_, getLast?_eq_some_getLast nonempty,
      Spans.ends covers _ (getLast?_eq_some_getLast nonempty)⟩
  · intro seriesId below
    obtain ⟨region, located, member, contains⟩ := locateInRegions_of_covers covers below
    obtain ⟨only, filtered⟩ := covers.exists_filter_contains below
    have inFilter : region ∈ space.regions.filter (·.contains seriesId) :=
      mem_filter.mpr ⟨member, contains⟩
    rw [filtered, mem_singleton] at inFilter
    exact ⟨region, located, contains, by rw [filtered, inFilter]⟩

/-- The measurement of the concrete runs in this development. -/
def sampleKey : MeasurementKey := ⟨"db", "autogen", "cpu"⟩

def soleRegion (regionId : UInt64) (epoch : ShardEpoch) : ShardRegion where
  regionId := regionId
  start := 0
  end_ := UInt64.maxValue
  epoch := epoch
  peers := [1]
  primary := 1

def sampleSplitRun : List ShardMapOp :=
  [.bootstrapMeasurement sampleKey (soleRegion 1 ⟨0, 0⟩),
    .split sampleKey 1 100 ⟨0, 0⟩ { soleRegion 1 ⟨0, 1⟩ with end_ := 100 }
      { soleRegion 0 ⟨0, 1⟩ with start := 100 }]

theorem sampleSplitRun_space_partition :
    ∃ space, (run applyShardMapOp ShardMap.default sampleSplitRun).spaces[sampleKey]? =
        some space ∧ space.regionIds = [1, 2] ∧
      ∀ seriesId < UInt64.maxValue, ∃ region,
        space.locate seriesId = some region ∧ region.contains seriesId = true ∧
        space.regions.filter (·.contains seriesId) = [region] := by
  have stored :
      (run applyShardMapOp ShardMap.default sampleSplitRun).spaces[sampleKey]? =
        some ⟨sampleKey, [{ soleRegion 1 ⟨0, 1⟩ with end_ := 100 },
          { soleRegion 2 ⟨0, 1⟩ with start := 100 }]⟩ := by
    decide +kernel
  exact ⟨_, stored, rfl, (reachable_space_partition sampleSplitRun stored).2.2.2.2⟩

end HyperbyteDb
