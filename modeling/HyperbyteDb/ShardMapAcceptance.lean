import HyperbyteDb.ShardRegions

/-!
# Shard map operations

For every function behind a shard map operation, the guards it passes exactly when it succeeds
and the map it then returns.
-/

namespace HyperbyteDb

open IntervalPartitions List MeasurementShardSpace ShardRegion Spans

inductive ShardMapApplyError where
  | spaceExists (db rp measurement : String)
  | duplicateRegionId (regionId : UInt64)
  | unknownSpace
  | unknownRegion (regionId : UInt64)
  | unknownLeftRegion (regionId : UInt64)
  | unknownRightRegion (regionId : UInt64)
  | staleEpoch (operation : String)
  | invalid (message : String)
deriving DecidableEq, Repr

inductive ShardMapOp where
  | bootstrapMeasurement (key : MeasurementKey) (region : ShardRegion)
  /-- A new measurement created already split into several regions. -/
  | bootstrapMeasurementPresplit (key : MeasurementKey) (regions : List ShardRegion)
  | split (key : MeasurementKey) (regionId splitKey : UInt64) (epoch : ShardEpoch)
      (left right : ShardRegion)
  /-- `rightEpoch` is absent when both halves are at `epoch`. -/
  | merge (key : MeasurementKey) (leftRegionId rightRegionId : UInt64)
      (epoch : ShardEpoch) (rightEpoch : Option ShardEpoch) (merged : ShardRegion)
  | movePeer (key : MeasurementKey) (regionId fromPeer toPeer : UInt64) (epoch : ShardEpoch)
  /-- With `staging` the peer joins as a learner. -/
  | addPeer (key : MeasurementKey) (regionId toPeer : UInt64) (epoch : ShardEpoch) (staging : Bool)
  | promotePeer (key : MeasurementKey) (regionId peer : UInt64) (epoch : ShardEpoch)
  | removePeer (key : MeasurementKey) (regionId fromPeer : UInt64) (epoch : ShardEpoch)
  | transferPrimary (key : MeasurementKey) (regionId newPrimary : UInt64) (epoch : ShardEpoch)
  | clearVerified (key : MeasurementKey) (regionId : UInt64) (epoch : ShardEpoch)
  | activateRegion (key : MeasurementKey) (regionId : UInt64) (epoch : ShardEpoch)
  /-- Scope widens as the optional names go absent. -/
  | dropSpace (db : String) (rp measurement : Option String)
deriving DecidableEq

namespace ShardMapOp

/-- Whether a drop with these names removes the space of `key`. -/
def dropMatches (db : String) (rp measurement : Option String) (key : MeasurementKey) : Bool :=
  key.db == db && rp.all (key.rp == ·) && measurement.all (key.measurement == ·)

/-- The single space the operation mutates, absent for a drop. -/
def measurementKey : ShardMapOp → Option MeasurementKey
  | .dropSpace .. => none
  | .bootstrapMeasurement key .. | .bootstrapMeasurementPresplit key ..
  | .split key .. | .merge key .. | .movePeer key .. | .addPeer key ..
  | .promotePeer key .. | .removePeer key .. | .transferPrimary key ..
  | .clearVerified key .. | .activateRegion key .. => some key

/-- Every space the operation may add, change or remove, resolved against the
map before the operation. -/
def affectedSpaceKeys (op : ShardMapOp) (map : ShardMap) : List MeasurementKey :=
  match op with
  | .dropSpace db rp measurement =>
    map.spaces.keys.filter (dropMatches db rp measurement)
  | other => other.measurementKey.toList

end ShardMapOp

def sortSpaceRegions (space : MeasurementShardSpace) : MeasurementShardSpace :=
  { space with regions := sortByStart space.regions }

def regionPosition (regionId : UInt64) (regions : List ShardRegion) : Option Nat :=
  regions.findIdx? fun region => region.regionId == regionId

namespace ShardMap

def hasRegionId (map : ShardMap) (regionId : UInt64) : Bool :=
  map.spaces.toList.any fun entry =>
    entry.2.regions.any fun region => region.regionId == regionId

end ShardMap

/-- The first identifier of `regions` that repeats an earlier one or is already
in the map. -/
def firstTakenId (map : ShardMap) (seen : List UInt64) : List ShardRegion → Option UInt64
  | [] => none
  | region :: regions =>
    if region.regionId ∈ seen ∨ map.hasRegionId region.regionId then
      some region.regionId
    else
      firstTakenId map (region.regionId :: seen) regions

/-- The allocator after a bootstrap: above every identifier it brought. -/
def bootstrapNextRegionId (map : ShardMap) (regions : List ShardRegion) : UInt64 :=
  match (regions.map (·.regionId)).max? with
  | some top => max map.nextRegionId (top.saturatingAdd 1)
  | none => map.nextRegionId

def applyBootstrapPresplit (map : ShardMap) (key : MeasurementKey)
    (regions : List ShardRegion) : Except ShardMapApplyError ShardMap :=
  if map.spaces.contains key then
    .error (.spaceExists key.db key.rp key.measurement)
  else
    match firstTakenId map [] regions with
    | some regionId => .error (.duplicateRegionId regionId)
    | none =>
      let space := sortSpaceRegions ⟨key, regions⟩
      match space.validate with
      | .error message => .error (.invalid message)
      | .ok () =>
        .ok { map with
          nextRegionId := bootstrapNextRegionId map regions
          spaces := map.spaces.insert key space }

def applyBootstrap (map : ShardMap) (key : MeasurementKey) (region : ShardRegion) :
    Except ShardMapApplyError ShardMap :=
  if map.spaces.contains key then
    .error (.spaceExists key.db key.rp key.measurement)
  else if map.hasRegionId region.regionId then
    .error (.duplicateRegionId region.regionId)
  else
    let space := sortSpaceRegions ⟨key, [region]⟩
    match space.validate with
    | .error message => .error (.invalid message)
    | .ok () =>
      .ok { map with
        nextRegionId := max map.nextRegionId (region.regionId.saturatingAdd 1)
        spaces := map.spaces.insert key space }

/-- A child led by another primary than its parent owes the parent's rows; the
age of an older debt carries over. -/
def flagMovedChild (old child : ShardRegion) : ShardRegion :=
  if child.primary ≠ old.primary then
    { child with
      transferVerified := some false
      transferFirstSeen := old.transferFirstSeen.or child.transferFirstSeen }
  else
    child

def applySplit (map : ShardMap) (key : MeasurementKey) (regionId splitKey : UInt64)
    (epoch : ShardEpoch) (left right : ShardRegion) : Except ShardMapApplyError ShardMap :=
  let allocated := map.nextRegionId
  if map.hasRegionId allocated then
    .error (.duplicateRegionId allocated)
  else
    match map.spaces[key]? with
    | none => .error .unknownSpace
    | some space =>
      match regionPosition regionId space.regions with
      | none => .error (.unknownRegion regionId)
      | some idx =>
        let old := space.regions[idx]!
        if old.epoch ≠ epoch then
          .error (.staleEpoch "Split")
        else if splitKey ≤ old.start ∨ old.end_ ≤ splitKey then
          .error (.invalid
            s!"split_key {splitKey} not inside region [{old.start}, {old.end_})")
        else if left.end_ ≠ splitKey ∨ right.start ≠ splitKey then
          .error (.invalid "split regions must meet at split_key")
        else
          let left := flagMovedChild old left
          let right := flagMovedChild old { right with regionId := allocated }
          let space := sortSpaceRegions { space with
            regions := (space.regions.set idx left).insertIdx (idx + 1) right }
          match space.validate with
          | .error message => .error (.invalid message)
          | .ok () =>
            let map := { map with
              nextRegionId := allocated.saturatingAdd 1
              spaces := map.spaces.insert key space }
            match map.validateGlobalRegionIds with
            | .error message => .error (.invalid message)
            | .ok () => .ok map

def applyMerge (map : ShardMap) (key : MeasurementKey)
    (leftRegionId rightRegionId : UInt64) (epoch : ShardEpoch)
    (rightEpoch : Option ShardEpoch) (merged : ShardRegion) : Except ShardMapApplyError ShardMap :=
  match map.spaces[key]? with
  | none => .error .unknownSpace
  | some space =>
    match regionPosition leftRegionId space.regions with
    | none => .error (.unknownLeftRegion leftRegionId)
    | some li =>
      if space.regions[li]!.epoch ≠ epoch then
        .error (.staleEpoch "Merge")
      else
        match regionPosition rightRegionId space.regions with
        | none => .error (.unknownRightRegion rightRegionId)
        | some ri =>
          if ri ≠ li + 1 then
            .error (.invalid "merge regions must be adjacent")
          else if space.regions[ri]!.epoch ≠ rightEpoch.getD epoch then
            .error (.staleEpoch "Merge right region")
          else
            let space := sortSpaceRegions { space with
              regions := (space.regions.eraseIdx ri).set li merged }
            match space.validate with
            | .error message => .error (.invalid message)
            | .ok () => .ok { map with spaces := map.spaces.insert key space }

/-- Guards and edits of the operations that change one region in place. -/
def movePeer (fromPeer toPeer : UInt64) (region : ShardRegion) :
    Except ShardMapApplyError ShardRegion :=
  if !region.peers.contains fromPeer then
    .error (.invalid s!"peer {fromPeer} not in region")
  else if region.stagingPeers.contains toPeer then
    .error (.invalid s!"cannot move peer to learner {toPeer}")
  else
    let remaining := region.peers.filter (· != fromPeer)
    .ok { region with
      peers := if remaining.contains toPeer then remaining else remaining ++ [toPeer]
      stagingPeers := region.stagingPeers.filter (· != fromPeer)
      primary := if region.primary == fromPeer then toPeer else region.primary }

def addPeer (toPeer : UInt64) (staging : Bool) (region : ShardRegion) :
    Except ShardMapApplyError ShardRegion :=
  if region.transferOutstanding then
    .error (.invalid "cannot add peer while transfer debt is outstanding")
  else if region.peers.contains toPeer then
    .error (.invalid s!"peer {toPeer} already in region")
  else
    .ok { region with
      peers := region.peers ++ [toPeer]
      stagingPeers :=
        if staging && !region.stagingPeers.contains toPeer then
          region.stagingPeers ++ [toPeer]
        else
          region.stagingPeers }

def promotePeer (regionId peer : UInt64) (region : ShardRegion) :
    Except ShardMapApplyError ShardRegion :=
  if !region.peers.contains peer then
    .error (.invalid
      s!"cannot promote {peer}: not a member of region {regionId}")
  else
    .ok { region with stagingPeers := region.stagingPeers.filter (· != peer) }

def removePeer (fromPeer : UInt64) (region : ShardRegion) : Except ShardMapApplyError ShardRegion :=
  if region.transferOutstanding then
    .error (.invalid "cannot remove peer while transfer debt is outstanding")
  else if !region.peers.contains fromPeer then
    .error (.invalid s!"peer {fromPeer} not in region")
  else if region.primary == fromPeer then
    .error (.invalid s!"cannot remove peer {fromPeer}: it is the region primary")
  else if region.peers.length ≤ 1 then
    .error (.invalid "cannot remove the last peer of a region")
  else if (region.peers.filter fun peer =>
      peer != fromPeer && region.isServingPeer peer).length == 0 then
    .error (.invalid "cannot remove peer: no serving replica would remain")
  else
    .ok { region with
      peers := region.peers.filter (· != fromPeer)
      stagingPeers := region.stagingPeers.filter (· != fromPeer) }

def transferPrimary (regionId newPrimary : UInt64) (region : ShardRegion) :
    Except ShardMapApplyError ShardRegion :=
  if region.stagingPeers.contains newPrimary then
    .error (.invalid
      s!"cannot make learner {newPrimary} the primary of region {regionId}")
  else if !region.peers.contains newPrimary then
    .error (.invalid s!"new primary {newPrimary} not a peer")
  else
    .ok { region with primary := newPrimary }

def clearVerified (region : ShardRegion) : Except ShardMapApplyError ShardRegion :=
  .ok { region with transferVerified := some true, transferFirstSeen := none }

def activateRegion (region : ShardRegion) : Except ShardMapApplyError ShardRegion :=
  .ok { region with state := .serving, stagedFrom := none }

/-- Find the region, check its epoch, edit it and bump its `confVer`. -/
def applyRegionEdit (map : ShardMap) (key : MeasurementKey) (regionId : UInt64)
    (epoch : ShardEpoch) (operation : String)
    (edit : ShardRegion → Except ShardMapApplyError ShardRegion) :
    Except ShardMapApplyError ShardMap :=
  match map.spaces[key]? with
  | none => .error .unknownSpace
  | some space =>
    match regionPosition regionId space.regions with
    | none => .error (.unknownRegion regionId)
    | some idx =>
      let region := space.regions[idx]!
      if region.epoch ≠ epoch then
        .error (.staleEpoch operation)
      else
        match edit region with
        | .error error => .error error
        | .ok edited =>
          let space := sortSpaceRegions { space with
            regions := space.regions.set idx
              { edited with epoch := epoch.bumpConfVer } }
          .ok { map with spaces := map.spaces.insert key space }

def applyDropSpace (map : ShardMap) (db : String) (rp measurement : Option String) : ShardMap :=
  { map with
    spaces := map.spaces.filter fun key _ =>
      !ShardMapOp.dropMatches db rp measurement key }

def applyShardMapOp (map : ShardMap) (op : ShardMapOp) : Except ShardMapApplyError ShardMap :=
  let map := { map with mapVersion := map.mapVersion.saturatingAdd 1 }
  match op with
  | .bootstrapMeasurementPresplit key regions =>
    applyBootstrapPresplit map key regions
  | .bootstrapMeasurement key region => applyBootstrap map key region
  | .split key regionId splitKey epoch left right =>
    applySplit map key regionId splitKey epoch left right
  | .dropSpace db rp measurement => .ok (applyDropSpace map db rp measurement)
  | .merge key leftRegionId rightRegionId epoch rightEpoch merged =>
    applyMerge map key leftRegionId rightRegionId epoch rightEpoch merged
  | .movePeer key regionId fromPeer toPeer epoch =>
    applyRegionEdit map key regionId epoch "MovePeer" (movePeer fromPeer toPeer)
  | .addPeer key regionId toPeer epoch staging =>
    applyRegionEdit map key regionId epoch "AddPeer" (addPeer toPeer staging)
  | .promotePeer key regionId peer epoch =>
    applyRegionEdit map key regionId epoch "PromotePeer" (promotePeer regionId peer)
  | .removePeer key regionId fromPeer epoch =>
    applyRegionEdit map key regionId epoch "RemovePeer" (removePeer fromPeer)
  | .transferPrimary key regionId newPrimary epoch =>
    applyRegionEdit map key regionId epoch "TransferPrimary"
      (transferPrimary regionId newPrimary)
  | .clearVerified key regionId epoch =>
    applyRegionEdit map key regionId epoch "ClearVerified" clearVerified
  | .activateRegion key regionId epoch =>
    applyRegionEdit map key regionId epoch "ActivateRegion" activateRegion

/-! ## Regions by range and by identifier -/

variable {regions : List ShardRegion} {region : ShardRegion}

section

theorem perm_sortByStart (regions : List ShardRegion) : (sortByStart regions).Perm regions :=
  perm_insertionSort _ regions

@[simp] theorem mem_sortByStart :
    region ∈ sortByStart regions ↔ region ∈ regions :=
  mem_insertionSort _

theorem sortByStart_ascending (regions : List ShardRegion) :
    (sortByStart regions).Pairwise fun first second => first.start ≤ second.start := by
  exact pairwise_insertionSort _ regions

theorem sortByStart_of_ascending
    (ascending : regions.Pairwise fun first second => first.start ≤ second.start) :
    sortByStart regions = regions :=
  ascending.insertionSort_eq

@[simp] theorem sortByStart_sortByStart (regions : List ShardRegion) :
    sortByStart (sortByStart regions) = sortByStart regions :=
  sortByStart_of_ascending (sortByStart_ascending regions)

theorem firstGap_eq_none_iff (regions : List ShardRegion) :
    firstGap regions = none ↔ regions.IsChain fun left right => left.end_ = right.start := by
  induction regions with
  | nil => simp [firstGap]
  | cons left regions ih =>
    cases regions with
    | nil => simp [firstGap]
    | cons right rest =>
      rw [firstGap]
      by_cases meets : left.end_ = right.start
      · simpa [meets] using ih
      · simp [meets]

theorem firstDuplicate_eq_none_iff (seen ids : List UInt64) :
    firstDuplicate seen ids = none ↔ ids.Nodup ∧ ∀ id ∈ ids, id ∉ seen := by
  induction ids generalizing seen with
  | nil => simp [firstDuplicate]
  | cons id ids ih =>
    rw [firstDuplicate]
    by_cases repeated : id ∈ seen
    · simp [repeated]
    · rw [if_neg repeated, ih]
      simp only [nodup_cons, mem_cons, forall_eq_or_imp]
      grind

def CoversSeries (regions : List ShardRegion) : Prop :=
  Spans start end_ 0 UInt64.maxValue regions

variable (covers : CoversSeries regions)
include covers

theorem CoversSeries.ne_nil : regions ≠ [] := by
  rintro rfl
  exact absurd covers (show (0 : UInt64) ≠ UInt64.maxValue by decide)

theorem CoversSeries.sortByStart_eq : sortByStart regions = regions :=
  sortByStart_of_ascending (ascending covers)

omit covers in
/-- `validate` accepts a list of regions exactly when, sorted by start, they
cover the series identifiers and their identifiers are distinct. -/
theorem MeasurementShardSpace.validate_eq_ok_iff (space : MeasurementShardSpace) :
    space.validate = .ok () ↔ CoversSeries (sortByStart space.regions) ∧ space.regionIds.Nodup := by
  have ascending := sortByStart_ascending space.regions
  have repeated := firstDuplicate_eq_none_iff [] space.regionIds
  fun_cases validate with
  | case1 sorted => exact iff_of_false nofun fun valid => valid.1.ne_nil sorted
  | case2 first rest sorted startsLater =>
    rw [sorted]
    exact iff_of_false nofun fun valid => startsLater (starts valid.1 first (by simp))
  | case3 first rest sorted startsAtZero left right gap =>
    rw [sorted]
    refine iff_of_false nofun fun valid => ?_
    rw [(firstGap_eq_none_iff _).mpr (meet valid.1)] at gap
    cases gap
  | case4 first rest sorted startsAtZero noGap endsBelow =>
    rw [sorted]
    refine iff_of_false nofun fun valid => endsBelow ?_
    have isLast := getLast?_eq_some_getLast (cons_ne_nil first rest)
    rw [isLast]
    exact congrArg some (ends valid.1 _ isLast)
  | case5 first rest sorted startsAtZero noGap endsAtTop id repeats =>
    refine iff_of_false nofun fun valid => ?_
    rw [repeated.mpr ⟨valid.2, by simp⟩] at repeats
    cases repeats
  | case6 first rest sorted startsAtZero noGap endsAtTop noRepeat =>
    rw [sorted] at ascending ⊢
    refine iff_of_true rfl ⟨spans_of_ascending (by simp) ascending
      (fun region _ => UInt64.le_maxValue region.start) (by simpa using startsAtZero)
      ((firstGap_eq_none_iff _).mp noGap) ?_, (repeated.mp noRepeat).1⟩
    intro last lastMem
    have lastEq : (first :: rest).getLast? = some last := lastMem
    simpa [lastEq] using endsAtTop

variable {seriesId : UInt64}

theorem locateInRegions_of_covers (below : seriesId < UInt64.maxValue) :
    ∃ region, locateInRegions regions seriesId = some region ∧
      region ∈ regions ∧ region.contains seriesId = true := by
  obtain ⟨idx, region, search, found, member, holds⟩ :=
    partitionPoint_search covers (UInt64.zero_le (a := seriesId)) below
  have contains := (region.contains_iff seriesId).mpr holds
  refine ⟨region, ?_, member, contains⟩
  have nonempty : regions.isEmpty = false := by
    simpa using covers.ne_nil
  simp [locateInRegions, nonempty, search, found, contains]

omit covers in
theorem mem_of_locateInRegions
    (found : locateInRegions regions seriesId = some region) :
    region ∈ regions ∧ region.contains seriesId = true := by
  revert found
  fun_cases locateInRegions with
  | case4 nonempty idx search candidate atIndex contains =>
    rintro ⟨⟩
    exact ⟨mem_of_getElem? atIndex, contains⟩
  | _ => rintro ⟨⟩

theorem CoversSeries.exists_filter_contains (below : seriesId < UInt64.maxValue) :
    ∃ region, regions.filter (·.contains seriesId) = [region] := by
  obtain ⟨front, region, back, rfl, holds, before, after⟩ :=
    split_at covers (UInt64.zero_le (a := seriesId)) below
  have frontEmpty : front.filter (·.contains seriesId) = [] := by
    rw [filter_eq_nil_iff]
    intro earlier earlierMem
    rw [contains_iff]
    exact fun inside => absurd inside.2 (not_lt.mpr (before earlier earlierMem).2)
  have backEmpty : back.filter (·.contains seriesId) = [] := by
    rw [filter_eq_nil_iff]
    intro later laterMem
    rw [contains_iff]
    exact fun inside => absurd inside.1 (not_le.mpr (after later laterMem))
  simp [frontEmpty, backEmpty, (region.contains_iff seriesId).mpr holds]

end

/-! ## When shard map operations are accepted -/

structure FirstWithId (regions : List ShardRegion) (regionId : UInt64)
    (front : List ShardRegion) (region : ShardRegion) (back : List ShardRegion) : Prop where
  regionsEq : regions = front ++ region :: back
  idEq : region.regionId = regionId
  before : ∀ earlier ∈ front, earlier.regionId ≠ regionId

variable {regionId : UInt64} {epoch : ShardEpoch} {key : MeasurementKey}
  {front back : List ShardRegion}

theorem regionPosition_eq_some_iff {idx : Nat} :
    regionPosition regionId regions = some idx ↔
      ∃ front region back, FirstWithId regions regionId front region back ∧ front.length = idx := by
  unfold regionPosition
  constructor
  · intro found
    obtain ⟨bound, idEq, before⟩ := findIdx?_eq_some_iff_getElem.mp found
    refine ⟨regions.take idx, regions[idx], regions.drop (idx + 1),
      ⟨by simp, by simpa using idEq, ?_⟩, by simp; omega⟩
    intro earlier earlierMem
    obtain ⟨place, placeBound, rfl⟩ := getElem_of_mem earlierMem
    have placeLt : place < idx := by simp at placeBound; omega
    simpa using before place placeLt
  · rintro ⟨front, region, back, ⟨rfl, idEq, before⟩, rfl⟩
    rw [findIdx?_append, findIdx?_eq_none_iff.mpr (by simpa using before)]
    simp [findIdx?_cons, idEq]

variable (found : FirstWithId regions regionId front region back)
include found

theorem FirstWithId.regionPosition_eq : regionPosition regionId regions = some front.length :=
  regionPosition_eq_some_iff.mpr ⟨front, region, back, found, rfl⟩

theorem FirstWithId.getElem_eq : regions[front.length]! = region := by
  rw [found.regionsEq]
  simp

theorem FirstWithId.set_eq (other : ShardRegion) :
    regions.set front.length other = front ++ other :: back := by
  rw [found.regionsEq]
  simp

theorem FirstWithId.mem : region ∈ regions := by
  rw [found.regionsEq]
  simp

theorem FirstWithId.front_subset : front ⊆ regions := by
  rw [found.regionsEq]
  simp

theorem FirstWithId.back_subset : back ⊆ regions := by
  rw [found.regionsEq]
  exact fun later member => by simp [member]

theorem FirstWithId.after (distinct : (regions.map (·.regionId)).Nodup) :
    ∀ later ∈ back, later.regionId ≠ regionId := by
  rw [found.regionsEq, map_append, map_cons, nodup_append, nodup_cons] at distinct
  intro later member sameId
  apply distinct.2.1.1
  rw [found.idEq, ← sameId]
  exact mem_map_of_mem member

omit found in
theorem FirstWithId.of_mem (member : region ∈ regions)
    (distinct : (regions.map (·.regionId)).Nodup) :
    ∃ front back, FirstWithId regions region.regionId front region back := by
  obtain ⟨front, back, rfl⟩ := append_of_mem member
  refine ⟨front, back, rfl, rfl, fun earlier earlierMem sameId => ?_⟩
  rw [map_append, map_cons, nodup_append] at distinct
  exact distinct.2.2 _ (mem_map_of_mem earlierMem) _ mem_cons_self sameId

omit found in
theorem ShardMap.hasRegionId_iff (map : ShardMap) (regionId : UInt64) :
    map.hasRegionId regionId = true ↔
      ∃ (key : MeasurementKey) (space : MeasurementShardSpace),
        map.spaces[key]? = some space ∧ ∃ region ∈ space.regions, region.regionId = regionId := by
  simp only [hasRegionId, any_eq_true, beq_iff_eq, Prod.exists,
    Std.ExtTreeMap.mem_toList_iff_getElem?_eq_some]

omit found in
theorem firstTakenId_eq_none_iff (map : ShardMap) (seen : List UInt64)
    (regions : List ShardRegion) :
    firstTakenId map seen regions = none ↔ (regions.map (·.regionId)).Nodup ∧
      (∀ region ∈ regions, region.regionId ∉ seen) ∧
      ∀ region ∈ regions, map.hasRegionId region.regionId = false := by
  induction regions generalizing seen with
  | nil => simp [firstTakenId]
  | cons region regions ih =>
    rw [firstTakenId]
    by_cases taken : region.regionId ∈ seen ∨ map.hasRegionId region.regionId = true
    · rw [if_pos taken]
      rcases taken with repeated | inMap
      · simp [repeated]
      · simp [inMap]
    · rw [if_neg taken, ih]
      rw [not_or, Bool.not_eq_true] at taken
      simp only [map_cons, nodup_cons, mem_map, mem_cons, forall_eq_or_imp]
      grind

omit found in
theorem applyBootstrap_eq (map : ShardMap) (key : MeasurementKey) (region : ShardRegion) :
    applyBootstrap map key region = applyBootstrapPresplit map key [region] := by
  unfold applyBootstrap applyBootstrapPresplit
  by_cases exists_ : map.spaces.contains key = true
  · simp [exists_]
  · by_cases taken : map.hasRegionId region.regionId = true
    · simp [exists_, taken, firstTakenId]
    · simp [exists_, taken, firstTakenId, bootstrapNextRegionId]

variable {map after : ShardMap}

omit found in
theorem applyBootstrapPresplit_eq_ok_iff :
    applyBootstrapPresplit map key regions = .ok after ↔
      map.spaces[key]? = none ∧ (regions.map (·.regionId)).Nodup ∧
      (∀ region ∈ regions, map.hasRegionId region.regionId = false) ∧
      CoversSeries (sortByStart regions) ∧
      after = { map with
        nextRegionId := bootstrapNextRegionId map regions
        spaces := map.spaces.insert key ⟨key, sortByStart regions⟩ } := by
  have taken := firstTakenId_eq_none_iff map [] regions
  have valid := validate_eq_ok_iff ⟨key, sortByStart regions⟩
  have idsPerm : (sortByStart regions).map (·.regionId) |>.Perm
      (regions.map (·.regionId)) := (perm_sortByStart regions).map _
  simp only [regionIds, sortByStart_sortByStart, idsPerm.nodup_iff] at valid
  unfold applyBootstrapPresplit sortSpaceRegions
  rw [Std.ExtTreeMap.contains_eq_isSome_getElem?]
  cases lookup : map.spaces[key]? with
  | some space => simp
  | none =>
    simp only [Option.isSome_none, Bool.false_eq_true, if_false, true_and]
    constructor
    · intro accepted
      split at accepted
      · simp at accepted
      rename_i noneTaken
      obtain ⟨distinct, -, unused⟩ := taken.mp noneTaken
      split at accepted
      · simp at accepted
      rename_i validated
      exact ⟨distinct, unused, (valid.mp validated).1, by simpa using accepted.symm⟩
    · rintro ⟨distinct, unused, covers, rfl⟩
      simp [taken.mpr ⟨distinct, by simp, unused⟩, valid.mpr ⟨covers, distinct⟩]

omit found in
theorem applyRegionEdit_eq_ok_iff {operation : String}
    {edit : ShardRegion → Except ShardMapApplyError ShardRegion} :
    applyRegionEdit map key regionId epoch operation edit = .ok after ↔
      ∃ space front old back edited,
        map.spaces[key]? = some space ∧
        FirstWithId space.regions regionId front old back ∧
        old.epoch = epoch ∧ edit old = .ok edited ∧
        after = { map with spaces := map.spaces.insert key ⟨space.key, sortByStart
          (front ++ { edited with epoch := epoch.bumpConfVer } :: back)⟩ } := by
  constructor
  · fun_cases applyRegionEdit with
    | case5 space spaceEq idx position region fenced edited editEq updated =>
      rintro ⟨⟩
      obtain ⟨front, old, back, found, rfl⟩ := regionPosition_eq_some_iff.mp position
      have isOld : region = old := found.getElem_eq
      rw [isOld] at fenced editEq
      refine ⟨space, front, old, back, edited, spaceEq, found, not_not.mp fenced, editEq, ?_⟩
      rw [← found.set_eq]
      rfl
    | _ => rintro ⟨⟩
  · rintro ⟨space, front, old, back, edited, spaceEq, found, fenced, editEq, rfl⟩
    simp [applyRegionEdit, sortSpaceRegions, spaceEq, found.regionPosition_eq, found.getElem_eq,
      found.set_eq, fenced, editEq]

omit found in
theorem applySplit_eq_ok_iff {regionId splitKey : UInt64}
    {left right : ShardRegion} :
    applySplit map key regionId splitKey epoch left right = .ok after ↔
      ∃ space front old back regions,
        map.hasRegionId map.nextRegionId = false ∧
        map.spaces[key]? = some space ∧
        FirstWithId space.regions regionId front old back ∧
        old.epoch = epoch ∧ (old.start < splitKey ∧ splitKey < old.end_) ∧
        (left.end_ = splitKey ∧ right.start = splitKey) ∧
        regions = sortByStart (front ++ flagMovedChild old left ::
          flagMovedChild old { right with regionId := map.nextRegionId } :: back) ∧
        validate ⟨space.key, regions⟩ = .ok () ∧
        after.validateGlobalRegionIds = .ok () ∧
        after = { map with
          nextRegionId := map.nextRegionId.saturatingAdd 1
          spaces := map.spaces.insert key ⟨space.key, regions⟩ } := by
  have inserted (front back : List ShardRegion) (first second : ShardRegion) :
      (front ++ first :: back).insertIdx (front.length + 1) second =
        front ++ first :: second :: back := by
    induction front with
    | nil => rfl
    | cons head front ih => simp [ih]
  constructor
  · fun_cases applySplit with
    | case9 _ allocatable space spaceEq idx position old fenced inside meets first second made valid
        updated global =>
      intro accepted
      obtain rfl := Except.ok.inj accepted
      obtain ⟨front, region, back, found, rfl⟩ := regionPosition_eq_some_iff.mp position
      obtain rfl : old = region := found.getElem_eq
      have isMade : made = ⟨space.key, sortByStart (front ++ first :: second :: back)⟩ := by
        rw [← inserted, ← found.set_eq]
        rfl
      rw [isMade] at valid
      rw [not_or, not_le, not_le] at inside
      rw [not_or, not_not, not_not] at meets
      exact ⟨space, front, old, back, _, by simpa using allocatable, spaceEq, found,
        not_not.mp fenced, inside, meets, rfl, valid, global, by rw [← isMade]⟩
    | _ => rintro ⟨⟩
  · rintro ⟨space, front, old, back, regions, allocatable, spaceEq, found, fenced, inside,
      meets, rfl, valid, global, rfl⟩
    have insideNot : ¬(splitKey ≤ old.start ∨ old.end_ ≤ splitKey) :=
      not_or.mpr ⟨not_le.mpr inside.1, not_le.mpr inside.2⟩
    have meetsNot : ¬(left.end_ ≠ splitKey ∨ right.start ≠ splitKey) :=
      not_or.mpr ⟨not_not.mpr meets.1, not_not.mpr meets.2⟩
    simp only [applySplit, sortSpaceRegions, allocatable, Bool.false_eq_true, if_false, spaceEq,
      found.regionPosition_eq, found.getElem_eq, found.set_eq, inserted,
      if_neg (not_not.mpr fenced), if_neg insideNot, if_neg meetsNot, valid, global]

omit found in
theorem applyMerge_eq_ok_iff {leftRegionId rightRegionId : UInt64}
    {rightEpoch : Option ShardEpoch} {merged : ShardRegion} :
    applyMerge map key leftRegionId rightRegionId epoch rightEpoch merged = .ok after ↔
      ∃ space front left right back regions,
        map.spaces[key]? = some space ∧
        FirstWithId space.regions leftRegionId front left (right :: back) ∧
        FirstWithId space.regions rightRegionId (front ++ [left]) right back ∧
        left.epoch = epoch ∧ right.epoch = rightEpoch.getD epoch ∧
        regions = sortByStart (front ++ merged :: back) ∧
        validate ⟨space.key, regions⟩ = .ok () ∧
        after = { map with spaces := map.spaces.insert key ⟨space.key, regions⟩ } := by
  have erased (front back : List ShardRegion) (first second other : ShardRegion) :
      ((front ++ first :: second :: back).eraseIdx (front.length + 1)).set
        front.length other = front ++ other :: back := by
    induction front with
    | nil => rfl
    | cons head front ih => simpa using ih
  constructor
  · fun_cases applyMerge with
    | case8 space spaceEq _ leftPosition leftFenced _ rightPosition adjacent rightFenced _ valid =>
      rintro ⟨⟩
      obtain ⟨front, left, tail, leftFound, rfl⟩ := regionPosition_eq_some_iff.mp leftPosition
      obtain ⟨initial, right, back, rightFound, rfl⟩ := regionPosition_eq_some_iff.mp rightPosition
      rw [leftFound.getElem_eq] at leftFenced
      rw [rightFound.getElem_eq] at rightFenced
      -- Both splittings describe the same list, so the right one extends the left.
      obtain ⟨rfl, rfl⟩ : initial = front ++ [left] ∧ tail = right :: back := by
        have same : (front ++ [left]) ++ tail = initial ++ right :: back := by
          rw [← rightFound.regionsEq, leftFound.regionsEq]
          simp
        obtain ⟨initialEq, tailEq⟩ :=
          append_inj same (by simpa using (not_not.mp adjacent).symm)
        exact ⟨initialEq.symm, tailEq⟩
      refine ⟨space, front, left, right, back, _, spaceEq, leftFound, rightFound,
        not_not.mp leftFenced, not_not.mp rightFenced, rfl, ?_, ?_⟩
      · rw [← erased, ← length_singleton, ← length_append, ← leftFound.regionsEq]
        exact valid
      · rw [← erased, ← length_singleton, ← length_append, ← leftFound.regionsEq]
        rfl
    | _ => rintro ⟨⟩
  · rintro ⟨space, front, left, right, back, regions, spaceEq, leftFound, rightFound,
      leftFenced, rightFenced, rfl, valid, rfl⟩
    have rightPosition := rightFound.regionPosition_eq
    have rightElem := rightFound.getElem_eq
    rw [length_append, length_singleton] at rightPosition rightElem
    have regionsSet := erased front back left right merged
    rw [← leftFound.regionsEq] at regionsSet
    simp only [applyMerge, sortSpaceRegions, spaceEq, leftFound.regionPosition_eq,
      leftFound.getElem_eq,
      if_neg (not_not.mpr leftFenced), rightPosition, ne_eq, not_true_eq_false, if_false,
      rightElem, if_neg (not_not.mpr rightFenced), regionsSet, valid]

end HyperbyteDb
