import HyperbyteDb.IntervalPartitions
import HyperbyteDb.MachineWords

/-!
# Shard regions and the shard map

The placement state of the cluster: every measurement owns a shard space, an
ordered list of regions `[start, end)` over 64-bit series identifiers, and the
shard map collects the spaces with two global counters.
-/

namespace HyperbyteDb

/-- Region epoch: `version` bumps on range change, `confVer` on peer set
change. -/
structure ShardEpoch where
  confVer : UInt64 := 0
  version : UInt64 := 0
deriving DecidableEq, Repr, Inhabited

namespace ShardEpoch

def bumpConfVer (epoch : ShardEpoch) : ShardEpoch :=
  { epoch with confVer := epoch.confVer.saturatingAdd 1 }

/-- `epoch` is an earlier state of the region that `other` describes: no
counter ahead and at least one behind. -/
def isBehind (epoch other : ShardEpoch) : Bool :=
  epoch != other && epoch.confVer ≤ other.confVer && epoch.version ≤ other.version

theorem bumpConfVer_ne {epoch : ShardEpoch}
    (below : epoch.confVer < UInt64.maxValue) : epoch.bumpConfVer ≠ epoch := by
  intro same
  have stays : epoch.confVer.saturatingAdd 1 = epoch.confVer :=
    congrArg ShardEpoch.confVer same
  exact ne_of_gt (UInt64.lt_saturatingAdd_one below) stays

end ShardEpoch

/-- Whether a region may serve reads and writes.  A split creates its child
`staging`; cutover flips it to `serving`. -/
inductive RegionState where
  | serving
  | staging
deriving DecidableEq, Repr, Inhabited

/-- Contiguous range `[start, end_)` over series identifiers for one
measurement. -/
structure ShardRegion where
  regionId : UInt64
  start : UInt64
  end_ : UInt64
  epoch : ShardEpoch
  peers : List UInt64
  primary : UInt64
  lastSplitAt : UInt64 := 0
  /-- `some false` marks a split child whose rows are not yet verified as
  re-pushed. -/
  transferVerified : Option Bool := none
  transferFirstSeen : Option Int64 := none
  state : RegionState := .serving
  /-- While staging, the region that still holds this range. -/
  stagedFrom : Option UInt64 := none
  /-- Learners: members of `peers` that must not serve reads yet. -/
  stagingPeers : List UInt64 := []
deriving DecidableEq, Inhabited

namespace ShardRegion

variable (region : ShardRegion)

def isServing : Bool :=
  region.state == .serving

/-- A member that may serve reads: a peer that is not a learner. -/
def isServingPeer (peer : UInt64) : Bool :=
  region.peers.contains peer && !region.stagingPeers.contains peer

def contains (seriesId : UInt64) : Bool :=
  region.start ≤ seriesId && seriesId < region.end_

def transferOutstanding : Bool :=
  region.transferVerified == some false

theorem contains_iff (seriesId : UInt64) :
    region.contains seriesId = true ↔ IntervalPartitions.Holds start end_ seriesId region := by
  simp [contains, IntervalPartitions.Holds]

end ShardRegion

/-- The name of one measurement's shard space. -/
structure MeasurementKey where
  db : String
  rp : String
  measurement : String
deriving DecidableEq, Repr, Inhabited

namespace MeasurementKey

/-- Component order.  The source keeps spaces in a hash map; a fixed order
stands for its unspecified one. -/
instance : Ord MeasurementKey where
  compare first second :=
    (compare first.db second.db).then
      ((compare first.rp second.rp).then
        (compare first.measurement second.measurement))

theorem compare_eq_lex : (compare : MeasurementKey → MeasurementKey → Ordering) =
      compareLex (compareOn db) (compareLex (compareOn rp) (compareOn measurement)) :=
  rfl

instance : Std.TransOrd MeasurementKey := by
  rw [Std.TransOrd, compare_eq_lex]
  infer_instance

instance : Std.LawfulEqOrd MeasurementKey where
  eq_of_compare {first second} same := by
    change (compare first.db second.db).then _ = .eq at same
    rw [Ordering.then_eq_eq, Ordering.then_eq_eq] at same
    have dbEq := Std.LawfulEqCmp.eq_of_compare same.1
    have rpEq := Std.LawfulEqCmp.eq_of_compare same.2.1
    have measurementEq := Std.LawfulEqCmp.eq_of_compare same.2.2
    cases first
    cases second
    simp_all

end MeasurementKey

def sortByStart (regions : List ShardRegion) : List ShardRegion :=
  regions.insertionSort fun first second => first.start ≤ second.start

def locateInRegions (regions : List ShardRegion) (seriesId : UInt64) : Option ShardRegion :=
  if regions.isEmpty then
    none
  else
    match PartitionedSearch.partitionPoint
        (fun region => decide (region.start ≤ seriesId)) regions with
    | 0 => none
    | idx + 1 =>
      match regions[idx]? with
      | none => none
      | some region => if region.contains seriesId then some region else none

/-- The first two neighbours that leave a gap or overlap. -/
def firstGap : List ShardRegion → Option (ShardRegion × ShardRegion)
  | left :: right :: rest =>
    if left.end_ ≠ right.start then some (left, right)
    else firstGap (right :: rest)
  | _ => none

/-- The first identifier that is already in `seen` when it is reached. -/
def firstDuplicate (seen : List UInt64) : List UInt64 → Option UInt64
  | [] => none
  | id :: ids =>
    if id ∈ seen then some id else firstDuplicate (id :: seen) ids

/-- Ordered non-overlapping regions covering `[0, u64::MAX)` for one
measurement. -/
structure MeasurementShardSpace where
  key : MeasurementKey
  regions : List ShardRegion
deriving DecidableEq, Inhabited

namespace MeasurementShardSpace

variable (space : MeasurementShardSpace)

def locate (seriesId : UInt64) : Option ShardRegion :=
  locateInRegions space.regions seriesId

def regionIds : List UInt64 :=
  space.regions.map (·.regionId)

def validate : Except String Unit :=
  match sortByStart space.regions with
  | [] => .error "empty region list"
  | first :: rest =>
    if first.start ≠ 0 then
      .error s!"first region must start at 0, got {first.start}"
    else
      match firstGap (first :: rest) with
      | some (left, right) =>
        .error s!"gap or overlap between regions {left.regionId} and {right.regionId}"
      | none =>
        if (first :: rest).getLast?.map (·.end_) ≠ some UInt64.maxValue then
          .error "last region must end at u64::MAX"
        else
          match firstDuplicate [] space.regionIds with
          | some id => .error s!"duplicate region_id {id} within space"
          | none => .ok ()

end MeasurementShardSpace

/-- All shard spaces, with the number of applied operations and the allocator
for new region identifiers. -/
structure ShardMap where
  mapVersion : UInt64 := 0
  nextRegionId : UInt64 := 1
  spaces : Std.ExtTreeMap MeasurementKey MeasurementShardSpace := ∅
deriving Inhabited

namespace ShardMap

def default : ShardMap := {}

variable (map : ShardMap)

def regionIds : List UInt64 :=
  map.spaces.toList.flatMap fun entry => entry.2.regionIds

def validateGlobalRegionIds : Except String Unit :=
  match firstDuplicate [] map.regionIds with
  | some id => .error s!"duplicate region_id {id}"
  | none => .ok ()

def space (key : MeasurementKey) : Option MeasurementShardSpace :=
  map.spaces[key]?

def locate (key : MeasurementKey) (seriesId : UInt64) : Option ShardRegion :=
  (map.space key).bind (·.locate seriesId)

end ShardMap

end HyperbyteDb
