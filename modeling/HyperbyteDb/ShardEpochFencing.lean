import HyperbyteDb.ShardRegionIdentity

/-!
# Epoch fencing

Every region-scoped operation names the epoch it was planned on and is refused when the region
has moved on.  The in-place edits bump the epoch themselves.
-/

namespace HyperbyteDb

open List Option ShardEpoch ShardMapOp

section

structure RegionFence where
  key : MeasurementKey
  regionId : UInt64
  epoch : ShardEpoch
deriving DecidableEq

namespace ShardMapOp

variable {op : ShardMapOp} {created : MeasurementKey × List ShardRegion}

/-- The regions an operation is planned on, each at the epoch it expects. -/
def fences : ShardMapOp → List RegionFence
  | .split key regionId _ epoch _ _ => [⟨key, regionId, epoch⟩]
  | .merge key leftRegionId rightRegionId epoch rightEpoch _ =>
    [⟨key, leftRegionId, epoch⟩, ⟨key, rightRegionId, rightEpoch.getD epoch⟩]
  | other => other.regionEdit.toList.map fun change =>
    ⟨change.key, change.regionId, change.epoch⟩

theorem fences_of_regionEdit {change : RegionEdit} (isEdit : op.regionEdit = some change) :
    op.fences = [⟨change.key, change.regionId, change.epoch⟩] := by
  cases op <;> simp_all [fences, regionEdit]

theorem fences_of_bootstrap (isBootstrap : op.bootstrapRegions = some created) : op.fences = [] := by
  cases op <;> simp_all [fences, regionEdit, bootstrapRegions]

/-- The operation neither names the region nor installs one in its place. -/
def OnOtherRegions (op : ShardMapOp) (map : ShardMap) (key : MeasurementKey)
    (regionId : UInt64) : Prop :=
  (∀ fence ∈ op.fences, (fence.key, fence.regionId) ≠ (key, regionId)) ∧
    (key, regionId) ∉ op.installs map

/-- A surviving region is carried at another epoch than the one planned on. -/
def AdvancesEpoch : ShardMapOp → Prop
  | .split _ regionId _ epoch left _ => left.regionId = regionId → left.epoch ≠ epoch
  | .merge _ leftRegionId rightRegionId epoch rightEpoch merged =>
    (merged.regionId = leftRegionId → merged.epoch ≠ epoch) ∧
      (merged.regionId = rightRegionId → merged.epoch ≠ rightEpoch.getD epoch)
  | _ => True

theorem advancesEpoch_of_regionEdit {change : RegionEdit} (isEdit : op.regionEdit = some change)
    : op.AdvancesEpoch := by
  cases op <;> simp_all [AdvancesEpoch, regionEdit]

theorem advancesEpoch_of_bootstrap (isBootstrap : op.bootstrapRegions = some created)
    : op.AdvancesEpoch := by
  cases op <;> simp_all [AdvancesEpoch, bootstrapRegions]

end ShardMapOp

variable {op : ShardMapOp} {fence : RegionFence} {map after : ShardMap}

def RegionFence.OpenIn (fence : RegionFence) (map : ShardMap) : Prop :=
  ∃ region, map.Stores fence.key region ∧ region.regionId = fence.regionId ∧
    region.epoch = fence.epoch

/-- An accepted operation finds all its fences open. -/
theorem Applied.openIn (applied : Applied map op after) (fenced : fence ∈ op.fences)
    : fence.OpenIn map := by
  cases applied with
  | bootstrap isBootstrap absent distinct unused covers =>
    simp [fences_of_bootstrap isBootstrap] at fenced
  | split allocatable spaceEq found epochEq inside meets regionsEq covers distinct
      globallyDistinct =>
      obtain rfl := mem_singleton.mp fenced
      exact ⟨_, ⟨_, spaceEq, found.mem⟩, found.idEq, epochEq⟩
  | merge spaceEq leftFound rightFound leftEpochEq rightEpochEq regionsEq covers
      distinct =>
      rcases mem_pair.mp fenced with rfl | rfl
      · exact ⟨_, ⟨_, spaceEq, leftFound.mem⟩, leftFound.idEq, leftEpochEq⟩
      · exact ⟨_, ⟨_, spaceEq, rightFound.mem⟩, rightFound.idEq, rightEpochEq⟩
  | edit isEdit spaceEq found epochEq editEq =>
    rw [fences_of_regionEdit isEdit] at fenced
    obtain rfl := mem_singleton.mp fenced
    exact ⟨_, ⟨_, spaceEq, found.mem⟩, found.idEq, epochEq⟩
  | drop => simp [fences, regionEdit] at fenced

theorem Applied.openIn_of_onOtherRegions (applied : Applied map op after)
    (elsewhere : op.OnOtherRegions map fence.key fence.regionId) (stillOpen : fence.OpenIn after)
    : fence.OpenIn map := by
  obtain ⟨notNamed, notInstalled⟩ := elsewhere
  obtain ⟨region, stored, idEq, epochEq⟩ := stillOpen
  cases applied.origin stored with
  | kept stored => exact ⟨region, stored, idEq, epochEq⟩
  | carried source isKey installed same =>
    rw [idEq] at installed
    exact absurd (mem_installs_of_installedAs isKey installed) notInstalled
  | edited change isEdit keyEq old _ oldIdEq _ edited editEq regionEq =>
    have frame := regionEdit_frame isEdit editEq
    have named : change.regionId = fence.regionId := by
      rw [← idEq, ← oldIdEq, ← frame.1, regionEq]
    rw [fences_of_regionEdit isEdit] at notNamed
    exact absurd (Prod.ext keyEq named) (notNamed _ (mem_singleton_self _))

/-- When the regions around the replaced ones have other identifiers, a fence is
open exactly if a replacement opens it. -/
theorem RegionFence.openIn_replaced_iff {nextRegionId : UInt64} {spaceKey : MeasurementKey}
    {front back regions : List ShardRegion} (new : List ShardRegion)
    (before : ∀ region ∈ front, region.regionId ≠ fence.regionId)
    (after : ∀ region ∈ back, region.regionId ≠ fence.regionId)
    (regionsEq : regions = sortByStart (front ++ (new ++ back))) :
    fence.OpenIn (map.advance nextRegionId fence.key ⟨spaceKey, regions⟩) ↔
      ∃ region ∈ new, region.regionId = fence.regionId ∧ region.epoch = fence.epoch := by
  subst regionsEq
  simp only [OpenIn, ShardMap.stores_advance_iff, mem_sortByStart, mem_append]
  constructor
  · rintro ⟨region, inFront | inNew | inBack, idEq, epochEq⟩
    · exact absurd idEq (before region inFront)
    · exact ⟨region, inNew, idEq, epochEq⟩
    · exact absurd idEq (after region inBack)
  · rintro ⟨region, inNew, idEq, epochEq⟩
    exact ⟨region, Or.inr (Or.inl inNew), idEq, epochEq⟩

/-- After an accepted operation its fences are closed exactly when it carried
surviving regions at a new epoch. -/
theorem Applied.fences_closed_iff (applied : Applied map op after) (valid : map.Valid)
    (belowTop : ∀ fence ∈ op.fences, fence.epoch.confVer < UInt64.maxValue) :
    (∀ fence ∈ op.fences, ¬fence.OpenIn after) ↔ op.AdvancesEpoch := by
  cases applied with
  | bootstrap isBootstrap absent distinct unused covers =>
    simp [fences_of_bootstrap isBootstrap, advancesEpoch_of_bootstrap isBootstrap]
  | @split key regionId _ epoch left right old space front back regions allocatable
      spaceEq found epochEq inside meets regionsEq covers distinct globallyDistinct =>
      have fresh : map.nextRegionId ≠ regionId := by
        intro taken
        have present : map.hasRegionId map.nextRegionId = true :=
          (map.hasRegionId_iff _).mpr ⟨_, _, spaceEq, old, found.mem, found.idEq.trans taken.symm⟩
        simp [present] at allocatable
      have replaced : (RegionFence.mk key regionId epoch).OpenIn
          (map.advance (map.nextRegionId.saturatingAdd 1) key ⟨space.key, regions⟩) ↔ _ :=
        RegionFence.openIn_replaced_iff [_, _] found.before
          (found.after (valid _ _ spaceEq).distinct) regionsEq
      have leftEpoch := (flagMovedChild_sameMembers old left).epochEq
      simp only [fences, forall_mem_singleton, replaced, ShardMapOp.AdvancesEpoch]
      simp [fresh, leftEpoch]
  | @merge key leftRegionId rightRegionId epoch rightEpoch merged left right space front
      back regions spaceEq leftFound rightFound leftEpochEq rightEpochEq regionsEq covers
      distinct =>
      have spaceDistinct := (valid _ _ spaceEq).distinct
      have leftAfter := leftFound.after spaceDistinct
      have rightBefore := rightFound.before
      have leftReplaced : (RegionFence.mk key leftRegionId epoch).OpenIn
          (map.advance map.nextRegionId key ⟨space.key, regions⟩) ↔ _ :=
        RegionFence.openIn_replaced_iff [merged] leftFound.before
          (fun region member => leftAfter region (mem_cons_of_mem _ member))
          regionsEq
      have rightReplaced :
          (RegionFence.mk key rightRegionId (rightEpoch.getD epoch)).OpenIn
            (map.advance map.nextRegionId key ⟨space.key, regions⟩) ↔ _ :=
        RegionFence.openIn_replaced_iff [merged]
          (fun region member => rightBefore region (mem_append_left _ member))
          (rightFound.after spaceDistinct) regionsEq
      simp only [fences, forall_mem_cons, leftReplaced, rightReplaced, ShardMapOp.AdvancesEpoch]
      simp
  | @edit _ change old edited space front back isEdit spaceEq found epochEq editEq =>
    rw [fences_of_regionEdit isEdit] at belowTop ⊢
    have replaced : (RegionFence.mk change.key change.regionId change.epoch).OpenIn
        (map.advance map.nextRegionId change.key ⟨space.key, _⟩) ↔ _ :=
      RegionFence.openIn_replaced_iff [{ edited with epoch := change.epoch.bumpConfVer }]
        found.before (found.after (valid _ _ spaceEq).distinct) rfl
    have bumped : change.epoch.bumpConfVer ≠ change.epoch :=
      ShardEpoch.bumpConfVer_ne (belowTop _ (mem_singleton_self _))
    simp only [forall_mem_singleton, singleton_append] at replaced ⊢
    rw [replaced]
    simp [bumped, advancesEpoch_of_regionEdit isEdit]
  | drop => simp [fences, regionEdit, ShardMapOp.AdvancesEpoch]

theorem RegionFence.OpenIn.accepts (isOpen : fence.OpenIn map) (valid : map.Valid) :
    ∃ later, applyShardMapOp map
      (.clearVerified fence.key fence.regionId fence.epoch) = .ok later := by
  obtain ⟨region, ⟨space, lookup, member⟩, idEq, epochEq⟩ := isOpen
  obtain ⟨front, back, found⟩ :=
    FirstWithId.of_mem member (valid fence.key space lookup).distinct
  rw [idEq] at found
  exact ⟨_, applyShardMapOp_eq_ok_iff.mpr (.edit rfl lookup found epochEq rfl)⟩

/-- One accepted operation that concerns other regions than the given one. -/
def StepElsewhere (key : MeasurementKey) (regionId : UInt64) (map after : ShardMap) : Prop :=
  ∃ op : ShardMapOp, op.OnOtherRegions map key regionId ∧
    applyShardMapOp map op = .ok after

/-- However the map moves on elsewhere after the operation produced `after`, an
operation planned on one of the same regions at the same epoch is refused. -/
def ShardMapOp.FencedAfter (op : ShardMapOp) (after : ShardMap) : Prop :=
  ∀ fence ∈ op.fences, ∀ later,
    Relation.ReflTransGen (StepElsewhere fence.key fence.regionId) after later →
    ∀ other : ShardMapOp, fence ∈ other.fences → ∃ error, applyShardMapOp later other = .error error

theorem RegionFence.closed_of_elsewhere {later : ShardMap} (closed : ¬fence.OpenIn map)
    (elsewhere : Relation.ReflTransGen (StepElsewhere fence.key fence.regionId) map later) :
    ¬fence.OpenIn later := by
  induction elsewhere with
  | refl => exact closed
  | tail _ step ih =>
    obtain ⟨op, onOther, accepted⟩ := step
    exact fun isOpen => ih
      ((applyShardMapOp_eq_ok_iff.mp accepted).openIn_of_onOtherRegions onOther isOpen)

/-- An accepted region-scoped operation fences off its own and every other
operation planned on the epochs it used exactly when the regions it carries under
the identifiers it was planned on carry another epoch. -/
theorem fencedAfter_iff_advancesEpoch (start : ValidShardMap) {op : ShardMapOp}
    {after : ShardMap} (accepted : applyShardMapOp start.map op = .ok after)
    (belowTop : ∀ fence ∈ op.fences, fence.epoch.confVer < UInt64.maxValue) :
    op.FencedAfter after ↔ op.AdvancesEpoch := by
  have applied := applyShardMapOp_eq_ok_iff.mp accepted
  rw [← applied.fences_closed_iff start.valid belowTop]
  constructor
  · intro fenced fence member isOpen
    obtain ⟨later, through⟩ := isOpen.accepts (applied.valid start.valid)
    obtain ⟨error, refused⟩ := fenced fence member after .refl
      (.clearVerified fence.key fence.regionId fence.epoch)
      (mem_singleton_self fence)
    rw [through] at refused
    simp at refused
  · intro closed fence member later elsewhere other planned
    cases result : applyShardMapOp later other with
    | error error => exact ⟨error, rfl⟩
    | ok next =>
      have isOpen := (applyShardMapOp_eq_ok_iff.mp result).openIn planned
      exact absurd isOpen (RegionFence.closed_of_elsewhere (closed fence member) elsewhere)

theorem sampleSplit_fencedAfter :
    ∃ after, applyShardMapOp
        (FallibleRuns.run applyShardMapOp ShardMap.default (sampleSplitRun.take 1))
        (.split sampleKey 1 100 ⟨0, 0⟩ { soleRegion 1 ⟨0, 1⟩ with end_ := 100 }
          { soleRegion 0 ⟨0, 1⟩ with start := 100 }) = .ok after ∧
      ShardMapOp.FencedAfter (.split sampleKey 1 100 ⟨0, 0⟩ { soleRegion 1 ⟨0, 1⟩ with end_ := 100 }
          { soleRegion 0 ⟨0, 1⟩ with start := 100 }) after :=
  ⟨_, rfl, (fencedAfter_iff_advancesEpoch ⟨_, valid_run (sampleSplitRun.take 1)⟩ rfl
    (by decide)).mpr (fun _ => by decide)⟩

/-- A split whose left child keeps the parent's epoch, and a merge whose result
keeps the left half's epoch, are accepted; a move planned before them on that
epoch is accepted after them. -/
theorem unchanged_epoch_admits_stale_move : (foldlM applyShardMapOp ShardMap.default
      [.bootstrapMeasurement sampleKey (soleRegion 1 ⟨0, 0⟩),
        .split sampleKey 1 100 ⟨0, 0⟩ { soleRegion 1 ⟨0, 0⟩ with end_ := 100 }
          { soleRegion 0 ⟨0, 0⟩ with start := 100 },
        .movePeer sampleKey 1 1 2 ⟨0, 0⟩]).isOk = true ∧
    (foldlM applyShardMapOp ShardMap.default [.bootstrapMeasurementPresplit sampleKey
          [{ soleRegion 1 ⟨0, 0⟩ with end_ := 100 }, { soleRegion 2 ⟨0, 0⟩ with start := 100 }],
        .merge sampleKey 1 2 ⟨0, 0⟩ none (soleRegion 1 ⟨0, 0⟩),
        .movePeer sampleKey 1 1 2 ⟨0, 0⟩]).isOk = true := by
  decide +kernel

end

/-! ## Fences that stay passed -/

namespace ShardEpoch

variable {epoch : ShardEpoch}

theorem isBehind_iff {other : ShardEpoch} :
    epoch.isBehind other = true ↔
      epoch ≠ other ∧ epoch.confVer ≤ other.confVer ∧ epoch.version ≤ other.version := by
  simp [isBehind, and_assoc]

theorem isBehind_trans {first second third : ShardEpoch}
    (early : first.isBehind second = true) (late : second.isBehind third = true) :
    first.isBehind third = true := by
  rw [isBehind_iff] at early late ⊢
  obtain ⟨differ, confLe, versionLe⟩ := early
  refine ⟨?_, le_trans confLe late.2.1, le_trans versionLe late.2.2⟩
  rintro rfl
  have confEq := le_antisymm confLe late.2.1
  have versionEq := le_antisymm versionLe late.2.2
  cases first
  simp_all

theorem isBehind_bumpConfVer (below : epoch.confVer < UInt64.maxValue) :
    epoch.isBehind epoch.bumpConfVer = true :=
  isBehind_iff.mpr ⟨(bumpConfVer_ne below).symm, UInt64.le_saturatingAdd_one _, le_rfl⟩

end ShardEpoch

/-- No region will be stored under the fence's name at its epoch again: the
identifier is taken from the allocator, and where it is still in use the region
has moved on. -/
structure RegionFence.PassedIn (fence : RegionFence) (map : ShardMap) : Prop where
  allocated : fence.regionId < map.nextRegionId
  behind : ∀ region, map.Stores fence.key region → region.regionId = fence.regionId →
    fence.epoch.isBehind region.epoch = true

namespace ShardMapOp

/-- A split keeps its left identifier, a merge keeps one of its two, and each
carries an epoch ahead of the one it was planned on. -/
def KeepsRegionIds : ShardMapOp → Prop
  | .split _ regionId _ epoch left _ =>
    left.regionId = regionId ∧ epoch.isBehind left.epoch = true
  | .merge _ leftRegionId rightRegionId epoch rightEpoch merged =>
    (merged.regionId = leftRegionId ∨ merged.regionId = rightRegionId) ∧
      (merged.regionId = leftRegionId → epoch.isBehind merged.epoch = true) ∧
      (merged.regionId = rightRegionId → (rightEpoch.getD epoch).isBehind merged.epoch = true)
  | _ => True

/-- What an accepted operation must carry for its replay to be refused. -/
structure ReplayFenced (op : ShardMapOp) (map : ShardMap) : Prop where
  allocates : op.AllocatesBelow map
  keepsIds : op.KeepsRegionIds
  belowTop : ∀ fence ∈ op.fences, fence.epoch.confVer < UInt64.maxValue

/-- A refused operation that came late: its measurement exists already, or a
region it was planned on has moved on or is gone. -/
def StaleIn (op : ShardMapOp) (map : ShardMap) : Prop :=
  (∃ key regions, op.bootstrapRegions = some (key, regions) ∧ map.spaces[key]?.isSome = true) ∨
  ∃ fence ∈ op.fences, map.spaces[fence.key]?.isSome = true ∧ fence.PassedIn map

/-- The condition on one operation of the replayed stretch, in the map it was
first applied to. -/
def ReplayStable (map : ShardMap) (op : ShardMapOp) : Prop :=
  match applyShardMapOp map op with
  | .ok _ => op.ReplayFenced map
  | .error _ => op.StaleIn map

theorem KeepsRegionIds.advancesEpoch {op : ShardMapOp} (keeps : op.KeepsRegionIds) :
    op.AdvancesEpoch := by
  cases op with
  | split =>
    exact fun _ same => (isBehind_iff.mp keeps.2).1 same.symm
  | merge =>
    obtain ⟨-, left, right⟩ := keeps
    exact ⟨fun isLeft same => (isBehind_iff.mp (left isLeft)).1 same.symm,
      fun isRight same => (isBehind_iff.mp (right isRight)).1 same.symm⟩
  | _ => trivial

end ShardMapOp

variable {op : ShardMapOp} {map after : ShardMap}

variable {key : MeasurementKey}

theorem ShardMap.Valid.stores_unique {map : ShardMap} (valid : map.Valid)
    {first second : ShardRegion} (firstStored : map.Stores key first)
    (secondStored : map.Stores key second) (sameId : first.regionId = second.regionId) :
    first = second := by
  obtain ⟨space, lookup, firstMember⟩ := firstStored
  obtain ⟨same, sameLookup, secondMember⟩ := secondStored
  obtain rfl := some.inj (lookup.symm.trans sameLookup)
  exact inj_on_of_nodup_map (valid key space lookup).distinct firstMember secondMember sameId

variable (applied : Applied map op after)
include applied

/-- A region that an operation brings in place of a fenced one carries an epoch
ahead of the fence's. -/
theorem Applied.installed_ahead (keeps : op.KeepsRegionIds)
    (isKey : op.measurementKey = some key) (notCreated : op.bootstrapRegions = none)
    {source : ShardRegion} {regionId : UInt64} (installed : (source, regionId) ∈ op.installedAs map)
    (taken : regionId < map.nextRegionId) :
    ∃ fence ∈ op.fences, fence.key = key ∧ fence.regionId = regionId ∧
      fence.epoch.isBehind source.epoch = true := by
  cases applied with
  | bootstrap isBootstrap => simp [isBootstrap] at notCreated
  | split =>
    simp only [installedAs, mem_cons, not_mem_nil, or_false] at installed
    rcases installed with ⟨rfl, rfl⟩ | ⟨rfl, rfl⟩
    · exact ⟨_, mem_singleton_self _, some.inj isKey, keeps.1.symm, keeps.2⟩
    · exact absurd taken (lt_irrefl _)
  | merge =>
    obtain ⟨rfl, rfl⟩ := Prod.mk.inj (mem_singleton.mp installed)
    obtain ⟨isLeft | isRight, left, right⟩ := keeps
    · exact ⟨_, mem_cons_self, some.inj isKey, isLeft.symm, left isLeft⟩
    · exact ⟨_, mem_cons_of_mem _ (mem_singleton_self _),
        some.inj isKey, isRight.symm, right isRight⟩
  | edit isEdit =>
    have installs := mem_installs_of_installedAs isKey installed
    simp [installs_of_regionEdit isEdit] at installs
  | drop => simp [installedAs] at installed

variable {fence : RegionFence}

/-- A passed fence stays passed, unless its measurement is created anew. -/
theorem Applied.passedIn (fenced : op.ReplayFenced map)
    (passed : fence.PassedIn map)
    (notCreated : ∀ regions, op.bootstrapRegions ≠ some (fence.key, regions)) :
    fence.PassedIn after := by
  refine ⟨lt_of_lt_of_le passed.allocated applied.nextRegionId_le, ?_⟩
  intro region stored idEq
  cases applied.origin stored with
  | kept stored => exact passed.behind region stored idEq
  | carried source isKey installed same =>
    have noBootstrap : op.bootstrapRegions = none := by
      cases created : op.bootstrapRegions with
      | none => rfl
      | some pair =>
        obtain ⟨key, regions⟩ := pair
        rw [measurementKey_of_bootstrap created] at isKey
        obtain rfl := some.inj isKey
        exact absurd created (notCreated regions)
    rw [idEq] at installed
    obtain ⟨planned, member, keyEq, plannedId, ahead⟩ :=
      applied.installed_ahead fenced.keepsIds isKey noBootstrap installed passed.allocated
    obtain ⟨old, oldStored, oldId, oldEpoch⟩ := applied.openIn member
    have before := passed.behind old (keyEq ▸ oldStored) (oldId.trans plannedId)
    rw [same.epochEq]
    exact isBehind_trans (oldEpoch ▸ before) ahead
  | edited change isEdit keyEq old oldStored oldId oldEpoch edited editEq regionEq =>
    have frame := regionEdit_frame isEdit editEq
    have sameId : old.regionId = fence.regionId := by
      rw [← idEq, regionEq]
      exact frame.1.symm
    have before := passed.behind old oldStored sameId
    have below := fenced.belowTop ⟨change.key, change.regionId, change.epoch⟩
      (by simp [fences_of_regionEdit isEdit])
    rw [regionEq]
    exact isBehind_trans (oldEpoch ▸ before) (isBehind_bumpConfVer below)

theorem Applied.passes (valid : map.Valid) (allocated : IdsAllocated map)
    (fenced : op.ReplayFenced map) (member : fence ∈ op.fences) :
    fence.PassedIn after := by
  obtain ⟨old, oldStored, oldId, oldEpoch⟩ := applied.openIn member
  have closed := (applied.fences_closed_iff valid fenced.belowTop).mpr
    fenced.keepsIds.advancesEpoch fence member
  have taken : fence.regionId < map.nextRegionId :=
    oldId ▸ allocated.below fence.key old oldStored
  refine ⟨lt_of_lt_of_le taken applied.nextRegionId_le, ?_⟩
  intro region stored idEq
  cases applied.origin stored with
  | kept stillStored =>
    have same := valid.stores_unique stillStored oldStored (idEq.trans oldId.symm)
    exact absurd ⟨region, stored, idEq, same ▸ oldEpoch⟩ closed
  | carried source isKey installed same =>
    have noBootstrap : op.bootstrapRegions = none := by
      cases created : op.bootstrapRegions with
      | none => rfl
      | some pair => simp [fences_of_bootstrap created] at member
    rw [idEq] at installed
    obtain ⟨planned, plannedMember, keyEq, plannedId, ahead⟩ :=
      applied.installed_ahead fenced.keepsIds isKey noBootstrap installed taken
    obtain ⟨other, otherStored, otherId, otherEpoch⟩ := applied.openIn plannedMember
    have sameOld := valid.stores_unique (keyEq ▸ otherStored) oldStored
      (otherId.trans (plannedId.trans oldId.symm))
    rw [same.epochEq, ← oldEpoch, ← sameOld, otherEpoch]
    exact ahead
  | edited change isEdit keyEq changed changedStored changedId changedEpoch edited editEq
      regionEq =>
      rw [fences_of_regionEdit isEdit] at member
      obtain rfl := mem_singleton.mp member
      have below := fenced.belowTop ⟨change.key, change.regionId, change.epoch⟩
        (by simp [fences_of_regionEdit isEdit])
      rw [regionEq]
      exact isBehind_bumpConfVer below

end HyperbyteDb
