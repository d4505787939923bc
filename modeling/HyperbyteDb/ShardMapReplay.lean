import HyperbyteDb.ShardEpochFencing

/-!
# Replaying a stretch of the shard map log

The shard map and the position `last_applied` are made durable separately, so a
restarted node may apply operations to a map that already contains them.  Most
of them are then refused by their fences, but bootstraps and drops carry none
and a split allocates an identifier.  This file finds a condition on the log
under which the second pass changes neither a space nor the allocator.
-/

namespace HyperbyteDb

open FallibleRuns List ShardMap ShardMapOp

/-- The maps have the same spaces and the same allocator; their versions may
differ. -/
structure SameLayout (first second : ShardMap) : Prop where
  spacesEq : first.spaces = second.spaces
  nextRegionIdEq : first.nextRegionId = second.nextRegionId

namespace SameLayout

theorem refl (map : ShardMap) : SameLayout map map := ⟨rfl, rfl⟩

theorem trans {first second third : ShardMap} (left : SameLayout first second)
    (right : SameLayout second third) : SameLayout first third :=
  ⟨left.spacesEq.trans right.spacesEq, left.nextRegionIdEq.trans right.nextRegionIdEq⟩

theorem symm {first second : ShardMap} (same : SameLayout first second) : SameLayout second first :=
  ⟨same.spacesEq.symm, same.nextRegionIdEq.symm⟩

/-- The version has no influence on what an operation does. -/
theorem applied {map other after : ShardMap} {op : ShardMapOp}
    (same : SameLayout map other) (applied : Applied map op after) :
    ∃ later, Applied other op later ∧ SameLayout after later := by
  obtain ⟨version, next, spaces⟩ := other
  obtain ⟨rfl, rfl⟩ := same
  cases applied with
  | bootstrap isBootstrap absent distinct unused covers =>
    exact ⟨_, .bootstrap isBootstrap absent distinct unused covers, rfl, rfl⟩
  | split allocatable spaceEq found epochEq inside meets regionsEq covers distinct
      globallyDistinct =>
      exact ⟨_, .split allocatable spaceEq found epochEq inside meets regionsEq covers
        distinct globallyDistinct, rfl, rfl⟩
  | merge spaceEq leftFound rightFound leftEpochEq rightEpochEq regionsEq covers
      distinct =>
      exact ⟨_, .merge spaceEq leftFound rightFound leftEpochEq rightEpochEq regionsEq
        covers distinct, rfl, rfl⟩
  | edit isEdit spaceEq found epochEq editEq =>
    exact ⟨_, .edit isEdit spaceEq found epochEq editEq, rfl, rfl⟩
  | drop => exact ⟨_, .drop, rfl, rfl⟩

theorem stepOrKeep {map other : ShardMap} (op : ShardMapOp) (same : SameLayout map other) :
    SameLayout (stepOrKeep applyShardMapOp map op) (stepOrKeep applyShardMapOp other op) := by
  cases result : applyShardMapOp map op with
  | ok after =>
    obtain ⟨later, applied, sameAfter⟩ :=
      same.applied (applyShardMapOp_eq_ok_iff.mp result)
    rw [stepOrKeep_of_ok result, stepOrKeep_of_ok (applyShardMapOp_eq_ok_iff.mpr applied)]
    exact sameAfter
  | error refusal =>
    rw [stepOrKeep_of_error result]
    cases otherResult : applyShardMapOp other op with
    | ok later =>
      obtain ⟨after, applied, -⟩ :=
        same.symm.applied (applyShardMapOp_eq_ok_iff.mp otherResult)
      rw [applyShardMapOp_eq_ok_iff.mpr applied] at result
      simp at result
    | error otherRefusal =>
      rw [stepOrKeep_of_error otherResult]
      exact same

theorem run {map other : ShardMap} (same : SameLayout map other) (ops : List ShardMapOp) :
    SameLayout (run applyShardMapOp map ops) (run applyShardMapOp other ops) :=
  GuardedRuns.run_related (fun _ _ op same => same.stepOrKeep op) same ops

end SameLayout

variable {op : ShardMapOp} {map after : ShardMap} {key : MeasurementKey}

def DropsApart (stretch : List ShardMapOp) : Prop :=
  ∀ db rp measurement, dropSpace db rp measurement ∈ stretch →
    ∀ op ∈ stretch, ∀ key regions, op.bootstrapRegions = some (key, regions) →
      dropMatches db rp measurement key = false

/-- The map shows that `op` was applied: applying it once more does nothing.  The
last case also says that its measurement is not created later in the stretch. -/
inductive Settled (stretch : List ShardMapOp) (map : ShardMap) (op : ShardMapOp) : Prop
  | created {key : MeasurementKey} {regions : List ShardRegion}
      (isBootstrap : op.bootstrapRegions = some (key, regions))
      (present : map.spaces[key]?.isSome = true)
  | dropped {db : String} {rp measurement : Option String}
      (isDrop : op = .dropSpace db rp measurement)
      (absent : ∀ key, dropMatches db rp measurement key = true → map.spaces[key]? = none)
  | passed {fence : RegionFence} (member : fence ∈ op.fences)
      (passed : fence.PassedIn map)
      (notAnew : map.spaces[fence.key]?.isSome = true ∨
        ∀ other ∈ stretch, ∀ regions, other.bootstrapRegions ≠ some (fence.key, regions))

theorem Applied.present (applied : Applied map op after) (present : map.spaces[key]?.isSome = true)
    (notDropped : ∀ db rp measurement, op = .dropSpace db rp measurement →
      dropMatches db rp measurement key = false) : after.spaces[key]?.isSome = true := by
  rcases applied.replaced_or_dropped with
    ⟨other, next, space, isKey, rfl⟩ | ⟨db, rp, measurement, isDrop, rfl⟩
  · rw [lookup_advance]
    split
    · rfl
    · exact present
  · rw [lookup_dropped, notDropped db rp measurement isDrop]
    exact present

theorem Applied.absent (applied : Applied map op after) (absent : map.spaces[key]? = none)
    (notCreated : ∀ regions, op.bootstrapRegions ≠ some (key, regions)) :
    after.spaces[key]? = none := by
  have elsewhere : ∀ (other : MeasurementKey) (next : UInt64)
      (space : MeasurementShardSpace), other ≠ key →
      (map.advance next other space).spaces[key]? = none := by
    intro other next space differ
    rw [lookup_advance, if_neg differ, absent]
  cases applied with
  | bootstrap isBootstrap =>
    refine elsewhere _ _ _ ?_
    rintro rfl
    exact notCreated _ isBootstrap
  | split allocatable spaceEq =>
    refine elsewhere _ _ _ ?_
    rintro rfl
    simp [absent] at spaceEq
  | merge spaceEq =>
    refine elsewhere _ _ _ ?_
    rintro rfl
    simp [absent] at spaceEq
  | edit isEdit spaceEq =>
    refine elsewhere _ _ _ ?_
    rintro rfl
    simp [absent] at spaceEq
  | drop =>
    rw [lookup_dropped]
    split
    · rfl
    · exact absent

theorem Applied.absent_of_bootstrap {regions : List ShardRegion} (applied : Applied map op after)
    (isBootstrap : op.bootstrapRegions = some (key, regions)) : map.spaces[key]? = none := by
  have accepted := applyShardMapOp_eq_ok_iff.mpr applied
  rw [applyShardMapOp_of_bootstrapRegions isBootstrap,
    applyBootstrapPresplit_eq_ok_iff] at accepted
  exact accepted.1

section Stretch

variable {stretch : List ShardMapOp} {map after : ShardMap} {op : ShardMapOp}

section

variable (applied : Applied map op after) (valid : map.Valid) (allocated : IdsAllocated map)
  (fenced : op.ReplayFenced map)
include applied valid allocated fenced

theorem Applied.settles_of_fence {fence : RegionFence}
    (member : fence ∈ op.fences) : Settled stretch after op := by
  obtain ⟨old, ⟨space, lookup, -⟩, -, -⟩ := applied.openIn member
  refine .passed member (applied.passes valid allocated fenced member)
    (Or.inl (applied.present (by simp [lookup]) ?_))
  rintro db rp measurement rfl
  simp [fences, regionEdit] at member

/-- An accepted operation is settled in the map it produces. -/
theorem Applied.settles : Settled stretch after op := by
  have byFence := @settles_of_fence stretch map after op applied valid allocated fenced
  cases applied with
  | bootstrap isBootstrap =>
    refine .created isBootstrap ?_
    simp
  | split => exact byFence (mem_singleton_self _)
  | merge => exact byFence mem_cons_self
  | edit isEdit =>
    rw [fences_of_regionEdit isEdit] at byFence
    exact byFence (mem_singleton_self _)
  | drop =>
    refine .dropped rfl fun key matched => ?_
    simp [lookup_dropped, matched]

end

/-- A refused operation that came late is settled where it was refused. -/
theorem ShardMapOp.StaleIn.settled (stale : op.StaleIn map) : Settled stretch map op := by
  rcases stale with ⟨key, regions, isBootstrap, present⟩ | ⟨fence, member, present, passed⟩
  · exact .created isBootstrap present
  · exact .passed member passed (Or.inl present)

theorem Settled.applied {other : ShardMapOp} (settled : Settled stretch map op)
    (apart : DropsApart stretch) (opMember : op ∈ stretch) (otherMember : other ∈ stretch)
    (applied : Applied map other after) (fenced : other.ReplayFenced map) :
    Settled stretch after op := by
  cases settled with
  | created isBootstrap present =>
    refine .created isBootstrap (applied.present present ?_)
    rintro db rp measurement rfl
    exact apart db rp measurement otherMember op opMember _ _ isBootstrap
  | @dropped db rp measurement isDrop absent =>
    refine .dropped isDrop fun key matched => applied.absent (absent key matched) ?_
    intro regions isBootstrap
    subst isDrop
    have differ := apart db rp measurement opMember other otherMember _ _ isBootstrap
    simp [matched] at differ
  | @passed fence member passed notAnew =>
    have notCreated : ∀ regions, other.bootstrapRegions ≠ some (fence.key, regions) := by
      intro regions isBootstrap
      have gone := applied.absent_of_bootstrap isBootstrap
      rcases notAnew with present | never
      · simp [gone] at present
      · exact never other otherMember regions isBootstrap
    refine .passed member (applied.passedIn fenced passed notCreated) ?_
    rcases notAnew with present | never
    · by_cases dropped : ∃ db rp measurement, other = .dropSpace db rp measurement ∧
          dropMatches db rp measurement fence.key = true
      · obtain ⟨db, rp, measurement, rfl, matched⟩ := dropped
        refine Or.inr fun creator creatorMember regions isBootstrap => ?_
        have differ :=
          apart db rp measurement otherMember creator creatorMember _ _ isBootstrap
        simp [matched] at differ
      · refine Or.inl (applied.present present fun db rp measurement isDrop => ?_)
        rw [Bool.eq_false_iff]
        exact fun matched => dropped ⟨db, rp, measurement, isDrop, matched⟩
    · exact Or.inr never

/-- Applying a settled operation once more changes nothing but the version. -/
theorem Settled.absorbed (settled : Settled stretch map op) :
    SameLayout map (stepOrKeep applyShardMapOp map op) := by
  cases result : applyShardMapOp map op with
  | error refusal =>
    rw [stepOrKeep_of_error result]
    exact .refl map
  | ok after =>
    have applied := applyShardMapOp_eq_ok_iff.mp result
    cases settled with
    | created isBootstrap present =>
      simp [applied.absent_of_bootstrap isBootstrap] at present
    | @dropped db rp measurement isDrop absent =>
      subst isDrop
      refine ⟨Std.ExtTreeMap.ext_getElem? fun key => ?_, rfl⟩
      change _ = (map.dropped db rp measurement).spaces[key]?
      rw [lookup_dropped]
      split
      · rename_i matched
        exact absent key matched
      · rfl
    | passed member passed notAnew =>
      obtain ⟨region, stored, idEq, epochEq⟩ := applied.openIn member
      have behind := passed.behind region stored idEq
      exact absurd epochEq.symm (ShardEpoch.isBehind_iff.mp behind).1

theorem ShardMapOp.ReplayStable.of_ok (accepted : applyShardMapOp map op = .ok after)
    (fenced : op.ReplayFenced map) : op.ReplayStable map := by
  simpa [ReplayStable, accepted] using fenced

/-- One operation of the stretch, accepted or refused. -/
theorem ShardMapOp.ReplayStable.step (stable : op.ReplayStable map) :
    (stepOrKeep applyShardMapOp map op = map ∧ op.StaleIn map) ∨
    (Applied map op (stepOrKeep applyShardMapOp map op) ∧ op.ReplayFenced map) := by
  unfold ReplayStable at stable
  cases result : applyShardMapOp map op with
  | ok after =>
    rw [result] at stable
    rw [stepOrKeep_of_ok result]
    exact Or.inr ⟨applyShardMapOp_eq_ok_iff.mp result, stable⟩
  | error refusal =>
    rw [result] at stable
    exact Or.inl ⟨stepOrKeep_of_error result, stable⟩

theorem settled_of_stable (apart : DropsApart stretch) (valid : map.Valid)
    (allocated : IdsAllocated map)
    (stable : GuardedRuns.Along (stepOrKeep applyShardMapOp) ShardMapOp.ReplayStable map
      stretch) : ∀ op ∈ stretch, Settled stretch (run applyShardMapOp map stretch) op := by
  have within := (GuardedRuns.along_const_iff.mpr fun op (member : op ∈ stretch) => member).and stable
  have both : ∀ op ∈ stretch, op ∈ stretch ∧
      Settled stretch (run applyShardMapOp map stretch) op := by
    refine GuardedRuns.settled_run (fun map => map.Valid ∧ IdsAllocated map) _
      (fun map op => op ∈ stretch ∧ Settled stretch map op) ?_ ?_ ?_ ⟨valid, allocated⟩
      within
    · rintro map op ⟨valid, allocated⟩ ⟨-, stable⟩
      rcases stable.step with ⟨same, -⟩ | ⟨applied, fenced⟩
      · rw [same]
        exact ⟨valid, allocated⟩
      · exact ⟨applied.valid valid, applied.idsAllocated allocated fenced.allocates⟩
    · rintro map op ⟨valid, allocated⟩ ⟨member, stable⟩
      rcases stable.step with ⟨same, stale⟩ | ⟨applied, fenced⟩
      · rw [same]
        exact ⟨member, stale.settled⟩
      · exact ⟨member, applied.settles valid allocated fenced⟩
    · rintro map other op - ⟨otherMember, stable⟩ ⟨member, settled⟩
      rcases stable.step with ⟨same, -⟩ | ⟨applied, fenced⟩
      · rw [same]
        exact ⟨member, settled⟩
      · exact ⟨member, settled.applied apart member otherMember applied fenced⟩
  exact fun op member => (both op member).2

theorem sameLayout_of_settled {ops : List ShardMapOp}
    (settled : ∀ op ∈ ops, Settled stretch map op) :
    SameLayout map (run applyShardMapOp map ops) := by
  have members : GuardedRuns.Along (stepOrKeep applyShardMapOp) (fun _ op => op ∈ ops)
      map ops := .of_forall fun _ _ member => member
  refine GuardedRuns.run_invariant (fun current op same member => ?_) (.refl map) members
  exact (settled op member).absorbed.trans (same.stepOrKeep op)

end Stretch

/-- A node whose map already contains the first `j` operations of the log and that
applies the log from `i` on ends with the spaces and the allocator of a node that
applied the log once, if the operations up to `i` allocated their identifiers, no
drop of the stretch from `i` to `j` concerns a measurement created in it, and each
operation of the stretch was stable. -/
theorem replay_sameLayout (log : List ShardMapOp) {i j : Nat} (ordered : i ≤ j)
    (allocating : AllocatingRun ShardMap.default (log.take i))
    (apart : DropsApart ((log.take j).drop i))
    (stable : GuardedRuns.Along (stepOrKeep applyShardMapOp) ShardMapOp.ReplayStable
      (run applyShardMapOp ShardMap.default (log.take i)) ((log.take j).drop i)) :
    SameLayout (run applyShardMapOp (run applyShardMapOp ShardMap.default (log.take j))
        (log.drop i)) (run applyShardMapOp ShardMap.default log) := by
  have allocated : IdsAllocated (run applyShardMapOp ShardMap.default (log.take i)) :=
    run_invariant_along (fun map op after before allocates accepted =>
      (applyShardMapOp_eq_ok_iff.mp accepted).idsAllocated before allocates)
      idsAllocated_default allocating
  have takeEq : log.take j = log.take i ++ (log.take j).drop i := by
    have parts := (log.take j).take_append_drop i
    rwa [take_take, Nat.min_eq_left ordered, eq_comm] at parts
  have dropEq : log.drop i = (log.take j).drop i ++ log.drop j := by
    have parts := (log.drop i).take_append_drop (j - i)
    rwa [drop_drop, Nat.add_sub_cancel' ordered, ← drop_take, eq_comm] at parts
  have firstPass : run applyShardMapOp ShardMap.default (log.take j) =
      run applyShardMapOp (run applyShardMapOp ShardMap.default (log.take i))
        ((log.take j).drop i) := by
    rw [← run_append, ← takeEq]
  have settled := settled_of_stable apart (valid_run (log.take i)) allocated stable
  rw [← firstPass] at settled
  have secondPass := (sameLayout_of_settled settled).run (log.drop j)
  rw [← run_append, take_append_drop, ← run_append, ← dropEq] at secondPass
  exact secondPass.symm

/-- A node that lost its position after creating and splitting a measurement. -/
theorem sampleSplitRun_replay_sameLayout :
    SameLayout (run applyShardMapOp (run applyShardMapOp ShardMap.default sampleSplitRun)
        (sampleSplitRun ++ [.movePeer sampleKey 1 1 2 ⟨0, 1⟩]))
      (run applyShardMapOp ShardMap.default
        (sampleSplitRun ++ [.movePeer sampleKey 1 1 2 ⟨0, 1⟩])) := by
  have stable : GuardedRuns.Along (stepOrKeep applyShardMapOp) ShardMapOp.ReplayStable
      ShardMap.default sampleSplitRun := by
    refine And.intro (.of_ok rfl ⟨?_, trivial, ?_⟩)
      (And.intro (.of_ok rfl ⟨?_, ⟨rfl, by decide⟩, by decide⟩) trivial)
    · change (1 : UInt64) < UInt64.maxValue
      decide
    · simp [fences, regionEdit]
    · change (1 : UInt64) < 2 ∧ (2 : UInt64) < UInt64.maxValue
      decide
  exact @replay_sameLayout
    (sampleSplitRun ++ [ShardMapOp.movePeer sampleKey 1 1 2 ⟨0, 1⟩]) 0 2
    (by decide) trivial (by simp [DropsApart, sampleSplitRun]) stable

/-- A measurement is dropped, created again and split.  Applied twice, the drop
removes the new regions and the split allocates another identifier. -/
theorem replayed_drop_changes_ids : (run applyShardMapOp ShardMap.default
      (.dropSpace "db" none none :: sampleSplitRun)).regionIds = [1, 2] ∧ (run applyShardMapOp
      (run applyShardMapOp ShardMap.default (.dropSpace "db" none none :: sampleSplitRun))
      (.dropSpace "db" none none :: sampleSplitRun)).regionIds = [1, 3] ∧
    (run applyShardMapOp ShardMap.default
      (.dropSpace "db" none none :: sampleSplitRun)).nextRegionId = 3 ∧ (run applyShardMapOp
      (run applyShardMapOp ShardMap.default (.dropSpace "db" none none :: sampleSplitRun))
      (.dropSpace "db" none none :: sampleSplitRun)).nextRegionId = 4 := by
  decide +kernel

end HyperbyteDb
