import HyperbyteDb.HintRecords
import HyperbyteDb.ShardRegionMembership
import HyperbyteDb.TopOfUnions

/-!
# Placements

The peers of a region are the candidates with the greatest hashes.  Another candidate takes one
place in the order of the candidates and leaves the order of the others as it is.

A region is moved to its target placement one committed operation at a time: missing members
are added, surplus ones removed, the wanted primary promoted, and the region is read again
after each step.
-/

namespace HyperbyteDb

open List TopOfUnions

def golden : UInt64 := 0x9e3779b97f4a7c15

def mix (z : UInt64) : UInt64 :=
  let z := (z ^^^ (z >>> 30)) * 0xbf58476d1ce4e5b9
  let z := (z ^^^ (z >>> 27)) * 0x94d049bb133111eb
  z ^^^ (z >>> 31)

def mixBytes (seed : UInt64) (bytes : List UInt8) : UInt64 :=
  bytes.foldl (fun acc byte => mix (acc + byte.toUInt64 + golden)) seed

/-- Score for placing the region of a measurement that starts at `start` on a node. -/
def placementHash (key : MeasurementKey) (start nodeId : UInt64) : UInt64 :=
  let acc := mixBytes golden (utf8Bytes key.db)
  let acc := mixBytes acc (utf8Bytes key.rp)
  let acc := mixBytes acc (utf8Bytes key.measurement)
  let acc := mix (acc + start + golden)
  mix (acc + nodeId + golden)

/-- Descending by score, then by node. -/
def scoreRank (scored : UInt64 × UInt64) : Int ×ₗ Int :=
  toLex (-scored.1.toNat, -scored.2.toNat)

/-- Target peers of a region, the primary first. -/
def targetPlacement (key : MeasurementKey) (start : UInt64) (candidates : List UInt64)
    (rf : Nat) : List UInt64 :=
  ((ranked scoreRank (candidates.map fun n => (placementHash key start n, n))).take rf).map Prod.snd

variable (key : MeasurementKey) (start : UInt64)

theorem scoreRank_injective : Function.Injective scoreRank := by
  rintro ⟨hash, node⟩ ⟨otherHash, otherNode⟩ same
  have hashes := congrArg (fun rank => (ofLex rank).1) same
  have nodes := congrArg (fun rank => (ofLex rank).2) same
  simp only [scoreRank, ofLex_toLex, Int.neg_inj, Int.natCast_inj, UInt64.toNat_inj] at hashes nodes
  rw [hashes, nodes]

theorem targetPlacement_eq_of_perm {candidates others : List UInt64} (distinct : candidates.Nodup)
    (perm : candidates.Perm others) (rf : Nat) :
    targetPlacement key start candidates rf = targetPlacement key start others rf := by
  have apart : (candidates.map fun n => (placementHash key start n, n)).Pairwise
      fun first second => scoreRank first ≠ scoreRank second := by
    refine pairwise_map.mpr (distinct.imp fun different same => different ?_)
    exact congrArg Prod.snd (scoreRank_injective same)
  rw [targetPlacement, targetPlacement, ranked_eq_of_perm apart (perm.map _)]

/-- One more candidate comes between those before and those after it, or it is too late in the
order to count. -/
theorem targetPlacement_cons {node : UInt64} {candidates : List UInt64}
    (absent : node ∉ candidates) (rf : Nat) :
    (targetPlacement key start (node :: candidates) rf = targetPlacement key start candidates rf ∧
        node ∉ targetPlacement key start candidates rf) ∨
      ∃ before after : List UInt64, ∃ count, node ∉ before ∧
        targetPlacement key start (node :: candidates) rf = before ++ node :: after.take count ∧
        targetPlacement key start candidates rf = before ++ after.take (count + 1) := by
  obtain ⟨before, after, withNode, without⟩ := ranked_cons scoreRank
    (placementHash key start node, node) (candidates.map fun n => (placementHash key start n, n))
  have new : node ∉ before.map Prod.snd ++ after.map Prod.snd := by
    rw [← map_append, ← without]
    intro member
    refine absent ?_
    simpa using ((perm_ranked _ _).map Prod.snd).mem_iff.mp member
  rw [targetPlacement, targetPlacement, map_cons, withNode, without]
  by_cases late : rf ≤ before.length
  · left
    rw [take_append_of_le_length late, take_append_of_le_length late]
    refine ⟨rfl, fun member => new (mem_append_left _ ?_)⟩
    exact map_subset _ (take_subset _ _) member
  · right
    obtain ⟨count, rfl⟩ : ∃ count, rf = before.length + (count + 1) := ⟨rf - before.length - 1, by omega⟩
    refine ⟨before.map Prod.snd, after.map Prod.snd, count,
      fun member => new (mem_append_left _ member), ?_, ?_⟩
    · rw [take_length_add_append, take_succ_cons, map_append, map_cons, map_take]
    · rw [take_length_add_append, map_append, map_take]

/-- Target placements do not depend on the order of the candidates and change as little as they
can when a candidate leaves or joins. -/
theorem targetPlacement_minimalDisruption (rf : Nat) {candidates : List UInt64}
    (distinct : candidates.Nodup) : (∀ others, candidates.Perm others →
      targetPlacement key start others rf = targetPlacement key start candidates rf) ∧
    (∀ node ∈ candidates, (node ∉ targetPlacement key start candidates rf →
        targetPlacement key start (candidates.erase node) rf =
          targetPlacement key start candidates rf) ∧
      (node ∈ targetPlacement key start candidates rf →
        ∃ added : List UInt64, added.length ≤ 1 ∧
          targetPlacement key start (candidates.erase node) rf =
            (targetPlacement key start candidates rf).erase node ++ added)) ∧
    ∀ node ∉ candidates,
      targetPlacement key start (node :: candidates) rf = targetPlacement key start candidates rf ∨
      ∃ before after, targetPlacement key start candidates rf = before ++ after ∧
        (targetPlacement key start (node :: candidates) rf = before ++ node :: after ∨
          targetPlacement key start (node :: candidates) rf = before ++ node :: after.dropLast) := by
  refine ⟨fun others perm => (targetPlacement_eq_of_perm key start distinct perm rf).symm,
    fun node member => ?_, fun node absent => ?_⟩
  · have absent : node ∉ candidates.erase node := distinct.not_mem_erase
    rw [targetPlacement_eq_of_perm key start distinct (perm_cons_erase member) rf]
    obtain ⟨same, unused⟩ | ⟨before, after, count, new, withNode, without⟩ :=
      targetPlacement_cons key start absent rf
    · rw [same]
      exact ⟨fun _ => rfl, fun used => absurd used unused⟩
    · rw [withNode, without, erase_append_right _ new, erase_cons_head]
      refine ⟨fun unused => absurd (by simp) unused, fun _ => ?_⟩
      refine ⟨(after.drop count).take 1, length_take_le _ _, ?_⟩
      rw [append_assoc, ← take_add]
  · obtain ⟨same, -⟩ | ⟨before, after, count, -, withNode, without⟩ :=
      targetPlacement_cons key start absent rf
    · exact .inl same
    · refine .inr ⟨before, after.take (count + 1), without, ?_⟩
      rw [withNode]
      by_cases few : after.length ≤ count
      · left
        rw [take_of_length_le few, take_of_length_le (by omega)]
      · right
        rw [dropLast_eq_take, length_take, min_eq_left (by omega), Nat.add_sub_cancel,
          take_take, min_eq_left (Nat.le_succ count)]

/-- Of three nodes two hold the region, in whatever order the nodes come. -/
theorem targetPlacement_reversed :
    targetPlacement ⟨"db", "rp", "cpu"⟩ 0 [3, 2, 1] 2 =
      targetPlacement ⟨"db", "rp", "cpu"⟩ 0 [1, 2, 3] 2 :=
  (targetPlacement_minimalDisruption _ 0 2 (by decide)).1 [3, 2, 1] (by decide)

end HyperbyteDb

/-! ## Convergence of placements -/

namespace HyperbyteDb

open List Option

/-- One mutation that moves a region toward its target placement. -/
inductive PlacementStep where
  | add (peer : UInt64)
  | remove (peer : UInt64)
  | promote (peer : UInt64)
deriving DecidableEq

def nextPlacementStep (region : ShardRegion) (target : List UInt64) : Option PlacementStep :=
  if region.transferOutstanding then none
  else
    match target with
    | [] => none
    | wantPrimary :: _ =>
      match target.find? fun peer => !region.peers.contains peer with
      | some missing => some (.add missing)
      | none =>
        if target.any fun peer => region.stagingPeers.contains peer then none
        else
          match region.peers.find? fun peer =>
              !target.contains peer && peer != region.primary with
          | some extra => some (.remove extra)
          | none =>
            if region.primary ≠ wantPrimary then some (.promote wantPrimary)
            else (region.peers.find? fun peer => !target.contains peer).map .remove

namespace PlacementStep

def op (key : MeasurementKey) (region : ShardRegion) : PlacementStep → ShardMapOp
  | .add peer => .addPeer key region.regionId peer region.epoch false
  | .remove peer => .removePeer key region.regionId peer region.epoch
  | .promote peer => .transferPrimary key region.regionId peer region.epoch

def edit (regionId : UInt64) : PlacementStep → ShardRegion → Except ShardMapApplyError ShardRegion
  | .add peer => addPeer peer false
  | .remove peer => removePeer peer
  | .promote peer => transferPrimary regionId peer

end PlacementStep

/-- The region that the map holds under an identifier. -/
def ShardMap.findRegion (map : ShardMap) (key : MeasurementKey) (regionId : UInt64) :
    Option ShardRegion :=
  (map.spaces[key]?).bind fun space => space.regions.find? fun region => region.regionId == regionId

def placementStep (key : MeasurementKey) (regionId : UInt64) (target : List UInt64)
    (map : ShardMap) : Option (Except ShardMapApplyError ShardMap) :=
  (map.findRegion key regionId).bind fun region =>
    (nextPlacementStep region target).map fun step => applyShardMapOp map (step.op key region)

/-! ## One step of a region -/

/-- A region that convergence may work on. -/
structure SettledRegion (region : ShardRegion) : Prop where
  wellFormed : region.WellFormed
  noDebt : region.transferOutstanding = false
  noLearners : region.stagingPeers = []

variable (region : ShardRegion) (target : List UInt64)

def AtTarget : Prop :=
  (∀ peer, peer ∈ region.peers ↔ peer ∈ target) ∧ target.head? = some region.primary

/-- What is still to be done: members to add, members to remove, and the primary. -/
def placementDistance : Nat :=
  (target.toFinset \ region.peers.toFinset).card +
    (region.peers.toFinset \ target.toFinset).card +
    if target.head? = some region.primary then 0 else 1

variable {region : ShardRegion} {target : List UInt64}

theorem AtTarget.placementDistance_eq (atTarget : AtTarget region target) :
    placementDistance region target = 0 := by
  have sameMembers : region.peers.toFinset = target.toFinset := by
    ext peer
    simpa using atTarget.1 peer
  simp [placementDistance, sameMembers, atTarget.2]

/-- The steps that a settled region can take, with what is known when each is taken. -/
inductive Advances (region : ShardRegion) (target : List UInt64) : PlacementStep → Prop
  | add {peer : UInt64} (wanted : peer ∈ target) (absent : peer ∉ region.peers) :
      Advances region target (.add peer)
  | remove {peer : UInt64} (complete : target ⊆ region.peers) (member : peer ∈ region.peers)
      (surplus : peer ∉ target) (notPrimary : peer ≠ region.primary) :
      Advances region target (.remove peer)
  | promote {peer : UInt64} (member : peer ∈ region.peers) (first : target.head? = some peer)
      (other : region.primary ≠ peer) : Advances region target (.promote peer)

theorem SettledRegion.nextPlacementStep_cases (settled : SettledRegion region)
    (nonempty : target ≠ []) : (nextPlacementStep region target = none ∧ AtTarget region target) ∨
      ∃ step, nextPlacementStep region target = some step ∧ Advances region target step := by
  obtain ⟨wantPrimary, rest, rfl⟩ := exists_cons_of_ne_nil nonempty
  unfold nextPlacementStep
  rw [settled.noDebt, settled.noLearners]
  cases missing : (wantPrimary :: rest).find? fun peer => !region.peers.contains peer with
  | some peer =>
    refine .inr ⟨.add peer, by simp, .add (mem_of_find?_eq_some missing) ?_⟩
    simpa using find?_some missing
  | none =>
    have complete : wantPrimary :: rest ⊆ region.peers := by
      intro peer member
      simpa using find?_eq_none.mp missing peer member
    cases extra : region.peers.find? fun peer =>
        !(wantPrimary :: rest).contains peer && peer != region.primary with
    | some peer =>
      have known := find?_some extra
      simp only [Bool.and_eq_true, Bool.not_eq_true', contains_eq_mem,
        decide_eq_false_iff_not, bne_iff_ne] at known
      exact .inr ⟨.remove peer, by simp,
        .remove complete (mem_of_find?_eq_some extra) known.1 known.2⟩
    | none =>
      by_cases first : region.primary = wantPrimary
      · have members : ∀ peer ∈ region.peers, peer ∈ wantPrimary :: rest := by
          intro peer member
          have known := find?_eq_none.mp extra peer member
          grind
        have done : region.peers.find? (fun peer => !(wantPrimary :: rest).contains peer) =
            none := by
          rw [find?_eq_none]
          intro peer member
          have wanted := members peer member
          simpa [or_iff_not_imp_left] using wanted
        refine .inl ⟨?_, fun peer => ⟨members peer, fun wanted => complete wanted⟩, ?_⟩
        · simp only [done, first]
          simp
        · rw [first, head?_cons]
      · exact .inr ⟨.promote wantPrimary, by simp [first], .promote (complete (by simp)) rfl first⟩

section Distance

variable {region edited : ShardRegion} {target : List UInt64} {peer : UInt64}

/-- A member fewer is missing. -/
theorem placementDistance_add (wanted : peer ∈ target) (absent : peer ∉ region.peers)
    (peersEq : edited.peers = region.peers ++ [peer])
    (primaryEq : edited.primary = region.primary) :
    placementDistance edited target < placementDistance region target := by
  have grown : edited.peers.toFinset = insert peer region.peers.toFinset := by
    simp [peersEq]
  have missing : peer ∈ target.toFinset \ region.peers.toFinset := by simp [wanted, absent]
  unfold placementDistance
  rw [primaryEq, grown, Finset.insert_sdiff_of_mem _ (by simpa using wanted), Finset.sdiff_insert]
  have fewer := Finset.card_erase_lt_of_mem missing
  omega

theorem placementDistance_remove (member : peer ∈ region.peers) (surplus : peer ∉ target)
    (peersEq : edited.peers = region.peers.filter (· != peer))
    (primaryEq : edited.primary = region.primary) :
    placementDistance edited target < placementDistance region target := by
  have shrunk : edited.peers.toFinset = region.peers.toFinset.erase peer := by
    ext other
    simp [peersEq, and_comm]
  have missing : target.toFinset \ edited.peers.toFinset =
      target.toFinset \ region.peers.toFinset := by
    rw [shrunk]
    ext other
    grind [List.mem_toFinset]
  have left : peer ∈ region.peers.toFinset \ target.toFinset := by simp [member, surplus]
  unfold placementDistance
  rw [primaryEq, missing, shrunk, Finset.erase_sdiff_comm]
  have fewer := Finset.card_erase_lt_of_mem left
  omega

theorem placementDistance_promote (first : target.head? = some peer)
    (other : region.primary ≠ peer) (peersEq : edited.peers = region.peers)
    (primaryEq : edited.primary = peer) :
    placementDistance edited target < placementDistance region target := by
  unfold placementDistance
  rw [peersEq, primaryEq, first, if_pos rfl, if_neg (by simpa using other.symm)]
  omega

end Distance

/-- A step is accepted, leaves the region settled and nearer to the target, and never takes
more members than the target can spare. -/
theorem SettledRegion.edit {step : PlacementStep} (settled : SettledRegion region)
    (distinct : target.Nodup) (advances : Advances region target step) :
    ∃ edited, step.edit region.regionId region = .ok edited ∧ SettledRegion edited ∧
      placementDistance edited target < placementDistance region target ∧
      min region.peers.length target.length ≤ edited.peers.length := by
  cases advances with
  | @add peer wanted absent =>
    obtain ⟨edited, accepted⟩ : ∃ edited, addPeer peer false region = .ok edited :=
      ⟨_, addPeer_eq_ok_iff.mpr ⟨settled.noDebt, absent, rfl⟩⟩
    have wellFormed := settled.wellFormed.addPeer accepted
    obtain ⟨-, -, rfl⟩ := addPeer_eq_ok_iff.mp accepted
    refine ⟨_, accepted, ⟨wellFormed, settled.noDebt, settled.noLearners⟩,
      placementDistance_add wanted absent rfl rfl, ?_⟩
    simp
  | @remove peer complete member surplus notPrimary =>
    have several : 1 < region.peers.length := by
      by_contra few
      obtain ⟨only, single⟩ := length_eq_one_iff.mp
        (by have := length_pos_of_mem member; omega : region.peers.length = 1)
      have primaryMember := settled.wellFormed.primaryMember
      rw [single, mem_singleton] at member primaryMember
      exact notPrimary (member.trans primaryMember.symm)
    obtain ⟨edited, accepted⟩ : ∃ edited, removePeer peer region = .ok edited :=
      ⟨_, removePeer_eq_ok_iff.mpr ⟨settled.noDebt, member, notPrimary.symm, several,
        ⟨region.primary, settled.wellFormed.primaryMember, notPrimary.symm,
          settled.wellFormed.isServingPeer_primary⟩, rfl⟩⟩
    have wellFormed := settled.wellFormed.removePeer accepted
    obtain ⟨-, -, -, -, -, rfl⟩ := removePeer_eq_ok_iff.mp accepted
    refine ⟨_, accepted, ⟨wellFormed, settled.noDebt, by simp [settled.noLearners]⟩,
      placementDistance_remove member surplus rfl rfl, ?_⟩
    -- All members of the target are among those that stay.
    have stays : target ⊆ region.peers.filter (· != peer) := by
      intro other wanted
      rw [mem_filter, bne_iff_ne]
      exact ⟨complete wanted, fun same => surplus (same ▸ wanted)⟩
    exact (min_le_right _ _).trans (distinct.subperm stays).length_le
  | @promote peer member first other =>
    obtain ⟨edited, accepted⟩ : ∃ edited,
        transferPrimary region.regionId peer region = .ok edited :=
      ⟨_, transferPrimary_eq_ok_iff.mpr ⟨by simp [settled.noLearners], member, rfl⟩⟩
    have wellFormed := settled.wellFormed.transferPrimary accepted
    obtain ⟨-, -, rfl⟩ := transferPrimary_eq_ok_iff.mp accepted
    exact ⟨_, accepted, ⟨wellFormed, settled.noDebt, settled.noLearners⟩,
      placementDistance_promote first other rfl rfl, min_le_left _ _⟩

/-! ## Runs of the map -/

def HoldsRegion (map : ShardMap) (key : MeasurementKey) (region : ShardRegion) : Prop :=
  ∃ space, map.spaces[key]? = some space ∧ (space.regions.map (·.regionId)).Nodup ∧
    region ∈ space.regions

variable {map : ShardMap} {key : MeasurementKey}

theorem HoldsRegion.findRegion_eq
    (holds : HoldsRegion map key region) : map.findRegion key region.regionId = some region := by
  obtain ⟨space, spaceEq, distinct, member⟩ := holds
  obtain ⟨front, back, found⟩ := FirstWithId.of_mem member distinct
  have skipped : front.find? (fun other => other.regionId == region.regionId) = none := by
    rw [find?_eq_none]
    intro other earlier
    simpa using found.before other earlier
  rw [ShardMap.findRegion, spaceEq, bind_some, found.regionsEq, find?_append, skipped]
  simp

theorem PlacementStep.regionEdit_op (key : MeasurementKey) (step : PlacementStep) :
    ∃ operation, (step.op key region).regionEdit =
      some ⟨key, region.regionId, region.epoch, operation, step.edit region.regionId⟩ := by
  cases step <;> exact ⟨_, rfl⟩

theorem HoldsRegion.apply {edited : ShardRegion}
    {step : PlacementStep} (holds : HoldsRegion map key region)
    (accepted : step.edit region.regionId region = .ok edited) :
    ∃ after, applyShardMapOp map (step.op key region) = .ok after ∧
      HoldsRegion after key { edited with epoch := region.epoch.bumpConfVer } ∧
      edited.regionId = region.regionId := by
  obtain ⟨space, spaceEq, distinct, member⟩ := holds
  obtain ⟨front, back, found⟩ := FirstWithId.of_mem member distinct
  obtain ⟨operation, isEdit⟩ := PlacementStep.regionEdit_op key step
  have sameId := (ShardMapOp.regionEdit_frame isEdit accepted).1
  refine ⟨_, applyShardMapOp_eq_ok_iff.mpr (.edit isEdit spaceEq found rfl accepted),
    ⟨⟨space.key, sortByStart (front ++ { edited with epoch := region.epoch.bumpConfVer } :: back)⟩,
      by simp, ?_, by simp⟩, sameId⟩
  rw [((perm_sortByStart _).map _).nodup_iff]
  rw [found.regionsEq] at distinct
  simpa [sameId] using distinct

def PlacementMove (key : MeasurementKey) (regionId : UInt64) (target : List UInt64)
    (map after : ShardMap) : Prop :=
  placementStep key regionId target map = some (.ok after)

structure Converging (key : MeasurementKey) (regionId : UInt64) (least : Nat) (map : ShardMap)
    (region : ShardRegion) : Prop where
  holds : HoldsRegion map key region
  idEq : region.regionId = regionId
  settled : SettledRegion region
  enough : least ≤ region.peers.length

namespace Converging

variable {regionId : UInt64} {target : List UInt64} {least : Nat} {region : ShardRegion}

variable (converging : Converging key regionId least map region)
include converging

theorem placementStep_eq :
    placementStep key regionId target map = (nextPlacementStep region target).map fun step =>
        applyShardMapOp map (step.op key region) := by
  have found := converging.holds.findRegion_eq
  rw [converging.idEq] at found
  rw [placementStep, found, bind_some]

section

variable (nonempty : target ≠ []) (distinct : target.Nodup) (small : least ≤ target.length)
include nonempty distinct small

theorem step : (placementStep key regionId target map = none ∧ AtTarget region target) ∨
      ∃ after edited, PlacementMove key regionId target map after ∧
        Converging key regionId least after edited ∧
        placementDistance edited target < placementDistance region target := by
  have settled := converging.settled
  obtain ⟨done, atTarget⟩ | ⟨step, next, advances⟩ := settled.nextPlacementStep_cases nonempty
  · left
    rw [converging.placementStep_eq, done]
    exact ⟨rfl, atTarget⟩
  · right
    obtain ⟨edited, accepted, stillSettled, nearer, enough⟩ := settled.edit distinct advances
    obtain ⟨after, applied, holds, sameId⟩ := converging.holds.apply accepted
    refine ⟨after, _, ?_, ⟨holds, sameId.trans converging.idEq, ?_, ?_⟩, nearer⟩
    · rw [PlacementMove, converging.placementStep_eq, next, map_some, applied]
    · exact ⟨stillSettled.wellFormed.congr rfl rfl rfl, stillSettled.noDebt,
        stillSettled.noLearners⟩
    · exact (le_min converging.enough small).trans enough

theorem reached {later : ShardMap}
    (run : Relation.ReflTransGen (PlacementMove key regionId target) map later) :
    ∃ current, Converging key regionId least later current := by
  induction run with
  | refl => exact ⟨region, converging⟩
  | tail earlier move ih =>
    obtain ⟨current, converging⟩ := ih
    obtain ⟨done, -⟩ | ⟨after, edited, next, stays, -⟩ :=
      converging.step nonempty distinct small
    · rw [PlacementMove, done] at move
      cases move
    · obtain rfl := Except.ok.inj (some.inj (move.symm.trans next))
      exact ⟨edited, stays⟩

theorem terminates : ∃ final, Relation.ReflTransGen (PlacementMove key regionId target) map final ∧
      placementStep key regionId target final = none := by
  -- Each step makes the distance to the target smaller.
  induction distance : placementDistance region target using Nat.strong_induction_on
    generalizing map region with
  | _ distance ih =>
    subst distance
    obtain ⟨done, -⟩ | ⟨after, edited, move, stays, nearer⟩ :=
      converging.step nonempty distinct small
    · exact ⟨map, .refl, done⟩
    · obtain ⟨final, run, done⟩ := ih _ nearer stays rfl
      exact ⟨final, run.head move, done⟩

end

end Converging

/-- Along every run of placement steps no operation is rejected, the region keeps enough
members and its primary, and nothing is left to do exactly at the target; and the run ends. -/
theorem placement_converges {map : ShardMap} {key : MeasurementKey} {region : ShardRegion}
    {target : List UInt64} (holds : HoldsRegion map key region)
    (wellFormed : region.WellFormed) (noDebt : region.transferOutstanding = false)
    (noLearners : region.stagingPeers = []) (nonempty : target ≠ []) (distinct : target.Nodup) :
    (∀ later, Relation.ReflTransGen (PlacementMove key region.regionId target) map later →
      ∃ current, later.findRegion key region.regionId = some current ∧
        (∀ error, placementStep key region.regionId target later ≠ some (.error error)) ∧
        (placementStep key region.regionId target later = none ↔ AtTarget current target) ∧
        min region.peers.length target.length ≤ current.peers.length ∧
        current.primary ∈ current.peers ∧
        nextPlacementStep current target ≠ some (.remove current.primary)) ∧
      ∃ final, Relation.ReflTransGen (PlacementMove key region.regionId target) map final ∧
        placementStep key region.regionId target final = none := by
  have small := min_le_right region.peers.length target.length
  have converging : Converging key region.regionId (min region.peers.length target.length) map
      region := ⟨holds, rfl, ⟨wellFormed, noDebt, noLearners⟩, min_le_left _ _⟩
  refine ⟨fun later run => ?_, converging.terminates nonempty distinct small⟩
  obtain ⟨current, stays⟩ := converging.reached nonempty distinct small run
  have found := stays.holds.findRegion_eq
  rw [stays.idEq] at found
  refine ⟨current, found, ?_, ?_, stays.enough, stays.settled.wellFormed.primaryMember, ?_⟩
  · intro error rejected
    obtain ⟨done, -⟩ | ⟨after, edited, move, -⟩ := stays.step nonempty distinct small
    · rw [done] at rejected
      cases rejected
    · rw [PlacementMove, rejected] at move
      cases move
  · obtain ⟨done, atTarget⟩ | ⟨after, edited, move, -, nearer⟩ :=
      stays.step nonempty distinct small
    · exact iff_of_true done atTarget
    · refine iff_of_false (fun done => ?_) fun atTarget => ?_
      · rw [PlacementMove, done] at move
        cases move
      · rw [atTarget.placementDistance_eq] at nearer
        exact Nat.not_lt_zero _ nearer
  · intro removed
    obtain ⟨done, -⟩ | ⟨step, next, advances⟩ := stays.settled.nextPlacementStep_cases nonempty
    · rw [done] at removed
      cases removed
    · obtain rfl := some.inj (removed.symm.trans next)
      cases advances with
      | remove complete member surplus notPrimary => exact notPrimary rfl

/-- A region with two members that may lose its primary. -/
def movingRegion : ShardRegion where
  regionId := 7
  start := 0
  end_ := 100
  epoch := {}
  peers := [1, 2]
  primary := 1

def movingMap : ShardMap where
  mapVersion := 1
  nextRegionId := 8
  spaces := (∅ : Std.ExtTreeMap MeasurementKey MeasurementShardSpace).insert
    ⟨"db", "autogen", "cpu"⟩ ⟨⟨"db", "autogen", "cpu"⟩, [movingRegion]⟩

theorem movingMap_holds : HoldsRegion movingMap ⟨"db", "autogen", "cpu"⟩ movingRegion :=
  ⟨⟨⟨"db", "autogen", "cpu"⟩, [movingRegion]⟩, by simp [movingMap], by simp, by simp⟩

/-- The region comes to have two members, none of them its old primary. -/
theorem movingRegion_converges :
    movingRegion.WellFormed ∧
      ∃ final, Relation.ReflTransGen
          (PlacementMove ⟨"db", "autogen", "cpu"⟩ 7 [3, 2]) movingMap final ∧
        placementStep ⟨"db", "autogen", "cpu"⟩ 7 [3, 2] final = none := by
  have wellFormed : movingRegion.WellFormed := by decide
  exact ⟨wellFormed,
    (placement_converges movingMap_holds wellFormed rfl rfl (by decide) (by decide)).2⟩

end HyperbyteDb
