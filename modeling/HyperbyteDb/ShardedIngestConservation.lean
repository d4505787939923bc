import HyperbyteDb.ShardedIngest

/-!
# An acknowledged sharded write has left no point behind

The partition puts every point of a batch into one bucket.
-/

namespace HyperbyteDb

open ByteReaders List Std

def PointBuckets.points (buckets : PointBuckets) : List Point :=
  buckets.localPoints.toList.flatMap Prod.snd ++ buckets.forward.toList.flatMap Prod.snd

variable {point : Point}

variable {points : List Point}

variable {db rp : String}

section Partition

variable {service : ShardWriteService} {selfId : UInt64} {map : ShardMap}

variable {placed : PointBuckets} {cache : ShardLocationCache}

theorem placePoints_perm {buckets : PointBuckets}
    (routed : (service.placePoints selfId map db rp buckets cache points).1 = .ok placed) :
    placed.points.Perm (buckets.points ++ points) := by
  fun_induction ShardWriteService.placePoints service selfId map db rp buckets cache points with
  | case1 =>
    cases routed
    simp
  | case2 => cases routed
  | case3 buckets _ point rest _ route _ _ _ ih =>
    refine (ih routed).trans ?_
    have pushed := KeyedBatches.values_push_perm buckets.localPoints route.regionId point
    unfold PointBuckets.points
    refine (pushed.append_right _).append_right rest |>.trans ?_
    simp only [append_assoc, singleton_append]
    exact .append_left _ perm_middle.symm
  | case4 buckets _ point rest _ route _ _ _ ih =>
    refine (ih routed).trans ?_
    have pushed := KeyedBatches.values_push_perm buckets.forward route.regionId point
    unfold PointBuckets.points
    refine (pushed.append_left _).append_right rest |>.trans ?_
    simp only [append_assoc]
    exact .refl _

theorem mem_points_of_partition
    (routed : (service.partitionPoints selfId map cache db rp points).1 = .ok placed)
    (member : point ∈ points) : point ∈ placed.points := by
  unfold ShardWriteService.partitionPoints at routed
  split at routed
  · cases routed
  · exact (placePoints_perm routed).symm.subset (mem_append_right _ member)

end Partition

def ForwardEntry.Holds (entry : ForwardEntry) (wire : PointWire) (point : Point) : Prop :=
  ∃ points, point ∈ points ∧
    ∀ limit, points.length ≤ limit → wire.decodePointsFrames limit entry.body = .ok points

theorem PointWire.encodeFrames_decodes {wire : PointWire} {lists : List (List Point)}
    {body : List UInt8} (encoded : wire.encodeFrames lists = .ok body) {limit : Nat}
    (fits : lists.flatten.length ≤ limit) :
    wire.decodePointsFrames limit body = .ok lists.flatten := by
  have decodes : ∀ out : List Point, out.length + lists.flatten.length ≤ limit →
      wire.decodeFrames limit out body = .ok (out ++ lists.flatten) := by
    clear fits
    fun_induction PointWire.encodeFrames wire lists generalizing body with
    | case1 =>
      cases encoded
      simp [PointWire.decodeFrames]
    | case4 points lists frame here rest others ih =>
      cases encoded
      intro out fits
      rw [List.flatten_cons, List.length_append] at fits
      rw [decodeFrames_frame here, if_neg (by omega),
        ih others _ (by rw [List.length_append]; omega), List.flatten_cons, List.append_assoc]
    | _ => cases encoded
  exact decodes [] (by simpa using fits)

variable {held : Option ForwardEntry}

variable {ingestion : PeerIngestionService} {precision : Option String}

namespace PeerIngestionService

variable
  {forward : ExtTreeMap UInt64 (List Point)}

variable {queue : Option QueueViews} {results after : RegionResults}

variable {entry : ForwardEntry} {regionId : UInt64}

theorem holds_of_enqueueForwards {view : QueueView} {notBeforeMs : Nat}
    (stored : ingestion.enqueueForwards db rp precision view forward notBeforeMs = some entry)
    (bucket : forward[regionId]? = some points)
    (member : point ∈ points) : entry.Holds ingestion.service.wire point := by
  unfold enqueueForwards at stored
  split at stored
  next body encoded _ =>
    cases stored
    refine ⟨(forward.toList.map Prod.snd).flatten, ?_, fun limit fits =>
      PointWire.encodeFrames_decodes encoded fits⟩
    exact mem_flatten.mpr ⟨points, mem_map.mpr
      ⟨(regionId, points), ExtTreeMap.mem_toList_iff_getElem?_eq_some.mpr bucket, rfl⟩,
      member⟩
  next => cases stored

/-- One result for each region, and the points of a region that succeeded were
answered with success. -/
structure Settled (service : ShardWriteService)
    (forward : ExtTreeMap UInt64 (List Point)) (exchanges : List Exchange)
    (results : RegionResults) : Prop where
  regions : (results.map Prod.fst).Perm forward.keys
  acknowledged : ∀ regionId points, (regionId, .ok ()) ∈ results →
    forward[regionId]? = some points → ∀ point ∈ points, Acknowledged service exchanges point

variable {exchanges : List Exchange}

theorem settled_forwardShardWritesByNode {call : ForwardCall} (byRegion : call.AnswersByRegion)
    (forwarded : ingestion.forwardShardWritesByNode db rp precision call forward =
      (results, exchanges)) : Settled ingestion.service forward exchanges results where
  regions := by
    obtain rfl := congrArg Prod.fst forwarded
    exact WriteCoordinator.forwardShardWritesByNode_perm byRegion forward
  acknowledged regionId points succeeded bucket := by
    obtain rfl := congrArg Prod.fst forwarded
    obtain rfl := congrArg Prod.snd forwarded
    exact WriteCoordinator.forwardShardWritesByNode_acknowledged byRegion succeeded bucket

variable {later : List Exchange}

theorem Settled.replace {service : ShardWriteService}
    {retried : RegionResults} (settled : Settled service forward exchanges results)
    (chosen : List UInt64)
    (again : Settled service (forward.filter fun regionId _ => chosen.contains regionId) later
      retried) :
    Settled service forward (exchanges ++ later)
      (results.filter (!chosen.contains ·.1) ++ retried) where
  regions := by
    have others : ((results.filter (!chosen.contains ·.1)).map Prod.fst).Perm
        (forward.keys.filter (!chosen.contains ·)) := by
      have filtered := settled.regions.filter (!chosen.contains ·)
      rwa [filter_map] at filtered
    have sentAgain := again.regions
    rw [ExtTreeMap.keys_filter_key] at sentAgain
    rw [map_append]
    exact (others.append sentAgain).trans (perm_append_comm.trans (filter_append_perm _ _))
  acknowledged regionId points member bucket point inside := by
    rcases mem_append.mp member with kept | new
    · exact (settled.acknowledged regionId points (mem_of_mem_filter kept) bucket point
        inside).mono (subset_append_left _ _)
    · have region : regionId ∈ (forward.filter fun regionId _ =>
          chosen.contains regionId).keys :=
        again.regions.subset (mem_map_of_mem new)
      rw [ExtTreeMap.keys_filter_key, mem_filter] at region
      refine (again.acknowledged regionId points new ?_ point inside).mono (subset_append_right _ _)
      rw [ExtTreeMap.getElem?_filter', bucket, Option.filter_some, if_pos region.2]

theorem Settled.retryRefusedRegions {calls : List ForwardCall}
    (byRegion : ∀ call ∈ calls, call.AnswersByRegion)
    (settled : Settled ingestion.service forward exchanges results)
    (resent : ingestion.retryRefusedRegions db rp precision forward calls results =
      (after, later)) : Settled ingestion.service forward (exchanges ++ later) after := by
  fun_induction PeerIngestionService.retryRefusedRegions ingestion db rp precision forward calls
    results generalizing exchanges later with
  | case1 | case2 =>
    cases resent
    simpa using settled
  | case3 call _ _ refused _ retried sent called _ more rest =>
    rename_i ih
    cases resent
    obtain ⟨byCall, byCalls⟩ := forall_mem_cons.mp byRegion
    rw [← append_assoc]
    exact ih byCalls (settled.replace _ (settled_forwardShardWritesByNode byCall called)) rest

theorem Settled.holdFailedForwards
    (settled : Settled ingestion.service forward exchanges results)
    (holding : ingestion.holdFailedForwards db rp precision queue forward results = (after, held))
    (succeeded : (regionId, .ok ()) ∈ after)
    (bucket : forward[regionId]? = some points) (inside : point ∈ points) :
    Acknowledged ingestion.service exchanges point ∨
      ∃ entry ∈ held, entry.Holds ingestion.service.wire point := by
  revert holding
  fun_cases PeerIngestionService.holdFailedForwards with
  | case5 views view failed chosen _ _ entry stored =>
    rintro ⟨⟩
    obtain ⟨result, member, same⟩ := mem_map.mp succeeded
    split at same
    next isChosen =>
      cases same
      have lookup : chosen[result.1]? = some points := by
        obtain ⟨present, picked⟩ :=
          ExtTreeMap.mem_filter.mp (ExtTreeMap.mem_iff_contains.mpr isChosen)
        rw [ExtTreeMap.getKey_eq] at picked
        rw [ExtTreeMap.getElem?_filter', bucket, Option.filter_some, if_pos picked]
      exact Or.inr ⟨entry, rfl, holds_of_enqueueForwards stored lookup inside⟩
    next =>
      subst same
      exact Or.inl (settled.acknowledged regionId points member bucket point inside)
  | _ =>
    rintro ⟨⟩
    exact Or.inl (settled.acknowledged regionId points succeeded bucket point inside)

theorem map_fst_holdFailedForwards
    (holding : ingestion.holdFailedForwards db rp precision queue forward results = (after, held))
    : after.map Prod.fst = results.map Prod.fst := by
  revert holding
  fun_cases holdFailedForwards with
  | case5 =>
    rintro ⟨⟩
    rw [map_map]
    apply map_congr_left
    intro result _
    rw [Function.comp_apply]
    split <;> rfl
  | _ =>
    rintro ⟨⟩
    rfl

theorem succeeded_of_forwardFailure {regions : Nat} (none_ : forwardFailure regions results = none)
    {result : UInt64 × Except HyperbytedbError Unit} (member : result ∈ results) :
    result.2 = .ok () := by
  unfold forwardFailure at none_
  rw [Option.map_eq_none_iff, head?_eq_none_iff, filterMap_eq_nil_iff] at none_
  have noError := none_ result member
  cases outcome : result.2 with
  | ok => rfl
  | error cause => simp [outcome] at noError

/-- The coordinator's own buckets are in the log once their append has succeeded. -/
theorem mem_appendLocalBuckets {env : LocalAppend} {buckets : ExtTreeMap UInt64 (List Point)}
    (succeeded : (ingestion.appendLocalBuckets db rp precision env buckets).1 = .ok ())
    (member : point ∈ buckets.toList.flatMap Prod.snd) :
    point ∈ (ingestion.appendLocalBuckets db rp precision env buckets).2 := by
  revert succeeded
  fun_cases appendLocalBuckets with
  | case1 empty =>
    rw [ExtTreeMap.isEmpty_iff.mp empty] at member
    simp at member
  | case2 => rintro ⟨⟩
  | case3 => exact fun _ => member

/-- A queued share of a write is in the entry. -/
theorem holds_of_queueForwards
    (stored : ingestion.queueForwards db rp precision queue forward = some entry)
    (member : point ∈ forward.toList.flatMap Prod.snd) :
    entry.Holds ingestion.service.wire point := by
  obtain ⟨bucket, listed, inside⟩ := mem_flatMap.mp member
  have lookup := ExtTreeMap.mem_toList_iff_getElem?_eq_some.mp listed
  revert stored
  fun_cases queueForwards with
  | case5 => exact fun stored => holds_of_enqueueForwards stored lookup inside
  | _ => rintro ⟨⟩

end PeerIngestionService

/-- Every receiver of the write's forwards answers each part under its own region. -/
structure IngestCall.AnswersByRegion (call : IngestCall) : Prop where
  forward : call.forward.AnswersByRegion
  retries : ∀ attempt, (call.retries attempt).AnswersByRegion

/-- The point is in the coordinator's log, was answered with success by the node it was
sent to, or is in a stored entry of the forward queue. -/
def IngestTrace.Keeps (trace : IngestTrace) (service : ShardWriteService) (point : Point) : Prop :=
  point ∈ trace.appended ∨ Acknowledged service trace.exchanges point ∨
    ∃ entry ∈ trace.queued, entry.Holds service.wire point

namespace PeerIngestionService

theorem keeps_forward {call : IngestCall} (byRegion : call.AnswersByRegion)
    {forward : ExtTreeMap UInt64 (List Point)} {sent settled results : RegionResults}
    {exchanges retried : List Exchange}
    (forwarded : ingestion.forwardShardWritesByNode db rp precision call.forward forward =
      (sent, exchanges)) (resent : ingestion.retryRefusedRegions db rp precision forward
      ((List.range capacityRetries).map call.retries) sent = (settled, retried))
    (holding : ingestion.holdFailedForwards db rp precision call.queue forward settled =
      (results, held)) (succeeded : forwardFailure forward.size results = none) (member : point ∈ forward.toList.flatMap Prod.snd) :
    Acknowledged ingestion.service (exchanges ++ retried) point ∨
      ∃ entry ∈ held, entry.Holds ingestion.service.wire point := by
  obtain ⟨bucket, listed, inside⟩ := mem_flatMap.mp member
  have lookup := ExtTreeMap.mem_toList_iff_getElem?_eq_some.mp listed
  have afterRetries := (settled_forwardShardWritesByNode byRegion.forward
    forwarded).retryRefusedRegions (by
      intro retry listed
      obtain ⟨attempt, -, rfl⟩ := mem_map.mp listed
      exact byRegion.retries attempt) resent
  have region : bucket.1 ∈ results.map Prod.fst := by
    rw [map_fst_holdFailedForwards holding]
    exact afterRetries.regions.symm.subset (ExtTreeMap.mem_keys.mpr
      (ExtTreeMap.mem_iff_isSome_getElem?.mpr (by rw [lookup]; rfl)))
  obtain ⟨result, resultMember, sameId⟩ := mem_map.mp region
  have ok : (bucket.1, .ok ()) ∈ results := by
    rw [← sameId, ← succeeded_of_forwardFailure succeeded resultMember]
    exact resultMember
  exact afterRetries.holdFailedForwards holding ok lookup inside

/-- No acknowledged write is dropped at the coordinator, and the batch path returns
exactly one result for each region it is given. -/
theorem ingestShardedPoints_keeps (call : IngestCall) (byRegion : call.AnswersByRegion)
    (points : List Point) :
    ((ingestion.ingestShardedPoints db rp precision call points).1 = .ok () →
      ∀ point ∈ points, (ingestion.ingestShardedPoints db rp precision call points).2.Keeps
          ingestion.service point) ∧
      ∀ forwardCall : ForwardCall, forwardCall.AnswersByRegion → ∀ forward,
        ((ingestion.forwardShardWritesByNode db rp precision forwardCall forward).1.map
          Prod.fst).Perm forward.keys := by
  refine ⟨?_, fun _ answers forward =>
    WriteCoordinator.forwardShardWritesByNode_perm answers forward⟩
  intro succeeded point member
  unfold ingestShardedPoints at succeeded ⊢
  dsimp only at succeeded ⊢
  split at succeeded
  next => cases succeeded
  next buckets routed =>
    have inBuckets : point ∈ buckets.points := by
      obtain ⟨-, -, routed⟩ := exists_of_bind_eq_ok routed
      obtain ⟨-, -, routed⟩ := exists_of_bind_eq_ok routed
      obtain ⟨map, -, partitioned⟩ := exists_of_bind_eq_ok routed
      exact mem_points_of_partition partitioned member
    cases queued : ingestion.queueForwards db rp precision call.queue buckets.forward with
    | some entry =>
      rw [queued] at succeeded
      rcases mem_append.mp inBuckets with inLocal | inForward
      · exact Or.inl (mem_appendLocalBuckets succeeded inLocal)
      · exact Or.inr (Or.inr ⟨entry, mem_singleton_self entry,
          holds_of_queueForwards queued inForward⟩)
    | none =>
      rw [queued] at succeeded
      dsimp only at succeeded ⊢
      generalize forwarded : ingestion.forwardShardWritesByNode db rp precision call.forward
        buckets.forward = sent at succeeded ⊢
      generalize resent : ingestion.retryRefusedRegions db rp precision buckets.forward
        ((List.range capacityRetries).map call.retries) sent.1 = settled at succeeded ⊢
      generalize holding : ingestion.holdFailedForwards db rp precision call.queue
        buckets.forward settled.1 = results at succeeded ⊢
      split at succeeded
      next => cases succeeded
      next => cases succeeded
      next localSucceeded noFailure =>
        rcases mem_append.mp inBuckets with inLocal | inForward
        · exact Or.inl (mem_appendLocalBuckets localSucceeded inLocal)
        · refine Or.inr ((keeps_forward byRegion forwarded resent holding noFailure
            inForward).imp_right ?_)
          rintro ⟨entry, held, holds⟩
          exact ⟨entry, Option.mem_toList.mpr held, holds⟩

def secondNode : PeerIngestionService where
  service := byteService
  settings :=
    { errorField := fun _ => none, scatterMaxPeerAttempts := 1, asyncForward := false
      asyncForwardMaxLagMs := 1000, asyncForwardMaxBytes := 1000 }
  nodeId := 2
  hashes := ⟨fun _ _ _ => 0, fun _ _ => 0, fun _ _ _ _ _ => 0, fun _ _ _ => 0⟩
  limits := {}

def forwardAnswered (answer : List ShardWriteRequest → PostAnswer) : ForwardCall :=
  let attempt : SingleAttempt := ⟨.ok twoRegions, {}, twoNodes, fun _ => .failed "down"⟩
  { snapshot := .ok twoRegions, membership := twoNodes
    answer := fun _ parts => { answer := answer parts }
    single := fun _ => ⟨attempt, .ok twoRegions, attempt⟩ }

theorem forwardAnswered_byRegion (status part : Nat) :
    (forwardAnswered fun parts => .response status (.ok (parts.map fun request =>
      ⟨request.regionId, part, none⟩))).AnswersByRegion := by
  intro node parts answered results response index result request given asked
  cases response
  simp only [forwardAnswered, nil_append, append_nil] at asked
  rw [getElem?_map, asked] at given
  cases given
  rfl

/-- The primary of the other region refuses the write at capacity, and takes it when it
is sent again. -/
def refusedOnce : IngestCall where
  metadata := {}
  bootstrap _ := .ok ()
  snapshot := .ok twoRegions
  cache := {}
  queue := none
  localAppend := ⟨.ok twoRegions, twoNodes, {}, .ok 1, fun _ => .ok ()⟩
  forward := forwardAnswered fun parts => .response 200 (.ok (parts.map fun request =>
    ⟨request.regionId, 503, none⟩))
  retries _ := forwardAnswered fun parts => .response 200 (.ok (parts.map fun request =>
    ⟨request.regionId, 204, none⟩))

theorem refusedOnce_keeps : (secondNode.ingestShardedPoints "db" "autogen" none refusedOnce
        [bytePoint 1, bytePoint 2]).1 = .ok () ∧
      ∀ point ∈ [bytePoint 1, bytePoint 2],
        (secondNode.ingestShardedPoints "db" "autogen" none refusedOnce
          [bytePoint 1, bytePoint 2]).2.Keeps byteService point := by
  have acknowledged : (secondNode.ingestShardedPoints "db" "autogen" none refusedOnce
      [bytePoint 1, bytePoint 2]).1 = .ok () := by decide +kernel
  exact ⟨acknowledged, (ingestShardedPoints_keeps refusedOnce
    ⟨forwardAnswered_byRegion 200 503, fun _ => forwardAnswered_byRegion 200 204⟩ _).1
    acknowledged⟩

end PeerIngestionService

end HyperbyteDb
