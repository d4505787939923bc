import HyperbyteDb.MetadataGrowth
import HyperbyteDb.ShardWriteBatches
import Mathlib.Data.List.Flatten

/-!
# Joined parts are applied as the parts alone

A job of several parts appends the points of each of them when all of them decode, stay within
the point limit together and fit the stored metadata and each other.
-/

namespace HyperbyteDb

open FirstFitGroups List PointWire ReplicateApplyGroup

theorem walRows_append (wal more : List WalEntry) :
    walRows (wal ++ more) = walRows wal ++ walRows more :=
  flatMap_append

def ReplicateBatchPart.SharesJob (first second : ReplicateBatchPart) : Prop :=
  first.database = second.database ∧ first.retentionPolicy = second.retentionPolicy ∧
    first.precision = second.precision ∧
    isBinaryPoints first.body = isBinaryPoints second.body

instance (first second : ReplicateBatchPart) : Decidable (first.SharesJob second) :=
  inferInstanceAs (Decidable (_ ∧ _ ∧ _ ∧ _))

theorem ReplicateBatchPart.SharesJob.refl (part : ReplicateBatchPart) : part.SharesJob part :=
  ⟨rfl, rfl, rfl, rfl⟩

variable (first : List UInt8) (rest : List ReplicateBatchPart)

def joinBodies : List UInt8 :=
  rest.foldl (fun body part => body ++ 10 :: part.body) first

theorem isBinaryPoints_joinBodies :
    isBinaryPoints (joinBodies first rest) = isBinaryPoints first := by
  induction rest generalizing first with
  | nil => rfl
  | cons part rest ih =>
    exact (ih (first ++ 10 :: part.body)).trans (isBinaryPoints_append _ _)

variable {jobs : List ApplyJob}

variable {node : ReplicaNode} {state : ReplicaState} {origin : UInt64}

namespace ReplicaNode

def parsePart (node : ReplicaNode) (part : ReplicateBatchPart) :
    Except HyperbytedbError (List Point) :=
  node.wire.parseLineBodyToPointsLimited part.precision node.maxPointsPerRequest part.body

def jobPoints (node : ReplicaNode) (job : ApplyJob) : List Point :=
  if job.body = [] then []
  else
    match node.verifyReplicationPeer job.originNodeId,
      node.wire.parseLineBodyToPointsLimited job.precision node.maxPointsPerRequest job.body with
    | .ok (), .ok points => points
    | _, _ => []

def jobRows (node : ReplicaNode) (job : ApplyJob) : List (String × String × UInt64 × Point) :=
  (node.jobPoints job).map (job.database, job.retentionPolicy, job.originNodeId, ·)

def jobLoads (node : ReplicaNode) (job : ApplyJob) : Loads :=
  loadsOf job.database job.retentionPolicy (node.jobPoints job)

variable {job : ApplyJob}

section Jobs

variable {base : MetadataStore} {done kept : Loads}

/-- A job without points changes nothing. -/
theorem applyBatch_of_jobPoints_nil (append : Except HyperbytedbError Nat)
    (none_ : node.jobPoints job = []) : (node.applyBatch append state job).2 = state := by
  unfold jobPoints at none_
  unfold applyBatch
  split
  · rfl
  next nonempty =>
    rw [if_neg nonempty] at none_
    cases verified : node.verifyReplicationPeer job.originNodeId with
    | error cause => rfl
    | ok _ =>
      cases parsed : node.wire.parseLineBodyToPointsLimited job.precision
          node.maxPointsPerRequest job.body with
      | error cause => rfl
      | ok points =>
        rw [verified, parsed] at none_
        obtain rfl : points = [] := none_
        rfl

theorem applyBatch_of_jobPoints_cons (append : Except HyperbytedbError Nat) {first : Point}
    {rest : List Point} (found : node.jobPoints job = first :: rest) :
    node.wire.parseLineBodyToPointsLimited job.precision node.maxPointsPerRequest job.body =
        .ok (first :: rest) ∧
    node.applyBatch append state job =
      match state.metadata.prepareBatchMetadata node.hashes job.database
          job.retentionPolicy node.replicaMetadataLimits (first :: rest) with
      | .error cause => (.error cause, state)
      | .ok metadata =>
        match append with
        | .error cause => (.error cause, { state with metadata })
        | .ok _ => (.ok (), { metadata, wal := state.wal ++
            [⟨job.database, job.retentionPolicy, first :: rest, job.originNodeId⟩] }) := by
  unfold jobPoints at found
  split at found
  next => cases found
  next nonempty =>
    split at found
    next points verified parsed =>
      subst found
      have short := length_le_of_parseLineBodyToPointsLimited parsed
      refine ⟨parsed, ?_⟩
      unfold applyBatch
      rw [if_neg nonempty, verified]
      rw [parsed]
      dsimp only
      rewrite [appendPoints, if_neg (Nat.not_lt.mpr short)]
      rfl
    next => cases found

theorem applyBatch_of_fit (seq : Nat) (below : state.metadata.store.Below base done)
    (fit : LoadsFit node.replicaMetadataLimits base kept) (doneKept : done ⊆ kept)
    (jobKept : node.jobLoads job ⊆ kept) :
    (node.applyBatch (.ok seq) state job).2.metadata.store.Below base (done ++ node.jobLoads job) ∧
      walRows (node.applyBatch (.ok seq) state job).2.wal =
        walRows state.wal ++ node.jobRows job := by
  cases found : node.jobPoints job with
  | nil =>
    rw [applyBatch_of_jobPoints_nil _ found]
    refine ⟨below.mono (subset_append_left _ _), ?_⟩
    rw [jobRows, found, map_nil, append_nil]
  | cons first rest =>
    have loads : node.jobLoads job = loadsOf job.database job.retentionPolicy
        (first :: rest) := by
      rw [jobLoads, found]
    rw [loads] at jobKept ⊢
    obtain ⟨metadata, prepared, grown⟩ :=
      IngestState.prepareBatchMetadata_of_fit below fit doneKept jobKept
    obtain ⟨-, applied⟩ := applyBatch_of_jobPoints_cons (.ok seq) found
    rw [applied, prepared]
    refine ⟨grown, ?_⟩
    rw [walRows_append, jobRows, found]
    exact congrArg _ (append_nil _)

theorem walRows_applyJobs_of_fit (seq : Nat)
    (below : state.metadata.store.Below base done)
    (fit : LoadsFit node.replicaMetadataLimits base kept) (doneKept : done ⊆ kept)
    (jobsKept : ∀ job ∈ jobs, node.jobLoads job ⊆ kept) :
    walRows (node.applyJobs (.ok seq) state jobs).wal =
      walRows state.wal ++ jobs.flatMap node.jobRows := by
  induction jobs generalizing state done with
  | nil => simp [applyJobs]
  | cons job rest ih =>
    obtain ⟨jobKept, restKept⟩ := forall_mem_cons.mp jobsKept
    obtain ⟨grown, rows⟩ := applyBatch_of_fit seq below fit doneKept jobKept
    have later := ih grown (append_subset.mpr ⟨doneKept, jobKept⟩) restKept
    rw [applyJobs, foldl_cons, ← applyJobs, later, rows, flatMap_cons, append_assoc]

/-- A job appends nothing, or the points that it decodes to, which agree on their types. -/
theorem applyBatch_wal (append : Except HyperbytedbError Nat) (state : ReplicaState)
    (job : ApplyJob) : (node.applyBatch append state job).2.wal = state.wal ∨
      ∃ first rest, node.wire.parseLineBodyToPointsLimited job.precision
          node.maxPointsPerRequest job.body = .ok (first :: rest) ∧
        (first :: rest).Pairwise TypesAgree ∧
        (node.applyBatch append state job).2.wal = state.wal ++
          [⟨job.database, job.retentionPolicy, first :: rest, job.originNodeId⟩] := by
  cases found : node.jobPoints job with
  | nil => exact Or.inl (by rw [applyBatch_of_jobPoints_nil append found])
  | cons first rest =>
    obtain ⟨parsed, applied⟩ : _ ∧ node.applyBatch append state job = _ :=
      applyBatch_of_jobPoints_cons append found
    cases built : batchSchemas ∅ (first :: rest) with
    | error cause =>
      left
      rw [applied, IngestState.prepareBatchMetadata, built]
      rfl
    | ok schemas =>
      rw [applied]
      split
      · exact Or.inl rfl
      · cases append with
        | error cause => exact Or.inl rfl
        | ok seq => exact Or.inr ⟨first, rest, parsed, agree_of_batchSchemas built, rfl⟩

/-- Jobs only add to the log. -/
theorem walRows_le_applyJobs (node : ReplicaNode) (append : Except HyperbytedbError Nat)
    (state : ReplicaState) (jobs : List ApplyJob) :
    walRows state.wal <+: walRows (node.applyJobs append state jobs).wal := by
  induction jobs generalizing state with
  | nil => exact prefix_rfl
  | cons job rest ih =>
    refine List.IsPrefix.trans ?_ (ih (node.applyBatch append state job).2)
    rcases node.applyBatch_wal append state job with same | ⟨_, _, -, -, appended⟩
    · rw [same]
    · rw [appended, walRows_append]
      exact prefix_append _ _

end Jobs

section Points

variable {points : List Point}

theorem jobPoints_of_parse (blank : ∀ precision, node.wire.lines precision [] = .ok [])
    (verified : node.verifyReplicationPeer job.originNodeId = .ok ())
    (parsed : node.wire.parseLineBodyToPointsLimited job.precision node.maxPointsPerRequest
      job.body = .ok points) : node.jobPoints job = points := by
  unfold jobPoints
  split
  next empty =>
    rw [empty, parseLineBodyToPointsLimited, blank] at parsed
    exact Except.ok.inj parsed
  next => rw [verified, parsed]

theorem jobPoints_of_unverified {cause : HyperbytedbError}
    (unverified : node.verifyReplicationPeer job.originNodeId = .error cause) :
    node.jobPoints job = [] := by
  unfold jobPoints
  split
  · rfl
  · rw [unverified]

theorem parse_joinBodies {precision : Option String} {first : List UInt8}
    {rest : List ReplicateBatchPart}
    (parsed : node.wire.parseLineBodyToPointsLimited precision node.maxPointsPerRequest
      first = .ok points) {pointsOf : ReplicateBatchPart → List Point}
    (others : ∀ part ∈ rest, isBinaryPoints part.body = isBinaryPoints first ∧
      node.wire.parseLineBodyToPointsLimited precision node.maxPointsPerRequest
        part.body = .ok (pointsOf part)) (within : points.length + (rest.flatMap pointsOf).length ≤
      pointLimit node.maxPointsPerRequest) :
    node.wire.parseLineBodyToPointsLimited precision node.maxPointsPerRequest
      (joinBodies first rest) = .ok (points ++ rest.flatMap pointsOf) := by
  induction rest generalizing first points with
  | nil => simpa [joinBodies] using parsed
  | cons part rest ih =>
    obtain ⟨⟨same, parsedPart⟩, othersRest⟩ := forall_mem_cons.mp others
    rw [flatMap_cons, length_append] at within
    have joined := parseLineBodyToPointsLimited_append same.symm parsed parsedPart (by omega)
    rw [flatMap_cons, ← append_assoc]
    refine ih joined ?_ (by rw [length_append]; omega)
    intro other member
    obtain ⟨sameOther, parsedOther⟩ := othersRest other member
    exact ⟨by rw [isBinaryPoints_append, sameOther], parsedOther⟩

theorem jobPoints_joinBodies (blank : ∀ precision, node.wire.lines precision [] = .ok [])
    {first : ReplicateBatchPart} {rest : List ReplicateBatchPart}
    (shares : ∀ part ∈ rest, part.SharesJob first)
    (decodes : ∀ part ∈ first :: rest, ∃ points, node.parsePart part = .ok points)
    (within : ((first :: rest).flatMap fun part => node.jobPoints (part.job origin)).length ≤
      pointLimit node.maxPointsPerRequest) :
    node.jobPoints { first.job origin with body := joinBodies first.body rest } =
      (first :: rest).flatMap fun part => node.jobPoints (part.job origin) := by
  cases verified : node.verifyReplicationPeer origin with
  | error cause =>
    rw [jobPoints_of_unverified verified, flatMap_eq_nil_iff.mpr]
    exact fun part _ => jobPoints_of_unverified verified
  | ok _ =>
    have parsed : ∀ part ∈ first :: rest,
        node.parsePart part = .ok (node.jobPoints (part.job origin)) := by
      intro part member
      obtain ⟨points, parsed⟩ := decodes part member
      have same : node.jobPoints (part.job origin) = points :=
        jobPoints_of_parse blank verified parsed
      rw [parsed, same]
    obtain ⟨parsedFirst, parsedRest⟩ := forall_mem_cons.mp parsed
    rw [flatMap_cons, length_append] at within
    refine jobPoints_of_parse blank verified ?_
    refine parse_joinBodies parsedFirst ?_ within
    intro part member
    obtain ⟨-, -, samePrecision, sameEncoding⟩ := shares part member
    exact ⟨sameEncoding, samePrecision ▸ parsedRest part member⟩

end Points

end ReplicaNode

variable {item : ReplicateBatchPart × Nat} {outcomes : List ReplicatePartOutcome}
  {part : ReplicateBatchPart}

variable {isPeer : UInt64 → Bool} {parts : List ReplicateBatchPart} {group : ReplicateApplyGroup}

section Groups

def acceptableParts (isPeer : UInt64 → Bool) (parts : List ReplicateBatchPart) :
    List ReplicateBatchPart :=
  parts.filter (replicatePartOutcome isPeer · = .accepted)

/-- The same, with their places in the request. -/
def acceptableItems (isPeer : UInt64 → Bool) (parts : List ReplicateBatchPart) :
    List (ReplicateBatchPart × Nat) :=
  parts.zipIdx.filter (replicatePartOutcome isPeer ·.1 = .accepted)

theorem map_fst_acceptableItems :
    (acceptableItems isPeer parts).map Prod.fst = acceptableParts isPeer parts := by
  unfold acceptableItems acceptableParts
  conv_rhs => rw [← zipIdx_map_fst 0 parts, filter_map]
  rfl

theorem mem_acceptableItems :
    item ∈ acceptableItems isPeer parts ↔
      parts[item.2]? = some item.1 ∧ replicatePartOutcome isPeer item.1 = .accepted := by
  simp [acceptableItems, mem_zipIdx_iff_getElem?]

theorem nodup_map_snd_acceptableItems (isPeer : UInt64 → Bool) (parts : List ReplicateBatchPart) :
    ((acceptableItems isPeer parts).map Prod.snd).Nodup := by
  refine List.Nodup.sublist (filter_sublist.map Prod.snd) ?_
  rw [zipIdx_map_snd]
  exact nodup_range'

structure ReplicateApplyGroup.JobOf (group : ReplicateApplyGroup)
    (first : ReplicateBatchPart × Nat) (rest : List (ReplicateBatchPart × Nat)) : Prop where
  places : group.parts = (first :: rest).map Prod.snd
  shares : ∀ item ∈ rest, item.1.SharesJob first.1
  job : ∀ origin, group.job origin =
    { first.1.job origin with body := joinBodies first.1.body (rest.map Prod.fst) }

theorem ReplicateApplyGroup.JobOf.add
    {first : ReplicateBatchPart × Nat} {rest : List (ReplicateBatchPart × Nat)}
    (jobOf : group.JobOf first rest) (taken : group.takes item = true) :
    (group.add item).JobOf first (rest ++ [item]) := by
  have same := jobOf.job 0
  simp only [ReplicateApplyGroup.job, ReplicateBatchPart.job, ApplyJob.mk.injEq] at same
  obtain ⟨sameDb, sameRp, samePrecision, sameBody, -⟩ := same
  simp only [ReplicateApplyGroup.takes, Bool.and_eq_true, beq_iff_eq] at taken
  obtain ⟨⟨⟨takenDb, takenRp⟩, takenPrecision⟩, takenEncoding⟩ := taken
  refine ⟨by simp [ReplicateApplyGroup.add, jobOf.places], ?_, ?_⟩
  · intro other member
    rcases mem_append.mp member with before | new
    · exact jobOf.shares other before
    · obtain rfl := mem_singleton.mp new
      refine ⟨by rw [← takenDb, sameDb], by rw [← takenRp, sameRp],
        by rw [← takenPrecision, samePrecision], ?_⟩
      rw [← takenEncoding, sameBody, isBinaryPoints_joinBodies]
  · simp [ReplicateApplyGroup.job, ReplicateApplyGroup.add, ReplicateBatchPart.job, joinBodies,
      sameDb, sameRp, samePrecision, sameBody]

theorem exists_jobOf_of_mem (listed : group ∈ (groupReplicateParts isPeer parts).2) :
    ∃ first rest, group.JobOf first rest ∧ first :: rest ⊆ acceptableItems isPeer parts := by
  refine gather_forall
    (fun group : ReplicateApplyGroup => ∃ first rest, group.JobOf first rest ∧
      first :: rest ⊆ acceptableItems isPeer parts) ?_ ?_ group listed
  · intro item member
    exact ⟨item, [], ⟨rfl, by simp, fun _ => rfl⟩, cons_subset.mpr ⟨member, nil_subset _⟩⟩
  · rintro item member group ⟨first, rest, jobOf, included⟩ taken
    refine ⟨first, rest ++ [item], jobOf.add taken, ?_⟩
    exact append_subset.mpr ⟨included, cons_subset.mpr ⟨member, nil_subset _⟩⟩

theorem parts_groups_perm (isPeer : UInt64 → Bool) (parts : List ReplicateBatchPart) :
    ((groupReplicateParts isPeer parts).2.flatMap ReplicateApplyGroup.parts).Perm
      ((acceptableItems isPeer parts).map Prod.snd) :=
  gather_perm ReplicateApplyGroup.parts Prod.snd (fun _ => rfl) (fun _ _ => rfl) _

theorem getElem?_foldl_set {outcome : ReplicatePartOutcome} (indices : List Nat)
    (outcomes : List ReplicatePartOutcome) (place : Nat) (failed : outcome ≠ .accepted) :
    (indices.foldl (fun outcomes index => outcomes.set index outcome) outcomes)[place]? =
        some .accepted ↔ outcomes[place]? = some .accepted ∧ place ∉ indices := by
  induction indices generalizing outcomes with
  | nil => simp
  | cons index rest ih =>
    rw [foldl_cons, ih]
    by_cases same : index = place
    · subst same
      by_cases inside : index < outcomes.length <;> simp [inside, failed]
    · simp [same, Ne.symm same]

variable (enqueue : Nat → EnqueueAnswer)

theorem getElem?_settleOutcomes (outcomes : List ReplicatePartOutcome)
    (groups : List ReplicateApplyGroup) (place : Nat) :
    (settleOutcomes enqueue outcomes groups)[place]? = some .accepted ↔
      outcomes[place]? = some .accepted ∧
        ∀ group ∈ groups.zipIdx, place ∈ group.1.parts → enqueue group.2 = .queued := by
  unfold settleOutcomes
  induction groups.zipIdx generalizing outcomes with
  | nil => simp
  | cons group rest ih =>
    rw [foldl_cons, ih, forall_mem_cons]
    cases answer : enqueue group.2 with
    | queued => simp
    | full =>
      rw [getElem?_foldl_set _ _ _ (by decide)]
      simp [and_assoc]
    | workerGone =>
      rw [getElem?_foldl_set _ _ _ (by decide)]
      simp [and_assoc]

theorem queuedGroups_eq (groups : List ReplicateApplyGroup) :
    queuedGroups enqueue groups =
      (groups.zipIdx.filter fun group => enqueue group.2 = .queued).map Prod.fst := by
  rw [← filterMap_eq_map, ← filterMap_eq_filter, filterMap_filterMap]
  apply filterMap_congr
  rintro ⟨group, index⟩ -
  cases answer : enqueue index <;> simp [answer, Option.guard]

theorem mem_queuedGroups {groups : List ReplicateApplyGroup} : group ∈ queuedGroups enqueue groups ↔
      ∃ index, groups[index]? = some group ∧ enqueue index = .queued := by
  simp [queuedGroups_eq, mem_zipIdx_iff_getElem?]

/-- The groups of a request that are queued. -/
def requestGroups (isPeer : UInt64 → Bool) (parts : List ReplicateBatchPart) :
    List ReplicateApplyGroup :=
  queuedGroups enqueue (groupReplicateParts isPeer parts).2

def requestPlaces (isPeer : UInt64 → Bool) (parts : List ReplicateBatchPart) : List Nat :=
  (requestGroups enqueue isPeer parts).flatMap ReplicateApplyGroup.parts

def requestOutcomes (isPeer : UInt64 → Bool) (parts : List ReplicateBatchPart) :
    List ReplicatePartOutcome :=
  settleOutcomes enqueue (groupReplicateParts isPeer parts).1 (groupReplicateParts isPeer parts).2

/-- What a part's place becomes once the queue has answered. -/
theorem accepted_iff {enqueue : Nat → EnqueueAnswer} {place : Nat} :
    (requestOutcomes enqueue isPeer parts)[place]? = some .accepted ↔
      place ∈ requestPlaces enqueue isPeer parts := by
  have perm := parts_groups_perm isPeer parts
  have distinct := perm.nodup_iff.mpr (nodup_map_snd_acceptableItems isPeer parts)
  have apart := pairwise_iff_getElem.mp (nodup_flatMap.mp distinct).2
  have initial : (groupReplicateParts isPeer parts).1[place]? = some .accepted ↔
      place ∈ (groupReplicateParts isPeer parts).2.flatMap ReplicateApplyGroup.parts := by
    rw [perm.mem_iff, groupReplicateParts, getElem?_map, mem_map]
    simp only [mem_acceptableItems, Prod.exists, Option.map_eq_some_iff]
    constructor
    · rintro ⟨part, found, passes⟩
      exact ⟨part, place, ⟨found, passes⟩, rfl⟩
    · rintro ⟨part, _, ⟨found, passes⟩, rfl⟩
      exact ⟨part, found, passes⟩
  rw [requestOutcomes, getElem?_settleOutcomes, initial, requestPlaces, mem_flatMap, mem_flatMap]
  constructor
  · rintro ⟨⟨group, listed, inside⟩, queued⟩
    obtain ⟨index, found⟩ := getElem?_of_mem listed
    have answer := queued (group, index) (mem_zipIdx_iff_getElem?.mpr found) inside
    exact ⟨group, (mem_queuedGroups enqueue).mpr ⟨index, found, answer⟩, inside⟩
  · rintro ⟨group, taken, inside⟩
    obtain ⟨index, found, queued⟩ := (mem_queuedGroups enqueue).mp taken
    refine ⟨⟨group, mem_of_getElem? found, inside⟩, ?_⟩
    rintro ⟨other, place'⟩ entry otherInside
    obtain ⟨bound, rfl⟩ := List.getElem?_eq_some_iff.mp found
    have otherFound := mem_zipIdx_iff_getElem?.mp entry
    dsimp only at otherFound otherInside
    obtain ⟨bound', rfl⟩ := List.getElem?_eq_some_iff.mp otherFound
    rcases Nat.lt_trichotomy place' index with before | rfl | after
    · exact absurd inside (apart place' index bound' bound before otherInside)
    · exact queued
    · exact absurd otherInside (apart index place' bound bound' after inside)

theorem length_settleOutcomes (outcomes : List ReplicatePartOutcome)
    (groups : List ReplicateApplyGroup) :
    (settleOutcomes enqueue outcomes groups).length = outcomes.length := by
  have set_ (outcome : ReplicatePartOutcome) (indices : List Nat)
      (outcomes : List ReplicatePartOutcome) :
      (indices.foldl (fun outcomes index => outcomes.set index outcome) outcomes).length =
        outcomes.length :=
    foldlRecOn (motive := (length · = outcomes.length)) indices _ rfl
      fun _ same _ _ => by simp [same]
  refine foldlRecOn (motive := (length · = outcomes.length)) _ _ rfl ?_
  intro settled same group _
  split
  · exact same
  · rw [set_, same]
  · rw [set_, same]

theorem acceptedJobs_eq (request : ReplicateBatchRequest)
    (same : outcomes.length = request.parts.length) :
    acceptedJobs request outcomes =
      (request.parts.zipIdx.filter fun item => outcomes[item.2]? = some .accepted).map
        fun item => item.1.job request.originNode := by
  have zipped : request.parts.zip outcomes =
      request.parts.zipIdx.map fun item => (item.1, outcomes[item.2]?.getD .accepted) := by
    refine ext_getElem (by simp [same]) fun index first second => ?_
    have inside : index < outcomes.length := by
      rw [length_zip] at first
      omega
    simp [inside]
  rw [acceptedJobs, zipped, filterMap_map, ← filterMap_eq_map,
    ← filterMap_eq_filter, filterMap_filterMap]
  apply filterMap_congr
  rintro ⟨part, index⟩ member
  have place := (List.getElem?_eq_some_iff.mp (mem_zipIdx_iff_getElem?.mp member)).1
  have inside : index < outcomes.length := by omega
  by_cases accepted : outcomes[index] = .accepted <;>
    simp [inside, accepted, Option.guard]

theorem acceptedJobs_settleOutcomes (request : ReplicateBatchRequest) :
    acceptedJobs request (requestOutcomes enqueue isPeer request.parts) =
      ((acceptableItems isPeer request.parts).filter fun item =>
        item.2 ∈ requestPlaces enqueue isPeer request.parts).map
          fun item => item.1.job request.originNode := by
  have lengths : (requestOutcomes enqueue isPeer request.parts).length = request.parts.length :=
    (length_settleOutcomes _ _ _).trans (by simp [groupReplicateParts])
  rw [acceptedJobs_eq request lengths]
  congr 1
  rw [acceptableItems, filter_filter]
  apply filter_congr
  rintro ⟨part, index⟩ member
  have found := mem_zipIdx_iff_getElem?.mp member
  by_cases inside : index ∈ requestPlaces enqueue isPeer request.parts
  · have settled := accepted_iff.mpr inside
    have passes := ((getElem?_settleOutcomes enqueue _ _ index).mp settled).1
    rw [groupReplicateParts, getElem?_map, found] at passes
    simp only [settled, inside, Option.some.inj passes, decide_true, Bool.and_true]
  · have settled := mt accepted_iff.mp inside
    simp only [settled, inside, decide_false, Bool.false_and]

theorem queuedGroups_sublist (groups : List ReplicateApplyGroup) :
    (queuedGroups enqueue groups).Sublist groups := by
  rw [queuedGroups_eq]
  conv_rhs => rw [← zipIdx_map_fst 0 groups]
  exact filter_sublist.map Prod.fst

theorem parts_queuedGroups_perm (isPeer : UInt64 → Bool) (parts : List ReplicateBatchPart) :
    (requestPlaces enqueue isPeer parts).Perm (((acceptableItems isPeer parts).filter fun item =>
      item.2 ∈ requestPlaces enqueue isPeer parts).map Prod.snd) := by
  have perm := parts_groups_perm isPeer parts
  have distinct := nodup_map_snd_acceptableItems isPeer parts
  have included := (queuedGroups_sublist enqueue
    (groupReplicateParts isPeer parts).2).flatMap ReplicateApplyGroup.parts
  refine (perm_ext_iff_of_nodup (included.nodup (perm.nodup_iff.mpr distinct))
    (distinct.sublist (filter_sublist.map Prod.snd))).mpr fun place => ?_
  constructor
  · intro queued
    obtain ⟨item, listed, rfl⟩ := mem_map.mp (perm.subset (included.subset queued))
    exact mem_map.mpr ⟨item, mem_filter.mpr ⟨listed, decide_eq_true queued⟩, rfl⟩
  · intro member
    obtain ⟨item, listed, rfl⟩ := mem_map.mp member
    exact of_decide_eq_true (mem_filter.mp listed).2

/-- A part is answered as accepted exactly if it is in the queue, and then it is there once. -/
theorem count_queuedPlaces (isPeer : UInt64 → Bool) (parts : List ReplicateBatchPart)
    (place : Nat) : (requestPlaces enqueue isPeer parts).count place =
      if (requestOutcomes enqueue isPeer parts)[place]? = some .accepted then 1 else 0 := by
  have distinct := (parts_queuedGroups_perm enqueue isPeer parts).nodup_iff.mpr
    ((nodup_map_snd_acceptableItems isPeer parts).sublist (filter_sublist.map Prod.snd))
  simp only [distinct.count, accepted_iff]

/-- Parts that all pass are all listed. -/
theorem acceptableItems_of_passes {rest : List ReplicateBatchPart}
    (passes : ∀ other ∈ part :: rest, replicatePartOutcome isPeer other = .accepted) :
    acceptableItems isPeer (part :: rest) = (part, 0) :: rest.zipIdx 1 := by
  rw [acceptableItems, filter_eq_self.mpr, zipIdx_cons]
  rintro ⟨other, index⟩ member
  simpa using passes other (fst_mem_of_mem_zipIdx member)

end Groups

namespace ReplicaNode

/-- Parts that share a job decode, stay within the point limit of a request together,
and what all parts bring fits the metadata and each other. -/
structure PartsJoin (node : ReplicaNode) (origin : UInt64) (store : MetadataStore)
    (acceptable : List ReplicateBatchPart) : Prop where
  decodes : acceptable.Pairwise fun first second => first.SharesJob second →
    (∃ points, node.parsePart first = .ok points) ∧ ∃ points, node.parsePart second = .ok points
  within : ∀ part ∈ acceptable,
    ((acceptable.filter (·.SharesJob part)).flatMap fun other =>
      node.jobPoints (other.job origin)).length ≤ pointLimit node.maxPointsPerRequest
  fits : LoadsFit node.replicaMetadataLimits store
    (acceptable.flatMap fun part => node.jobLoads (part.job origin))

variable {α : Type}

variable {store : MetadataStore}

section Joined

variable
  {first : ReplicateBatchPart × Nat} {rest : List (ReplicateBatchPart × Nat)}

theorem length_flatMap_le_of_subperm {β : Type} {small large : List α}
    (included : List.Subperm small large) (f : α → List β) :
    (small.flatMap f).length ≤ (large.flatMap f).length := by
  obtain ⟨middle, perm, sublist⟩ := included
  rw [← (perm.flatMap_right f).length_eq]
  exact (sublist.flatMap f).length_le

theorem jobPoints_of_jobOf (blank : ∀ precision, node.wire.lines precision [] = .ok [])
    (joins : node.PartsJoin origin store (acceptableParts isPeer parts))
    (jobOf : group.JobOf first rest) (included : first :: rest ⊆ acceptableItems isPeer parts)
    (distinct : group.parts.Nodup) :
    node.jobPoints (group.job origin) =
      (first :: rest).flatMap fun item => node.jobPoints (item.1.job origin) := by
  rw [jobOf.job origin]
  cases rest with
  | nil => exact (append_nil _).symm
  | cons second rest =>
    rw [jobOf.places] at distinct
    have decodesItems := joins.decodes
    rw [← map_fst_acceptableItems, pairwise_map] at decodesItems
    have both : ∀ item ∈ second :: rest, (∃ points, node.parsePart item.1 = .ok points) ∧
        ∃ points, node.parsePart first.1 = .ok points := by
      intro item member
      have apart : item ≠ first := by
        rintro rfl
        exact (nodup_cons.mp distinct).1 (mem_map_of_mem member)
      have symmetric : Std.Symm fun one other : ReplicateBatchPart × Nat =>
          one.1.SharesJob other.1 → (∃ points, node.parsePart one.1 = .ok points) ∧
            ∃ points, node.parsePart other.1 = .ok points :=
        ⟨fun one other holds shares =>
          (holds ⟨shares.1.symm, shares.2.1.symm, shares.2.2.1.symm, shares.2.2.2.symm⟩).symm⟩
      exact decodesItems.forall (included (mem_cons_of_mem first member))
        (included mem_cons_self) apart (jobOf.shares item member)
    have subperm := (subperm_of_subset (List.Nodup.of_map _ distinct) included).filter
      fun item => item.1.SharesJob first.1
    rw [filter_eq_self.mpr] at subperm
    · have total := length_flatMap_le_of_subperm subperm fun item =>
        node.jobPoints (item.1.job origin)
      have bound := joins.within first.1 (by
        rw [← map_fst_acceptableItems]
        exact mem_map_of_mem (included mem_cons_self))
      rw [← map_fst_acceptableItems, filter_map, flatMap_map] at bound
      have decodes : ∀ part ∈ first.1 :: (second :: rest).map Prod.fst,
          ∃ points, node.parsePart part = .ok points :=
        forall_mem_cons.mpr ⟨(both second mem_cons_self).2,
          forall_mem_map.mpr fun item listed => (both item listed).1⟩
      rw [jobPoints_joinBodies blank (forall_mem_map.mpr jobOf.shares) decodes,
        ← map_cons, flatMap_map]
      rw [← map_cons, flatMap_map]
      exact total.trans bound
    · exact forall_mem_cons.mpr ⟨by simpa using ReplicateBatchPart.SharesJob.refl _,
        fun item later => by simpa using jobOf.shares item later⟩

end Joined

def rowsAt (node : ReplicaNode) (origin : UInt64) (parts : List ReplicateBatchPart)
    (place : Nat) : List (String × String × UInt64 × Point) :=
  parts[place]?.elim [] fun part => node.jobRows (part.job origin)

theorem rowsAt_of_mem
    (member : item ∈ acceptableItems isPeer parts) :
    node.rowsAt origin parts item.2 = node.jobRows (item.1.job origin) := by
  rw [rowsAt, (mem_acceptableItems.mp member).1]
  rfl

section Rows

theorem nodup_parts_of_mem (listed : group ∈ (groupReplicateParts isPeer parts).2) :
    group.parts.Nodup :=
  (nodup_flatMap.mp ((parts_groups_perm isPeer parts).nodup_iff.mpr
    (nodup_map_snd_acceptableItems isPeer parts))).1 group listed

theorem jobRows_of_mem (blank : ∀ precision, node.wire.lines precision [] = .ok [])
    (joins : node.PartsJoin origin store (acceptableParts isPeer parts))
    (listed : group ∈ (groupReplicateParts isPeer parts).2) :
    node.jobRows (group.job origin) = group.parts.flatMap (node.rowsAt origin parts) ∧
      node.jobLoads (group.job origin) ⊆ (acceptableParts isPeer parts).flatMap fun part =>
        node.jobLoads (part.job origin) := by
  obtain ⟨first, rest, jobOf, included⟩ := exists_jobOf_of_mem listed
  have points := jobPoints_of_jobOf blank joins jobOf included (nodup_parts_of_mem listed)
  have shares : ∀ item ∈ first :: rest, item.1.SharesJob first.1 :=
    forall_mem_cons.mpr ⟨.refl first.1, jobOf.shares⟩
  have job := jobOf.job origin
  constructor
  · rw [jobRows, points, job, jobOf.places, flatMap_map, map_flatMap]
    apply flatMap_congr
    intro item member
    rw [rowsAt_of_mem (included member), jobRows]
    obtain ⟨sameDb, sameRp, -⟩ := shares item member
    simp only [ReplicateBatchPart.job, sameDb, sameRp]
  · intro load member
    rw [jobLoads, points, job] at member
    obtain ⟨inside, keyed⟩ := mem_loadsOf.mp member
    obtain ⟨item, isItem, inPoints⟩ := mem_flatMap.mp inside
    obtain ⟨sameDb, sameRp, -⟩ := shares item isItem
    refine mem_flatMap.mpr ⟨item.1, ?_, mem_loadsOf.mpr ⟨inPoints, ?_⟩⟩
    · rw [← map_fst_acceptableItems]
      exact mem_map_of_mem (included isItem)
    · rw [keyed]
      simp only [ReplicateBatchPart.job, sameDb, sameRp]

end Rows

/-- The log ends up with the rows that it would have if every accepted part had been
enqueued alone. -/
def AppliedAsAlone (node : ReplicaNode) (call : ReplicateCall)
    (append : Except HyperbytedbError Nat) (state : ReplicaState)
    (request : ReplicateBatchRequest) : Prop :=
  ∀ outcomes jobs, node.handleReplicateBatch call request = .ok (outcomes, jobs) →
    (walRows (node.applyJobs append state jobs).wal).Perm
      (walRows (node.applyJobs append state (acceptedJobs request outcomes)).wal)

section Application

variable {call : ReplicateCall} {request : ReplicateBatchRequest}

theorem handleReplicateBatch_eq_ok
    (handled : node.handleReplicateBatch call request = .ok (outcomes, jobs)) :
    outcomes = requestOutcomes call.enqueue (node.isRegionPeer call) request.parts ∧
      jobs = (requestGroups call.enqueue (node.isRegionPeer call) request.parts).map
        (·.job request.originNode) := by
  unfold handleReplicateBatch at handled
  split at handled
  · cases handled
  · split at handled
    · cases handled
    · obtain ⟨rfl, rfl⟩ := Prod.mk.inj (Except.ok.inj handled)
      exact ⟨rfl, rfl⟩

theorem appliedAsAlone_of_partsJoin (seq : Nat)
    (blank : ∀ precision, node.wire.lines precision [] = .ok [])
    (joins : node.PartsJoin request.originNode state.metadata.store
      (acceptableParts (node.isRegionPeer call) request.parts)) :
    node.AppliedAsAlone call (.ok seq) state request := by
  intro outcomes jobs handled
  obtain ⟨rfl, rfl⟩ := handleReplicateBatch_eq_ok handled
  have below := MetadataStore.below_self state.metadata.store []
  have queuedMem := (queuedGroups_sublist call.enqueue
    (groupReplicateParts (node.isRegionPeer call) request.parts).2).subset
  rw [acceptedJobs_settleOutcomes,
    walRows_applyJobs_of_fit seq below joins.fits (nil_subset _),
    walRows_applyJobs_of_fit seq below joins.fits (nil_subset _), flatMap_map,
    flatMap_map]
  · refine List.Perm.append_left _ ?_
    have grouped : (requestGroups call.enqueue (node.isRegionPeer call) request.parts).flatMap
        (fun group => node.jobRows (group.job request.originNode)) =
        (requestPlaces call.enqueue (node.isRegionPeer call) request.parts).flatMap
          (node.rowsAt request.originNode request.parts) := by
      rw [requestPlaces, flatMap_assoc]
      exact flatMap_congr fun group queued =>
        (jobRows_of_mem blank joins (queuedMem queued)).1
    rw [grouped]
    refine ((parts_queuedGroups_perm call.enqueue _ request.parts).flatMap_right _).trans
      (List.Perm.of_eq ?_)
    rw [flatMap_map]
    exact flatMap_congr fun item member => rowsAt_of_mem (mem_of_mem_filter member)
  · intro job member
    obtain ⟨item, listed, rfl⟩ := mem_map.mp member
    intro load inside
    refine mem_flatMap.mpr ⟨item.1, ?_, inside⟩
    rw [← map_fst_acceptableItems]
    exact mem_map_of_mem (mem_of_mem_filter listed)
  · intro job member
    obtain ⟨group, queued, rfl⟩ := mem_map.mp member
    exact (jobRows_of_mem blank joins (queuedMem queued)).2

theorem groups_of_apart (apart : (acceptableParts isPeer parts).Pairwise fun first second =>
      ¬first.SharesJob second) :
    (groupReplicateParts isPeer parts).2 = (acceptableItems isPeer parts).map start := by
  refine gather_of_apart ?_
  rw [← map_fst_acceptableItems, pairwise_map] at apart
  refine apart.imp fun {first second} differ => ?_
  simpa [takes, start, ReplicateBatchPart.SharesJob] using differ

/-- Items with labels of their own are found again by the labels of a part of them. -/
theorem filter_label_mem (label : α → Nat) {chosen items : List α}
    (included : chosen.Sublist items) (distinct : (items.map label).Nodup) :
    (items.filter fun item => label item ∈ chosen.map label) = chosen := by
  induction included with
  | slnil => rfl
  | @cons chosen items head included ih =>
    obtain ⟨new, distinct⟩ := nodup_cons.mp distinct
    rw [filter_cons_of_neg, ih distinct]
    intro known
    exact new (map_subset label included.subset (of_decide_eq_true known))
  | @cons_cons chosen items head included ih =>
    obtain ⟨new, distinct⟩ := nodup_cons.mp distinct
    rw [filter_cons_of_pos (by simp)]
    congr 1
    refine Eq.trans (filter_congr fun item member => ?_) (ih distinct)
    have other : label item ≠ label head := fun same => new (same ▸ mem_map_of_mem member)
    simp [other]

theorem jobs_of_apart (enqueue : Nat → EnqueueAnswer)
    (apart : (acceptableParts isPeer request.parts).Pairwise fun first second =>
      ¬first.SharesJob second) :
    (requestGroups enqueue isPeer request.parts).map (·.job request.originNode) =
      acceptedJobs request (requestOutcomes enqueue isPeer request.parts) := by
  let chosen := ((acceptableItems isPeer request.parts).zipIdx.filter fun entry =>
    enqueue entry.2 = .queued).map Prod.fst
  have included : chosen.Sublist (acceptableItems isPeer request.parts) := by
    conv_rhs => rw [← zipIdx_map_fst 0 (acceptableItems isPeer request.parts)]
    exact filter_sublist.map Prod.fst
  have groups : requestGroups enqueue isPeer request.parts =
      chosen.map start := by
    rw [requestGroups, groups_of_apart apart, queuedGroups_eq, zipIdx_map, filter_map,
      map_map, map_map]
    rfl
  have places : requestPlaces enqueue isPeer request.parts = chosen.map Prod.snd := by
    rw [requestPlaces, groups, flatMap_map, map_eq_flatMap]
    rfl
  rw [acceptedJobs_settleOutcomes, places, filter_label_mem Prod.snd included
    (nodup_map_snd_acceptableItems isPeer request.parts), groups, map_map]
  rfl

theorem appliedAsAlone_of_apart (append : Except HyperbytedbError Nat)
    (apart : (acceptableParts (node.isRegionPeer call) request.parts).Pairwise
      fun first second => ¬first.SharesJob second) :
    node.AppliedAsAlone call append state request := by
  intro outcomes jobs handled
  obtain ⟨rfl, rfl⟩ := handleReplicateBatch_eq_ok handled
  rw [jobs_of_apart call.enqueue apart]

theorem groups_of_shared {rest : List ReplicateBatchPart}
    (passes : ∀ other ∈ part :: rest, replicatePartOutcome isPeer other = .accepted)
    (shares : ∀ other ∈ rest, other.SharesJob part) :
    ∃ group, (groupReplicateParts isPeer (part :: rest)).2 = [group] ∧
      ∀ origin, group.job origin = { part.job origin with body := joinBodies part.body rest } := by
  refine ⟨(rest.zipIdx 1).foldl add (start (part, 0)), ?_, fun origin => ?_⟩
  · have items := acceptableItems_of_passes passes
    rw [acceptableItems] at items
    rw [groupReplicateParts, items]
    refine gather_of_taken (fun group : ReplicateApplyGroup =>
      group.database = part.database ∧ group.retentionPolicy = part.retentionPolicy ∧
        group.precision = part.precision ∧
        isBinaryPoints group.body = isBinaryPoints part.body) ⟨rfl, rfl, rfl, rfl⟩ ?_
    rintro ⟨other, index⟩ member group ⟨sameDb, sameRp, samePrecision, sameEncoding⟩
    obtain ⟨db, rp, precision, encoding⟩ := shares other (fst_mem_of_mem_zipIdx member)
    refine ⟨by simp [takes, *], sameDb, sameRp, samePrecision, ?_⟩
    exact (isBinaryPoints_append _ _).trans sameEncoding
  · have joined : ∀ (items : List (ReplicateBatchPart × Nat)) (group : ReplicateApplyGroup),
        (items.foldl add group).job origin =
          { group.job origin with body := joinBodies group.body (items.map Prod.fst) } := by
      intro items
      induction items with
      | nil => exact fun _ => rfl
      | cons item items ih => exact fun group => ih (group.add item)
    rw [joined, zipIdx_map_fst]
    rfl

theorem agree_of_appliedAsAlone {rest : List ReplicateBatchPart}
    (seq : Nat) (listed : request.parts = part :: rest) (passes : ∀ other ∈ part :: rest,
      replicatePartOutcome (node.isRegionPeer call) other = .accepted)
    (shares : ∀ other ∈ rest, other.SharesJob part)
    (valid : node.validateOriginNodeId request.originNode = true)
    (configured : call.queueConfigured = true) (queued : call.enqueue 0 = .queued)
    (applied : (node.applyBatch (.ok seq) state (part.job request.originNode)).2.wal ≠ state.wal)
    (asAlone : node.AppliedAsAlone call (.ok seq) state request) :
    ∃ points, node.wire.parseLineBodyToPointsLimited part.precision node.maxPointsPerRequest
        (joinBodies part.body rest) = .ok points ∧ points.Pairwise TypesAgree := by
  obtain ⟨group, groups, job⟩ := groups_of_shared passes shares
  have handled : node.handleReplicateBatch call request =
      .ok (requestOutcomes call.enqueue (node.isRegionPeer call) request.parts,
        [group.job request.originNode]) := by
    simp [handleReplicateBatch, requestOutcomes, valid, configured, listed, groups, queuedGroups,
      queued]
  have perm := asAlone _ _ handled
  have everyPlace : requestPlaces call.enqueue (node.isRegionPeer call) request.parts =
      (groupReplicateParts (node.isRegionPeer call) request.parts).2.flatMap
        ReplicateApplyGroup.parts := by
    rw [requestPlaces, requestGroups, listed, groups]
    simp [queuedGroups, queued]
  rw [acceptedJobs_settleOutcomes, everyPlace, filter_eq_self.mpr, listed,
    acceptableItems_of_passes passes, map_cons] at perm
  · have more : (walRows state.wal).length < (walRows (node.applyBatch (.ok seq) state
        (part.job request.originNode)).2.wal).length := by
      obtain ⟨_, _, -, -, appended⟩ := (node.applyBatch_wal _ _ _).resolve_left applied
      simp [appended, walRows]
    have later := (walRows_le_applyJobs node (.ok seq)
      (node.applyBatch (.ok seq) state (part.job request.originNode)).2
      ((rest.zipIdx 1).map fun item => item.1.job request.originNode)).length_le
    have grouped : (node.applyBatch (.ok seq) state (group.job request.originNode)).2.wal ≠
        state.wal := by
      intro same
      have lengths := perm.length_eq
      simp only [applyJobs, foldl_cons, foldl_nil] at lengths later
      rw [same] at lengths
      omega
    obtain ⟨first, more, parsed, agree, -⟩ := (node.applyBatch_wal _ _ _).resolve_left grouped
    rw [job] at parsed
    exact ⟨_, parsed, agree⟩
  · intro item member
    have place := (parts_groups_perm (node.isRegionPeer call) request.parts).mem_iff.mpr
      (mem_map_of_mem member)
    simpa using place

end Application

end ReplicaNode

def byteReplica : ReplicaNode where
  wire := byteWire
  hashes := ⟨fun _ _ _ => 0, fun _ _ => 0, fun _ _ _ _ _ => 0, fun _ _ _ => 0⟩
  limits := {}
  maxPointsPerRequest := 0
  shardingEnabled := true
  nodeId := 2
  membership := some twoNodes

def openQueue : ReplicateCall where
  queueConfigured := true
  snapshot := none
  enqueue _ := .queued

def replicatedByte (byte : UInt8) : ReplicateBatchPart :=
  ⟨"db", "autogen", none, none, [byte]⟩

def replicatedBytes (first second : UInt8) : ReplicateBatchRequest :=
  ⟨1, [replicatedByte first, replicatedByte second]⟩

theorem partsJoin_floats : byteReplica.PartsJoin 1 {} [replicatedByte 1, replicatedByte 2] := by
  refine ⟨pairwise_pair.mpr fun _ => ⟨⟨_, rfl⟩, ⟨_, rfl⟩⟩, by decide +kernel, ?_⟩
  exact loadsFit_floats

namespace ReplicaNode

end ReplicaNode

end HyperbyteDb
