import HyperbyteDb.MetadataGrowth
import HyperbyteDb.ShardWriteBatches

/-!
# When forwarded parts do not interfere

The parts of a request are checked against the metadata from before the request, and the points
of a group meet only in its metadata pass.
-/

namespace HyperbyteDb

open FirstFitGroups ForwardGroup IngestState List MetadataStore

theorem lookup_eq_some_of_forall {α β : Type} [BEq α] [LawfulBEq α] {entries : List (α × β)}
    {key : α} {value : β} (present : ∃ found, (key, found) ∈ entries)
    (only : ∀ found, (key, found) ∈ entries → found = value) : entries.lookup key = some value := by
  induction entries with
  | nil => simp at present
  | cons entry rest ih =>
    obtain ⟨other, held⟩ := entry
    by_cases same : key = other
    · subst same
      rw [lookup_cons_self, only held mem_cons_self]
    · rw [lookup_cons, beq_false_of_ne same]
      refine ih ?_ fun found member => only found (mem_cons_of_mem _ member)
      obtain ⟨found, member⟩ := present
      rcases mem_cons.mp member with here | later
      · exact absurd (congrArg Prod.fst here) same
      · exact ⟨found, later⟩

/-- A group holds parts of its own database and retention policy, within the limit. -/
structure ForwardGroup.WithinLimit (limit : Nat) (group : ForwardGroup) : Prop where
  nonempty : group.members ≠ []
  keyed : ∀ member ∈ group.members, member.2.request.db = group.db ∧ member.2.request.rp = group.rp
  bounded : group.points.length ≤ limit

variable {limit : Nat}

variable {group : ForwardGroup}

theorem ForwardGroup.WithinLimit.add
    (within : group.WithinLimit limit) {member : Nat × ReadyPart}
    (room : group.takes limit member = true) : (group.add member).WithinLimit limit := by
  simp only [takes, Bool.and_eq_true, beq_iff_eq] at room
  obtain ⟨⟨sameDb, sameRp⟩, short⟩ := room
  refine ⟨by simp [ForwardGroup.add], ?_, ?_⟩
  · intro other inside
    rcases mem_append.mp inside with before | new
    · exact within.keyed other before
    · obtain rfl := mem_singleton.mp new
      exact ⟨sameDb.symm, sameRp.symm⟩
  · simpa [ForwardGroup.add, ForwardGroup.points] using short

theorem splitFieldTypeConflicts_eq (store : MetadataStore) (db rp : String) (points : List Point) :
    splitFieldTypeConflicts store db rp points =
      let split := splitKnown (fun name => store.fieldTypesAt ⟨db, rp, name⟩) points
      (split.1, split.2.head?.map fun cause => .partialWrite cause.message split.2.length) := by
  have same : knownTypes (fun name => store.fieldTypesAt ⟨db, rp, name⟩) ∅ =
      fun name => store.fieldTypesAt ⟨db, rp, name⟩ := by simp [knownTypes, funext_iff]
  rw [← same, ← splitPoints_eq]
  rfl

variable {store base : MetadataStore} {done : Loads}

variable {points : List Point}

/-- What other points bring to a measurement in between does not change a split, as long
as it is compatible with the points or was stored before. -/
theorem splitFieldTypeConflicts_congr (below : store.Below base done) {db rp : String}
    (apart : ∀ point ∈ points, ∀ other, (⟨db, rp, point.measurement⟩, other) ∈ done →
      ∀ (field : String) type brought, point.fieldType? field = some type →
        other.fieldType? field = some brought → fieldTypesCompatible brought type = true ∨
          (base.fieldTypesAt ⟨db, rp, point.measurement⟩)[field]? = some brought) :
    splitFieldTypeConflicts store db rp points = splitFieldTypeConflicts base db rp points := by
  rw [splitFieldTypeConflicts_eq, splitFieldTypeConflicts_eq, splitKnown_congr
    (fun name field => below.types ⟨db, rp, name⟩ field) fun name => coversTypes_self _]
  rintro point member field type brought typed ⟨other, load, otherTyped⟩
  exact apart point member other load field type brought typed otherTyped

/-- The two series in a region each, both on one node. -/
def bothRegions : ShardMap where
  mapVersion := 1
  nextRegionId := 3
  spaces := (∅ : Std.ExtTreeMap MeasurementKey MeasurementShardSpace).insert sampleKey
    { key := sampleKey
      regions := [{ soleRegion 1 ⟨0, 1⟩ with end_ := 100 },
        { soleRegion 2 ⟨0, 1⟩ with start := 100 }] }

def bytePrimary : ShardPrimary where
  service := byteService
  hashes := ⟨fun _ _ _ => 0, fun _ _ => 0, fun _ _ _ _ _ => 0, fun _ _ _ => 0⟩
  limits := {}
  nodeId := 1
  errorJson text := text

/-- A request that meets both regions, a log that accepts and replicas that answer. -/
def openCall : PrimaryCall where
  snapshot := some (.ok bothRegions)
  append := .ok 1
  replicate _ _ := .ok ()

def bytePart (regionId : UInt64) (byte : UInt8) : ShardWriteRequest :=
  ⟨"db", "autogen", none, ⟨0, 1⟩, regionId, [byte]⟩

namespace ShardPrimary

variable {primary : ShardPrimary} {map : ShardMap} {call : PrimaryCall}

variable (taken : call.snapshot = some (.ok map))
variable {part : ShardWriteRequest}

def checkedPoints (primary : ShardPrimary) (map : ShardMap) (part : ShardWriteRequest) :
    List Point :=
  match forwardedWriteRegion map primary.nodeId part, primary.parsePart part with
  | .ok _, .ok points => points
  | _, _ => []

def keptLoads (primary : ShardPrimary) (map : ShardMap) (store : MetadataStore)
    (part : ShardWriteRequest) : Loads :=
  match primary.checkPart map store part with
  | .ok ready => loadsOf ready.request.db ready.request.rp ready.points
  | .error _ => []

def Unaffected (primary : ShardPrimary) (map : ShardMap) (store : MetadataStore)
    (brought : Loads) (part : ShardWriteRequest) : Prop :=
  ∀ point ∈ primary.checkedPoints map part,
    ∀ other, (⟨part.db, part.rp, point.measurement⟩, other) ∈ brought →
      ∀ (field : String) type earlier, point.fieldType? field = some type →
        other.fieldType? field = some earlier → fieldTypesCompatible earlier type = true ∨
          (store.fieldTypesAt ⟨part.db, part.rp, point.measurement⟩)[field]? = some earlier

/-- No part changes the checks of a later one, and the parts that are written agree on
their types and stay within the limits together, unless there is at most one of them. -/
structure PartsFit (primary : ShardPrimary) (map : ShardMap) (store : MetadataStore)
    (parts : List ShardWriteRequest) : Prop where
  apart : parts.Pairwise fun earlier later =>
    primary.Unaffected map store (primary.keptLoads map store earlier) later
  fits : (primary.readyParts map store parts).length ≤ 1 ∨
    LoadsFit primary.limits store (parts.flatMap (primary.keptLoads map store))

theorem checkPart_congr (below : store.Below base done)
    (unaffected : primary.Unaffected map base done part) :
    primary.checkPart map store part = primary.checkPart map base part := by
  unfold checkPart
  cases region : forwardedWriteRegion map primary.nodeId part with
  | error refusal => rfl
  | ok found =>
    cases parsed : primary.parsePart part with
    | error cause => rfl
    | ok points =>
      have checked : primary.checkedPoints map part = points := by
        simp [checkedPoints, region, parsed]
      have same : splitFieldTypeConflicts store part.db part.rp points =
          splitFieldTypeConflicts base part.db part.rp points :=
        splitFieldTypeConflicts_congr below (by simpa [Unaffected, checked] using unaffected)
      simp only [splitForwardedConflicts, same]

variable {ready : ReadyPart}

theorem splitForwardedConflicts_eq_ok {request kept : ShardWriteRequest} {points sent : List Point}
    {partialWrite : Option String}
    (split : primary.splitForwardedConflicts store request points = .ok (kept, sent, partialWrite)) :
    kept.db = request.db ∧ kept.rp = request.rp ∧
      sent = (splitFieldTypeConflicts store request.db request.rp points).1 := by
  revert split
  fun_cases splitForwardedConflicts <;> rintro ⟨⟩ <;> simp [*]

theorem checkPart_eq_ok (checked : primary.checkPart map store part = .ok ready) :
    ready.request.db = part.db ∧ ready.request.rp = part.rp ∧
      ∃ points, primary.parsePart part = .ok points ∧
        ready.points = (splitFieldTypeConflicts store part.db part.rp points).1 := by
  revert checked
  fun_cases checkPart with
  | case5 region owned points parsed request kept partialWrite _ split =>
    rintro ⟨⟩
    obtain ⟨sameDb, sameRp, isKept⟩ := splitForwardedConflicts_eq_ok split
    exact ⟨sameDb, sameRp, points, parsed, isKept⟩
  | _ => rintro ⟨⟩

theorem length_points_le (checked : primary.checkPart map store part = .ok ready) :
    ready.points.length ≤ pointLimit primary.service.maxPointsPerRequest := by
  obtain ⟨-, -, points, parsed, kept⟩ := checkPart_eq_ok checked
  rw [kept, splitFieldTypeConflicts_eq]
  exact (splitKnown_sublist _ _).length_le.trans
    (PointWire.length_le_of_parseLineBodyToPointsLimited parsed)

/-- What the log makes of a group whose metadata pass succeeds. -/
def walOutcome (call : PrimaryCall) : Except (Nat × String) Unit :=
  match call.append with
  | .error cause => .error (500, cause.message)
  | .ok _ => .ok ()

variable {state : PrimaryState}

theorem appendForwardedGroup_of_ok (call : PrimaryCall) {db rp : String} {metadata : IngestState}
    (prepared : state.metadata.prepareBatchMetadata primary.hashes db rp primary.limits
      points = .ok metadata)
    (short : points.length ≤ pointLimit primary.service.maxPointsPerRequest) :
    ∃ after, primary.appendForwardedGroup call state db rp points = (walOutcome call, after) ∧
      after.metadata = metadata := by
  unfold appendForwardedGroup walOutcome appendPoints
  rw [prepared]
  rw [if_neg (Nat.not_lt.mpr short)]
  cases call.append <;> exact ⟨_, rfl, rfl⟩

variable {outcome : Except (Nat × String) Unit}

variable {after : PrimaryState}

theorem appendForwardedGroup_below {db rp : String}
    (below : state.metadata.store.Below base done)
    (appended : primary.appendForwardedGroup call state db rp points = (outcome, after)) :
    after.metadata.store.Below base (done ++ loadsOf db rp points) := by
  unfold appendForwardedGroup at appended
  split at appended
  next =>
    cases appended
    exact below.mono (subset_append_left _ _)
  next metadata prepared =>
    have grown := prepareBatchMetadata_below below prepared
    split at appended <;> (cases appended; exact grown)

/-- The answer to a part, given what becomes of parts that are written. -/
def expectedAnswer (primary : ShardPrimary) (map : ShardMap) (store : MetadataStore)
    (call : PrimaryCall) (outcome : Except (Nat × String) Unit) (part : ShardWriteRequest) :
    PartAnswer :=
  match primary.checkPart map store part with
  | .error refusal => primary.refusedPart part refusal
  | .ok ready => primary.memberAnswer call outcome ready

include taken in
/-- The first of several requests of one part each. -/
theorem applyOneByOne_cons (rest : List ShardWriteRequest) :
    (primary.applyOneByOne call state (part :: rest)).1 =
      match primary.checkPart map state.metadata.store part with
      | .error refusal =>
        primary.refusedPart part refusal :: (primary.applyOneByOne call state rest).1
      | .ok ready =>
        let appended := primary.appendForwardedGroup call state ready.request.db
          ready.request.rp ready.points
        primary.memberAnswer call appended.1 ready ::
          (primary.applyOneByOne call appended.2 rest).1 := by
  cases checked : primary.checkPart map state.metadata.store part <;>
    simp [applyOneByOne, applyShardWriteBatch, taken, refusedParts, forwardGroups, readyParts,
      checked, settleGroups, Except.toOption, gather, place,
      start, points]

variable {answer : PartAnswer} {groups : List ForwardGroup}

variable {parts : List ShardWriteRequest}

section Batch

variable {index : Nat}

theorem mem_readyParts : (index, ready) ∈ primary.readyParts map store parts ↔
      ∃ part, parts[index]? = some part ∧ primary.checkPart map store part = .ok ready := by
  simp only [readyParts, mem_filterMap, Prod.exists, Option.map_eq_some_iff, Prod.mk.injEq,
    mem_zipIdx_iff_getElem?]
  constructor
  · rintro ⟨part, place, listed, found, passed, rfl, rfl⟩
    cases checked : primary.checkPart map store part <;> simp_all [Except.toOption]
  · rintro ⟨part, listed, checked⟩
    exact ⟨part, index, listed, ready, by simp [checked, Except.toOption], rfl, rfl⟩

theorem exists_mem_readyParts (member : part ∈ parts)
    (checked : primary.checkPart map store part = .ok ready) :
    ∃ index, (index, ready) ∈ primary.readyParts map store parts := by
  obtain ⟨index, place⟩ := getElem?_of_mem member
  exact ⟨index, mem_readyParts.mpr ⟨part, place, checked⟩⟩

theorem mem_refusedParts :
    (index, answer) ∈ primary.refusedParts map store parts ↔
      ∃ part refusal, parts[index]? = some part ∧
        primary.checkPart map store part = .error refusal ∧
        answer = primary.refusedPart part refusal := by
  unfold refusedParts
  rw [mem_filterMap]
  constructor
  · rintro ⟨⟨part, place⟩, listed, refused⟩
    cases checked : primary.checkPart map store part with
    | ok found => simp [checked] at refused
    | error refusal =>
      simp only [checked] at refused
      obtain ⟨rfl, rfl⟩ := refused
      exact ⟨part, refusal, mem_zipIdx_iff_getElem?.mp listed, checked, rfl⟩
  · rintro ⟨part, refusal, listed, checked, rfl⟩
    exact ⟨(part, index), mem_zipIdx_iff_getElem?.mpr listed, by simp [checked]⟩

theorem members_forwardGroups_perm (primary : ShardPrimary) (map : ShardMap)
    (store : MetadataStore) (parts : List ShardWriteRequest) :
    ((primary.forwardGroups map store parts).flatMap (·.members)).Perm
      (primary.readyParts map store parts) := by
  have perm : ((primary.forwardGroups map store parts).flatMap members).Perm
      ((primary.readyParts map store parts).map id) :=
    gather_perm members id (fun _ => rfl) (fun _ _ => rfl) _
  rwa [map_id] at perm

section

variable (listed : group ∈ primary.forwardGroups map store parts)
include listed

theorem forwardGroups_withinLimit :
    group.WithinLimit (pointLimit primary.service.maxPointsPerRequest) := by
  refine gather_forall
    (ForwardGroup.WithinLimit (pointLimit primary.service.maxPointsPerRequest)) ?_
    (fun _ _ _ within room => within.add room) group listed
  rintro ⟨index, ready⟩ member
  obtain ⟨part, -, checked⟩ := mem_readyParts.mp member
  refine ⟨by simp [start], by simp [start], ?_⟩
  simpa [start, ForwardGroup.points] using length_points_le checked

theorem loadsOf_group_subset :
    loadsOf group.db group.rp group.points ⊆ parts.flatMap (primary.keptLoads map store) := by
  intro load member
  obtain ⟨inside, keyed⟩ := mem_loadsOf.mp member
  obtain ⟨⟨index, ready⟩, isMember, inReady⟩ := mem_flatMap.mp inside
  obtain ⟨sameDb, sameRp⟩ := (forwardGroups_withinLimit listed).keyed _ isMember
  obtain ⟨part, place, checked⟩ := mem_readyParts.mp
    ((members_forwardGroups_perm primary map store parts).subset
      (mem_flatMap.mpr ⟨group, listed, isMember⟩))
  refine mem_flatMap.mpr ⟨part, mem_of_getElem? place, ?_⟩
  rw [keptLoads, checked]
  exact mem_loadsOf.mpr ⟨inReady, by rw [keyed, ← sameDb, ← sameRp]⟩

end

include taken in
/-- When all written parts of a request have one outcome, each part is answered by its
own checks and that outcome. -/
theorem applyShardWriteBatch_of_settled (settled : primary.settleGroups call state
        (primary.forwardGroups map state.metadata.store parts) =
      (((primary.forwardGroups map state.metadata.store parts).flatMap (·.members)).map
        fun member => (member.1, primary.memberAnswer call outcome member.2), after)) :
    (primary.applyShardWriteBatch call state parts).1 =
      parts.map (primary.expectedAnswer map state.metadata.store call outcome) := by
  simp only [applyShardWriteBatch, taken, settled]
  refine ext_getElem (by simp) fun index inRange _ => ?_
  have place : index < parts.length := by simpa using inRange
  have listed : parts[index]? = some parts[index] := getElem?_eq_getElem place
  have members := members_forwardGroups_perm primary map state.metadata.store parts
  have answered : (primary.refusedParts map state.metadata.store parts ++
      ((primary.forwardGroups map state.metadata.store parts).flatMap (·.members)).map
        fun member => (member.1, primary.memberAnswer call outcome member.2)).lookup index =
      some (primary.expectedAnswer map state.metadata.store call outcome parts[index]) := by
    refine lookup_eq_some_of_forall ?_ fun found member => ?_
    · cases checked : primary.checkPart map state.metadata.store parts[index] with
      | error refusal =>
        exact ⟨_, mem_append_left _ (mem_refusedParts.mpr ⟨_, refusal, listed, checked, rfl⟩)⟩
      | ok ready =>
        exact ⟨_, mem_append_right _ (mem_map.mpr ⟨(index, ready),
          members.symm.subset (mem_readyParts.mpr ⟨_, listed, checked⟩), rfl⟩)⟩
    · rcases mem_append.mp member with refused | written
      · obtain ⟨part, refusal, here, checked, rfl⟩ := mem_refusedParts.mp refused
        cases listed.symm.trans here
        simp [expectedAnswer, checked]
      · obtain ⟨⟨other, ready⟩, isMember, same⟩ := mem_map.mp written
        obtain ⟨rfl, rfl⟩ := Prod.mk.inj same
        obtain ⟨part, here, checked⟩ := mem_readyParts.mp (members.subset isMember)
        cases listed.symm.trans here
        simp [expectedAnswer, checked]
  rw [getElem_map, getElem_map, getElem_range, answered, Option.getD_some]

theorem settleGroups_of_fit {kept : Loads}
    (below : state.metadata.store.Below base done) (fit : LoadsFit primary.limits base kept)
    (doneKept : done ⊆ kept) (within : ∀ group ∈ groups,
      group.WithinLimit (pointLimit primary.service.maxPointsPerRequest))
    (groupsKept : ∀ group ∈ groups, loadsOf group.db group.rp group.points ⊆ kept) :
    ∃ after, primary.settleGroups call state groups =
      ((groups.flatMap (·.members)).map fun member =>
        (member.1, primary.memberAnswer call (walOutcome call) member.2), after) := by
  induction groups generalizing state done with
  | nil => exact ⟨state, rfl⟩
  | cons group rest ih =>
    obtain ⟨groupKept, restKept⟩ := forall_mem_cons.mp groupsKept
    obtain ⟨groupWithin, restWithin⟩ := forall_mem_cons.mp within
    obtain ⟨metadata, prepared, grown⟩ :=
      prepareBatchMetadata_of_fit below fit doneKept groupKept
    obtain ⟨middle, appended, rfl⟩ := appendForwardedGroup_of_ok call prepared groupWithin.bounded
    obtain ⟨after, settled⟩ := ih grown (append_subset.mpr ⟨doneKept, groupKept⟩) restWithin
      restKept
    simp [settleGroups, appended, settled]

end Batch

section Sequence

variable {kept : Loads}

theorem Unaffected.append {more : Loads} (first : primary.Unaffected map base done part)
    (second : primary.Unaffected map base more part) :
    primary.Unaffected map base (done ++ more) part := by
  intro point member other load
  rcases mem_append.mp load with before | after
  · exact first point member other before
  · exact second point member other after

theorem unaffected_nil : primary.Unaffected map base [] part := by
  intro point member other load
  cases load

include taken in
/-- Parts that are all refused get the same refusals in their own requests. -/
theorem applyOneByOne_of_refused (below : state.metadata.store.Below base done)
    (unaffected : ∀ part ∈ parts, primary.Unaffected map base done part)
    (refused : ∀ part ∈ parts, ∀ ready, primary.checkPart map base part ≠ .ok ready)
    (outcome : Except (Nat × String) Unit) : (primary.applyOneByOne call state parts).1 =
      parts.map (primary.expectedAnswer map base call outcome) := by
  induction parts with
  | nil => rfl
  | cons part rest ih =>
    obtain ⟨unaffectedPart, unaffectedRest⟩ := forall_mem_cons.mp unaffected
    obtain ⟨refusedPart, refusedRest⟩ := forall_mem_cons.mp refused
    have same := checkPart_congr below unaffectedPart
    cases checked : primary.checkPart map base part with
    | ok ready => exact absurd checked (refusedPart ready)
    | error refusal =>
      have answers := ih unaffectedRest refusedRest
      simp [applyOneByOne_cons taken, same, answers, expectedAnswer, checked]

include taken in
/-- Parts that fit are answered in their own requests as the state before all of them
would have it. -/
theorem applyOneByOne_of_fit (fit : LoadsFit primary.limits base kept)
    (below : state.metadata.store.Below base done) (doneKept : done ⊆ kept)
    (partsKept : parts.flatMap (primary.keptLoads map base) ⊆ kept)
    (unaffected : ∀ part ∈ parts, primary.Unaffected map base done part)
    (apart : parts.Pairwise fun earlier later =>
      primary.Unaffected map base (primary.keptLoads map base earlier) later) :
    (primary.applyOneByOne call state parts).1 =
      parts.map (primary.expectedAnswer map base call (walOutcome call)) := by
  induction parts generalizing state done with
  | nil => rfl
  | cons part rest ih =>
    obtain ⟨apartPart, apartRest⟩ := pairwise_cons.mp apart
    obtain ⟨partKept, restKept⟩ := append_subset.mp (flatMap_cons ▸ partsKept)
    obtain ⟨unaffectedPart, unaffectedRest⟩ := forall_mem_cons.mp unaffected
    have same := checkPart_congr below unaffectedPart
    cases checked : primary.checkPart map base part with
    | error refusal =>
      have answers := ih below doneKept restKept unaffectedRest apartRest
      simp [applyOneByOne_cons taken, same, answers, expectedAnswer, checked]
    | ok ready =>
      have loads : primary.keptLoads map base part =
          loadsOf ready.request.db ready.request.rp ready.points := by
        rw [keptLoads, checked]
      rw [loads] at partKept
      obtain ⟨metadata, prepared, grown⟩ :=
        prepareBatchMetadata_of_fit below fit doneKept partKept
      obtain ⟨after, appended, rfl⟩ := appendForwardedGroup_of_ok call prepared
        (length_points_le checked)
      have answers := ih grown (append_subset.mpr ⟨doneKept, partKept⟩) restKept
        (fun other member => (unaffectedRest other member).append
          (loads ▸ apartPart other member)) apartRest
      simp [applyOneByOne_cons taken, same, appended, answers, expectedAnswer, checked]

include taken in
/-- With one part to write, the requests before it change nothing and those after it
are refused. -/
theorem applyOneByOne_of_length_le_one
    (apart : parts.Pairwise fun earlier later => primary.Unaffected map state.metadata.store
      (primary.keptLoads map state.metadata.store earlier) later)
    (single : (parts.filterMap fun part =>
      (primary.checkPart map state.metadata.store part).toOption).length ≤ 1)
    (appends : ∀ part ∈ parts, ∀ ready,
      primary.checkPart map state.metadata.store part = .ok ready →
      (primary.appendForwardedGroup call state ready.request.db ready.request.rp
        ready.points).1 = outcome) :
    (primary.applyOneByOne call state parts).1 =
      parts.map (primary.expectedAnswer map state.metadata.store call outcome) := by
  induction parts with
  | nil => rfl
  | cons part rest ih =>
    obtain ⟨apartPart, apartRest⟩ := pairwise_cons.mp apart
    obtain ⟨appendsPart, appendsRest⟩ := forall_mem_cons.mp appends
    cases checked : primary.checkPart map state.metadata.store part with
    | error refusal =>
      have answers := ih apartRest
        (by simpa [filterMap_cons, checked, Except.toOption] using single) appendsRest
      simp [applyOneByOne_cons taken, answers, expectedAnswer, checked]
    | ok ready =>
      have outcome_eq := appendsPart ready checked
      cases appended : primary.appendForwardedGroup call state ready.request.db
          ready.request.rp ready.points with
      | mk found after =>
        rw [appended] at outcome_eq
        obtain rfl : found = outcome := outcome_eq
        have loads : primary.keptLoads map state.metadata.store part =
            loadsOf ready.request.db ready.request.rp ready.points := by
          rw [keptLoads, checked]
        have none_ : ∀ other ∈ rest, ∀ ready,
            primary.checkPart map state.metadata.store other ≠ .ok ready := by
          intro other member ready' passes
          have ready_mem : ready' ∈ rest.filterMap fun part =>
              (primary.checkPart map state.metadata.store part).toOption :=
            mem_filterMap.mpr ⟨other, member, by rw [passes]; rfl⟩
          have positive := length_pos_of_mem ready_mem
          rw [filterMap_cons_some (by rw [checked]; rfl), length_cons] at single
          omega
        have answers := applyOneByOne_of_refused taken
          (appendForwardedGroup_below (below_self _ []) appended)
          (fun other member => unaffected_nil.append (loads ▸ apartPart other member)) none_ found
        simp [applyOneByOne_cons taken, appended, answers, expectedAnswer, checked]

end Sequence

/-- Each part gets the answer, and has the points appended, of its own request. -/
def Isolated (primary : ShardPrimary) (call : PrimaryCall) (state : PrimaryState)
    (parts : List ShardWriteRequest) : Prop :=
  (primary.applyShardWriteBatch call state parts).1 = (primary.applyOneByOne call state parts).1

section Isolation

theorem map_snd_readyParts : (primary.readyParts map store parts).map Prod.snd =
      parts.filterMap fun part => (primary.checkPart map store part).toOption := by
  unfold readyParts
  conv_rhs => rw [← zipIdx_map_fst 0 parts]
  rw [map_filterMap, filterMap_map]
  apply filterMap_congr
  rintro ⟨part, index⟩ -
  cases checked : primary.checkPart map store part <;> simp [Except.toOption]

include taken in
/-- At most one part to write is at most one group of one part. -/
theorem isolated_of_length_le_one
    (apart : parts.Pairwise fun earlier later => primary.Unaffected map state.metadata.store
      (primary.keptLoads map state.metadata.store earlier) later)
    (single : (primary.readyParts map state.metadata.store parts).length ≤ 1) :
    primary.Isolated call state parts := by
  have count : (parts.filterMap fun part =>
      (primary.checkPart map state.metadata.store part).toOption).length ≤ 1 := by
    rwa [← map_snd_readyParts, length_map]
  unfold Isolated
  cases ready : primary.readyParts map state.metadata.store parts with
  | nil =>
    have noGroups : primary.forwardGroups map state.metadata.store parts = [] := by
      rw [forwardGroups, ready]
      rfl
    have none_ : ∀ part ∈ parts, ∀ found,
        primary.checkPart map state.metadata.store part ≠ .ok found := by
      intro part member found checked
      obtain ⟨index, listed⟩ := exists_mem_readyParts member checked
      rw [ready] at listed
      cases listed
    rw [applyOneByOne_of_refused taken (below_self _ [])
      (fun part _ => unaffected_nil) none_ (.ok ())]
    exact applyShardWriteBatch_of_settled taken (by rw [noGroups]; rfl)
  | cons member rest =>
    obtain rfl : rest = [] := by
      rw [ready, length_cons] at single
      exact eq_nil_of_length_eq_zero (by omega)
    have oneGroup : primary.forwardGroups map state.metadata.store parts =
        [⟨member.2.request.db, member.2.request.rp, [member]⟩] := by
      rw [forwardGroups, ready]
      rfl
    cases appended : primary.appendForwardedGroup call state member.2.request.db
        member.2.request.rp member.2.points with
    | mk outcome after =>
      have settled : primary.settleGroups call state
          [⟨member.2.request.db, member.2.request.rp, [member]⟩] =
          ([(member.1, primary.memberAnswer call outcome member.2)], after) := by
        simp [settleGroups, points, appended]
      have appends : ∀ part ∈ parts, ∀ found,
          primary.checkPart map state.metadata.store part = .ok found →
          (primary.appendForwardedGroup call state found.request.db found.request.rp
            found.points).1 = outcome := by
        intro part inside found checked
        obtain ⟨index, listed⟩ := exists_mem_readyParts inside checked
        rw [ready] at listed
        rw [← mem_singleton.mp listed] at appended
        rw [appended]
      rw [applyOneByOne_of_length_le_one taken apart count appends]
      exact applyShardWriteBatch_of_settled taken (by rw [oneGroup]; exact settled)

include taken in
theorem isolated_of_partsFit (fit : primary.PartsFit map state.metadata.store parts) :
    primary.Isolated call state parts := by
  rcases fit.fits with single | fits
  · exact isolated_of_length_le_one taken fit.apart single
  · have below := below_self state.metadata.store []
    obtain ⟨after, settled⟩ := settleGroups_of_fit below fits
      (nil_subset _) (fun group listed => forwardGroups_withinLimit listed)
      fun group listed => loadsOf_group_subset listed
    rw [Isolated, applyShardWriteBatch_of_settled taken settled,
      applyOneByOne_of_fit taken fits below (nil_subset _) (List.Subset.refl _)
        (fun part _ => unaffected_nil) fit.apart]

/-- Without a shard map every part is refused, whatever it comes with. -/
theorem isolated_of_no_map (absent : ∀ map, call.snapshot ≠ some (.ok map)) :
    primary.Isolated call state parts := by
  have alike : ∀ answer : ShardWriteRequest → PartAnswer,
      (∀ parts, primary.applyShardWriteBatch call state parts = (parts.map answer, state)) →
        primary.Isolated call state parts := by
    intro answer batch
    rw [Isolated, batch]
    induction parts with
    | nil => rfl
    | cons part rest ih => simp [applyOneByOne, batch, ← ih]
  rcases taken : call.snapshot with _ | cause | map
  · exact alike (primary.refusedPart · (400, "sharding disabled")) fun parts => by
      simp only [applyShardWriteBatch, taken]
  · exact alike (primary.refusedPart · (500, cause.message)) fun parts => by
      simp only [applyShardWriteBatch, taken]
  · exact absurd taken (absent map)

theorem loadsFit_splitFieldTypeConflicts (store : MetadataStore) (db rp : String)
    (points : List Point) :
    LoadsFit {} store (loadsOf db rp (splitFieldTypeConflicts store db rp points).1) := by
  obtain ⟨fits, pairs⟩ := splitKnown_kept points
    (fun name => coversTypes_self (store.fieldTypesAt ⟨db, rp, name⟩))
    (fun point member => absurd member not_mem_nil)
  rw [splitFieldTypeConflicts_eq]
  refine ⟨?_, ?_, Or.inl rfl, Or.inl rfl⟩
  · intro key first second firstLoad secondLoad
    obtain ⟨firstKept, firstKey⟩ := mem_loadsOf.mp firstLoad
    obtain ⟨secondKept, secondKey⟩ := mem_loadsOf.mp secondLoad
    have named : first.measurement = second.measurement :=
      congrArg MeasurementKey.measurement (firstKey.symm.trans secondKey)
    exact pairs.forall_of_forall (fun point _ _ => fieldsAgree_self point) firstKept
      secondKept named
  · intro key point load
    obtain ⟨inside, keyed⟩ := mem_loadsOf.mp load
    rw [show key = ⟨db, rp, point.measurement⟩ from keyed]
    exact (fits point inside).1

theorem status_of_checkPart {refusal : Nat × String}
    (checked : primary.checkPart map store part = .error refusal) : refusal.1 ≠ 422 := by
  revert checked
  fun_cases checkPart with
  | case1 refusal unowned =>
    rintro ⟨⟩
    revert unowned
    fun_cases forwardedWriteRegion <;> rintro ⟨⟩ <;> decide
  | case5 => rintro ⟨⟩
  | _ =>
    rintro ⟨⟩
    simp

theorem status_memberAnswer_walOutcome :
    (primary.memberAnswer call (walOutcome call) ready).result.status ≠ 422 := by
  unfold memberAnswer walOutcome
  cases call.append with
  | error cause => simp [refusedPart, partResult]
  | ok seq =>
    unfold replicatedPart partResult
    cases call.replicate ready.request ready.region with
    | error cause => simp
    | ok _ => cases ready.partialWrite <;> simp

include taken in
theorem status_applyOneByOne (unlimited : primary.limits = {})
    (member : answer ∈ (primary.applyOneByOne call state parts).1) :
    answer.result.status ≠ 422 := by
  induction parts generalizing state with
  | nil => cases member
  | cons part rest ih =>
    cases checked : primary.checkPart map state.metadata.store part with
    | error refusal =>
      simp only [applyOneByOne_cons taken, checked, mem_cons] at member
      rcases member with rfl | later
      · exact status_of_checkPart checked
      · exact ih later
    | ok ready =>
      obtain ⟨sameDb, sameRp, points, -, kept⟩ := checkPart_eq_ok checked
      have fit := loadsFit_splitFieldTypeConflicts state.metadata.store part.db part.rp points
      rw [← kept, ← sameDb, ← sameRp, ← unlimited] at fit
      obtain ⟨metadata, prepared, -⟩ := prepareBatchMetadata_of_fit
        (below_self _ []) fit (nil_subset _) (List.Subset.refl _)
      obtain ⟨after, appended, -⟩ := appendForwardedGroup_of_ok call prepared
        (length_points_le checked)
      simp only [applyOneByOne_cons taken, checked, appended, mem_cons] at member
      rcases member with rfl | later
      · exact status_memberAnswer_walOutcome
      · exact ih later

theorem appendForwardedGroup_of_disagree (primary : ShardPrimary) (call : PrimaryCall)
    (state : PrimaryState) (db rp : String) (disagree : ¬points.Pairwise TypesAgree) :
    ∃ message, primary.appendForwardedGroup call state db rp points =
      (.error (422, message), state) := by
  cases built : batchSchemas ∅ points with
  | ok schemas =>
    exact absurd (agree_of_batchSchemas built) disagree
  | error cause =>
    simp [appendForwardedGroup, prepareBatchMetadata, built, bind, Except.bind]

theorem map_fst_settleGroups (groups : List ForwardGroup) :
    (primary.settleGroups call state groups).1.map Prod.fst =
      (groups.flatMap (·.members)).map Prod.fst := by
  induction groups generalizing state with
  | nil => rfl
  | cons group rest ih => simp [settleGroups, ih]

theorem mem_settleGroups_of_disagree (call : PrimaryCall) (state : PrimaryState)
    (listed : group ∈ groups) (disagree : ¬group.points.Pairwise TypesAgree)
    {member : Nat × ReadyPart} (isMember : member ∈ group.members) :
    ∃ message, (member.1, primary.refusedPart member.2.request (422, message)) ∈
      (primary.settleGroups call state groups).1 := by
  induction groups generalizing state with
  | nil => cases listed
  | cons first rest ih =>
    rcases mem_cons.mp listed with rfl | later
    · obtain ⟨message, failed⟩ := appendForwardedGroup_of_disagree primary call state group.db
        group.rp disagree
      refine ⟨message, ?_⟩
      simp only [settleGroups, failed]
      exact mem_append_left _ (mem_map.mpr ⟨member, isMember, rfl⟩)
    · obtain ⟨message, found⟩ := ih
        (primary.appendForwardedGroup call state first.db first.rp first.points).2 later
      exact ⟨message, mem_append_right _ found⟩

theorem nodup_map_fst_readyParts : ((primary.readyParts map store parts).map Prod.fst).Nodup := by
  have places : parts.zipIdx.Pairwise fun first second => first.2 ≠ second.2 := by
    rw [← pairwise_map (R := (· ≠ ·)), zipIdx_map_snd]
    exact nodup_range'
  rw [List.Nodup, pairwise_map]
  refine places.filterMap _ ?_
  rintro ⟨first, index⟩ ⟨second, other⟩ apart ready made ready' made'
  obtain ⟨-, -, rfl⟩ := Option.map_eq_some_iff.mp made
  obtain ⟨-, -, rfl⟩ := Option.map_eq_some_iff.mp made'
  exact apart

include taken in
theorem agree_of_isolated (unlimited : primary.limits = {})
    (isolated : primary.Isolated call state parts)
    (listed : group ∈ primary.forwardGroups map state.metadata.store parts) :
    group.points.Pairwise TypesAgree := by
  by_contra disagree
  obtain ⟨⟨index, ready⟩, isMember⟩ :=
    exists_mem_of_ne_nil _ (forwardGroups_withinLimit listed).nonempty
  obtain ⟨message, settled⟩ := mem_settleGroups_of_disagree call state listed disagree isMember
  have members := members_forwardGroups_perm primary map state.metadata.store parts
  obtain ⟨part, place, checked⟩ := mem_readyParts.mp
    (members.subset (mem_flatMap.mpr ⟨group, listed, isMember⟩))
  have distinct : ((primary.settleGroups call state
      (primary.forwardGroups map state.metadata.store parts)).1.map Prod.fst).Nodup := by
    rw [map_fst_settleGroups]
    exact (members.map Prod.fst).nodup_iff.mpr nodup_map_fst_readyParts
  have found : (primary.refusedParts map state.metadata.store parts ++
      (primary.settleGroups call state
        (primary.forwardGroups map state.metadata.store parts)).1).lookup index =
      some (primary.refusedPart ready.request (422, message)) := by
    refine lookup_eq_some_of_forall ⟨_, mem_append_right _ settled⟩ fun other member => ?_
    rcases mem_append.mp member with refused | written
    · obtain ⟨same, refusal, here, failed, -⟩ := mem_refusedParts.mp refused
      cases place.symm.trans here
      cases checked.symm.trans failed
    · exact congrArg Prod.snd (inj_on_of_nodup_map distinct written settled rfl)
  have answered : primary.refusedPart ready.request (422, message) ∈
      (primary.applyShardWriteBatch call state parts).1 := by
    simp only [applyShardWriteBatch, taken]
    refine mem_map.mpr ⟨index, mem_range.mpr ?_, by rw [found]; rfl⟩
    exact (List.getElem?_eq_some_iff.mp place).1
  rw [show (primary.applyShardWriteBatch call state parts).1 = _ from isolated] at answered
  exact status_applyOneByOne taken unlimited answered rfl

end Isolation

theorem partsFit_floats : bytePrimary.PartsFit bothRegions {} [bytePart 1 1, bytePart 2 2] := by
  have loads : [bytePart 1 1, bytePart 2 2].map (bytePrimary.keptLoads bothRegions {}) =
      [[(sampleKey, bytePoint 1)], [(sampleKey, bytePoint 2)]] := by
    decide +kernel
  obtain ⟨first, second⟩ := cons.inj loads
  refine ⟨pairwise_pair.mpr ?_, Or.inr ?_⟩
  · intro point member other load field type earlier typed earlierTyped
    obtain rfl := mem_singleton.mp member
    obtain ⟨-, rfl⟩ := Prod.mk.inj (mem_singleton.mp load)
    rw [fieldType_bytePoint (by decide) typed, fieldType_bytePoint (by decide) earlierTyped]
    exact Or.inl rfl
  · exact loadsFit_floats

end ShardPrimary

end HyperbyteDb
