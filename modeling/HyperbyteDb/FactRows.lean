import HyperbyteDb.FlushProcesses

/-!
# The rows that a flush chunk stores

Each sink write of a chunk becomes rows of a fact table, numbered by `ingest_seq`.  This file
follows every row back to the log entry it comes from.
-/

namespace HyperbyteDb

open KeyedBatches KeyedFolds List SinkWrite Std VersionedRows

section

structure StoredRow where
  table : MeasurementKey
  point : Point
  ingestSeq : UInt64
deriving DecidableEq

/-- A stored row with the sequence of the log entry that contributed to it last. -/
structure FactRow extends StoredRow where
  source : Nat
deriving DecidableEq

def buildRecordBatch {α : Type} (table : MeasurementKey) (ingestSeqBase : UInt64)
    (rows : List (Point × α)) : List (StoredRow × α) :=
  rows.mapIdx fun index row =>
    (⟨table, row.1, ingestSeqBase.saturatingAdd (.ofNat index)⟩, row.2)

def SinkWrite.storedRows {ρ : Type} (pointOf : ρ → Point) : SinkWrite ρ → List StoredRow
  | .points ingestSeqBase work =>
    (buildRecordBatch ⟨work.db, work.rp, work.measurement⟩ ingestSeqBase work.rows).map Prod.fst
  | .prepared work =>
    work.batch.batch.rows.map fun row =>
      ⟨⟨work.db, work.rp, work.batch.measurement⟩, pointOf row.cells, row.ingestSeq.getD 0⟩

/-! ## Rows with tags

The native path carries the origin of each row along.  Nothing looks at it, so the rows
can carry any tag. -/

variable {α : Type} (settings : FlushSettings)

section Tags

variable {β : Type}

def coalesceTagged (seriesInstantHash : Point → UInt64) (rows : List (Point × α)) :
    Option (List (Point × α)) :=
  let points := fun index => (rows.get index).1
  (coalescePlan seriesInstantHash points).map fun groups =>
    groups.map fun group => (mergePointGroup points group, (rows.get group.last).2)

namespace FlushSettings

def mergedTagged (rows : List (Point × α)) : List (Point × α) :=
  if settings.coalesce then (coalesceTagged settings.seriesInstantHash rows).getD rows
  else rows

/-- The work items of a native chunk, each with its table. -/
def workItems (items : List (MeasurementKey × Point × α)) :
    List (MeasurementKey × List (Point × α)) :=
  (collect Prod.fst Prod.snd items).toList.flatMap fun group =>
    (slices settings.effectiveLimit (settings.mergedTagged group.2)).map (Prod.mk group.1)

def workRows (fromSeq : Nat) (items : List (MeasurementKey × Point × α)) : List (StoredRow × α) :=
  ((settings.workItems items).mapIdx fun idx item =>
    buildRecordBatch item.1 ((UInt64.ofNat fromSeq).saturatingAdd (.ofNat idx)) item.2).flatten

end FlushSettings

theorem coalesceTagged_eq (seriesInstantHash : Point → UInt64) {rows : List (Point × α)}
    {count : Nat} (counted : rows.length = count) :
    coalesceTagged seriesInstantHash rows = (coalescePlan seriesInstantHash fun index : Fin count =>
        (rows.get (index.cast counted.symm)).1).map fun groups => groups.map fun group =>
          (mergePointGroup (fun index : Fin count => (rows.get (index.cast counted.symm)).1) group,
            (rows.get (group.last.cast counted.symm)).2) := by
  subst counted
  rfl

theorem coalesceTagged_map (seriesInstantHash : Point → UInt64) (retag : α → β)
    (rows : List (Point × α)) :
    coalesceTagged seriesInstantHash (rows.map (Prod.map id retag)) =
      (coalesceTagged seriesInstantHash rows).map (·.map (Prod.map id retag)) := by
  have counted : (rows.map (Prod.map id retag)).length = rows.length := length_map _
  rw [coalesceTagged_eq seriesInstantHash counted, coalesceTagged]
  simp [Function.comp_def]

namespace FlushSettings

variable (retag : α → β)

theorem mergedTagged_map (rows : List (Point × α)) :
    settings.mergedTagged (rows.map (Prod.map id retag)) =
      (settings.mergedTagged rows).map (Prod.map id retag) := by
  unfold mergedTagged
  rw [coalesceTagged_map]
  split
  · cases coalesceTagged settings.seriesInstantHash rows <;> rfl
  · rfl

theorem slicesWithin_map {γ δ : Type} (change : γ → δ) (limit fuel : Nat) (items : List γ) :
    slicesWithin limit fuel (items.map change) =
      (slicesWithin limit fuel items).map (·.map change) := by
  induction fuel generalizing items with
  | zero => rfl
  | succ fuel ih =>
    simp only [slicesWithin, isEmpty_map, ← map_take, ← map_drop, ih]
    split <;> rfl

theorem workItems_map (items : List (MeasurementKey × Point × α)) :
    settings.workItems (items.map (Prod.map id (Prod.map id retag))) =
      (settings.workItems items).map (Prod.map id (·.map (Prod.map id retag))) := by
  have collected : (collect Prod.fst Prod.snd
      (items.map (Prod.map id (Prod.map id retag)))).toList =
      (collect Prod.fst Prod.snd items).toList.map fun group =>
        (group.1, group.2.map (Prod.map id retag)) := by
    rw [← toList_collect_map Prod.fst Prod.snd fun _ => Prod.map id retag, collect, foldl_map]
    rfl
  rw [workItems, collected, flatMap_map, workItems, map_flatMap]
  apply flatMap_congr
  simp [mergedTagged_map, slices, slicesWithin_map]

theorem buildRecordBatch_map (table : MeasurementKey) (base : UInt64) (rows : List (Point × α)) :
    buildRecordBatch table base (rows.map (Prod.map id retag)) =
      (buildRecordBatch table base rows).map (Prod.map id retag) := by
  apply ext_getElem?
  simp [buildRecordBatch, Function.comp_def]

/-- What is stored does not depend on the tags. -/
theorem workRows_map (fromSeq : Nat) (items : List (MeasurementKey × Point × α)) :
    settings.workRows fromSeq (items.map (Prod.map id (Prod.map id retag))) =
      (settings.workRows fromSeq items).map (Prod.map id retag) := by
  rw [workRows, workRows, workItems_map, map_flatten]
  congr 1
  apply ext_getElem?
  simp [Function.comp_def, buildRecordBatch_map]

def sourceRows (entries : List (Nat × WalEntry)) : List (MeasurementKey × Point × Nat) :=
  entries.flatMap fun pair => (settings.entryRows pair.2).map fun row =>
    (row.1, row.2.1, pair.1)

def nativeFactRows (fromSeq : Nat) (entries : List (Nat × WalEntry)) : List FactRow :=
  (settings.workRows fromSeq (settings.sourceRows entries)).map fun row => ⟨row.1, row.2⟩

variable {ρ : Type} (pointOf : ρ → Point) (fromSeq : Nat) (entries : List (Nat × WalEntry))

theorem storedRows_eq_workRows :
    (settings.nativeWork fromSeq entries).flatMap (storedRows pointOf) = (settings.workRows fromSeq
        (entries.flatMap fun pair => settings.entryRows pair.2)).map Prod.fst := by
  let items := entries.flatMap fun pair => settings.entryRows pair.2
  have works : settings.nativeWork (ρ := ρ) fromSeq entries =
      (settings.workItems items).mapIdx fun idx item =>
        .points ((UInt64.ofNat fromSeq).saturatingAdd (.ofNat idx))
          ⟨item.1.db, item.1.rp, item.1.measurement, item.2⟩ := by
    have items : (settings.workItems items).map (fun item =>
        FlushWork.mk item.1.db item.1.rp item.1.measurement item.2) =
      (collect Prod.fst Prod.snd items).toList.flatMap fun group =>
        (slices settings.effectiveLimit (settings.mergedRows group.2)).map fun rows =>
          FlushWork.mk group.1.db group.1.rp group.1.measurement rows := by
      rw [workItems, map_flatMap]
      simp only [map_map]
      rfl
    rw [nativeWork, ← items]
    apply ext_getElem?
    simp [Function.comp_def]
  rw [works, workRows, map_flatten, flatMap_def]
  congr 1
  apply ext_getElem?
  intro idx
  simp only [getElem?_map, getElem?_mapIdx, Option.map_map]
  rfl

end FlushSettings

end Tags

/-! ## Prepared slots -/

section Slots

variable (seriesInstantHash : Point → UInt64)

def groupAndCoalesceByMeasurement (points : List Point) : List (String × List Point) :=
  let byMeas := collect (fun index => (points.get index).measurement) id
    (List.finRange points.length)
  byMeas.toList.map fun group =>
    (group.1,
      match coalescePlanIndexed seriesInstantHash points.get group.2 with
      | none => group.2.map points.get
      | some groups => groups.map (mergePointGroup points.get))

variable (tableNames : MeasurementKey → String × String)

def prepareMeasurementBatch (key : MeasurementKey) (tag : α) (points : List Point) :
    PreparedMeasurementBatch (Point × α) where
  measurement := key.measurement
  tableName := (tableNames key).1
  seriesTableName := (tableNames key).2
  batch := ⟨.uint64, points.mapIdx fun index point => ⟨(point, tag), some (.ofNat index)⟩⟩
  rowCount := points.length
  minTime := points.foldl (fun least point => min least point.timestamp) Int64.maxValue
  maxTime := points.foldl (fun most point => max most point.timestamp) Int64.minValue
  newSeriesBatch := none

def buildPreparedWalSlot (db rp : String) (originNodeId : UInt64) (tag : α) (points : List Point) :
    PreparedWalSlot (Point × α) where
  database := db
  retentionPolicy := rp
  originNodeId := originNodeId
  measurements := (groupAndCoalesceByMeasurement seriesInstantHash points).map fun group =>
    prepareMeasurementBatch tableNames ⟨db, rp, group.1⟩ tag group.2

def PreparedFlushWork.factRows (work : PreparedFlushWork (Point × Nat)) : List FactRow :=
  work.batch.batch.rows.map fun row =>
    ⟨⟨⟨work.db, work.rp, work.batch.measurement⟩, row.cells.1, row.ingestSeq.getD 0⟩, row.cells.2⟩

variable (stacking : BatchStacking (Point × Nat))
  (slots : List (Nat × PreparedWalSlot (Point × Nat)))

def FlushSettings.preparedFactRows : Except String (List FactRow) :=
  let byMeas := collect Prod.fst Prod.snd (slots.flatMap fun pair => slotBatches pair.2)
  (settings.preparedItems stacking byMeas.toList).map (·.flatMap PreparedFlushWork.factRows)

/-- The sink writes of the run store exactly these rows. -/
theorem FlushSettings.storedRows_preparedWork :
    (settings.preparedWork stacking slots).map (·.flatMap (storedRows Prod.fst)) =
      (settings.preparedFactRows stacking slots).map (·.map FactRow.toStoredRow) := by
  unfold preparedWork preparedFactRows
  dsimp only
  cases settings.preparedItems stacking
      (collect Prod.fst Prod.snd (slots.flatMap fun pair => slotBatches pair.2)).toList with
  | error cause => rfl
  | ok items =>
    simp only [Except.map, flatMap_map, map_flatMap, Except.ok.injEq]
    apply flatMap_congr
    simp [storedRows, PreparedFlushWork.factRows]

end Slots

end

/-! ## The coalesced points of a request -/

variable {count : Nat} (hasher : Int64 × ExtTreeMap String String → UInt64)

def Point.instant (point : Point) : Int64 × ExtTreeMap String String :=
  (point.timestamp, point.tags)

def seriesInstantHash (point : Point) : UInt64 := hasher point.instant

def coalesceIndexed (points : Fin count → Point) (idxs : List (Fin count)) : List Point :=
  match coalescePlanIndexed (seriesInstantHash hasher) points idxs with
  | none => idxs.map points
  | some groups => groups.map (mergePointGroup points)

def coalescedBy (points : List Point) : ExtTreeMap String (List Point) :=
  (collect (fun index => (points.get index).measurement) id (List.finRange points.length)).map
    fun _ idxs => coalesceIndexed hasher points.get idxs

/-- The classes of the indices, in the order of their first ones. -/
def instantClasses (points : Fin count → Point) (idxs : List (Fin count)) :
    List (List (Fin count)) :=
  (firstSeen (idxs.map fun index => (points index).instant)).map fun instant =>
    idxs.filter fun index => (points index).instant = instant

def indicesOf (points : List Point) (measurement : String) : List (Fin points.length) :=
  (List.finRange points.length).filter fun index => (points.get index).measurement = measurement

variable (points : Fin count → Point) (idxs : List (Fin count))

theorem map_groups_foldl :
    (idxs.foldl (CoalescePlan.add (seriesInstantHash hasher) points) {}).groups.map
        (fun group => ((points group.first).instant, group.members)) =
      groups (fun index => (points index).instant) idxs := by
  have injective : Function.Injective fun instant => (hasher instant, instant) :=
    fun _ _ same => (Prod.mk.inj same).2
  have entries := (CoalescePlan.grouped_foldl (seriesInstantHash hasher) points idxs).entries.trans
    (groups_comp injective (fun index => (points index).instant) idxs)
  refine map_injective_iff.mpr (injective.prodMap Function.injective_id) ?_
  rw [map_map, ← entries]
  rfl

theorem members_groups_foldl :
    (idxs.foldl (CoalescePlan.add (seriesInstantHash hasher) points) {}).groups.map
        PointGroup.members = instantClasses points idxs := by
  have classes := congrArg (map Prod.snd) (map_groups_foldl hasher points idxs)
  rwa [map_map, groups_eq, map_map] at classes

theorem instants_groups_foldl :
    (idxs.foldl (CoalescePlan.add (seriesInstantHash hasher) points) {}).groups.map
        (fun group => (points group.first).instant) =
      firstSeen (idxs.map fun index => (points index).instant) := by
  have instants := congrArg (map Prod.fst) (map_groups_foldl hasher points idxs)
  rw [map_map, groups_eq, map_map] at instants
  exact instants.trans (map_id _)

theorem instant_mergePointGroup (group : PointGroup count) :
    (mergePointGroup points group).instant = (points group.first).instant := by
  obtain ⟨-, tags, timestamp, -⟩ := foldl_insertFields points group.rest (points group.first)
  exact Prod.ext timestamp tags

theorem instants_coalesceIndexed : (coalesceIndexed hasher points idxs).map Point.instant =
      firstSeen (idxs.map fun index => (points index).instant) := by
  have instants := instants_groups_foldl hasher points idxs
  have lengths := congrArg length instants
  rw [length_map] at lengths
  unfold coalesceIndexed coalescePlanIndexed
  split
  next none =>
    simp only [ite_eq_left_iff, reduceCtorEq, imp_false, not_not] at none
    rw [(firstSeen_eq_self _).2 (by rw [← lengths, none, length_map]), map_map]
    rfl
  next groups planned =>
    rw [← instants, map_map]
    simp only [Option.ite_none_left_eq_some, Option.some.injEq] at planned
    rw [← planned.2]
    exact map_congr_left fun group _ => instant_mergePointGroup points group

theorem coalesceIndexed_of_nodup (distinct : (idxs.map fun index => (points index).instant).Nodup) :
    coalesceIndexed hasher points idxs = idxs.map points := by
  have perm := (perm_ext_iff_of_nodup (nodup_firstSeen _) distinct).mpr fun _ =>
    mem_firstSeen
  have lengths := perm.length_eq
  rw [← instants_groups_foldl hasher, length_map, length_map] at lengths
  rw [coalesceIndexed, coalescePlanIndexed, if_pos lengths]

theorem measurement_coalesceIndexed {points : List Point} {measurement : String} :
    ∀ point ∈ coalesceIndexed hasher points.get (indicesOf points measurement),
      point.measurement = measurement := by
  unfold coalesceIndexed coalescePlanIndexed
  split
  next => simp [indicesOf]
  next groups planned =>
    simp only [Option.ite_none_left_eq_some, Option.some.injEq] at planned
    obtain ⟨-, rfl⟩ := planned
    rw [forall_mem_map]
    intro group member
    have inside : group.first ∈ group.members := mem_cons_self
    rw [(CoalescePlan.grouped_foldl ..).members member] at inside
    refine Eq.trans ?_ (of_decide_eq_true (mem_filter.mp (mem_of_mem_filter inside)).2)
    exact (foldl_insertFields points.get group.rest (points.get group.first)).1

theorem toList_coalescedBy (points : List Point) : (coalescedBy hasher points).toList =
      groupAndCoalesceByMeasurement (seriesInstantHash hasher) points := by
  rw [coalescedBy, ExtTreeMap.toList_map]
  refine map_congr_left fun group _ => ?_
  rw [coalesceIndexed]
  cases coalescePlanIndexed _ points.get group.2 <;> rfl

theorem getElem?_coalescedBy (points : List Point) (measurement : String) :
    (coalescedBy hasher points)[measurement]? =
      if indicesOf points measurement = [] then none
      else some (coalesceIndexed hasher points.get (indicesOf points measurement)) := by
  have known : (List.finRange points.length).any
      (fun index => (points.get index).measurement = measurement) ↔
        ¬indicesOf points measurement = [] := by
    simp [indicesOf]
  rw [coalescedBy, ExtTreeMap.getElem?_map, getElem?_collect, map_id]
  simp only [known, ite_not]
  split <;> rfl

theorem mem_toList_coalescedBy {points : List Point} {entry : String × List Point}
    (member : entry ∈ (coalescedBy hasher points).toList) :
    entry.2 = coalesceIndexed hasher points.get (indicesOf points entry.1) ∧
      ∀ point ∈ entry.2, point.measurement = entry.1 := by
  rw [ExtTreeMap.mem_toList_iff_getElem?_eq_some, getElem?_coalescedBy,
    Option.ite_none_left_eq_some, Option.some.injEq] at member
  rw [← member.2]
  exact ⟨rfl, measurement_coalesceIndexed hasher⟩

/-- Of the coalesced points, those of a measurement come from its own points. -/
theorem filter_coalescedBy (points : List Point) (measurement : String) :
    ((coalescedBy hasher points).toList.flatMap Prod.snd).filter (·.measurement = measurement) =
      coalesceIndexed hasher points.get (indicesOf points measurement) := by
  rw [filter_flatMap, flatMap_toList _ measurement ?_, getElem?_coalescedBy]
  · split
    next none =>
      rw [none]
      rfl
    next =>
      refine filter_eq_self.mpr fun point inside => ?_
      simp [measurement_coalesceIndexed hasher point inside]
  · intro entry member differs
    refine filter_eq_nil_iff.mpr fun point inside => ?_
    simp [(mem_toList_coalescedBy hasher member).2 point inside, differs]

theorem coalescedBy_again (points : List Point) :
    coalescedBy hasher ((coalescedBy hasher points).toList.flatMap Prod.snd) =
      coalescedBy hasher points := by
  have filtered := filter_coalescedBy hasher points
  generalize (coalescedBy hasher points).toList.flatMap Prod.snd = out at filtered ⊢
  refine ExtTreeMap.ext_getElem? fun measurement => ?_
  have own : (indicesOf out measurement).map out.get =
      coalesceIndexed hasher points.get (indicesOf points measurement) := by
    rw [← filtered]
    conv_rhs => rw [← map_get_finRange out, filter_map]
    rfl
  have again : coalesceIndexed hasher out.get (indicesOf out measurement) =
      coalesceIndexed hasher points.get (indicesOf points measurement) := by
    rw [coalesceIndexed_of_nodup, own]
    rw [← Function.comp_def, ← map_map, own, instants_coalesceIndexed]
    exact nodup_firstSeen _
  have none : indicesOf out measurement = [] ↔ indicesOf points measurement = [] := by
    rw [← map_eq_nil_iff, own, ← map_eq_nil_iff, instants_coalesceIndexed]
    simp [eq_nil_iff_forall_not_mem]
  simp only [getElem?_coalescedBy, none, again]

theorem pointCoalescing_exact (points : List Point) :
    (∀ idxs, (coalescePlanIndexed (seriesInstantHash hasher) points.get idxs).map
          (map PointGroup.members) =
        (if ∀ indices ∈ instantClasses points.get idxs, indices.length = 1 then none
        else some (instantClasses points.get idxs)) ∧
      (instantClasses points.get idxs).flatten.Perm idxs) ∧
    (∀ (group : PointGroup points.length) (name : String),
      (mergePointGroup points.get group).fields[name]? =
        latest (fun index => (points.get index).fields[name]?) group.members) ∧
    (∀ entry ∈ groupAndCoalesceByMeasurement (seriesInstantHash hasher) points,
      entry.2 = coalesceIndexed hasher points.get (indicesOf points entry.1) ∧
        ∀ point ∈ entry.2, point.measurement = entry.1) ∧
    groupAndCoalesceByMeasurement (seriesInstantHash hasher)
        ((groupAndCoalesceByMeasurement (seriesInstantHash hasher) points).flatMap Prod.snd) =
      groupAndCoalesceByMeasurement (seriesInstantHash hasher) points := by
  simp only [← toList_coalescedBy, coalescedBy_again]
  refine ⟨fun idxs => ?_, getElem?_mergePointGroup points.get,
    fun _ member => mem_toList_coalescedBy hasher member, True.intro⟩
  · have classes := members_groups_foldl hasher points.get idxs
    have perm : (instantClasses points.get idxs).flatten.Perm idxs := by
      have all := flatten_groups_perm (fun index => (points.get index).instant) idxs
      rwa [groups_eq, map_map] at all
    have nonempty : ∀ indices ∈ instantClasses points.get idxs, indices ≠ [] := by
      simpa [instantClasses] using fun index member => ⟨index, member, rfl⟩
    have singles := (length_flatten_eq_iff nonempty).2
    rw [perm.length_eq, ← classes, length_map, classes] at singles
    refine ⟨?_, perm⟩
    simp only [coalescePlanIndexed, singles]
    split
    · rfl
    · rw [Option.map_some, classes]

end HyperbyteDb
