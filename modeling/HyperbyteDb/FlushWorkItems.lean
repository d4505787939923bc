import HyperbyteDb.KeyedBatches
import HyperbyteDb.PreparedWalSlots
import HyperbyteDb.ShardRegions

/-!
# The sink writes of one flush chunk

A chunk of the write-ahead log is flushed as a set of independent sink writes: its rows are
collected by measurement, merged, and cut into batches.
-/

namespace HyperbyteDb

open ByteReaders KeyedBatches List

structure FlushWork where
  db : String
  rp : String
  measurement : String
  rows : List (Point × UInt64)

structure PreparedFlushWork (ρ : Type) where
  db : String
  rp : String
  batch : PreparedMeasurementBatch ρ

inductive SinkWrite (ρ : Type) where
  | points (ingestSeqBase : UInt64) (work : FlushWork)
  | prepared (work : PreparedFlushWork ρ)

/-- The settings of the flush service that decide what is written. -/
structure FlushSettings where
  nodeId : UInt64
  maxPointsPerBatch : Nat
  /-- Merge partial rows of one series instant before the insert. -/
  coalesce : Bool
  seriesInstantHash : Point → UInt64

variable {ρ : Type}

namespace FlushSettings

def effectiveLimit (settings : FlushSettings) : Nat :=
  if settings.maxPointsPerBatch = 0 then 50000
  else max 10000 (min settings.maxPointsPerBatch 500000)

theorem effectiveLimit_pos (settings : FlushSettings) : 0 < settings.effectiveLimit := by
  unfold effectiveLimit
  split <;> omega

variable (settings : FlushSettings)

/-- Direct client writes carry origin 0; they are recorded as this node. -/
def effOrigin (entry : WalEntry) : UInt64 :=
  if entry.originNodeId = 0 then settings.nodeId else entry.originNodeId

def entryRows (entry : WalEntry) : List (MeasurementKey × Point × UInt64) :=
  entry.points.map fun point =>
    (⟨entry.database, entry.retentionPolicy, point.measurement⟩, point,
      settings.effOrigin entry)

def mergedRows (rows : List (Point × UInt64)) : List (Point × UInt64) :=
  if settings.coalesce then
    (coalescePointsAndOrigins settings.seriesInstantHash rows).getD rows
  else rows

def nativeWork (fromSeq : Nat) (entries : List (Nat × WalEntry)) : List (SinkWrite ρ) :=
  let byMeas := collect Prod.fst Prod.snd (entries.flatMap fun pair =>
    settings.entryRows pair.2)
  let workItems := byMeas.toList.flatMap fun group =>
    (slices settings.effectiveLimit (settings.mergedRows group.2)).map fun rows =>
      FlushWork.mk group.1.db group.1.rp group.1.measurement rows
  workItems.mapIdx fun idx work =>
    .points ((UInt64.ofNat fromSeq).saturatingAdd (.ofNat idx)) work

def slotBatches (slot : PreparedWalSlot ρ) : List (MeasurementKey × PreparedMeasurementBatch ρ) :=
  slot.measurements.map fun prepared =>
    (⟨slot.database, slot.retentionPolicy, prepared.measurement⟩, prepared)

def mergedBatches (stacking : BatchStacking ρ) (batches : List (PreparedMeasurementBatch ρ)) :
    Except String (List (PreparedMeasurementBatch ρ)) :=
  if settings.coalesce ∧ 1 < batches.length then
    (stacking.coalescePreparedBatches batches).map Option.toList
  else if batches.length = 1 then .ok batches
  else (stacking.coalescePreparedBatches batches).map Option.toList

def preparedSlices (limit : Nat) (prepared : PreparedMeasurementBatch ρ) :
    Nat → Nat → List (PreparedMeasurementBatch ρ)
  | 0, _ => []
  | fuel + 1, offset =>
    if offset < prepared.rowCount then
      let take := min (prepared.rowCount - offset) limit
      slicePreparedBatch prepared offset take :: preparedSlices limit prepared fuel (offset + take)
    else []

def preparedItems (stacking : BatchStacking ρ) :
    List (MeasurementKey × List (PreparedMeasurementBatch ρ)) →
      Except String (List (PreparedFlushWork ρ))
  | [] => .ok []
  | (key, batches) :: rest => do
      let merged ← settings.mergedBatches stacking batches
      let later ← preparedItems stacking rest
      return (merged.flatMap fun prepared =>
        (preparedSlices settings.effectiveLimit prepared prepared.rowCount 0).map
          (PreparedFlushWork.mk key.db key.rp)) ++ later

def preparedWork (stacking : BatchStacking ρ) (slots : List (Nat × PreparedWalSlot ρ)) :
    Except String (List (SinkWrite ρ)) :=
  let byMeas := collect Prod.fst Prod.snd (slots.flatMap fun pair => slotBatches pair.2)
  (settings.preparedItems stacking byMeas.toList).map (·.map SinkWrite.prepared)

end FlushSettings

/-- The write hands the sink a row that stands for `point` of the given database and
retention policy. -/
def SinkWrite.Carries (stacking : BatchStacking ρ) (db rp : String) (point : Point) :
    SinkWrite ρ → Prop
  | .points _ work =>
    work.db = db ∧ work.rp = rp ∧ work.measurement = point.measurement ∧
      ∃ row ∈ work.rows, row.1.Absorbs point
  | .prepared work => work.db = db ∧ work.rp = rp ∧ work.batch.Carries stacking point

def Covered (stacking : BatchStacking ρ) (writes : List (SinkWrite ρ)) (entry : WalEntry) : Prop :=
  ∀ point ∈ entry.points, ∃ write ∈ writes,
    write.Carries stacking entry.database entry.retentionPolicy point

variable {entry : WalEntry}

variable {writes : List (SinkWrite ρ)}

theorem Covered.mono {stacking : BatchStacking ρ} {more : List (SinkWrite ρ)}
    (covered : Covered stacking writes entry) (included : ∀ write ∈ writes, write ∈ more) :
    Covered stacking more entry := by
  intro point member
  obtain ⟨write, inside, carries⟩ := covered point member
  exact ⟨write, included write inside, carries⟩

namespace FlushSettings

variable {settings : FlushSettings} {stacking : BatchStacking ρ}

variable {prepared : PreparedMeasurementBatch ρ}

variable {measurement : String}

theorem mergedRows_absorbs {rows : List (Point × UInt64)}
    (oneMeasurement : ∀ row ∈ rows, row.1.measurement = measurement)
    {row : Point × UInt64} (member : row ∈ rows) :
    ∃ out ∈ settings.mergedRows rows, out.1.Absorbs row.1 := by
  unfold mergedRows
  split
  · cases coalesced : coalescePointsAndOrigins settings.seriesInstantHash rows with
    | none => exact ⟨row, member, .refl row.1⟩
    | some merged => exact coalescePointsAndOrigins_absorbs oneMeasurement coalesced member
  · exact ⟨row, member, .refl row.1⟩

variable {seq : Nat}

theorem nativeWork_covers {fromSeq : Nat} {entries : List (Nat × WalEntry)}
    (member : (seq, entry) ∈ entries) :
    Covered stacking (settings.nativeWork fromSeq entries) entry := by
  intro point pointMember
  let items := entries.flatMap fun pair => settings.entryRows pair.2
  let key : MeasurementKey := ⟨entry.database, entry.retentionPolicy, point.measurement⟩
  have itemMember : (key, point, settings.effOrigin entry) ∈ items := by
    apply mem_flatMap.mpr
    exact ⟨(seq, entry), member, mem_map_of_mem pointMember⟩
  obtain ⟨rows, lookup, rowMember⟩ := exists_of_mem Prod.fst Prod.snd itemMember
  -- All rows under one key are of the measurement the key names.
  have oneMeasurement : ∀ row ∈ rows, row.1.measurement = point.measurement := by
    intro row inside
    obtain ⟨⟨rowKey, found⟩, foundMember, sameKey, rfl⟩ := exists_item_of_mem lookup inside
    obtain ⟨pair, -, inEntry⟩ := mem_flatMap.mp foundMember
    obtain ⟨other, -, made⟩ := mem_map.mp inEntry
    cases made
    exact congrArg MeasurementKey.measurement sameKey
  obtain ⟨out, outMember, absorbs⟩ := mergedRows_absorbs oneMeasurement rowMember
  obtain ⟨slice, sliceMember, inSlice⟩ :=
    exists_slice_of_mem settings.effectiveLimit_pos outMember
  have work : FlushWork.mk key.db key.rp key.measurement slice ∈
      (collect Prod.fst Prod.snd items).toList.flatMap fun group =>
        (slices settings.effectiveLimit (settings.mergedRows group.2)).map fun rows =>
          FlushWork.mk group.1.db group.1.rp group.1.measurement rows := by
    refine mem_flatMap.mpr ⟨(key, rows), ?_, mem_map_of_mem sliceMember⟩
    exact Std.ExtTreeMap.mem_toList_iff_getElem?_eq_some.mpr lookup
  obtain ⟨idx, bound, found⟩ := List.getElem_of_mem work
  refine ⟨_, mem_mapIdx.mpr ⟨idx, bound, rfl⟩, ?_⟩
  rw [found]
  exact ⟨rfl, rfl, rfl, out, inSlice, absorbs⟩

theorem exists_preparedSlice {limit : Nat} (positive : 0 < limit) (fuel offset : Nat) {index : Nat}
    {row : PreparedRow ρ} (within : index < prepared.rowCount)
    (enough : prepared.rowCount ≤ offset + fuel) (reached : offset ≤ index)
    (lookup : prepared.batch.rows[index]? = some row) :
    ∃ slice ∈ preparedSlices limit prepared fuel offset,
      slice.measurement = prepared.measurement ∧ row ∈ slice.batch.rows := by
  induction fuel generalizing offset with
  | zero => omega
  | succ fuel ih =>
    have remaining : offset < prepared.rowCount := by omega
    simp only [preparedSlices, if_pos remaining]
    by_cases here : index < offset + min (prepared.rowCount - offset) limit
    · refine ⟨_, mem_cons_self, rfl, ?_⟩
      apply mem_of_getElem? (i := index - offset)
      have placed : offset + (index - offset) = index := by omega
      have before : index - offset < min (prepared.rowCount - offset) limit := by omega
      simp [slicePreparedBatch, RecordBatch.slice, placed, before, lookup]
    · obtain ⟨slice, member, found⟩ :=
        ih (offset + min (prepared.rowCount - offset) limit) (by omega) (by omega)
      exact ⟨slice, mem_cons_of_mem _ member, found⟩

variable {batches : List (PreparedMeasurementBatch ρ)} {point : Point}

theorem mergedBatches_carries {merged : List (PreparedMeasurementBatch ρ)}
    (made : settings.mergedBatches stacking batches = .ok merged)
    (counted : ∀ prepared ∈ batches, prepared.rowCount = prepared.batch.numRows)
    (oneMeasurement : ∀ prepared ∈ batches, prepared.measurement = measurement)
    (member : prepared ∈ batches) (carried : prepared.Carries stacking point) :
    ∃ out ∈ merged, out.rowCount = out.batch.numRows ∧ out.Carries stacking point := by
  have stackedCarries : ∀ {merged : List (PreparedMeasurementBatch ρ)},
      (stacking.coalescePreparedBatches batches).map Option.toList = .ok merged →
      ∃ out ∈ merged, out.rowCount = out.batch.numRows ∧ out.Carries stacking point := by
    intro merged made
    obtain ⟨stacked, stackedOk, ⟨⟩⟩ := exists_of_bind_eq_ok made
    obtain ⟨out, outMember, good⟩ := BatchStacking.coalescePreparedBatches_carries
      stackedOk counted oneMeasurement member carried
    exact ⟨out, by simpa using outMember, good⟩
  unfold mergedBatches at made
  split at made
  next => exact stackedCarries made
  next =>
    split at made
    next =>
      cases made
      exact ⟨prepared, member, counted prepared member, carried⟩
    next => exact stackedCarries made

theorem mergedBatches_ok (settings : FlushSettings) (total : stacking.Total)
    (batches : List (PreparedMeasurementBatch ρ)) :
    ∃ merged, settings.mergedBatches stacking batches = .ok merged := by
  obtain ⟨stacked, stackedOk⟩ := total.coalescePreparedBatches_ok batches
  unfold mergedBatches
  rw [stackedOk]
  split
  · exact ⟨_, rfl⟩
  · split <;> exact ⟨_, rfl⟩

theorem preparedItems_carries {groups : List (MeasurementKey × List (PreparedMeasurementBatch ρ))}
    {items : List (PreparedFlushWork ρ)} (made : settings.preparedItems stacking groups = .ok items)
    {key : MeasurementKey}
    (group : (key, batches) ∈ groups)
    (counted : ∀ prepared ∈ batches, prepared.rowCount = prepared.batch.numRows)
    (oneMeasurement : ∀ prepared ∈ batches, prepared.measurement = key.measurement)
    (member : prepared ∈ batches) (carried : prepared.Carries stacking point) :
    ∃ item ∈ items, item.db = key.db ∧ item.rp = key.rp ∧ item.batch.Carries stacking point := by
  induction groups generalizing items with
  | nil => simp at group
  | cons head rest ih =>
    obtain ⟨merged, mergedOk, made⟩ := exists_of_bind_eq_ok made
    obtain ⟨later, laterOk, ⟨⟩⟩ := exists_of_bind_eq_ok made
    rcases mem_cons.mp group with rfl | inRest
    · obtain ⟨out, outMember, outCounted, named, row, rowMember, holds⟩ :=
        mergedBatches_carries mergedOk counted oneMeasurement member carried
      obtain ⟨index, bound, rfl⟩ := List.getElem_of_mem rowMember
      have within : index < out.rowCount := by
        rw [outCounted]
        exact bound
      obtain ⟨slice, sliceMember, sliceNamed, inSlice⟩ :=
        exists_preparedSlice settings.effectiveLimit_pos out.rowCount 0 within
          (by omega) (by omega) (getElem?_eq_getElem bound)
      refine ⟨⟨key.db, key.rp, slice⟩, ?_, rfl, rfl, ?_⟩
      · apply mem_append_left
        exact mem_flatMap.mpr ⟨out, outMember, mem_map_of_mem sliceMember⟩
      · exact ⟨sliceNamed.trans named, _, inSlice, holds⟩
    · obtain ⟨item, itemMember, found⟩ := ih laterOk inRest
      exact ⟨item, mem_append_right _ itemMember, found⟩

theorem preparedItems_ok (settings : FlushSettings) (total : stacking.Total)
    (groups : List (MeasurementKey × List (PreparedMeasurementBatch ρ))) :
    ∃ items, settings.preparedItems stacking groups = .ok items := by
  induction groups with
  | nil => exact ⟨[], rfl⟩
  | cons group rest ih =>
    obtain ⟨merged, mergedOk⟩ := mergedBatches_ok settings total group.2
    obtain ⟨later, laterOk⟩ := ih
    simp only [preparedItems, mergedOk, laterOk]
    exact ⟨_, rfl⟩

theorem preparedWork_covers {slots : List (Nat × PreparedWalSlot ρ)}
    (made : settings.preparedWork stacking slots = .ok writes)
    (wellFormed : ∀ pair ∈ slots, ∀ prepared ∈ pair.2.measurements, prepared.WellFormed)
    {slot : PreparedWalSlot ρ} (member : (seq, slot) ∈ slots)
    (prepares : PreparedFor stacking slot entry) : Covered stacking writes entry := by
  intro point pointMember
  obtain ⟨prepared, preparedMember, carried⟩ := prepares.carries point pointMember
  let key : MeasurementKey := ⟨slot.database, slot.retentionPolicy, prepared.measurement⟩
  have itemMember : (key, prepared) ∈ slots.flatMap fun pair => slotBatches pair.2 := by
    apply mem_flatMap.mpr
    exact ⟨(seq, slot), member, mem_map_of_mem preparedMember⟩
  obtain ⟨batches, lookup, inBatches⟩ := exists_of_mem Prod.fst Prod.snd itemMember
  have fromSlot : ∀ other ∈ batches, other.measurement = key.measurement ∧
      other.rowCount = other.batch.numRows := by
    intro other inside
    obtain ⟨⟨otherKey, found⟩, foundMember, sameKey, rfl⟩ := exists_item_of_mem lookup inside
    obtain ⟨pair, pairMember, inSlot⟩ := mem_flatMap.mp foundMember
    obtain ⟨original, originalMember, same⟩ := mem_map.mp inSlot
    cases same
    exact ⟨congrArg MeasurementKey.measurement sameKey,
      (wellFormed pair pairMember _ originalMember).counted⟩
  obtain ⟨items, itemsOk, ⟨⟩⟩ := exists_of_bind_eq_ok made
  have group := Std.ExtTreeMap.mem_toList_iff_getElem?_eq_some.mpr lookup
  obtain ⟨item, inItems, sameDb, sameRp, carries⟩ :=
    preparedItems_carries itemsOk group (fun other inside => (fromSlot other inside).2)
      (fun other inside => (fromSlot other inside).1) inBatches carried
  refine ⟨.prepared item, ?_, ?_, ?_, carries⟩
  · exact mem_map_of_mem inItems
  · exact sameDb.trans prepares.database
  · exact sameRp.trans prepares.retentionPolicy

theorem preparedWork_ok (settings : FlushSettings) (total : stacking.Total)
    (slots : List (Nat × PreparedWalSlot ρ)) :
    ∃ writes, settings.preparedWork stacking slots = .ok writes := by
  obtain ⟨items, itemsOk⟩ := preparedItems_ok settings total
    (collect Prod.fst Prod.snd (slots.flatMap fun pair => slotBatches pair.2)).toList
  exact ⟨items.map .prepared, by simp [preparedWork, itemsOk, Except.map]⟩

end FlushSettings

end HyperbyteDb
