import HyperbyteDb.ByteReaders
import HyperbyteDb.MachineWords
import HyperbyteDb.PointCoalescing

/-!
# WAL entries and their prepared slots

A write-ahead log entry holds the points of one client write.
-/

namespace HyperbyteDb

open List

structure WalEntry where
  database : String
  retentionPolicy : String
  points : List Point
  /-- Node that originated the write; 0 means the local node. -/
  originNodeId : UInt64
deriving DecidableEq

/-- What a batch's schema says about the column named `ingest_seq`. -/
inductive IngestColumn where
  | absent
  | otherType
  | uint64
deriving DecidableEq, Repr, Inhabited

structure PreparedRow (ρ : Type) where
  cells : ρ
  ingestSeq : Option UInt64
deriving DecidableEq

structure RecordBatch (ρ : Type) where
  ingestColumn : IngestColumn
  rows : List (PreparedRow ρ)
deriving DecidableEq

structure PreparedMeasurementBatch (ρ : Type) where
  measurement : String
  tableName : String
  seriesTableName : String
  batch : RecordBatch ρ
  rowCount : Nat
  minTime : Int64
  maxTime : Int64
  newSeriesBatch : Option (RecordBatch ρ)
deriving DecidableEq

structure PreparedWalSlot (ρ : Type) where
  database : String
  retentionPolicy : String
  originNodeId : UInt64
  measurements : List (PreparedMeasurementBatch ρ)
deriving DecidableEq

variable {ρ : Type}

namespace RecordBatch

def numRows (batch : RecordBatch ρ) : Nat := batch.rows.length

def slice (batch : RecordBatch ρ) (offset len : Nat) : RecordBatch ρ :=
  { batch with rows := (batch.rows.drop offset).take len }

end RecordBatch

/-- Make the batch's relative ingest sequences absolute; a null cell counts as the
row's index. -/
def patchIngestSeq (batch : RecordBatch ρ) (ingestSeqBase : UInt64) :
    Except String (RecordBatch ρ) :=
  if batch.numRows = 0 then .ok batch
  else
    match batch.ingestColumn with
    | .absent => .error "prepared batch missing ingest_seq column"
    | .otherType => .error "ingest_seq column has unexpected type"
    | .uint64 =>
      .ok { batch with
        rows := batch.rows.mapIdx fun index row =>
          ⟨row.cells, some (ingestSeqBase.saturatingAdd (row.ingestSeq.getD (.ofNat index)))⟩ }

def patchMeasurements (seq : UInt64) :
    UInt64 → List (PreparedMeasurementBatch ρ) → Except String (List (PreparedMeasurementBatch ρ))
  | _, [] => .ok []
  | rowOffset, prepared :: rest => do
      let batch ← patchIngestSeq prepared.batch (seq.saturatingAdd rowOffset)
      let patched ← patchMeasurements seq (rowOffset.saturatingAdd (.ofNat prepared.rowCount)) rest
      return { prepared with batch := batch } :: patched

def PreparedWalSlot.patchAllIngestSeqs (slot : PreparedWalSlot ρ) (seq : UInt64) :
    Except String (PreparedWalSlot ρ) := do
  let measurements ← patchMeasurements seq 0 slot.measurements
  return { slot with measurements := measurements }

/-- The two ways of stacking record batches by column name, for fact rows and for
new series, and the reading of a row as a point.  Stacking may fail; when it
succeeds it keeps every row. -/
structure BatchStacking (ρ : Type) where
  /-- The row is of this point's series and time. -/
  Carries : ρ → Point → Prop
  concatFacts : List (RecordBatch ρ) → Except String (RecordBatch ρ)
  concatSeries : List (RecordBatch ρ) → Except String (RecordBatch ρ)
  concatFacts_keeps : ∀ {batches stacked}, concatFacts batches = .ok stacked →
    ∀ batch ∈ batches, ∀ row ∈ batch.rows, ∃ kept ∈ stacked.rows,
      ∀ point, Carries row.cells point → Carries kept.cells point

namespace BatchStacking

variable (stacking : BatchStacking ρ)

def mergeSeriesBatches : List (RecordBatch ρ) → Except String (Option (RecordBatch ρ))
  | [] => .ok none
  | [batch] => .ok (some batch)
  | batches =>
    match stacking.concatSeries batches with
    | .ok merged => .ok (some merged)
    | .error cause => .error ("concat series batches: " ++ cause)

def coalescePreparedBatches :
    List (PreparedMeasurementBatch ρ) → Except String (Option (PreparedMeasurementBatch ρ))
  | [] => .ok none
  | [prepared] => .ok (some prepared)
  | template :: rest =>
    let batches := template :: rest
    match stacking.concatFacts (batches.map (·.batch)) with
    | .error cause => .error ("concat prepared batches: " ++ cause)
    | .ok merged => do
        let series ← stacking.mergeSeriesBatches (batches.filterMap (·.newSeriesBatch))
        return some
          { template with
            batch := merged
            rowCount := merged.numRows
            minTime := rest.foldl (fun least prepared => min least prepared.minTime)
              template.minTime
            maxTime := rest.foldl (fun most prepared => max most prepared.maxTime) template.maxTime
            newSeriesBatch := series }

end BatchStacking

def slicePreparedBatch (prepared : PreparedMeasurementBatch ρ) (offset len : Nat) :
    PreparedMeasurementBatch ρ :=
  { prepared with
    batch := prepared.batch.slice offset len
    rowCount := len
    newSeriesBatch := if offset = 0 then prepared.newSeriesBatch else none }

namespace PreparedMeasurementBatch

variable {prepared other : PreparedMeasurementBatch ρ}

def Carries (stacking : BatchStacking ρ) (prepared : PreparedMeasurementBatch ρ)
    (point : Point) : Prop :=
  prepared.measurement = point.measurement ∧
    ∃ row ∈ prepared.batch.rows, stacking.Carries row.cells point

/-- The batch is as ingest builds it: its row count is the number of its rows, and it
has an `ingest_seq` column to patch. -/
structure WellFormed (prepared : PreparedMeasurementBatch ρ) : Prop where
  counted : prepared.rowCount = prepared.batch.numRows
  patchable : prepared.batch.ingestColumn = .uint64

/-- The batches differ in ingest sequences at most. -/
structure SameRows (prepared other : PreparedMeasurementBatch ρ) : Prop where
  measurement : other.measurement = prepared.measurement
  rowCount : other.rowCount = prepared.rowCount
  ingestColumn : other.batch.ingestColumn = prepared.batch.ingestColumn
  cells : other.batch.rows.map (·.cells) = prepared.batch.rows.map (·.cells)

theorem SameRows.carries {stacking : BatchStacking ρ} (same : prepared.SameRows other)
    {point : Point} (carried : prepared.Carries stacking point) : other.Carries stacking point := by
  obtain ⟨named, row, member, holds⟩ := carried
  have inside : row.cells ∈ other.batch.rows.map (·.cells) := by
    rw [same.cells]
    exact mem_map_of_mem member
  obtain ⟨kept, keptMember, keptEq⟩ := mem_map.mp inside
  exact ⟨same.measurement.trans named, kept, keptMember, keptEq ▸ holds⟩

theorem SameRows.wellFormed (same : prepared.SameRows other) (wellFormed : prepared.WellFormed) :
    other.WellFormed := by
  have lengths := congrArg length same.cells
  simp only [length_map] at lengths
  constructor
  · rw [same.rowCount, wellFormed.counted, RecordBatch.numRows, RecordBatch.numRows, lengths]
  · rw [same.ingestColumn, wellFormed.patchable]

end PreparedMeasurementBatch

variable {stacking : BatchStacking ρ} {prepared : PreparedMeasurementBatch ρ}

theorem BatchStacking.coalescePreparedBatches_carries {batches : List (PreparedMeasurementBatch ρ)}
    {stacked : Option (PreparedMeasurementBatch ρ)}
    (made : stacking.coalescePreparedBatches batches = .ok stacked)
    (counted : ∀ prepared ∈ batches, prepared.rowCount = prepared.batch.numRows)
    {measurement : String}
    (oneMeasurement : ∀ prepared ∈ batches, prepared.measurement = measurement)
    (member : prepared ∈ batches) {point : Point} (carried : prepared.Carries stacking point) :
    ∃ out ∈ stacked, out.rowCount = out.batch.numRows ∧ out.Carries stacking point := by
  match batches with
  | [single] =>
    cases made
    have same := mem_singleton.mp member
    exact ⟨single, rfl, counted single (by simp), same ▸ carried⟩
  | template :: second :: rest =>
    simp only [coalescePreparedBatches] at made
    split at made
    next => simp at made
    next merged stackedOk =>
      obtain ⟨series, -, ⟨⟩⟩ := ByteReaders.exists_of_bind_eq_ok made
      obtain ⟨named, row, rowMember, holds⟩ := carried
      obtain ⟨kept, keptMember, keeps⟩ := stacking.concatFacts_keeps stackedOk
        prepared.batch (mem_map_of_mem member) row rowMember
      have sameName : template.measurement = point.measurement := by
        rw [oneMeasurement template (by simp), ← oneMeasurement prepared member, named]
      exact ⟨_, rfl, rfl, sameName, kept, keptMember, keeps point holds⟩

structure BatchStacking.Total (stacking : BatchStacking ρ) : Prop where
  facts : ∀ batches, ∃ stacked, stacking.concatFacts batches = .ok stacked
  series : ∀ batches, ∃ stacked, stacking.concatSeries batches = .ok stacked

theorem BatchStacking.Total.mergeSeriesBatches_ok (total : stacking.Total)
    (batches : List (RecordBatch ρ)) :
    ∃ merged, stacking.mergeSeriesBatches batches = .ok merged := by
  match batches with
  | [] => exact ⟨none, rfl⟩
  | [batch] => exact ⟨some batch, rfl⟩
  | first :: second :: rest =>
    obtain ⟨stacked, stackedOk⟩ := total.series (first :: second :: rest)
    exact ⟨some stacked, by simp [mergeSeriesBatches, stackedOk]⟩

theorem BatchStacking.Total.coalescePreparedBatches_ok (total : stacking.Total)
    (batches : List (PreparedMeasurementBatch ρ)) :
    ∃ stacked, stacking.coalescePreparedBatches batches = .ok stacked := by
  match batches with
  | [] => exact ⟨none, rfl⟩
  | [prepared] => exact ⟨some prepared, rfl⟩
  | template :: second :: rest =>
    obtain ⟨merged, mergedOk⟩ :=
      total.facts ((template :: second :: rest).map (·.batch))
    obtain ⟨series, seriesOk⟩ := total.mergeSeriesBatches_ok
      ((template :: second :: rest).filterMap (·.newSeriesBatch))
    simp only [coalescePreparedBatches, mergedOk, seriesOk]
    exact ⟨_, rfl⟩

/-- The slot holds everything the entry holds: a row for each of its points. -/
structure PreparedFor (stacking : BatchStacking ρ) (slot : PreparedWalSlot ρ)
    (entry : WalEntry) : Prop where
  database : slot.database = entry.database
  retentionPolicy : slot.retentionPolicy = entry.retentionPolicy
  wellFormed : ∀ prepared ∈ slot.measurements, prepared.WellFormed
  carries : ∀ point ∈ entry.points, ∃ prepared ∈ slot.measurements, prepared.Carries stacking point

theorem patchIngestSeq_ok (patchable : prepared.batch.ingestColumn = .uint64) (base : UInt64) :
    ∃ batch, patchIngestSeq prepared.batch base = .ok batch ∧
      prepared.SameRows { prepared with batch := batch } := by
  unfold patchIngestSeq
  by_cases empty : prepared.batch.numRows = 0
  · exact ⟨_, if_pos empty, ⟨rfl, rfl, rfl, rfl⟩⟩
  · rw [if_neg empty, patchable]
    refine ⟨_, rfl, ⟨rfl, rfl, patchable.symm, ?_⟩⟩
    apply ext_getElem?
    intro index
    simp only [getElem?_map, getElem?_mapIdx, Option.map_map]
    rfl

theorem patchMeasurements_ok (seq rowOffset : UInt64)
    {measurements : List (PreparedMeasurementBatch ρ)}
    (wellFormed : ∀ prepared ∈ measurements, prepared.WellFormed) :
    ∃ patched, patchMeasurements seq rowOffset measurements = .ok patched ∧
      (∀ prepared ∈ measurements, ∃ other ∈ patched, prepared.SameRows other) ∧
      ∀ other ∈ patched, ∃ prepared ∈ measurements, prepared.SameRows other := by
  induction measurements generalizing rowOffset with
  | nil => exact ⟨[], rfl, by simp, by simp⟩
  | cons prepared rest ih =>
    obtain ⟨batch, batchOk, same⟩ :=
      patchIngestSeq_ok (wellFormed prepared (by simp)).patchable (seq.saturatingAdd rowOffset)
    obtain ⟨patched, patchedOk, forward, backward⟩ :=
      ih (rowOffset.saturatingAdd (.ofNat prepared.rowCount))
        fun other member => wellFormed other (by simp [member])
    refine ⟨{ prepared with batch := batch } :: patched, ?_, ?_, ?_⟩
    · simp only [patchMeasurements, batchOk, patchedOk]
      rfl
    · rintro original (_ | ⟨_, member⟩)
      · exact ⟨_, by simp, same⟩
      · obtain ⟨other, otherMember, related⟩ := forward original member
        exact ⟨other, by simp [otherMember], related⟩
    · rintro other (_ | ⟨_, member⟩)
      · exact ⟨_, by simp, same⟩
      · obtain ⟨original, originalMember, related⟩ := backward other member
        exact ⟨original, by simp [originalMember], related⟩

theorem PreparedFor.patchAllIngestSeqs {slot : PreparedWalSlot ρ} {entry : WalEntry}
    (prepared : PreparedFor stacking slot entry) (seq : UInt64) :
    ∃ patched, slot.patchAllIngestSeqs seq = .ok patched ∧ PreparedFor stacking patched entry := by
  obtain ⟨patched, patchedOk, forward, backward⟩ :=
    patchMeasurements_ok seq 0 prepared.wellFormed
  refine ⟨{ slot with measurements := patched }, ?_, ?_⟩
  · simp only [PreparedWalSlot.patchAllIngestSeqs, patchedOk]
    rfl
  · refine ⟨prepared.database, prepared.retentionPolicy, ?_, ?_⟩
    · intro other member
      obtain ⟨original, originalMember, same⟩ := backward other member
      exact same.wellFormed (prepared.wellFormed original originalMember)
    · intro point inside
      obtain ⟨original, originalMember, carried⟩ := prepared.carries point inside
      obtain ⟨other, otherMember, same⟩ := forward original originalMember
      exact ⟨other, otherMember, same.carries carried⟩

end HyperbyteDb
