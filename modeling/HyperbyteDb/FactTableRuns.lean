import HyperbyteDb.FactChunks
import HyperbyteDb.FlushStepSafety
import Mathlib.Data.List.Flatten

/-!
# Runs of single-row writes

While every write carries at most one point, the fact tables stay in the order of the log
over whole runs: each chunk is numbered between the cursor before it and the cursor after
it, so the order inside the chunks carries over to all rows.
-/

namespace HyperbyteDb

open ByteReaders FlushService FlushSettings GuardedRuns KeyedBatches List PreparedFlushWork VersionedRows

section

section Rows

variable {ρ : Type} {settings : FlushSettings}

theorem flatMap_rows_preparedSlices {limit : Nat} (positive : 0 < limit)
    {prepared : PreparedMeasurementBatch ρ}
    (counted : prepared.rowCount = prepared.batch.numRows) {fuel offset : Nat}
    (enough : prepared.rowCount ≤ offset + fuel) :
    (preparedSlices limit prepared fuel offset).flatMap (·.batch.rows) =
      prepared.batch.rows.drop offset := by
  induction fuel generalizing offset with
  | zero =>
    rw [counted, RecordBatch.numRows] at enough
    rw [drop_eq_nil_of_le (by omega)]
    rfl
  | succ fuel ih =>
    rw [preparedSlices]
    split
    next remaining =>
      rw [flatMap_cons, ih (by omega)]
      simp only [slicePreparedBatch, RecordBatch.slice]
      rw [← drop_drop, take_append_drop]
    next past =>
      rw [counted, RecordBatch.numRows] at past
      rw [drop_eq_nil_of_le (by omega)]
      rfl

theorem measurement_of_mem_preparedSlices {limit : Nat}
    {prepared slice : PreparedMeasurementBatch ρ} {fuel offset : Nat}
    (member : slice ∈ preparedSlices limit prepared fuel offset) :
    slice.measurement = prepared.measurement := by
  induction fuel generalizing offset with
  | zero => cases member
  | succ fuel ih =>
    rw [preparedSlices] at member
    split at member
    next =>
      rcases mem_cons.mp member with rfl | later
      · rfl
      · exact ih later
    next => cases member

structure CountedBatches (measurement : String)
    (batches : List (PreparedMeasurementBatch ρ)) : Prop where
  counted : ∀ prepared ∈ batches, prepared.rowCount = prepared.batch.numRows
  named : ∀ prepared ∈ batches, prepared.measurement = measurement

section

variable {stacking : BatchStacking ρ}
  (concatenates : ∀ {batches stacked}, stacking.concatFacts batches = .ok stacked →
    stacked.rows = batches.flatMap (·.rows))
  {measurement : String}
include concatenates

theorem coalescePreparedBatches_rows {batches : List (PreparedMeasurementBatch ρ)}
    (good : CountedBatches measurement batches) {stacked : Option (PreparedMeasurementBatch ρ)}
    (made : stacking.coalescePreparedBatches batches = .ok stacked) :
    CountedBatches measurement stacked.toList ∧
      stacked.toList.flatMap (·.batch.rows) = batches.flatMap (·.batch.rows) := by
  match batches with
  | [] =>
    cases made
    exact ⟨⟨by simp, by simp⟩, rfl⟩
  | [prepared] =>
    cases made
    exact ⟨good, rfl⟩
  | template :: second :: rest =>
    simp only [BatchStacking.coalescePreparedBatches] at made
    split at made
    next => cases made
    next merged mergedOk =>
      obtain ⟨series, -, ⟨⟩⟩ := exists_of_bind_eq_ok made
      refine ⟨⟨by simp, ?_⟩, ?_⟩
      · simpa using good.named template mem_cons_self
      · have rows := concatenates mergedOk
        rw [flatMap_map] at rows
        simpa using rows

theorem mergedBatches_rows {batches merged : List (PreparedMeasurementBatch ρ)}
    (good : CountedBatches measurement batches)
    (made : settings.mergedBatches stacking batches = .ok merged) :
    CountedBatches measurement merged ∧
      merged.flatMap (·.batch.rows) = batches.flatMap (·.batch.rows) := by
  have stackedRows : (stacking.coalescePreparedBatches batches).map Option.toList = .ok merged →
      CountedBatches measurement merged ∧
        merged.flatMap (·.batch.rows) = batches.flatMap (·.batch.rows) := by
    intro made
    obtain ⟨stacked, stackedOk, ⟨⟩⟩ := exists_of_bind_eq_ok made
    exact coalescePreparedBatches_rows concatenates good stackedOk
  unfold mergedBatches at made
  split at made
  next => exact stackedRows made
  next =>
    split at made
    next =>
      cases made
      exact ⟨good, rfl⟩
    next => exact stackedRows made

end

end Rows

def PreparedRow.toFactRow (key : MeasurementKey) (row : PreparedRow (Point × Nat)) : FactRow :=
  ⟨⟨key, row.cells.1, row.ingestSeq.getD 0⟩, row.cells.2⟩

theorem factRows_of_slices {key : MeasurementKey} {limit : Nat} (positive : 0 < limit)
    {merged : List (PreparedMeasurementBatch (Point × Nat))}
    (good : CountedBatches key.measurement merged) : (merged.flatMap fun prepared =>
      (preparedSlices limit prepared prepared.rowCount 0).map (mk key.db key.rp)).flatMap factRows =
      (merged.flatMap (·.batch.rows)).map (PreparedRow.toFactRow key) := by
  rw [flatMap_assoc, map_flatMap]
  apply flatMap_congr
  intro prepared member
  have rows := flatMap_rows_preparedSlices positive (good.counted prepared member)
    (Nat.le_add_left prepared.rowCount 0)
  rw [drop_zero] at rows
  rw [flatMap_map, ← rows, map_flatMap]
  apply flatMap_congr
  intro slice inside
  have named : slice.measurement = key.measurement :=
    (measurement_of_mem_preparedSlices inside).trans (good.named prepared member)
  simp only [factRows, named]
  rfl

variable (service : FactService)

theorem preparedItems_factRows
    {groups : List (MeasurementKey × List (PreparedMeasurementBatch (Point × Nat)))}
    (good : ∀ group ∈ groups, CountedBatches group.1.measurement group.2)
    {items : List (PreparedFlushWork (Point × Nat))}
    (made : service.settings.preparedItems service.stacking groups = .ok items) :
    items.flatMap factRows = groups.flatMap fun group =>
      (group.2.flatMap (·.batch.rows)).map (PreparedRow.toFactRow group.1) := by
  induction groups generalizing items with
  | nil =>
    cases made
    rfl
  | cons group rest ih =>
    obtain ⟨merged, mergedOk, made⟩ := exists_of_bind_eq_ok made
    obtain ⟨later, laterOk, ⟨⟩⟩ := exists_of_bind_eq_ok made
    obtain ⟨mergedGood, rows⟩ := mergedBatches_rows service.concatenates
      (good group mem_cons_self) mergedOk
    rw [flatMap_append, flatMap_cons,
      ih (fun other member => good other (mem_cons_of_mem _ member)) laterOk,
      factRows_of_slices service.settings.effectiveLimit_pos mergedGood, rows]

/-! ## Slots of one row -/

def singleBatch (row : SourceRow) : PreparedMeasurementBatch (Point × Nat) :=
  { prepareMeasurementBatch service.tableNames row.1 row.2.2 [row.2.1] with
    batch := ⟨.uint64, [⟨row.2, some (.ofNat row.2.2)⟩]⟩ }

/-- The rows of the writes, each tagged with the sequence of its entry. -/
def writtenRows (chunk : List (Nat × LoggedWrite)) : List SourceRow :=
  chunk.flatMap fun item => item.2.written.map fun point =>
    (⟨item.2.db, item.2.rp, point.measurement⟩, point, item.1)

theorem LoggedWrite.slot_of_single {write : LoggedWrite} (single : write.written.length ≤ 1)
    (seq : Nat) : (write.slot service seq).database = write.db ∧
      (write.slot service seq).retentionPolicy = write.rp ∧
      (write.slot service seq).measurements = write.written.map fun point =>
        prepareMeasurementBatch service.tableNames ⟨write.db, write.rp, point.measurement⟩ seq
          [point] := by
  cases write with
  | points db rp originNodeId batch =>
    match batch with
    | [] => exact ⟨rfl, rfl, rfl⟩
    | [point] => exact ⟨rfl, rfl, rfl⟩
    | first :: second :: rest => simp [written] at single
  | columnar db rp originNodeId measurement tags field samples =>
    match samples with
    | [] => exact ⟨rfl, rfl, rfl⟩
    | [sample] => exact ⟨rfl, rfl, rfl⟩
    | first :: second :: rest => simp [written] at single

theorem patchIngestSeq_single (key : MeasurementKey) (point : Point) (seq : Nat) :
    patchIngestSeq (prepareMeasurementBatch service.tableNames key seq [point]).batch
      ((UInt64.ofNat seq).saturatingAdd 0) = .ok (singleBatch service (key, point, seq)).batch := by
  have first : ((UInt64.ofNat seq).saturatingAdd 0).saturatingAdd (.ofNat 0) = .ofNat seq := by
    rw [UInt64.saturatingAdd_zero]
    exact UInt64.saturatingAdd_zero _
  simp only [patchIngestSeq, prepareMeasurementBatch, mapIdx_cons, Option.getD_some, first]
  rfl

theorem slotBatches_of_single {item : Nat × LoggedWrite} (single : item.2.written.length ≤ 1) :
    ∃ patched, (item.2.slot service item.1).patchAllIngestSeqs (.ofNat item.1) = .ok patched ∧
      slotBatches patched =
        (writtenRows [item]).map fun row => (row.1, singleBatch service row) := by
  obtain ⟨database, retentionPolicy, measurements⟩ := LoggedWrite.slot_of_single service single item.1
  have patchedOk : patchMeasurements (.ofNat item.1) 0 (item.2.slot service item.1).measurements =
      .ok (item.2.written.map fun point =>
        singleBatch service (⟨item.2.db, item.2.rp, point.measurement⟩, point, item.1)) := by
    rw [measurements]
    match item.2.written, single with
    | [], _ => rfl
    | [point], _ =>
      simp only [map_cons, patchMeasurements, patchIngestSeq_single]
      rfl
  refine ⟨_, by rw [PreparedWalSlot.patchAllIngestSeqs, patchedOk]; rfl, ?_⟩
  simp only [slotBatches, writtenRows, database, retentionPolicy, flatMap_singleton, map_map]
  rfl

theorem writtenRows_cons (item : Nat × LoggedWrite) (chunk : List (Nat × LoggedWrite)) :
    writtenRows (item :: chunk) = writtenRows [item] ++ writtenRows chunk := by
  simp [writtenRows]

section

variable {chunk : List (Nat × LoggedWrite)} (single : ∀ item ∈ chunk, item.2.written.length ≤ 1)
include single

theorem patchedSlots_of_single : ∃ slots, (chunk.mapM fun item => do
        let patched ← (item.2.slot service item.1).patchAllIngestSeqs (.ofNat item.1)
        return (item.1, patched)) = .ok slots ∧
      slots.flatMap (fun pair => slotBatches pair.2) =
        (writtenRows chunk).map fun row => (row.1, singleBatch service row) := by
  induction chunk with
  | nil => exact ⟨[], rfl, rfl⟩
  | cons item chunk ih =>
    obtain ⟨patched, patchedOk, batches⟩ :=
      slotBatches_of_single service (single item mem_cons_self)
    obtain ⟨slots, slotsOk, later⟩ :=
      ih fun other member => single other (mem_cons_of_mem _ member)
    refine ⟨(item.1, patched) :: slots, ?_, ?_⟩
    · rw [mapM_cons, patchedOk, slotsOk]
      rfl
    · rw [flatMap_cons, batches, later, ← map_append, ← writtenRows_cons]

/-- A run of single-row slots stores every row under the sequence of its entry. -/
theorem preparedChunkRows_eq {out : List FactRow}
    (made : service.preparedChunkRows chunk = .ok out) :
    out = (collect Prod.fst Prod.snd (writtenRows chunk)).toList.flatMap fun group =>
      group.2.map fun row => ⟨⟨group.1, row.1, .ofNat row.2⟩, row.2⟩ := by
  obtain ⟨slots, slotsOk, batches⟩ := patchedSlots_of_single service single
  have collected : collect Prod.fst Prod.snd
      (slots.flatMap fun pair => slotBatches pair.2) =
      collect Prod.fst (singleBatch service) (writtenRows chunk) := by
    rw [batches, collect, foldl_map]
    rfl
  rw [FactService.preparedChunkRows, slotsOk] at made
  change service.settings.preparedFactRows service.stacking slots = .ok out at made
  rw [preparedFactRows, collected] at made
  obtain ⟨items, itemsOk, ⟨⟩⟩ := exists_of_bind_eq_ok made
  have good : ∀ group ∈ (collect Prod.fst (singleBatch service) (writtenRows chunk)).toList,
      CountedBatches group.1.measurement group.2 := by
    intro group member
    rw [(mem_toList_collect member).1]
    constructor
    · intro prepared inside
      obtain ⟨row, -, rfl⟩ := mem_map.mp inside
      rfl
    · intro prepared inside
      obtain ⟨row, rowMember, rfl⟩ := mem_map.mp inside
      have under : row.1 = group.1 := by simpa using of_mem_filter rowMember
      rw [← under]
      rfl
  refine (preparedItems_factRows service good itemsOk).trans ?_
  rw [toList_collect_map Prod.fst Prod.snd
    (fun table row => singleBatch service (table, row)), flatMap_map]
  apply flatMap_congr
  intro group _
  simp only [flatMap_map, singleBatch, ← map_eq_flatMap, map_map]
  rfl

end

/-- Rows numbered by the sequences of their entries are in the order of the log. -/
theorem sequencedRows_stored {service : FactService} {items : List SourceRow}
    (single : service.SingleRows items) {low high : Nat}
    (above : ∀ item ∈ items, low < item.2.2 ∧ item.2.2 ≤ high) (fits : high < 2 ^ 64) :
    service.ChunkStored items low high
      ((collect Prod.fst Prod.snd items).toList.flatMap fun group =>
        group.2.map fun row => ⟨⟨group.1, row.1, .ofNat row.2⟩, row.2⟩) := by
  have toNat : ∀ item ∈ items, (UInt64.ofNat item.2.2).toNat = item.2.2 := by
    intro item member
    have bound := (above item member).2
    exact UInt64.toNat_ofNat_of_lt' (bound.trans_lt fits)
  have place : ∀ row ∈ (collect Prod.fst Prod.snd items).toList.flatMap (fun group =>
      group.2.map fun row => FactRow.mk ⟨group.1, row.1, .ofNat row.2⟩ row.2),
      ∃ item ∈ items, row = ⟨⟨item.1, item.2.1, .ofNat item.2.2⟩, item.2.2⟩ := by
    intro row member
    obtain ⟨group, inGroups, inGroup⟩ := mem_flatMap.mp member
    rw [(mem_toList_collect inGroups).1, map_map] at inGroup
    obtain ⟨item, itemMember, rfl⟩ := mem_map.mp inGroup
    have under : item.1 = group.1 := by simpa using of_mem_filter itemMember
    exact ⟨item, mem_of_mem_filter itemMember, by rw [under]; rfl⟩
  constructor
  · rw [pairwise_flatMap]
    constructor
    · intro group member
      rw [(mem_toList_collect member).1, map_map, pairwise_map]
      refine (single.ascending.filter _).imp_of_mem ?_
      intro first second firstMember secondMember below _
      refine ⟨?_, below⟩
      rw [UInt64.lt_iff_toNat_lt]
      simp only [Function.comp_apply, toNat first (mem_of_mem_filter firstMember),
        toNat second (mem_of_mem_filter secondMember)]
      exact below
    · refine (pairwise_keys_toList _).imp ?_
      intro group other distinct row member next nextMember same
      obtain ⟨inner, -, rfl⟩ := mem_map.mp member
      obtain ⟨nextInner, -, rfl⟩ := mem_map.mp nextMember
      exact absurd (congrArg Prod.fst same) distinct
  · intro row member
    obtain ⟨item, inside, rfl⟩ := place row member
    rw [toNat item inside]
    exact above item inside
  · intro row member
    obtain ⟨item, inside, rfl⟩ := place row member
    exact above item inside
  · intro instant field
    have grouped : latestUnder service.sourceKey fieldOf
        ((collect Prod.fst Prod.snd items).toList.flatMap fun group =>
          (id group.2).map (Prod.mk group.1)) instant field = _ :=
      latestUnder_collect rfl instant field rfl
    have rows : (collect Prod.fst Prod.snd items).toList.flatMap (fun group =>
        group.2.map fun row => FactRow.mk ⟨group.1, row.1, .ofNat row.2⟩ row.2) =
        ((collect Prod.fst Prod.snd items).toList.flatMap fun group =>
          (id group.2).map (Prod.mk group.1)).map fun row =>
            ⟨⟨row.1, row.2.1, .ofNat row.2.2⟩, row.2.2⟩ := by
      simp [map_flatMap, Function.comp_def]
    rw [← grouped, rows, latestUnder_map]
    rfl

end

/-! ## Runs of single-row writes -/

/-! ## Chunks of an ascending log -/

section Ascending

variable {α : Type} {log : List (Nat × α)}

theorem filter_append_filter_of_ascending
    (ascending : log.Pairwise fun first second => first.1 < second.1) (cursor : Nat) :
    log.filter (·.1 ≤ cursor) ++ log.filter (cursor < ·.1) = log := by
  induction log with
  | nil => rfl
  | cons item log ih =>
    obtain ⟨below, ascendingLog⟩ := pairwise_cons.mp ascending
    by_cases passed : item.1 ≤ cursor
    · simp [passed, ih ascendingLog]
    · have above : cursor < item.1 := by omega
      have nothing : log.filter (·.1 ≤ cursor) = [] := by
        rw [filter_eq_nil_iff]
        intro other member
        have := below other member
        simp only [decide_eq_true_eq]
        omega
      have everything : log.filter (cursor < ·.1) = log := by
        rw [filter_eq_self]
        intro other member
        have := below other member
        simp only [decide_eq_true_eq]
        omega
      simp [above, nothing, everything]

theorem le_chunkMax (cursor : Nat) {chunk : List (Nat × α)}
    (above : ∀ item ∈ chunk, cursor < item.1) : cursor ≤ chunkMax cursor chunk := by
  by_cases empty : chunk = []
  · rw [empty]
    exact Nat.le_refl cursor
  · obtain ⟨⟨item, member, greatest⟩, -⟩ := chunkMax_spec cursor empty
    have := above item member
    omega

theorem add_length_le_of_ascending {cursor high : Nat} {chunk : List (Nat × α)}
    (ascending : chunk.Pairwise fun first second => first.1 < second.1)
    (between : ∀ item ∈ chunk, cursor < item.1 ∧ item.1 ≤ high) (room : cursor ≤ high) :
    cursor + chunk.length ≤ high := by
  induction chunk generalizing cursor with
  | nil => simpa using room
  | cons item chunk ih =>
    obtain ⟨below, ascendingChunk⟩ := pairwise_cons.mp ascending
    have bound := between item mem_cons_self
    have later := ih ascendingChunk
      (fun other member => ⟨below other member, (between other (by simp [member])).2⟩) bound.2
    rw [length_cons]
    omega

/-- A chunk takes the next entries: what is passed afterwards is what was passed before
and the chunk. -/
theorem filter_chunkMax_eq (ascending : log.Pairwise fun first second => first.1 < second.1)
    (cursor count : Nat) :
    let chunk := (log.filter (cursor < ·.1)).take count
    log.filter (·.1 ≤ chunkMax cursor chunk) = log.filter (·.1 ≤ cursor) ++ chunk := by
  intro chunk
  have above : ∀ item ∈ log.filter (cursor < ·.1), cursor < item.1 := by
    simp
  have aboveChunk : ∀ item ∈ chunk, cursor < item.1 :=
    fun item member => above item (mem_of_mem_take member)
  have room := le_chunkMax cursor aboveChunk
  have parts : chunk ++ (log.filter (cursor < ·.1)).drop count = log.filter (cursor < ·.1) :=
    take_append_drop count _
  have sorted := ascending.filter (cursor < ·.1)
  rw [← parts, pairwise_append] at sorted
  conv_lhs => rw [← filter_append_filter_of_ascending ascending cursor, ← parts]
  rw [filter_append, filter_append]
  have passed : (log.filter (·.1 ≤ cursor)).filter
      (·.1 ≤ chunkMax cursor chunk) = log.filter (·.1 ≤ cursor) := by
    rw [filter_eq_self]
    intro item member
    have := of_mem_filter member
    simp only [decide_eq_true_eq] at this ⊢
    omega
  have taken : chunk.filter (·.1 ≤ chunkMax cursor chunk) = chunk := by
    rw [filter_eq_self]
    intro item member
    have bound := (chunkMax_spec cursor (ne_nil_of_mem member)).2 item member
    simpa using bound
  have left : ((log.filter (cursor < ·.1)).drop count).filter
      (·.1 ≤ chunkMax cursor chunk) = [] := by
    rw [filter_eq_nil_iff]
    intro item member
    have beyond : chunkMax cursor chunk < item.1 := by
      by_cases empty : chunk = []
      · rw [empty]
        exact above item (mem_of_mem_drop member)
      · obtain ⟨⟨greatest, inside, same⟩, -⟩ := chunkMax_spec cursor empty
        rw [← same]
        exact sorted.2.2 greatest inside item member
    simp only [decide_eq_true_eq]
    omega
  rw [passed, taken, left, append_nil]

end Ascending

/-! ## Rows of a log of single-row writes -/

/-- No two rows of one table, series id and time are of different tag sets. -/
def FactService.Separated (service : FactService) (items : List SourceRow) : Prop :=
  ∀ item ∈ items, ∀ other ∈ items, service.sourceKey item = service.sourceKey other →
    item.2.1.tags = other.2.1.tags

variable {row : SourceRow} {items : List SourceRow}

variable {service : FactService}

section SingleRows

variable {chunk : List (Nat × LoggedWrite)}

theorem mem_writtenRows :
    row ∈ writtenRows chunk ↔ ∃ item ∈ chunk, ∃ point ∈ item.2.written,
      row = (⟨item.2.db, item.2.rp, point.measurement⟩, point, item.1) := by
  simp only [writtenRows, mem_flatMap, mem_map, eq_comm]

theorem singleRows_writtenRows (ascending : chunk.Pairwise fun first second => first.1 < second.1)
    (single : ∀ item ∈ chunk, item.2.written.length ≤ 1)
    (separated : service.Separated (writtenRows chunk)) :
    service.SingleRows (writtenRows chunk) := by
  refine ⟨?_, ?_, separated⟩
  · rw [writtenRows, pairwise_flatMap]
    constructor
    · intro item member
      have short := single item member
      generalize item.2.written = written at short
      cases written with
      | nil => exact List.Pairwise.nil
      | cons point points =>
        obtain rfl : points = [] := by simpa using short
        exact pairwise_singleton _ _
    · refine ascending.imp ?_
      intro item other below row member next nextMember
      obtain ⟨point, -, rfl⟩ := mem_map.mp member
      obtain ⟨otherPoint, -, rfl⟩ := mem_map.mp nextMember
      exact below
  · intro row member
    obtain ⟨item, -, point, -, rfl⟩ := mem_writtenRows.mp member
    rfl

theorem FactService.SingleRows.sublist {more : List SourceRow}
    (single : service.SingleRows more) (part : items.Sublist more) : service.SingleRows items :=
  ⟨single.ascending.sublist part, fun item member => single.named item (part.subset member),
    fun item member other otherMember =>
      single.separated item (part.subset member) other (part.subset otherMember)⟩

theorem length_writtenRows_le (single : ∀ item ∈ chunk, item.2.written.length ≤ 1) :
    (writtenRows chunk).length ≤ chunk.length := by
  induction chunk with
  | nil => simp [writtenRows]
  | cons item chunk ih =>
    have first := single item mem_cons_self
    have later := ih fun other member => single other (mem_cons_of_mem _ member)
    rw [writtenRows_cons, length_append, length_cons]
    have here : (writtenRows [item]).length = item.2.written.length := by
      simp [writtenRows]
    omega

/-- The points that the native path finds in the entries. -/
theorem sourceRows_sublist (settings : FlushSettings) (chunk : List (Nat × LoggedWrite)) :
    (settings.sourceRows (chunk.map fun item => (item.1, item.2.entry))).Sublist
      (writtenRows chunk) := by
  rw [FlushSettings.sourceRows, flatMap_map]
  apply List.Sublist.flatMap_right
  rintro ⟨seq, write⟩ -
  cases write with
  | points db rp originNodeId batch =>
    simp [FlushSettings.entryRows, LoggedWrite.entry, LoggedWrite.written, LoggedWrite.db,
      LoggedWrite.rp, Function.comp_def]
  | columnar => simp [FlushSettings.entryRows, LoggedWrite.entry]

end SingleRows

/-! ## The order of the rows along a run -/

/-- The condition on a step: a write carries at most one point, its series id is not the
id of another series at the same time, and the sequence counter does not run over. -/
def FactService.SingleRowStep (service : FactService) (world : FactWorld) : FactEvent → Prop
  | .append skipped write =>
    write.written.length ≤ 1 ∧ world.seq + skipped + 1 < 2 ^ 64 ∧
      service.Separated (writtenRows (world.log ++ [(world.seq + skipped + 1, write)]))
  | _ => True

/-- Later rows of a series and time have a greater number and a later source, and all
rows are numbered up to the cursor. -/
structure FactService.Consistent (service : FactService) (world : FactWorld) : Prop where
  ascending : world.log.Pairwise fun first second => first.1 < second.1
  assigned : ∀ item ∈ world.log, item.1 ≤ world.seq
  passed : world.cursor ≤ world.seq
  fits : world.seq < 2 ^ 64
  single : ∀ item ∈ world.log, item.2.written.length ≤ 1
  separated : service.Separated (writtenRows world.log)
  ordered : world.rows.Pairwise fun first second =>
    service.rowKey first = service.rowKey second →
      first.ingestSeq < second.ingestSeq ∧ first.source < second.source
  numbered : ∀ row ∈ world.rows, row.ingestSeq.toNat ≤ world.cursor ∧ row.source ≤ world.cursor

namespace FactService.Consistent

variable {world : FactWorld}

theorem initial : service.Consistent {} where
  ascending := List.Pairwise.nil
  assigned := by simp
  passed := Nat.le_refl 0
  fits := by decide
  single := by simp
  separated := by simp [Separated, writtenRows]
  ordered := List.Pairwise.nil
  numbered := by simp

variable (consistent : service.Consistent world)

section Chunks

variable (count : Nat)

theorem nextChunk_sublist : (nextChunk world count).Sublist world.log :=
  (take_sublist _ _).trans filter_sublist

theorem length_nextChunk_le : (nextChunk world count).length ≤ walReadChunk := by
  rw [nextChunk, length_take]
  omega

theorem nextChunk_between {item : Nat × LoggedWrite} (member : item ∈ nextChunk world count) :
    world.cursor < item.1 ∧ item.1 ≤ chunkMax world.cursor (nextChunk world count) := by
  constructor
  · simpa using of_mem_filter (mem_of_mem_take member)
  · exact (chunkMax_spec _ (ne_nil_of_mem member)).2 item member

theorem writtenRows_between (member : row ∈ writtenRows (nextChunk world count)) :
    world.cursor < row.2.2 ∧ row.2.2 ≤ chunkMax world.cursor (nextChunk world count) := by
  obtain ⟨item, inside, point, -, rfl⟩ := mem_writtenRows.mp member
  exact nextChunk_between count inside

theorem le_chunkMax_nextChunk (world : FactWorld) (count : Nat) :
    world.cursor ≤ chunkMax world.cursor (nextChunk world count) :=
  le_chunkMax world.cursor fun _ member => (nextChunk_between count member).1

include consistent

theorem chunkMax_le : chunkMax world.cursor (nextChunk world count) ≤ world.seq := by
  by_cases empty : nextChunk world count = []
  · rw [empty]
    exact consistent.passed
  · obtain ⟨⟨item, member, greatest⟩, -⟩ := chunkMax_spec world.cursor empty
    rw [← greatest]
    exact consistent.assigned item ((nextChunk_sublist count).subset member)

theorem singleRows_nextChunk : service.SingleRows (writtenRows (nextChunk world count)) := by
  apply (singleRows_writtenRows consistent.ascending consistent.single consistent.separated).sublist
  exact (nextChunk_sublist count).flatMap _

theorem single_nextChunk : ∀ item ∈ nextChunk world count, item.2.written.length ≤ 1 :=
  fun item member => consistent.single item ((nextChunk_sublist count).subset member)

theorem native_stored :
    service.ChunkStored (service.settings.sourceRows
        ((nextChunk world count).map fun item => (item.1, item.2.entry)))
      world.cursor (chunkMax world.cursor (nextChunk world count))
      (service.nativeChunkRows world (nextChunk world count)) := by
  have part := sourceRows_sublist service.settings (nextChunk world count)
  have few := part.length_le.trans (length_writtenRows_le (consistent.single_nextChunk count))
  have room := add_length_le_of_ascending
    (consistent.ascending.sublist (nextChunk_sublist count))
    (fun _ member => nextChunk_between count member) (le_chunkMax_nextChunk world count)
  have bound := consistent.chunkMax_le count
  have fits := consistent.fits
  apply nativeFactRows_stored ((consistent.singleRows_nextChunk count).sublist part)
  · exact fun item member => writtenRows_between count (part.subset member)
  · exact few.trans (length_nextChunk_le count)
  · omega
  · omega

variable {out : List FactRow}

theorem prepared_stored
    (made : service.preparedChunkRows (nextChunk world count) = .ok out) :
    service.ChunkStored (writtenRows (nextChunk world count)) world.cursor
      (chunkMax world.cursor (nextChunk world count)) out := by
  rw [preparedChunkRows_eq service (consistent.single_nextChunk count) made]
  have bound := consistent.chunkMax_le count
  have fits := consistent.fits
  apply sequencedRows_stored (consistent.singleRows_nextChunk count)
  · exact fun item member => writtenRows_between count member
  · omega

theorem store
    (stored : service.ChunkStored items world.cursor
      (chunkMax world.cursor (nextChunk world count)) out) :
    service.Consistent (store world (nextChunk world count) out) := by
  refine { consistent with
    passed := consistent.chunkMax_le count
    ordered := ?_
    numbered := ?_ }
  · refine pairwise_append.mpr ⟨consistent.ordered, stored.ordered, ?_⟩
    intro row member other otherMember _
    have old := consistent.numbered row member
    have number := (stored.numbered other otherMember).1
    have source := (stored.sources other otherMember).1
    exact ⟨UInt64.lt_iff_toNat_lt.mpr (by omega), by omega⟩
  · intro row member
    rcases mem_append.mp member with old | new
    · have room := le_chunkMax_nextChunk world count
      have := consistent.numbered row old
      simp only [FactService.store]
      omega
    · exact ⟨(stored.numbered row new).2, (stored.sources row new).2⟩

end Chunks

include consistent

theorem append {skipped : Nat} {write : LoggedWrite}
    (allowed : service.SingleRowStep world (.append skipped write)) :
    service.Consistent (service.next world (.append skipped write)) := by
  obtain ⟨single, fits, separated⟩ := allowed
  have passed := consistent.passed
  refine { consistent with
    ascending := ?_
    assigned := ?_
    passed := ?_
    fits := fits
    single := ?_
    separated := separated }
  · refine pairwise_append.mpr ⟨consistent.ascending, pairwise_singleton _ _, ?_⟩
    intro item member other new
    rw [mem_singleton.mp new]
    have := consistent.assigned item member
    omega
  · intro item member
    rcases mem_append.mp member with old | new
    · have := consistent.assigned item old
      simp only [next]
      omega
    · rw [mem_singleton.mp new]
      exact Nat.le_refl _
  · simp only [next]
    omega
  · intro item member
    rcases mem_append.mp member with old | new
    · exact consistent.single item old
    · rw [mem_singleton.mp new]
      exact single

theorem merge (selected : FactRow → Bool) :
    service.Consistent (service.next world (.merge selected)) := by
  have part : (service.next world (.merge selected)).rows.Sublist world.rows :=
    mergeFrom_sublist selected world.rows world.rows
  exact { consistent with
    ordered := consistent.ordered.sublist part
    numbered := fun row member => consistent.numbered row (part.subset member) }

theorem flushPrepared_cases (count : Nat) :
    service.next world (.flushPrepared count) = world ∨
      ∃ out, service.next world (.flushPrepared count) =
          FactService.store world (nextChunk world count) out ∧
        service.ChunkStored (writtenRows (nextChunk world count)) world.cursor
          (chunkMax world.cursor (nextChunk world count)) out := by
  simp only [next, flushPreparedStep]
  split
  · split
    next => exact Or.inl rfl
    next out made => exact Or.inr ⟨out, rfl, consistent.prepared_stored count made⟩
  · exact Or.inl rfl

theorem next {event : FactEvent} (allowed : service.SingleRowStep world event) :
    service.Consistent (service.next world event) := by
  cases event with
  | append skipped write => exact consistent.append allowed
  | flushPrepared count =>
    rcases consistent.flushPrepared_cases count with unchanged | ⟨out, stepped, stored⟩
    · rw [unchanged]
      exact consistent
    · rw [stepped]
      exact consistent.store count stored
  | flushNative count => exact consistent.store count (consistent.native_stored count)
  | merge selected => exact consistent.merge selected

omit consistent in
theorem run {events : List FactEvent}
    (allowed : Along service.next service.SingleRowStep {} events) :
    service.Consistent (run service.next {} events) :=
  run_invariant (fun _ _ consistent step => consistent.next step) initial allowed

end FactService.Consistent

end HyperbyteDb
