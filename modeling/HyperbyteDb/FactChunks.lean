import HyperbyteDb.FactRows
import HyperbyteDb.GuardedRuns
import Mathlib.Algebra.Order.BigOperators.Group.List

/-!
# What one chunk adds to the fact tables

When every entry of a chunk carries at most one row, and a series id stands for one tag
set, a chunk keeps the order of the log on both paths: of two rows of one series and time
the later entry's has the greater `ingest_seq`, all rows of the chunk are numbered within
the chunk's sequences, and the last value of each field is that of the last entry.
-/

namespace HyperbyteDb

open FlushService FlushSettings KeyedBatches List VersionedRows

structure FactService where
  settings : FlushSettings
  /-- A cell of a prepared batch is a point, with the sequence of its entry. -/
  stacking : BatchStacking (Point × Nat)
  tableNames : MeasurementKey → String × String
  seriesId : String → Std.ExtTreeMap String String → UInt64
  /-- Stacking puts the batches one after another. -/
  concatenates : ∀ {batches stacked}, stacking.concatFacts batches = .ok stacked →
    stacked.rows = batches.flatMap (·.rows)
  respects : RespectsInstant settings.seriesInstantHash

/-- An accepted write.  A columnar write is logged as a slot next to an entry without
points; one without a slot is logged as its points. -/
inductive LoggedWrite where
  | points (db rp : String) (originNodeId : UInt64) (batch : List Point)
  | columnar (db rp : String) (originNodeId : UInt64) (measurement : String)
      (tags : Std.ExtTreeMap String String) (field : String) (samples : List (UInt64 × Int64))
deriving DecidableEq

namespace LoggedWrite

def written : LoggedWrite → List Point
  | .points _ _ _ batch => batch
  | .columnar _ _ _ measurement tags field samples =>
    samples.map fun sample =>
      ⟨measurement, tags,
        (∅ : Std.ExtTreeMap String FieldValue).insert field (.float sample.1), sample.2⟩

def db : LoggedWrite → String
  | .points db .. | .columnar db .. => db

def rp : LoggedWrite → String
  | .points _ rp .. | .columnar _ rp .. => rp

def entry : LoggedWrite → WalEntry
  | .points db rp originNodeId batch => ⟨db, rp, batch, originNodeId⟩
  | .columnar db rp originNodeId .. => ⟨db, rp, [], originNodeId⟩

def slot (service : FactService) (seq : Nat) : LoggedWrite → PreparedWalSlot (Point × Nat)
  | .points db rp originNodeId batch =>
    buildPreparedWalSlot service.settings.seriesInstantHash service.tableNames db rp
      originNodeId seq batch
  | .columnar db rp originNodeId measurement tags field samples =>
    { database := db
      retentionPolicy := rp
      originNodeId := originNodeId
      measurements :=
        if samples.isEmpty then []
        else [prepareMeasurementBatch service.tableNames ⟨db, rp, measurement⟩ seq
          (columnar db rp originNodeId measurement tags field samples).written] }

end LoggedWrite

structure FactWorld where
  seq : Nat := 0
  /-- The accepted writes, in the order of their sequences. -/
  log : List (Nat × LoggedWrite) := []
  cursor : Nat := 0
  /-- The rows of all tables, in the order of their insertion. -/
  rows : List FactRow := []

inductive FactEvent where
  /-- Some sequences may be lost to failed batches before the write gets its own. -/
  | append (skipped : Nat) (write : LoggedWrite)
  | flushPrepared (count : Nat)
  | flushNative (count : Nat)
  /-- The engine merges the parts that hold the selected rows. -/
  | merge (selected : FactRow → Bool)

namespace FactService

variable (service : FactService)

/-- What a query groups by: the table, the series and the time. -/
def instantOf (table : MeasurementKey) (point : Point) : MeasurementKey × UInt64 × Int64 :=
  (table, service.seriesId point.measurement point.tags, point.timestamp)

def rowKey (row : FactRow) : MeasurementKey × UInt64 × Int64 :=
  service.instantOf row.table row.point

variable (world : FactWorld)

def nextChunk (count : Nat) : List (Nat × LoggedWrite) :=
  (world.log.filter (world.cursor < ·.1)).take (min count walReadChunk)

variable (chunk : List (Nat × LoggedWrite))

def nativeChunkRows : List FactRow :=
  service.settings.nativeFactRows (world.cursor + 1) (chunk.map fun item => (item.1, item.2.entry))

def preparedChunkRows : Except String (List FactRow) := do
  let slots ← chunk.mapM fun item => do
    let patched ← (item.2.slot service item.1).patchAllIngestSeqs (.ofNat item.1)
    return (item.1, patched)
  service.settings.preparedFactRows service.stacking slots

def store (rows : List FactRow) : FactWorld :=
  { world with
    cursor := chunkMax world.cursor chunk
    rows := world.rows ++ rows }

/-- Slots are taken for consecutive sequences from the cursor on.  A chunk that cannot be
prepared stores nothing. -/
def flushPreparedStep (count : Nat) : FactWorld :=
  let chunk := nextChunk world count
  if chunk.map Prod.fst = List.range' (world.cursor + 1) chunk.length then
    match service.preparedChunkRows chunk with
    | .error _ => world
    | .ok rows => store world chunk rows
  else world

def next : FactEvent → FactWorld
  | .append skipped write =>
    let seq := world.seq + skipped + 1
    { world with seq := seq, log := world.log ++ [(seq, write)] }
  | .flushPrepared count => service.flushPreparedStep world count
  | .flushNative count =>
    let chunk := nextChunk world count
    store world chunk (service.nativeChunkRows world chunk)
  | .merge selected =>
    { world with rows := mergeParts service.rowKey (·.ingestSeq) selected world.rows }

def QueryReads (instant : MeasurementKey × UInt64 × Int64) (field : String) (answer : FieldValue) :
    Prop :=
  Reads service.rowKey (·.ingestSeq) (fun row field => row.point.fields[field]?) world.rows
    instant field answer

end FactService

/-! ## What one chunk adds to the fact tables -/

/-- A row before it is stored: its table, its point and the sequence of its entry. -/
abbrev SourceRow := MeasurementKey × Point × Nat

namespace FactService

variable (service : FactService)

def sourceKey (row : SourceRow) : MeasurementKey × UInt64 × Int64 :=
  service.instantOf row.1 row.2.1

end FactService

def fieldOf (row : SourceRow) (field : String) : Option FieldValue :=
  row.2.1.fields[field]?

/-- The rows come from entries in ascending order, one row each, are in the tables of
their measurements, and no two series of a table share an id. -/
structure FactService.SingleRows (service : FactService) (items : List SourceRow) : Prop where
  ascending : items.Pairwise fun first second => first.2.2 < second.2.2
  named : ∀ item ∈ items, item.1.measurement = item.2.1.measurement
  separated : ∀ item ∈ items, ∀ other ∈ items, service.sourceKey item = service.sourceKey other →
    item.2.1.tags = other.2.1.tags

/-- The rows of `items` are stored between `low` and `high`, in the order of their
entries, and no value is lost. -/
structure FactService.ChunkStored (service : FactService) (items : List SourceRow)
    (low high : Nat) (out : List FactRow) : Prop where
  ordered : out.Pairwise fun first second => service.rowKey first = service.rowKey second →
    first.ingestSeq < second.ingestSeq ∧ first.source < second.source
  numbered : ∀ row ∈ out, low < row.ingestSeq.toNat ∧ row.ingestSeq.toNat ≤ high
  sources : ∀ row ∈ out, low < row.source ∧ row.source ≤ high
  latest : ∀ instant field,
    latestUnder service.rowKey (fun row field => row.point.fields[field]?) out instant field =
      latestUnder service.sourceKey fieldOf items instant field

/-! ## Merging the rows of one table -/

section Merging

variable {count : Nat}

variable {rows : List (Point × Nat)}

theorem mergePointGroup_identity (points : Fin count → Point) (group : PointGroup count) :
    (mergePointGroup points group).measurement = (points group.first).measurement ∧
      (mergePointGroup points group).tags = (points group.first).tags ∧
      (mergePointGroup points group).timestamp = (points group.first).timestamp := by
  obtain ⟨measurement, tags, timestamp, -, -⟩ :=
    foldl_insertFields points group.rest (points group.first)
  exact ⟨measurement, tags, timestamp⟩

variable {service : FactService} {table : MeasurementKey}

theorem instantOf_mergePointGroup (points : Fin count → Point) (group : PointGroup count) :
    service.instantOf table (mergePointGroup points group) =
      service.instantOf table (points group.first) := by
  obtain ⟨measurement, tags, timestamp⟩ := mergePointGroup_identity points group
  simp only [FactService.instantOf, measurement, tags, timestamp]

def FactService.Faithful (service : FactService) (table : MeasurementKey)
    (rows : List (Point × Nat)) : Prop :=
  ∀ row ∈ rows, ∀ other ∈ rows, row.1.sameSeriesInstant other.1 ↔
    service.instantOf table row.1 = service.instantOf table other.1

theorem FactService.SingleRows.faithful {items : List SourceRow}
    (single : service.SingleRows items) (table : MeasurementKey) :
    service.Faithful table ((items.filter (·.1 = table)).map Prod.snd) := by
  have source : ∀ row ∈ (items.filter (·.1 = table)).map Prod.snd, (table, row) ∈ items := by
    intro row member
    obtain ⟨item, inside, rfl⟩ := mem_map.mp member
    rw [mem_filter, decide_eq_true_eq] at inside
    rw [← inside.2]
    exact inside.1
  intro row member other otherMember
  have rowIn := source row member
  have otherIn := source other otherMember
  rw [Point.sameSeriesInstant_iff]
  constructor
  · rintro ⟨time, tags⟩
    have measurement : row.1.measurement = other.1.measurement :=
      (single.named _ rowIn).symm.trans (single.named _ otherIn)
    simp only [instantOf, measurement, tags, time]
  · intro same
    have time : row.1.timestamp = other.1.timestamp := congrArg (·.2.2) same
    exact ⟨time, single.separated _ rowIn _ otherIn same⟩

theorem Classes.filter_eq_singleton {points : Fin count → Point}
    {groups : List (PointGroup count)} (classes : Classes points groups)
    {group : PointGroup count} (member : group ∈ groups) :
    groups.filter (fun other => (points other.first).sameSeriesInstant (points group.first)) =
      [group] := by
  obtain ⟨before, after, rfl⟩ := append_of_mem member
  have distinct := classes.distinct
  rw [pairwise_append, pairwise_cons] at distinct
  obtain ⟨-, ⟨later, -⟩, earlier⟩ := distinct
  have noneBefore : before.filter (fun other =>
      (points other.first).sameSeriesInstant (points group.first)) = [] := by
    rw [filter_eq_nil_iff]
    exact fun other inside => earlier other inside group mem_cons_self
  have noneAfter : after.filter (fun other =>
      (points other.first).sameSeriesInstant (points group.first)) = [] := by
    rw [filter_eq_nil_iff]
    exact fun other inside same => later other inside (Point.sameSeriesInstant_symm same)
  have itself : (points group.first).sameSeriesInstant (points group.first) :=
    Point.sameSeriesInstant_iff.mpr ⟨rfl, rfl⟩
  simp [noneBefore, noneAfter, itself]

/-- What merging does to the rows of a table: nothing, or one row for each class, from
the last entry that contributed to it. -/
theorem mergedTagged_cases (service : FactService) (rows : List (Point × Nat)) :
    service.settings.mergedTagged rows = rows ∨
      ∃ groups, Classes (fun index => (rows.get index).1) groups ∧
        service.settings.mergedTagged rows = groups.map fun group =>
          (mergePointGroup (fun index => (rows.get index).1) group, (rows.get group.last).2) := by
  unfold mergedTagged
  split
  · cases coalesced : coalesceTagged service.settings.seriesInstantHash rows with
    | none => exact Or.inl rfl
    | some merged =>
      obtain ⟨groups, planned, rfl⟩ := Option.map_eq_some_iff.mp coalesced
      exact Or.inr ⟨groups, coalescePlan_classes service.respects planned, rfl⟩
  · exact Or.inl rfl

theorem FactService.Faithful.sameSeriesInstant_get (faithful : service.Faithful table rows)
    (first second : Fin rows.length) : (rows.get first).1.sameSeriesInstant (rows.get second).1 =
      decide (service.instantOf table (rows.get first).1 =
        service.instantOf table (rows.get second).1) := by
  rw [Bool.eq_iff_iff, decide_eq_true_eq]
  exact faithful _ (get_mem rows first) _ (get_mem rows second)

theorem latest_mergedTagged (faithful : service.Faithful table rows)
    (instant : MeasurementKey × UInt64 × Int64) (field : String) :
    latest (fun row : Point × Nat => row.1.fields[field]?)
        ((service.settings.mergedTagged rows).filter (service.instantOf table ·.1 = instant)) =
      latest (fun row : Point × Nat => row.1.fields[field]?)
        (rows.filter (service.instantOf table ·.1 = instant)) := by
  rcases mergedTagged_cases service rows with unchanged | ⟨groups, classes, merged⟩
  · rw [unchanged]
  · rw [merged, filter_map, latest_map, latest_filter_get rows]
    simp only [Function.comp_def, instantOf_mergePointGroup, getElem?_mergePointGroup]
    by_cases matched : ∃ group ∈ groups, service.instantOf table (rows.get group.first).1 = instant
    · obtain ⟨group, member, rfl⟩ := matched
      have onlyOne := classes.filter_eq_singleton member
      have members := classes.members group member
      simp only [faithful.sameSeriesInstant_get] at onlyOne members
      rw [onlyOne, latest_singleton, members]
      simp only [eq_comm]
    · push Not at matched
      have noGroup : groups.filter (fun group =>
          service.instantOf table (rows.get group.first).1 = instant) = [] := by
        simpa [filter_eq_nil_iff] using matched
      have noRow : (List.finRange rows.length).filter (fun index =>
          service.instantOf table (rows.get index).1 = instant) = [] := by
        rw [filter_eq_nil_iff]
        intro index _ same
        obtain ⟨group, member, sameInstant⟩ := classes.placed index
        rw [faithful.sameSeriesInstant_get, decide_eq_true_eq] at sameInstant
        apply matched group member
        rw [sameInstant]
        exact of_decide_eq_true same
      rw [noGroup, noRow, latest_nil, latest_nil]

theorem length_mergedTagged_le (service : FactService) (rows : List (Point × Nat)) :
    (service.settings.mergedTagged rows).length ≤ rows.length := by
  rcases mergedTagged_cases service rows with unchanged | ⟨groups, classes, merged⟩
  · rw [unchanged]
  · rw [merged, length_map]
    exact classes.length_le

theorem mergedTagged_nil (service : FactService) :
    service.settings.mergedTagged ([] : List (Point × Nat)) = [] :=
  eq_nil_of_length_eq_zero (Nat.le_zero.mp (length_mergedTagged_le service []))

theorem mergedTagged_ne_nil (service : FactService) (nonempty : rows ≠ [])
    : service.settings.mergedTagged rows ≠ [] := by
  rcases mergedTagged_cases service rows with unchanged | ⟨groups, classes, merged⟩
  · rw [unchanged]
    exact nonempty
  · obtain ⟨group, member, -⟩ := classes.placed ⟨0, length_pos_iff.mpr nonempty⟩
    rw [merged]
    exact ne_nil_of_mem (mem_map_of_mem member)

theorem exists_source_of_mem_mergedTagged {row : Point × Nat}
    (member : row ∈ service.settings.mergedTagged rows) : ∃ old ∈ rows, row.2 = old.2 := by
  rcases mergedTagged_cases service rows with unchanged | ⟨groups, -, merged⟩
  · rw [unchanged] at member
    exact ⟨row, member, rfl⟩
  · rw [merged] at member
    obtain ⟨group, -, rfl⟩ := mem_map.mp member
    exact ⟨_, get_mem rows group.last, rfl⟩

/-- Rows that stay apart are in the order of their entries. -/
theorem pairwise_mergedTagged (faithful : service.Faithful table rows)
    (ascending : rows.Pairwise fun first second => first.2 < second.2) :
    (service.settings.mergedTagged rows).Pairwise fun first second =>
      service.instantOf table first.1 = service.instantOf table second.1 →
        first.2 < second.2 := by
  rcases mergedTagged_cases service rows with unchanged | ⟨groups, classes, merged⟩
  · rw [unchanged]
    refine ascending.imp ?_
    intro first second below _
    exact below
  · rw [merged, pairwise_map]
    refine classes.distinct.imp fun {group other} apart same => absurd ?_ apart
    rw [instantOf_mergePointGroup, instantOf_mergePointGroup] at same
    rw [faithful.sameSeriesInstant_get, decide_eq_true_eq]
    exact same

end Merging

/-! ## The native path -/

section Native

variable {service : FactService} {items : List SourceRow}

theorem map_sourceRow_workRows (settings : FlushSettings) (fromSeq : Nat) (items : List SourceRow) :
    (settings.workRows fromSeq items).map (fun row => (row.1.table, row.1.point, row.2)) =
      (collect Prod.fst Prod.snd items).toList.flatMap fun group =>
        (settings.mergedTagged group.2).map (Prod.mk group.1) := by
  have numbers : (settings.workRows fromSeq items).map
      (fun row => (row.1.table, row.1.point, row.2)) =
      (settings.workItems items).flatMap fun item => item.2.map (Prod.mk item.1) := by
    rw [workRows, map_flatten]
    congr 1
    apply ext_getElem?
    intro idx
    simp only [getElem?_map, getElem?_mapIdx, Option.map_map]
    congr 1
    funext item
    apply ext_getElem?
    simp [buildRecordBatch, Function.comp_def]
  rw [numbers, workItems, flatMap_assoc]
  apply flatMap_congr
  intro group _
  conv_rhs =>
    rw [← flatten_slices settings.effectiveLimit_pos (settings.mergedTagged group.2), map_flatten]
  rw [flatMap_map, flatMap_def]

/-- Rows collected by table, where the rows of each table keep their last values. -/
theorem latestUnder_collect {merge : List (Point × Nat) → List (Point × Nat)}
    (empty : merge [] = []) (instant : MeasurementKey × UInt64 × Int64) (field : String)
    (kept : let rows := (items.filter (·.1 = instant.1)).map Prod.snd
      latest (fun row : Point × Nat => row.1.fields[field]?)
        ((merge rows).filter (service.instantOf instant.1 ·.1 = instant)) =
      latest (fun row : Point × Nat => row.1.fields[field]?)
        (rows.filter (service.instantOf instant.1 ·.1 = instant))) :
    latestUnder service.sourceKey fieldOf
        ((collect Prod.fst Prod.snd items).toList.flatMap fun group =>
          (merge group.2).map (Prod.mk group.1)) instant field =
      latestUnder service.sourceKey fieldOf items instant field := by
  unfold latestUnder
  rw [filter_flatMap, flatMap_toList_collect _ _ _ instant.1]
  · rw [filter_map, latest_map]
    refine kept.trans ?_
    rw [filter_map, latest_map, filter_filter]
    congr 1
    apply filter_congr
    intro item _
    rw [Bool.eq_iff_iff]
    simp only [Function.comp_apply, Bool.and_eq_true, decide_eq_true_eq]
    constructor
    · rintro ⟨same, table⟩
      rw [FactService.sourceKey, table]
      exact same
    · rintro rfl
      exact ⟨rfl, rfl⟩
  · intro group elsewhere
    rw [filter_eq_nil_iff]
    intro row member same
    obtain ⟨inner, -, rfl⟩ := mem_map.mp member
    exact elsewhere (congrArg Prod.fst (of_decide_eq_true same))
  · simp [empty]

theorem walReadChunk_le_effectiveLimit (settings : FlushSettings) :
    walReadChunk ≤ settings.effectiveLimit := by
  unfold walReadChunk effectiveLimit
  split <;> omega

theorem workItems_eq (service : FactService) (short : items.length ≤ walReadChunk) :
    service.settings.workItems items = (collect Prod.fst Prod.snd items).toList.map fun group =>
        (group.1, service.settings.mergedTagged group.2) := by
  rw [map_eq_flatMap]
  apply flatMap_congr
  intro group member
  obtain ⟨rows, nonempty⟩ := mem_toList_collect member
  have fits : (service.settings.mergedTagged group.2).length ≤
      service.settings.effectiveLimit := by
    calc (service.settings.mergedTagged group.2).length
        ≤ group.2.length := length_mergedTagged_le service group.2
      _ ≤ items.length := by
        rw [rows, length_map]
        exact length_filter_le _ _
      _ ≤ walReadChunk := short
      _ ≤ service.settings.effectiveLimit := walReadChunk_le_effectiveLimit _
  rw [slices_of_length_le (mergedTagged_ne_nil service nonempty) fits]
  rfl

variable {idx : Nat}

/-- The number of row `index` of work item `idx`, as long as it does not saturate. -/
theorem toNat_ingestSeq {fromSeq index : Nat} (fits : fromSeq + idx + index < 2 ^ 64) :
    (((UInt64.ofNat fromSeq).saturatingAdd (.ofNat idx)).saturatingAdd (.ofNat index)).toNat =
      fromSeq + idx + index := by
  have toNat : ∀ value, value < 2 ^ 64 → (UInt64.ofNat value).toNat = value :=
    fun value small => UInt64.toNat_ofNat_of_lt' small
  have base : ((UInt64.ofNat fromSeq).saturatingAdd (.ofNat idx)).toNat = fromSeq + idx := by
    rw [UInt64.toNat_saturatingAdd, toNat _ (by omega), toNat _ (by omega)]
    rw [toNat _ (by omega), toNat _ (by omega)]
    omega
  rw [UInt64.toNat_saturatingAdd, base, toNat _ (by omega)]
  rw [base, toNat _ (by omega)]
  exact fits

/-- Where a row of a short chunk comes from, and the room below its number. -/
theorem exists_of_mem_workItems (short : items.length ≤ walReadChunk)
    {item : MeasurementKey × List (Point × Nat)}
    (lookup : (service.settings.workItems items)[idx]? = some item) :
    (∀ index < item.2.length, idx + index < items.length) ∧
      item.2 = service.settings.mergedTagged ((items.filter (·.1 = item.1)).map Prod.snd) := by
  have works := workItems_eq service short
  constructor
  · intro index within
    have nonempty : ∀ list ∈ (service.settings.workItems items).map Prod.snd, list ≠ [] := by
      intro list member
      rw [works, map_map] at member
      obtain ⟨group, inside, rfl⟩ := mem_map.mp member
      exact mergedTagged_ne_nil service (mem_toList_collect inside).2
    have place : ((service.settings.workItems items).map Prod.snd)[idx]? = some item.2 := by
      rw [getElem?_map, lookup]
      rfl
    refine (place_add_place_lt nonempty place within).trans_le ?_
    refine le_trans ?_ (sum_length_collect_le Prod.fst Prod.snd items)
    rw [works, map_map, map_map]
    apply sum_le_sum
    intro group _
    exact length_mergedTagged_le service group.2
  · rw [works, getElem?_map] at lookup
    obtain ⟨group, found, rfl⟩ := Option.map_eq_some_iff.mp lookup
    rw [(mem_toList_collect (mem_of_getElem? found)).1]

variable {table : MeasurementKey} {base : UInt64}

theorem table_of_mem_buildRecordBatch
    {rows : List (Point × Nat)} {row : StoredRow × Nat}
    (member : row ∈ buildRecordBatch table base rows) : row.1.table = table := by
  obtain ⟨index, within, rfl⟩ := mem_mapIdx.mp member
  rfl

/-- A batch that does not saturate keeps the order of its rows. -/
theorem pairwise_buildRecordBatch (first : Nat)
    {rows : List (Point × Nat)} (apart : rows.Pairwise fun one two =>
      service.instantOf table one.1 = service.instantOf table two.1 → one.2 < two.2)
    (numbers : ∀ index < rows.length, (base.saturatingAdd (.ofNat index)).toNat = first + index) :
    (buildRecordBatch table base rows).Pairwise fun one two =>
      service.instantOf one.1.table one.1.point = service.instantOf two.1.table two.1.point →
        one.1.ingestSeq < two.1.ingestSeq ∧ one.2 < two.2 := by
  rw [pairwise_iff_getElem] at apart ⊢
  intro index later within laterWithin before
  simp only [buildRecordBatch, length_mapIdx] at within laterWithin
  simp only [buildRecordBatch, List.getElem_mapIdx]
  intro same
  refine ⟨?_, apart index later within laterWithin before same⟩
  rw [UInt64.lt_iff_toNat_lt, numbers index within, numbers later laterWithin]
  omega

theorem nativeFactRows_stored (single : service.SingleRows items) {low high : Nat}
    (above : ∀ item ∈ items, low < item.2.2 ∧ item.2.2 ≤ high)
    (short : items.length ≤ walReadChunk) (room : low + items.length ≤ high)
    (fits : high < 2 ^ 64) :
    service.ChunkStored items low high
      ((service.settings.workRows (low + 1) items).map fun row => ⟨row.1, row.2⟩) := by
  have numbers : ∀ {idx item}, (service.settings.workItems items)[idx]? = some item →
      ∀ index < item.2.length,
      (((UInt64.ofNat (low + 1)).saturatingAdd (.ofNat idx)).saturatingAdd
        (.ofNat index)).toNat = low + 1 + idx + index ∧ low + 1 + idx + index ≤ high := by
    intro idx item lookup index within
    have below := (exists_of_mem_workItems short lookup).1 index within
    exact ⟨toNat_ingestSeq (by omega), by omega⟩
  have place : ∀ row ∈ service.settings.workRows (low + 1) items,
      ∃ idx item, (service.settings.workItems items)[idx]? = some item ∧
      ∃ index inner, item.2[index]? = some inner ∧
        row = (⟨item.1, inner.1, ((UInt64.ofNat (low + 1)).saturatingAdd
          (.ofNat idx)).saturatingAdd (.ofNat index)⟩, inner.2) := by
    intro row member
    obtain ⟨batch, inBatches, inBatch⟩ := mem_flatten.mp member
    obtain ⟨idx, bound, rfl⟩ := mem_mapIdx.mp inBatches
    obtain ⟨index, within, rfl⟩ := mem_mapIdx.mp inBatch
    exact ⟨idx, _, getElem?_eq_getElem bound, index, _, getElem?_eq_getElem within, rfl⟩
  constructor
  · rw [pairwise_map, workRows, pairwise_flatten]
    constructor
    · intro batch member
      obtain ⟨idx, bound, rfl⟩ := mem_mapIdx.mp member
      have lookup := getElem?_eq_getElem bound
      generalize (service.settings.workItems items)[idx] = item at lookup
      apply pairwise_buildRecordBatch (low + 1 + idx)
      · rw [(exists_of_mem_workItems short lookup).2]
        exact pairwise_mergedTagged (single.faithful item.1)
          (pairwise_map.mpr (single.ascending.filter _))
      · exact fun index within => (numbers lookup index within).1
    · -- Rows of different work items are in different tables.
      rw [pairwise_iff_getElem]
      intro idx later within laterWithin before row member other otherMember same
      rw [List.getElem_mapIdx] at member otherMember
      rw [length_mapIdx] at within laterWithin
      have distinct : (service.settings.workItems items).Pairwise fun item next =>
          item.1 ≠ next.1 := by
        rw [workItems_eq service short, pairwise_map]
        exact pairwise_keys_toList _
      rw [pairwise_iff_getElem] at distinct
      have sameTable : row.1.table = other.1.table := congrArg Prod.fst same
      rw [table_of_mem_buildRecordBatch member, table_of_mem_buildRecordBatch otherMember]
        at sameTable
      exact absurd sameTable (distinct idx later within laterWithin before)
  · rintro row member
    obtain ⟨stored, inside, rfl⟩ := mem_map.mp member
    obtain ⟨idx, item, lookup, index, inner, found, rfl⟩ := place stored inside
    have number := numbers lookup index (List.getElem?_eq_some_iff.mp found).1
    dsimp only
    omega
  · rintro row member
    obtain ⟨stored, inside, rfl⟩ := mem_map.mp member
    obtain ⟨idx, item, lookup, index, inner, found, rfl⟩ := place stored inside
    have innerMember := mem_of_getElem? found
    rw [(exists_of_mem_workItems short lookup).2] at innerMember
    obtain ⟨old, oldMember, sameSource⟩ := exists_source_of_mem_mergedTagged innerMember
    obtain ⟨source, sourceMember, rfl⟩ := mem_map.mp oldMember
    rw [sameSource]
    exact above source (mem_of_mem_filter sourceMember)
  · intro instant field
    have grouped := map_sourceRow_workRows service.settings (low + 1) items
    have kept := latest_mergedTagged (single.faithful instant.1) instant field
    rw [← latestUnder_collect (mergedTagged_nil service) instant field kept, ← grouped,
      latestUnder_map, latestUnder_map]
    rfl

end Native

end HyperbyteDb
