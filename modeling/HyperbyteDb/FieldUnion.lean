import HyperbyteDb.FactTableRuns

/-!
# The union of partial writes

Writes of one series and time may carry different fields, and a query is to read, for every
field, the value of the last write that carried it.
-/

namespace HyperbyteDb

open FactRow FactService GuardedRuns VersionedRows

variable {service : FactService}

namespace FactService

instance (service : FactService) (items : List SourceRow) :
    Decidable (service.Separated items) :=
  inferInstanceAs (Decidable (∀ item ∈ items, ∀ other ∈ items, _ → _))

instance (service : FactService) (world : FactWorld) (event : FactEvent) :
    Decidable (service.SingleRowStep world event) :=
  match event with
  | .append _ _ => inferInstanceAs (Decidable (_ ∧ _ ∧ _))
  | .flushPrepared _ | .flushNative _ | .merge _ => inferInstanceAs (Decidable True)

/-- Two rows of one series and time are numbered in the order of their entries. -/
theorem Consistent.ingestSeq_lt {world : FactWorld}
    (consistent : service.Consistent world) {first second : FactRow}
    (firstMember : first ∈ world.rows) (secondMember : second ∈ world.rows)
    (same : service.rowKey first = service.rowKey second)
    (later : first.source < second.source) : first.ingestSeq < second.ingestSeq := by
  let Agree := fun one two : FactRow => service.rowKey one = service.rowKey two →
    (one.source < two.source → one.ingestSeq < two.ingestSeq) ∧
      (two.source < one.source → two.ingestSeq < one.ingestSeq)
  have symmetric : Std.Symm Agree := ⟨fun one two agree sameKey => (agree sameKey.symm).symm⟩
  have agree : world.rows.Pairwise Agree := by
    refine consistent.ordered.imp ?_
    intro one two below sameKey
    obtain ⟨number, source⟩ := below sameKey
    exact ⟨fun _ => number, fun reversed => absurd reversed (by omega)⟩
  have different : first ≠ second := by
    rintro rfl
    omega
  exact (agree.forall firstMember secondMember different same).1 later

end FactService

def taggedStacking : BatchStacking (Point × Nat) where
  Carries cells point := cells.1 = point
  concatFacts batches := .ok ⟨.uint64, batches.flatMap (·.rows)⟩
  concatSeries batches := .ok ⟨.uint64, batches.flatMap (·.rows)⟩
  concatFacts_keeps := by
    rintro batches stacked ⟨rfl⟩ batch batchMember row rowMember
    exact ⟨row, List.mem_flatMap.mpr ⟨batch, batchMember, rowMember⟩, fun _ holds => holds⟩

def sampleFactService : FactService where
  settings := ⟨1, 0, true, fun _ => 0⟩
  stacking := taggedStacking
  tableNames := fun key => (key.measurement, key.measurement ++ "_series")
  seriesId := fun _ _ => 7
  concatenates := by
    rintro batches stacked ⟨rfl⟩
    rfl
  respects := fun _ _ _ => rfl

def sampleFactPoint (field : String) (value time : Int64) : Point :=
  ⟨"cpu", ∅, (∅ : Std.ExtTreeMap String FieldValue).insert field (.integer value), time⟩

def sampleWrite (batch : List Point) : FactEvent :=
  .append 0 (.points "db" "rp" 0 batch)

/-- Two writes of one time, flushed on different paths. -/
def separateWrites : List FactEvent :=
  [sampleWrite [sampleFactPoint "usage" 1 3], sampleWrite [sampleFactPoint "usage" 2 3],
    .flushPrepared 1, .flushNative 1]

namespace FactService

end FactService

/-- A write of times 1, 2 and 3, then a write of time 3 alone, each flushed in its own
chunk. -/
def overlappingWrites : List FactEvent :=
  [sampleWrite [sampleFactPoint "usage" 1 1, sampleFactPoint "usage" 1 2,
      sampleFactPoint "usage" 1 3],
    sampleWrite [sampleFactPoint "usage" 2 3], .flushPrepared 1, .flushNative 1]

def FactRow.value (row : FactRow) (field : String) : Option FieldValue :=
  row.point.fields[field]?

variable {selected : FactRow → Bool}

namespace FactService

def flushed (world : FactWorld) : List (Nat × LoggedWrite) :=
  world.log.filter (·.1 ≤ world.cursor)

def lastWritten (service : FactService) (log : List (Nat × LoggedWrite))
    (instant : MeasurementKey × UInt64 × Int64) (field : String) : Option FieldValue :=
  latestUnder service.sourceKey fieldOf (writtenRows log) instant field

/-- The condition on a step: writes carry at most one point, an entry without points is
not flushed natively, and a merge drops no row with a field that no row it keeps has. -/
def UnionStep (service : FactService) (world : FactWorld) (event : FactEvent) : Prop :=
  service.SingleRowStep world event ∧
    match event with
    | .flushNative count =>
      ∀ item ∈ nextChunk world count, item.2.entry.points = item.2.written
    | .merge selected =>
      Lossless service.rowKey (·.ingestSeq) value selected world.rows
    | _ => True

structure Complete (service : FactService) (world : FactWorld) : Prop where
  consistent : service.Consistent world
  latest : ∀ instant field,
    latestUnder service.rowKey value world.rows instant field =
      service.lastWritten (flushed world) instant field

namespace Complete

variable {world : FactWorld}

variable {instant : MeasurementKey × UInt64 × Int64}

variable (complete : service.Complete world)
include complete

theorem ordered :
    Ordered service.rowKey (·.ingestSeq) world.rows :=
  complete.consistent.ordered.imp fun below same => (below same).1

variable {field : String} {answer : FieldValue}

theorem queryReads_iff :
    service.QueryReads world instant field answer ↔
      service.lastWritten (flushed world) instant field = some answer := by
  rw [← complete.latest]
  exact complete.ordered.reads_iff

theorem queryReads_iff_of_flushed (all : ∀ item ∈ world.log, item.1 ≤ world.cursor) :
    service.QueryReads world instant field answer ↔
      service.lastWritten world.log instant field = some answer := by
  have whole : flushed world = world.log := by
    rw [flushed, List.filter_eq_self]
    exact fun item member => decide_eq_true (all item member)
  rw [← whole]
  exact complete.queryReads_iff

theorem store (count : Nat) {out : List FactRow}
    (stored : service.ChunkStored (writtenRows (nextChunk world count)) world.cursor
      (FlushService.chunkMax world.cursor (nextChunk world count)) out) :
    service.Complete (store world (nextChunk world count) out) := by
  refine ⟨complete.consistent.store count stored, fun instant field => ?_⟩
  have passed : flushed (FactService.store world (nextChunk world count) out) =
      flushed world ++ nextChunk world count :=
    filter_chunkMax_eq complete.consistent.ascending world.cursor
      (min count FlushService.walReadChunk)
  have split : writtenRows (flushed world ++ nextChunk world count) =
      writtenRows (flushed world) ++ writtenRows (nextChunk world count) :=
    List.flatMap_append
  rw [lastWritten, passed, split, latestUnder_append, ← stored.latest]
  change latestUnder service.rowKey value (world.rows ++ out) instant field = _
  rw [latestUnder_append, complete.latest]
  rfl

omit complete in
theorem sourceRows_eq (settings : FlushSettings) {chunk : List (Nat × LoggedWrite)}
    (whole : ∀ item ∈ chunk, item.2.entry.points = item.2.written) :
    settings.sourceRows (chunk.map fun item => (item.1, item.2.entry)) = writtenRows chunk := by
  rw [FlushSettings.sourceRows, List.flatMap_map]
  apply List.flatMap_congr
  rintro ⟨seq, write⟩ member
  rw [FlushSettings.entryRows, whole _ member]
  cases write <;>
    simp [LoggedWrite.entry, LoggedWrite.db, LoggedWrite.rp, Function.comp_def]

theorem merge
    (lossless : Lossless service.rowKey (·.ingestSeq) value selected world.rows) :
    service.Complete (service.next world (.merge selected)) := by
  refine ⟨complete.consistent.merge selected, fun instant field => ?_⟩
  have same : latestUnder service.rowKey value
      (mergeParts service.rowKey (·.ingestSeq) selected world.rows) instant field =
      latestUnder service.rowKey value world.rows instant field := by
    apply Option.ext
    intro answer
    rw [← (complete.ordered.mergeParts selected).reads_iff, ← complete.ordered.reads_iff]
    exact complete.ordered.reads_mergeParts_iff lossless
  exact same.trans (complete.latest instant field)

theorem append {skipped : Nat} {write : LoggedWrite}
    (allowed : service.SingleRowStep world (.append skipped write)) :
    service.Complete (service.next world (.append skipped write)) := by
  refine ⟨complete.consistent.append allowed, fun instant field => ?_⟩
  have unchanged : flushed (service.next world (.append skipped write)) = flushed world := by
    have beyond : ¬world.seq + skipped + 1 ≤ world.cursor := by
      have := complete.consistent.passed
      omega
    change (world.log ++ [(world.seq + skipped + 1, write)]).filter (·.1 ≤ world.cursor) = _
    simp [beyond, flushed]
  rw [unchanged]
  exact complete.latest instant field

theorem next {event : FactEvent} (allowed : service.UnionStep world event) :
    service.Complete (service.next world event) := by
  cases event with
  | append skipped write => exact complete.append allowed.1
  | flushPrepared count =>
    rcases complete.consistent.flushPrepared_cases count with
      unchanged | ⟨out, stepped, stored⟩
    · rw [unchanged]
      exact complete
    · rw [stepped]
      exact complete.store count stored
  | flushNative count =>
    have stored := complete.consistent.native_stored count
    rw [sourceRows_eq service.settings allowed.2] at stored
    exact complete.store count stored
  | merge selected => exact complete.merge allowed.2

omit complete in
theorem initial : service.Complete {} :=
  ⟨Consistent.initial, fun _ _ => rfl⟩

omit complete in
theorem run {events : List FactEvent}
    (allowed : Along service.next service.UnionStep {} events) :
    service.Complete (run service.next {} events) :=
  run_invariant (fun _ _ complete step => complete.next step) initial allowed

end Complete

end FactService

theorem lossless_of_fields
    {rows : List FactRow}
    (covered : ∀ row ∈ rows, selected row → ∃ kept ∈ rows,
      Survives service.rowKey (·.ingestSeq) selected rows kept ∧
        service.rowKey kept = service.rowKey row ∧ row.ingestSeq ≤ kept.ingestSeq ∧
        ∀ name ∈ row.point.fields.keys, name ∈ kept.point.fields) :
    Lossless service.rowKey (·.ingestSeq) value selected rows := by
  intro row member picked field carried
  obtain ⟨kept, keptMember, survives, same, newer, fields⟩ := covered row member picked
  refine ⟨kept, keptMember, survives, same, newer, ?_⟩
  rw [value, Std.ExtTreeMap.isSome_getElem?_iff_mem] at carried ⊢
  exact fields field (Std.ExtTreeMap.mem_keys.mpr carried)

/-- The series instant that the sample points are about. -/
def sampleInstant : MeasurementKey × UInt64 × Int64 := (⟨"db", "rp", "cpu"⟩, 7, 3)

/-- Two fields of one time in two writes, flushed on different paths. -/
def partialWrites : List FactEvent :=
  [sampleWrite [sampleFactPoint "usage" 1 3], sampleWrite [sampleFactPoint "idle" 2 3],
    .flushPrepared 1, .flushNative 1]

/-- One field is written twice and another once; the rows of the first field are merged. -/
def rewrittenField : List FactEvent :=
  [sampleWrite [sampleFactPoint "usage" 1 3], sampleWrite [sampleFactPoint "usage" 4 3],
    sampleWrite [sampleFactPoint "idle" 2 3], .flushPrepared 1, .flushPrepared 1,
    .flushNative 1, .merge (·.source < 3)]

end HyperbyteDb
