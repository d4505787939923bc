import HyperbyteDb.WalDurability
import HyperbyteDb.TransferredValues

/-!
# Moving a region while it is flushed

The log of the source is flushed while its region is moved.  A point that was committed before
the transfer began may leave the log at any time, for the fact table.
-/

namespace HyperbyteDb

open FlushService FlushWorld GuardedRuns List RegionMove

variable {ρ : Type}

/-- A node whose log is flushed while a region is moved off it. -/
structure MovingService (ρ : Type) where
  flush : FlushService ρ
  move : RegionMove
  schema : MeasurementMeta
  known : move.metadata = some schema
  pointOf : ρ → Point
  /-- A row that carries a point is of its series and time. -/
  carries : ∀ {cells : ρ} {point : Point}, flush.stacking.Carries cells point →
    (pointOf cells).measurement = point.measurement ∧ (pointOf cells).tags = point.tags ∧
      (pointOf cells).timestamp = point.timestamp

structure MovingWorld (stacking : BatchStacking ρ) where
  flush : FlushWorld stacking
  tables : List StoredRow := []
  /-- The sink writes that were refused for good. -/
  refused : List (SinkWrite ρ) := []
  move : MoveState := {}

inductive MovingEvent (stacking : BatchStacking ρ) where
  | flush (event : FlushEvent stacking)
  | move (event : MoveEvent)

def FlushWorld.endedWrite {stacking : BatchStacking ρ} (world : FlushWorld stacking) :
    FlushEvent stacking → Option (SinkWrite ρ × SinkOutcome)
  | .advance call (.sink index outcome) =>
    match (world.calls call).phase with
    | .writing _ _ _ _ pending _ => pending[index]?.map (·, outcome)
    | _ => none
  | _ => none

namespace MovingService

variable (service : MovingService ρ)

def factsOf (tables : List StoredRow) : List FactTableRow :=
  (tables.filter (·.table = service.move.key)).map (service.move.factRow service.schema)

variable (world : MovingWorld service.flush.stacking)

def view : SourceView ρ :=
  ⟨world.flush.rows, world.flush.flushedThrough, service.factsOf world.tables⟩

def sinkStep : Option (SinkWrite ρ × SinkOutcome) → MovingWorld service.flush.stacking
  | some (sinkWrite, .accepted) =>
    { world with tables := world.tables ++ sinkWrite.storedRows service.pointOf }
  | some (sinkWrite, .refused) => { world with refused := world.refused ++ [sinkWrite] }
  | _ => world

def next : MovingEvent service.flush.stacking → MovingWorld service.flush.stacking
  | .flush event =>
    service.sinkStep { world with flush := service.flush.next world.flush event }
      (world.flush.endedWrite event)
  | .move event => { world with move := service.move.step (service.view world) world.move event }

end MovingService

/-! ## What the flush keeps -/

namespace FlushService

variable {service : FlushService ρ} {world : FlushWorld service.stacking}

/-- The sink writes that end are settled, and what the log tells others about the flush is what
the flush knows. -/
theorem settled_next (event : FlushEvent service.stacking) :
    (service.next world event).history.settled = world.history.settled ++
        (match world.endedWrite event with
        | some (sinkWrite, .accepted) | some (sinkWrite, .refused) => [sinkWrite]
        | _ => []) ∧
      (world.flushedThrough = world.lastFlushed →
        (service.next world event).flushedThrough = (service.next world event).lastFlushed) := by
  cases event with
  | reserve bundles =>
    simp only [next, reserveStep, endedWrite, append_nil]
    split <;> exact ⟨rfl, id⟩
  | write succeeds =>
    simp only [next, writeStep, endedWrite, append_nil]
    repeat' split
    all_goals exact ⟨rfl, id⟩
  | purgeCache database => exact ⟨(append_nil _).symm, id⟩
  | purgeRows database scanned => exact ⟨(append_nil _).symm, id⟩
  | start call drains =>
    simp only [next, startCall, endedWrite, append_nil]
    split <;> exact ⟨rfl, id⟩
  | advance call answer =>
    cases answer with
    | sink index outcome =>
      cases phase : (world.calls call).phase with
      | writing cursor snapshot chunkMaxSeq path pending anyFailed =>
        simp only [next, advance, settle, endedWrite, phase]
        cases pending[index]? with
        | none => simp
        | some sinkWrite => cases outcome <;> simp [setPhase]
      | _ => simp [next, advance, endedWrite, phase]
    | proceed | fails | peers =>
      simp only [next, advance, loopStep, startPrepared, startNative, finishWrites,
        recordStep, checkStep, endedWrite,
        append_nil]
      repeat' split
      all_goals first | exact ⟨rfl, id⟩ | exact ⟨rfl, fun _ => rfl⟩ | contradiction

/-- Purged sequences stay purged, and an event stores a new batch above all sequences that are in
use, or nothing. -/
theorem history_next (sound : world.Sound) (event : FlushEvent service.stacking) (seq : Nat) :
    (seq ∈ world.history.purged → seq ∈ (service.next world event).history.purged) ∧
      ((service.next world event).history.committed[seq]? = world.history.committed[seq]? ∨
        0 < seq ∧ world.history.committed[seq]? = none) := by
  cases event with
  | reserve bundles =>
    simp only [next, reserveStep]
    split <;> exact ⟨id, Or.inl rfl⟩
  | purgeCache database => exact ⟨id, Or.inl rfl⟩
  | purgeRows database scanned => exact ⟨mem_append_right _, Or.inl rfl⟩
  | start call drains =>
    rw [next, startCall_history]
    exact ⟨id, Or.inl rfl⟩
  | advance call answer =>
    obtain ⟨-, -, -, sameCommitted, samePurged⟩ := advance_frame world call answer
    exact ⟨fun purged => samePurged.symm ▸ purged, Or.inl (by rw [next, sameCommitted])⟩
  | write succeeds =>
    cases writing : world.writer with
    | idle | sizing => simp [next, writeStep, writing]
    | caching slots => cases slots <;> simp [next, writeStep, writing]
    | reserved firstSeq bundles =>
      simp only [next, writeStep, writing]
      split
      next => exact ⟨id, Or.inl rfl⟩
      next stored encoded =>
        split
        next =>
          obtain ⟨-, seqs, -⟩ := encodeBundles_spec encoded
          have ready := sound.writer
          simp only [FlushWorld.WriterSound, writing] at ready
          refine ⟨id, ?_⟩
          rcases lookup_commitRows seqs world seq with ⟨⟨fresh, -⟩, -⟩ | ⟨-, unchanged⟩
          · right
            refine ⟨by omega, ?_⟩
            cases lookup : world.history.committed[seq]? with
            | none => rfl
            | some entry =>
              have within := sound.within seq entry lookup
              simp only [top, writing] at within
              omega
          · exact Or.inl unchanged
        next => exact ⟨id, Or.inl rfl⟩

end FlushService

namespace MovingService

variable (service : MovingService ρ)

/-- What holds of the source between any two steps. -/
structure Sound (world : MovingWorld service.flush.stacking) : Prop where
  flush : world.flush.Sound
  watermark : world.flush.flushedThrough = world.flush.lastFlushed
  positive : world.flush.history.committed[0]? = none
  delivered : ∀ sinkWrite ∈ world.flush.history.settled, sinkWrite ∈ world.refused ∨
    ∀ row ∈ sinkWrite.storedRows service.pointOf, row ∈ world.tables

variable {point : Point} {entry : WalEntry}

/-- The node as it starts, with its log and what its tables hold already. -/
def start (image : WalImage service.flush.stacking) (tables : List StoredRow) :
    MovingWorld service.flush.stacking :=
  { flush := image.world, tables }

variable {service} {world : MovingWorld service.flush.stacking}

theorem Sound.start (image : WalImage service.flush.stacking) (tables : List StoredRow) :
    service.Sound (service.start image tables) where
  flush := image.world_sound
  watermark := rfl
  positive := by
    cases lookup : image.world.history.committed[0]? with
    | none => exact lookup
    | some entry =>
      obtain ⟨row, found, -⟩ := image.committed_eq_some_iff.mp lookup
      rw [image.positive] at found
      cases found
  delivered _ member := absurd member (not_mem_nil)

variable (service world) in
theorem sinkStep_frame (ended : Option (SinkWrite ρ × SinkOutcome)) :
    (service.sinkStep world ended).flush = world.flush ∧
      (service.sinkStep world ended).move = world.move ∧
      (∀ row ∈ world.tables, row ∈ (service.sinkStep world ended).tables) ∧
      ∀ sinkWrite ∈ world.refused, sinkWrite ∈ (service.sinkStep world ended).refused := by
  unfold sinkStep
  split
  · exact ⟨rfl, rfl, fun row member => mem_append_left _ member, fun _ member => member⟩
  · exact ⟨rfl, rfl, fun _ member => member, fun _ member => mem_append_left _ member⟩
  · exact ⟨rfl, rfl, fun _ member => member, fun _ member => member⟩

theorem Sound.next (sound : service.Sound world) (event : MovingEvent service.flush.stacking) :
    service.Sound (service.next world event) := by
  cases event with
  | move event => exact { sound with }
  | flush event =>
    let flushed : MovingWorld service.flush.stacking :=
      { world with flush := service.flush.next world.flush event }
    obtain ⟨sameFlush, -, tablesKept, refusedKept⟩ :=
      sinkStep_frame service flushed (world.flush.endedWrite event)
    constructor
    · exact sameFlush ▸ next_sound sound.flush event
    · exact sameFlush ▸ (settled_next event).2 sound.watermark
    · have unchanged := (history_next sound.flush event 0).2
      rw [sound.positive] at unchanged
      exact sameFlush ▸ unchanged.resolve_right (by simp)
    · intro sinkWrite settled
      change sinkWrite ∈ (service.sinkStep flushed _).flush.history.settled at settled
      rw [sameFlush, (settled_next event).1] at settled
      change sinkWrite ∈ (service.sinkStep flushed _).refused ∨
        ∀ row ∈ _, row ∈ (service.sinkStep flushed _).tables
      rcases mem_append.mp settled with earlier | ended
      · exact (sound.delivered sinkWrite earlier).imp (refusedKept sinkWrite)
          fun stored row member => tablesKept row (stored row member)
      · split at ended
        next isEnded =>
          obtain rfl := mem_singleton.mp ended
          rw [isEnded]
          exact Or.inr fun row member => mem_append_right _ member
        next isEnded =>
          obtain rfl := mem_singleton.mp ended
          rw [isEnded]
          exact Or.inl (mem_append_right _ (mem_singleton_self _))
        next => cases ended

/-! ## Where a point is -/

variable (service) in
structure IsRowOf (row : StoredRow) (point : Point) : Prop where
  table : row.table = service.move.key
  measurement : row.point.measurement = point.measurement
  tags : row.point.tags = point.tags
  timestamp : row.point.timestamp = point.timestamp

variable (service) in
def exportOf (row : StoredRow) : Option Point :=
  service.move.exportPoint service.schema (service.move.factRow service.schema row)

variable (service world) in
/-- The point is not to be had any more: it was purged with its database, its sink write was
refused for good, or its row has no field. -/
def Excused (point : Point) : Prop :=
  (∃ seq entry, world.flush.history.committed[seq]? = some entry ∧
      point ∈ service.move.entryPoints seq entry ∧ seq ∈ world.flush.history.purged) ∨
    (∃ sinkWrite ∈ world.refused, sinkWrite.Carries service.flush.stacking
      service.move.key.db service.move.key.rp point) ∨
    ∃ row ∈ world.tables, service.IsRowOf row point ∧ service.exportOf row = none

variable (service world) in
def Stored (point : Point) (after : Option ExportCursor) : Prop :=
  ∃ row ∈ world.tables, service.IsRowOf row point ∧ (service.exportOf row).isSome ∧
    service.move.isAfter after (service.move.factRow service.schema row) = true

variable (service world) in
def Logged (point : Point) (cursor : WalExportCursor) : Prop :=
  ∃ seq entry, world.flush.history.committed[seq]? = some entry ∧
    point ∈ service.move.pointsAhead cursor seq entry

variable (service) in
def Includes (points : List Point) (point : Point) : Prop :=
  point ∈ points ∨ ∃ row, service.IsRowOf row point ∧
    ∃ exported ∈ points, service.exportOf row = some exported

variable (service) in
def Exported (pushes : Pushes) (point : Point) : Prop :=
  ∃ push ∈ pushes, service.Includes push.1 point

theorem storedRow_of_carries {sinkWrite : SinkWrite ρ}
    (carries : sinkWrite.Carries service.flush.stacking service.move.key.db service.move.key.rp
      point) (own : point.measurement = service.move.key.measurement) :
    ∃ row ∈ sinkWrite.storedRows service.pointOf, service.IsRowOf row point := by
  cases sinkWrite with
  | points base work =>
    obtain ⟨sameDb, sameRp, sameMeasurement, row, member, absorbs⟩ := carries
    obtain ⟨index, inside, rfl⟩ := mem_iff_getElem.mp member
    refine ⟨⟨⟨work.db, work.rp, work.measurement⟩, work.rows[index].1,
      base.saturatingAdd (.ofNat index)⟩, ?_, ?_⟩
    · simp only [SinkWrite.storedRows, buildRecordBatch, mem_map, mem_mapIdx]
      exact ⟨_, ⟨index, inside, rfl⟩, rfl⟩
    · refine ⟨?_, absorbs.measurement, absorbs.tags, absorbs.timestamp⟩
      rw [sameDb, sameRp, sameMeasurement, own]
  | prepared work =>
    obtain ⟨sameDb, sameRp, sameMeasurement, row, member, cells⟩ := carries
    obtain ⟨measurement, tags, timestamp⟩ := service.carries cells
    refine ⟨_, mem_map_of_mem member, ?_, measurement, tags, timestamp⟩
    rw [sameDb, sameRp, sameMeasurement, own]

variable {seq : Nat}

theorem holds_of_mem_entryPoints (member : point ∈ service.move.entryPoints seq entry) :
    point.measurement = service.move.key.measurement ∧
      service.move.region.start ≤ service.move.seriesIdForPoint point ∧
      service.move.seriesIdForPoint point < service.move.region.end_ := by
  have own := (mem_entryPoints.mp member).2.2.2.2
  simpa [holds, ShardRegion.contains] using own

variable {row : StoredRow}

theorem IsRowOf.seriesId (isRow : service.IsRowOf row point) :
    (service.move.factRow service.schema row).seriesId = service.move.seriesIdForPoint point := by
  rw [factRow, seriesIdForPoint, seriesIdForPoint, isRow.measurement, isRow.tags]

section

variable (sound : service.Sound world)
  (committed : world.flush.history.committed[seq]? = some entry)
include sound committed

/-- An entry that has reached the sink has left its points in the table. -/
theorem Sound.stored_of_settled
    (settled : world.flush.history.Settled service.flush.stacking seq entry)
    (member : point ∈ service.move.entryPoints seq entry) :
    service.Excused world point ∨ service.Stored world point none := by
  obtain ⟨-, sameDb, sameRp, inEntry, -⟩ := mem_entryPoints.mp member
  obtain ⟨own, started, -⟩ := holds_of_mem_entryPoints member
  rcases settled with purged | covered
  · exact Or.inl (Or.inl ⟨seq, entry, committed, member, purged⟩)
  · obtain ⟨sinkWrite, isSettled, carries⟩ := covered point inEntry
    rw [sameDb, sameRp] at carries
    rcases sound.delivered sinkWrite isSettled with refused | stored
    · exact Or.inl (Or.inr (Or.inl ⟨sinkWrite, refused, carries⟩))
    · obtain ⟨row, inWrite, isRow⟩ := storedRow_of_carries carries own
      cases isExport : service.exportOf row with
      | none => exact Or.inl (Or.inr (Or.inr ⟨row, stored row inWrite, isRow, isExport⟩))
      | some exported =>
        refine Or.inr ⟨row, stored row inWrite, isRow, by simp [isExport], ?_⟩
        exact decide_eq_true (isRow.seriesId ▸ started)

/-- A committed entry is in the log, unless it has reached the sink. -/
theorem Sound.row_or_stored (member : point ∈ service.move.entryPoints seq entry) :
    (∃ row, world.flush.rows[seq]? = some row ∧ row.entry = entry) ∨
      service.Excused world point ∨ service.Stored world point none := by
  cases lookup : world.flush.rows[seq]? with
  | none =>
    have settled := sound.flush.settled_of_passed committed (Or.inr (Or.inr lookup))
    exact Or.inr (sound.stored_of_settled committed settled member)
  | some row =>
    have stored := (sound.flush.stored seq row lookup).1
    exact Or.inl ⟨row, rfl, Option.some.inj (stored.symm.trans committed)⟩

/-! ## The account of a point -/

end

variable (service world) in
def Accounted (pushes : Pushes) (point : Point) : Prop :=
  service.Excused world point ∨ service.Exported pushes point

variable (service world) in
/-- The point is accounted for, or is where the transfer will find it. -/
def pointAccount (point : Point) : MoveAccount where
  initial := ∃ seq entry, world.flush.history.committed[seq]? = some entry ∧
    point ∈ service.move.entryPoints seq entry
  wal pushes cursor := service.Accounted world pushes point ∨
    service.Stored world point none ∨ service.Logged world point cursor
  walChunk pushes next buffer := service.Accounted world pushes point ∨
    service.Stored world point none ∨ point ∈ buffer ∨ service.Logged world point next
  table pushes after := service.Accounted world pushes point ∨ service.Stored world point after
  tableChunk pushes chunk isLast := service.Accounted world pushes point ∨
    service.Includes chunk.points point ∨
    isLast = false ∧ service.Stored world point chunk.next
  finished pushes := service.Accounted world pushes point

theorem Accounted.append {pushes : Pushes} (accounted : service.Accounted world pushes point)
    (push : List Point × List Point) : service.Accounted world (pushes ++ [push]) point := by
  refine accounted.imp_right ?_
  rintro ⟨earlier, member, includes⟩
  exact ⟨earlier, mem_append_left _ member, includes⟩

theorem Includes.accounted {sent applied : List Point} (includes : service.Includes sent point)
    (pushes : Pushes) : service.Accounted world (pushes ++ [(sent, applied)]) point :=
  Or.inr ⟨(sent, applied), mem_append_right _ (mem_singleton_self _), includes⟩

variable {cursor : WalExportCursor}

theorem Sound.walAhead_of_logged (sound : service.Sound world)
    (logged : service.Logged world point cursor) :
    point ∈ service.move.walAhead cursor (service.view world).wal ∨
      service.Excused world point ∨ service.Stored world point none := by
  obtain ⟨seq, entry, committed, isAhead⟩ := logged
  rcases sound.row_or_stored committed (pointsAhead_subset isAhead) with
    ⟨row, lookup, rfl⟩ | located
  · exact Or.inl (mem_walAhead.mpr ⟨seq, row, lookup, isAhead⟩)
  · exact Or.inr located

theorem Sound.logged_of_walAhead (sound : service.Sound world)
    (isAhead : point ∈ service.move.walAhead cursor (service.view world).wal) :
    service.Logged world point cursor := by
  obtain ⟨seq, row, lookup, inRow⟩ := mem_walAhead.mp isAhead
  exact ⟨seq, row.entry, (sound.flush.stored seq row lookup).1, inRow⟩

section

variable (below : service.move.seriesIdForPoint point < service.move.region.end_)
  {after : Option ExportCursor}
include below

theorem mem_rowsAhead_of_stored (member : row ∈ world.tables)
    (isRow : service.IsRowOf row point)
    (isAfter : service.move.isAfter after (service.move.factRow service.schema row) = true) :
    service.move.factRow service.schema row ∈
      service.move.rowsAhead after (service.view world).facts := by
  refine mem_rowsAhead.mpr ⟨?_, isAfter, ?_⟩
  · exact mem_map_of_mem (mem_filter.mpr ⟨member, decide_eq_true isRow.table⟩)
  · rw [belowEnd, isRow.seriesId, decide_eq_true below, Bool.or_true]

theorem chunk_of_stored {maxPoints : Nat} {chunk : ExportChunk}
    (exported : service.move.exportRegionPointsFromChdb after maxPoints
      (service.view world).facts = .ok chunk)
    (some : chunk.rows ≠ 0) (stored : service.Stored world point after) :
    service.Includes chunk.points point ∨
      decide (chunk.rows < maxPoints) = false ∧ service.Stored world point chunk.next := by
  obtain ⟨row, member, isRow, isExported, isAfter⟩ := stored
  obtain ⟨page, chunkOf⟩ := exists_chunkOf service.known exported
  obtain ⟨sent, isSent⟩ := Option.isSome_iff_exists.mp isExported
  have isAhead := mem_rowsAhead_of_stored below member isRow isAfter
  rcases chunkOf.mem_points_or_ahead some isAhead isSent with here | ⟨notLast, further⟩
  · exact Or.inl (Or.inr ⟨row, isRow, sent, here, isSent⟩)
  · exact Or.inr ⟨notLast, row, member, isRow, isExported, (mem_rowsAhead.mp further).2.1⟩

end

theorem Sound.pointAccount_kept (sound : service.Sound world)
    (queries : service.move.queryPort = true)
    (below : service.move.seriesIdForPoint point < service.move.region.end_)
    (answers : List Point → List Point → Prop) :
    (service.pointAccount world point).KeptBy service.move (service.view world) answers where
  starts := by
    rintro ⟨seq, entry, committed, member⟩
    -- An entry that the log reports as flushed has reached the sink.
    have flushed : seq ≤ world.flush.flushedThrough →
        service.Excused world point ∨ service.Stored world point none := fun passed =>
      sound.stored_of_settled committed
        (sound.flush.settled_of_passed committed (Or.inl (sound.watermark ▸ passed))) member
    by_cases reported : 0 < (service.view world).flushedThrough
    · rw [if_pos ⟨queries, reported⟩]
      rcases Nat.lt_or_ge world.flush.flushedThrough seq with ahead | passed
      · refine Or.inr (Or.inr ⟨seq, entry, committed, ?_⟩)
        rw [pointsAhead_eq_entryPoints]
        · exact member
        · rcases Nat.lt_or_eq_of_le ahead with further | isNext
          · exact Or.inl further
          · exact Or.inr (by rw [← isNext]; rfl)
      · rcases flushed passed with excused | stored
        · exact Or.inl (Or.inl excused)
        · exact Or.inr (Or.inl stored)
    · rw [if_neg fun both => reported both.2]
      refine Or.inr (Or.inr ⟨seq, entry, committed, ?_⟩)
      rw [pointsAhead_eq_entryPoints]
      · exact member
      · exact Or.inl (mem_entryPoints.mp member).1
  walStarts isAt := isAt.imp_right fun located => located.imp_right Or.inr
  page := by
    intro pushes next buffer maxPoints page isRead isPage nonempty
    have same := (takePage_readRange isPage nonempty buffer :
      (service.move.takePage maxPoints page next buffer).1 ++ _ = _ ∧ _).1
    have readOn : point ∈ buffer ++ service.move.walAhead next (service.view world).wal →
        point ∈ (service.move.takePage maxPoints page next buffer).1 ∨
          service.Logged world point (service.move.takePage maxPoints page next buffer).2.1 := by
      intro found
      rw [← same] at found
      exact (mem_append.mp found).imp_right sound.logged_of_walAhead
    rcases isRead with accounted | stored | buffered | logged
    · exact Or.inl accounted
    · exact Or.inr (Or.inl stored)
    · exact Or.inr (Or.inr (readOn (mem_append_left _ buffered)))
    · rcases sound.walAhead_of_logged logged with isAhead | excused | stored
      · exact Or.inr (Or.inr (readOn (mem_append_right _ isAhead)))
      · exact Or.inl (Or.inl excused)
      · exact Or.inr (Or.inl stored)
  walPushed := by
    rintro pushes next buffer applied (accounted | stored | buffered | logged) _
    · exact Or.inl (accounted.append _)
    · exact Or.inr (Or.inl stored)
    · exact Or.inl (Includes.accounted (Or.inl buffered) pushes)
    · exact Or.inr (Or.inr logged)
  walPassed isRead := isRead.imp_right fun located =>
    located.imp_right fun found => found.resolve_left (not_mem_nil)
  walEnds := by
    rintro pushes next (accounted | stored | logged) isEmpty
    · exact Or.inl accounted
    · exact Or.inr stored
    · rcases sound.walAhead_of_logged logged with isAhead | excused | stored
      · rw [walAhead_of_page_nil isEmpty] at isAhead
        cases isAhead
      · exact Or.inl (Or.inl excused)
      · exact Or.inr stored
  chunk := by
    rintro pushes after maxPoints chunk positive (accounted | stored) isChunk some
    · exact Or.inl accounted
    · exact Or.inr (chunk_of_stored below isChunk some stored)
  tableEnds := by
    rintro pushes after maxPoints chunk positive (accounted | stored) isChunk none
    · exact accounted
    · obtain ⟨row, member, isRow, -, isAfter⟩ := stored
      obtain ⟨page, chunkOf⟩ := exists_chunkOf service.known isChunk
      have isAhead := mem_rowsAhead_of_stored below member isRow isAfter
      rw [chunkOf.rowsAhead_eq_nil positive none] at isAhead
      cases isAhead
  chunkPassed := by
    rintro pushes chunk isLast isEmpty (accounted | includes | ⟨rfl, stored⟩)
    · cases isLast
      · exact Or.inl accounted
      · exact accounted
    · rw [isEmpty] at includes
      obtain inEmpty | ⟨row, -, sent, inEmpty, -⟩ := includes <;> cases inEmpty
    · exact Or.inr stored
  chunkPushed := by
    rintro pushes chunk isLast applied (accounted | includes | ⟨rfl, stored⟩) _
    · cases isLast
      · exact Or.inl (accounted.append _)
      · exact accounted.append _
    · cases isLast
      · exact Or.inl (includes.accounted pushes)
      · exact includes.accounted pushes
    · exact Or.inr stored

/-! ## Runs -/

theorem Sound.committed_kept (sound : service.Sound world)
    (event : FlushEvent service.flush.stacking)
    (committed : world.flush.history.committed[seq]? = some entry) :
    (service.flush.next world.flush event).history.committed[seq]? = some entry := by
  rcases (history_next sound.flush event seq).2 with unchanged | ⟨-, fresh⟩
  · exact unchanged.trans committed
  · rw [committed] at fresh
    cases fresh

/-- Whatever the flush does, a point stays where the transfer will find it. -/
theorem Sound.pointAccount_implies (sound : service.Sound world)
    (event : FlushEvent service.flush.stacking) (point : Point) :
    (service.pointAccount world point).Implies
      (service.pointAccount (service.next world (.flush event)) point) := by
  let flushed : MovingWorld service.flush.stacking :=
    { world with flush := service.flush.next world.flush event }
  obtain ⟨sameFlush, -, tablesKept, refusedKept⟩ :=
    sinkStep_frame service flushed (world.flush.endedWrite event)
  have committedKept : ∀ {seq : Nat} {entry : WalEntry},
      world.flush.history.committed[seq]? = some entry →
      (service.next world (.flush event)).flush.history.committed[seq]? = some entry :=
    fun committed => sameFlush ▸ sound.committed_kept event committed
  have excused : service.Excused world point →
      service.Excused (service.next world (.flush event)) point := by
    rintro (⟨seq, entry, committed, member, purged⟩ | ⟨sinkWrite, refused, carries⟩ |
      ⟨row, member, isRow, noField⟩)
    · exact Or.inl ⟨seq, entry, committedKept committed, member,
        sameFlush ▸ (history_next sound.flush event seq).1 purged⟩
    · exact Or.inr (Or.inl ⟨sinkWrite, refusedKept sinkWrite refused, carries⟩)
    · exact Or.inr (Or.inr ⟨row, tablesKept row member, isRow, noField⟩)
  have accounted : ∀ {pushes : Pushes}, service.Accounted world pushes point →
      service.Accounted (service.next world (.flush event)) pushes point :=
    fun known => known.imp_left excused
  have stored : ∀ {after : Option ExportCursor}, service.Stored world point after →
      service.Stored (service.next world (.flush event)) point after := by
    rintro after ⟨row, member, found⟩
    exact ⟨row, tablesKept row member, found⟩
  have logged : ∀ {cursor : WalExportCursor}, service.Logged world point cursor →
      service.Logged (service.next world (.flush event)) point cursor := by
    rintro cursor ⟨seq, entry, committed, isAhead⟩
    exact ⟨seq, entry, committedKept committed, isAhead⟩
  constructor
  · rintro ⟨seq, entry, committed, member⟩
    exact ⟨seq, entry, committedKept committed, member⟩
  · exact fun isAt => isAt.imp accounted (·.imp stored logged)
  · exact fun isRead => isRead.imp accounted (·.imp stored (·.imp_right logged))
  · exact fun isAt => isAt.imp accounted stored
  · exact fun isRead => isRead.imp accounted (·.imp_right fun ahead => ⟨ahead.1, stored ahead.2⟩)
  · exact accounted

end MovingService

def sampleMovingService : MovingService Point where
  flush := sampleFlushService
  move := { sampleMove with
    key := ⟨"db", "autogen", "cpu"⟩
    metadata := some { fieldTypes := (∅ : FieldTypes).insert "load" .integer } }
  schema := { fieldTypes := (∅ : FieldTypes).insert "load" .integer }
  known := rfl
  pointOf := id
  carries := by
    rintro cells point rfl
    exact ⟨rfl, rfl, rfl⟩

def sampleFlushCall (outcome : SinkOutcome) : List (FlushEvent sampleFlushService.stacking) :=
  .start 0 false :: List.replicate 5 (.advance 0 .proceed) ++
    [.advance 0 (.sink 0 outcome), .advance 0 .proceed, .advance 0 (.peers noPeers),
      .advance 0 .proceed, .advance 0 .proceed]

def sampleFlush (outcome : SinkOutcome) : List (MovingEvent sampleMovingService.flush.stacking) :=
  (sampleFlushCall outcome).map .flush

def samplePoint : Point :=
  ⟨"cpu", ∅, (∅ : Std.ExtTreeMap String FieldValue).insert "load" (.integer 1), 1⟩

/-- The entry is flushed after the transfer has begun, and is pushed twice. -/
def sampleInterleaving : List (MovingEvent sampleMovingService.flush.stacking) :=
  sampleFlush .accepted ++ [.move .readPage, .move .readPage,
    .move (.push (.applied [samplePoint])), .move .readPage, .move .readChunk,
    .move (.push (.applied [samplePoint]))]

end HyperbyteDb
