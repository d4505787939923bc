import HyperbyteDb.FieldUnion
import HyperbyteDb.RegionTransfer

/-!
# The values of a moved region

A region is moved from a source at rest to an empty destination.  The destination logs the
pushes in the order of their arrival and numbers their rows anew, so that the value it reads
last is the one that was pushed last.  The log of the source, which has the newer values, is
pushed before the fact table, which has the older ones.  Where a series and time has a field
in both, the older value wins at the destination.
-/

namespace HyperbyteDb

open GuardedRuns List OrderedRows VersionedRows

section

variable {ρ : Type}

/-- A source whose log and tables do not change. -/
structure RestingSource (ρ : Type) where
  wal : Rows Nat (WalRow ρ)
  flushedThrough : Nat
  /-- The flushed rows of the measurement, with all their versions. -/
  stored : List StoredRow

namespace RegionMove

variable (move : RegionMove) (schema : MeasurementMeta) (source : RestingSource ρ)

def factColumns (point : Point) : FieldColumns :=
  schema.fieldTypes.toList.foldl (fun columns entry =>
    columns.insert (fieldColumnName entry.1)
      (buildFieldCell move.wire.casts entry.2 point.fields[entry.1]?)) ∅

def factRow (row : StoredRow) : FactTableRow where
  seriesId := move.seriesIdForPoint row.point
  time := row.point.timestamp
  ingestSeq := row.ingestSeq
  columns := move.factColumns schema row.point

def viewOf : SourceView ρ :=
  ⟨source.wal, source.flushedThrough, source.stored.map (move.factRow schema)⟩

def startCursor : WalExportCursor :=
  ⟨if move.queryPort ∧ 0 < source.flushedThrough then source.flushedThrough + 1 else 0, 0⟩

/-- The points of the region that are only in the log, in the order of their entries. -/
def unflushedPoints : List Point := move.walAhead (move.startCursor source) source.wal

def flushedRows : List StoredRow :=
  (source.stored.insertionSort fun row other =>
    (move.factRow schema row).version ≤ (move.factRow schema other).version).filter fun row =>
      move.isAfter none (move.factRow schema row) && move.belowEnd (move.factRow schema row)

def flushedPoints : List Point := (move.flushedRows schema source).map StoredRow.point

def valueAt (points : List Point) (instant : UInt64 × Int64) (field : String) : Option FieldValue :=
  latestUnder (fun point => (move.seriesIdForPoint point, point.timestamp))
    (fun point field => point.fields[field]?) points instant field

/-- What the source reads: the log is newer than the table. -/
def sourceValue (instant : UInt64 × Int64) (field : String) : Option FieldValue :=
  move.valueAt (move.flushedPoints schema source ++ move.unflushedPoints source) instant field

/-- Every point of the region comes out of the table and through the lines as it was. -/
structure Intact : Prop where
  unflushed : ∀ point ∈ move.unflushedPoints source, move.wire.carryPoint point = some point
  stored : ∀ row ∈ move.flushedRows schema source,
    move.exportPoint schema (move.factRow schema row) = some row.point ∧
      move.wire.carryPoint row.point = some row.point

/-- Where an unflushed entry and a flushed row carry a field of one series and time, the last
unflushed value is the last flushed one. -/
def Agrees : Prop :=
  ∀ instant field newer older,
    move.valueAt (move.unflushedPoints source) instant field = some newer →
    move.valueAt (move.flushedPoints schema source) instant field = some older → newer = older

/-- The writes that the destination logs.  A push of which nothing is applied is not logged. -/
def receivedWrites (state : MoveState) : List LoggedWrite :=
  state.pushes.filterMap fun push =>
    if push.2.isEmpty then none
    else some (.points move.key.db move.key.rp move.sourceNodeId push.2)

end RegionMove

/-- A destination of the move: it numbers series as the source does, its log holds the pushes,
and its queries read the last value of every field. -/
structure ReceivedBy (move : RegionMove) (state : MoveState) (service : FactService)
    (dest : FactWorld) : Prop where
  sameSeries : service.seriesId = move.seriesId
  logged : dest.log.map Prod.snd = move.receivedWrites state
  readsLast : ∀ instant field answer, service.QueryReads dest instant field answer ↔
    service.lastWritten dest.log instant field = some answer

namespace RegionMove

variable {move : RegionMove} {schema : MeasurementMeta} {source : RestingSource ρ}

theorem rowsAhead_viewOf :
    move.rowsAhead none (move.viewOf schema source).facts =
      (move.flushedRows schema source).map (move.factRow schema) := by
  unfold rowsAhead viewOf flushedRows
  rw [← map_insertionSort (fun row other =>
      (move.factRow schema row).version ≤ (move.factRow schema other).version) _
      (move.factRow schema) source.stored (fun _ _ _ _ => Iff.rfl), filter_map]
  rfl

theorem tableAhead_viewOf (intact : move.Intact schema source) :
    move.tableAhead schema none (move.viewOf schema source).facts =
      move.flushedPoints schema source := by
  rw [tableAhead, rowsAhead_viewOf, filterMap_map, flushedPoints, ← filterMap_eq_map]
  apply filterMap_congr
  intro row member
  exact (intact.stored row member).1

variable (move schema source) in
def allSent : List Point :=
  move.unflushedPoints source ++ move.tableAhead schema none (move.viewOf schema source).facts

variable (move schema source) in
def restingAccount : MoveAccount where
  initial := True
  wal pushes cursor :=
    pushes.flatMap Prod.fst ++ (move.walAhead cursor source.wal ++
      move.tableAhead schema none (move.viewOf schema source).facts) = move.allSent schema source
  walChunk pushes next buffer :=
    pushes.flatMap Prod.fst ++ (buffer ++ move.walAhead next source.wal ++
      move.tableAhead schema none (move.viewOf schema source).facts) = move.allSent schema source
  table pushes after :=
    pushes.flatMap Prod.fst ++ move.tableAhead schema after (move.viewOf schema source).facts =
      move.allSent schema source
  tableChunk pushes chunk isLast :=
    pushes.flatMap Prod.fst ++ (chunk.points ++ if isLast then [] else
      move.tableAhead schema chunk.next (move.viewOf schema source).facts) =
      move.allSent schema source
  finished pushes := pushes.flatMap Prod.fst = move.allSent schema source

theorem restingAccount_kept (known : move.metadata = some schema)
    (answers : List Point → List Point → Prop) :
    (move.restingAccount schema source).KeptBy move (move.viewOf schema source) answers where
  starts _ := rfl
  walStarts isAt := isAt
  page := by
    intro pushes next buffer maxPoints page isRead isPage nonempty
    have same : (move.takePage maxPoints page next buffer).1 ++
        move.walAhead (move.takePage maxPoints page next buffer).2.1 source.wal =
        buffer ++ move.walAhead next source.wal := (takePage_readRange isPage nonempty buffer).1
    simp only [restingAccount, same]
    exact isRead
  walPushed := by
    intro pushes next buffer applied isRead _
    simpa [restingAccount] using isRead
  walPassed isRead := isRead
  walEnds := by
    intro pushes next isAt isEmpty
    have none : move.walAhead next source.wal = [] := walAhead_of_page_nil isEmpty
    simpa [restingAccount, none] using isAt
  chunk := by
    intro pushes after maxPoints chunk positive isAt exported some
    obtain ⟨page, chunkOf⟩ := exists_chunkOf known exported
    simpa [restingAccount, chunkOf.tableAhead_eq some] using isAt
  tableEnds := by
    intro pushes after maxPoints chunk positive isAt exported none
    obtain ⟨page, chunkOf⟩ := exists_chunkOf known exported
    simpa [restingAccount, tableAhead, chunkOf.rowsAhead_eq_nil positive none] using isAt
  chunkPassed := by
    intro pushes chunk isLast isEmpty isRead
    cases isLast <;> simpa [restingAccount, isEmpty] using isRead
  chunkPushed := by
    intro pushes chunk isLast applied isRead _
    cases isLast <;> simpa [restingAccount] using isRead

/-- Whatever the chunks, a transfer that succeeds has sent the unflushed points, and then the
flushed ones. -/
theorem sent_of_succeeded (known : move.metadata = some schema)
    (moves : move.destPrimary ≠ move.sourceNodeId) (queries : move.queryPort = true)
    {answers : List Point → List Point → Prop} {events : List MoveEvent}
    (answered : Along (move.step (move.viewOf schema source))
      (MoveAccount.Answered answers) {} events)
    (succeeded : (run (move.step (move.viewOf schema source)) {} events).phase =
      .returned (.ok ())) : (run (move.step (move.viewOf schema source)) {} events).sent =
      move.allSent schema source := by
  have holds := run_invariant (fun state _
    (holds : (move.restingAccount schema source).Holds state) answered =>
      (restingAccount_kept known answers).step queries moves holds answered) (.initial trivial)
    answered
  exact holds.finished succeeded

theorem mapM_eq_some_self {carry : Point → Option Point} {points : List Point}
    (same : ∀ point ∈ points, carry point = some point) : points.mapM carry = some points := by
  induction points with
  | nil => rfl
  | cons point points ih =>
    rw [mapM_cons, same point (by simp), ih fun other member => same other (by simp [member])]
    rfl

/-- The destination applies what it reads of the range. -/
def Honest (move : RegionMove) (sent applied : List Point) : Prop :=
  move.applyTransferPush sent = some applied

instance (sent applied : List Point) : Decidable (move.Honest sent applied) :=
  inferInstanceAs (Decidable (_ = _))

section Moved

variable {events : List MoveEvent}

variable (move schema source events) in
/-- The transfer after all events, from a source at rest. -/
def moved : MoveState := run (move.step (move.viewOf schema source)) {} events

variable (move schema source events) in
/-- A transfer that ends successfully, to a destination that applies what it gets. -/
structure Succeeds : Prop where
  known : move.metadata = some schema
  moves : move.destPrimary ≠ move.sourceNodeId
  queries : move.queryPort = true
  answered : Along (move.step (move.viewOf schema source))
    (MoveAccount.Answered move.Honest) {} events
  succeeded : (move.moved schema source events).phase = .returned (.ok ())

variable (succeeds : move.Succeeds schema source events) (intact : move.Intact schema source)

include succeeds intact

theorem sent_eq : (move.moved schema source events).sent =
    move.unflushedPoints source ++ move.flushedPoints schema source := by
  rw [← tableAhead_viewOf intact]
  exact sent_of_succeeded succeeds.known succeeds.moves succeeds.queries succeeds.answered
    succeeds.succeeded

/-- What is applied is what was sent. -/
theorem landed_eq : (move.moved schema source events).landed =
    move.unflushedPoints source ++ move.flushedPoints schema source := by
  have tallied : (move.moved schema source events).Tallied move.Applies :=
    run_invariant (fun _ _ tallied answered => tallied.step succeeds.moves
      (answered.mono fun _ _ => move.applies_of_applyTransferPush)) .initial succeeds.answered
  have arrived := arrived_of_verified tallied succeeds.succeeded
  rw [← sent_eq succeeds intact]
  apply flatMap_congr
  intro push member
  have kept : ∀ point ∈ push.1, move.wire.carryPoint point = some point := by
    intro point inPush
    have inSent : point ∈ (move.moved schema source events).sent :=
      mem_flatMap.mpr ⟨push, member, inPush⟩
    rw [sent_eq succeeds intact] at inSent
    rcases mem_append.mp inSent with unflushed | flushed
    · exact intact.unflushed point unflushed
    · obtain ⟨row, isRow, rfl⟩ := mem_map.mp flushed
      exact (intact.stored row isRow).2
  exact Option.some.inj ((arrived push member).symm.trans (mapM_eq_some_self kept))

theorem measurement_of_landed {point : Point}
    (isLanded : point ∈ (move.moved schema source events).landed) :
    point.measurement = move.key.measurement := by
  rw [landed_eq succeeds intact] at isLanded
  rcases mem_append.mp isLanded with unflushed | flushed
  · obtain ⟨seq, row, -, isAhead⟩ := mem_walAhead.mp unflushed
    have own := (mem_entryPoints.mp (pointsAhead_subset isAhead)).2.2.2.2
    rw [holds, Bool.and_eq_true] at own
    exact of_decide_eq_true own.1
  · obtain ⟨row, isRow, rfl⟩ := mem_map.mp flushed
    have exported := (intact.stored row isRow).1
    unfold exportPoint at exported
    dsimp only at exported
    split at exported
    · cases exported
    · exact (congrArg Point.measurement (Option.some.inj exported)).symm

end Moved

variable (move) in
/-- The points of the writes that the destination logs. -/
theorem written_receivedWrites (state : MoveState) :
    (move.receivedWrites state).flatMap LoggedWrite.written = state.landed := by
  rw [receivedWrites, MoveState.landed]
  induction state.pushes with
  | nil => rfl
  | cons push pushes ih =>
    rw [filterMap_cons]
    split
    next none =>
      have isEmpty : push.2 = [] := by simpa using none
      rw [ih, flatMap_cons, isEmpty, nil_append]
    next write isWrite =>
      rw [flatMap_cons, flatMap_cons, ih]
      have := (Option.ite_none_left_eq_some.mp isWrite).2
      cases this
      rfl

theorem lastWritten_eq_valueAt {state : MoveState} {service : FactService} {dest : FactWorld}
    (received : ReceivedBy move state service dest)
    (own : ∀ point ∈ state.landed, point.measurement = move.key.measurement)
    (instant : UInt64 × Int64) (field : String) :
    service.lastWritten dest.log (move.key, instant) field =
      move.valueAt state.landed instant field := by
  have points : (writtenRows dest.log).map (fun row => row.2.1) = state.landed := by
    rw [← move.written_receivedWrites, ← received.logged, flatMap_map, writtenRows, map_flatMap]
    simp [Function.comp_def]
  have table : ∀ row ∈ writtenRows dest.log, row.1 = move.key := by
    intro row member
    have landed : row.2.1 ∈ state.landed := points ▸ mem_map_of_mem member
    obtain ⟨item, inLog, point, inItem, rfl⟩ := mem_writtenRows.mp member
    have isReceived : item.2 ∈ move.receivedWrites state :=
      received.logged ▸ mem_map_of_mem inLog
    obtain ⟨push, -, isWrite⟩ := mem_filterMap.mp isReceived
    rw [Option.ite_none_left_eq_some] at isWrite
    rw [← Option.some.inj isWrite.2, own _ landed]
    rfl
  rw [FactService.lastWritten, valueAt, ← points, latestUnder_map, latestUnder]
  have sameRows : (writtenRows dest.log).filter (service.sourceKey · = (move.key, instant)) =
      (writtenRows dest.log).filter fun row =>
        (move.seriesIdForPoint row.2.1, row.2.1.timestamp) = instant := by
    apply filter_congr
    intro row member
    rw [decide_eq_decide]
    simp [FactService.sourceKey, FactService.instantOf, table row member, received.sameSeries,
      seriesIdForPoint]
  rw [sameRows]
  rfl

end RegionMove

/-! ## A small region -/

def sampleMove : RegionMove where
  key := ⟨"db", "rp", "cpu"⟩
  region := { regionId := 1, start := 0, end_ := UInt64.maxValue, epoch := {}, peers := [1],
              primary := 1 }
  sourceNodeId := 1
  destPrimary := 2
  maxPoints := 500
  queryPort := true
  metadata := some { fieldTypes := (∅ : FieldTypes).insert "usage" .integer }
  series := ∅
  wire := plainWire
  seriesId := sampleFactService.seriesId

def sampleSchema : MeasurementMeta :=
  { fieldTypes := (∅ : FieldTypes).insert "usage" .integer }

variable (time : Int64)

/-- A flushed row of time 3 with value 1, and an unflushed entry of the given time with
value 2. -/
def sampleSource : RestingSource Unit where
  wal := (∅ : Rows Nat (WalRow Unit)).insert 2
    ⟨⟨"db", "rp", [sampleFactPoint "usage" 2 time], 0⟩, none, 100⟩
  flushedThrough := 1
  stored := [⟨⟨"db", "rp", "cpu"⟩, sampleFactPoint "usage" 1 3, 1⟩]

def sampleEvents : List MoveEvent :=
  [.start, .readPage, .readPage, .push (.applied [sampleFactPoint "usage" 2 time]), .readPage,
    .readChunk, .push (.applied [sampleFactPoint "usage" 1 3])]

/-- The destination logs the two pushes and flushes them. -/
def sampleDestEvents : List FactEvent :=
  [.append 0 (.points "db" "rp" 1 [sampleFactPoint "usage" 2 time]),
    .append 0 (.points "db" "rp" 1 [sampleFactPoint "usage" 1 3]), .flushPrepared 2]

def sampleDest : FactWorld :=
  run sampleFactService.next {} (sampleDestEvents time)

/-- A destination that has stored its log row by row reads the last values. -/
theorem sample_received {time : Int64}
    (logged : (sampleDest time).log.map Prod.snd = sampleMove.receivedWrites
      (sampleMove.moved sampleSchema (sampleSource time) (sampleEvents time)))
    (allowed : Along sampleFactService.next sampleFactService.UnionStep {} (sampleDestEvents time))
    (all : ∀ item ∈ (sampleDest time).log, item.1 ≤ (sampleDest time).cursor) :
    ReceivedBy sampleMove (sampleMove.moved sampleSchema (sampleSource time) (sampleEvents time))
      sampleFactService (sampleDest time) :=
  ⟨rfl, logged, fun _ _ _ =>
    (FactService.Complete.run allowed).queryReads_iff_of_flushed all⟩

end

/-! ## The chunks of the log of a moving region -/

variable {ρ : Type} {wal : Rows Nat (WalRow ρ)}

theorem rowsFrom_eq_filter {fromSeq later : Nat} (reached : fromSeq ≤ later) :
    rowsFrom wal later = (rowsFrom wal fromSeq).filter fun item => later ≤ item.1 := by
  rw [rowsFrom, rowsFrom, filter_filter]
  grind

variable {points : List Point}

namespace RegionMove

variable {move : RegionMove} {maxPoints : Nat}

variable {next : WalExportCursor}

theorem rowsFrom_takePage_lt {buffer : List Point}
    (nonempty : ¬(readRange wal next.fromSeq walExportPageEntries).isEmpty = true)
    (notFull : (move.takePage maxPoints (readRange wal next.fromSeq walExportPageEntries) next
      buffer).2.2 = false) :
    (rowsFrom wal (move.takePage maxPoints (readRange wal next.fromSeq walExportPageEntries) next
      buffer).2.1.fromSeq).length < (rowsFrom wal next.fromSeq).length := by
  have inLog := (readRange_cut wal next.fromSeq walExportPageEntries).subset
  have someEntry := mt List.isEmpty_iff.mpr nonempty
  obtain ⟨-, -, passed, -⟩ := move.takePage_readRange rfl someEntry buffer
  obtain ⟨item, member⟩ := exists_mem_of_ne_nil _ someEntry
  have further := passed notFull item member
  have reached := (mem_rowsFrom.mp (inLog item member)).2
  rw [rowsFrom_eq_filter (reached.trans further.le), length_filter_lt_length_iff_exists]
  exact ⟨item, inLog item member, by simpa using further⟩

section Calls

variable (move) (wal : Rows Nat (WalRow ρ))

/-- Read pages until the chunk is full or the log is at its end. -/
def exportPages (maxPoints : Nat) (next : WalExportCursor) (points : List Point) :
    Except HyperbytedbError (List Point × WalExportCursor) :=
  let page := readRange wal next.fromSeq walExportPageEntries
  if isEmpty : page.isEmpty then .ok (points, next)
  else
    let out := move.takePage maxPoints page next points
    if notFull : out.2.2 = false then
      have := rowsFrom_takePage_lt isEmpty notFull
      if out.2.1 = next then .error (.shardMap "wal export made no progress")
      else exportPages maxPoints out.2.1 out.1
    else .ok (out.1, out.2.1)
termination_by (rowsFrom wal next.fromSeq).length

/-- The body of the next chunk, its number of points and the next cursor. -/
def exportRegionPointsFromWalChunked (cursor : WalExportCursor) (maxPoints : Nat) :
    Except HyperbytedbError (String × Nat × WalExportCursor) := do
  let (points, next) ← move.exportPages wal (max maxPoints 1) cursor []
  let body ← encodePointsToLineProtocol move.wire.numberToLpFloat .nanosecond points
  return (body, points.length, next)

/-- The rows and the points that are ahead of a cursor. -/
def workAhead (cursor : WalExportCursor) : Nat :=
  (rowsFrom wal cursor.fromSeq).length + (move.walAhead cursor wal).length

end Calls

/-- Every page makes progress: it fills the chunk with a point, or it is passed. -/
theorem takePage_workAhead
    {out : List Point × WalExportCursor × Bool}
    (nonempty : ¬(readRange wal next.fromSeq walExportPageEntries).isEmpty = true)
    (took : move.takePage maxPoints (readRange wal next.fromSeq walExportPageEntries) next points =
      out) :
    out.1 ++ move.walAhead out.2.1 wal = points ++ move.walAhead next wal ∧
      move.workAhead wal out.2.1 < move.workAhead wal next := by
  obtain ⟨same, before, -, grows⟩ :=
    took ▸ takePage_readRange rfl (mt isEmpty_iff.mpr nonempty) points
  have lengths := congrArg length same
  rw [length_append, length_append] at lengths
  refine ⟨same, ?_⟩
  unfold workAhead
  cases full : out.2.2 with
  | false =>
    have shorter := took ▸ rowsFrom_takePage_lt nonempty (took ▸ full)
    omega
  | true =>
    rw [full, Bool.toNat_true] at grows
    have notBack : next.fromSeq ≤ out.2.1.fromSeq := by
      rcases before with further | ⟨same, -⟩ <;> omega
    have := length_filter_le (fun item => decide (out.2.1.fromSeq ≤ item.1))
      (rowsFrom wal next.fromSeq)
    rw [← rowsFrom_eq_filter notBack] at this
    omega

variable (move wal maxPoints) in
/-- A call returns.  It exports what its cursor passes, and a call that makes no progress is
at the end of the log. -/
theorem exportPages_spec (next : WalExportCursor) (points : List Point) :
    ∃ out cursor, move.exportPages wal maxPoints next points = .ok (out, cursor) ∧
      out ++ move.walAhead cursor wal = points ++ move.walAhead next wal ∧
      (cursor = next ∧ out = points ∧ move.walAhead next wal = [] ∨
        move.workAhead wal cursor < move.workAhead wal next) := by
  fun_induction exportPages with
  | case1 next points page isEmpty =>
    exact ⟨points, next, rfl, rfl, Or.inl ⟨rfl, rfl, walAhead_of_page_nil (isEmpty_iff.mp isEmpty)⟩⟩
  | case2 next points page nonempty out notFull shorter stuck =>
    rw [stuck] at shorter
    exact absurd shorter (lt_irrefl _)
  | case3 next points page nonempty out notFull shorter moved ih =>
    obtain ⟨same, less⟩ := takePage_workAhead nonempty rfl
    obtain ⟨result, cursor, ran, split, progress⟩ := ih
    refine ⟨result, cursor, ran, split.trans same, Or.inr ?_⟩
    rcases progress with ⟨rfl, -⟩ | progress
    · exact less
    · exact progress.trans less
  | case4 next points page nonempty out full =>
    obtain ⟨same, less⟩ := takePage_workAhead nonempty rfl
    exact ⟨out.1, out.2.1, rfl, same, Or.inr less⟩

end RegionMove

structure ExportCall where
  maxPoints : Nat
  /-- The chunk is not kept. -/
  refused : Bool

namespace RegionMove

/-- The cursor and the bodies that are kept after the first calls. -/
def exportCalls (move : RegionMove) (wal : Rows Nat (WalRow ρ)) (start : WalExportCursor)
    (calls : Nat → ExportCall) : Nat → Except HyperbytedbError (WalExportCursor × List String)
  | 0 => .ok (start, [])
  | count + 1 => do
    let (cursor, kept) ← exportCalls move wal start calls count
    let (body, _, next) ←
      move.exportRegionPointsFromWalChunked wal cursor (calls count).maxPoints
    return if (calls count).refused then (cursor, kept) else (next, kept ++ [body])

variable {move : RegionMove} {start : WalExportCursor}

theorem exists_encode {precision : Precision}
    (filled : ∀ point ∈ points, point.fields.isEmpty = false) :
    ∃ body, encodePointsToLineProtocol move.wire.numberToLpFloat precision points = .ok body := by
  have lines : ∃ lines, points.mapM (writePoint move.wire.numberToLpFloat precision) =
      .ok lines := by
    induction points with
    | nil => exact ⟨[], rfl⟩
    | cons point points ih =>
      obtain ⟨line, written⟩ : ∃ line, writePoint move.wire.numberToLpFloat precision point =
          .ok line := by
        simp [writePoint, filled point]
      obtain ⟨lines, later⟩ := ih fun other member => filled other (by simp [member])
      refine ⟨line :: lines, ?_⟩
      rw [mapM_cons, written, later]
      rfl
  obtain ⟨lines, written⟩ := lines
  refine ⟨joinTexts "\n" lines, ?_⟩
  rw [encodePointsToLineProtocol, written]
  rfl

/-- Some number of calls reaches the end of the log.  The kept bodies are those of chunks
that hold every matching point from the start on, once and in the order of the log. -/
def ExportsAll (move : RegionMove) (wal : Rows Nat (WalRow ρ)) (start : WalExportCursor)
    (calls : Nat → ExportCall) : Prop :=
  ∃ count last kept, move.exportCalls wal start calls count = .ok (last, kept) ∧
    move.exportRegionPointsFromWalChunked wal last (calls count).maxPoints = .ok ("", 0, last) ∧
    ∃ chunks : List (List Point),
      chunks.map (encodePointsToLineProtocol move.wire.numberToLpFloat .nanosecond) =
          kept.map .ok ∧
        chunks.flatten = move.walAhead start wal

variable {calls : Nat → ExportCall}

theorem exportsAll_of_calls {cursor : WalExportCursor} {count : Nat} {kept : List String}
    (filled : ∀ point ∈ move.walAhead start wal, point.fields.isEmpty = false)
    (smaller : ∀ count, (calls count).refused = true →
      (calls (count + 1)).maxPoints < (calls count).maxPoints)
    (ran : move.exportCalls wal start calls count = .ok (cursor, kept)) (chunks : List (List Point))
    (encoded : chunks.map (encodePointsToLineProtocol move.wire.numberToLpFloat .nanosecond) =
      kept.map .ok) (split : chunks.flatten ++ move.walAhead cursor wal = move.walAhead start wal) :
    move.ExportsAll wal start calls := by
  obtain ⟨out, next, called, same, progress⟩ := exportPages_spec wal move
    (max (calls count).maxPoints 1) cursor []
  rcases progress with ⟨rfl, rfl, ahead⟩ | progress
  · rw [ahead, append_nil] at split
    refine ⟨count, next, kept, ran, ?_, chunks, encoded, split⟩
    rw [exportRegionPointsFromWalChunked, called]
    rfl
  · obtain ⟨body, isBody⟩ : ∃ body, encodePointsToLineProtocol move.wire.numberToLpFloat
        .nanosecond out = .ok body := by
      apply exists_encode
      intro point member
      apply filled
      rw [← split, ← nil_append (move.walAhead cursor wal), ← same]
      simp [member]
    have call : move.exportRegionPointsFromWalChunked wal cursor (calls count).maxPoints =
        .ok (body, out.length, next) := by
      rw [exportRegionPointsFromWalChunked, called]
      exact congrArg (· >>= fun body => .ok (body, out.length, next)) isBody
    have later : move.exportCalls wal start calls (count + 1) =
        .ok (if (calls count).refused then (cursor, kept) else (next, kept ++ [body])) := by
      rw [exportCalls, ran]
      exact congrArg (· >>= fun called => .ok (if (calls count).refused then (cursor, kept)
        else (called.2.2, kept ++ [called.1]))) call
    cases refused : (calls count).refused with
    | true =>
      rw [refused] at later
      have := smaller count refused
      exact exportsAll_of_calls filled smaller later chunks encoded split
    | false =>
      rw [refused] at later
      refine exportsAll_of_calls filled smaller later (chunks ++ [out]) ?_ ?_
      · simp [encoded, isBody]
      · simpa [same] using split
termination_by (move.workAhead wal cursor, (calls count).maxPoints)

/-- An entry with one matching point, which has no fields. -/
def fieldlessLog : Rows Nat (WalRow Unit) :=
  (∅ : Rows Nat (WalRow Unit)).insert 1 ⟨⟨"db", "rp", [⟨"cpu", ∅, ∅, 0⟩], 0⟩, none, 100⟩

end RegionMove

end HyperbyteDb
