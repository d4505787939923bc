import HyperbyteDb.KeysetPages
import HyperbyteDb.MovedFieldValues
import Mathlib.Data.List.ReduceOption
import Mathlib.Data.Prod.Lex

/-!
# Reading a region for its move

The rows of a region are read in chunks, the unflushed ones from the write-ahead log and the
flushed ones from the fact table.  Both readers keep a cursor.
-/

namespace HyperbyteDb

open ByteReaders KeysetPages List OrderedRows

variable {ρ : Type}

structure FactTableRow where
  seriesId : UInt64
  time : Int64
  ingestSeq : UInt64
  columns : FieldColumns
deriving DecidableEq

/-- A region on its way to another node, with what its source knows of the measurement. -/
structure RegionMove where
  key : MeasurementKey
  region : ShardRegion
  sourceNodeId : UInt64
  destPrimary : UInt64
  maxPoints : Nat
  /-- Whether the source can query its fact tables. -/
  queryPort : Bool
  metadata : Option MeasurementMeta
  /-- The series table: the tag columns of every series. -/
  series : Std.ExtTreeMap UInt64 (Std.ExtTreeMap String String)
  wire : ValueWire
  seriesId : String → Std.ExtTreeMap String String → UInt64

namespace RegionMove

variable (move : RegionMove)

def seriesIdForPoint (point : Point) : UInt64 :=
  move.seriesId point.measurement point.tags

def holds (point : Point) : Bool :=
  point.measurement = move.key.measurement && move.region.contains (move.seriesIdForPoint point)

/-! ## The write-ahead log -/

def walExportPageEntries : Nat := 128

/-- Entries up to this sequence are skipped; the first entry of a log has sequence 1. -/
def skipWalThrough : Nat := 0

end RegionMove

structure WalExportCursor where
  fromSeq : Nat
  /-- The points of entry `fromSeq` that are exported already. -/
  skipPointsInHeadEntry : Nat
deriving DecidableEq

/-- `later` is further in the log. -/
def WalExportCursor.Before (cursor later : WalExportCursor) : Prop :=
  cursor.fromSeq < later.fromSeq ∨
    cursor.fromSeq = later.fromSeq ∧ cursor.skipPointsInHeadEntry < later.skipPointsInHeadEntry

theorem WalExportCursor.Before.trans {first second third : WalExportCursor}
    (before : first.Before second) (further : second.Before third) : first.Before third := by
  unfold WalExportCursor.Before at *
  omega

/-- Take the points of an entry after the first `skip` ones, having passed `consumed`.  A
chunk that gets full tells how many points of the entry are passed. -/
def takePoints (maxPoints : Nat) : List Point → Nat → Nat → List Point → List Point × Option Nat
  | [], _, _, buffer => (buffer, none)
  | _ :: points, skip + 1, consumed, buffer =>
    takePoints maxPoints points skip (consumed + 1) buffer
  | point :: points, 0, consumed, buffer =>
    if maxPoints ≤ (buffer ++ [point]).length then (buffer ++ [point], some (consumed + 1))
    else takePoints maxPoints points 0 (consumed + 1) (buffer ++ [point])

namespace RegionMove

variable (move : RegionMove)

def entryPoints (seq : Nat) (entry : WalEntry) : List Point :=
  if seq ≤ skipWalThrough ∨ entry.database ≠ move.key.db ∨
      entry.retentionPolicy ≠ move.key.rp then []
  else entry.points.filter move.holds

/-- Go through a page.  The flag tells whether the chunk is full. -/
def takePage (maxPoints : Nat) : List (Nat × WalRow ρ) → WalExportCursor → List Point →
    List Point × WalExportCursor × Bool
  | [], next, buffer => (buffer, next, false)
  | (seq, row) :: page, next, buffer =>
    let skip := if seq = next.fromSeq then next.skipPointsInHeadEntry else 0
    match takePoints maxPoints (move.entryPoints seq row.entry) skip 0 buffer with
    | (taken, some consumed) => (taken, ⟨seq, consumed⟩, true)
    | (taken, none) => takePage maxPoints page ⟨seq + 1, 0⟩ taken

def pointsAhead (cursor : WalExportCursor) (seq : Nat) (entry : WalEntry) : List Point :=
  if seq < cursor.fromSeq then []
  else (move.entryPoints seq entry).drop
    (if seq = cursor.fromSeq then cursor.skipPointsInHeadEntry else 0)

def walAhead (cursor : WalExportCursor) (wal : Rows Nat (WalRow ρ)) : List Point :=
  wal.toList.flatMap fun item => move.pointsAhead cursor item.1 item.2.entry

end RegionMove

variable {maxPoints consumed : Nat}

theorem takePoints_not_full {points : List Point} {skip : Nat}
    {buffer taken : List Point}
    (took : takePoints maxPoints points skip consumed buffer = (taken, none)) :
    taken = buffer ++ points.drop skip := by
  induction points generalizing skip consumed buffer with
  | nil =>
    cases took
    simp
  | cons point points ih =>
    cases skip with
    | succ skip => exact ih took
    | zero =>
      rw [takePoints] at took
      split at took
      · cases took
      · rw [ih took]
        simp

theorem takePoints_full {points : List Point} {skip count : Nat}
    {buffer taken : List Point}
    (took : takePoints maxPoints points skip consumed buffer = (taken, some count)) :
    consumed + skip < count ∧ count ≤ consumed + points.length ∧
      taken ++ points.drop (count - consumed) = buffer ++ points.drop skip := by
  induction points generalizing skip consumed buffer with
  | nil => cases took
  | cons point points ih =>
    cases skip with
    | succ skip =>
      obtain ⟨passed, within, split⟩ := ih took
      refine ⟨by omega, by rw [length_cons]; omega, ?_⟩
      rw [show count - consumed = count - (consumed + 1) + 1 by omega]
      exact split
    | zero =>
      rw [takePoints] at took
      split at took
      · cases took
        exact ⟨by omega, by simp, by simp⟩
      · obtain ⟨passed, within, split⟩ := ih took
        refine ⟨by omega, by rw [length_cons]; omega, ?_⟩
        rw [show count - consumed = count - (consumed + 1) + 1 by omega, drop_succ_cons,
          split]
        simp

namespace RegionMove

section Pages

variable {move : RegionMove} {maxPoints : Nat}

variable {seq : Nat} {cursor : WalExportCursor}

theorem pointsAhead_of_lt (passed : seq < cursor.fromSeq) (entry : WalEntry) :
    move.pointsAhead cursor seq entry = [] :=
  if_pos passed

theorem pointsAhead_of_le (reached : cursor.fromSeq ≤ seq) (entry : WalEntry) :
    move.pointsAhead cursor seq entry = (move.entryPoints seq entry).drop
      (if seq = cursor.fromSeq then cursor.skipPointsInHeadEntry else 0) :=
  if_neg (by omega)

theorem pointsAhead_eq_entryPoints (reached : cursor.fromSeq < seq ∨ cursor = ⟨seq, 0⟩)
    (entry : WalEntry) : move.pointsAhead cursor seq entry = move.entryPoints seq entry := by
  rcases reached with above | rfl
  · rw [pointsAhead_of_le above.le, if_neg above.ne']
    rfl
  · rw [pointsAhead_of_le (le_refl seq), if_pos rfl]
    rfl

variable {point : Point}

variable {entry : WalEntry}

theorem pointsAhead_subset
    (isAhead : point ∈ move.pointsAhead cursor seq entry) : point ∈ move.entryPoints seq entry := by
  unfold pointsAhead at isAhead
  split at isAhead
  · cases isAhead
  · exact mem_of_mem_drop isAhead

theorem mem_entryPoints :
    point ∈ move.entryPoints seq entry ↔
      0 < seq ∧ entry.database = move.key.db ∧ entry.retentionPolicy = move.key.rp ∧
        point ∈ entry.points ∧ move.holds point = true := by
  unfold entryPoints skipWalThrough
  split
  next other =>
    simp only [not_mem_nil, false_iff]
    rintro ⟨positive, sameDb, sameRp, -⟩
    rcases other with zero | otherDb | otherRp
    · omega
    · exact otherDb sameDb
    · exact otherRp sameRp
  next own =>
    push Not at own
    simp [own]

variable (move maxPoints) in
/-- What the chunk holds after a page and what of the log is ahead of the cursor is what it
held before and what was ahead.  The cursor moves on, and a page that does not fill the chunk is
passed. -/
theorem takePage_spec {page rest : List (Nat × WalRow ρ)} {next : WalExportCursor}
    (ascending : (page ++ rest).Pairwise fun first second => first.1 < second.1)
    (reached : ∀ item ∈ page ++ rest, next.fromSeq ≤ item.1) (buffer : List Point) :
    let out := move.takePage maxPoints page next buffer
    out.1 ++ (page ++ rest).flatMap (fun item => move.pointsAhead out.2.1 item.1 item.2.entry) =
        buffer ++ (page ++ rest).flatMap (fun item => move.pointsAhead next item.1 item.2.entry) ∧
      (page ≠ [] → next.Before out.2.1) ∧
      (out.2.2 = false → ∀ item ∈ page, item.1 < out.2.1.fromSeq) ∧
      buffer.length + out.2.2.toNat ≤ out.1.length := by
  induction page generalizing next buffer with
  | nil => exact ⟨rfl, absurd rfl, nofun, le_refl _⟩
  | cons item page ih =>
    obtain ⟨seq, row⟩ := item
    obtain ⟨above, ascendingRest⟩ := pairwise_cons.mp ascending
    have seqReached : next.fromSeq ≤ seq := reached (seq, row) (by simp)
    -- Nothing is exported yet of the entries after the first one.
    have untouched : ∀ cursor : WalExportCursor, cursor.fromSeq ≤ seq ∨ cursor = ⟨seq + 1, 0⟩ →
        (page ++ rest).flatMap (fun item => move.pointsAhead cursor item.1 item.2.entry) =
          (page ++ rest).flatMap fun item => move.entryPoints item.1 item.2.entry := by
      intro cursor before
      refine flatMap_congr fun item member => pointsAhead_eq_entryPoints ?_ _
      rcases before with below | rfl
      · exact Or.inl (below.trans_lt (above item member))
      · rcases Nat.lt_or_eq_of_le (above item member) with further | isNext
        · exact Or.inl further
        · exact Or.inr (by rw [← isNext])
    simp only [takePage, cons_append, flatMap_cons]
    rw [untouched next (Or.inl seqReached), pointsAhead_of_le seqReached]
    generalize skipEq : (if seq = next.fromSeq then next.skipPointsInHeadEntry else 0) = skip
    split
    next taken consumed took =>
      obtain ⟨passed, within, split⟩ := takePoints_full took
      have lengths := congrArg List.length split
      simp only [length_append, length_drop] at lengths
      refine ⟨?_, fun _ => ?_, nofun, by simp only [Bool.toNat_true]; omega⟩
      · rw [untouched ⟨seq, consumed⟩ (Or.inl (le_refl seq)), pointsAhead_of_le (le_refl seq),
          if_pos rfl, ← append_assoc, ← append_assoc]
        exact congrArg (· ++ _) split
      · rcases seqReached.lt_or_eq with further | same
        · exact Or.inl further
        · rw [if_pos same.symm] at skipEq
          refine Or.inr ⟨same, ?_⟩
          change next.skipPointsInHeadEntry < consumed
          omega
    next taken took =>
      have whole := takePoints_not_full took
      have lengths := congrArg List.length whole
      rw [length_append] at lengths
      rw [← append_assoc buffer, ← whole]
      have reachedRest : ∀ item ∈ page ++ rest,
          (⟨seq + 1, 0⟩ : WalExportCursor).fromSeq ≤ item.1 := above
      obtain ⟨same, further, passed, grows⟩ := ih ascendingRest reachedRest taken
      have beyond : seq < (move.takePage maxPoints page ⟨seq + 1, 0⟩ taken).2.1.fromSeq := by
        cases page with
        | nil => exact Nat.lt_succ_self seq
        | cons =>
          rcases further (cons_ne_nil _ _) with further | ⟨same, -⟩
          · exact Nat.lt_of_succ_lt further
          · exact Nat.lt_of_succ_le same.le
      refine ⟨?_, fun _ => Or.inl (seqReached.trans_lt beyond), fun notFull =>
        forall_mem_cons.mpr ⟨beyond, passed notFull⟩, by omega⟩
      rw [pointsAhead_of_lt beyond, nil_append, same, untouched _ (Or.inr rfl)]

variable {cursor next : WalExportCursor} {wal : Rows Nat (WalRow ρ)}

theorem mem_walAhead :
    point ∈ move.walAhead cursor wal ↔ ∃ (seq : Nat) (row : WalRow ρ), wal[seq]? = some row ∧
      point ∈ move.pointsAhead cursor seq row.entry := by
  simp [walAhead]

/-- Entries before the cursor have nothing ahead of it. -/
theorem walAhead_eq_rowsFrom {fromSeq : Nat} (reached : fromSeq ≤ cursor.fromSeq) :
    move.walAhead cursor wal = (rowsFrom wal fromSeq).flatMap fun item =>
        move.pointsAhead cursor item.1 item.2.entry := by
  rw [walAhead, rowsFrom]
  induction wal.toList with
  | nil => rfl
  | cons item items ih =>
    rw [flatMap_cons, ih, filter_cons]
    split
    next => rfl
    next passed =>
      rw [pointsAhead_of_lt (by simp at passed; omega), nil_append]

theorem walAhead_of_page_nil (isEmpty : readRange wal next.fromSeq walExportPageEntries = []) :
    move.walAhead next wal = [] := by
  have below := (readRange_eq_nil_iff (by decide)).mp isEmpty
  rw [eq_nil_iff_forall_not_mem]
  intro point isAhead
  obtain ⟨seq, row, lookup, isAhead⟩ := mem_walAhead.mp isAhead
  rw [pointsAhead_of_lt (below seq row lookup)] at isAhead
  cases isAhead

/-- One page of the log: the chunk and what is ahead of the cursor stay the same together,
and the cursor moves on. -/
theorem takePage_readRange {page : List (Nat × WalRow ρ)}
    (isPage : readRange wal next.fromSeq walExportPageEntries = page) (nonempty : page ≠ [])
    (buffer : List Point) :
    let out := move.takePage maxPoints page next buffer
    out.1 ++ move.walAhead out.2.1 wal = buffer ++ move.walAhead next wal ∧
      next.Before out.2.1 ∧ (out.2.2 = false → ∀ item ∈ page, item.1 < out.2.1.fromSeq) ∧
      buffer.length + out.2.2.toNat ≤ out.1.length := by
  obtain ⟨rest, split⟩ : page <+: rowsFrom wal next.fromSeq := isPage ▸ readLoop_front ..
  have ascending := rowsFrom_ascending wal next.fromSeq
  have reached : ∀ item ∈ rowsFrom wal next.fromSeq, next.fromSeq ≤ item.1 :=
    fun item member => (mem_rowsFrom.mp member).2
  rw [← split] at ascending reached
  obtain ⟨same, further, passed⟩ := move.takePage_spec maxPoints ascending reached buffer
  have notBack : next.fromSeq ≤ (move.takePage maxPoints page next buffer).2.1.fromSeq := by
    rcases further nonempty with further | ⟨same, -⟩ <;> omega
  refine ⟨?_, further nonempty, passed⟩
  rw [walAhead_eq_rowsFrom notBack, walAhead_eq_rowsFrom (le_refl next.fromSeq), ← split]
  exact same

end Pages

end RegionMove

/-! ## The fact table -/

/-- The series and time of the last row that was read. -/
structure ExportCursor where
  seriesId : UInt64
  timeNanos : Int64
deriving DecidableEq

namespace FactTableRow

def cursor (row : FactTableRow) : ExportCursor := ⟨row.seriesId, row.time⟩

/-- The sort key of the table. -/
def instant (row : FactTableRow) : UInt64 ×ₗ Int := toLex (row.seriesId, row.time.toInt)

/-- The order of an export. -/
def version (row : FactTableRow) : (UInt64 ×ₗ Int) ×ₗ UInt64 := toLex (row.instant, row.ingestSeq)

end FactTableRow

structure ExportChunk where
  points : List Point
  /-- The rows read; one without fields sends no point. -/
  rows : Nat
  next : Option ExportCursor
deriving DecidableEq

inductive MoveError where
  | transferRejected (status : Nat) (reason : String)
  | other (error : HyperbytedbError)
deriving DecidableEq

def tagColPrefix : String := "__tag__"

def MeasurementMeta.physicalTagColumnName (schema : MeasurementMeta) (tag : String) : String :=
  sanitiseIdent (if tag ∈ schema.fieldTypes then tagColPrefix ++ tag else tag)

namespace RegionMove

variable (move : RegionMove)

/-- The greatest series identifier is in the last region. -/
def belowEnd (row : FactTableRow) : Bool :=
  move.region.end_ = UInt64.maxValue || row.seriesId < move.region.end_

variable (after : Option ExportCursor)

def isAfter (row : FactTableRow) : Bool :=
  match after with
  | none => move.region.start ≤ row.seriesId
  | some cursor =>
    cursor.seriesId < row.seriesId ||
      (row.seriesId = cursor.seriesId && cursor.timeNanos < row.time)

def rowsAhead (facts : List FactTableRow) : List FactTableRow :=
  (facts.insertionSort fun row other => row.version ≤ other.version).filter fun row =>
    move.isAfter after row && move.belowEnd row

variable (schema : MeasurementMeta)

/-- The row finds its series.  A join without a match yields series 0. -/
def joins (row : FactTableRow) : Bool :=
  schema.tagKeys.isEmpty || (if row.seriesId ∈ move.series then row.seriesId else 0) = row.seriesId

def exportTags (seriesId : UInt64) : Std.ExtTreeMap String String :=
  let columns := (move.series[seriesId]?).getD ∅
  schema.tagKeys.toList.foldl (fun tags tag =>
    match columns[schema.physicalTagColumnName tag]? with
    | some value => if value = "" then tags else tags.insert tag value
    | none => tags) ∅

def exportPoint (row : FactTableRow) : Option Point :=
  let fields := move.wire.exportFields schema.fieldTypes row.columns
  if fields.isEmpty then none
  else some ⟨move.key.measurement, move.exportTags schema row.seriesId, fields, row.time⟩

def exportRow (row : FactTableRow) : Except MoveError (Option Point) :=
  if move.joins schema row then .ok (move.exportPoint schema row)
  else .error (.other (.internal
    s!"transfer export: no series row for series_id {row.seriesId} in {move.key.db}.{move.key.rp}.{move.key.measurement}; tags would be empty defaults"))

def exportRegionPointsFromChdb (maxPoints : Nat) (facts : List FactTableRow) :
    Except MoveError ExportChunk :=
  match move.metadata with
  | none => .ok ⟨[], 0, none⟩
  | some schema =>
    let rows := pageWithTies FactTableRow.instant maxPoints (move.rowsAhead after facts)
    (rows.mapM (move.exportRow schema)).map fun points =>
      ⟨points.reduceOption, rows.length, rows.getLast?.map FactTableRow.cursor⟩

section Chunks

variable {move} {after : Option ExportCursor} {facts : List FactTableRow} {maxPoints : Nat}
  {schema : MeasurementMeta}

variable {row : FactTableRow}

theorem mem_rowsAhead :
    row ∈ move.rowsAhead after facts ↔
      row ∈ facts ∧ move.isAfter after row = true ∧ move.belowEnd row = true := by
  rw [rowsAhead, mem_filter, (perm_insertionSort _ facts).mem_iff, Bool.and_eq_true]

theorem isAfter_some (cursor : ExportCursor) (row : FactTableRow) :
    move.isAfter (some cursor) row =
      decide (toLex (cursor.seriesId, cursor.timeNanos.toInt) < row.instant) := by
  rw [Bool.eq_iff_iff, isAfter]
  simp only [Bool.or_eq_true, Bool.and_eq_true, decide_eq_true_eq, FactTableRow.instant,
    Prod.Lex.toLex_lt_toLex, Int64.lt_iff_toInt_lt, @eq_comm _ row.seriesId]

theorem isAfter_upward : Upward FactTableRow.instant (move.isAfter after) := by
  cases after with
  | some cursor =>
    have same : move.isAfter (some cursor) = fun row =>
        decide (toLex (cursor.seriesId, cursor.timeNanos.toInt) < row.instant) :=
      funext (isAfter_some cursor)
    rw [same]
    exact upward_after _
  | none =>
    intro row other below isAhead
    have started : move.region.start ≤ row.seriesId := of_decide_eq_true isAhead
    apply decide_eq_true
    rw [FactTableRow.instant, FactTableRow.instant, Prod.Lex.toLex_le_toLex] at below
    rcases below with further | ⟨same, -⟩
    · exact started.trans further.le
    · exact started.trans same.le

theorem insertionSort_sorted :
    (facts.insertionSort fun row other => row.version ≤ other.version).Pairwise
      fun row other => row.instant ≤ other.instant := by
  refine (pairwise_insertionSort (fun row other : FactTableRow =>
    row.version ≤ other.version) facts).imp fun {row other} below => ?_
  rw [FactTableRow.version, FactTableRow.version, Prod.Lex.toLex_le_toLex] at below
  rcases below with further | ⟨same, -⟩
  · exact further.le
  · exact same.le

theorem rowsAhead_eq_page_append {last : FactTableRow}
    (isLast : (pageWithTies FactTableRow.instant maxPoints
      (move.rowsAhead after facts)).getLast? = some last) :
    move.rowsAhead after facts =
      pageWithTies FactTableRow.instant maxPoints (move.rowsAhead after facts) ++
        move.rowsAhead (some last.cursor) facts := by
  have split : ∀ after, move.rowsAhead after facts =
      ((facts.insertionSort fun row other => row.version ≤ other.version).filter
        move.belowEnd).filter (move.isAfter after) := fun after => by
    rw [filter_filter, rowsAhead]
  have last_isAfter : move.isAfter (some last.cursor) =
      fun row => decide (last.instant < row.instant) := funext (isAfter_some last.cursor)
  rw [split] at isLast
  rw [split, split, last_isAfter]
  exact filter_eq_page_append (insertionSort_sorted.filter _) isAfter_upward isLast

theorem mapM_exportRow {rows : List FactTableRow} {points : List (Option Point)}
    (exported : rows.mapM (move.exportRow schema) = .ok points) :
    points = rows.map (move.exportPoint schema) := by
  induction rows generalizing points with
  | nil =>
    cases exported
    rfl
  | cons row rows ih =>
    rw [mapM_cons] at exported
    obtain ⟨point, isPoint, exported⟩ := exists_of_bind_eq_ok exported
    obtain ⟨later, isLater, isPoints⟩ := exists_of_bind_eq_ok exported
    cases isPoints
    rw [ih isLater]
    unfold exportRow at isPoint
    split at isPoint
    · cases isPoint
      rfl
    · cases isPoint

variable (move) in
def tableAhead (schema : MeasurementMeta) (after : Option ExportCursor)
    (facts : List FactTableRow) : List Point :=
  (move.rowsAhead after facts).filterMap (move.exportPoint schema)

structure ChunkOf (move : RegionMove) (schema : MeasurementMeta) (after : Option ExportCursor)
    (maxPoints : Nat) (facts : List FactTableRow) (chunk : ExportChunk)
    (page : List FactTableRow) : Prop where
  isPage : pageWithTies FactTableRow.instant maxPoints (move.rowsAhead after facts) = page
  points : chunk.points = page.filterMap (move.exportPoint schema)
  rows : chunk.rows = page.length
  next : chunk.next = page.getLast?.map FactTableRow.cursor

theorem exists_chunkOf (known : move.metadata = some schema) {chunk : ExportChunk}
    (exported : move.exportRegionPointsFromChdb after maxPoints facts = .ok chunk) :
    ∃ page, ChunkOf move schema after maxPoints facts chunk page := by
  unfold exportRegionPointsFromChdb at exported
  rw [known] at exported
  generalize isPage : pageWithTies FactTableRow.instant maxPoints
    (move.rowsAhead after facts) = page at exported
  obtain ⟨points, mapped, ⟨⟩⟩ := exists_of_bind_eq_ok exported
  refine ⟨page, isPage, ?_, rfl, rfl⟩
  change points.reduceOption = _
  rw [mapM_exportRow mapped, List.reduceOption, filterMap_map]
  rfl

namespace ChunkOf

variable {chunk : ExportChunk} {page : List FactTableRow}
  (chunkOf : ChunkOf move schema after maxPoints facts chunk page)

include chunkOf

theorem rowsAhead_eq_nil (positive : 0 < maxPoints) (none : chunk.rows = 0) :
    move.rowsAhead after facts = [] := by
  have isEmpty : page = [] := length_eq_zero_iff.mp (chunkOf.rows ▸ none)
  exact (pageWithTies_eq_nil_iff positive).mp (chunkOf.isPage.trans isEmpty)

theorem rowsAhead_eq_page (short : chunk.rows < maxPoints) : move.rowsAhead after facts = page := by
  rw [← chunkOf.isPage]
  refine (pageWithTies_eq_of_length_lt ?_).symm
  rw [chunkOf.isPage, ← chunkOf.rows]
  exact short

theorem rowsAhead_eq_append (some : chunk.rows ≠ 0) :
    move.rowsAhead after facts = page ++ move.rowsAhead chunk.next facts := by
  cases isLast : page.getLast? with
  | none =>
    rw [getLast?_eq_none_iff] at isLast
    simp [chunkOf.rows, isLast] at some
  | some last =>
    rw [chunkOf.next, isLast]
    have isPage := chunkOf.isPage
    rw [← isPage] at isLast
    conv_lhs => rw [rowsAhead_eq_page_append isLast, isPage]
    rfl

theorem tableAhead_eq (some : chunk.rows ≠ 0) :
    move.tableAhead schema after facts = chunk.points ++
      if chunk.rows < maxPoints then [] else move.tableAhead schema chunk.next facts := by
  rw [tableAhead, chunkOf.points]
  split
  next short => rw [chunkOf.rowsAhead_eq_page short, append_nil]
  next => rw [chunkOf.rowsAhead_eq_append some, filterMap_append, tableAhead]

theorem mem_points_or_ahead (some : chunk.rows ≠ 0) {point : Point}
    (isAhead : row ∈ move.rowsAhead after facts)
    (exported : move.exportPoint schema row = .some point) :
    point ∈ chunk.points ∨
      decide (chunk.rows < maxPoints) = false ∧ row ∈ move.rowsAhead chunk.next facts := by
  have inPage : row ∈ page → point ∈ chunk.points := by
    intro inPage
    rw [chunkOf.points]
    exact mem_filterMap.mpr ⟨row, inPage, exported⟩
  by_cases short : chunk.rows < maxPoints
  · exact Or.inl (inPage (chunkOf.rowsAhead_eq_page short ▸ isAhead))
  · rw [chunkOf.rowsAhead_eq_append some] at isAhead
    exact (mem_append.mp isAhead).imp inPage fun further => ⟨decide_eq_false short, further⟩

end ChunkOf

end Chunks

end RegionMove

end HyperbyteDb
