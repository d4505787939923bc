import HyperbyteDb.RegionExport

/-!
# Moving a region

The source of a region pushes its rows to another node: first those that are only in its log,
then those of its fact table.
-/

namespace HyperbyteDb

open List OrderedRows RegionMove

structure SourceView (ρ : Type) where
  wal : Rows Nat (WalRow ρ)
  flushedThrough : Nat
  facts : List FactTableRow

/-- The destination's answer to a push.  It answers with the number of the points that it
applied. -/
inductive PushAnswer where
  | applied (points : List Point)
  | rejected (status : Nat) (reason : String)
  | unreachable (reason : String)

inductive MovePhase where
  | starting
  /-- A chunk is read from the log, from `cursor` on; it is read up to `next`. -/
  | walReading (cursor next : WalExportCursor) (buffer : List Point)
  | walPushing (cursor next : WalExportCursor) (buffer : List Point)
  | exporting (after : Option ExportCursor)
  | chdbPushing (after : Option ExportCursor) (chunk : ExportChunk)
  | returned (result : Except MoveError Unit)
deriving DecidableEq

def MovePhase.pushed : MovePhase → Option (List Point)
  | .walPushing _ _ buffer => some buffer
  | .chdbPushing _ chunk => some chunk.points
  | _ => none

structure MoveState where
  maxPoints : Nat := 0
  phase : MovePhase := .starting
  exported : Nat := 0
  applied : Nat := 0
  /-- What was sent and what was applied of it, for each push that was counted. -/
  pushes : List (List Point × List Point) := []
deriving DecidableEq

inductive MoveEvent where
  | start
  | readPage
  | readChunk
  /-- The push ends.  The next chunk of the table is read while the push is on its way. -/
  | push (answer : PushAnswer)
  | fail (error : MoveError)

namespace MoveState

variable (state : MoveState)

def fails (error : MoveError) : MoveState :=
  { state with phase := .returned (.error error) }

def record (sent applied : List Point) : MoveState :=
  { state with
    exported := state.exported + sent.length
    applied := state.applied + applied.length
    pushes := state.pushes ++ [(sent, applied)] }

def sent : List Point := state.pushes.flatMap Prod.fst

def landed : List Point := state.pushes.flatMap Prod.snd

end MoveState

variable {ρ : Type}

namespace RegionMove

variable (move : RegionMove)

def transferChunkPoints : Nat := 50000

def minTransferChunkPoints : Nat := 100

def smallerChunksAfter (maxPoints : Nat) : PushAnswer → Option Nat
  | .rejected 413 _ =>
    if minTransferChunkPoints < maxPoints then some (max (maxPoints / 2) minTransferChunkPoints)
    else none
  | _ => none

variable (state : MoveState)

def finish : MoveState :=
  if state.applied = state.exported then { state with phase := .returned (.ok ()) }
  else state.fails (.other (.shardMap
    s!"verified handoff mismatch for {move.key.db}.{move.key.rp} {move.key.measurement}: exported {state.exported} points, destination applied {state.applied}"))

/-- A chunk of the log is done with; without progress the log is exhausted. -/
def walDone (cursor next : WalExportCursor) : MoveState :=
  if next = cursor then
    if move.queryPort then { state with phase := .exporting none } else move.finish state
  else { state with phase := .walReading next next [] }

def walChunk (cursor next : WalExportCursor) (buffer : List Point) : MoveState :=
  if buffer.isEmpty then move.walDone state cursor next
  else
    match encodePointsToLineProtocol move.wire.numberToLpFloat .nanosecond buffer with
    | .error error => state.fails (.other error)
    | .ok _ => { state with phase := .walPushing cursor next buffer }

def startStep (view : SourceView ρ) (state : MoveState) : MoveState :=
  if move.destPrimary = move.sourceNodeId then { state with phase := .returned (.ok ()) }
  else
    let fromSeq :=
      if move.queryPort ∧ 0 < view.flushedThrough then view.flushedThrough + 1 else 0
    { state with
      maxPoints := min (max move.maxPoints 1) transferChunkPoints
      phase := .walReading ⟨fromSeq, 0⟩ ⟨fromSeq, 0⟩ [] }

def pageStep (view : SourceView ρ) (state : MoveState)
    (cursor next : WalExportCursor) (buffer : List Point) : MoveState :=
  let page := readRange view.wal next.fromSeq walExportPageEntries
  if page.isEmpty then move.walChunk state cursor next buffer
  else
    let out := move.takePage (max state.maxPoints 1) page next buffer
    if out.2.2 then move.walChunk state cursor out.2.1 out.1
    else if out.2.1 = next then
      state.fails (.other (.shardMap "wal export made no progress"))
    else { state with phase := .walReading cursor out.2.1 out.1 }

def chunkStep (after : Option ExportCursor) (exported : Except MoveError ExportChunk) : MoveState :=
  match exported with
  | .error error => state.fails error
  | .ok chunk =>
    if chunk.rows = 0 then move.finish state
    else if chunk.points.isEmpty then
      if chunk.rows < state.maxPoints then move.finish state
      else { state with phase := .exporting chunk.next }
    else { state with phase := .chdbPushing after chunk }

def pushStep (points : List Point) (retry : MovePhase) (accepted : MoveState → MoveState)
    (answer : PushAnswer) : MoveState :=
  match smallerChunksAfter state.maxPoints answer with
  | some smaller => { state with maxPoints := smaller, phase := retry }
  | none =>
    match answer with
    | .applied applied => accepted (state.record points applied)
    | .rejected status reason => state.fails (.transferRejected status reason)
    | .unreachable reason => state.fails (.other (.peerUnreachable reason))

/-- The next chunk of the table follows, unless the last one was not full. -/
def chdbAccepted (view : SourceView ρ) (chunk : ExportChunk) (state : MoveState) :
    MoveState :=
  if chunk.rows < state.maxPoints then move.finish state
  else move.chunkStep state chunk.next
    (move.exportRegionPointsFromChdb chunk.next state.maxPoints view.facts)

def step (view : SourceView ρ) (state : MoveState) (event : MoveEvent) : MoveState :=
  match state.phase, event with
  | .starting, .start => move.startStep view state
  | .walReading cursor next buffer, .readPage => move.pageStep view state cursor next buffer
  | .walPushing cursor next buffer, .push answer =>
    pushStep state buffer (.walReading cursor cursor [])
      (fun state => move.walDone state cursor next) answer
  | .exporting after, .readChunk =>
    move.chunkStep state after (move.exportRegionPointsFromChdb after state.maxPoints view.facts)
  | .chdbPushing after chunk, .push answer =>
    pushStep state chunk.points (.exporting after) (move.chdbAccepted view chunk) answer
  | .starting, .fail error | .walReading .., .fail error | .exporting _, .fail error
  | .chdbPushing .., .fail error => state.fails error
  | _, _ => state

end RegionMove

/-! ## Accounts

An account says what is to be true of the pushes made so far at each place that the
transfer can be at.  If it is kept by the reads and pushes, it is kept by the transfer. -/

abbrev Pushes := List (List Point × List Point)

structure MoveAccount where
  initial : Prop
  /-- All before the cursor of the log is dealt with. -/
  wal : Pushes → WalExportCursor → Prop
  /-- All before the cursor is dealt with or in the buffer. -/
  walChunk : Pushes → WalExportCursor → List Point → Prop
  /-- The log, and all before the cursor of the table, is dealt with. -/
  table : Pushes → Option ExportCursor → Prop
  /-- The same, with the points of the chunk at hand; the flag marks the last chunk. -/
  tableChunk : Pushes → ExportChunk → Bool → Prop
  finished : Pushes → Prop

variable {event : MoveEvent} {maxPoints : Nat} {answer : PushAnswer} {applied points : List Point}
  {retry : MovePhase} {accepted : MoveState → MoveState}

variable {view : SourceView ρ} {answers : List Point → List Point → Prop}

namespace MoveAccount

/-- The account is right at the place where the transfer is. -/
def Holds (account : MoveAccount) (state : MoveState) : Prop :=
  match state.phase with
  | .starting => account.initial ∧ state.pushes = []
  | .walReading cursor next buffer =>
    0 < state.maxPoints ∧ account.wal state.pushes cursor ∧
      account.walChunk state.pushes next buffer ∧
      (next = cursor ∧ buffer = [] ∨ cursor.Before next)
  | .walPushing cursor next buffer =>
    0 < state.maxPoints ∧ account.wal state.pushes cursor ∧
      account.walChunk state.pushes next buffer ∧ cursor.Before next
  | .exporting after => 0 < state.maxPoints ∧ account.table state.pushes after
  | .chdbPushing after chunk =>
    0 < state.maxPoints ∧ account.table state.pushes after ∧
      account.tableChunk state.pushes chunk (chunk.rows < state.maxPoints)
  | .returned (.ok _) => account.finished state.pushes
  | .returned (.error _) => True

structure KeptBy (account : MoveAccount) (move : RegionMove) (view : SourceView ρ)
    (answers : List Point → List Point → Prop) : Prop where
  starts : account.initial → account.wal []
    ⟨if move.queryPort ∧ 0 < view.flushedThrough then view.flushedThrough + 1 else 0, 0⟩
  walStarts : ∀ {pushes cursor}, account.wal pushes cursor → account.walChunk pushes cursor []
  page : ∀ {pushes next buffer} (maxPoints : Nat) {page : List (Nat × WalRow ρ)},
    account.walChunk pushes next buffer →
    readRange view.wal next.fromSeq walExportPageEntries = page → page ≠ [] →
    account.walChunk pushes (move.takePage maxPoints page next buffer).2.1
      (move.takePage maxPoints page next buffer).1
  walPushed : ∀ {pushes next buffer applied}, account.walChunk pushes next buffer →
    answers buffer applied → account.wal (pushes ++ [(buffer, applied)]) next
  walPassed : ∀ {pushes next}, account.walChunk pushes next [] → account.wal pushes next
  walEnds : ∀ {pushes next}, account.wal pushes next →
    readRange view.wal next.fromSeq walExportPageEntries = [] →
    account.table pushes none
  chunk : ∀ {pushes after maxPoints chunk}, 0 < maxPoints → account.table pushes after →
    move.exportRegionPointsFromChdb after maxPoints view.facts = .ok chunk → chunk.rows ≠ 0 →
    account.tableChunk pushes chunk (chunk.rows < maxPoints)
  tableEnds : ∀ {pushes after maxPoints chunk}, 0 < maxPoints → account.table pushes after →
    move.exportRegionPointsFromChdb after maxPoints view.facts = .ok chunk → chunk.rows = 0 →
    account.finished pushes
  chunkPassed : ∀ {pushes} {chunk : ExportChunk} {isLast}, chunk.points = [] →
    account.tableChunk pushes chunk isLast →
    if isLast then account.finished pushes else account.table pushes chunk.next
  chunkPushed : ∀ {pushes chunk isLast applied}, account.tableChunk pushes chunk isLast →
    answers chunk.points applied →
    if isLast then account.finished (pushes ++ [(chunk.points, applied)])
    else account.table (pushes ++ [(chunk.points, applied)]) chunk.next

def Answered (answers : List Point → List Point → Prop) (state : MoveState) : MoveEvent → Prop
  | .push (.applied applied) => ∀ sent ∈ state.phase.pushed, answers sent applied
  | _ => True

instance (answers : List Point → List Point → Prop)
    [∀ sent applied, Decidable (answers sent applied)] (state : MoveState) (event : MoveEvent) :
    Decidable (Answered answers state event) :=
  match event with
  | .push (.applied applied) =>
    inferInstanceAs (Decidable (∀ sent ∈ state.phase.pushed, answers sent applied))
  | .start | .readPage | .readChunk | .fail _ | .push (.rejected ..) | .push (.unreachable _) =>
    .isTrue trivial

variable {account : MoveAccount} {move : RegionMove} {state : MoveState}

theorem Answered.mono {others : List Point → List Point → Prop}
    (weaker : ∀ sent applied, answers sent applied → others sent applied)
    (answered : Answered answers state event) : Answered others state event := by
  unfold Answered at answered ⊢
  split at answered
  · exact fun sent pushed => weaker _ _ (answered sent pushed)
  · trivial

theorem Holds.fails (state : MoveState) (error : MoveError) :
    account.Holds (state.fails error) := trivial

theorem Holds.finish (finished : account.finished state.pushes) :
    account.Holds (move.finish state) := by
  unfold RegionMove.finish
  split
  · exact finished
  · exact Holds.fails ..

theorem smallerChunksAfter_pos {smaller : Nat}
    (isSmaller : smallerChunksAfter maxPoints answer = some smaller) : 0 < smaller := by
  revert isSmaller
  fun_cases smallerChunksAfter <;> rintro ⟨⟩
  exact Nat.lt_of_lt_of_le (by decide) (Nat.le_max_right _ _)

section Steps

variable (kept : account.KeptBy move view answers) (queries : move.queryPort = true)

include kept queries

variable {state : MoveState} {cursor next : WalExportCursor}

theorem KeptBy.walDone (positive : 0 < state.maxPoints) (passed : account.wal state.pushes next)
    (ended : next = cursor → account.table state.pushes none) :
    account.Holds (move.walDone state cursor next) := by
  unfold RegionMove.walDone
  split
  next exhausted => exact ⟨positive, ended exhausted⟩
  next => exact ⟨positive, passed, kept.walStarts passed, Or.inl ⟨rfl, rfl⟩⟩

variable {buffer : List Point}

theorem KeptBy.walChunkRead (positive : 0 < state.maxPoints)
    (atCursor : account.wal state.pushes cursor)
    (isRead : account.walChunk state.pushes next buffer)
    (moved : (next = cursor ∧ buffer = [] ∧ account.table state.pushes none) ∨ cursor.Before next) :
    account.Holds (move.walChunk state cursor next buffer) := by
  unfold RegionMove.walChunk
  split
  next isEmpty =>
    rw [isEmpty_iff.mp isEmpty] at isRead
    refine kept.walDone queries positive (kept.walPassed isRead) fun same => ?_
    rcases moved with ⟨-, -, ended⟩ | before
    · exact ended
    · subst same
      exact absurd before (by simp [WalExportCursor.Before])
  next nonempty =>
    split
    · exact Holds.fails ..
    · refine ⟨positive, atCursor, isRead, moved.resolve_left ?_⟩
      rintro ⟨-, isEmpty, -⟩
      exact nonempty (by simp [isEmpty])

theorem KeptBy.pageStep (holds : account.Holds state)
    (reading : state.phase = .walReading cursor next buffer) :
    account.Holds (move.pageStep view state cursor next buffer) := by
  simp only [Holds, reading] at holds
  obtain ⟨positive, atCursor, isRead, moved⟩ := holds
  unfold RegionMove.pageStep
  generalize isPage : readRange view.wal next.fromSeq walExportPageEntries = page
  dsimp only
  split
  next isEmpty =>
    rw [isEmpty_iff.mp isEmpty] at isPage
    refine kept.walChunkRead queries positive atCursor isRead (moved.imp_left ?_)
    rintro ⟨rfl, noPoint⟩
    exact ⟨rfl, noPoint, kept.walEnds atCursor isPage⟩
  next nonempty =>
    have someEntry : page ≠ [] := fun isEmpty => nonempty (by simp [isEmpty])
    have further : next.Before (move.takePage (max state.maxPoints 1) page next buffer).2.1 :=
      (takePage_readRange isPage someEntry buffer).2.1
    have before : cursor.Before
        (move.takePage (max state.maxPoints 1) page next buffer).2.1 := by
      rcases moved with ⟨rfl, -⟩ | before
      · exact further
      · exact before.trans further
    have isReadOn := kept.page (max state.maxPoints 1) isRead isPage someEntry
    split
    next => exact kept.walChunkRead queries positive atCursor isReadOn (Or.inr before)
    next =>
      split
      next => exact Holds.fails ..
      next => exact ⟨positive, atCursor, isReadOn, Or.inr before⟩

omit queries in
theorem KeptBy.chunkStep {after : Option ExportCursor} (positive : 0 < state.maxPoints)
    (atCursor : account.table state.pushes after) :
    account.Holds (move.chunkStep state after
      (move.exportRegionPointsFromChdb after state.maxPoints view.facts)) := by
  generalize exported : move.exportRegionPointsFromChdb after state.maxPoints view.facts = outcome
  fun_cases chunkStep with
  | case1 => exact Holds.fails ..
  | case2 chunk none => exact Holds.finish (kept.tableEnds positive atCursor exported none)
  | case3 chunk some isEmpty short =>
    have passed := kept.chunkPassed (isEmpty_iff.mp isEmpty)
      (kept.chunk positive atCursor exported some)
    rw [decide_eq_true short, if_pos rfl] at passed
    exact Holds.finish passed
  | case4 chunk some isEmpty full =>
    have passed := kept.chunkPassed (isEmpty_iff.mp isEmpty)
      (kept.chunk positive atCursor exported some)
    rw [decide_eq_false full, if_neg Bool.false_ne_true] at passed
    exact ⟨positive, passed⟩
  | case5 chunk some =>
    exact ⟨positive, atCursor, kept.chunk positive atCursor exported some⟩

omit queries in
theorem KeptBy.chdbAccepted {chunk : ExportChunk}
    (positive : 0 < state.maxPoints)
    (isRead : account.tableChunk state.pushes chunk (chunk.rows < state.maxPoints))
    (answered : answers chunk.points applied) :
    account.Holds (move.chdbAccepted view chunk (state.record chunk.points applied)) := by
  have pushed := kept.chunkPushed isRead answered
  have stillPositive : 0 < (state.record chunk.points applied).maxPoints := positive
  unfold RegionMove.chdbAccepted
  by_cases short : chunk.rows < state.maxPoints
  · rw [decide_eq_true short, if_pos rfl] at pushed
    rw [if_pos (show chunk.rows < (state.record chunk.points applied).maxPoints from short)]
    exact Holds.finish pushed
  · rw [decide_eq_false short, if_neg Bool.false_ne_true] at pushed
    rw [if_neg (show ¬chunk.rows < (state.record chunk.points applied).maxPoints from short)]
    exact kept.chunkStep stillPositive pushed

omit kept queries in
theorem Holds.pushStep (retries : ∀ smaller, 0 < smaller →
      account.Holds { state with maxPoints := smaller, phase := retry })
    (accepts : ∀ applied, answer = .applied applied →
      account.Holds (accepted (state.record points applied))) :
    account.Holds (pushStep state points retry accepted answer) := by
  fun_cases pushStep with
  | case1 answer smaller isSmaller => exact retries smaller (smallerChunksAfter_pos isSmaller)
  | case2 applied => exact accepts applied rfl
  | case3 | case4 => exact Holds.fails ..

theorem KeptBy.step (moves : move.destPrimary ≠ move.sourceNodeId) (holds : account.Holds state)
    (answered : Answered answers state event) :
    account.Holds (move.step view state event) := by
  unfold RegionMove.step
  split
  next isStarting =>
    simp only [Holds, isStarting] at holds
    rw [startStep, if_neg moves]
    have started := kept.starts holds.1
    rw [← holds.2] at started
    refine ⟨?_, started, kept.walStarts started, Or.inl ⟨rfl, rfl⟩⟩
    exact Nat.lt_min.mpr ⟨Nat.lt_of_lt_of_le one_pos (Nat.le_max_right _ _), by decide⟩
  next cursor next buffer reading => exact kept.pageStep queries holds reading
  next cursor next buffer answer pushing =>
    simp only [Holds, pushing] at holds
    obtain ⟨positive, atCursor, isRead, before⟩ := holds
    apply Holds.pushStep
    · exact fun smaller smallerPos =>
        ⟨smallerPos, atCursor, kept.walStarts atCursor, Or.inl ⟨rfl, rfl⟩⟩
    · rintro applied rfl
      have answered := answered buffer (by simp [pushing, MovePhase.pushed])
      refine kept.walDone queries positive (kept.walPushed isRead answered) fun same => ?_
      subst same
      exact absurd before (by simp [WalExportCursor.Before])
  next after exporting =>
    simp only [Holds, exporting] at holds
    exact kept.chunkStep holds.1 holds.2
  next after chunk answer pushing =>
    simp only [Holds, pushing] at holds
    obtain ⟨positive, atCursor, isRead⟩ := holds
    apply Holds.pushStep
    · exact fun smaller smallerPos => ⟨smallerPos, atCursor⟩
    · rintro applied rfl
      have answered := answered chunk.points (by simp [pushing, MovePhase.pushed])
      exact kept.chdbAccepted positive isRead answered
  all_goals first | exact Holds.fails .. | exact holds

end Steps

/-- Everything that the account asks for, the other one asks for. -/
structure Implies (account other : MoveAccount) : Prop where
  initial : account.initial → other.initial
  wal : ∀ {pushes cursor}, account.wal pushes cursor → other.wal pushes cursor
  walChunk : ∀ {pushes next buffer}, account.walChunk pushes next buffer →
    other.walChunk pushes next buffer
  table : ∀ {pushes after}, account.table pushes after → other.table pushes after
  tableChunk : ∀ {pushes chunk isLast}, account.tableChunk pushes chunk isLast →
    other.tableChunk pushes chunk isLast
  finished : ∀ {pushes}, account.finished pushes → other.finished pushes

theorem Holds.mono {other : MoveAccount} (implies : account.Implies other)
    (holds : account.Holds state) : other.Holds state := by
  unfold Holds at holds ⊢
  split at holds
  · exact holds.imp_left implies.initial
  · exact ⟨holds.1, implies.wal holds.2.1, implies.walChunk holds.2.2.1, holds.2.2.2⟩
  · exact ⟨holds.1, implies.wal holds.2.1, implies.walChunk holds.2.2.1, holds.2.2.2⟩
  · exact ⟨holds.1, implies.table holds.2⟩
  · exact ⟨holds.1, implies.table holds.2.1, implies.tableChunk holds.2.2⟩
  · exact implies.finished holds
  · trivial

theorem Holds.initial (holds : account.initial) : account.Holds {} := ⟨holds, rfl⟩

theorem Holds.finished (holds : account.Holds state)
    (succeeded : state.phase = .returned (.ok ())) : account.finished state.pushes := by
  simpa only [Holds, succeeded] using holds

end MoveAccount

/-! ## What arrives

The destination reads the lines of a push.  It applies the points of the range that it was
sent for, and answers with their number. -/

def ValueWire.carryPoint (wire : ValueWire) (point : Point) : Option Point :=
  if point.fields.isEmpty then none
  else (wire.carryFields point.fields).map fun fields =>
    { point with tags := point.tags.filter fun _ value => value ≠ "", fields }

namespace RegionMove

variable (move : RegionMove)

/-- What the destination applies of a push, if it can read it. -/
def applyTransferPush (sent : List Point) : Option (List Point) :=
  (sent.mapM move.wire.carryPoint).map
    (·.filter fun point => move.region.contains (move.seriesIdForPoint point))

def Applies (sent applied : List Point) : Prop :=
  ∃ arrived, sent.mapM move.wire.carryPoint = some arrived ∧ applied.Sublist arrived

theorem applies_of_applyTransferPush {sent : List Point}
    (pushed : move.applyTransferPush sent = some applied) : move.Applies sent applied := by
  obtain ⟨arrived, carried, rfl⟩ := Option.map_eq_some_iff.mp pushed
  exact ⟨arrived, carried, filter_sublist⟩

end RegionMove

/-- The counters count what was pushed, and a transfer that succeeds has equal counters. -/
structure MoveState.Tallied (answers : List Point → List Point → Prop) (state : MoveState) :
    Prop where
  exported : state.exported = state.sent.length
  applied : state.applied = state.landed.length
  answered : ∀ push ∈ state.pushes, answers push.1 push.2
  verified : state.phase = .returned (.ok ()) → state.applied = state.exported

namespace MoveState.Tallied

variable {move : RegionMove} {state : MoveState}

theorem initial : Tallied answers {} :=
  ⟨rfl, rfl, by simp, by simp⟩

variable (tallied : state.Tallied answers)
include tallied

theorem to_phase {phase : MovePhase}
    (running : phase ≠ .returned (.ok ()) := by simp) :
    Tallied answers { state with maxPoints, phase } :=
  ⟨tallied.exported, tallied.applied, tallied.answered, fun isReturned =>
    absurd isReturned running⟩

theorem fails (error : MoveError) : (state.fails error).Tallied answers :=
  tallied.to_phase

theorem finish : (move.finish state).Tallied answers := by
  unfold RegionMove.finish
  split
  next same => exact ⟨tallied.exported, tallied.applied, tallied.answered, fun _ => same⟩
  next => exact tallied.fails _

theorem record (running : state.phase ≠ .returned (.ok ())) {sent : List Point}
    (answered : answers sent applied) : (state.record sent applied).Tallied answers := by
  refine ⟨?_, ?_, ?_, fun isReturned => absurd isReturned running⟩
  · simp [MoveState.record, MoveState.sent, tallied.exported]
  · simp [MoveState.record, MoveState.landed, tallied.applied]
  · intro push member
    rcases mem_append.mp member with earlier | isNew
    · exact tallied.answered push earlier
    · obtain rfl := mem_singleton.mp isNew
      exact answered

variable (cursor next : WalExportCursor)

theorem walDone : (move.walDone state cursor next).Tallied answers := by
  fun_cases walDone
  · exact tallied.to_phase
  · exact tallied.finish
  · exact tallied.to_phase

theorem walChunk (buffer : List Point) :
    (move.walChunk state cursor next buffer).Tallied answers := by
  fun_cases walChunk
  · exact tallied.walDone cursor next
  · exact tallied.fails _
  · exact tallied.to_phase

theorem pageStep (buffer : List Point) :
    (move.pageStep view state cursor next buffer).Tallied answers := by
  fun_cases pageStep
  · exact tallied.walChunk cursor next buffer
  · exact tallied.walChunk cursor _ _
  · exact tallied.fails _
  · exact tallied.to_phase

theorem chunkStep (after : Option ExportCursor) (exported : Except MoveError ExportChunk) :
    (move.chunkStep state after exported).Tallied answers := by
  fun_cases chunkStep
  · exact tallied.fails _
  · exact tallied.finish
  · exact tallied.finish
  · exact tallied.to_phase
  · exact tallied.to_phase

theorem pushStep (running : state.phase ≠ .returned (.ok ())) (retries : retry ≠ .returned (.ok ()))
    (answered : ∀ applied, answer = .applied applied → answers points applied)
    (accepts : ∀ state : MoveState, state.Tallied answers → (accepted state).Tallied answers) :
    (pushStep state points retry accepted answer).Tallied answers := by
  fun_cases pushStep with
  | case1 => exact tallied.to_phase retries
  | case2 applied => exact accepts _ (tallied.record running (answered applied rfl))
  | case3 | case4 => exact tallied.fails _

theorem step (moves : move.destPrimary ≠ move.sourceNodeId)
    (answered : MoveAccount.Answered answers state event) :
    (move.step view state event).Tallied answers := by
  unfold RegionMove.step
  split
  next =>
    rw [startStep, if_neg moves]
    exact tallied.to_phase
  next cursor next buffer reading => exact tallied.pageStep cursor next buffer
  next cursor next buffer answer pushing =>
    refine tallied.pushStep (by simp [pushing]) (by simp) ?_
      fun state tallied => tallied.walDone cursor next
    rintro applied rfl
    exact answered buffer (by simp [pushing, MovePhase.pushed])
  next after exporting => exact tallied.chunkStep after _
  next after chunk answer pushing =>
    refine tallied.pushStep (by simp [pushing]) (by simp) ?_ fun state tallied => ?_
    · rintro applied rfl
      exact answered chunk.points (by simp [pushing, MovePhase.pushed])
    · unfold chdbAccepted
      split
      · exact tallied.finish
      · exact tallied.chunkStep _ _
  all_goals first | exact tallied.fails _ | exact tallied

end MoveState.Tallied

/-- Parts that are no longer than their wholes, and as long in total, are each as long. -/
theorem length_eq_of_flatMap_length_eq {α β : Type} {pairs : List (List α × List β)}
    (within : ∀ pair ∈ pairs, pair.2.length ≤ pair.1.length)
    (total : (pairs.flatMap Prod.snd).length = (pairs.flatMap Prod.fst).length) :
    ∀ pair ∈ pairs, pair.2.length = pair.1.length := by
  induction pairs with
  | nil => simp
  | cons pair pairs ih =>
    have later : (pairs.flatMap Prod.snd).length ≤ (pairs.flatMap Prod.fst).length := by
      clear ih total
      induction pairs with
      | nil => simp
      | cons other pairs ih =>
        have here := within other (by simp)
        have rest := ih fun pair member => within pair (by
          rcases mem_cons.mp member with rfl | member <;> simp [*])
        simp only [flatMap_cons, length_append]
        omega
    have here := within pair (by simp)
    simp only [flatMap_cons, length_append] at total
    intro other member
    rcases mem_cons.mp member with rfl | member
    · omega
    · exact ih (fun pair member => within pair (by simp [member])) (by omega) other member

namespace RegionMove

variable {move : RegionMove}

theorem length_of_mapM_carryPoint {sent arrived : List Point}
    (carried : sent.mapM move.wire.carryPoint = some arrived) : arrived.length = sent.length := by
  induction sent generalizing arrived with
  | nil =>
    cases carried
    rfl
  | cons point sent ih =>
    rw [mapM_cons] at carried
    obtain ⟨first, -, carried⟩ := Option.bind_eq_some_iff.mp carried
    obtain ⟨rest, isRest, isArrived⟩ := Option.bind_eq_some_iff.mp carried
    cases isArrived
    rw [length_cons, length_cons, ih isRest]

theorem arrived_of_verified {state : MoveState} (tallied : state.Tallied move.Applies)
    (succeeded : state.phase = .returned (.ok ())) :
    ∀ push ∈ state.pushes, push.1.mapM move.wire.carryPoint = some push.2 := by
  have within : ∀ push ∈ state.pushes, push.2.length ≤ push.1.length := by
    intro push member
    obtain ⟨arrived, carried, sublist⟩ := tallied.answered push member
    exact length_of_mapM_carryPoint carried ▸ sublist.length_le
  have total : state.landed.length = state.sent.length := by
    rw [← tallied.applied, ← tallied.exported]
    exact tallied.verified succeeded
  intro push member
  obtain ⟨arrived, carried, sublist⟩ := tallied.answered push member
  have full := length_eq_of_flatMap_length_eq within total push member
  rw [sublist.eq_of_length (full.trans (length_of_mapM_carryPoint carried).symm)]
  exact carried

end RegionMove

end HyperbyteDb
