import HyperbyteDb.TransferredValues

/-!
# Dropping a region at its source

After a transfer that returns successfully the source tells the destination, and then deletes
the region's rows if it is asked to.
-/

namespace HyperbyteDb

open GuardedRuns KeysetPages List Option Std

section

variable {ρ : Type}

variable (move : RegionMove)

namespace RegionMove

def isDropped (row : FactTableRow) : Bool :=
  move.region.start ≤ row.seriesId && move.belowEnd row

def dropRegionData (facts : List FactTableRow) : List FactTableRow :=
  facts.filter fun row => !move.isDropped row

end RegionMove

/-- The end of a transfer: its identifier, what telling the destination came to, and whether
the source has tables and is to drop its copy. -/
structure Handover where
  transferId : UInt64
  ack : Except MoveError Unit
  hasSink : Bool
  dropSource : Bool

namespace RegionMove

variable {point : Point} {state : MoveState} {row : FactTableRow}

def completeRegionTransfer (handover : Handover) (facts : List FactTableRow) :
    List FactTableRow × Except MoveError Unit :=
  if move.destPrimary = move.sourceNodeId ∨ handover.transferId = 0 then (facts, .ok ())
  else
    match handover.ack with
    | .error error => (facts, .error error)
    | .ok () =>
      if handover.dropSource && handover.hasSink then (move.dropRegionData facts, .ok ())
      else (facts, .ok ())

def runRegionTransfer (state : MoveState) (handover : Handover) (facts : List FactTableRow) :
    Option (List FactTableRow × Except MoveError Unit) :=
  match state.phase with
  | .returned (.ok ()) => some (move.completeRegionTransfer handover facts)
  | .returned (.error error) => some (facts, .error error)
  | _ => none

def stepAt (state : MoveState) (item : SourceView ρ × MoveEvent) : MoveState :=
  move.step item.1 state item.2

instance (sent applied : List Point) : Decidable (move.Applies sent applied) :=
  decidable_of_iff (∃ arrived ∈ sent.mapM move.wire.carryPoint, applied.Sublist arrived) Iff.rfl

variable {move} {schema : MeasurementMeta}

variable {handover : Handover} {facts left : List FactTableRow} {result : Except MoveError Unit}

/-- Rows are deleted only after a successful transfer to another node. -/
theorem dropped_of_runRegionTransfer
    (ran : move.runRegionTransfer state handover facts = some (left, result))
    (present : row ∈ facts) (gone : row ∉ left) :
    state.phase = .returned (.ok ()) ∧ move.destPrimary ≠ move.sourceNodeId ∧
      move.isDropped row = true := by
  revert ran
  fun_cases runRegionTransfer with
  | case1 succeeded =>
    fun_cases completeRegionTransfer with
    | case3 proceeds =>
      rintro ⟨⟩
      refine ⟨succeeded, fun same => proceeds (Or.inl same), ?_⟩
      by_contra kept
      exact gone (mem_filter.mpr ⟨present, by simpa using kept⟩)
    | _ =>
      rintro ⟨⟩
      exact absurd present gone
  | case2 =>
    rintro ⟨⟩
    exact absurd present gone
  | case3 => rintro ⟨⟩

theorem runRegionTransfer_of_failed (failed : state.phase ≠ .returned (.ok ()))
    (ran : move.runRegionTransfer state handover facts = some (left, result)) : left = facts := by
  revert ran
  fun_cases runRegionTransfer with
  | case1 succeeded => exact absurd succeeded failed
  | case2 =>
    rintro ⟨⟩
    rfl
  | case3 => rintro ⟨⟩

/-! ## The tags of an exported row -/

theorem exportTags_ne_empty {seriesId : UInt64} {tag value : String}
    (found : (move.exportTags schema seriesId)[tag]? = some value) : value ≠ "" := by
  -- The fold adds tags with a value only.
  refine foldlRecOn (motive := fun tags => ∀ (tag value : String),
    tags[tag]? = some value → value ≠ "") _ _ (by simp) ?_ tag value found
  intro tags nonempty key _
  split
  next value lookup =>
    split
    next => exact nonempty
    next hasValue =>
      intro other read isRead
      rw [ExtTreeMap.getElem?_insert] at isRead
      split at isRead
      · cases isRead
        exact hasValue
      · exact nonempty other read isRead
  next => exact nonempty

theorem filter_exportTags (seriesId : UInt64) :
    ((move.exportTags schema seriesId).filter fun _ value => value ≠ "") =
      move.exportTags schema seriesId := by
  apply ExtTreeMap.ext_getElem?
  intro tag
  rw [ExtTreeMap.getElem?_filter']
  cases found : (move.exportTags schema seriesId)[tag]? with
  | none => rfl
  | some value => simp [exportTags_ne_empty found]

theorem carryPoint_exportPoint {point carried : Point}
    (hashed : move.seriesId move.key.measurement (move.exportTags schema row.seriesId) =
      row.seriesId) (exported : move.exportPoint schema row = some point)
    (isCarried : move.wire.carryPoint point = some carried) :
    move.seriesIdForPoint carried = row.seriesId ∧ carried.timestamp = row.time := by
  unfold exportPoint at exported
  rw [ite_none_left_eq_some] at exported
  obtain ⟨-, isPoint⟩ := exported
  cases isPoint
  unfold ValueWire.carryPoint at isCarried
  rw [ite_none_left_eq_some] at isCarried
  obtain ⟨fields, -, rfl⟩ := map_eq_some_iff.mp isCarried.2
  refine ⟨?_, rfl⟩
  rw [filter_exportTags]
  exact hashed

theorem exists_carried_of_mapM {sent arrived : List Point}
    (carried : sent.mapM move.wire.carryPoint = some arrived) (member : point ∈ sent) :
    ∃ other ∈ arrived, move.wire.carryPoint point = some other := by
  induction sent generalizing arrived with
  | nil => cases member
  | cons first sent ih =>
    rw [mapM_cons] at carried
    obtain ⟨other, isOther, carried⟩ := bind_eq_some_iff.mp carried
    obtain ⟨rest, isRest, isArrived⟩ := bind_eq_some_iff.mp carried
    cases isArrived
    rcases mem_cons.mp member with rfl | later
    · exact ⟨other, by simp, isOther⟩
    · obtain ⟨found, inRest, isFound⟩ := ih isRest later
      exact ⟨found, by simp [inRest], isFound⟩

/-! ## The account of a row -/

def IsSent (pushes : Pushes) (point : Point) : Prop := ∃ push ∈ pushes, point ∈ push.1

variable (move) in
/-- The point of a row was pushed, or the row is ahead of the cursor. -/
def rowAccount (row : FactTableRow) (point : Point) : MoveAccount where
  initial := True
  wal _ _ := True
  walChunk _ _ _ := True
  table pushes after := IsSent pushes point ∨ move.isAfter after row = true
  tableChunk pushes chunk isLast := IsSent pushes point ∨ point ∈ chunk.points ∨
    isLast = false ∧ move.isAfter chunk.next row = true
  finished pushes := IsSent pushes point

theorem IsSent.append {pushes : Pushes} (isSent : IsSent pushes point)
    (push : List Point × List Point) : IsSent (pushes ++ [push]) point := by
  obtain ⟨earlier, member, inEarlier⟩ := isSent
  exact ⟨earlier, mem_append_left _ member, inEarlier⟩

theorem isSent_append_of_mem {sent applied : List Point} (member : point ∈ sent) (pushes : Pushes)
    : IsSent (pushes ++ [(sent, applied)]) point :=
  ⟨(sent, applied), mem_append_right _ (mem_singleton_self _), member⟩

theorem rowAccount_kept (known : move.metadata = some schema) {view : SourceView ρ}
    (present : row ∈ view.facts)
    (dropped : move.isDropped row = true) (exported : move.exportPoint schema row = some point)
    (answers : List Point → List Point → Prop) :
    (move.rowAccount row point).KeptBy move view answers where
  starts _ := trivial
  walStarts _ := trivial
  page _ _ _ _ _ := trivial
  walPushed _ _ := trivial
  walPassed _ := trivial
  walEnds _ _ := Or.inr (Bool.and_eq_true_iff.mp dropped).1
  chunk := by
    rintro pushes after maxPoints chunk positive (isSent | isAfter) isChunk some
    · exact Or.inl isSent
    · obtain ⟨page, chunkOf⟩ := exists_chunkOf known isChunk
      have isAhead := mem_rowsAhead.mpr ⟨present, isAfter, (Bool.and_eq_true_iff.mp dropped).2⟩
      refine Or.inr ((chunkOf.mem_points_or_ahead some isAhead exported).imp_right ?_)
      exact fun further => ⟨further.1, (mem_rowsAhead.mp further.2).2.1⟩
  tableEnds := by
    rintro pushes after maxPoints chunk positive (isSent | isAfter) isChunk none
    · exact isSent
    · obtain ⟨page, chunkOf⟩ := exists_chunkOf known isChunk
      have isAhead := mem_rowsAhead.mpr ⟨present, isAfter, (Bool.and_eq_true_iff.mp dropped).2⟩
      rw [chunkOf.rowsAhead_eq_nil positive none] at isAhead
      cases isAhead
  chunkPassed := by
    rintro pushes chunk isLast isEmpty (isSent | inChunk | ⟨rfl, isAfter⟩)
    · cases isLast
      · exact Or.inl isSent
      · exact isSent
    · rw [isEmpty] at inChunk
      cases inChunk
    · exact Or.inr isAfter
  chunkPushed := by
    rintro pushes chunk isLast applied (isSent | inChunk | ⟨rfl, isAfter⟩) _
    · cases isLast
      · exact Or.inl (isSent.append _)
      · exact isSent.append _
    · cases isLast
      · exact Or.inl (isSent_append_of_mem inChunk pushes)
      · exact isSent_append_of_mem inChunk pushes
    · exact Or.inr isAfter

/-! ## Runs -/

variable {items : List (SourceView ρ × MoveEvent)}

/-- The transfer has not pushed anything and never will. -/
def Idle (state : MoveState) : Prop :=
  state.pushes = [] ∧ (state.phase = .starting ∨ ∃ result, state.phase = .returned result)

theorem Idle.stepAt (isLocal : move.destPrimary = move.sourceNodeId) (idle : Idle state)
    (item : SourceView ρ × MoveEvent) : Idle (move.stepAt state item) := by
  obtain ⟨view, event⟩ := item
  obtain ⟨maxPoints, phase, exported, applied, pushes⟩ := state
  obtain ⟨none, isStarting | ⟨result, isReturned⟩⟩ := idle
  · subst none isStarting
    cases event <;> simp [Idle, RegionMove.stepAt, step, startStep, isLocal, MoveState.fails]
  · subst none isReturned
    exact ⟨rfl, Or.inr ⟨result, rfl⟩⟩

/-- A transfer to the source itself pushes nothing. -/
theorem pushes_eq_nil_of_local (isLocal : move.destPrimary = move.sourceNodeId) :
    (run move.stepAt {} items).pushes = [] := by
  have initial : Idle {} := ⟨rfl, Or.inl rfl⟩
  exact (run_preserves (fun _ item idle => idle.stepAt isLocal item) initial items).1

theorem tallied_run (moves : move.destPrimary ≠ move.sourceNodeId) (answered : Along move.stepAt
      (fun state item => MoveAccount.Answered move.Applies state item.2) {} items) :
    (run move.stepAt {} items).Tallied move.Applies :=
  run_invariant (fun _ _ tallied answered => tallied.step moves answered) .initial answered

theorem isSent_of_succeeded (known : move.metadata = some schema) (queries : move.queryPort = true)
    (moves : move.destPrimary ≠ move.sourceNodeId) (present : ∀ item ∈ items, row ∈ item.1.facts)
    (dropped : move.isDropped row = true) (exported : move.exportPoint schema row = some point)
    (succeeded : (run move.stepAt {} items).phase = .returned (.ok ())) :
    IsSent (run move.stepAt {} items).pushes point := by
  have holds : (move.rowAccount row point).Holds (run move.stepAt {} items) := by
    refine run_invariant (fun state item holds present => ?_) (.initial trivial)
      (along_const_iff.mpr present)
    refine (rowAccount_kept known present dropped exported fun _ _ => True).step queries moves
      holds ?_
    unfold MoveAccount.Answered
    split <;> simp
  exact holds.finished succeeded

variable (move) in
/-- Whatever the destination applies of what it is sent: a row with a field that the source
held throughout the transfer and deletes was applied under its series and time, and a push
that was not applied in full leaves the source as it was. -/
theorem dropped_rows_applied (known : move.metadata = some schema)
    (queries : move.queryPort = true) (items : List (SourceView ρ × MoveEvent))
    (answered : Along move.stepAt
      (fun state item => MoveAccount.Answered move.Applies state item.2) {} items)
    (handover : Handover) (facts left : List FactTableRow) (result : Except MoveError Unit)
    (ran : move.runRegionTransfer (run move.stepAt {} items) handover facts = some (left, result)) :
    let state := run move.stepAt {} items
    (∀ row ∈ facts, row ∉ left → (∀ item ∈ items, row ∈ item.1.facts) →
      (move.exportPoint schema row).isSome →
      move.seriesId move.key.measurement (move.exportTags schema row.seriesId) = row.seriesId →
      ∃ applied ∈ state.landed, move.seriesIdForPoint applied = row.seriesId ∧
        applied.timestamp = row.time) ∧ ((∃ push ∈ state.pushes, push.2.length < push.1.length) →
      state.phase ≠ .returned (.ok ()) ∧ left = facts) := by
  intro state
  constructor
  · intro row inFacts gone present isExported hashed
    obtain ⟨succeeded, moves, dropped⟩ := dropped_of_runRegionTransfer ran inFacts gone
    obtain ⟨point, exported⟩ := isSome_iff_exists.mp isExported
    obtain ⟨push, member, isSent⟩ :=
      isSent_of_succeeded known queries moves present dropped exported succeeded
    have arrived := arrived_of_verified (tallied_run moves answered) succeeded push member
    obtain ⟨applied, inPush, carried⟩ := exists_carried_of_mapM arrived isSent
    exact ⟨applied, mem_flatMap.mpr ⟨push, member, inPush⟩,
      carryPoint_exportPoint hashed exported carried⟩
  · rintro ⟨push, member, short⟩
    have failed : state.phase ≠ .returned (.ok ()) := by
      intro succeeded
      by_cases moves : move.destPrimary = move.sourceNodeId
      · rw [show state.pushes = [] from pushes_eq_nil_of_local moves] at member
        cases member
      · have arrived := arrived_of_verified (tallied_run moves answered) succeeded push member
        exact short.ne (length_of_mapM_carryPoint arrived)
    exact ⟨failed, runRegionTransfer_of_failed failed ran⟩

end RegionMove

def sampleFactRow (value : Option Int64) : FactTableRow :=
  sampleMove.factRow sampleSchema
    ⟨sampleMove.key,
      { sampleFactPoint "usage" 1 3 with
        fields := (value.map fun value =>
          (∅ : ExtTreeMap String FieldValue).insert "usage" (.integer value)).getD ∅ }, 1⟩

/-- The table is read and what is found is pushed, while the source holds the row. -/
def sampleHandoff (value : Option Int64) (answers : List MoveEvent) :
    List (SourceView Unit × MoveEvent) :=
  (MoveEvent.start :: .readPage :: .readChunk :: answers).map
    ((⟨∅, 1, [sampleFactRow value]⟩ : SourceView Unit), ·)

def sampleHandover : Handover := ⟨7, .ok (), true, true⟩

theorem sampleFactRow_applied :
    ∃ applied ∈ (run sampleMove.stepAt {}
        (sampleHandoff (some 1) [.push (.applied [sampleFactPoint "usage" 1 3])])).landed,
      sampleMove.seriesIdForPoint applied = (sampleFactRow (some 1)).seriesId ∧
        applied.timestamp = (sampleFactRow (some 1)).time := by
  have answered : Along sampleMove.stepAt
      (fun state item => MoveAccount.Answered sampleMove.Applies state item.2) {}
      (sampleHandoff (some 1) [.push (.applied [sampleFactPoint "usage" 1 3])]) := by
    decide +kernel
  have applies := sampleMove.dropped_rows_applied rfl rfl _ answered sampleHandover
    [sampleFactRow (some 1)] [] (.ok ()) (by decide +kernel)
  exact applies.1 (sampleFactRow (some 1)) (by decide +kernel) (by decide +kernel)
    (by decide +kernel) (by decide +kernel) (by decide +kernel)

/-- A row without a value is deleted at the source and was never sent. -/
theorem emptyRow_not_applied :
    let state := run sampleMove.stepAt {} (sampleHandoff none [])
    sampleMove.runRegionTransfer state sampleHandover [sampleFactRow none] =
        some ([], .ok ()) ∧ (∀ item ∈ sampleHandoff none [], sampleFactRow none ∈ item.1.facts) ∧
      state.landed = [] := by
  decide +kernel

end

/-! ## The pass over the fact table -/

namespace RegionMove

variable {ρ : Type} {move : RegionMove} {view : SourceView ρ} {schema : MeasurementMeta}
  {states : Nat → MoveState} {answers : Nat → PushAnswer} {state : MoveState}
  {after : Option ExportCursor}

variable (move view) in
/-- The pass hears the answer to the chunk that it has pushed, or reads a chunk. -/
def passStep (state : MoveState) (answer : PushAnswer) : MoveState :=
  match state.phase with
  | .chdbPushing .. => move.step view state (.push answer)
  | _ => move.step view state .readChunk

/-- The answer accepts the chunk, or refuses it as too large while chunks can get smaller. -/
def GoesOn (state : MoveState) : PushAnswer → Prop
  | .applied _ => True
  | .rejected status _ => status = 413 ∧ minTransferChunkPoints < state.maxPoints
  | .unreachable _ => False

/-- The pass returns; if all answers let it go on, it has sent the given points. -/
def PassEnds (states : Nat → MoveState) (answers : Nat → PushAnswer) (total : List Point) : Prop :=
  ∃ count result, (states count).phase = .returned result ∧
    ((∀ earlier < count, (states earlier).phase.pushed.isSome →
      GoesOn (states earlier) (answers earlier)) → (states count).sent = total)

theorem passEnds_finish {count : Nat} (ends : states count = move.finish state) :
    PassEnds states answers state.sent := by
  unfold finish at ends
  split at ends <;> exact ⟨count, _, congrArg _ ends, fun _ => by rw [ends]; rfl⟩

theorem pushStep_cases (points : List Point) (retry : MovePhase)
    (accepted : MoveState → MoveState) (answer : PushAnswer) :
    (∃ smaller, 0 < smaller ∧ smaller < state.maxPoints ∧
      pushStep state points retry accepted answer =
        { state with maxPoints := smaller, phase := retry }) ∨
    (∃ applied, pushStep state points retry accepted answer =
      accepted (state.record points applied)) ∨
    ¬GoesOn state answer ∧
      ∃ result, (pushStep state points retry accepted answer).phase = .returned result := by
  fun_cases pushStep with
  | case1 answer smaller isSmaller =>
    have less : smaller < state.maxPoints := by
      revert isSmaller
      fun_cases smallerChunksAfter <;> rintro ⟨⟩
      next large => exact max_lt (Nat.div_lt_self (by omega) (by decide)) large
    exact Or.inl ⟨smaller, MoveAccount.smallerChunksAfter_pos isSmaller, less, rfl⟩
  | case2 applied => exact Or.inr (Or.inl ⟨applied, rfl⟩)
  | case3 status reason refused =>
    refine Or.inr (Or.inr ⟨fun goesOn => ?_, _, rfl⟩)
    obtain ⟨rfl, large⟩ := goesOn
    simp [smallerChunksAfter, large] at refused
  | case4 => exact Or.inr (Or.inr ⟨id, _, rfl⟩)

section Steps

variable (known : move.metadata = some schema)
  (joined : ∀ row ∈ view.facts, move.joins schema row = true)
include known joined

theorem exists_exportRegionPointsFromChdb (after : Option ExportCursor) (maxPoints : Nat) :
    ∃ chunk, move.exportRegionPointsFromChdb after maxPoints view.facts = .ok chunk := by
  have exports : ∀ rows : List FactTableRow, (∀ row ∈ rows, row ∈ view.facts) →
      ∃ points, rows.mapM (move.exportRow schema) = .ok points := by
    intro rows within
    induction rows with
    | nil => exact ⟨[], rfl⟩
    | cons row rows ih =>
      rw [forall_mem_cons] at within
      obtain ⟨points, mapped⟩ := ih within.2
      rw [mapM_cons, exportRow, if_pos (joined row within.1), mapped]
      exact ⟨_, rfl⟩
  obtain ⟨points, mapped⟩ := exports
    (pageWithTies FactTableRow.instant maxPoints (move.rowsAhead after view.facts))
    fun row member => (mem_rowsAhead.mp (mem_of_mem_pageWithTies member)).1
  rw [exportRegionPointsFromChdb, known]
  exact ⟨_, congrArg (Except.map _) mapped⟩

variable (steps : ∀ count, states (count + 1) = move.passStep view (states count) (answers count))
include steps

/-- Each chunk has fewer rows ahead than the one before, or a smaller size. -/
theorem passEnds_chunkStep (bound : Nat) {count : Nat}
    (reads : states count = move.chunkStep state after
      (move.exportRegionPointsFromChdb after state.maxPoints view.facts))
    (positive : 0 < state.maxPoints)
    (bounded : (move.rowsAhead after view.facts).length + state.maxPoints ≤ bound) :
    PassEnds states answers (state.sent ++ move.tableAhead schema after view.facts) := by
  induction bound generalizing count state after with
  | zero => omega
  | succ bound ih =>
    have step := steps count
    obtain ⟨chunk, exported⟩ :=
      exists_exportRegionPointsFromChdb known joined after state.maxPoints
    obtain ⟨page, chunkOf⟩ := exists_chunkOf known exported
    rw [exported] at reads
    by_cases none : chunk.rows = 0
    · rw [chunkStep, if_pos none] at reads
      rw [tableAhead, chunkOf.rowsAhead_eq_nil positive none, filterMap_nil, append_nil]
      exact passEnds_finish reads
    have rows := congrArg length (chunkOf.rowsAhead_eq_append none)
    rw [length_append, ← chunkOf.rows] at rows
    have ahead := chunkOf.tableAhead_eq none
    rw [chunkStep, if_neg none] at reads
    split at reads
    next isEmpty =>
      rw [isEmpty_iff.mp isEmpty, nil_append] at ahead
      split at reads
      next short =>
        rw [ahead, if_pos short, append_nil]
        exact passEnds_finish reads
      next full =>
        rw [ahead, if_neg full]
        rw [reads] at step
        exact ih step positive (by omega)
    next =>
      have pushing : (states count).phase = .chdbPushing after chunk := congrArg _ reads
      rw [reads] at step
      rcases pushStep_cases chunk.points (.exporting after) (move.chdbAccepted view chunk)
        (answers count) with ⟨smaller, someSize, less, isStep⟩ | ⟨applied, isStep⟩ |
          ⟨refused, result, returned⟩
      · have next := steps (count + 1)
        rw [step.trans isStep] at next
        change PassEnds _ _ (({ state with maxPoints := smaller } : MoveState).sent ++ _)
        exact ih next someSize (by simp only at less ⊢; omega)
      · have sent : (state.record chunk.points applied).sent = state.sent ++ chunk.points := by
          simp [MoveState.sent, MoveState.record]
        rw [ahead, ← append_assoc, ← sent]
        have accepted := step.trans isStep
        unfold chdbAccepted at accepted
        split at accepted
        next short =>
          rw [if_pos (by exact short), append_nil]
          exact passEnds_finish accepted
        next full =>
          rw [if_neg (by exact full)]
          exact ih accepted positive (by simp only [MoveState.record]; omega)
      · refine ⟨count + 1, result, ?_, fun goesOn => ?_⟩
        · rw [step]
          exact returned
        · have goesOn := goesOn count (Nat.lt_succ_self count) (by rw [pushing]; rfl)
          rw [reads] at goesOn
          exact absurd goesOn refused

end Steps

end RegionMove

def samplePass (answer : PushAnswer) : Nat → MoveState :=
  fun count => (sampleMove.passStep (⟨∅, 1, [sampleFactRow (some 1)]⟩ : SourceView Unit) · answer)^[
    count] { maxPoints := 200, phase := .exporting none }

end HyperbyteDb
