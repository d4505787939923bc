import HyperbyteDb.FlushRunSafety
import Mathlib.Data.Prod.Lex

/-!
# A drain on its own empties the log

When a drain runs alone, no batch is being written and every sink write succeeds, one
pass over the log is enough: each step brings the drain closer to its end, and at the
end no entry is left above `last_flushed`.
-/

namespace HyperbyteDb

open FlushWorld GuardedRuns List OrderedRows

variable {ρ : Type}

section

/-- No entry is left above `last_flushed`. -/
def FlushWorld.Drained {stacking : BatchStacking ρ} (world : FlushWorld stacking) : Prop :=
  ∀ (seq : Nat) (row : WalRow ρ), world.rows[seq]? = some row → seq ≤ world.lastFlushed

namespace FlushService

variable {service : FlushService ρ} {world : FlushWorld service.stacking}

/-- The call waits for this answer, and the answer reports no failure. -/
inductive Succeeds : CallPhase ρ → Answer → Prop
  | started (cursor : Nat) : Succeeds (.started cursor) .proceed
  | looping (cursor snapshot : Nat) : Succeeds (.looping cursor snapshot) .proceed
  | missed (cursor snapshot : Nat) : Succeeds (.missed cursor snapshot) .proceed
  | reading (cursor snapshot limit : Nat) : Succeeds (.reading cursor snapshot limit) .proceed
  | recachedOne (cursor snapshot : Nat) (found : List (Nat × WalRow ρ))
      (item : Nat × PreparedWalSlot ρ) (pending : List (Nat × PreparedWalSlot ρ)) :
      Succeeds (.recaching cursor snapshot found (item :: pending)) .proceed
  | recached (cursor snapshot : Nat) (found : List (Nat × WalRow ρ)) :
      Succeeds (.recaching cursor snapshot found []) .proceed
  | settled (cursor snapshot chunkMaxSeq : Nat) (path : FlushPath)
      (pending : List (SinkWrite ρ)) (anyFailed : Bool) (index : Nat)
      (outstanding : index < pending.length) (outcome : SinkOutcome)
      (success : outcome ≠ .failed) :
      Succeeds (.writing cursor snapshot chunkMaxSeq path pending anyFailed) (.sink index outcome)
  | written (cursor snapshot chunkMaxSeq : Nat) (path : FlushPath) (anyFailed : Bool) :
      Succeeds (.writing cursor snapshot chunkMaxSeq path [] anyFailed) .proceed
  | truncating (snapshot flushedThrough : Nat) (failure : Option String) (view : PeerView) :
      Succeeds (.truncating snapshot flushedThrough failure) (.peers view)
  | deleting (snapshot flushedThrough sequence : Nat) (failure : Option String) :
      Succeeds (.deleting snapshot flushedThrough sequence failure) .proceed
  | recording (snapshot flushedThrough : Nat) (failure : Option String) :
      Succeeds (.recording snapshot flushedThrough failure) .proceed
  | flushed : Succeeds .flushed .proceed
  | checking (cursor : Nat) : Succeeds (.checking cursor) .proceed

variable {call : Nat}

def CallStep (service : FlushService ρ) (call : Nat)
    (world later : FlushWorld service.stacking) : Prop :=
  ∃ answer, Succeeds (world.calls call).phase answer ∧
    later = service.next world (.advance call answer)

theorem exists_succeeds {phase : CallPhase ρ} (notIdle : phase ≠ .idle)
    (running : ∀ result, phase ≠ .returned result) : ∃ answer, Succeeds phase answer := by
  cases phase with
  | idle => exact absurd rfl notIdle
  | returned result => exact absurd rfl (running result)
  | started => exact ⟨_, .started ..⟩
  | looping => exact ⟨_, .looping ..⟩
  | missed => exact ⟨_, .missed ..⟩
  | reading => exact ⟨_, .reading ..⟩
  | recaching cursor snapshot found pending =>
    cases pending with
    | nil => exact ⟨_, .recached ..⟩
    | cons item pending => exact ⟨_, .recachedOne ..⟩
  | writing cursor snapshot chunkMaxSeq path pending anyFailed =>
    cases pending with
    | nil => exact ⟨_, .written ..⟩
    | cons sinkWrite pending =>
      exact ⟨.sink 0 .accepted, .settled _ _ _ _ _ _ 0 (by simp) .accepted (by simp)⟩
  | truncating => exact ⟨.peers ⟨none, fun _ => none, 0⟩, .truncating ..⟩
  | deleting => exact ⟨_, .deleting ..⟩
  | recording => exact ⟨_, .recording ..⟩
  | flushed => exact ⟨_, .flushed⟩
  | checking => exact ⟨_, .checking ..⟩

theorem advance_frame (world : FlushWorld service.stacking) (call : Nat) (answer : Answer) :
    (service.advance world call answer).writer = world.writer ∧
      (service.advance world call answer).seq = world.seq ∧
      ((service.advance world call answer).calls call).drains = (world.calls call).drains ∧
      (service.advance world call answer).history.committed = world.history.committed ∧
      (service.advance world call answer).history.purged = world.history.purged := by
  simp only [advance, loopStep, startPrepared, startNative, settle, finishWrites,
    truncateStep, deleteStep, recordStep, checkStep]
  repeat' split
  all_goals simp [setPhase]

/-! ## Where a lone drain can be -/

/-- The local variables agree with the world that nobody else changes. -/
def DrainPhase (world : FlushWorld service.stacking) : CallPhase ρ → Prop
  | .idle => False
  | .started cursor => cursor = world.lastFlushed
  | .looping cursor snapshot | .missed cursor snapshot =>
    cursor = world.lastFlushed ∧ snapshot = world.seq
  | .reading cursor snapshot limit =>
    cursor = world.lastFlushed ∧ snapshot = world.seq ∧ 0 < limit
  | .recaching cursor snapshot found _ =>
    cursor = world.lastFlushed ∧ snapshot = world.seq ∧ (found = [] → world.Drained)
  | .writing cursor snapshot chunkMaxSeq _ _ anyFailed =>
    cursor = world.lastFlushed ∧ snapshot = world.seq ∧ anyFailed = false ∧
      cursor < chunkMaxSeq ∧ chunkMaxSeq ≤ snapshot
  | .truncating snapshot flushedThrough failure
  | .deleting snapshot flushedThrough _ failure
  | .recording snapshot flushedThrough failure =>
    snapshot = world.seq ∧ failure = none ∧ flushedThrough ≤ snapshot
  | .flushed => world.Drained
  | .checking cursor => cursor = world.lastFlushed ∧ world.Drained
  | .returned result => result = .ok () ∧ world.Drained

/-- How far the drain is from its end: the sequences left, the steps left in the round,
the items left in the step. -/
def drainRank (seq : Nat) : CallPhase ρ → Nat ×ₗ Nat ×ₗ Nat
  | .idle | .returned _ => toLex (0, toLex (0, 0))
  | .checking _ => toLex (0, toLex (1, 0))
  | .flushed => toLex (0, toLex (2, 0))
  | .writing cursor snapshot _ _ pending _ =>
    toLex (snapshot - cursor + 1, toLex (1, pending.length))
  | .recaching cursor snapshot _ pending =>
    toLex (snapshot - cursor + 1, toLex (2, pending.length))
  | .reading cursor snapshot _ => toLex (snapshot - cursor + 1, toLex (3, 0))
  | .missed cursor snapshot => toLex (snapshot - cursor + 1, toLex (4, 0))
  | .looping cursor snapshot => toLex (snapshot - cursor + 1, toLex (5, 0))
  | .recording snapshot flushedThrough _ =>
    toLex (snapshot - flushedThrough + 1, toLex (6, 0))
  | .deleting snapshot flushedThrough _ _ =>
    toLex (snapshot - flushedThrough + 1, toLex (7, 0))
  | .truncating snapshot flushedThrough _ =>
    toLex (snapshot - flushedThrough + 1, toLex (8, 0))
  | .started _ => toLex (seq + 2, toLex (0, 0))

structure Draining (world : FlushWorld service.stacking) (call : Nat) : Prop where
  sound : world.Sound
  atRest : world.writer = .idle
  drains : (world.calls call).drains = true
  phase : DrainPhase world (world.calls call).phase

/-- The drain stays on course and comes closer to its end. -/
def Progress (world later : FlushWorld service.stacking) (call : Nat) : Prop :=
  DrainPhase later (later.calls call).phase ∧
    drainRank world.seq (later.calls call).phase < drainRank world.seq (world.calls call).phase

theorem progress_setPhase {base : FlushWorld service.stacking} {before after : CallPhase ρ}
    (phase : (world.calls call).phase = before) (onCourse : DrainPhase base after)
    (closer : drainRank world.seq after < drainRank world.seq before := by
      simp [drainRank, Prod.Lex.toLex_lt_toLex]) :
    Progress world (base.setPhase call after) call := by
  have phaseEq : ((base.setPhase call after).calls call).phase = after := by
    simp [setPhase]
  unfold Progress
  rw [phaseEq, phase]
  exact ⟨onCourse, closer⟩

theorem Draining.course (draining : Draining world call) {here : CallPhase ρ}
    (phase : (world.calls call).phase = here) : DrainPhase world here :=
  phase ▸ draining.phase

theorem Draining.le_seq (draining : Draining world call) {seq : Nat} {row : WalRow ρ}
    (lookup : world.rows[seq]? = some row) : seq ≤ world.seq := by
  have within := draining.sound.within seq _ (draining.sound.stored seq row lookup).1
  simpa only [top, draining.atRest] using within

theorem Draining.drained_of_le (draining : Draining world call)
    (reached : world.seq ≤ world.lastFlushed) : world.Drained :=
  fun _ _ lookup => (draining.le_seq lookup).trans reached

theorem nativeLimit_pos (cache : Rows Nat (PreparedWalSlot ρ)) (fromSeq : Nat) :
    0 < nativeLimit cache fromSeq := by
  unfold nativeLimit walReadChunk
  split
  · split <;> omega
  · omega

variable {found : List (Nat × WalRow ρ)}

theorem le_of_mem_selectChunk {snapshot : Nat}
    {item : Nat × WalRow ρ} (member : item ∈ service.selectChunk snapshot found) :
    item.1 ≤ snapshot := by
  have inFilter := (takeBudget_front ..).subset member
  simpa using of_mem_filter inFilter

/-! ## Each step brings the end closer -/

variable (draining : Draining world call) (total : service.stacking.Total)

section Steps

include draining

variable {cursor snapshot : Nat}

theorem Draining.started (phase : (world.calls call).phase = .started cursor) :
    Progress world (service.advance world call .proceed) call := by
  have course := draining.course phase
  simp only [advance, phase]
  split
  next reached =>
    exact progress_setPhase phase (draining.drained_of_le (course ▸ reached))
  next =>
    refine progress_setPhase phase ?_ ?_
    · exact ⟨course, rfl⟩
    · simp only [drainRank, Prod.Lex.toLex_lt_toLex]
      omega

section

variable
  (phase : (world.calls call).phase = .looping cursor snapshot)
include total phase

theorem Draining.startPrepared {taken : List (Nat × PreparedWalSlot ρ)}
    {left : Rows Nat (PreparedWalSlot ρ)}
    (nonempty : taken ≠ []) (run : TakenRun world.cache (cursor + 1) snapshot taken left) :
    Progress world (service.startPrepared { world with cache := left } call cursor snapshot taken)
      call := by
  have course := draining.course phase
  have takenSound : ∀ item ∈ taken,
      world.history.SlotSound service.stacking item.1 item.2 := fun item member =>
    draining.sound.cached item.1 item.2 (run.slots item member)
  obtain ⟨slots, slotsOk, sameSeqs, -⟩ := patchSlots_ok takenSound
  obtain ⟨writes, made⟩ := FlushSettings.preparedWork_ok service.settings total slots
  have slotsNonempty : slots ≠ [] := by
    intro empty
    rw [empty] at sameSeqs
    exact nonempty (map_eq_nil_iff.mp sameSeqs.symm)
  obtain ⟨⟨last, lastMember, lastEq⟩, -⟩ := chunkMax_spec cursor slotsNonempty
  have inTaken : last.1 ∈ taken.map Prod.fst := by
    rw [← sameSeqs]
    exact mem_map_of_mem lastMember
  obtain ⟨original, originalMember, sameSeq⟩ := mem_map.mp inTaken
  have above := run.le_of_mem originalMember
  have within := run.bounded original originalMember
  simp only [FlushService.startPrepared, slotsOk, made]
  exact progress_setPhase phase ⟨course.1, course.2, rfl, by omega, by omega⟩

theorem Draining.looping : Progress world (service.advance world call .proceed) call := by
  have course := draining.course phase
  simp only [advance, phase, loopStep]
  split
  next =>
    split
    next =>
      split
      next =>
        exact progress_setPhase phase course
      next taken left took =>
        obtain ⟨nonempty, run⟩ := takeRange_spec took
        exact draining.startPrepared total phase nonempty run
    next =>
      exact progress_setPhase phase ⟨course.1, course.2, by simp [walReadChunk]⟩
  next reached =>
    refine progress_setPhase phase ?_
    apply draining.drained_of_le
    rw [← course.1, ← course.2]
    omega

end

theorem Draining.recached
    (phase : (world.calls call).phase = .recaching cursor snapshot found []) :
    Progress world (service.advance world call .proceed) call := by
  obtain ⟨cursorEq, snapshotEq, emptyDrained⟩ := draining.course phase
  have phaseSound := draining.sound.calls call
  rw [phase] at phaseSound
  obtain ⟨-, foundSound, -⟩ := phaseSound
  have cut : CutAbove found (service.selectChunk snapshot found) :=
    selectChunk_cut snapshot foundSound.ascending
  simp only [advance, phase, startNative]
  split
  next empty =>
    refine progress_setPhase phase ?_
    apply emptyDrained
    rw [eq_nil_iff_forall_not_mem]
    intro item member
    have above := selectChunk_eq_nil_iff.mp (isEmpty_iff.mp empty) item member
    have within := foundSound.within item member
    simp only [top, draining.atRest] at within
    omega
  next nonempty =>
    obtain ⟨⟨last, lastMember, lastEq⟩, -⟩ := chunkMax_spec cursor
      (by simpa using nonempty : service.selectChunk snapshot found ≠ [])
    refine progress_setPhase phase ?_
    refine ⟨cursorEq, snapshotEq, rfl, ?_, ?_⟩
    · rw [← lastEq]
      exact foundSound.above last (cut.subset last lastMember)
    · rw [← lastEq]
      exact le_of_mem_selectChunk lastMember

theorem Draining.settled {snapshot chunkMaxSeq : Nat} {path : FlushPath}
    {pending : List (SinkWrite ρ)} {anyFailed : Bool} (phase : (world.calls call).phase =
      .writing cursor snapshot chunkMaxSeq path pending anyFailed) {index : Nat}
    (outstanding : index < pending.length) {outcome : SinkOutcome} (success : outcome ≠ .failed) :
    Progress world (service.advance world call (.sink index outcome)) call := by
  have course := draining.course phase
  have shorter : (pending.eraseIdx index).length < pending.length := by
    rw [length_eraseIdx_of_lt outstanding]
    omega
  simp only [advance, phase, settle, getElem?_eq_getElem outstanding]
  cases outcome with
  | failed => exact absurd rfl success
  | accepted | refused =>
    refine progress_setPhase phase ?_ ?_
    · exact course
    · simpa [drainRank, Prod.Lex.toLex_lt_toLex] using shorter

theorem Draining.checking (phase : (world.calls call).phase = .checking cursor) :
    Progress world (service.advance world call .proceed) call := by
  obtain ⟨rfl, drained⟩ := draining.course phase
  have nothing : readRange world.rows (world.lastFlushed + 1) 1 = [] := by
    rw [readRange_eq_nil_iff Nat.one_pos]
    intro seq row lookup
    exact Nat.lt_succ_of_le (drained seq row lookup)
  simp only [advance, phase, checkStep, nothing]
  exact progress_setPhase phase ⟨rfl, drained⟩

end Steps

variable {later : FlushWorld service.stacking}

include draining

include total

/-- Every successful step of a lone drain is progress. -/
theorem Draining.progress {answer : Answer} (success : Succeeds (world.calls call).phase answer) :
    Progress world (service.advance world call answer) call := by
  generalize phase : (world.calls call).phase = here at success
  cases success with
  | started => exact draining.started phase
  | looping => exact draining.looping total phase
  | missed =>
    obtain ⟨cursorEq, snapshotEq⟩ := draining.course phase
    simp only [advance, phase]
    exact progress_setPhase phase ⟨cursorEq, snapshotEq, nativeLimit_pos _ _⟩
  | reading =>
    obtain ⟨cursorEq, snapshotEq, positive⟩ := draining.course phase
    simp only [advance, phase]
    refine progress_setPhase phase ?_
    refine ⟨cursorEq, snapshotEq, fun empty seq row lookup => ?_⟩
    have below := (readRange_eq_nil_iff positive).mp empty seq row lookup
    omega
  | recachedOne =>
    simp only [advance, phase]
    exact progress_setPhase phase (draining.course phase)
  | recached => exact draining.recached phase
  | settled _ _ _ _ _ _ _ outstanding _ success =>
    exact draining.settled phase outstanding success
  | written =>
    obtain ⟨-, snapshotEq, rfl, above, within⟩ := draining.course phase
    simp only [advance, phase]
    refine progress_setPhase phase ?_ ?_
    · exact ⟨snapshotEq, rfl, within⟩
    · simp only [drainRank, Prod.Lex.toLex_lt_toLex]
      omega
  | truncating =>
    simp only [advance, phase]
    exact progress_setPhase phase (draining.course phase)
  | deleting =>
    simp only [advance, phase]
    exact progress_setPhase phase (draining.course phase)
  | recording =>
    obtain ⟨snapshotEq, rfl, -⟩ := draining.course phase
    simp only [advance, phase]
    exact progress_setPhase phase ⟨rfl, snapshotEq⟩
  | flushed =>
    simp only [advance, phase, draining.drains]
    exact progress_setPhase phase ⟨rfl, draining.course phase⟩
  | checking => exact draining.checking phase

theorem Draining.step (taken : CallStep service call world later) :
    Draining later call ∧
      drainRank later.seq (later.calls call).phase <
        drainRank world.seq (world.calls call).phase := by
  obtain ⟨answer, success, rfl⟩ := taken
  obtain ⟨sameWriter, sameSeq, sameDrains, -⟩ := advance_frame world call answer
  obtain ⟨onCourse, closer⟩ := draining.progress total success
  constructor
  · exact ⟨advance_sound draining.sound call answer, sameWriter.trans draining.atRest,
      sameDrains.trans draining.drains, onCourse⟩
  · rw [show (service.next world (.advance call answer)).seq = world.seq from sameSeq]
    exact closer

theorem Draining.terminates {path : Nat → FlushWorld service.stacking} (start : path 0 = world) :
    ∃ index, ¬CallStep service call (path index) (path (index + 1)) :=
  GuardedRuns.exists_not_step
    (fun state _ (holds : Draining state call) taken => (holds.step total taken).1)
    (fun _ _ holds taken => (holds.step total taken).2) (start ▸ draining)

/-- Where a lone drain cannot go on, it has returned and the log is drained. -/
theorem Draining.finished (reached : Relation.ReflTransGen (CallStep service call) world later)
    (stuck : ∀ after, ¬CallStep service call later after) :
    (later.calls call).phase = .returned (.ok ()) ∧ later.Drained := by
  have course := (GuardedRuns.reachable_invariant
    (fun state _ (holds : Draining state call) taken => (holds.step total taken).1) draining
    reached).phase
  by_cases idle : (later.calls call).phase = .idle
  · rw [idle] at course
    exact course.elim
  · by_cases done : ∃ result, (later.calls call).phase = .returned result
    · obtain ⟨result, phase⟩ := done
      rw [phase] at course ⊢
      exact ⟨by rw [course.1], course.2⟩
    · obtain ⟨answer, success⟩ := exists_succeeds idle fun result phase => done ⟨result, phase⟩
      exact absurd ⟨answer, success, rfl⟩ (stuck _)

omit total in
omit draining in
theorem draining_of_start (sound : world.Sound) (atRest : world.writer = .idle)
    (free : (world.calls call).phase = .idle ∨
      ∃ result, (world.calls call).phase = .returned result) :
    Draining (service.next world (.start call true)) call := by
  have started : service.next world (.start call true) = { world with
      calls := Function.update world.calls call ⟨true, .started world.lastFlushed⟩ } := by
    rcases free with phase | ⟨result, phase⟩
    · simp [next, startCall, phase]
    · simp [next, startCall, phase]
  refine ⟨next_sound sound _, ?_, ?_, ?_⟩
  · rw [started]
    exact atRest
  · simp [started]
  · simp [started, DrainPhase]

end FlushService

end

/-! ## What flush and drain guarantee -/

def plainStacking : BatchStacking Point where
  Carries cells point := cells = point
  concatFacts batches := .ok ⟨.uint64, batches.flatMap (·.rows)⟩
  concatSeries batches := .ok ⟨.uint64, batches.flatMap (·.rows)⟩
  concatFacts_keeps := by
    rintro batches stacked ⟨rfl⟩ batch batchMember row rowMember
    exact ⟨row, mem_flatMap.mpr ⟨batch, batchMember, rowMember⟩, fun _ holds => holds⟩

theorem plainStacking_total : plainStacking.Total :=
  ⟨fun _ => ⟨_, rfl⟩, fun _ => ⟨_, rfl⟩⟩

/-- A node with a replication log and the default settings. -/
def sampleFlushService : FlushService Point where
  settings := ⟨1, 0, true, fun _ => 0⟩
  policy := ⟨false, 2 ^ 30, true, 0, 0, 0⟩
  walFormat := .bincode
  arrowWalEnabled := true
  stacking := plainStacking

def sampleWalEntry (timestamp : Int64) : WalEntry where
  database := "db"
  retentionPolicy := "autogen"
  points := [⟨"cpu", ∅, (∅ : Std.ExtTreeMap String FieldValue).insert "load" (.integer 1),
    timestamp⟩]
  originNodeId := 0

def sampleWalImage : WalImage sampleFlushService.stacking where
  seq := 1
  rows := (∅ : Rows Nat (WalRow Point)).insert 1 ⟨sampleWalEntry 1, none, 40⟩
  cache := ∅
  truncatedThrough := 1
  positive := by simp
  within := by
    intro stored row lookup
    simp only [Std.ExtTreeMap.getElem?_insert] at lookup
    grind
  truncatedLe := by decide
  prepared := by
    intro stored row lookup slot inRow
    simp only [Std.ExtTreeMap.getElem?_insert] at lookup
    grind
  cached := by
    intro stored slot lookup
    simp at lookup

namespace FlushService

end FlushService

def Answer.isSuccess : Answer → Bool
  | .fails _ => false
  | .sink _ outcome => outcome ≠ .failed
  | _ => true

def FlushEvent.isSuccessfulStep {stacking : BatchStacking ρ} : FlushEvent stacking → Bool
  | .advance _ answer => answer.isSuccess
  | _ => false

def CallPhase.returnedOk : CallPhase ρ → Bool
  | .returned (.ok ()) => true
  | _ => false

theorem CallPhase.eq_of_returnedOk {phase : CallPhase ρ} (done : phase.returnedOk = true) :
    phase = .returned (.ok ()) := by
  unfold returnedOk at done
  split at done
  · rfl
  · simp at done

def WriterPhase.isIdle {stacking : BatchStacking ρ} : WriterPhase stacking → Bool
  | .idle => true
  | _ => false

/-- No peer is known yet, so the barrier holds the log back. -/
def noPeers : PeerView := ⟨none, fun _ => none, 0⟩

/-- A flush has read the only entry and waits for the sink while a second entry is
appended. -/
def flushThenAppend : List (FlushEvent sampleFlushService.stacking) :=
  .start 0 false :: replicate 5 (.advance 0 .proceed) ++
    [.reserve [⟨sampleWalEntry 2, none, 40, by simp⟩], .write true, .write true, .write true]

/-- A drain flushes both entries and is about to look for more when the flush records
its own, lower, sequence. -/
def drainOvertaken : List (FlushEvent sampleFlushService.stacking) :=
  replicate 5 (.advance 1 .proceed) ++
    [.advance 1 (.sink 0 .accepted), .advance 1 .proceed, .advance 1 (.peers noPeers),
      .advance 1 .proceed, .advance 1 .proceed, .advance 1 .proceed, .advance 1 .proceed,
      .advance 0 (.sink 0 .accepted), .advance 0 .proceed, .advance 0 (.peers noPeers),
      .advance 0 .proceed, .advance 0 .proceed, .advance 1 .proceed]

end HyperbyteDb
