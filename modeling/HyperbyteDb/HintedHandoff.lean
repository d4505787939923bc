import HyperbyteDb.ClusterMembership
import HyperbyteDb.GuardedRuns
import HyperbyteDb.HintRecords
import Mathlib.Data.List.Sort

/-!
# Hinted handoff

Writers store the writes that a peer has missed, up to a limit for each peer.
-/

namespace HyperbyteDb

open GuardedRuns List Std

/-- A record of the column family, in the order of its key.  `hint` says which call of a
writer it goes back to. -/
structure HintRecord where
  peerId : UInt64
  seq : Nat
  value : List UInt8
  hint : Nat

/-- A call of `enqueue_hint` that has its slot and not yet its record, by a writer or by a
drain that stores its hints again. -/
structure EnqueueCall where
  peerId : UInt64
  payload : ReplicationHintPayload
  hint : Nat
  requeued : Bool

inductive DrainPhase where
  | deleting (keys : List Nat) (deleted : Nat)
  | sending
  | requeueing

structure HintDrain where
  peerId : UInt64
  phase : DrainPhase
  /-- The hints that are left to be sent or to be stored again. -/
  batch : List (Nat × ReplicationHintPayload)

structure HintWorld where
  stored : List HintRecord := []
  seq : Nat := 0
  counts : ExtTreeMap UInt64 Nat := ∅
  calls : List EnqueueCall := []
  drains : List HintDrain := []
  hints : Nat := 0
  /-- The hints, with their peers, for which a call has returned success. -/
  accepted : List (Nat × UInt64) := []
  /-- The hints that a peer has answered with success. -/
  delivered : List (Nat × UInt64) := []

inductive HintEvent where
  | enqueue (peerId : UInt64) (payload : ReplicationHintPayload)
  | put (position : Nat) (stored : Bool)
  | drain (peerId : UInt64)
  | delete (position : Nat) (done : Bool)
  | release (position : Nat)
  | post (position : Nat) (success : Bool)
  | requeue (position : Nat)
  | crash

structure HintedHandoff where
  maxHintsPerPeer : Nat

def drainBatchSize : Nat := 100

/-- The records that one drain reads: it stops at `room` readable ones. -/
def readRecords : Nat → List HintRecord → List HintRecord
  | _, [] => []
  | 0, _ => []
  | room + 1, record :: records =>
    match decodeHintValue record.value with
    | .ok _ => record :: readRecords room records
    | .error _ => record :: readRecords (room + 1) records

/-- A record that cannot be read is deleted with the others and not sent. -/
def readableHint (record : HintRecord) : Option (Nat × ReplicationHintPayload) :=
  match decodeHintValue record.value with
  | .ok payload => some (record.hint, payload)
  | .error _ => none

def insertRecord (record : HintRecord) (stored : List HintRecord) : List HintRecord :=
  stored.orderedInsert (fun first second => first.seq ≤ second.seq) record

def releaseSlots (counts : ExtTreeMap UInt64 Nat) (peerId : UInt64) (n : Nat) :
    ExtTreeMap UInt64 Nat :=
  match counts[peerId]? with
  | none => counts
  | some count => if n = 0 then counts else counts.insert peerId (count - n)

/-- The scan at startup. -/
def countRecords (stored : List HintRecord) : ExtTreeMap UInt64 Nat :=
  stored.foldl (fun counts record =>
    counts.insert record.peerId (counts.getD record.peerId 0 + 1)) ∅

namespace HintedHandoff

variable (handoff : HintedHandoff)

def reserve (counts : ExtTreeMap UInt64 Nat) (peerId : UInt64) :
    Except String (ExtTreeMap UInt64 Nat) :=
  let count := counts.getD peerId 0
  if 0 < handoff.maxHintsPerPeer ∧ handoff.maxHintsPerPeer ≤ count then
    .error s!"hinted handoff queue full for peer {peerId} ({count}/{handoff.maxHintsPerPeer})"
  else .ok (counts.insert peerId (count + 1))

variable (world : HintWorld)

def startCall (call : EnqueueCall) : HintWorld :=
  match handoff.reserve world.counts call.peerId with
  | .error _ => world
  | .ok counts => { world with counts, calls := world.calls ++ [call] }

def finishCall (call : EnqueueCall) (stored : Bool) : HintWorld :=
  let seq := world.seq + 1
  match call.payload.encodeHintValue, stored with
  | .ok value, true =>
    { world with
      seq
      stored := insertRecord ⟨call.peerId, seq, value, call.hint⟩ world.stored
      accepted := world.accepted ++ [(call.hint, call.peerId)] }
  | _, _ => { world with seq, counts := releaseSlots world.counts call.peerId 1 }

def startDrain (peerId : UInt64) : HintWorld :=
  let records := readRecords drainBatchSize (world.stored.filter (·.peerId = peerId))
  { world with
    drains := world.drains ++
      [⟨peerId, .deleting (records.map (·.seq)) 0, records.filterMap readableHint⟩] }

variable (drain : HintDrain)

def stepDelete (done : Bool) : HintWorld × HintDrain :=
  match drain.phase with
  | .deleting (key :: keys) deleted =>
    if done then
      ({ world with
         stored := world.stored.filter fun record =>
           ¬(record.peerId = drain.peerId ∧ record.seq = key) },
        { drain with phase := .deleting keys (deleted + 1) })
    else (world, { drain with phase := .deleting keys deleted })
  | _ => (world, drain)

def stepRelease : HintWorld × HintDrain :=
  match drain.phase with
  | .deleting [] deleted =>
    ({ world with counts := releaseSlots world.counts drain.peerId deleted },
      { drain with phase := .sending })
  | _ => (world, drain)

def stepPost (success : Bool) : HintWorld × HintDrain :=
  match drain.phase, drain.batch with
  | .sending, hint :: rest =>
    if success then
      ({ world with delivered := world.delivered ++ [(hint.1, drain.peerId)] },
        { drain with batch := rest })
    else (world, { drain with phase := .requeueing })
  | _, _ => (world, drain)

/-- An error is only logged. -/
def stepRequeue : HintWorld × HintDrain :=
  match drain.phase, drain.batch with
  | .requeueing, hint :: rest =>
    (handoff.startCall world ⟨drain.peerId, hint.2, hint.1, true⟩, { drain with batch := rest })
  | _, _ => (world, drain)

def advance (position : Nat) (step : HintWorld → HintDrain → HintWorld × HintDrain) : HintWorld :=
  match world.drains[position]? with
  | none => world
  | some drain =>
    let (after, left) := step world drain
    { after with drains := world.drains.set position left }

def next : HintEvent → HintWorld
  | .enqueue peerId payload =>
    handoff.startCall { world with hints := world.hints + 1 } ⟨peerId, payload, world.hints, false⟩
  | .put position stored =>
    match world.calls[position]? with
    | none => world
    | some call => finishCall { world with calls := world.calls.eraseIdx position } call stored
  | .drain peerId => startDrain world peerId
  | .delete position done => advance world position (stepDelete · · done)
  | .release position => advance world position stepRelease
  | .post position success => advance world position (stepPost · · success)
  | .requeue position => advance world position handoff.stepRequeue
  | .crash =>
    { world with
      calls := []
      drains := []
      counts := countRecords world.stored
      seq := (world.stored.map (·.seq)).foldr max 0 }

def Stored (item : Nat × UInt64) : Prop :=
  ∃ record ∈ world.stored, record.hint = item.1 ∧ record.peerId = item.2

def NoneLost : Prop :=
  ∀ item ∈ world.accepted, Stored world item ∨ item ∈ world.delivered

end HintedHandoff

/-! ## The order in which hints are replayed -/

/-- The hints of one peer, by the order in which they were first enqueued. -/
structure PeerHints where
  /-- In the order of their keys. -/
  stored : List Nat := []
  /-- The hints that the drain has read and not yet sent or stored again. -/
  batch : List Nat := []
  requeueing : Bool := false
  delivered : List Nat := []
  enqueued : Nat := 0

inductive PeerHintEvent where
  | enqueue
  | read
  | post (success : Bool)
  | requeue

namespace PeerHints

variable (handoff : HintedHandoff) (queue : PeerHints)

def Full : Prop :=
  0 < handoff.maxHintsPerPeer ∧ handoff.maxHintsPerPeer ≤ queue.stored.length

instance : Decidable (Full handoff queue) :=
  inferInstanceAs (Decidable (_ ∧ _))

def enqueueHint (hint : Nat) : PeerHints :=
  if Full handoff queue then queue else { queue with stored := queue.stored ++ [hint] }

def next : PeerHintEvent → PeerHints
  | .enqueue =>
    enqueueHint handoff { queue with enqueued := queue.enqueued + 1 } queue.enqueued
  | .read =>
    match queue.batch with
    | [] =>
      { queue with
        stored := queue.stored.drop drainBatchSize
        batch := queue.stored.take drainBatchSize
        requeueing := false }
    | _ => queue
  | .post success =>
    match queue.requeueing, queue.batch with
    | false, hint :: rest =>
      if success then { queue with batch := rest, delivered := queue.delivered ++ [hint] }
      else { queue with requeueing := true }
    | _, _ => queue
  | .requeue =>
    match queue.requeueing, queue.batch with
    | true, hint :: rest => enqueueHint handoff { queue with batch := rest } hint
    | _, _ => queue

/-- The deliveries that were made, and those that follow if no more of them fail. -/
def deliveries : List Nat :=
  queue.delivered ++
    if queue.requeueing then queue.stored ++ queue.batch else queue.batch ++ queue.stored

def InOrder : Prop :=
  queue.deliveries.Pairwise (· < ·)

/-- A delivery fails while no other hint is stored, and none is stored before all of the batch
is. -/
def Undisturbed : PeerHintEvent → Prop
  | .enqueue => queue.requeueing = true → queue.batch ≠ [] → Full handoff queue
  | .post false => queue.requeueing = false → queue.batch ≠ [] → queue.stored = []
  | _ => True

variable {handoff queue}

def Numbered (queue : PeerHints) : Prop :=
  ∀ hint, hint ∈ queue.delivered ∨ hint ∈ queue.batch ∨ hint ∈ queue.stored → hint < queue.enqueued

theorem numbered_next (event : PeerHintEvent) (numbered : queue.Numbered) :
    (next handoff queue event).Numbered := by
  unfold Numbered at *
  fun_cases next with
  | case1 | case7 => fun_cases enqueueHint <;> grind
  | case2 => grind [mem_of_mem_drop]
  | _ => grind

theorem inOrder_next (event : PeerHintEvent) (numbered : queue.Numbered) (inOrder : queue.InOrder) :
    (next handoff queue event).InOrder ↔ Undisturbed handoff queue event := by
  fun_cases next with
  | case1 =>
    fun_cases enqueueHint with
    | case1 full => exact iff_of_true inOrder fun _ _ => full
    | case2 room =>
      change ¬Full handoff queue at room
      cases batch : queue.batch <;> cases requeues : queue.requeueing <;>
        simp [InOrder, deliveries, batch, requeues, Undisturbed] at inOrder ⊢ <;> grind [Numbered]
  | case2 isEmpty => simpa [InOrder, deliveries, isEmpty, Undisturbed] using inOrder
  | case4 hint rest batch sends =>
    simpa [InOrder, deliveries, sends, batch, Undisturbed] using inOrder
  | case5 success hint rest batch sends failed =>
    cases success with
    | true => exact absurd rfl failed
    | false =>
      have inBatch : hint ∈ queue.batch := by simp [batch]
      rw [InOrder, deliveries, sends] at inOrder
      rw [InOrder, deliveries]
      constructor
      · intro after _ _
        rw [eq_nil_iff_forall_not_mem]
        intro other member
        have ahead := (pairwise_append.mp (pairwise_append.mp inOrder).2.1).2.2 _ inBatch _ member
        have behind := (pairwise_append.mp (pairwise_append.mp after).2.1).2.2 _ member _ inBatch
        omega
      · intro undisturbed
        have none := undisturbed sends (ne_nil_of_mem inBatch)
        simpa [none] using inOrder
  | case6 success idle =>
    refine iff_of_true inOrder ?_
    cases success with
    | true => trivial
    | false =>
      intro sends some
      obtain ⟨hint, rest, batch⟩ := exists_cons_of_ne_nil some
      exact (idle hint rest sends batch).elim
  | case7 hint rest batch requeues =>
    refine iff_of_true ?_ trivial
    have moved : queue.deliveries = queue.delivered ++ (queue.stored ++ ([hint] ++ rest)) := by
      simp [deliveries, requeues, batch]
    rw [InOrder, moved] at inOrder
    fun_cases enqueueHint with
    | case1 =>
      refine inOrder.sublist ?_
      simp [deliveries, requeues]
    | case2 => simpa [InOrder, deliveries, requeues] using inOrder
  | case3 | case8 => exact iff_of_true inOrder trivial

end PeerHints

/-! ## The watcher of the hinted handoff -/

/-- A running `drain_hints_for_peer`.  Those of the second loop are in the draining set. -/
structure HintDrainTask where
  peerId : UInt64
  tracked : Bool
deriving DecidableEq

structure HintDrains where
  draining : List UInt64 := []
  tasks : List HintDrainTask := []

/-- The peers of the tick, and those that the loop has still to look at. -/
inductive WatcherPhase where
  | waiting
  | activating (currentNodes rest : List (UInt64 × NodeState))
  | sweeping (currentNodes rest : List (UInt64 × NodeState))

structure HintWatcher where
  prevStates : Std.ExtTreeMap UInt64 NodeState := ∅
  drains : HintDrains := {}
  phase : WatcherPhase := .waiting

inductive WatcherEvent where
  | tick (currentNodes : List (UInt64 × NodeState))
  /-- The loop goes on.  The second one reads the number of pending hints. -/
  | proceed (pendingHints : Nat)
  | drained (position : Nat)

namespace HintDrains

variable (drains : HintDrains)

def activate (prevState : Option NodeState) (peerId : UInt64) (state : NodeState) : HintDrains :=
  if state = .active ∧ prevState ≠ some .active then
    { drains with tasks := ⟨peerId, false⟩ :: drains.tasks }
  else drains

def sweep (peerId : UInt64) (state : NodeState) (pendingHints : Nat) : HintDrains :=
  if state ≠ .active ∨ pendingHints = 0 then drains
  else if peerId ∈ drains.draining then drains
  else ⟨peerId :: drains.draining, ⟨peerId, true⟩ :: drains.tasks⟩

def drained (position : Nat) : HintDrains :=
  match drains.tasks[position]? with
  | none => drains
  | some task =>
    { draining := if task.tracked then drains.draining.erase task.peerId else drains.draining
      tasks := drains.tasks.eraseIdx position }

abbrev OnePerPeer : Prop :=
  (drains.tasks.map (·.peerId)).Nodup

/-- The draining set holds the peers of the drains that the second loop has started. -/
def Tracked : Prop :=
  ((drains.tasks.filter (·.tracked)).map (·.peerId)).Perm drains.draining

end HintDrains

namespace HintWatcher

variable (watcher : HintWatcher)

def next (event : WatcherEvent) : HintWatcher :=
  match watcher.phase, event with
  | .waiting, .tick currentNodes =>
    { watcher with phase := .activating currentNodes currentNodes }
  | .activating currentNodes [], .proceed _ =>
    { watcher with phase := .sweeping currentNodes currentNodes }
  | .activating currentNodes ((peerId, state) :: rest), .proceed _ =>
    { watcher with
      phase := .activating currentNodes rest
      drains := watcher.drains.activate watcher.prevStates[peerId]? peerId state }
  | .sweeping currentNodes [], .proceed _ =>
    { watcher with phase := .waiting, prevStates := .ofList currentNodes }
  | .sweeping currentNodes ((peerId, state) :: rest), .proceed pendingHints =>
    { watcher with
      phase := .sweeping currentNodes rest
      drains := watcher.drains.sweep peerId state pendingHints }
  | _, .drained position => { watcher with drains := watcher.drains.drained position }
  | _, _ => watcher

/-- A peer becomes active when no drain of it runs, and one with pending hints is met in the
second loop when no drain of it runs that the first loop has started. -/
def Undisturbed (event : WatcherEvent) : Prop :=
  match watcher.phase, event with
  | .activating _ ((peerId, .active) :: _), .proceed _ =>
    watcher.prevStates[peerId]? = some .active ∨ ∀ task ∈ watcher.drains.tasks, task.peerId ≠ peerId
  | .sweeping _ ((peerId, .active) :: _), .proceed pendingHints =>
    pendingHints = 0 ∨ peerId ∈ watcher.drains.draining ∨ ⟨peerId, false⟩ ∉ watcher.drains.tasks
  | _, _ => True

variable {watcher} {event : WatcherEvent}

theorem tracked_next (tracked : watcher.drains.Tracked) : (watcher.next event).drains.Tracked := by
  unfold HintDrains.Tracked at tracked ⊢
  fun_cases next with
  | case3 => fun_cases HintDrains.activate <;> simpa
  | case5 => fun_cases HintDrains.sweep <;> simpa
  | case6 =>
    fun_cases HintDrains.drained with
    | case1 => exact tracked
    | case2 task found =>
      obtain ⟨inside, isTask⟩ := List.getElem?_eq_some_iff.mp found
      have perm := isTask ▸ getElem_cons_eraseIdx_perm inside
      have same := ((perm.filter (·.tracked)).map (·.peerId)).trans tracked
      cases isTracked : task.tracked with
      | true => simpa [isTracked] using same.erase task.peerId
      | false => simpa [isTracked] using same
  | _ => exact tracked

theorem onePerPeer_next (tracked : watcher.drains.Tracked) (one : watcher.drains.OnePerPeer) :
    (watcher.next event).drains.OnePerPeer ↔ watcher.Undisturbed event := by
  unfold Undisturbed HintDrains.OnePerPeer at *
  fun_cases next with
  | case3 _ _ _ _ _ atPeer =>
    fun_cases HintDrains.activate
    next => simp_all
    next => grind
  | case5 _ peerId _ _ _ atPeer =>
    fun_cases HintDrains.sweep
    next => grind
    next => grind
    next pending idle =>
      have untracked : ∀ task ∈ watcher.drains.tasks, task.peerId = peerId →
          task = ⟨peerId, false⟩ := by
        rintro ⟨_, _ | _⟩ member rfl
        · rfl
        · refine absurd (tracked.subset ?_) idle
          exact mem_map_of_mem (mem_filter.mpr ⟨member, rfl⟩)
      grind
  | case6 =>
    fun_cases HintDrains.drained
    next => simp [one]
    next => simp [one.sublist ((eraseIdx_sublist ..).map _)]
  | case7 => grind
  | _ => simp_all

/-- At most one drain of each peer runs all along exactly if no step finds one that the draining
set does not know. -/
theorem onePerPeer_iff (events : List WatcherEvent) :
    (∀ earlier, earlier <+: events → (run next {} earlier).drains.OnePerPeer) ↔
      Along next Undisturbed {} events := by
  refine forall_prefix_iff_along_of_preserved
    (fun (watcher : HintWatcher) _ (tracked : watcher.drains.Tracked) => tracked_next tracked)
    (fun watcher _ tracked (one : watcher.drains.OnePerPeer) => onePerPeer_next tracked one)
    ?_ ?_ events
  · exact .refl []
  · exact nodup_nil

/-- The first tick finds an active peer with a pending hint. -/
theorem firstTick_drains_twice :
    ¬(run next {} [.tick [(2, .active)], .proceed 1, .proceed 1,
      .proceed 1]).drains.OnePerPeer := by
  decide +kernel

end HintWatcher

end HyperbyteDb
