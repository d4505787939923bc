import HyperbyteDb.HintedHandoff
import Mathlib.Data.List.MinMax

/-!
# Where an accepted hint is

A drain deletes its records before it sends anything, so from then on its hints are in memory
only.
-/

namespace HyperbyteDb

open GuardedRuns HintedHandoff List

variable {record : HintRecord}

theorem mem_readRecords {room : Nat} {records : List HintRecord}
    (member : record ∈ readRecords room records) : record ∈ records := by
  fun_induction readRecords room records with
  | case1 | case2 => cases member
  | case3 _ head _ _ _ ih | case4 _ head _ _ _ ih =>
    rcases mem_cons.mp member with rfl | later
    · exact mem_cons_self
    · exact mem_cons_of_mem head (ih later)

def ReplicationHintPayload.Writable (payload : ReplicationHintPayload) : Prop :=
  ∃ value, payload.encodeHintValue = .ok value

theorem ReplicationHintPayload.writable_of_decodeHintValue {payload : ReplicationHintPayload}
    {written : ReplicationHintPayload} {value : List UInt8}
    (made : written.encodeHintValue = .ok value) (read : decodeHintValue value = .ok payload) :
    payload.Writable := by
  have same := Except.ok.inj (read.symm.trans (decodeHintValue_encodeHintValue made))
  have precision : (written.precision.filter (· ≠ "")).getD "" = written.precision.getD "" := by
    cases written.precision with
    | none => rfl
    | some text => by_cases empty : text = "" <;> simp [Option.filter, empty]
  refine ⟨value, ?_⟩
  rw [same, ← made]
  simp only [encodeHintValue, writtenFields, precision]

namespace HintedHandoff

variable {handoff : HintedHandoff} {world : HintWorld}

/-- What is known of a drain, in a store that has given out numbers up to `seq`. -/
structure DrainTracked (stored : List HintRecord) (seq : Nat) (drain : HintDrain) : Prop where
  writable : ∀ hint ∈ drain.batch, hint.2.Writable
  /-- The records it has still to delete are of hints in its batch. -/
  held : ∀ keys deleted, drain.phase = .deleting keys deleted → ∀ key ∈ keys, key ≤ seq ∧
    ∀ record ∈ stored, record.peerId = drain.peerId → record.seq = key →
      ∃ payload, (record.hint, payload) ∈ drain.batch

variable {position : Nat} {step : HintWorld → HintDrain → HintWorld × HintDrain}
  {stored : List HintRecord}

variable {drain : HintDrain}

theorem DrainTracked.mono {more : List HintRecord} {seq later : Nat}
    (tracked : DrainTracked stored seq drain)
    (old : ∀ record ∈ more, record.seq ≤ seq → record ∈ stored) (above : seq ≤ later) :
    DrainTracked more later drain := by
  refine ⟨tracked.writable, fun keys deleted phase key member => ?_⟩
  obtain ⟨below, held⟩ := tracked.held keys deleted phase key member
  exact ⟨below.trans above, fun record inMore samePeer sameSeq =>
    held record (old record inMore (sameSeq.trans_le below)) samePeer sameSeq⟩

structure Tracked (world : HintWorld) : Prop where
  numbered : ∀ record ∈ world.stored, record.seq ≤ world.seq
  distinct : (world.stored.map (·.seq)).Nodup
  known : ∀ record ∈ world.stored, (record.hint, record.peerId) ∈ world.accepted
  written : ∀ record ∈ world.stored, ∃ payload : ReplicationHintPayload,
    payload.encodeHintValue = .ok record.value
  drains : ∀ drain ∈ world.drains, DrainTracked world.stored world.seq drain
  calls : ∀ call ∈ world.calls, call.requeued → call.payload.Writable

theorem Tracked.initial : Tracked {} :=
  ⟨nofun, nodup_nil, nofun, nofun, nofun, nofun⟩

variable {call : EnqueueCall}

theorem Tracked.startCall (tracked : Tracked world)
    (writable : call.requeued → call.payload.Writable) :
    Tracked (handoff.startCall world call) := by
  fun_cases startCall with
  | case1 => exact tracked
  | case2 =>
    exact { tracked with
      calls := forall_mem_append.mpr ⟨tracked.calls, forall_mem_singleton.mpr writable⟩ }

theorem mem_insertRecord {other : HintRecord} :
    other ∈ insertRecord record stored ↔ other = record ∨ other ∈ stored :=
  mem_orderedInsert _

theorem Tracked.finishCall (tracked : Tracked world) (call : EnqueueCall) (stored : Bool) :
    Tracked (finishCall world call stored) := by
  fun_cases finishCall with
  | case1 seq value made =>
    refine ⟨?_, ?_, ?_, ?_, fun drain member => (tracked.drains drain member).mono ?_ ?_,
      tracked.calls⟩
    · intro record member
      rcases mem_insertRecord.mp member with rfl | before
      · exact le_refl _
      · exact (tracked.numbered record before).trans (Nat.le_succ _)
    · have moved : ((insertRecord ⟨call.peerId, seq, value, call.hint⟩
          world.stored).map (·.seq)).Perm (seq :: world.stored.map (·.seq)) :=
        (perm_orderedInsert _ _ _).map _
      refine moved.nodup_iff.mpr (nodup_cons.mpr ⟨fun used => ?_, tracked.distinct⟩)
      obtain ⟨record, member, same⟩ := mem_map.mp used
      have := tracked.numbered record member
      omega
    · intro record member
      rcases mem_insertRecord.mp member with rfl | before
      · simp
      · exact mem_append_left _ (tracked.known record before)
    · intro record member
      rcases mem_insertRecord.mp member with rfl | before
      · exact ⟨call.payload, made⟩
      · exact tracked.written record before
    · intro record member old
      rcases mem_insertRecord.mp member with rfl | before
      · exact absurd old (Nat.not_succ_le_self _)
      · exact before
    · exact Nat.le_succ _
  | case2 =>
    exact { tracked with
      numbered := fun record member => (tracked.numbered record member).trans (Nat.le_succ _)
      drains := fun drain member =>
        (tracked.drains drain member).mono (fun _ member _ => member) (Nat.le_succ _) }

theorem Tracked.startDrain (tracked : Tracked world) (peerId : UInt64) :
    Tracked (startDrain world peerId) := by
  refine { tracked with
    drains := forall_mem_append.mpr ⟨tracked.drains, forall_mem_singleton.mpr ?_⟩ }
  have inStore : ∀ record ∈ readRecords drainBatchSize
      (world.stored.filter (·.peerId = peerId)), record ∈ world.stored :=
    fun record member => mem_of_mem_filter (mem_readRecords member)
  refine ⟨fun hint member => ?_, fun keys deleted phase key member => ?_⟩
  · obtain ⟨record, read, readable⟩ := mem_filterMap.mp member
    obtain ⟨payload, made⟩ := tracked.written record (inStore record read)
    unfold readableHint at readable
    split at readable
    · next decoded =>
        cases readable
        exact ReplicationHintPayload.writable_of_decodeHintValue made decoded
    · cases readable
  · cases phase
    obtain ⟨read, isRead, rfl⟩ := mem_map.mp member
    refine ⟨tracked.numbered read (inStore read isRead), fun record stored _ same => ?_⟩
    obtain rfl := inj_on_of_nodup_map tracked.distinct stored (inStore read isRead) same
    obtain ⟨payload, made⟩ := tracked.written record stored
    have readable : readableHint record = some (record.hint,
        { payload with precision := payload.precision.filter (· ≠ "") }) := by
      rw [readableHint, decodeHintValue_encodeHintValue made]
    exact ⟨_, mem_filterMap.mpr ⟨record, isRead, readable⟩⟩

theorem Tracked.advance (tracked : Tracked world)
    (kept : ∀ drain ∈ world.drains, Tracked (step world drain).1 ∧
      (step world drain).1.drains = world.drains ∧
      DrainTracked (step world drain).1.stored (step world drain).1.seq (step world drain).2) :
    Tracked (advance world position step) := by
  fun_cases advance with
  | case1 => exact tracked
  | case2 drain found after left made =>
    obtain ⟨trackedAfter, sameDrains, trackedDrain⟩ := kept drain (mem_of_getElem? found)
    rw [made] at trackedAfter sameDrains trackedDrain
    refine { trackedAfter with drains := fun other member => ?_ }
    rcases mem_or_eq_of_mem_set member with before | rfl
    · exact trackedAfter.drains other (sameDrains ▸ before)
    · exact trackedDrain

def nextKey (drain : HintDrain) : Option Nat :=
  match drain.phase with
  | .deleting (key :: _) _ => some key
  | _ => none

theorem DrainTracked.of_deleting {seq key : Nat} {keys : List Nat} {deleted more : Nat}
    (tracked : DrainTracked stored seq drain)
    (phase : drain.phase = .deleting (key :: keys) deleted) :
    DrainTracked stored seq { drain with phase := .deleting keys more } := by
  refine ⟨tracked.writable, fun others count is other member => ?_⟩
  cases is
  exact tracked.held _ _ phase other (mem_cons_of_mem key member)

section Tracked

variable (tracked : Tracked world)
include tracked

theorem Tracked.filter (keep : HintRecord → Bool) :
    Tracked { world with stored := world.stored.filter keep } :=
  ⟨fun record member => tracked.numbered record (mem_of_mem_filter member),
    tracked.distinct.sublist (filter_sublist.map _),
    fun record member => tracked.known record (mem_of_mem_filter member),
    fun record member => tracked.written record (mem_of_mem_filter member),
    fun drain member => (tracked.drains drain member).mono
      (fun _ kept _ => mem_of_mem_filter kept) (le_refl _),
    tracked.calls⟩

theorem Tracked.delete (position : Nat) (done : Bool) :
    Tracked (HintedHandoff.advance world position (stepDelete · · done)) := by
  refine tracked.advance fun drain member => ?_
  have ofDrain := tracked.drains drain member
  fun_cases stepDelete with
  | case1 key keys deleted phase =>
    exact ⟨tracked.filter _, rfl, (ofDrain.of_deleting phase).mono
      (fun _ kept _ => mem_of_mem_filter kept) (le_refl _)⟩
  | case2 key keys deleted phase => exact ⟨tracked, rfl, ofDrain.of_deleting phase⟩
  | case3 => exact ⟨tracked, rfl, ofDrain⟩

theorem Tracked.release (position : Nat) :
    Tracked (HintedHandoff.advance world position stepRelease) := by
  refine tracked.advance fun drain member => ?_
  have ofDrain := tracked.drains drain member
  fun_cases stepRelease with
  | case1 => exact ⟨{ tracked with }, rfl, ofDrain.writable, nofun⟩
  | case2 => exact ⟨tracked, rfl, ofDrain⟩

theorem Tracked.post (position : Nat) (success : Bool) :
    Tracked (HintedHandoff.advance world position (stepPost · · success)) := by
  refine tracked.advance fun drain member => ?_
  have ofDrain := tracked.drains drain member
  fun_cases stepPost with
  | case1 hint rest batch phase =>
    refine ⟨{ tracked with }, rfl, fun other left => ofDrain.writable other ?_, ?_⟩
    · rw [batch]
      exact mem_cons_of_mem hint left
    · rw [phase]
      nofun
  | case2 => exact ⟨tracked, rfl, ofDrain.writable, nofun⟩
  | case3 => exact ⟨tracked, rfl, ofDrain⟩

theorem Tracked.requeue (position : Nat) :
    Tracked (HintedHandoff.advance world position handoff.stepRequeue) := by
  refine tracked.advance fun drain member => ?_
  have ofDrain := tracked.drains drain member
  fun_cases stepRequeue with
  | case1 hint rest batch phase =>
    have writable := ofDrain.writable
    rw [batch] at writable
    obtain ⟨first, others⟩ := forall_mem_cons.mp writable
    refine ⟨tracked.startCall fun _ => first, ?_, others, ?_⟩
    · fun_cases HintedHandoff.startCall <;> rfl
    · rw [phase]
      nofun
  | case2 => exact ⟨tracked, rfl, ofDrain⟩

theorem Tracked.next (event : HintEvent) : Tracked (handoff.next world event) := by
  cases event with
  | enqueue peerId payload =>
    have counted : Tracked { world with hints := world.hints + 1 } := { tracked with }
    exact counted.startCall nofun
  | put position stored =>
    simp only [HintedHandoff.next]
    split
    · exact tracked
    · have taken : Tracked { world with calls := world.calls.eraseIdx position } :=
        { tracked with
          calls := fun call member => tracked.calls call (mem_of_mem_eraseIdx member) }
      exact taken.finishCall _ stored
  | drain peerId => exact tracked.startDrain peerId
  | delete position done => exact tracked.delete position done
  | release position => exact tracked.release position
  | post position success => exact tracked.post position success
  | requeue position => exact tracked.requeue position
  | crash =>
    exact { tracked with
      numbered := fun record member =>
        le_max_of_le' 0 (mem_map_of_mem member) (le_refl _)
      drains := nofun
      calls := nofun }

end Tracked

/-! ## Deleting before sending -/

def DeletesDelivered (world : HintWorld) : HintEvent → Prop
  | .delete position true => ∀ drain ∈ world.drains[position]?, ∀ key ∈ nextKey drain,
      ∀ record ∈ world.stored, record.peerId = drain.peerId → record.seq = key →
        (record.hint, record.peerId) ∈ world.delivered ∨
          ∃ other ∈ world.stored, other.hint = record.hint ∧ other.peerId = record.peerId ∧
            other.seq ≠ key
  | _ => True

variable {after : HintWorld}

/-- A step that takes nothing from the store keeps every hint. -/
theorem NoneLost.mono (holds : NoneLost world)
    (accepted : ∀ item ∈ after.accepted, item ∈ world.accepted ∨ Stored after item)
    (stored : ∀ record ∈ world.stored, record ∈ after.stored)
    (delivered : ∀ item ∈ world.delivered, item ∈ after.delivered) : NoneLost after := by
  intro item member
  rcases accepted item member with before | isNew
  · rcases holds item before with ⟨record, inStore, same⟩ | reached
    · exact .inl ⟨record, stored record inStore, same⟩
    · exact .inr (delivered item reached)
  · exact .inl isNew

theorem noneLost_delete_iff (tracked : Tracked world) (holds : NoneLost world) (position : Nat)
    (done : Bool) :
    NoneLost (advance world position (stepDelete · · done)) ↔
      DeletesDelivered world (.delete position done) := by
  fun_cases advance with
  | case1 absent =>
    cases done with
    | false => exact iff_of_true holds trivial
    | true => simpa [DeletesDelivered, absent] using holds
  | case2 drain found after left made =>
  revert made
  fun_cases stepDelete with
  | case3 other =>
    rintro ⟨⟩
    have noKey : nextKey drain = none := by
      fun_cases nextKey with
      | case1 key keys deleted phase => exact absurd phase (other key keys deleted)
      | case2 => rfl
    cases done with
    | false => exact iff_of_true holds trivial
    | true => exact iff_of_true holds (by simp [DeletesDelivered, found, noKey])
  | case2 _ _ _ _ notDone =>
    rintro ⟨⟩
    rw [Bool.not_eq_true] at notDone
    subst notDone
    exact iff_of_true holds trivial
  | case1 key keys deleted phase isDone =>
    rintro ⟨⟩
    subst isDone
    have condition : DeletesDelivered world (.delete position true) ↔
        ∀ record ∈ world.stored, record.peerId = drain.peerId → record.seq = key →
          (record.hint, record.peerId) ∈ world.delivered ∨
            ∃ other ∈ world.stored, other.hint = record.hint ∧ other.peerId = record.peerId ∧
              other.seq ≠ key := by
      simp only [DeletesDelivered, found, Option.mem_some_iff, forall_eq', nextKey, phase]
    rw [condition]
    constructor
    · intro kept record inStore samePeer sameSeq
      rcases kept _ (tracked.known record inStore) with ⟨other, survives, same, peer⟩ | reached
      · obtain ⟨inside, notDeleted⟩ := mem_filter.mp survives
        refine .inr ⟨other, inside, same, peer, fun sameKey => ?_⟩
        exact of_decide_eq_true notDeleted ⟨peer.trans samePeer, sameKey⟩
      · exact .inl reached
    · intro allowed item member
      rcases holds item member with ⟨record, inStore, same, peer⟩ | reached
      · by_cases gone : record.peerId = drain.peerId ∧ record.seq = key
        · rcases allowed record inStore gone.1 gone.2 with
            reached | ⟨other, inside, otherSame, otherPeer, survives⟩
          · rw [same, peer] at reached
            exact .inr reached
          · refine .inl ⟨other, mem_filter.mpr ⟨inside, decide_eq_true ?_⟩,
              otherSame.trans same, otherPeer.trans peer⟩
            exact fun both => survives both.2
        · exact .inl ⟨record, mem_filter.mpr ⟨inStore, decide_eq_true gone⟩, same, peer⟩
      · exact .inr reached

theorem NoneLost.advance (holds : NoneLost world) (kept : ∀ drain, NoneLost (step world drain).1) :
    NoneLost (advance world position step) := by
  fun_cases advance with
  | case1 => exact holds
  | case2 drain _ _ _ made =>
    have keptDrain := kept drain
    rwa [made] at keptDrain

theorem NoneLost.startCall (holds : NoneLost world) (call : EnqueueCall) :
    NoneLost (handoff.startCall world call) := by
  fun_cases startCall <;> exact holds

theorem noneLost_next_iff (tracked : Tracked world) (holds : NoneLost world) (event : HintEvent) :
    NoneLost (handoff.next world event) ↔ DeletesDelivered world event := by
  cases event with
  | delete position done => exact noneLost_delete_iff tracked holds position done
  | enqueue peerId payload =>
    have counted : NoneLost { world with hints := world.hints + 1 } := holds
    exact iff_of_true (counted.startCall _) trivial
  | put position stored =>
    refine iff_of_true ?_ trivial
    simp only [next]
    split
    · exact holds
    · next call found =>
        fun_cases finishCall
        · refine holds.mono (fun item member => ?_)
            (fun record member => mem_insertRecord.mpr (.inr member)) fun _ member => member
          rcases mem_append.mp member with before | isNew
          · exact .inl before
          · obtain rfl := mem_singleton.mp isNew
            exact .inr ⟨_, mem_insertRecord.mpr (.inl rfl), rfl, rfl⟩
        · exact holds
  | drain peerId => exact iff_of_true holds trivial
  | release position =>
    refine iff_of_true (holds.advance fun drain => ?_) trivial
    fun_cases stepRelease <;> exact holds
  | post position success =>
    refine iff_of_true (holds.advance fun drain => ?_) trivial
    fun_cases stepPost with
    | case1 =>
      exact holds.mono (fun _ member => .inl member) (fun _ member => member)
        fun _ member => mem_append_left _ member
    | _ => exact holds
  | requeue position =>
    refine iff_of_true (holds.advance fun drain => ?_) trivial
    fun_cases stepRequeue
    · exact holds.startCall _
    · exact holds
  | crash => exact iff_of_true holds trivial

/-! ## Hints in memory -/

def HoldsHint (drain : HintDrain) (item : Nat × UInt64) : Prop :=
  drain.peerId = item.2 ∧ ∃ payload, (item.1, payload) ∈ drain.batch

def RequeuesHint (call : EnqueueCall) (item : Nat × UInt64) : Prop :=
  call.requeued = true ∧ call.hint = item.1 ∧ call.peerId = item.2

def AllHeld (world : HintWorld) : Prop :=
  ∀ item ∈ world.accepted, Stored world item ∨ item ∈ world.delivered ∨
    (∃ drain ∈ world.drains, HoldsHint drain item) ∨
    ∃ call ∈ world.calls, RequeuesHint call item

variable (handoff) in
/-- The condition on a step: no crash while a hint is in memory only, a slot for every hint
that is stored again, and no failure of its write. -/
def Undisturbed (world : HintWorld) : HintEvent → Prop
  | .put position stored => ∀ call ∈ world.calls[position]?, call.requeued → stored = true
  | .requeue position => ∀ drain ∈ world.drains[position]?,
      ¬(0 < handoff.maxHintsPerPeer ∧ handoff.maxHintsPerPeer ≤ world.counts.getD drain.peerId 0)
  | .crash => (∀ drain ∈ world.drains, drain.batch = []) ∧
      ∀ call ∈ world.calls, call.requeued = false
  | _ => True

/-- A step that takes nothing from the store or from memory keeps every hint. -/
theorem AllHeld.mono (held : AllHeld world)
    (accepted : ∀ item ∈ after.accepted, item ∈ world.accepted ∨ Stored after item)
    (stored : ∀ item, Stored world item → Stored after item)
    (delivered : after.delivered = world.delivered) (drains : world.drains ⊆ after.drains)
    (calls : ∀ call ∈ world.calls, call ∈ after.calls ∨
      (call.requeued → Stored after (call.hint, call.peerId))) : AllHeld after := by
  intro item member
  rcases accepted item member with before | isNew
  · rcases held item before with
      inStore | reached | ⟨drain, inDrains, holds⟩ | ⟨call, inCalls, requeued, sameHint, samePeer⟩
    · exact .inl (stored item inStore)
    · exact .inr (.inl (delivered ▸ reached))
    · exact .inr (.inr (.inl ⟨drain, drains inDrains, holds⟩))
    · rcases calls call inCalls with remains | again
      · exact .inr (.inr (.inr ⟨call, remains, requeued, sameHint, samePeer⟩))
      · rw [show item = (call.hint, call.peerId) from (Prod.ext sameHint samePeer).symm]
        exact .inl (again requeued)
  · exact .inl isNew

theorem AllHeld.startCall (held : AllHeld world) (call : EnqueueCall) :
    AllHeld (handoff.startCall world call) := by
  fun_cases startCall
  · exact held
  · exact held.mono (fun _ => .inl) (fun _ => id) rfl (List.Subset.refl _)
      fun other member => .inl (mem_append_left _ member)

theorem AllHeld.put (held : AllHeld world) (tracked : Tracked world)
    {stored : Bool} (found : world.calls[position]? = some call)
    (allowed : call.requeued → stored = true) :
    AllHeld (finishCall { world with calls := world.calls.eraseIdx position } call stored) := by
  obtain ⟨within, isCall⟩ := List.getElem?_eq_some_iff.mp found
  have others : ∀ other ∈ world.calls, other = call ∨ other ∈ world.calls.eraseIdx position := by
    intro other member
    have moved := (getElem_cons_eraseIdx_perm within).mem_iff.mpr member
    rwa [isCall, mem_cons] at moved
  fun_cases finishCall with
  | case1 _ value =>
    have stays : ∃ record ∈ insertRecord ⟨call.peerId, world.seq + 1, value, call.hint⟩
        world.stored, record.hint = call.hint ∧ record.peerId = call.peerId :=
      ⟨_, mem_insertRecord.mpr (.inl rfl), rfl, rfl⟩
    refine held.mono (fun item member => ?_) ?_ rfl (List.Subset.refl _) fun other member => ?_
    · refine (mem_append.mp member).imp_right fun isNew => ?_
      obtain rfl := mem_singleton.mp isNew
      exact stays
    · rintro item ⟨record, inStore, same⟩
      exact ⟨record, mem_insertRecord.mpr (.inr inStore), same⟩
    · rcases others other member with rfl | remains
      · exact .inr fun _ => stays
      · exact .inl remains
  | case2 _ _ failed =>
    refine held.mono (fun _ => .inl) (fun _ => id) rfl (List.Subset.refl _) fun other member => ?_
    rcases others other member with rfl | remains
    · refine .inr fun requeued => ?_
      obtain ⟨value, made⟩ := tracked.calls other member requeued
      exact absurd (allowed requeued) (failed value made)
    · exact .inl remains

/-- A step of a drain loses no hint of the store or of its batch. -/
structure KeepsHints (world : HintWorld) (drain : HintDrain) (after : HintWorld × HintDrain) :
    Prop where
  accepted : after.1.accepted = world.accepted
  delivered : world.delivered ⊆ after.1.delivered
  calls : world.calls ⊆ after.1.calls
  stored : ∀ item, Stored world item → Stored after.1 item ∨ HoldsHint after.2 item
  batch : ∀ item, HoldsHint drain item → HoldsHint after.2 item ∨
    item ∈ after.1.delivered ∨ ∃ call ∈ after.1.calls, RequeuesHint call item

theorem KeepsHints.same {phase : DrainPhase}
    {counts : Std.ExtTreeMap UInt64 Nat} :
    KeepsHints world drain ({ world with counts }, { drain with phase }) :=
  ⟨rfl, fun _ => id, fun _ => id, fun _ => .inl, fun _ => .inl⟩

section Held

variable (held : AllHeld world)
include held

theorem AllHeld.advance (kept : ∀ drain, world.drains[position]? = some drain →
      KeepsHints world drain (step world drain)) : AllHeld (advance world position step) := by
  fun_cases advance with
  | case1 => exact held
  | case2 drain found after left made =>
  have keptDrain := kept drain found
  rw [made] at keptDrain
  obtain ⟨accepted, delivered, calls, stored, batch⟩ := keptDrain
  obtain ⟨within, isDrain⟩ := List.getElem?_eq_some_iff.mp found
  have newHolds : ∀ item, HoldsHint left item →
      ∃ other ∈ world.drains.set position left, HoldsHint other item :=
    fun item holds => ⟨_, mem_set within _, holds⟩
  intro item member
  rcases held item (accepted ▸ member) with
    inStore | reached | ⟨other, inDrains, holds⟩ | ⟨call, inCalls, same⟩
  · rcases stored item inStore with stays | moved
    · exact .inl stays
    · exact .inr (.inr (.inl (newHolds item moved)))
  · exact .inr (.inl (delivered reached))
  · obtain ⟨index, inside, isOther⟩ := mem_iff_getElem.mp inDrains
    by_cases here : position = index
    · have sameDrain : drain = other := by
        subst here
        exact isDrain.symm.trans isOther
      rcases batch item (sameDrain ▸ holds) with moved | rest
      · exact .inr (.inr (.inl (newHolds item moved)))
      · rcases rest with reached | requeued
        · exact .inr (.inl reached)
        · exact .inr (.inr (.inr requeued))
    · refine .inr (.inr (.inl ⟨other, ?_, holds⟩))
      rw [mem_iff_getElem]
      refine ⟨index, by simpa using inside, ?_⟩
      rw [getElem_set_ne here]
      exact isOther
  · exact .inr (.inr (.inr ⟨call, calls inCalls, same⟩))

theorem AllHeld.delete (tracked : Tracked world) (position : Nat) (done : Bool) :
    AllHeld (HintedHandoff.advance world position (stepDelete · · done)) := by
  refine held.advance fun drain found => ?_
  fun_cases stepDelete with
  | case2 | case3 => exact .same
  | case1 key keys deleted phase =>
    refine ⟨rfl, fun _ => id, fun _ => id, ?_, fun _ => .inl⟩
    rintro item ⟨record, inStore, same, peer⟩
    by_cases gone : record.peerId = drain.peerId ∧ record.seq = key
    · -- The record goes, and its hint is in the batch.
      obtain ⟨payload, inBatch⟩ := ((tracked.drains drain (mem_of_getElem? found)).held _ _
        phase key mem_cons_self).2 record inStore gone.1 gone.2
      exact .inr ⟨gone.1.symm.trans peer, payload, same ▸ inBatch⟩
    · exact .inl ⟨record, mem_filter.mpr ⟨inStore, decide_eq_true gone⟩, same, peer⟩

theorem AllHeld.release (position : Nat) :
    AllHeld (HintedHandoff.advance world position stepRelease) := by
  refine held.advance fun drain _ => ?_
  fun_cases stepRelease <;> exact .same

theorem AllHeld.post (position : Nat) (success : Bool) :
    AllHeld (HintedHandoff.advance world position (stepPost · · success)) := by
  refine held.advance fun drain _ => ?_
  fun_cases stepPost with
  | case1 hint rest batch phase =>
    refine ⟨rfl, fun _ => mem_append_left _, fun _ => id, fun _ => .inl, ?_⟩
    rintro item ⟨peer, payload, inBatch⟩
    rw [batch] at inBatch
    rcases mem_cons.mp inBatch with isHint | later
    · -- The hint just answered.
      refine .inr (.inl (mem_append_right _ (mem_singleton.mpr ?_)))
      rw [← isHint]
      exact Prod.ext rfl peer.symm
    · exact .inl ⟨peer, payload, later⟩
  | _ => exact .same

theorem AllHeld.requeue (room : ∀ drain ∈ world.drains[position]?, ¬(0 < handoff.maxHintsPerPeer ∧
      handoff.maxHintsPerPeer ≤ world.counts.getD drain.peerId 0)) :
    AllHeld (HintedHandoff.advance world position handoff.stepRequeue) := by
  refine held.advance fun drain found => ?_
  fun_cases stepRequeue with
  | case1 hint rest batch phase =>
    have reserved : handoff.reserve world.counts drain.peerId = .ok _ :=
      if_neg (room drain found)
    rw [HintedHandoff.startCall, reserved]
    refine ⟨rfl, fun _ => id, fun _ => mem_append_left _, fun _ => .inl, ?_⟩
    rintro item ⟨peer, payload, inBatch⟩
    rw [batch] at inBatch
    rcases mem_cons.mp inBatch with isHint | later
    · refine .inr (.inr ⟨_, mem_append_right _ (mem_singleton_self _), rfl, ?_, peer⟩)
      exact congrArg Prod.fst isHint.symm
    · exact .inl ⟨peer, payload, later⟩
  | case2 => exact .same

theorem AllHeld.next (tracked : Tracked world) {event : HintEvent}
    (allowed : handoff.Undisturbed world event) : AllHeld (handoff.next world event) := by
  cases event with
  | enqueue peerId payload =>
    have counted : AllHeld { world with hints := world.hints + 1 } := held
    exact counted.startCall _
  | put position stored =>
    simp only [HintedHandoff.next]
    split
    · exact held
    · next call found => exact held.put tracked found (allowed call found)
  | drain peerId =>
    exact held.mono (fun _ => .inl) (fun _ => id) rfl (subset_append_left _ _) fun _ => .inl
  | delete position done => exact held.delete tracked position done
  | release position => exact held.release position
  | post position success => exact held.post position success
  | requeue position => exact held.requeue allowed
  | crash =>
    intro item member
    rcases held item member with
      inStore | reached | ⟨drain, inDrains, -, payload, inBatch⟩ | ⟨call, inCalls, requeued, -⟩
    · exact .inl inStore
    · exact .inr (.inl reached)
    · rw [allowed.1 drain inDrains] at inBatch
      cases inBatch
    · rw [allowed.2 call inCalls] at requeued
      cases requeued

end Held

/-- No hint is on its way between the store and the peer. -/
def Idle (world : HintWorld) : Prop :=
  (∀ drain ∈ world.drains, drain.batch = []) ∧ world.calls = []

theorem AllHeld.noneLost (held : AllHeld world) (idle : Idle world) : NoneLost world := by
  intro item member
  rcases held item member with
    inStore | reached | ⟨drain, inDrains, -, payload, inBatch⟩ | ⟨call, inCalls, -⟩
  · exact .inl inStore
  · exact .inr reached
  · rw [idle.1 drain inDrains] at inBatch
    cases inBatch
  · rw [idle.2] at inCalls
    cases inCalls

theorem allHeld_run {events : List HintEvent}
    (allowed : Along handoff.next handoff.Undisturbed {} events) :
    AllHeld (run handoff.next {} events) := by
  have both := run_invariant (fun world event
    (both : Tracked world ∧ AllHeld world) step => And.intro (both.1.next event)
      (both.2.next both.1 step)) ⟨.initial, nofun⟩ allowed
  exact both.2

/-- In every state of a run each accepted hint is stored or was delivered just if drains
delete no record of an undelivered hint.  If drains may do so, but nothing disturbs them,
then it is stored or was delivered whenever no hint is in memory. -/
theorem hints_kept_iff (handoff : HintedHandoff) (events : List HintEvent) :
    ((∀ earlier, earlier <+: events → NoneLost (run handoff.next {} earlier)) ↔
      Along handoff.next DeletesDelivered {} events) ∧
    (Along handoff.next handoff.Undisturbed {} events →
      Idle (run handoff.next {} events) → NoneLost (run handoff.next {} events)) := by
  constructor
  · exact forall_prefix_iff_along_of_preserved
      (fun (world : HintWorld) event (tracked : Tracked world) => tracked.next event)
      (fun _ event tracked holds => noneLost_next_iff tracked holds event) .initial nofun events
  · exact fun allowed idle => (allHeld_run allowed).noneLost idle

end HintedHandoff

def missedWrite : ReplicationHintPayload := ⟨"db", "rp", none, [49]⟩

/-- A writer's hint for peer 2 is stored, and a drain has deleted its record. -/
def takenHint : List HintEvent :=
  [.enqueue 2 missedWrite, .put 0 true, .drain 2, .delete 0 true, .release 0]

/-- The peer does not answer; the hint is stored again and delivered by the next drain. -/
def requeuedHint : List HintEvent :=
  takenHint ++ [.post 0 false, .requeue 0, .put 0 true, .drain 2, .delete 1 true, .release 1,
    .post 1 true]

theorem requeuedHint_kept : HintedHandoff.NoneLost (run (next ⟨1⟩) {} requeuedHint) := by
  have stored : ∀ {world : HintWorld} {position : Nat},
      HintedHandoff.Undisturbed ⟨1⟩ world (.put position true) := fun _ _ _ => rfl
  have room : HintedHandoff.Undisturbed ⟨1⟩
      (run (next ⟨1⟩) {} (takenHint ++ [.post 0 false]))
      (.requeue 0) := by
    unfold HintedHandoff.Undisturbed
    decide +kernel
  have allowed : Along (next ⟨1⟩) (HintedHandoff.Undisturbed ⟨1⟩) {}
      requeuedHint :=
    ⟨trivial, stored, trivial, trivial, trivial, trivial, room, stored, trivial, trivial,
      trivial, trivial, trivial⟩
  refine (hints_kept_iff ⟨1⟩ requeuedHint).2 allowed ?_
  constructor
  · decide +kernel
  · decide +kernel

/-- Another writer takes the only slot while the batch is out. -/
def displacedHint : List HintEvent :=
  takenHint ++ [.enqueue 2 missedWrite, .put 0 true, .post 0 false, .requeue 0]

/-- The first hint was accepted; after a crash, or when the limit is reached, it is neither
stored nor delivered. -/
theorem takenHint_lost :
    ¬HintedHandoff.NoneLost (run (next ⟨1⟩) {} (takenHint ++ [.crash])) ∧
      ¬HintedHandoff.NoneLost (run (next ⟨1⟩) {} displacedHint) := by
  constructor
  · intro kept
    have := kept (0, 2) (by decide +kernel)
    revert this
    unfold HintedHandoff.Stored
    decide +kernel
  · intro kept
    have := kept (0, 2) (by decide +kernel)
    revert this
    unfold HintedHandoff.Stored
    decide +kernel

end HyperbyteDb
