import HyperbyteDb.FlushStepSafety
import HyperbyteDb.ServiceErrors

/-!
# Catching up with the log of a peer

A node without a shard map that reconnects or joins copies the entries that it lacks from the
log of one peer.  Every node numbers its own log, and the copying starts in the peer's log
after the number that this node's log has reached.
-/

namespace HyperbyteDb

open List OrderedRows

/-- The points of an entry, with the database and the retention policy they are for. -/
def WalEntry.records (entry : WalEntry) : List (String × String × Point) :=
  entry.points.map (entry.database, entry.retentionPolicy, ·)

/-- What a node ever appended to its log, and the last number it gave. -/
structure NodeLog where
  appended : List WalEntry
  lastSequence : Nat

namespace NodeLog

def append (log : NodeLog) (entry : WalEntry) : NodeLog :=
  ⟨log.appended ++ [entry], log.lastSequence + 1⟩

def Holds (log : NodeLog) (point : String × String × Point) : Prop :=
  ∃ entry ∈ log.appended, point ∈ entry.records

end NodeLog

variable {ρ : Type}

/-- What one call meets: the log of a peer that has truncated nothing, the metadata sync, what
others append to this node's log meanwhile, the requests that fail, and the entries that cannot
be registered or appended. -/
structure SyncCall (ρ : Type) where
  rows : Rows Nat (WalRow ρ)
  remoteWalSeq : Nat
  within : ∀ seq ∈ rows, seq ≤ remoteWalSeq
  syncMetadata : Except HyperbytedbError Unit
  meanwhile : List WalEntry
  request : Nat → Except HyperbytedbError Unit
  accept : WalEntry → Except HyperbytedbError Unit

def verifyCatchupProgress (localBefore remote applied localAfter : Nat) :
    Except HyperbytedbError Unit :=
  if remote ≤ localBefore then .ok ()
  else if applied = 0 ∧ localAfter ≤ localBefore then
    .error (.syncFailed (s!"peer reports wal_last_seq={remote} but returned no WAL entries " ++
      s!"from seq {localBefore + 1}"))
  else .ok ()

def smallGapThreshold : Nat := 10000

namespace SyncCall

variable (call : SyncCall ρ)

def appendCatchupEntry (log : NodeLog) (entry : WalEntry) : Except HyperbytedbError NodeLog :=
  if entry.points.isEmpty then .ok log
  else
    match call.accept entry with
    | .error cause => .error cause
    | .ok () => .ok (log.append entry)

/-- The log and the number of entries read, or nothing while the loop still runs. -/
def walCatchup : (fuel request cursor total : Nat) → NodeLog →
    Option (Except HyperbytedbError (NodeLog × Nat))
  | 0, _, _, _, _ => none
  | fuel + 1, request, cursor, total, log =>
    match call.request request with
    | .error cause => some (.error cause)
    | .ok () =>
      let found := readRange call.rows (cursor + 1) 5000
      if found.isEmpty then some (.ok (log, total))
      else
        match found.foldlM (fun log item => call.appendCatchupEntry log item.2.entry) log with
        | .error cause => some (.error cause)
        | .ok after =>
          walCatchup fuel (request + 1) (FlushService.chunkMax cursor found)
            (total + found.length) after

def catchUp (fuel cursor : Nat) (log : NodeLog) : Option (Except HyperbytedbError NodeLog) :=
  match call.walCatchup fuel 0 cursor 0 log with
  | none => none
  | some (.error cause) => some (.error cause)
  | some (.ok (after, applied)) =>
    some ((verifyCatchupProgress cursor call.remoteWalSeq applied after.lastSequence).map
      fun _ => after)

/-- The log that `Ok(true)` leaves. -/
def reconnectSync (fuel : Nat) (log : NodeLog) : Option (Except HyperbytedbError NodeLog) :=
  let gap := call.remoteWalSeq - log.lastSequence
  if gap = 0 then some (.ok log)
  else if gap ≤ smallGapThreshold then call.catchUp fuel log.lastSequence log
  else
    match call.syncMetadata with
    | .error cause => some (.error cause)
    | .ok () =>
      let updated := call.meanwhile.foldl .append log
      call.catchUp fuel updated.lastSequence updated

def joinAndSync (fuel : Nat) (log : NodeLog) : Option (Except HyperbytedbError NodeLog) :=
  match call.syncMetadata with
  | .error cause => some (.error cause)
  | .ok () => call.catchUp fuel log.lastSequence (call.meanwhile.foldl .append log)

/-! ## What is copied -/

def Contains (among : Nat → Prop) (point : String × String × Point) : Prop :=
  ∃ (seq : Nat) (row : WalRow ρ), call.rows[seq]? = some row ∧ among seq ∧ point ∈ row.entry.records

def HeldBy (log : NodeLog) : Prop :=
  ∀ point, call.Contains (fun _ => True) point → log.Holds point

/-- A point of the peer's log up to the number where the copying starts is in this node's log
already, or comes again later. -/
def SkippedHeld (cursor : Nat) (log : NodeLog) : Prop :=
  ∀ point, call.Contains (· ≤ cursor) point → log.Holds point ∨ call.Contains (cursor < ·) point

/-- The log with which a reconnecting node starts to copy. -/
def reconnectLog (log : NodeLog) : NodeLog :=
  if call.remoteWalSeq - log.lastSequence ≤ smallGapThreshold then log
  else call.meanwhile.foldl .append log

variable {call} {log after : NodeLog} {cursor fuel : Nat} {point : String × String × Point}

theorem holds_foldlM {found : List (Nat × WalRow ρ)}
    (appended : found.foldlM (fun log item => call.appendCatchupEntry log item.2.entry) log =
      .ok after) :
    after.Holds point ↔ log.Holds point ∨ ∃ item ∈ found, point ∈ item.2.entry.records := by
  induction found generalizing log with
  | nil =>
    cases appended
    simp
  | cons item found ih =>
    rw [foldlM_cons] at appended
    obtain ⟨middle, first, rest⟩ := ByteReaders.exists_of_bind_eq_ok appended
    have one : middle.Holds point ↔ log.Holds point ∨ point ∈ item.2.entry.records := by
      revert first
      fun_cases appendCatchupEntry with
      | case1 empty =>
        rintro ⟨⟩
        simp [WalEntry.records, isEmpty_iff.mp empty]
      | case2 => rintro ⟨⟩
      | case3 =>
        rintro ⟨⟩
        simp [NodeLog.Holds, NodeLog.append]
    rw [ih rest, one]
    simp [or_assoc]

theorem holds_walCatchup {request total applied : Nat}
    (returned : call.walCatchup fuel request cursor total log = some (.ok (after, applied))) :
    after.Holds point ↔ log.Holds point ∨ call.Contains (cursor < ·) point := by
  fun_induction walCatchup with
  | case3 fuel request cursor total log asked found empty =>
    cases returned
    have nothing := (readRange_eq_nil_iff (by decide)).mp (isEmpty_iff.mp empty)
    refine (or_iff_left ?_).symm
    rintro ⟨seq, row, stored, above, -⟩
    exact absurd (nothing seq row stored) (by omega)
  | case5 fuel request cursor total log asked found nonempty middle appended ih =>
    rw [ih returned, holds_foldlM appended, or_assoc]
    refine or_congr_right ?_
    obtain ⟨⟨last, inFound, isLast⟩, -⟩ := FlushService.chunkMax_spec cursor
      (mt isEmpty_iff.mpr nonempty)
    have cut : OrderedRows.CutAbove _ found := readRange_cut call.rows (cursor + 1) 5000
    constructor
    · rintro (⟨item, isItem, member⟩ | ⟨seq, row, stored, above, member⟩)
      · obtain ⟨stored, above⟩ := mem_rowsFrom.mp (cut.subset item isItem)
        exact ⟨item.1, item.2, stored, above, member⟩
      · have ahead := (mem_rowsFrom.mp (cut.subset last inFound)).2
        exact ⟨seq, row, stored, by omega, member⟩
    · rintro ⟨seq, row, stored, above, member⟩
      by_cases later : FlushService.chunkMax cursor found < seq
      · exact Or.inr ⟨seq, row, stored, later, member⟩
      · exact Or.inl ⟨(seq, row), cut.closed last inFound _
          (mem_rowsFrom.mpr ⟨stored, above⟩) (by omega), member⟩
  | _ => cases returned

theorem heldBy_iff_of_catchUp (returned : call.catchUp fuel cursor log = some (.ok after)) :
    call.HeldBy after ↔ call.SkippedHeld cursor log := by
  revert returned
  fun_cases catchUp with
  | case3 reached applied copied =>
    intro returned
    obtain ⟨-, -, ⟨⟩⟩ := ByteReaders.exists_of_bind_eq_ok (Option.some.inj returned)
    simp only [HeldBy, holds_walCatchup copied]
    constructor
    · rintro complete point ⟨seq, row, stored, -, member⟩
      exact complete point ⟨seq, row, stored, trivial, member⟩
    · rintro skipped point ⟨seq, row, stored, -, member⟩
      by_cases above : cursor < seq
      · exact Or.inr ⟨seq, row, stored, above, member⟩
      · exact skipped point ⟨seq, row, stored, by omega, member⟩
  | _ => rintro ⟨⟩

theorem heldBy_iff_of_current (current : call.remoteWalSeq ≤ log.lastSequence) :
    call.HeldBy log ↔ call.SkippedHeld log.lastSequence log := by
  have below : ∀ {seq : Nat} {row : WalRow ρ}, call.rows[seq]? = some row →
      seq ≤ log.lastSequence := fun stored =>
    (call.within _ (Std.ExtTreeMap.mem_iff_isSome_getElem?.mpr (by simp [stored]))).trans current
  refine forall_congr' fun point => ⟨?_, ?_⟩
  · rintro held ⟨seq, row, stored, -, member⟩
    exact Or.inl (held ⟨seq, row, stored, trivial, member⟩)
  · rintro skipped ⟨seq, row, stored, -, member⟩
    refine (skipped ⟨seq, row, stored, below stored, member⟩).resolve_right ?_
    rintro ⟨later, other, isStored, above, -⟩
    exact absurd (below isStored) (by omega)

end SyncCall

/-- A node that reconnected or joined with success has every point of the peer's log, exactly
if none is missing up to this node's own number. -/
theorem sync_complete_iff (call : SyncCall ρ) (fuel : Nat) (log after : NodeLog) :
    (call.reconnectSync fuel log = some (.ok after) → (call.HeldBy after ↔
        call.SkippedHeld (call.reconnectLog log).lastSequence (call.reconnectLog log))) ∧
    (call.joinAndSync fuel log = some (.ok after) → (call.HeldBy after ↔
        call.SkippedHeld log.lastSequence (call.meanwhile.foldl .append log))) := by
  constructor
  · unfold SyncCall.reconnectLog
    fun_cases SyncCall.reconnectSync with
    | case1 gap current =>
      rintro ⟨⟩
      rw [if_pos (current.trans_le (Nat.zero_le _))]
      exact SyncCall.heldBy_iff_of_current (by omega)
    | case2 gap behind small =>
      rw [if_pos small]
      exact SyncCall.heldBy_iff_of_catchUp
    | case3 => rintro ⟨⟩
    | case4 gap behind large =>
      rw [if_neg large]
      exact SyncCall.heldBy_iff_of_catchUp
  · fun_cases SyncCall.joinAndSync with
    | case1 => rintro ⟨⟩
    | case2 => exact SyncCall.heldBy_iff_of_catchUp

def timedEntry (time : Int64) : WalEntry :=
  ⟨"db", "autogen", [⟨"cpu", ∅, ∅, time⟩], 0⟩

/-- A peer whose first entry is not the first one of this node. -/
def otherFirst : SyncCall Unit where
  rows := (∅ : Rows Nat (WalRow Unit)).insert 1 ⟨timedEntry 2, none, 0⟩
  remoteWalSeq := 1
  within := by simp
  syncMetadata := .ok ()
  meanwhile := []
  request _ := .ok ()
  accept _ := .ok ()

theorem ownNumber_hides_entry :
    otherFirst.reconnectSync 0 ⟨[timedEntry 1], 1⟩ = some (.ok ⟨[timedEntry 1], 1⟩) ∧
      ¬ otherFirst.HeldBy ⟨[timedEntry 1], 1⟩ := by
  refine ⟨rfl, fun held => ?_⟩
  obtain ⟨entry, isEntry, member⟩ := held ("db", "autogen", ⟨"cpu", ∅, ∅, 2⟩)
    ⟨1, ⟨timedEntry 2, none, 0⟩, by simp [otherFirst], trivial, mem_singleton_self _⟩
  obtain rfl := mem_singleton.mp isEntry
  simp [WalEntry.records, timedEntry] at member

end HyperbyteDb
