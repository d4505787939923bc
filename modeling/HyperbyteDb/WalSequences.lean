import HyperbyteDb.GuardedRuns
import HyperbyteDb.WalAppends

/-!
# The sequences of the log over truncations, purges and restarts

The sequence counter lives in memory.  On open it is recovered from the last key of the log,
and only of an empty log from the value that truncation records.
-/

namespace HyperbyteDb

open GuardedRuns List OrderedRows RocksDbWal Std

variable {ρ : Type}

/-- An open log: the store, the recorded last sequence, and where the next truncation
starts. -/
structure OpenWal (ρ : Type) where
  store : WalStore ρ
  lastSeq : Option Nat
  truncatedThrough : Nat

variable (values : Rows Nat (List UInt8))

/-- The last assigned sequence, as an open finds it: one step of an iterator from the end
of the log. -/
def recoverSeq (lastSeq : Option Nat) : Nat :=
  match values.keys.getLast? with
  | some key => key
  | none => lastSeq.getD 0

def openWithOptions (lastSeq : Option Nat) : OpenWal ρ :=
  let seq := recoverSeq values lastSeq
  { store := ⟨seq, values, [], ∅⟩
    lastSeq := lastSeq
    truncatedThrough := match values.keys.head? with
      | some key => key
      | none => seq + 1 }

def deleteKeys (first sequence : Nat) : Rows Nat (List UInt8) :=
  if truncatePointDeletesMax < sequence - first then
    values.filter fun seq _ => ¬(first ≤ seq ∧ seq < sequence)
  else write values ((List.range' first (sequence - first)).map .delete)

namespace RocksDbWal

variable (wal : RocksDbWal ρ)

/-- The recorded sequence is stored in one batch with the deletes. -/
def truncateBefore (log : OpenWal ρ) (sequence : Nat) (dbWrite : Except String Unit) :
    Except String Unit × OpenWal ρ :=
  let cleared := { log with
    store := { log.store with
      arrowCache := truncateCache log.store.arrowCache sequence
      sizes := log.store.sizes.dropWhile fun size => size.1 < sequence } }
  if sequence ≤ log.truncatedThrough then (.ok (), cleared)
  else
    match dbWrite with
    | .error cause => (.error cause, cleared)
    | .ok () =>
      (.ok (),
        { store := { cleared.store with
            values := deleteKeys log.store.values log.truncatedThrough sequence }
          lastSeq := some log.store.seq
          truncatedThrough := max log.truncatedThrough sequence })

/-- The keys of the entries of `database`; an entry that cannot be decoded fails the
scan. -/
def purgedKeys (database : String) : List (Nat × List UInt8) → Except String (List Nat)
  | [] => .ok []
  | (key, value) :: rest => do
      let decoded ← wal.codec.decodeWalValue wal.walFormat value
      let later ← purgedKeys database rest
      return if decoded.2.database = database then key :: later else later

def purgeDatabase (log : OpenWal ρ) (database : String) (dbWrite : Except String Unit) :
    Except String Unit × OpenWal ρ :=
  let cleared := { log with
    store := { log.store with arrowCache := purgeCache log.store.arrowCache database } }
  match wal.purgedKeys database log.store.values.toList with
  | .error cause => (.error cause, cleared)
  | .ok keys =>
    if keys.isEmpty then (.ok (), cleared)
    else
      match dbWrite with
      | .error cause => (.error cause, cleared)
      | .ok () =>
        (.ok (),
          { cleared with store := { cleared.store with
              values := write log.store.values (keys.map .delete) } })

end RocksDbWal

/-- What is done to the log; `dbWrite` is the answer of the store. -/
inductive WalEvent (ρ : Type) where
  | append (requests : List (BatchRequest ρ)) (dbWrite : Except String Unit)
  | truncateBefore (sequence : Nat) (dbWrite : Except String Unit)
  | purgeDatabase (database : String) (dbWrite : Except String Unit)
  | reopen

structure SequenceWorld (ρ : Type) where
  log : OpenWal ρ
  returned : List Nat := []

namespace RocksDbWal

variable (wal : RocksDbWal ρ)

def nextSequences (world : SequenceWorld ρ) : WalEvent ρ → SequenceWorld ρ
  | .append requests dbWrite =>
    let (result, store) := wal.writeBundleBatch world.log.store requests dbWrite
    { log := { world.log with store := store }
      returned := world.returned ++ (match result with
        | .ok seqs => seqs
        | .error _ => []) }
  | .truncateBefore sequence dbWrite =>
    { world with log := (truncateBefore world.log sequence dbWrite).2 }
  | .purgeDatabase database dbWrite =>
    { world with log := (wal.purgeDatabase world.log database dbWrite).2 }
  | .reopen =>
    { world with log := openWithOptions world.log.store.values world.log.lastSeq }

/-- The step deletes the entry under `seq`, if there is one. -/
def Deletes (log : OpenWal ρ) : WalEvent ρ → Nat → Prop
  | .truncateBefore sequence (.ok ()), seq => log.truncatedThrough ≤ seq ∧ seq < sequence
  | .purgeDatabase database (.ok ()), seq =>
    ∃ keys, wal.purgedKeys database log.store.values.toList = .ok keys ∧ seq ∈ keys
  | _, _ => False

/-- The sequence that is recorded once the step has deleted something. -/
def recordedSeq (log : OpenWal ρ) : WalEvent ρ → Nat
  | .truncateBefore _ _ => log.store.seq
  | _ => log.lastSeq.getD 0

/-- The condition on a step: if it deletes the last entry, it deletes every entry, and the
recorded sequence is not below the last one. -/
def KeepsTail (world : SequenceWorld ρ) (event : WalEvent ρ) : Prop :=
  ∀ last, world.log.store.values.keys.getLast? = some last → wal.Deletes world.log event last →
    (∀ seq ∈ world.log.store.values, wal.Deletes world.log event seq) ∧
      last ≤ recordedSeq world.log event

end RocksDbWal

/-! ## One step -/

section Recovery

variable {values : Rows Nat (List UInt8)} {lastSeq : Option Nat}

theorem getLast?_keys_eq_some_iff {last : Nat} :
    values.keys.getLast? = some last ↔ last ∈ values ∧ ∀ seq ∈ values, seq ≤ last := by
  have below : ∀ {found : Nat}, values.keys.getLast? = some found →
      found ∈ values ∧ ∀ seq ∈ values, seq ≤ found := by
    intro found lookup
    obtain ⟨earlier, split⟩ := getLast?_eq_some_iff.mp lookup
    refine ⟨ExtTreeMap.mem_keys.mp (by simp [split]), fun seq member => ?_⟩
    have ordered : values.keys.Pairwise fun first second => compare first second = .lt :=
      ExtTreeMap.ordered_keys
    have inside := ExtTreeMap.mem_keys.mpr member
    rw [split, pairwise_append] at ordered
    rw [split, mem_append, mem_singleton] at inside
    rcases inside with before | rfl
    · exact Nat.le_of_lt (Nat.compare_eq_lt.mp
        (ordered.2.2 seq before found (mem_singleton.mpr rfl)))
    · exact Nat.le_refl seq
  refine ⟨below, fun ⟨member, greatest⟩ => ?_⟩
  cases lookup : values.keys.getLast? with
  | none =>
    rw [getLast?_eq_none_iff] at lookup
    rw [← ExtTreeMap.mem_keys, lookup] at member
    cases member
  | some found =>
    obtain ⟨inside, bound⟩ := below lookup
    rw [Nat.le_antisymm (greatest found inside) (bound last member)]

theorem not_mem_of_getLast?_keys (none : values.keys.getLast? = none) (seq : Nat) :
    seq ∉ values := by
  rw [← ExtTreeMap.mem_keys, getLast?_eq_none_iff.mp none]
  exact not_mem_nil

theorem recoverSeq_of_getLast? {last : Nat} (found : values.keys.getLast? = some last) :
    recoverSeq values lastSeq = last := by
  rw [recoverSeq, found]

theorem recoverSeq_of_isEmpty (empty : ∀ seq, seq ∉ values) :
    recoverSeq values lastSeq = lastSeq.getD 0 := by
  cases found : values.keys.getLast? with
  | none => rw [recoverSeq, found]
  | some last => exact absurd (getLast?_keys_eq_some_iff.mp found).1 (empty last)

theorem getElem?_deleteKeys (first sequence seq : Nat) :
    (deleteKeys values first sequence)[seq]? =
      if first ≤ seq ∧ seq < sequence then none else values[seq]? :=
  getElem?_deleteRange values first sequence seq

theorem mem_deleteKeys {first sequence seq : Nat} :
    seq ∈ deleteKeys values first sequence ↔ seq ∈ values ∧ ¬(first ≤ seq ∧ seq < sequence) := by
  rw [ExtTreeMap.mem_iff_isSome_getElem?, getElem?_deleteKeys, ExtTreeMap.mem_iff_isSome_getElem?]
  split <;> simp_all

end Recovery

namespace RocksDbWal

variable {wal : RocksDbWal ρ} {world : SequenceWorld ρ}

/-- What a truncation or a purge does: the counter stays, the deleted entries go, and
unless nothing is deleted the sequence is recorded. -/
structure DeletingStep (wal : RocksDbWal ρ) (world after : SequenceWorld ρ)
    (event : WalEvent ρ) : Prop where
  returned : after.returned = world.returned
  counter : after.log.store.seq = world.log.store.seq
  values : ∀ seq, seq ∈ after.log.store.values ↔
    seq ∈ world.log.store.values ∧ ¬wal.Deletes world.log event seq
  recorded : after.log.lastSeq.getD 0 = recordedSeq world.log event ∨
    after.log.lastSeq = world.log.lastSeq ∧ ∀ seq, ¬wal.Deletes world.log event seq

theorem truncateBefore_deletes (sequence : Nat) (dbWrite : Except String Unit) :
    DeletingStep wal world (wal.nextSequences world (.truncateBefore sequence dbWrite))
      (.truncateBefore sequence dbWrite) := by
  simp only [nextSequences]
  fun_cases truncateBefore with
  | case1 behind =>
    have nothing : ∀ seq, ¬wal.Deletes world.log (.truncateBefore sequence dbWrite) seq := by
      intro seq deleted
      cases dbWrite with
      | error cause => exact deleted
      | ok answer => exact absurd deleted.2 (by have := deleted.1; omega)
    exact ⟨rfl, rfl, fun seq => (and_iff_left (nothing seq)).symm, Or.inr ⟨rfl, nothing⟩⟩
  | case2 => exact ⟨rfl, rfl, fun _ => (and_iff_left id).symm, Or.inr ⟨rfl, fun _ => id⟩⟩
  | case3 => exact ⟨rfl, rfl, fun seq => mem_deleteKeys, Or.inl rfl⟩

theorem purgeDatabase_deletes (database : String) (dbWrite : Except String Unit) :
    DeletingStep wal world (wal.nextSequences world (.purgeDatabase database dbWrite))
      (.purgeDatabase database dbWrite) := by
  simp only [nextSequences]
  fun_cases purgeDatabase with
  | case1 _ _ cause scanned =>
    have nothing : ∀ seq, ¬wal.Deletes world.log (.purgeDatabase database dbWrite) seq := by
      cases dbWrite <;> simp [Deletes, scanned]
    exact ⟨rfl, rfl, fun seq => (and_iff_left (nothing seq)).symm, Or.inl rfl⟩
  | case2 _ _ keys scanned empty =>
    have nothing : ∀ seq, ¬wal.Deletes world.log (.purgeDatabase database dbWrite) seq := by
      cases dbWrite <;> simp [Deletes, scanned, List.isEmpty_iff.mp empty]
    exact ⟨rfl, rfl, fun seq => (and_iff_left (nothing seq)).symm, Or.inl rfl⟩
  | case3 => exact ⟨rfl, rfl, fun _ => (and_iff_left id).symm, Or.inl rfl⟩
  | case4 _ keys scanned =>
    refine ⟨rfl, rfl, fun seq => ?_, Or.inl rfl⟩
    have deletes : wal.Deletes world.log (.purgeDatabase database (.ok ())) seq ↔ seq ∈ keys := by
      simp [Deletes, scanned]
    rw [deletes]
    exact mem_write_deletes

theorem append_cases (requests : List (BatchRequest ρ)) (dbWrite : Except String Unit) :
    let after := wal.nextSequences world (.append requests dbWrite)
    let fresh := List.range' (world.log.store.seq + 1) requests.length
    after.log.lastSeq = world.log.lastSeq ∧ ((after.returned = world.returned ∧
          after.log.store.values = world.log.store.values ∧
          world.log.store.seq ≤ after.log.store.seq) ∨
        (requests ≠ [] ∧ after.returned = world.returned ++ fresh ∧
          (∀ seq, seq ∈ after.log.store.values ↔ seq ∈ fresh ∨ seq ∈ world.log.store.values) ∧
          after.log.store.seq = world.log.store.seq + requests.length)) := by
  intro after fresh
  refine ⟨rfl, ?_⟩
  simp only [after, nextSequences]
  fun_cases writeBundleBatch with
  | case1 => exact Or.inl ⟨append_nil _, rfl, Nat.le_refl _⟩
  | case2 | case3 => exact Or.inl ⟨append_nil _, rfl, Nat.le_add_right _ _⟩
  | case4 nonempty _ stored encoded =>
    have seqs := encodeRequests_seqs encoded
    refine Or.inr ⟨by simpa using nonempty, congrArg (world.returned ++ ·) seqs, fun seq => ?_, rfl⟩
    have puts : stored.map (fun item => BatchEntry.put item.1 item.2.1) =
        (stored.map fun item => (item.1, item.2.1)).map
          fun entry => BatchEntry.put entry.1 entry.2 := by
      rw [map_map]
      rfl
    have keys : stored.map (Prod.fst ∘ fun item => (item.1, item.2.1)) = fresh := seqs
    rw [puts, mem_write_puts, map_map, keys]

/-! ## Every run -/

/-- The returned sequences ascend, the stored entries are under returned sequences, and
neither the counter nor what an open would recover is below a returned one. -/
structure Fresh (world : SequenceWorld ρ) : Prop where
  ascending : world.returned.Pairwise (· < ·)
  stored : ∀ seq ∈ world.log.store.values, seq ∈ world.returned
  recovered : ∀ seq ∈ world.returned, seq ≤ recoverSeq world.log.store.values world.log.lastSeq
  assigned : ∀ seq ∈ world.returned, seq ≤ world.log.store.seq

namespace Fresh

variable {event : WalEvent ρ} {after : SequenceWorld ρ}

theorem initial : Fresh (⟨openWithOptions ∅ none, []⟩ : SequenceWorld ρ) where
  ascending := List.Pairwise.nil
  stored := by simp [openWithOptions]
  recovered := by simp
  assigned := by simp

variable (fresh : Fresh world)
include fresh

theorem reopen : Fresh (wal.nextSequences world .reopen) :=
  { fresh with assigned := fresh.recovered }

theorem append (requests : List (BatchRequest ρ)) (dbWrite : Except String Unit) :
    Fresh (wal.nextSequences world (.append requests dbWrite)) := by
  obtain ⟨sameRecord, unchanged | ⟨nonempty, returned, values, counter⟩⟩ :=
    append_cases requests dbWrite
  · obtain ⟨sameReturned, sameValues, counter⟩ := unchanged
    constructor
    · rw [sameReturned]
      exact fresh.ascending
    · rw [sameReturned, sameValues]
      exact fresh.stored
    · rw [sameReturned, sameValues]
      exact fresh.recovered
    · rw [sameReturned]
      exact fun seq member => (fresh.assigned seq member).trans counter
  · have positive := length_pos_iff.mpr nonempty
    -- The last of the new sequences is the greatest key now.
    have last : (wal.nextSequences world (.append requests dbWrite)).log.store.values.keys.getLast? =
        some (world.log.store.seq + requests.length) := by
      rw [getLast?_keys_eq_some_iff]
      refine ⟨(values _).mpr (Or.inl ?_), fun seq member => ?_⟩
      · rw [mem_range'_1]
        omega
      · rcases (values seq).mp member with new | old
        · rw [mem_range'_1] at new
          omega
        · have := fresh.assigned seq (fresh.stored seq old)
          omega
    have bounded : ∀ seq ∈ (wal.nextSequences world (.append requests dbWrite)).returned,
        seq ≤ world.log.store.seq + requests.length := by
      intro seq member
      rw [returned, mem_append, mem_range'_1] at member
      rcases member with old | new
      · have := fresh.assigned seq old
        omega
      · omega
    constructor
    · rw [returned, pairwise_append]
      refine ⟨fresh.ascending, pairwise_lt_range', fun old oldMember new newMember => ?_⟩
      have := fresh.assigned old oldMember
      rw [mem_range'_1] at newMember
      omega
    · intro seq member
      rw [returned, mem_append]
      rcases (values seq).mp member with new | old
      · exact Or.inr new
      · exact Or.inl (fresh.stored seq old)
    · rw [recoverSeq_of_getLast? last]
      exact bounded
    · rw [counter]
      exact bounded

theorem le_recordedSeq_of_isEmpty (empty : ∀ seq, seq ∉ world.log.store.values) (event : WalEvent ρ)
    {seq : Nat} (member : seq ∈ world.returned) : seq ≤ recordedSeq world.log event := by
  have recovered := fresh.recovered seq member
  rw [recoverSeq_of_isEmpty empty] at recovered
  cases event with
  | truncateBefore sequence dbWrite => exact fresh.assigned seq member
  | append | purgeDatabase | reopen => exact recovered

section

variable (step : DeletingStep wal world after event)
include step

/-- A deletion that keeps the tail leaves an open enough to recover from. -/
theorem recovered_of_keepsTail (keeps : wal.KeepsTail world event) {seq : Nat}
    (member : seq ∈ world.returned) :
    seq ≤ recoverSeq after.log.store.values after.log.lastSeq := by
  have before := fresh.recovered seq member
  cases found : world.log.store.values.keys.getLast? with
  | none =>
    have empty := not_mem_of_getLast?_keys found
    rw [recoverSeq_of_isEmpty fun other inside =>
      empty other ((step.values other).mp inside).1]
    rcases step.recorded with recorded | ⟨same, -⟩
    · rw [recorded]
      exact fresh.le_recordedSeq_of_isEmpty empty event member
    · rw [same, ← recoverSeq_of_isEmpty empty]
      exact before
  | some last =>
    rw [recoverSeq_of_getLast? found] at before
    obtain ⟨inside, greatest⟩ := getLast?_keys_eq_some_iff.mp found
    by_cases deleted : wal.Deletes world.log event last
    · obtain ⟨all, enough⟩ := keeps last found deleted
      rw [recoverSeq_of_isEmpty fun other kept =>
        ((step.values other).mp kept).2 (all other ((step.values other).mp kept).1)]
      rcases step.recorded with recorded | ⟨-, nothing⟩
      · rw [recorded]
        exact before.trans enough
      · exact absurd deleted (nothing last)
    · have stays : after.log.store.values.keys.getLast? = some last := by
        rw [getLast?_keys_eq_some_iff, step.values]
        exact ⟨⟨inside, deleted⟩, fun other kept => greatest other ((step.values other).mp kept).1⟩
      rw [recoverSeq_of_getLast? stays]
      exact before

theorem recoverSeq_lt_of_not_keepsTail (loses : ¬wal.KeepsTail world event) :
    ∃ last ∈ world.returned, recoverSeq after.log.store.values after.log.lastSeq < last := by
  unfold KeepsTail at loses
  push Not at loses
  obtain ⟨last, found, deleted, short⟩ := loses
  obtain ⟨inside, greatest⟩ := getLast?_keys_eq_some_iff.mp found
  refine ⟨last, fresh.stored last inside, ?_⟩
  cases foundAfter : after.log.store.values.keys.getLast? with
  | some newLast =>
    rw [recoverSeq_of_getLast? foundAfter]
    obtain ⟨kept, notDeleted⟩ := (step.values newLast).mp (getLast?_keys_eq_some_iff.mp foundAfter).1
    have different : newLast ≠ last := by
      rintro rfl
      exact notDeleted deleted
    have := greatest newLast kept
    omega
  | none =>
    have empty := not_mem_of_getLast?_keys foundAfter
    have all : ∀ seq ∈ world.log.store.values, wal.Deletes world.log event seq := by
      intro seq member
      by_contra kept
      exact empty seq ((step.values seq).mpr ⟨member, kept⟩)
    rw [recoverSeq_of_isEmpty empty]
    rcases step.recorded with recorded | ⟨-, nothing⟩
    · rw [recorded]
      exact short all
    · exact absurd deleted (nothing last)

theorem deletes (keeps : wal.KeepsTail world event) : Fresh after := by
  constructor
  · rw [step.returned]
    exact fresh.ascending
  · intro seq member
    rw [step.returned]
    exact fresh.stored seq ((step.values seq).mp member).1
  · intro seq member
    rw [step.returned] at member
    exact fresh.recovered_of_keepsTail step keeps member
  · rw [step.returned, step.counter]
    exact fresh.assigned

end

theorem next (keeps : wal.KeepsTail world event) : Fresh (wal.nextSequences world event) := by
  cases event with
  | append requests dbWrite => exact fresh.append requests dbWrite
  | truncateBefore sequence dbWrite =>
    exact fresh.deletes (truncateBefore_deletes sequence dbWrite) keeps
  | purgeDatabase database dbWrite =>
    exact fresh.deletes (purgeDatabase_deletes database dbWrite) keeps
  | reopen => exact fresh.reopen

omit fresh in
theorem run {events : List (WalEvent ρ)} (keeps : GuardedRuns.Along wal.nextSequences wal.KeepsTail
      ⟨openWithOptions ∅ none, []⟩ events) :
    Fresh (run wal.nextSequences ⟨openWithOptions ∅ none, []⟩ events) :=
  run_invariant (fun _ _ fresh step => fresh.next step) initial keeps

/-- After a step that does not keep the tail and a restart, whatever the next append
returns is not above all that was returned before. -/
theorem not_ascending_of_not_keepsTail (loses : ¬wal.KeepsTail world event)
    (requests : List (BatchRequest ρ)) (dbWrite : Except String Unit) :
    let opened := GuardedRuns.run wal.nextSequences world [event, .reopen]
    let after := wal.nextSequences opened (.append requests dbWrite)
    after.returned = opened.returned ∨ ¬after.returned.Pairwise (· < ·) := by
  intro opened after
  have step : DeletingStep wal world (wal.nextSequences world event) event := by
    cases event with
    | append | reopen => exact absurd (fun _ _ deleted => deleted.elim) loses
    | truncateBefore sequence dbWrite => exact truncateBefore_deletes sequence dbWrite
    | purgeDatabase database dbWrite => exact purgeDatabase_deletes database dbWrite
  obtain ⟨last, member, lower⟩ := fresh.recoverSeq_lt_of_not_keepsTail step loses
  have counter : opened.log.store.seq < last := lower
  have kept : last ∈ opened.returned := step.returned ▸ member
  obtain ⟨-, ⟨same, -⟩ | ⟨nonempty, returned, -⟩⟩ := append_cases requests dbWrite
  · exact Or.inl same
  · refine Or.inr fun ascending => ?_
    rw [returned, pairwise_append] at ascending
    have first : opened.log.store.seq + 1 ∈
        List.range' (opened.log.store.seq + 1) requests.length := by
      have := length_pos_iff.mpr nonempty
      rw [mem_range'_1]
      omega
    have := ascending.2.2 last kept _ first
    omega

end Fresh

/-! ## Truncation -/

/-- No entry is stored below the mark, and the next append is not below it. -/
structure Marked (world : SequenceWorld ρ) : Prop where
  stored : ∀ seq ∈ world.log.store.values, world.log.truncatedThrough ≤ seq
  assigned : world.log.truncatedThrough ≤ world.log.store.seq + 1

theorem marked_open (values : Rows Nat (List UInt8)) (lastSeq : Option Nat) (returned : List Nat) :
    Marked (⟨openWithOptions values lastSeq, returned⟩ : SequenceWorld ρ) := by
  have ordered : values.keys.Pairwise fun first second => compare first second = .lt :=
    ExtTreeMap.ordered_keys
  have member : ∀ seq, seq ∈ values ↔ seq ∈ values.keys := fun _ => ExtTreeMap.mem_keys.symm
  cases keys : values.keys with
  | nil =>
    refine ⟨fun seq inside => ?_, ?_⟩
    · rw [openWithOptions, member, keys] at inside
      cases inside
    · simp [openWithOptions, keys]
  | cons first rest =>
    have least : ∀ seq ∈ values, first ≤ seq := by
      intro seq inside
      rw [keys] at ordered
      rcases mem_cons.mp (keys ▸ (member seq).mp inside) with rfl | later
      · exact Nat.le_refl seq
      · exact Nat.le_of_lt (Nat.compare_eq_lt.mp (rel_of_pairwise_cons ordered later))
    have found : values.keys.getLast? = some (rest.getLast?.getD first) := by
      rw [keys, getLast?_cons]
    have below := least _ (getLast?_keys_eq_some_iff.mp found).1
    refine ⟨?_, ?_⟩
    · simpa [openWithOptions, keys] using least
    · simp only [openWithOptions, keys, head?_cons, recoverSeq_of_getLast? found]
      omega

/-- A truncation reaches at most one above the last assigned sequence. -/
def TruncatesAssigned (world : SequenceWorld ρ) : WalEvent ρ → Prop
  | .truncateBefore sequence _ => sequence ≤ world.log.store.seq + 1
  | _ => True

theorem Marked.next (marked : Marked world) {event : WalEvent ρ}
    (assigned : TruncatesAssigned world event) : Marked (wal.nextSequences world event) := by
  obtain ⟨stored, below⟩ := marked
  cases event with
  | append requests dbWrite =>
    obtain ⟨-, ⟨-, same, counter⟩ | ⟨-, -, values, counter⟩⟩ :=
      append_cases requests dbWrite
    · refine ⟨fun seq member => stored seq (same ▸ member), below.trans (Nat.succ_le_succ counter)⟩
    · refine ⟨fun seq member => ?_, ?_⟩
      · rcases (values seq).mp member with new | old
        · exact below.trans (mem_range'_1.mp new).1
        · exact stored seq old
      · rw [counter]
        exact below.trans (by omega)
  | truncateBefore sequence dbWrite =>
    simp only [nextSequences]
    fun_cases truncateBefore with
    | case1 | case2 => exact ⟨stored, below⟩
    | case3 =>
      refine ⟨fun seq member => ?_, max_le below assigned⟩
      obtain ⟨inside, kept⟩ := mem_deleteKeys.mp member
      have := stored seq inside
      dsimp only
      omega
  | purgeDatabase database dbWrite =>
    simp only [nextSequences]
    fun_cases purgeDatabase with
    | case1 | case2 | case3 => exact ⟨stored, below⟩
    | case4 => exact ⟨fun seq member => stored seq (mem_write_deletes.mp member).1, below⟩
  | reopen => exact marked_open _ _ _


end RocksDbWal

/-! ## Results -/

def databaseEntry (database : String) : WalEntry := ⟨database, "autogen", [], 0⟩

/-- A codec of the entries of two databases, which refuses all others. -/
def databaseCodec : WalCodec Point where
  serialize entry :=
    if entry = databaseEntry "metrics" then .ok [0]
    else if entry = databaseEntry "logs" then .ok [1] else .error "unknown entry"
  deserialize bytes :=
    if bytes = [0] then .ok (databaseEntry "metrics")
    else if bytes = [1] then .ok (databaseEntry "logs") else .error "unknown entry"
  encodeRecordBatch _ := .error "unknown batch"
  decodeRecordBatch _ := .error "unknown batch"
  deserialize_serialize := by
    intro entry bytes made
    split at made
    next same =>
      cases made
      simp [same]
    next =>
      split at made
      next same =>
        cases made
        simp [same]
      next => cases made
  serialize_ne_nil := by
    intro entry made
    split at made
    next => cases made
    next => split at made <;> cases made
  decode_encode := by
    intro batch bytes made
    cases made
  encode_ne_nil := by
    intro batch made
    cases made
  numRows_le := by
    intro batch bytes made
    cases made

def databaseWal : RocksDbWal Point := ⟨databaseCodec, .bincode, true⟩

def appendTo (database : String) : WalEvent Point :=
  .append [⟨⟨databaseEntry database, none⟩, none⟩] (.ok ())

def returnedBy (events : List (WalEvent Point)) : List Nat :=
  (run databaseWal.nextSequences ⟨openWithOptions ∅ none, []⟩ events).returned

/-- The sequences that appends return ascend in every run that keeps the tail of the log
at each step; and no weaker condition on a step would do, since after a step that does
not keep it, a restart and an append return an old sequence. -/
theorem RocksDbWal.sequences_ascend (wal : RocksDbWal ρ) (events : List (WalEvent ρ))
    (keeps : GuardedRuns.Along wal.nextSequences wal.KeepsTail
      ⟨openWithOptions ∅ none, []⟩ events) :
    let world := GuardedRuns.run wal.nextSequences ⟨openWithOptions ∅ none, []⟩ events
    world.returned.Pairwise (· < ·) ∧
      ∀ event, ¬wal.KeepsTail world event → ∀ requests dbWrite,
        let opened := GuardedRuns.run wal.nextSequences world [event, .reopen]
        let after := wal.nextSequences opened (.append requests dbWrite)
        after.returned = opened.returned ∨ ¬after.returned.Pairwise (· < ·) := by
  intro world
  have fresh : Fresh world := Fresh.run keeps
  exact ⟨fresh.ascending, fun event loses requests dbWrite =>
    fresh.not_ascending_of_not_keepsTail loses requests dbWrite⟩

/-- Two databases share the log; one is purged, the log is truncated and reopened. -/
def keptTailEvents : List (WalEvent Point) :=
  [appendTo "metrics", appendTo "logs", .purgeDatabase "metrics" (.ok ()),
    .truncateBefore 3 (.ok ()), .reopen, appendTo "metrics"]

/-- **Truncation is exact** after every run of appends, truncations up to one above the last
assigned sequence, purges and reopens: the entries that stay are those not below `sequence`, and
none is ever stored below the mark from which entries are deleted. -/
theorem RocksDbWal.truncateBefore_exact (wal : RocksDbWal ρ) (values : Rows Nat (List UInt8))
    (lastSeq : Option Nat) (events : List (WalEvent ρ))
    (assigned : Along wal.nextSequences TruncatesAssigned
      ⟨openWithOptions values lastSeq, []⟩ events) :
    let log := (GuardedRuns.run wal.nextSequences
      ⟨openWithOptions values lastSeq, []⟩ events).log
    (∀ seq ∈ log.store.values, log.truncatedThrough ≤ seq) ∧
      ∀ sequence seq, (truncateBefore log sequence (.ok ())).2.store.values[seq]? =
        if sequence ≤ seq then log.store.values[seq]? else none := by
  intro log
  have marked := run_invariant (fun world event (marked : Marked world)
    (step : TruncatesAssigned world event) => marked.next step)
    (marked_open values lastSeq []) assigned
  refine ⟨marked.stored, fun sequence seq => ?_⟩
  have absent : seq < log.truncatedThrough → log.store.values[seq]? = none := by
    intro below
    apply ExtTreeMap.getElem?_eq_none
    exact fun member => Nat.not_lt.mpr (marked.stored seq member) below
  unfold truncateBefore
  dsimp only
  split
  next behind =>
    split
    · rfl
    · exact absent (by omega)
  next =>
    rw [getElem?_deleteKeys]
    grind

theorem keptTailEvents_truncated :
    (truncateBefore (run databaseWal.nextSequences ⟨openWithOptions ∅ none, []⟩
      keptTailEvents).log 4 (.ok ())).2.store.values[3]? = none := by
  have truncation : (run databaseWal.nextSequences ⟨openWithOptions ∅ none, []⟩
      [appendTo "metrics", appendTo "logs", .purgeDatabase "metrics" (.ok ())]).log.store.seq =
        2 := by
    decide +kernel
  exact (databaseWal.truncateBefore_exact ∅ none keptTailEvents ⟨trivial, trivial, trivial,
    Nat.succ_le_succ truncation.ge, trivial, trivial, trivial⟩).2 4 3

theorem keptTailEvents_ascend :
    returnedBy keptTailEvents = [1, 2, 3] ∧ (returnedBy keptTailEvents).Pairwise (· < ·) := by
  have purge : databaseWal.KeepsTail (run databaseWal.nextSequences
      ⟨openWithOptions ∅ none, []⟩ [appendTo "metrics", appendTo "logs"])
      (.purgeDatabase "metrics" (.ok ())) := by
    rintro last found ⟨keys, scanned, member⟩
    obtain rfl : [1] = keys := Except.ok.inj (Eq.trans (by decide +kernel) scanned)
    obtain rfl : 2 = last := Option.some.inj (Eq.trans (by decide +kernel) found)
    exact absurd member (by decide)
  have truncation : databaseWal.KeepsTail (run databaseWal.nextSequences
      ⟨openWithOptions ∅ none, []⟩ [appendTo "metrics", appendTo "logs",
        .purgeDatabase "metrics" (.ok ())]) (.truncateBefore 3 (.ok ())) := by
    intro last found deleted
    obtain rfl : 2 = last := Option.some.inj (Eq.trans (by decide +kernel) found)
    refine ⟨fun seq member => ?_, by decide +kernel⟩
    have only : seq ∈ [2] := by
      rw [← ExtTreeMap.mem_keys] at member
      exact (by decide +kernel : (run databaseWal.nextSequences
        ⟨openWithOptions ∅ none, []⟩ [appendTo "metrics", appendTo "logs",
          .purgeDatabase "metrics" (.ok ())]).log.store.values.keys = [2]) ▸ member
    rw [mem_singleton.mp only]
    exact deleted
  refine ⟨by decide +kernel, (sequences_ascend databaseWal keptTailEvents ?_).1⟩
  exact ⟨fun _ _ deleted => deleted.elim, fun _ _ deleted => deleted.elim, purge, truncation,
    fun _ _ deleted => deleted.elim, fun _ _ deleted => deleted.elim, trivial⟩

/-- The only entry is purged before a restart, and its sequence is returned again. -/
theorem purged_sequence_reused :
    returnedBy [appendTo "metrics", .purgeDatabase "metrics" (.ok ()), .reopen,
      appendTo "metrics"] = [1, 1] := by
  decide +kernel

end HyperbyteDb
