import HyperbyteDb.OrderedRows
import HyperbyteDb.PreparedWalSlots

/-!
# The rows of the write-ahead log and their stored values

A value is the entry in bincode, or a versioned layout that holds the prepared slot as Arrow
streams and the entry behind it.
-/

namespace HyperbyteDb

open ByteReaders List OrderedRows Reads Std

section

inductive WalFormat where
  | bincode
  | arrowIpc
deriving DecidableEq, Repr, Inhabited

/-- A stored value, decoded: the entry and, in the Arrow format, its slot. -/
structure WalRow (ρ : Type) where
  entry : WalEntry
  prepared : Option (PreparedWalSlot ρ)
  bytes : Nat

variable {ρ : Type}

variable {maxEntries seq : Nat}

section Cache

variable {taken : List (Nat × PreparedWalSlot ρ)} {cache left : Rows Nat (PreparedWalSlot ρ)}

def takeRun (toInclusive : Nat) :
    Nat → Nat → Rows Nat (PreparedWalSlot ρ) →
      List (Nat × PreparedWalSlot ρ) × Rows Nat (PreparedWalSlot ρ)
  | 0, _, cache => ([], cache)
  | room + 1, seq, cache =>
    if seq ≤ toInclusive then
      match cache[seq]? with
      | some slot =>
        let later := takeRun toInclusive room (seq + 1) (cache.erase seq)
        ((seq, slot) :: later.1, later.2)
      | none => ([], cache)
    else ([], cache)

def takeRange (cache : Rows Nat (PreparedWalSlot ρ)) (fromSeq toInclusive maxEntries : Nat) :
    Option (List (Nat × PreparedWalSlot ρ) × Rows Nat (PreparedWalSlot ρ)) :=
  if maxEntries = 0 ∨ toInclusive < fromSeq then none
  else if fromSeq ∉ cache then none
  else
    let taken := takeRun toInclusive maxEntries fromSeq cache
    if taken.1.isEmpty then none else some taken

/-- The least cached sequence that is not below `fromSeq`. -/
def nextSeqAtOrAfter (cache : Rows Nat (PreparedWalSlot ρ)) (fromSeq : Nat) : Option Nat :=
  cache.keys.find? (fromSeq ≤ ·)

def truncateCache (cache : Rows Nat (PreparedWalSlot ρ)) (sequence : Nat) :
    Rows Nat (PreparedWalSlot ρ) :=
  cache.filter fun seq _ => sequence ≤ seq

def purgeCache (cache : Rows Nat (PreparedWalSlot ρ)) (database : String) :
    Rows Nat (PreparedWalSlot ρ) :=
  cache.filter fun _ slot => slot.database ≠ database

/-- `taken` is a run of slots of `cache` from `fromSeq` on without a hole, and what is
left in the cache was there before. -/
structure TakenRun (cache : Rows Nat (PreparedWalSlot ρ)) (fromSeq toInclusive : Nat)
    (taken : List (Nat × PreparedWalSlot ρ)) (left : Rows Nat (PreparedWalSlot ρ)) : Prop where
  slots : ∀ pair ∈ taken, cache[pair.1]? = some pair.2
  contiguous : taken.map Prod.fst = range' fromSeq taken.length
  bounded : ∀ pair ∈ taken, pair.1 ≤ toInclusive
  left : ∀ (seq : Nat) (slot : PreparedWalSlot ρ),
    left[seq]? = some slot → cache[seq]? = some slot

theorem takeRun_spec (toInclusive room seq : Nat) (cache : Rows Nat (PreparedWalSlot ρ)) :
    TakenRun cache seq toInclusive (takeRun toInclusive room seq cache).1
      (takeRun toInclusive room seq cache).2 := by
  induction room generalizing seq cache with
  | zero => exact ⟨by simp [takeRun], by simp [takeRun], by simp [takeRun], fun _ _ h => h⟩
  | succ room ih =>
    simp only [takeRun]
    by_cases inside : seq ≤ toInclusive
    · rw [if_pos inside]
      cases lookup : cache[seq]? with
      | none => exact ⟨by simp, by simp, by simp, fun _ _ h => h⟩
      | some slot =>
        obtain ⟨slots, contiguous, bounded, left⟩ := ih (seq + 1) (cache.erase seq)
        have older : ∀ (other : Nat) (found : PreparedWalSlot ρ),
            (cache.erase seq)[other]? = some found → cache[other]? = some found := by
          intro other found erased
          rw [ExtTreeMap.getElem?_erase] at erased
          exact (Option.ite_none_left_eq_some.mp erased).2
        refine ⟨?_, ?_, ?_, fun other found kept => older other found (left other found kept)⟩
        · rintro pair (_ | ⟨_, member⟩)
          · exact lookup
          · exact older _ _ (slots pair member)
        · simp [contiguous, range'_succ]
        · rintro pair (_ | ⟨_, member⟩)
          · exact inside
          · exact bounded pair member
    · rw [if_neg inside]
      exact ⟨by simp, by simp, by simp, fun _ _ h => h⟩

variable {toInclusive fromSeq : Nat}

theorem takeRange_spec
    (took : takeRange cache fromSeq toInclusive maxEntries = some (taken, left)) :
    taken ≠ [] ∧ TakenRun cache fromSeq toInclusive taken left := by
  unfold takeRange at took
  dsimp only at took
  split at took
  next => simp at took
  next =>
    split at took
    next => simp at took
    next =>
      split at took
      next => simp at took
      next nonempty =>
        have spec := takeRun_spec toInclusive maxEntries fromSeq cache
        rw [Option.some.inj took] at spec nonempty
        exact ⟨by simpa using nonempty, spec⟩

/-- A run without a hole has every sequence from its start to any of its members. -/
theorem TakenRun.exists_of_le (run : TakenRun cache fromSeq toInclusive taken left)
    {last : Nat × PreparedWalSlot ρ} (member : last ∈ taken) (lower : fromSeq ≤ seq)
    (upper : seq ≤ last.1) : ∃ slot, (seq, slot) ∈ taken := by
  have lastInRange : last.1 ∈ range' fromSeq taken.length := by
    rw [← run.contiguous]
    exact mem_map_of_mem member
  have seqInRange : seq ∈ taken.map Prod.fst := by
    rw [run.contiguous, mem_range'_1]
    rw [mem_range'_1] at lastInRange
    omega
  obtain ⟨⟨found, slot⟩, foundMember, rfl⟩ := mem_map.mp seqInRange
  exact ⟨slot, foundMember⟩

theorem TakenRun.le_of_mem (run : TakenRun cache fromSeq toInclusive taken left)
    {pair : Nat × PreparedWalSlot ρ} (member : pair ∈ taken) : fromSeq ≤ pair.1 := by
  have inRange : pair.1 ∈ range' fromSeq taken.length := by
    rw [← run.contiguous]
    exact mem_map_of_mem member
  exact (mem_range'_1.mp inRange).1

end Cache

def readMaxBytes : Nat := 32 * 2 ^ 20

def readLoop (maxEntries : Nat) : Nat → Nat → List (Nat × WalRow ρ) → List (Nat × WalRow ρ)
  | _, _, [] => []
  | results, readBytes, row :: rows =>
    if maxEntries ≤ results ∨ readMaxBytes ≤ readBytes then []
    else row :: readLoop maxEntries (results + 1) (readBytes + row.2.bytes) rows

def rowsFrom (rows : Rows Nat (WalRow ρ)) (fromSeq : Nat) : List (Nat × WalRow ρ) :=
  rows.toList.filter fun row => fromSeq ≤ row.1

def readRange (rows : Rows Nat (WalRow ρ)) (fromSeq maxEntries : Nat) : List (Nat × WalRow ρ) :=
  readLoop maxEntries 0 0 (rowsFrom rows fromSeq)

variable {rows : Rows Nat (WalRow ρ)}

variable {fromSeq : Nat} {row : WalRow ρ}

theorem mem_rowsFrom :
    (seq, row) ∈ rowsFrom rows fromSeq ↔ rows[seq]? = some row ∧ fromSeq ≤ seq := by
  simp [rowsFrom]

theorem rowsFrom_ascending (rows : Rows Nat (WalRow ρ)) (fromSeq : Nat) :
    (rowsFrom rows fromSeq).Pairwise fun first second => first.1 < second.1 := by
  apply List.Pairwise.filter
  apply (ExtTreeMap.ordered_keys_toList (t := rows)).imp
  intro first second ordered
  exact Nat.compare_eq_lt.mp ordered

theorem readLoop_front (maxEntries results readBytes : Nat) (rows : List (Nat × WalRow ρ)) :
    readLoop maxEntries results readBytes rows <+: rows := by
  induction rows generalizing results readBytes with
  | nil => exact prefix_rfl
  | cons row rows ih =>
    unfold readLoop
    split
    · exact nil_prefix
    · rw [prefix_cons_inj]
      exact ih _ _

theorem readRange_cut (rows : Rows Nat (WalRow ρ)) (fromSeq maxEntries : Nat) :
    CutAbove (rowsFrom rows fromSeq) (readRange rows fromSeq maxEntries) :=
  .of_front (rowsFrom_ascending rows fromSeq) (readLoop_front ..)

theorem readRange_ascending (rows : Rows Nat (WalRow ρ)) (fromSeq limit : Nat) :
    (readRange rows fromSeq limit).Pairwise fun first second => first.1 < second.1 := by
  obtain ⟨rest, split⟩ := readLoop_front limit 0 0 (rowsFrom rows fromSeq)
  have ascending := rowsFrom_ascending rows fromSeq
  rw [← split] at ascending
  exact (pairwise_append.mp ascending).1

theorem readRange_eq_nil_iff (positive : 0 < maxEntries) :
    readRange rows fromSeq maxEntries = [] ↔
      ∀ (seq : Nat) (row : WalRow ρ), rows[seq]? = some row → seq < fromSeq := by
  have emptyIff : readRange rows fromSeq maxEntries = [] ↔ rowsFrom rows fromSeq = [] := by
    unfold readRange
    cases rowsFrom rows fromSeq with
    | nil => simp [readLoop]
    | cons row rows => simp [readLoop, readMaxBytes, Nat.pos_iff_ne_zero.mp positive]
  rw [emptyIff, eq_nil_iff_forall_not_mem]
  constructor
  · intro empty seq row lookup
    have outside := mt mem_rowsFrom.mpr (empty (seq, row))
    grind
  · rintro below ⟨seq, row⟩ member
    obtain ⟨lookup, reached⟩ := mem_rowsFrom.mp member
    have := below seq row lookup
    omega

/-- At most this many entries are deleted one by one; more take a range delete. -/
def truncatePointDeletesMax : Nat := 1024

variable (rows)

/-- Delete the rows below `sequence` that no truncation deleted before. -/
def truncateRows (truncatedThrough sequence : Nat) : Rows Nat (WalRow ρ) :=
  if sequence ≤ truncatedThrough then rows
  else if truncatePointDeletesMax < sequence - truncatedThrough then
    rows.filter fun seq _ => ¬(truncatedThrough ≤ seq ∧ seq < sequence)
  else
    write rows ((range' truncatedThrough (sequence - truncatedThrough)).map .delete)

theorem getElem?_deleteRange {β : Type} (rows : Rows Nat β) (first sequence seq : Nat) :
    (if truncatePointDeletesMax < sequence - first then
        rows.filter fun seq _ => ¬(first ≤ seq ∧ seq < sequence)
      else write rows ((range' first (sequence - first)).map .delete))[seq]? =
      if first ≤ seq ∧ seq < sequence then none else rows[seq]? := by
  split
  · rw [ExtTreeMap.getElem?_filter']
    by_cases inside : first ≤ seq ∧ seq < sequence
    · simp [inside]
    · cases rows[seq]? <;> simp [inside]
  · rw [lookup_write_deletes]
    apply ite_congr _ (fun _ => rfl) (fun _ => rfl)
    rw [mem_range'_1, eq_iff_iff]
    omega

theorem getElem?_truncateRows (truncatedThrough sequence seq : Nat) :
    (truncateRows rows truncatedThrough sequence)[seq]? =
      if truncatedThrough ≤ seq ∧ seq < sequence then none else rows[seq]? := by
  unfold truncateRows
  by_cases behind : sequence ≤ truncatedThrough
  · rw [if_pos behind, if_neg (by omega)]
  · rw [if_neg behind, getElem?_deleteRange]

def purgeRows (database : String) (scanned : List Nat) : Rows Nat (WalRow ρ) :=
  rows.filter fun seq row => ¬(seq ∈ scanned ∧ row.entry.database = database)

theorem getElem?_purgeRows_eq_some {rows : Rows Nat (WalRow ρ)} {database : String}
    {scanned : List Nat} :
    (purgeRows rows database scanned)[seq]? = some row ↔
      rows[seq]? = some row ∧ ¬(seq ∈ scanned ∧ row.entry.database = database) := by
  rw [purgeRows, ExtTreeMap.getElem?_filter', Option.filter_eq_some_iff]
  simp only [decide_eq_true_eq]

end

/-! ## The stored values of the write-ahead log -/

variable {ρ : Type}

/-- The serializers of entries and of record batches.  Each reads back what it wrote and
never writes nothing, and a stream holds at least a byte for each cell of `ingest_seq`. -/
structure WalCodec (ρ : Type) where
  serialize : WalEntry → Except String (List UInt8)
  deserialize : List UInt8 → Except String WalEntry
  encodeRecordBatch : RecordBatch ρ → Except String (List UInt8)
  decodeRecordBatch : List UInt8 → Except String (RecordBatch ρ)
  deserialize_serialize : ∀ {entry bytes}, serialize entry = .ok bytes →
    deserialize bytes = .ok entry
  serialize_ne_nil : ∀ {entry}, serialize entry ≠ .ok []
  decode_encode : ∀ {batch bytes}, encodeRecordBatch batch = .ok bytes →
    decodeRecordBatch bytes = .ok batch
  encode_ne_nil : ∀ {batch}, encodeRecordBatch batch ≠ .ok []
  numRows_le : ∀ {batch bytes}, encodeRecordBatch batch = .ok bytes →
    batch.ingestColumn = .uint64 → batch.numRows ≤ bytes.length

def writeString (text : String) : Except String (List UInt8) :=
  let bytes := text.toByteArray.data.toList
  if 65535 < bytes.length then .error "WAL string too long"
  else .ok (littleEndian 2 bytes.length ++ bytes)

def decodeUtf8 (buf : List UInt8) : Except String String :=
  match String.fromUTF8? buf.toByteArray with
  | some text => .ok text
  | none => .error "invalid utf-8 sequence"

def readString : Reader String := do
  let len ← readWord 2
  let buf ← readExact len
  decodeUtf8 buf

theorem decodeUtf8_toByteArray (text : String) :
    decodeUtf8 text.toByteArray.data.toList = .ok text := by
  have same : text.toByteArray.data.toList.toByteArray = text.toByteArray := by
    apply ByteArray.ext
    simp
  rw [decodeUtf8, same, String.fromUTF8?, dif_pos text.isValidUTF8]
  rfl

variable {bytes : List UInt8}

theorem reads_string {text : String}
    (made : writeString text = .ok bytes) : Reads readString bytes text := by
  unfold writeString at made
  dsimp only at made
  split at made
  next => cases made
  next short =>
    cases made
    have fits : text.toByteArray.data.toList.length < 256 ^ 2 := by omega
    apply (reads_word_of_lt fits).bind
    apply (reads_exact rfl).bind_nil
    exact lift (decodeUtf8_toByteArray text)

/-- A length in four bytes, then the bytes.  A longer block is not refused: its length
loses the high bits. -/
def writeBlock (block : List UInt8) : List UInt8 :=
  littleEndian 4 block.length ++ block

def readBlock (label : String) (len : Nat) : Reader (List UInt8) := do
  let remaining ← remaining
  if remaining < len then
    throw s!"invalid {label} length {len} (only {remaining} bytes remaining)"
  else readExact len

theorem reads_block (label : String) (block : List UInt8) :
    Reads (readBlock label block.length) block block := by
  intro rest
  have enough : ¬(block ++ rest).length < block.length := by simp
  change StateT.run (if (block ++ rest).length < block.length then _ else _) _ = _
  rw [if_neg enough]
  exact reads_exact rfl rest

variable {α : Type}

/-- A block that may be left out, which is written as an empty one. -/
def readOptional (label : String) (decode : List UInt8 → Except String α) :
    Reader (Option α) := do
  let len ← readWord 4
  if 0 < len then
    let block ← readBlock label len
    let value ← decode block
    return some value
  else return none

def writeOptional (encode : α → Except String (List UInt8)) :
    Option α → Except String (List UInt8)
  | none => .ok []
  | some value => encode value

theorem reads_optional (label : String)
    {encode : α → Except String (List UInt8)} {decode : List UInt8 → Except String α}
    (roundTrip : ∀ {value bytes}, encode value = .ok bytes → decode bytes = .ok value)
    (nonempty : ∀ {value}, encode value ≠ .ok []) {value : Option α} {block : List UInt8}
    (made : writeOptional encode value = .ok block) (fits : block.length < 2 ^ 32) :
    Reads (readOptional label decode) (writeBlock block) value := by
  apply (reads_word_of_lt fits).bind
  cases value with
  | none =>
    cases made
    exact pure none
  | some value =>
    have positive : 0 < block.length := by
      apply length_pos_iff.mpr
      rintro rfl
      exact nonempty made
    rw [if_pos positive]
    apply (reads_block label block).bind_nil
    apply (lift (roundTrip made)).bind_nil
    exact pure _

namespace WalCodec

variable (codec : WalCodec ρ)

section Measurements

def encodeMeasurement (prepared : PreparedMeasurementBatch ρ) : Except String (List UInt8) := do
  let measurement ← writeString prepared.measurement
  let tableName ← writeString prepared.tableName
  let seriesTableName ← writeString prepared.seriesTableName
  let factIpc ← codec.encodeRecordBatch prepared.batch
  let seriesIpc ← writeOptional codec.encodeRecordBatch prepared.newSeriesBatch
  return measurement ++ tableName ++ seriesTableName ++
    littleEndian 4 prepared.rowCount ++
    littleEndian 8 prepared.minTime.toUInt64.toNat ++
    littleEndian 8 prepared.maxTime.toUInt64.toNat ++
    writeBlock factIpc ++ writeBlock seriesIpc

def readTime : Reader Int64 := do
  return (UInt64.ofNat (← readWord 8)).toInt64

def readFacts : Reader (RecordBatch ρ) := do
  let factLen ← readWord 4
  let factIpc ← readBlock "fact_ipc" factLen
  codec.decodeRecordBatch factIpc

def readMeasurement : Reader (PreparedMeasurementBatch ρ) := do
  let measurement ← readString
  let tableName ← readString
  let seriesTableName ← readString
  let rowCount ← readWord 4
  let minTime ← readTime
  let maxTime ← readTime
  let batch ← codec.readFacts
  let newSeriesBatch ← readOptional "series_ipc" codec.decodeRecordBatch
  return ⟨measurement, tableName, seriesTableName, batch, rowCount, minTime, maxTime,
    newSeriesBatch⟩

variable {codec}

theorem reads_time (time : Int64) : Reads readTime (littleEndian 8 time.toUInt64.toNat) time := by
  apply (reads_word_of_lt time.toUInt64.toNat_lt).bind_nil
  rw [UInt64.ofNat_toNat]
  exact pure time

theorem reads_facts {batch : RecordBatch ρ} {factIpc : List UInt8}
    (made : codec.encodeRecordBatch batch = .ok factIpc) (fits : factIpc.length < 2 ^ 32) :
    Reads codec.readFacts (writeBlock factIpc) batch := by
  apply (reads_word_of_lt fits).bind
  apply (reads_block "fact_ipc" factIpc).bind_nil
  exact lift (codec.decode_encode made)

theorem reads_measurement {prepared : PreparedMeasurementBatch ρ}
    (wellFormed : prepared.WellFormed)
    (made : codec.encodeMeasurement prepared = .ok bytes) (fits : bytes.length < 2 ^ 32) :
    Reads codec.readMeasurement bytes prepared := by
  obtain ⟨measurement, measurementOk, made⟩ := exists_of_bind_eq_ok made
  obtain ⟨tableName, tableNameOk, made⟩ := exists_of_bind_eq_ok made
  obtain ⟨seriesTableName, seriesTableNameOk, made⟩ := exists_of_bind_eq_ok made
  obtain ⟨factIpc, factOk, made⟩ := exists_of_bind_eq_ok made
  obtain ⟨seriesIpc, seriesOk, made⟩ := exists_of_bind_eq_ok made
  cases made
  simp only [writeBlock, length_append] at fits
  have rows := codec.numRows_le factOk wellFormed.patchable
  have counted : prepared.rowCount < 256 ^ 4 := by
    rw [wellFormed.counted]
    omega
  simp only [append_assoc]
  apply (reads_string measurementOk).bind
  apply (reads_string tableNameOk).bind
  apply (reads_string seriesTableNameOk).bind
  apply (reads_word_of_lt counted).bind
  apply (reads_time prepared.minTime).bind
  apply (reads_time prepared.maxTime).bind
  apply (reads_facts factOk (by omega)).bind
  apply (reads_optional "series_ipc" codec.decode_encode codec.encode_ne_nil seriesOk
    (by omega)).bind_nil
  exact pure prepared

end Measurements

section Slots

variable {measurements : List (PreparedMeasurementBatch ρ)}

/-- The bytes `HBWA`. -/
def magic : List UInt8 := [72, 66, 87, 65]

def version : UInt8 := 1

def encodePreparedSlot (slot : PreparedWalSlot ρ) (legacyEntry : Option WalEntry) :
    Except String (List UInt8) := do
  let database ← writeString slot.database
  let retentionPolicy ← writeString slot.retentionPolicy
  let measurements ← slot.measurements.mapM codec.encodeMeasurement
  let legacy ← writeOptional codec.serialize legacyEntry
  return magic ++ [version] ++ database ++ retentionPolicy ++
    littleEndian 8 slot.originNodeId.toNat ++
    littleEndian 4 slot.measurements.length ++ measurements.flatten ++ writeBlock legacy

def readSlot : Reader (PreparedWalSlot ρ × Option WalEntry) := do
  let database ← readString
  let retentionPolicy ← readString
  let originNodeId ← readWord 8
  let measurementCount ← readWord 4
  let measurements ← readMany codec.readMeasurement measurementCount
  let legacyEntry ← readOptional "legacy entry" codec.deserialize
  return (⟨database, retentionPolicy, .ofNat originNodeId, measurements⟩, legacyEntry)

def decodePreparedSlot (bytes : List UInt8) : Except String (PreparedWalSlot ρ × Option WalEntry) :=
  match bytes.drop magic.length with
  | [] => .error "invalid prepared WAL magic"
  | found :: rest =>
    if bytes.take magic.length ≠ magic then .error "invalid prepared WAL magic"
    else if found ≠ version then .error s!"unsupported prepared WAL version {found}"
    else (codec.readSlot.run rest).map Prod.fst

variable {codec}

variable {pieces : List (List UInt8)}

theorem reads_measurements (wellFormed : ∀ prepared ∈ measurements, prepared.WellFormed)
    (made : measurements.mapM codec.encodeMeasurement = .ok pieces)
    (fits : pieces.flatten.length < 2 ^ 32) :
    Reads (readMany codec.readMeasurement measurements.length) pieces.flatten measurements := by
  apply reads_many
  have encoded := forall₂_of_mapM_eq_ok made
  clear made
  induction encoded with
  | nil => exact .nil
  | cons pieceOk _ ih =>
    rw [flatten_cons, length_append] at fits
    constructor
    · exact reads_measurement (wellFormed _ (by simp)) pieceOk (by omega)
    · exact ih (fun other member => wellFormed other (by simp [member])) (by omega)

/-- Each measurement takes four bytes at least, so their number fits where their bytes
do. -/
theorem length_le_flatten
    (made : measurements.mapM codec.encodeMeasurement = .ok pieces) :
    measurements.length ≤ pieces.flatten.length := by
  have encoded := forall₂_of_mapM_eq_ok made
  clear made
  induction encoded with
  | nil => simp
  | cons pieceOk _ ih =>
    obtain ⟨_, _, made⟩ := exists_of_bind_eq_ok pieceOk
    obtain ⟨_, _, made⟩ := exists_of_bind_eq_ok made
    obtain ⟨_, _, made⟩ := exists_of_bind_eq_ok made
    obtain ⟨_, _, made⟩ := exists_of_bind_eq_ok made
    obtain ⟨_, _, made⟩ := exists_of_bind_eq_ok made
    cases made
    simp only [length_cons, flatten_cons, length_append, length_littleEndian]
    omega

/-- A slot in a value below four GiB is read back. -/
theorem decodePreparedSlot_encodePreparedSlot {slot : PreparedWalSlot ρ}
    (wellFormed : ∀ prepared ∈ slot.measurements, prepared.WellFormed)
    {legacyEntry : Option WalEntry}
    (made : codec.encodePreparedSlot slot legacyEntry = .ok bytes) (fits : bytes.length < 2 ^ 32) :
    codec.decodePreparedSlot bytes = .ok (slot, legacyEntry) := by
  obtain ⟨database, databaseOk, made⟩ := exists_of_bind_eq_ok made
  obtain ⟨retentionPolicy, retentionPolicyOk, made⟩ := exists_of_bind_eq_ok made
  obtain ⟨measurements, measurementsOk, made⟩ := exists_of_bind_eq_ok made
  obtain ⟨legacy, legacyOk, made⟩ := exists_of_bind_eq_ok made
  cases made
  simp only [writeBlock, length_append] at fits
  have counted := length_le_flatten measurementsOk
  have reads : Reads codec.readSlot
      (database ++ (retentionPolicy ++ (littleEndian 8 slot.originNodeId.toNat ++
        (littleEndian 4 slot.measurements.length ++ (measurements.flatten ++ writeBlock legacy)))))
      (slot, legacyEntry) := by
    apply (reads_string databaseOk).bind
    apply (reads_string retentionPolicyOk).bind
    apply (reads_word_of_lt slot.originNodeId.toNat_lt).bind
    apply (reads_word_of_lt (by omega : slot.measurements.length < 256 ^ 4)).bind
    apply (reads_measurements wellFormed measurementsOk (by omega)).bind
    apply (reads_optional "legacy entry" codec.deserialize_serialize codec.serialize_ne_nil
      legacyOk (by omega)).bind_nil
    rw [UInt64.ofNat_toNat]
    exact pure (slot, legacyEntry)
  simp only [decodePreparedSlot, append_assoc, magic, length_cons, length_nil,
    cons_append, nil_append, drop_succ_cons, drop_zero]
  rw [reads.run_eq]
  simp [Except.map]

end Slots

section Values

def encodeWalValue (format : WalFormat) (slot : Option (PreparedWalSlot ρ))
    (entry : WalEntry) : Except String (List UInt8) :=
  match format with
  | .bincode => codec.serialize entry
  | .arrowIpc =>
    match slot with
    | none => .error "arrow IPC WAL requires prepared slot"
    | some slot => codec.encodePreparedSlot slot (some entry)

def decodeWalValue (format : WalFormat) (bytes : List UInt8) :
    Except String (Option (PreparedWalSlot ρ) × WalEntry) :=
  match format with
  | .bincode => do
      let entry ← codec.deserialize bytes
      return (none, entry)
  | .arrowIpc => do
      let (slot, legacy) ← codec.decodePreparedSlot bytes
      match legacy with
      | some entry => return (some slot, entry)
      | none => .error "arrow IPC WAL missing legacy WalEntry"

variable {codec}

def storedSlot (format : WalFormat) (slot : Option (PreparedWalSlot ρ)) :
    Option (PreparedWalSlot ρ) :=
  match format with
  | .bincode => none
  | .arrowIpc => slot

/-- What was stored is read back, in both formats. -/
theorem decodeWalValue_encodeWalValue {format : WalFormat} {slot : Option (PreparedWalSlot ρ)}
    (wellFormed : ∀ found ∈ slot, ∀ prepared ∈ found.measurements, prepared.WellFormed)
    {entry : WalEntry} {value : List UInt8}
    (made : codec.encodeWalValue format slot entry = .ok value)
    (fits : format = .arrowIpc → value.length < 2 ^ 32) :
    codec.decodeWalValue format value = .ok (storedSlot format slot, entry) := by
  cases format with
  | bincode =>
    simp only [decodeWalValue, codec.deserialize_serialize made]
    rfl
  | arrowIpc =>
    cases slot with
    | none => cases made
    | some slot =>
      have decoded := decodePreparedSlot_encodePreparedSlot (wellFormed slot rfl) made (fits rfl)
      simp only [decodeWalValue, decoded]
      rfl

end Values

end WalCodec

end HyperbyteDb
