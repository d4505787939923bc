import HyperbyteDb.ColumnarBatches
import HyperbyteDb.PointFrames
import HyperbyteDb.WalValueCodec

/-!
# Appending client writes to the log

A client write reaches the log as points or as a columnar batch.  When the log keeps prepared
slots, ingest first asks the sink to build one, and falls back to the points if that fails.
-/

namespace HyperbyteDb

open ByteReaders List OrderedRows

variable {ρ : Type}

structure IngestBundle (ρ : Type) where
  entry : WalEntry
  prepared : Option (PreparedWalSlot ρ)

/-- The durable values of the log, by sequence, and what it keeps in memory. -/
structure WalStore (ρ : Type) where
  seq : Nat
  values : Rows Nat (List UInt8)
  sizes : List (Nat × Nat)
  arrowCache : Rows Nat (PreparedWalSlot ρ)

structure RocksDbWal (ρ : Type) where
  codec : WalCodec ρ
  walFormat : WalFormat
  arrowWalEnabled : Bool

/-- An append waiting for the writer, with its value if the format allows to serialize it
beforehand. -/
structure BatchRequest (ρ : Type) where
  bundle : IngestBundle ρ
  preEncoded : Option (List UInt8)

/-- How an append reaches the store: alone, or in one batch with others. -/
inductive AppendRoute (ρ : Type) where
  | direct
  | batched (before after : List (BatchRequest ρ))

variable {dbWrite : Except String Unit} {bundle : IngestBundle ρ} {route : AppendRoute ρ}

variable {seq : Nat}

namespace RocksDbWal

variable (wal : RocksDbWal ρ)

/-- The Arrow format embeds the slot in the value, so its sequences are made absolute
first. -/
def patchForStore (seq : Nat) (prepared : Option (PreparedWalSlot ρ)) :
    Except String (Option (PreparedWalSlot ρ)) :=
  match wal.walFormat, prepared with
  | .arrowIpc, some slot => (slot.patchAllIngestSeqs (.ofNat seq)).map some
  | _, prepared => .ok prepared

/-- Bytes serialized off the writer are preferred to encoding here. -/
def requestValue (request : BatchRequest ρ) (prepared : Option (PreparedWalSlot ρ)) :
    Except String (List UInt8) :=
  match request.preEncoded with
  | some bytes => .ok bytes
  | none => wal.codec.encodeWalValue wal.walFormat prepared request.bundle.entry

def encodeRequest (seq : Nat) (request : BatchRequest ρ) :
    Except String (List UInt8 × Option (PreparedWalSlot ρ)) := do
  let prepared ← wal.patchForStore seq request.bundle.prepared
  let value ← wal.requestValue request prepared
  return (value, prepared)

def encodeRequests :
    Nat → List (BatchRequest ρ) →
      Except String (List (Nat × List UInt8 × Option (PreparedWalSlot ρ)))
  | _, [] => .ok []
  | seq, request :: requests => do
      let encoded ← wal.encodeRequest seq request
      let later ← encodeRequests (seq + 1) requests
      return (seq, encoded) :: later

/-- Store a batch; `dbWrite` is the answer of the store.  The sequences are assigned even
if nothing is stored in the end. -/
def writeBundleBatch (store : WalStore ρ) (requests : List (BatchRequest ρ))
    (dbWrite : Except String Unit) : Except String (List Nat) × WalStore ρ :=
  if requests.isEmpty then (.ok [], store)
  else
    let reserved := { store with seq := store.seq + requests.length }
    match wal.encodeRequests (store.seq + 1) requests, dbWrite with
    | .error cause, _ => (.error cause, reserved)
    | .ok _, .error cause => (.error cause, reserved)
    | .ok stored, .ok () =>
      (.ok (stored.map Prod.fst),
        { reserved with
          values := write store.values (stored.map fun item => .put item.1 item.2.1)
          sizes := store.sizes ++ stored.map fun item => (item.1, item.2.1.length)
          arrowCache :=
            if wal.arrowWalEnabled then
              write store.arrowCache (stored.filterMap fun item =>
                item.2.2.map fun slot => .put item.1 slot)
            else store.arrowCache })

section Appends

variable {request : BatchRequest ρ} {requests : List (BatchRequest ρ)}
  {stored : List (Nat × List UInt8 × Option (PreparedWalSlot ρ))}

/-- The bincode value does not depend on the sequence, so it is serialized by the
request's own task. -/
def batchRequest (bundle : IngestBundle ρ) : Except String (BatchRequest ρ) :=
  match wal.walFormat with
  | .bincode => do
      let bytes ← wal.codec.serialize bundle.entry
      return ⟨bundle, some bytes⟩
  | .arrowIpc => .ok ⟨bundle, none⟩

/-- Append one bundle.  In a batch it gets the answer at its own position. -/
def appendBundle (route : AppendRoute ρ) (dbWrite : Except String Unit)
    (bundle : IngestBundle ρ) (store : WalStore ρ) : Except String Nat × WalStore ρ :=
  match route with
  | .direct =>
    let (result, after) := wal.writeBundleBatch store [⟨bundle, none⟩] dbWrite
    match result with
    | .ok seqs => (.ok (seqs.headD 0), after)
    | .error cause => (.error cause, after)
  | .batched before later =>
    match wal.batchRequest bundle with
    | .error cause => (.error cause, store)
    | .ok request =>
      let (result, after) :=
        wal.writeBundleBatch store (before ++ request :: later) dbWrite
      match result with
      | .error cause => (.error cause, after)
      | .ok seqs =>
        match seqs[before.length]? with
        | some seq => (.ok seq, after)
        | none => (.error "WAL batcher dropped response", after)

variable {wal}

theorem encodeRequests_seqs (made : wal.encodeRequests seq requests = .ok stored) :
    stored.map Prod.fst = range' seq requests.length := by
  induction requests generalizing seq stored with
  | nil =>
    cases made
    rfl
  | cons request requests ih =>
    obtain ⟨encoded, -, made⟩ := exists_of_bind_eq_ok made
    obtain ⟨later, laterOk, made⟩ := exists_of_bind_eq_ok made
    cases made
    rw [map_cons, ih laterOk, length_cons, range'_succ]

variable {index : Nat}

theorem exists_of_encodeRequests (made : wal.encodeRequests seq requests = .ok stored)
    (lookup : requests[index]? = some request) :
    ∃ encoded, wal.encodeRequest (seq + index) request = .ok encoded ∧
      (seq + index, encoded) ∈ stored := by
  induction requests generalizing seq stored index with
  | nil => simp at lookup
  | cons first requests ih =>
    obtain ⟨encoded, encodedOk, made⟩ := exists_of_bind_eq_ok made
    obtain ⟨later, laterOk, made⟩ := exists_of_bind_eq_ok made
    cases made
    cases index with
    | zero =>
      cases lookup
      exact ⟨encoded, encodedOk, by simp⟩
    | succ index =>
      obtain ⟨found, foundOk, member⟩ := ih laterOk lookup
      rw [Nat.add_right_comm] at foundOk member
      exact ⟨found, foundOk, mem_cons_of_mem _ member⟩

theorem writeBundleBatch_stores {store after : WalStore ρ}
    {seqs : List Nat} (made : wal.writeBundleBatch store requests dbWrite = (.ok seqs, after))
    (lookup : requests[index]? = some request) :
    seqs[index]? = some (store.seq + 1 + index) ∧
      ∃ encoded, wal.encodeRequest (store.seq + 1 + index) request = .ok encoded ∧
        after.values[store.seq + 1 + index]? = some encoded.1 := by
  revert made
  fun_cases writeBundleBatch with
  | case1 empty => simp_all
  | case2 | case3 => rintro ⟨⟩
  | case4 _ _ stored storedOk =>
    rintro ⟨⟩
    have counted := encodeRequests_seqs storedOk
    obtain ⟨encoded, encodedOk, member⟩ := exists_of_encodeRequests storedOk lookup
    refine ⟨?_, encoded, encodedOk, ?_⟩
    · rw [counted, List.getElem?_range' (List.getElem?_eq_some_iff.mp lookup).1]
      simp
    · have distinct : (stored.map Prod.fst).Nodup := by
        rw [counted]
        exact nodup_range'
      have functional : ∀ first ∈ stored.map fun item => (item.1, item.2.1),
          ∀ second ∈ stored.map fun item => (item.1, item.2.1), first.1 = second.1 →
            first.2 = second.2 := by
        intro first firstMember second secondMember sameSeq
        obtain ⟨firstItem, firstInside, rfl⟩ := mem_map.mp firstMember
        obtain ⟨secondItem, secondInside, rfl⟩ := mem_map.mp secondMember
        rw [inj_on_of_nodup_map distinct firstInside secondInside sameSeq]
      have put := lookup_write_puts_of_mem store.values functional (mem_map_of_mem member)
      rwa [map_map] at put

/-- A value serialized beforehand is the one the writer would store. -/
def Faithful (request : BatchRequest ρ) : Prop :=
  ∀ bytes ∈ request.preEncoded, ∀ prepared,
    wal.codec.encodeWalValue wal.walFormat prepared request.bundle.entry = .ok bytes

theorem batchRequest_spec (made : wal.batchRequest bundle = .ok request) :
    request.bundle = bundle ∧ wal.Faithful request := by
  unfold batchRequest at made
  split at made
  next format =>
    obtain ⟨bytes, bytesOk, made⟩ := exists_of_bind_eq_ok made
    cases made
    refine ⟨rfl, fun other same prepared => ?_⟩
    cases same
    rw [format]
    exact bytesOk
  next =>
    cases made
    exact ⟨rfl, by simp [Faithful]⟩

theorem encodeRequest_spec (faithful : wal.Faithful request)
    {encoded : List UInt8 × Option (PreparedWalSlot ρ)}
    (made : wal.encodeRequest seq request = .ok encoded) :
    wal.patchForStore seq request.bundle.prepared = .ok encoded.2 ∧
      wal.codec.encodeWalValue wal.walFormat encoded.2 request.bundle.entry = .ok encoded.1 := by
  obtain ⟨prepared, preparedOk, made⟩ := exists_of_bind_eq_ok made
  obtain ⟨value, valueOk, made⟩ := exists_of_bind_eq_ok made
  cases made
  refine ⟨preparedOk, ?_⟩
  unfold requestValue at valueOk
  split at valueOk
  next bytes given =>
    cases valueOk
    exact faithful _ given prepared
  next => exact valueOk

/-- An append that answers a sequence has stored the encoding of its bundle there,
whatever it was batched with. -/
theorem appendBundle_stores {store after : WalStore ρ}
    (made : wal.appendBundle route dbWrite bundle store = (.ok seq, after)) :
    ∃ prepared value, wal.patchForStore seq bundle.prepared = .ok prepared ∧
      wal.codec.encodeWalValue wal.walFormat prepared bundle.entry = .ok value ∧
      after.values[seq]? = some value := by
  cases route with
  | direct =>
    cases written : wal.writeBundleBatch store [⟨bundle, none⟩] dbWrite with
    | mk result stored =>
      simp only [appendBundle, written] at made
      cases result with
      | error cause => cases made
      | ok seqs =>
        cases made
        have position : [BatchRequest.mk bundle none][0]? = some ⟨bundle, none⟩ := rfl
        obtain ⟨answered, encoded, encodedOk, lookup⟩ :=
          writeBundleBatch_stores written position
        obtain ⟨patched, value⟩ := encodeRequest_spec (by simp [Faithful]) encodedOk
        have first : seqs.headD 0 = store.seq + 1 := by
          rw [headD_eq_head?_getD, head?_eq_getElem?, answered]
          rfl
        rw [first]
        exact ⟨encoded.2, encoded.1, patched, value, lookup⟩
  | batched before later =>
    cases requested : wal.batchRequest bundle with
    | error cause => simp [appendBundle, requested] at made
    | ok request =>
      obtain ⟨rfl, faithful⟩ := batchRequest_spec requested
      cases written : wal.writeBundleBatch store (before ++ request :: later) dbWrite with
      | mk result stored =>
        simp only [appendBundle, requested, written] at made
        cases result with
        | error cause => cases made
        | ok seqs =>
          have position :
              (before ++ request :: later)[before.length]? = some request := by
            simp
          obtain ⟨answered, encoded, encodedOk, lookup⟩ :=
            writeBundleBatch_stores written position
          simp only [answered] at made
          cases made
          obtain ⟨patched, value⟩ := encodeRequest_spec faithful encodedOk
          exact ⟨encoded.2, encoded.1, patched, value, lookup⟩

end Appends

end RocksDbWal

/-- The sink as ingest uses it.  A slot it builds holds a row for each point of the
write; `clock` is its reading of the wall clock. -/
structure PointsSink (stacking : BatchStacking ρ) where
  buildPreparedWalSlot : String → String → UInt64 → List Point → Except String (PreparedWalSlot ρ)
  buildPreparedWalSlotFromColumnar : String → String → UInt64 → ColumnarMsgpackBatch →
    Option String → Option Int64 → Except String (PreparedWalSlot ρ)
  build_prepares : ∀ {db rp origin points slot},
    buildPreparedWalSlot db rp origin points = .ok slot →
    PreparedFor stacking slot ⟨db, rp, points, origin⟩
  buildFromColumnar_prepares : ∀ {db rp origin wire precision clock slot},
    buildPreparedWalSlotFromColumnar db rp origin wire precision clock = .ok slot →
    ∃ points, wire.columnarBatchToPoints precision clock = .ok points ∧
      PreparedFor stacking slot ⟨db, rp, points, origin⟩

def validatePointCount (count maxPoints : Nat) : Except String Unit :=
  let limit := if maxPoints = 0 then defaultMaxPointsPerRequest else maxPoints
  if limit < count then
    .error s!"request exceeds maximum point count: {count} points (limit: {limit})"
  else .ok ()

variable {stacking : BatchStacking ρ}

section Ingest

variable (wal : RocksDbWal ρ) (route : AppendRoute ρ)
  (dbWrite : Except String Unit) (sink : Option (PointsSink stacking))

def preparedSlot? (build : PointsSink stacking → Except String (PreparedWalSlot ρ)) :
    Option (PreparedWalSlot ρ) :=
  if wal.arrowWalEnabled then sink.bind fun sink => (build sink).toOption else none

def appendPointsWithPrepared (db rp : String) (points : List Point) (originNodeId : UInt64)
    (maxPointsPerRequest : Nat) (store : WalStore ρ) : Except String Nat × WalStore ρ :=
  match validatePointCount points.length maxPointsPerRequest with
  | .error cause => (.error cause, store)
  | .ok () =>
    let entry := WalEntry.mk db rp points originNodeId
    let prepared := preparedSlot? wal sink (·.buildPreparedWalSlot db rp originNodeId points)
    wal.appendBundle route dbWrite ⟨entry, prepared⟩ store

structure ColumnarWalAppend where
  db : String
  rp : String
  wire : ColumnarMsgpackBatch
  precision : Option String
  originNodeId : UInt64
  maxPointsPerRequest : Nat

/-- A slot is stored next to an entry without points; only the fallback expands the batch
to points. -/
def appendColumnarWithPrepared (req : ColumnarWalAppend) (clock : Option Int64)
    (store : WalStore ρ) : Except String Nat × WalStore ρ :=
  match validatePointCount req.wire.values.length req.maxPointsPerRequest with
  | .error cause => (.error cause, store)
  | .ok () =>
    match preparedSlot? wal sink (·.buildPreparedWalSlotFromColumnar req.db req.rp
      req.originNodeId req.wire req.precision clock) with
    | some prepared =>
      let entry := WalEntry.mk req.db req.rp [] req.originNodeId
      wal.appendBundle route dbWrite ⟨entry, some prepared⟩ store
    | none =>
      match req.wire.columnarBatchToPoints req.precision clock with
      | .error cause => (.error cause, store)
      | .ok points =>
        appendPointsWithPrepared wal route dbWrite sink req.db req.rp points
          req.originNodeId req.maxPointsPerRequest store

end Ingest

section Decoding

variable {wal : RocksDbWal ρ}

theorem RocksDbWal.patchForStore_prepares {entry : WalEntry} {given : Option (PreparedWalSlot ρ)}
    (prepares : ∀ slot ∈ given, PreparedFor stacking slot entry)
    {prepared : Option (PreparedWalSlot ρ)} (made : wal.patchForStore seq given = .ok prepared) :
    ∀ slot ∈ prepared, PreparedFor stacking slot entry := by
  unfold patchForStore at made
  split at made
  next slot _ =>
    obtain ⟨patched, patchedOk, patchedFor⟩ :=
      (prepares slot rfl).patchAllIngestSeqs (.ofNat seq)
    rw [patchedOk] at made
    cases made
    intro other same
    exact Option.mem_some.mp same ▸ patchedFor
  next =>
    cases made
    exact prepares

theorem RocksDbWal.appendBundle_decodes
    (prepares : ∀ slot ∈ bundle.prepared, PreparedFor stacking slot bundle.entry)
    {store after : WalStore ρ}
    (made : wal.appendBundle route dbWrite bundle store = (.ok seq, after))
    (fits : wal.walFormat = .arrowIpc → ∀ value, after.values[seq]? = some value →
      value.length < 2 ^ 32) :
    ∃ value prepared, after.values[seq]? = some value ∧
      wal.codec.decodeWalValue wal.walFormat value = .ok (prepared, bundle.entry) ∧
      ∀ slot ∈ prepared, PreparedFor stacking slot bundle.entry := by
  obtain ⟨prepared, value, patched, encoded, lookup⟩ := appendBundle_stores made
  have patchedFor := patchForStore_prepares prepares patched
  have decoded := WalCodec.decodeWalValue_encodeWalValue
    (fun slot member => (patchedFor slot member).wellFormed) encoded
    fun arrow => fits arrow value lookup
  refine ⟨value, _, lookup, decoded, fun slot member => patchedFor slot ?_⟩
  unfold WalCodec.storedSlot at member
  split at member
  · cases member
  · exact member

end Decoding

end HyperbyteDb
