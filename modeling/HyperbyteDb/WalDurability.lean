import HyperbyteDb.FlushDrain
import HyperbyteDb.WalAppends

/-!
# What the log keeps of an accepted write

A write whose stored entry holds all its points survives the loss of every prepared slot.
-/

namespace HyperbyteDb

open ByteReaders FlushService GuardedRuns List OrderedRows WalCodec

variable {seq : Nat} {value : List UInt8}

variable {ρ : Type} {service : FlushService ρ} {codec : WalCodec ρ}

section

def FlushService.wal (service : FlushService ρ) (codec : WalCodec ρ) : RocksDbWal ρ :=
  ⟨codec, service.walFormat, service.arrowWalEnabled⟩

section Refinement

/-- A stored value and the row that stands for it: the row is what the value decodes to,
and both leave the same slot for the cache. -/
def RowOf (service : FlushService ρ) (codec : WalCodec ρ)
    (item : Nat × List UInt8 × Option (PreparedWalSlot ρ))
    (row : Nat × WalRow ρ × Option (PreparedWalSlot ρ)) : Prop :=
  item.1 = row.1 ∧ item.2.2 = row.2.2 ∧ item.2.1.length = row.2.1.bytes ∧
    codec.decodeWalValue service.walFormat item.2.1 = .ok (row.2.1.prepared, row.2.1.entry)

/-- The request as the row-level writer takes it, for a value of `bytes` bytes. -/
def BatchRequest.toBundle {stacking : BatchStacking ρ} (request : BatchRequest ρ)
    (prepares : ∀ slot ∈ request.bundle.prepared,
      PreparedFor stacking slot request.bundle.entry) (bytes : Nat) : WalAppendBundle stacking :=
  ⟨request.bundle.entry, request.bundle.prepared, bytes, prepares⟩

theorem encodeBundle_of_patchForStore
    {bundle : WalAppendBundle service.stacking} {prepared : Option (PreparedWalSlot ρ)}
    (patched : (service.wal codec).patchForStore seq bundle.prepared = .ok prepared)
    (stored : codec.encodeWalValue service.walFormat prepared bundle.entry = .ok value) :
    service.encodeBundle seq bundle =
      .ok (⟨bundle.entry, storedSlot service.walFormat prepared, bundle.bytes⟩, prepared) := by
  unfold encodeBundle
  cases format : service.walFormat with
  | bincode =>
    simp only [wal, format] at patched
    cases patched
    rfl
  | arrowIpc =>
    cases given : bundle.prepared with
    | none =>
      simp only [wal, format, given] at patched
      cases patched
      rw [format] at stored
      cases stored
    | some slot =>
      simp only [wal, format, given] at patched
      obtain ⟨result, made, ⟨⟩⟩ := exists_of_bind_eq_ok patched
      simp [made, Except.map, storedSlot]

theorem encodeRequest_refines {request : BatchRequest ρ}
    (faithful : (service.wal codec).Faithful request) (prepares : ∀ slot ∈ request.bundle.prepared,
      PreparedFor service.stacking slot request.bundle.entry)
    {encoded : List UInt8 × Option (PreparedWalSlot ρ)}
    (made : (service.wal codec).encodeRequest seq request = .ok encoded)
    (fits : encoded.1.length < 2 ^ 32) :
    ∃ row, service.encodeBundle seq (request.toBundle prepares encoded.1.length) = .ok row ∧
      RowOf service codec (seq, encoded) (seq, row) := by
  obtain ⟨patched, valueOk⟩ := RocksDbWal.encodeRequest_spec faithful made
  have patchedFor := RocksDbWal.patchForStore_prepares prepares patched
  have decoded := decodeWalValue_encodeWalValue
    (fun slot member => (patchedFor slot member).wellFormed) valueOk fun _ => fits
  let bundle : WalAppendBundle service.stacking :=
    request.toBundle prepares encoded.1.length
  have rowOk : service.encodeBundle seq bundle = .ok (⟨bundle.entry,
      storedSlot service.walFormat encoded.2, bundle.bytes⟩, encoded.2) :=
    encodeBundle_of_patchForStore patched valueOk
  exact ⟨_, rowOk, rfl, rfl, rfl, decoded⟩

end Refinement

end

/-! ## What the log keeps of an accepted write -/

/-- A client write, as one of the two ways of ingest takes it. -/
inductive ClientWrite where
  | points (db rp : String) (batch : List Point) (originNodeId : UInt64) (maxPointsPerRequest : Nat)
  | columnar (req : ColumnarWalAppend)

namespace ClientWrite

variable {stacking : BatchStacking ρ} (wal : RocksDbWal ρ)
  (sink : Option (PointsSink stacking)) (clock : Option Int64)

variable {build : PointsSink stacking → Except String (PreparedWalSlot ρ)}

def append (route : AppendRoute ρ) (dbWrite : Except String Unit) :
    ClientWrite → WalStore ρ → Except String Nat × WalStore ρ
  | .points db rp batch originNodeId maxPointsPerRequest =>
    appendPointsWithPrepared wal route dbWrite sink db rp batch originNodeId maxPointsPerRequest
  | .columnar req => appendColumnarWithPrepared wal route dbWrite sink req clock

def whole : ClientWrite → Except String WalEntry
  | .points db rp batch originNodeId _ => .ok ⟨db, rp, batch, originNodeId⟩
  | .columnar req => do
      let points ← req.wire.columnarBatchToPoints req.precision clock
      return ⟨req.db, req.rp, points, req.originNodeId⟩

/-- Only the prepared slot will hold the points: a columnar write of at least one value,
for which the sink builds a slot that the log keeps. -/
def SlotOnly : ClientWrite → Prop
  | .points .. => False
  | .columnar req =>
    req.wire.values ≠ [] ∧ wal.arrowWalEnabled = true ∧ ∃ found ∈ sink, ∃ slot,
      found.buildPreparedWalSlotFromColumnar req.db req.rp req.originNodeId req.wire
        req.precision clock = .ok slot

structure Bundled (write : ClientWrite) (bundle : IngestBundle ρ) (entry : WalEntry) : Prop where
  whole : write.whole clock = .ok entry
  prepares : ∀ slot ∈ bundle.prepared, PreparedFor stacking slot bundle.entry
  kept : ¬write.SlotOnly wal sink clock → bundle.entry = entry
  dropped : write.SlotOnly wal sink clock → bundle.entry.points = [] ∧ entry.points ≠ []

variable {wal sink clock}

variable {slot : PreparedWalSlot ρ}

theorem exists_of_preparedSlot?
    (built : preparedSlot? wal sink build = some slot) :
    wal.arrowWalEnabled = true ∧ ∃ found ∈ sink, build found = .ok slot := by
  unfold preparedSlot? at built
  split at built
  next enabled =>
    obtain ⟨found, present, answer⟩ := Option.bind_eq_some_iff.mp built
    refine ⟨enabled, found, present, ?_⟩
    cases result : build found with
    | error cause =>
      rw [result] at answer
      cases answer
    | ok slot =>
      rw [result] at answer
      cases answer
      rfl
  next => cases built

theorem preparedSlot?_ne_none (enabled : wal.arrowWalEnabled = true) {found : PointsSink stacking}
    (present : found ∈ sink) (built : build found = .ok slot) :
    preparedSlot? wal sink build = some slot := by
  rw [preparedSlot?, if_pos enabled, Option.mem_def.mp present]
  simp [built, Except.toOption]

variable {route : AppendRoute ρ} {dbWrite : Except String Unit}

theorem appendPoints_bundled
    {db rp : String} {points : List Point} {originNodeId : UInt64} {maxPoints : Nat}
    {store after : WalStore ρ}
    (made : appendPointsWithPrepared wal route dbWrite sink db rp points originNodeId
      maxPoints store = (.ok seq, after)) :
    ∃ prepared, wal.appendBundle route dbWrite ⟨⟨db, rp, points, originNodeId⟩, prepared⟩
        store = (.ok seq, after) ∧
      ∀ slot ∈ prepared, PreparedFor stacking slot ⟨db, rp, points, originNodeId⟩ := by
  unfold appendPointsWithPrepared at made
  split at made
  next => cases made
  next =>
    refine ⟨_, made, fun slot built => ?_⟩
    obtain ⟨-, found, -, answer⟩ := exists_of_preparedSlot? built
    exact found.build_prepares answer

theorem append_bundled {write : ClientWrite} {store after : WalStore ρ}
    (made : write.append wal sink clock route dbWrite store = (.ok seq, after)) :
    ∃ bundle entry, wal.appendBundle route dbWrite bundle store = (.ok seq, after) ∧
      Bundled wal sink clock write bundle entry := by
  cases write with
  | points db rp points originNodeId maxPoints =>
    obtain ⟨prepared, appended, prepares⟩ := appendPoints_bundled made
    exact ⟨_, _, appended, rfl, prepares, fun _ => rfl, False.elim⟩
  | columnar req =>
    simp only [append, appendColumnarWithPrepared] at made
    split at made
    next => cases made
    next =>
      split at made
      next slot built =>
        obtain ⟨enabled, found, present, answer⟩ := exists_of_preparedSlot? built
        obtain ⟨expanded, expandedOk, prepares⟩ := found.buildFromColumnar_prepares answer
        have counted := ColumnarMsgpackBatch.length_columnarBatchToPoints expandedOk
        refine ⟨_, ⟨req.db, req.rp, expanded, req.originNodeId⟩, made, ?_, ?_, ?_, ?_⟩
        · simp only [whole, expandedOk]
          rfl
        · intro other same
          obtain rfl := Option.mem_some.mp same
          exact ⟨prepares.database, prepares.retentionPolicy, prepares.wellFormed, by simp⟩
        · intro kept
          have empty : req.wire.values = [] := by
            by_contra nonempty
            exact kept ⟨nonempty, enabled, found, present, slot, answer⟩
          rw [empty, length_nil, length_eq_zero_iff] at counted
          rw [counted]
        · rintro ⟨nonempty, -⟩
          refine ⟨rfl, fun empty => nonempty ?_⟩
          change expanded = [] at empty
          rw [empty] at counted
          exact length_eq_zero_iff.mp counted.symm
      next unbuilt =>
        split at made
        next => cases made
        next expanded expandedOk =>
          obtain ⟨prepared, appended, prepares⟩ := appendPoints_bundled made
          refine ⟨_, _, appended, ?_, prepares, fun _ => rfl, ?_⟩
          · simp only [whole, expandedOk]
            rfl
          · rintro ⟨-, enabled, found, present, slot, built⟩
            rw [preparedSlot?_ne_none enabled present built] at unbuilt
            cases unbuilt

end ClientWrite

variable {entry : WalEntry}

namespace FlushService

/-- All of `accepted` can be had back from the value stored under `seq`. -/
structure Durable (service : FlushService ρ) (codec : WalCodec ρ) (seq : Nat)
    (value : List UInt8) (accepted : WalEntry) : Prop where
  /-- The value decodes to an entry that flushes to all the points. -/
  decodes : ∃ prepared entry,
    codec.decodeWalValue service.walFormat value = .ok (prepared, entry) ∧
    Covered service.stacking (service.settings.nativeWork seq [(seq, entry)]) accepted
  /-- Whatever log a process finds and whatever it does from then on, once the entry is
  flushed, truncated or gone, all the points have reached the sink. -/
  flushed : ∀ {prepared entry},
    codec.decodeWalValue service.walFormat value = .ok (prepared, entry) →
    ∀ (image : WalImage service.stacking) (events : List (FlushEvent service.stacking)),
    let world := run service.next image.world events
    world.history.committed[seq]? = some entry →
    seq ≤ world.lastFlushed ∨ seq < world.truncatedThrough ∨ world.rows[seq]? = none →
    world.history.Settled service.stacking seq accepted
  /-- From any such state at rest, a drain that meets no failure brings them there. -/
  drained : service.stacking.Total → ∀ {prepared entry},
    codec.decodeWalValue service.walFormat value = .ok (prepared, entry) →
    ∀ (image : WalImage service.stacking) (events : List (FlushEvent service.stacking)),
    let world := run service.next image.world events
    world.history.committed[seq]? = some entry → world.writer = .idle → ∀ call,
    (world.calls call).phase = .idle ∨ (∃ result, (world.calls call).phase = .returned result) →
    let drain := service.next world (.start call true)
    (∀ path : Nat → FlushWorld service.stacking, path 0 = drain →
      ∃ index, ¬CallStep service call (path index) (path (index + 1))) ∧
    ∀ later, Relation.ReflTransGen (CallStep service call) drain later →
      (∀ after, ¬CallStep service call later after) →
      later.history.Settled service.stacking seq accepted

variable {prepared : Option (PreparedWalSlot ρ)}

theorem settled_of_drained {world : FlushWorld service.stacking} (sound : world.Sound)
    (drained : world.Drained)
    (committed : world.history.committed[seq]? = some entry) :
    world.history.Settled service.stacking seq entry := by
  apply sound.settled_of_passed committed
  cases lookup : world.rows[seq]? with
  | none => exact Or.inr (Or.inr rfl)
  | some row => exact Or.inl (drained seq row lookup)

theorem startCall_history (world : FlushWorld service.stacking) (call : Nat)
    (drains : Bool) : (service.startCall world call drains).history = world.history := by
  unfold startCall
  split <;> rfl

theorem durable_of_decodes {accepted : WalEntry}
    (decoded : codec.decodeWalValue service.walFormat value = .ok (prepared, accepted)) :
    Durable service codec seq value accepted := by
  constructor
  · exact ⟨prepared, accepted, decoded, FlushSettings.nativeWork_covers mem_cons_self⟩
  · intro slot entry again image events world committed passed
    obtain ⟨-, rfl⟩ := Prod.mk.inj (Except.ok.inj (decoded.symm.trans again))
    exact (run_sound image.world_sound events).settled_of_passed committed passed
  · intro total slot entry again image events world committed atRest call free drain
    obtain ⟨-, rfl⟩ := Prod.mk.inj (Except.ok.inj (decoded.symm.trans again))
    have sound : world.Sound := run_sound image.world_sound events
    have draining : Draining drain call := draining_of_start sound atRest free
    refine ⟨fun path start => draining.terminates total start, fun later reached stuck => ?_⟩
    have preserved : ∀ state after : FlushWorld service.stacking,
        state.Sound ∧ state.history.committed[seq]? = some accepted →
        CallStep service call state after →
        after.Sound ∧ after.history.committed[seq]? = some accepted := by
      rintro state after ⟨holds, stored⟩ ⟨answer, -, rfl⟩
      refine ⟨next_sound holds _, ?_⟩
      change (service.advance state call answer).history.committed[seq]? = some accepted
      rw [(advance_frame ..).2.2.2.1, stored]
    have started : drain.history.committed[seq]? = some accepted := by
      change (service.startCall world call true).history.committed[seq]? = some accepted
      rw [startCall_history, committed]
    obtain ⟨laterSound, stored⟩ :=
      reachable_invariant preserved ⟨draining.sound, started⟩ reached
    exact settled_of_drained laterSound (draining.finished total reached stuck).2 stored

/-- Entries without points flush to nothing. -/
theorem not_durable_of_points_eq_nil {accepted : WalEntry}
    (decoded : codec.decodeWalValue service.walFormat value = .ok (prepared, entry))
    (empty : entry.points = []) (nonempty : accepted.points ≠ []) :
    ¬Durable service codec seq value accepted := by
  intro durable
  obtain ⟨slot, other, again, covered⟩ := durable.decodes
  obtain ⟨-, rfl⟩ := Prod.mk.inj (Except.ok.inj (decoded.symm.trans again))
  obtain ⟨point, member⟩ := exists_mem_of_ne_nil _ nonempty
  obtain ⟨write, inside, -⟩ := covered point member
  have nothing : (service.settings.nativeWork seq [(seq, entry)] : List (SinkWrite ρ)) = [] := by
    simp [FlushSettings.nativeWork, FlushSettings.entryRows, empty, KeyedBatches.collect]
  rw [nothing] at inside
  cases inside

end FlushService

section Samples

def sampleColumnarAppend : ColumnarWalAppend where
  db := "db"
  rp := "autogen"
  wire := ⟨"cpu", ∅, "load", [0], some [1]⟩
  precision := none
  originNodeId := 0
  maxPointsPerRequest := 0

/-- What the columnar path stores as the entry of the write. -/
def pointlessEntry : WalEntry := ⟨"db", "autogen", [], 0⟩

def sampleColumnarPoint : Point :=
  ⟨"cpu", ∅, (∅ : Std.ExtTreeMap String FieldValue).insert "load" (.float 0), 1⟩

def columnarSink : PointsSink plainStacking where
  buildPreparedWalSlot _ _ _ _ := .error "prepared WAL build not supported"
  buildPreparedWalSlotFromColumnar db rp origin wire precision clock :=
    (wire.columnarBatchToPoints precision clock).map fun points =>
      ⟨db, rp, origin, points.map fun point =>
        ⟨point.measurement, "cpu", "cpu_series", ⟨.uint64, [⟨point, some 0⟩]⟩, 1,
          point.timestamp, point.timestamp, none⟩⟩
  build_prepares built := by cases built
  buildFromColumnar_prepares := by
    intro db rp origin wire precision clock slot built
    obtain ⟨points, expanded, ⟨⟩⟩ := exists_of_bind_eq_ok built
    refine ⟨points, expanded, rfl, rfl, ?_, fun point member => ?_⟩
    · intro prepared inside
      obtain ⟨point, -, rfl⟩ := mem_map.mp inside
      exact ⟨rfl, rfl⟩
    · exact ⟨_, mem_map_of_mem member, rfl, _, mem_singleton.mpr rfl, rfl⟩

/-- The slot that is built for the write, under sequence 1. -/
def sampleColumnarSlot : PreparedWalSlot Point :=
  ⟨"db", "autogen", 0, [⟨"cpu", "cpu", "cpu_series",
    ⟨.uint64, [⟨sampleColumnarPoint, some 1⟩]⟩, 1, 1, 1, none⟩]⟩

/-- A codec of two entries and one batch, which refuses all others. -/
def sampleCodec : WalCodec Point where
  serialize entry :=
    if entry = pointlessEntry then .ok [0]
    else if entry = sampleWalEntry 1 then .ok [1] else .error "unknown entry"
  deserialize bytes :=
    if bytes = [0] then .ok pointlessEntry
    else if bytes = [1] then .ok (sampleWalEntry 1) else .error "unknown entry"
  encodeRecordBatch batch :=
    if batch = ⟨.uint64, [⟨sampleColumnarPoint, some 1⟩]⟩ then .ok [0]
    else .error "unknown batch"
  decodeRecordBatch bytes :=
    if bytes = [0] then .ok ⟨.uint64, [⟨sampleColumnarPoint, some 1⟩]⟩
    else .error "unknown batch"
  deserialize_serialize := by
    intro entry bytes made
    split at made
    next same =>
      cases made
      simp [same]
    next =>
      split at made
      next same =>
        cases made
        simp [same]
      next => cases made
  serialize_ne_nil := by
    intro entry made
    split at made
    next => cases made
    next => split at made <;> cases made
  decode_encode := by
    intro batch bytes made
    split at made
    next same =>
      cases made
      simp [same]
    next => cases made
  encode_ne_nil := by
    intro batch made
    split at made <;> cases made
  numRows_le := by
    intro batch bytes made _
    split at made
    next same =>
      cases made
      rw [same]
      exact Nat.le_refl 1
    next => cases made

def emptyWalStore : WalStore Point := ⟨0, ∅, [], ∅⟩

def samplePointsWrite : ClientWrite :=
  .points "db" "autogen" (sampleWalEntry 1).points 0 0

variable (format : WalFormat)

/-- The sample node with the given format of values. -/
def formatService : FlushService Point :=
  { sampleFlushService with walFormat := format }

/-- The slot holds everything the entry without points holds. -/
theorem sampleColumnarSlot_prepares :
    PreparedFor plainStacking sampleColumnarSlot pointlessEntry := by
  refine ⟨rfl, rfl, fun prepared member => ?_, by simp [pointlessEntry]⟩
  obtain rfl := mem_singleton.mp member
  exact ⟨rfl, rfl⟩

def sampleColumnarAnswer : Except String Nat × WalStore Point :=
  (ClientWrite.columnar sampleColumnarAppend).append ((formatService format).wal sampleCodec)
    (some columnarSink) none (.batched [] []) (.ok ()) emptyWalStore

/-- The log after the write is stored and the process is gone: one entry, no slots. -/
def crashedImage : WalImage plainStacking where
  seq := 1
  rows := (∅ : Rows Nat (WalRow Point)).insert 1
    ⟨pointlessEntry, storedSlot format (some sampleColumnarSlot),
      ((sampleColumnarAnswer format).2.values[(1 : Nat)]?.getD []).length⟩
  cache := ∅
  truncatedThrough := 1
  positive := by simp
  within := by
    intro stored row lookup
    simp only [Std.ExtTreeMap.getElem?_insert] at lookup
    grind
  truncatedLe := Nat.zero_lt_two
  prepared := by
    intro stored row lookup slot inRow
    simp only [Std.ExtTreeMap.getElem?_insert] at lookup
    split at lookup
    · cases lookup
      cases format with
      | bincode => cases inRow
      | arrowIpc =>
        obtain rfl := Option.mem_some.mp inRow
        exact sampleColumnarSlot_prepares
    · simp at lookup
  cached := by
    intro stored slot lookup
    simp at lookup

def crashedDrain (stacking : BatchStacking ρ) : List (FlushEvent stacking) :=
  .start 0 true :: replicate 7 (.advance 0 .proceed) ++
    .advance 0 (.peers noPeers) :: replicate 5 (.advance 0 .proceed)

theorem not_settled_of_settled_eq_nil {stacking : BatchStacking ρ}
    {history : FlushHistory ρ}
    (unpurged : history.purged.isEmpty = true) (nothing : history.settled.isEmpty = true)
    (nonempty : entry.points ≠ []) : ¬history.Settled stacking seq entry := by
  rw [List.isEmpty_iff] at unpurged nothing
  rintro (purged | covered)
  · rw [unpurged] at purged
    cases purged
  · obtain ⟨point, member⟩ := List.exists_mem_of_ne_nil _ nonempty
    obtain ⟨write, inside, -⟩ := covered point member
    rw [nothing] at inside
    cases inside

/-- The columnar write of one value is answered with sequence 1, and the stored value
decodes to an entry without points.  After a crash, a drain returns with that sequence
flushed, and the point has not reached the sink. -/
def LostAfterCrash : Prop :=
  let answer := sampleColumnarAnswer format
  let world := run (formatService format).next (crashedImage format).world
    (crashedDrain plainStacking)
  answer.1 = .ok 1 ∧
    answer.2.values[(1 : Nat)]?.map (sampleCodec.decodeWalValue format) =
      some (.ok (storedSlot format (some sampleColumnarSlot), pointlessEntry)) ∧
    (ClientWrite.columnar sampleColumnarAppend).whole none =
      .ok ⟨"db", "autogen", [sampleColumnarPoint], 0⟩ ∧
    (world.calls 0).phase = .returned (.ok ()) ∧ world.lastFlushed = 1 ∧
    ¬world.history.Settled plainStacking 1 ⟨"db", "autogen", [sampleColumnarPoint], 0⟩

end Samples

/-- The rows that the flush was proved against are the decoded values: where the byte-level
writer stores a batch, the row-level one stores what the values decode to. -/
theorem encodeRequests_refines {requests : List (BatchRequest ρ)}
    (faithful : ∀ request ∈ requests, (service.wal codec).Faithful request)
    {stored : List (Nat × List UInt8 × Option (PreparedWalSlot ρ))}
    (made : (service.wal codec).encodeRequests seq requests = .ok stored)
    (fits : ∀ item ∈ stored, item.2.1.length < 2 ^ 32)
    (prepares : ∀ request ∈ requests, ∀ slot ∈ request.bundle.prepared,
      PreparedFor service.stacking slot request.bundle.entry) :
    ∃ (bundles : List (WalAppendBundle service.stacking)) (rows : _),
      bundles.map (·.entry) = requests.map (·.bundle.entry) ∧
      service.encodeBundles seq bundles = .ok rows ∧
      List.Forall₂ (RowOf service codec) stored rows := by
  induction requests generalizing seq stored with
  | nil =>
    cases made
    exact ⟨[], [], rfl, rfl, .nil⟩
  | cons request requests ih =>
    obtain ⟨encoded, encodedOk, made⟩ := exists_of_bind_eq_ok made
    obtain ⟨later, laterOk, made⟩ := exists_of_bind_eq_ok made
    cases made
    obtain ⟨bundles, rows, sameEntries, rowsOk, related⟩ :=
      ih (fun other member => faithful other (by simp [member])) laterOk
        (fun item member => fits item (by simp [member]))
        (fun other member => prepares other (by simp [member]))
    obtain ⟨row, rowOk, rowOf⟩ := encodeRequest_refines (faithful request (by simp))
      (prepares request (by simp)) encodedOk (fits (seq, encoded) (by simp))
    refine ⟨request.toBundle (prepares request (by simp)) encoded.1.length :: bundles,
      (seq, row) :: rows, ?_, ?_, .cons rowOf related⟩
    · rw [map_cons, sameEntries]
      rfl
    · simp only [encodeBundles, rowOk, rowsOk]
      rfl

/-- A columnar write, and a write of points whose value was serialized beforehand. -/
theorem sampleRequests_refined :
    let requests : List (BatchRequest Point) :=
      [⟨⟨pointlessEntry, some sampleColumnarSlot⟩, none⟩, ⟨⟨sampleWalEntry 1, none⟩, some [1]⟩]
    ∃ stored, (sampleFlushService.wal sampleCodec).encodeRequests 1 requests = .ok stored ∧
      ∃ bundles rows, bundles.map (·.entry) = requests.map (·.bundle.entry) ∧
        sampleFlushService.encodeBundles 1 bundles = .ok rows ∧
        Forall₂ (RowOf sampleFlushService sampleCodec) stored rows := by
  intro requests
  refine ⟨[(1, [0], some sampleColumnarSlot), (2, [1], none)], rfl,
    encodeRequests_refines ?_ rfl ?_ ?_⟩
  · refine forall_mem_cons.mpr ⟨nofun, forall_mem_singleton.mpr ?_⟩
    rintro _ ⟨⟩ prepared
    rfl
  · decide
  · refine forall_mem_cons.mpr ⟨?_, forall_mem_singleton.mpr nofun⟩
    rintro _ ⟨⟩
    exact sampleColumnarSlot_prepares

end HyperbyteDb
