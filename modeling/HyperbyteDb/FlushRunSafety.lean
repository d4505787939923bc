import HyperbyteDb.FlushStepSafety

/-!
# Flush never loses data

The writer and purges keep the invariant of the flush as well, so it holds after every
run.
-/

namespace HyperbyteDb

open FlushWorld List Option OrderedRows

variable {ρ : Type}

namespace FlushService

variable {service : FlushService ρ} {world : FlushWorld service.stacking}

/-! ## The writer -/

variable {firstSeq : Nat} {bundles : List (WalAppendBundle service.stacking)}
  {stored : List (Nat × WalRow ρ × Option (PreparedWalSlot ρ))}

variable {slots : List (Nat × PreparedWalSlot ρ)}

theorem encodeBundle_spec {seq : Nat} {bundle : WalAppendBundle service.stacking}
    {encoded : WalRow ρ × Option (PreparedWalSlot ρ)}
    (made : service.encodeBundle seq bundle = .ok encoded) :
    (∀ slot ∈ encoded.1.prepared, PreparedFor service.stacking slot encoded.1.entry) ∧
      ∀ slot ∈ encoded.2, PreparedFor service.stacking slot encoded.1.entry := by
  unfold encodeBundle at made
  split at made
  next =>
    cases made
    exact ⟨by simp, bundle.prepares⟩
  next => simp at made
  next slot _ prepared =>
    obtain ⟨patched, patchedOk, patchedFor⟩ :=
      (bundle.prepares slot prepared).patchAllIngestSeqs (.ofNat seq)
    rw [patchedOk] at made
    cases made
    constructor
    · intro other same
      exact mem_some.mp same ▸ patchedFor
    · intro other same
      exact mem_some.mp same ▸ patchedFor

theorem encodeBundles_spec (made : service.encodeBundles firstSeq bundles = .ok stored) :
    stored.length = bundles.length ∧
      stored.map Prod.fst = List.range' firstSeq stored.length ∧
      ∀ item ∈ stored,
        (∀ slot ∈ item.2.1.prepared, PreparedFor service.stacking slot item.2.1.entry) ∧
        ∀ slot ∈ item.2.2, PreparedFor service.stacking slot item.2.1.entry := by
  induction bundles generalizing firstSeq stored with
  | nil =>
    cases made
    simp
  | cons bundle bundles ih =>
    obtain ⟨encoded, encodedOk, made⟩ := ByteReaders.exists_of_bind_eq_ok made
    obtain ⟨later, laterOk, ⟨⟩⟩ := ByteReaders.exists_of_bind_eq_ok made
    obtain ⟨lengths, seqs, prepares⟩ := ih laterOk
    refine ⟨by simp [lengths], by simp [seqs, List.range'_succ], ?_⟩
    rintro item (_ | ⟨_, member⟩)
    · exact encodeBundle_spec encodedOk
    · exact prepares item member

section Seqs

variable (seqs : stored.map Prod.fst = List.range' firstSeq stored.length)
include seqs

/-- The sequences of a stored batch tell its rows apart. -/
theorem rowsOf_functional {first second : Nat × WalRow ρ} (firstMember : first ∈ rowsOf stored)
    (secondMember : second ∈ rowsOf stored) (sameSeq : first.1 = second.1) :
    first.2 = second.2 := by
  have distinct : (stored.map Prod.fst).Nodup := by
    rw [seqs]
    exact nodup_range'
  obtain ⟨firstItem, firstInside, rfl⟩ := mem_map.mp firstMember
  obtain ⟨secondItem, secondInside, rfl⟩ := mem_map.mp secondMember
  rw [inj_on_of_nodup_map distinct firstInside secondInside sameSeq]

theorem lookup_commitRows_of_mem (world : FlushWorld service.stacking)
    {item : Nat × WalRow ρ × Option (PreparedWalSlot ρ)} (member : item ∈ stored) :
    (world.commitRows stored).rows[item.1]? = some item.2.1 ∧
      (world.commitRows stored).history.committed[item.1]? = some item.2.1.entry := by
  have rowMember : (item.1, item.2.1) ∈ rowsOf stored :=
    mem_map_of_mem member
  constructor
  · exact lookup_write_puts_of_mem world.rows (fun first firstMember second secondMember =>
      rowsOf_functional seqs firstMember secondMember) rowMember
  · refine lookup_write_puts_of_mem world.history.committed
      (fun first firstMember second secondMember sameSeq => ?_)
      (mem_map_of_mem rowMember)
    obtain ⟨firstRow, firstInside, rfl⟩ := mem_map.mp firstMember
    obtain ⟨secondRow, secondInside, rfl⟩ := mem_map.mp secondMember
    exact congrArg WalRow.entry (rowsOf_functional seqs firstInside secondInside sameSeq)

theorem lookup_commitRows (world : FlushWorld service.stacking) (seq : Nat) :
    ((firstSeq ≤ seq ∧ seq < firstSeq + stored.length) ∧ ∃ encoded, (seq, encoded) ∈ stored) ∨
    ((world.commitRows stored).rows[seq]? = world.rows[seq]? ∧
      (world.commitRows stored).history.committed[seq]? = world.history.committed[seq]?) := by
  by_cases inside : seq ∈ stored.map Prod.fst
  · left
    constructor
    · rw [← mem_range'_1, ← seqs]
      exact inside
    · obtain ⟨⟨_, encoded⟩, member, rfl⟩ := mem_map.mp inside
      exact ⟨encoded, member⟩
  · right
    have absent : ∀ row ∈ rowsOf stored, row.1 ≠ seq := by
      rintro row member rfl
      obtain ⟨item, itemMember, rfl⟩ := mem_map.mp member
      exact inside (mem_map_of_mem itemMember)
    constructor
    · exact lookup_write_puts_of_not_mem _ absent
    · apply lookup_write_puts_of_not_mem
      intro entry member
      obtain ⟨row, rowMember, rfl⟩ := mem_map.mp member
      exact absent row rowMember

end Seqs

variable (sound : world.Sound)
include sound

/-- A batch stored under the sequences reserved for it. -/
theorem commitRows_sound (reserved : world.writer = .reserved firstSeq bundles)
    (made : service.encodeBundles firstSeq bundles = .ok stored) :
    (world.commitRows stored).Sound := by
  obtain ⟨lengths, seqs, prepares⟩ := encodeBundles_spec made
  have writerSound := sound.writer
  simp only [FlushWorld.WriterSound, reserved] at writerSound
  obtain ⟨⟨positive, counted⟩, sizesBelow⟩ := writerSound
  have topEq : world.top = firstSeq - 1 := by simp [top, reserved]
  have lookups := lookup_commitRows seqs world
  have grows : world.history.Grows (world.commitRows stored).history world.top world.seq := by
    refine ⟨by omega, ?_, ?_, fun _ member => member, fun _ member => member⟩
    · intro seq entry committed
      have below := sound.within seq entry committed
      rcases lookups seq with ⟨inside, -⟩ | ⟨-, same⟩
      · omega
      · rw [same, committed]
    · intro seq entry committed below
      rcases lookups seq with ⟨inside, -⟩ | ⟨-, same⟩
      · omega
      · rw [← same, committed]
  refine
    { stored := ?_, missing := ?_, within := ?_, sizes := sound.sizes, writer := ?_
      cached := fun seq slot lookup => (sound.cached seq slot lookup).mono grows
      flushed := sound.flushed.mono grows
      truncated := sound.truncated.mono grows
      calls := fun call => (sound.calls call).mono grows }
  · intro seq row lookup
    rcases lookups seq with ⟨-, encoded, member⟩ | ⟨sameRow, sameEntry⟩
    · obtain ⟨newRow, newEntry⟩ := lookup_commitRows_of_mem seqs world member
      obtain rfl := some.inj (newRow.symm.trans lookup)
      exact ⟨newEntry, (prepares _ member).1⟩
    · rw [sameEntry]
      exact sound.stored seq row (sameRow ▸ lookup)
  · intro seq entry committed lookup
    rcases lookups seq with ⟨-, encoded, member⟩ | ⟨sameRow, sameEntry⟩
    · rw [(lookup_commitRows_of_mem seqs world member).1] at lookup
      cases lookup
    · exact (sound.missing seq entry (sameEntry ▸ committed) (sameRow ▸ lookup)).mono grows
  · intro seq entry committed
    change seq ≤ world.seq
    rcases lookups seq with ⟨inside, -⟩ | ⟨-, same⟩
    · omega
    · have below := sound.within seq entry (same ▸ committed)
      omega
  · refine ⟨fun item member => ?_, firstSeq, ?_, seqs, sizesBelow⟩
    · obtain ⟨⟨seq, encoded⟩, inside, slotEq⟩ := mem_filterMap.mp member
      obtain ⟨slot, slotMember, rfl⟩ := map_eq_some_iff.mp slotEq
      exact ⟨encoded.1.entry, (lookup_commitRows_of_mem seqs world inside).2,
        (prepares _ inside).2 slot slotMember⟩
    · change firstSeq + stored.length = world.seq + 1
      omega

theorem reserveStep_sound (bundles : List (WalAppendBundle service.stacking)) :
    (service.reserveStep world bundles).Sound := by
  unfold reserveStep
  split
  next idle =>
    have writerSound := sound.writer
    simp only [FlushWorld.WriterSound, idle] at writerSound
    apply sound.withWriter
    · simp [top, idle]
    · refine ⟨⟨Nat.succ_pos _, ?_⟩, fun entry member => ?_⟩
      · change world.seq + 1 + bundles.length = world.seq + bundles.length + 1
        omega
      · exact Nat.lt_succ_of_le (writerSound entry member)
  next => exact sound

/-- A batch that could not be stored leaves a gap in the sequences. -/
theorem abandon_sound (reserved : world.writer = .reserved firstSeq bundles) :
    ({ world with writer := .idle } : FlushWorld service.stacking).Sound := by
  have writerSound := sound.writer
  simp only [FlushWorld.WriterSound, reserved] at writerSound
  obtain ⟨⟨positive, counted⟩, sizesBelow⟩ := writerSound
  refine sound.withWriter ?_ fun entry member => ?_
  · simp only [top, reserved]
    omega
  · have below := sizesBelow entry member
    change entry.1 ≤ world.seq
    omega

theorem noteSizes_sound (sizing : world.writer = .sizing stored)
    (fewer : ∀ item ∈ slots, item ∈ slotsOf stored) : ({ world with
      sizes := world.sizes ++ stored.map fun item => (item.1, item.2.1.bytes)
      writer := .caching slots } : FlushWorld service.stacking).Sound := by
  have writerSound := sound.writer
  simp only [FlushWorld.WriterSound, sizing] at writerSound
  obtain ⟨slotsSound, firstSeq, counted, seqs, sizesBelow⟩ := writerSound
  have noted : ∀ entry ∈ stored.map fun item => (item.1, item.2.1.bytes),
      firstSeq ≤ entry.1 ∧ entry.1 < firstSeq + stored.length := by
    intro entry member
    obtain ⟨item, itemMember, rfl⟩ := mem_map.mp member
    rw [← mem_range'_1, ← seqs]
    exact mem_map_of_mem itemMember
  have ascending : (stored.map fun item => (item.1, item.2.1.bytes)).Pairwise
      fun first second => first.1 < second.1 := by
    rw [pairwise_map, ← pairwise_map (f := Prod.fst), seqs]
    exact pairwise_lt_range'
  have moved : ({ world with writer := .caching slots } :
      FlushWorld service.stacking).Sound := by
    refine sound.withWriter ?_ ⟨fun item member => slotsSound item (fewer item member), ?_⟩
    · simp only [top, sizing]
      exact Nat.le_refl _
    · intro entry member
      have below := sizesBelow entry member
      change entry.1 ≤ world.seq
      omega
  refine { moved with
    sizes := pairwise_append.mpr ⟨sound.sizes, ascending, ?_⟩
    writer := ⟨moved.writer.1, ?_⟩ }
  · intro older olderMember newer newerMember
    have below := sizesBelow older olderMember
    have above := (noted newer newerMember).1
    omega
  · intro entry member
    change entry.1 ≤ world.seq
    rcases mem_append.mp member with older | newer
    · exact moved.writer.2 entry older
    · have inside := (noted entry newer).2
      omega

theorem cacheSlot_sound {item : Nat × PreparedWalSlot ρ}
    (caching : world.writer = .caching (item :: slots)) :
    ({ world with cache := world.cache.insert item.1 item.2, writer := .caching slots } :
      FlushWorld service.stacking).Sound := by
  have writerSound := sound.writer
  simp only [FlushWorld.WriterSound, caching] at writerSound
  have moved : ({ world with writer := .caching slots } :
      FlushWorld service.stacking).Sound := by
    refine sound.withWriter ?_ ⟨fun other member => writerSound.1 other (by simp [member]),
      writerSound.2⟩
    simp only [top, caching]
    exact Nat.le_refl _
  exact moved.insertSlot (writerSound.1 item (by simp))

theorem writeStep_sound (succeeds : Bool) : (service.writeStep world succeeds).Sound := by
  unfold writeStep
  split
  next => exact sound
  next reserved =>
    split
    next => exact abandon_sound sound reserved
    next made =>
      split
      · exact commitRows_sound sound reserved made
      · exact abandon_sound sound reserved
  next sizing =>
    apply noteSizes_sound sound sizing
    intro item member
    split at member
    · exact member
    · simp at member
  next caching =>
    have writerSound := sound.writer
    simp only [FlushWorld.WriterSound, caching] at writerSound
    refine sound.withWriter ?_ writerSound.2
    simp only [top, caching]
    exact Nat.le_refl _
  next caching => exact cacheSlot_sound sound caching

/-! ## Runs -/

theorem purgeRows_sound (database : String) (scanned : List Nat) :
    (service.next world (.purgeRows database scanned)).Sound := by
  let removed := scanned.filter fun seq =>
    world.rows[seq]?.any (·.entry.database = database)
  have noted : ({ world with
      history := { world.history with purged := removed ++ world.history.purged } } :
      FlushWorld service.stacking).Sound := by
    refine sound.withHistory ?_ rfl
    exact { FlushHistory.Grows.of_le world.history (Nat.le_refl world.top) with
      purged := fun _ member => mem_append_right _ member }
  refine { noted with stored := ?_, missing := ?_ }
  · intro seq row lookup
    exact noted.stored seq row (getElem?_purgeRows_eq_some.mp lookup).1
  · intro seq entry committed lookup
    cases before : world.rows[seq]? with
    | none => exact noted.missing seq entry committed before
    | some row =>
      have deleted : seq ∈ scanned ∧ row.entry.database = database := by
        by_contra kept
        have still := getElem?_purgeRows_eq_some.mpr ⟨before, kept⟩
        rw [show (purgeRows world.rows database scanned)[seq]? = none from lookup] at still
        cases still
      apply Or.inl
      apply mem_append_left
      simpa [before] using deleted

theorem startCall_sound (call : Nat) (drains : Bool) :
    (service.startCall world call drains).Sound := by
  have started : ({ world with
      calls := Function.update world.calls call ⟨drains, .started world.lastFlushed⟩ } :
      FlushWorld service.stacking).Sound := by
    refine { sound with calls := fun other => ?_ }
    change world.history.PhaseSound service.stacking world.top
      (Function.update world.calls call ⟨drains, .started world.lastFlushed⟩ other).phase
    by_cases same : other = call
    · subst same
      rw [Function.update_self]
      exact sound.flushed
    · rw [Function.update_of_ne same]
      exact sound.calls other
  unfold startCall
  split
  · exact started
  · exact started
  · exact sound

theorem next_sound (event : FlushEvent service.stacking) : (service.next world event).Sound := by
  cases event with
  | reserve bundles => exact reserveStep_sound sound bundles
  | write succeeds => exact writeStep_sound sound succeeds
  | purgeCache database =>
    apply sound.withCache
    intro seq slot lookup
    rw [purgeCache, Std.ExtTreeMap.getElem?_filter', filter_eq_some_iff] at lookup
    exact sound.cached seq slot lookup.1
  | purgeRows database scanned => exact purgeRows_sound sound database scanned
  | start call drains => exact startCall_sound sound call drains
  | advance call answer => exact advance_sound sound call answer

theorem run_sound (events : List (FlushEvent service.stacking)) :
    (GuardedRuns.run service.next world events).Sound :=
  GuardedRuns.run_preserves (fun (world : FlushWorld service.stacking) event
    (holds : world.Sound) => next_sound holds event) sound events

end FlushService

/-- The log as the service finds it: any entries at any sequences, and prepared slots for
any of them. -/
structure WalImage (stacking : BatchStacking ρ) where
  seq : Nat
  rows : Rows Nat (WalRow ρ)
  cache : Rows Nat (PreparedWalSlot ρ)
  truncatedThrough : Nat
  positive : rows[0]? = none
  within : ∀ (stored : Nat) (row : WalRow ρ), rows[stored]? = some row →
    truncatedThrough ≤ stored ∧ stored ≤ seq
  truncatedLe : truncatedThrough ≤ seq + 1
  prepared : ∀ (stored : Nat) (row : WalRow ρ), rows[stored]? = some row →
    ∀ slot ∈ row.prepared, PreparedFor stacking slot row.entry
  cached : ∀ (stored : Nat) (slot : PreparedWalSlot ρ), cache[stored]? = some slot →
    ∃ row, rows[stored]? = some row ∧ PreparedFor stacking slot row.entry

namespace WalImage

variable {stacking : BatchStacking ρ} (image : WalImage stacking)

/-- The service starts with nothing flushed. -/
def world : FlushWorld stacking where
  seq := image.seq
  rows := image.rows
  cache := image.cache
  sizes := []
  truncatedThrough := image.truncatedThrough
  writer := .idle
  lastFlushed := 0
  flushedThrough := 0
  lastLocalWalSeq := 0
  calls := fun _ => {}
  history := { committed := image.rows.map fun _ row => row.entry }

theorem committed_eq_some_iff {seq : Nat} {entry : WalEntry} :
    image.world.history.committed[seq]? = some entry ↔
      ∃ row, image.rows[seq]? = some row ∧ row.entry = entry := by
  simp [world]

theorem world_sound : image.world.Sound := by
  have nothingBelow : ∀ through, through ≤ image.seq →
      (∀ (seq : Nat) (row : WalRow ρ), image.rows[seq]? = some row → through < seq) →
      image.world.history.SafeThrough stacking image.world.top through := by
    intro through within above
    refine ⟨within, fun seq entry below committed => ?_⟩
    obtain ⟨row, lookup, -⟩ := image.committed_eq_some_iff.mp committed
    have := above seq row lookup
    omega
  refine
    { stored := ?_, missing := ?_, within := ?_, cached := ?_
      sizes := List.Pairwise.nil
      writer := fun entry member => by simp [world] at member
      flushed := nothingBelow 0 (Nat.zero_le _) ?_
      truncated := nothingBelow _ ?_ ?_
      calls := fun _ => trivial }
  · intro seq row lookup
    exact ⟨image.committed_eq_some_iff.mpr ⟨row, lookup, rfl⟩, image.prepared seq row lookup⟩
  · intro seq entry committed lookup
    obtain ⟨row, found, -⟩ := image.committed_eq_some_iff.mp committed
    rw [show image.rows[seq]? = none from lookup] at found
    cases found
  · intro seq entry committed
    obtain ⟨row, lookup, -⟩ := image.committed_eq_some_iff.mp committed
    exact (image.within seq row lookup).2
  · intro seq slot lookup
    obtain ⟨row, found, prepares⟩ := image.cached seq slot lookup
    exact ⟨row.entry, image.committed_eq_some_iff.mpr ⟨row, found, rfl⟩, prepares⟩
  · intro seq row lookup
    by_contra notAbove
    obtain rfl : seq = 0 := by omega
    rw [image.positive] at lookup
    cases lookup
  · have := image.truncatedLe
    change image.truncatedThrough - 1 ≤ image.seq
    omega
  · intro seq row lookup
    have bounds := image.within seq row lookup
    have : seq ≠ 0 := by
      rintro rfl
      rw [image.positive] at lookup
      cases lookup
    change image.truncatedThrough - 1 < seq
    omega

end WalImage

end HyperbyteDb
