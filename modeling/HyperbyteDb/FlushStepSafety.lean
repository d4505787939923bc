import HyperbyteDb.FlushProcesses
import HyperbyteDb.GuardedRuns

/-!
# Every step keeps a flush safe

The invariant of `FlushInvariant` is preserved by each step of a call, of the writer
and of a purge, and so by every interleaving of them.
-/

namespace HyperbyteDb

open List OrderedRows

section

variable {ρ : Type} {stacking : BatchStacking ρ}

variable {seq : Nat} {entry : WalEntry} {phase : CallPhase ρ}

namespace FlushHistory

section Safety

variable (stacking : BatchStacking ρ) (history : FlushHistory ρ)

/-- The entry has reached the sink, unless its database was purged. -/
def Settled (seq : Nat) (entry : WalEntry) : Prop :=
  seq ∈ history.purged ∨ Covered stacking history.settled entry

/-- Every entry that is ever stored up to `through` is settled already, where entries
stored from now on lie above `top`. -/
structure SafeThrough (top through : Nat) : Prop where
  within : through ≤ top
  settled : ∀ (seq : Nat) (entry : WalEntry), seq ≤ through →
    history.committed[seq]? = some entry → history.Settled stacking seq entry

def SlotSound (seq : Nat) (slot : PreparedWalSlot ρ) : Prop :=
  ∃ entry : WalEntry, history.committed[seq]? = some entry ∧ PreparedFor stacking slot entry

structure FoundSound (top cursor : Nat) (found : List (Nat × WalRow ρ)) : Prop where
  ascending : found.Pairwise fun first second => first.1 < second.1
  above : ∀ item ∈ found, cursor < item.1
  within : ∀ item ∈ found, item.1 ≤ top
  complete : ∀ item ∈ found, ∀ (seq : Nat) (entry : WalEntry), cursor < seq →
    seq ≤ item.1 → history.committed[seq]? = some entry →
    history.Settled stacking seq entry ∨ (seq, entry) ∈ entriesOf found

structure WritesSound (top cursor chunkMaxSeq : Nat) (pending : List (SinkWrite ρ)) : Prop where
  within : chunkMaxSeq ≤ top
  covered : ∀ (seq : Nat) (entry : WalEntry), cursor < seq → seq ≤ chunkMaxSeq →
    history.committed[seq]? = some entry →
    seq ∈ history.purged ∨ Covered stacking (history.settled ++ pending) entry

def PhaseSound (top : Nat) : CallPhase ρ → Prop
  | .idle | .flushed | .returned _ => True
  | .started cursor | .looping cursor _ | .missed cursor _ | .reading cursor _ _
  | .checking cursor => history.SafeThrough stacking top cursor
  | .recaching cursor _ found pending =>
    history.SafeThrough stacking top cursor ∧ history.FoundSound stacking top cursor found ∧
      ∀ item ∈ pending, history.SlotSound stacking item.1 item.2
  | .writing cursor _ chunkMaxSeq _ pending anyFailed =>
    history.SafeThrough stacking top cursor ∧
      (anyFailed = false → history.WritesSound stacking top cursor chunkMaxSeq pending)
  | .truncating _ flushedThrough _ | .recording _ flushedThrough _ =>
    history.SafeThrough stacking top flushedThrough
  | .deleting _ flushedThrough sequence _ =>
    history.SafeThrough stacking top flushedThrough ∧ sequence ≤ flushedThrough + 1

end Safety

/-! ## Histories only grow -/

/-- `later` stores nothing up to `top` that `history` does not, and forgets nothing. -/
structure Grows (history later : FlushHistory ρ) (top laterTop : Nat) : Prop where
  topLe : top ≤ laterTop
  kept : ∀ (seq : Nat) (entry : WalEntry), history.committed[seq]? = some entry →
    later.committed[seq]? = some entry
  fresh : ∀ (seq : Nat) (entry : WalEntry), later.committed[seq]? = some entry →
    seq ≤ top → history.committed[seq]? = some entry
  purged : ∀ seq ∈ history.purged, seq ∈ later.purged
  settled : ∀ sinkWrite ∈ history.settled, sinkWrite ∈ later.settled

variable {history later : FlushHistory ρ} {top laterTop : Nat}

theorem Grows.of_le (history : FlushHistory ρ) (topLe : top ≤ laterTop) :
    history.Grows history top laterTop :=
  ⟨topLe, fun _ _ committed => committed, fun _ _ committed _ => committed,
    fun _ member => member, fun _ member => member⟩

variable (grows : history.Grows later top laterTop)
include grows

theorem Settled.mono (settled : history.Settled stacking seq entry) :
    later.Settled stacking seq entry := by
  rcases settled with purged | covered
  · exact Or.inl (grows.purged seq purged)
  · exact Or.inr (covered.mono grows.settled)

theorem SafeThrough.mono {through : Nat} (safe : history.SafeThrough stacking top through) :
    later.SafeThrough stacking laterTop through := by
  constructor
  · exact safe.within.trans grows.topLe
  · intro seq entry below committed
    have older := grows.fresh seq entry committed (below.trans safe.within)
    exact (safe.settled seq entry below older).mono grows

theorem SlotSound.mono {slot : PreparedWalSlot ρ}
    (sound : history.SlotSound stacking seq slot) : later.SlotSound stacking seq slot := by
  obtain ⟨entry, committed, prepares⟩ := sound
  exact ⟨entry, grows.kept _ _ committed, prepares⟩

theorem FoundSound.mono {cursor : Nat} {found : List (Nat × WalRow ρ)}
    (sound : history.FoundSound stacking top cursor found) :
    later.FoundSound stacking laterTop cursor found := by
  refine ⟨sound.ascending, sound.above,
    fun item member => (sound.within item member).trans grows.topLe, ?_⟩
  intro item member seq entry above below committed
  have older := grows.fresh seq entry committed (below.trans (sound.within item member))
  rcases sound.complete item member seq entry above below older with settled | inFound
  · exact Or.inl (settled.mono grows)
  · exact Or.inr inFound

theorem WritesSound.mono {cursor chunkMaxSeq : Nat} {pending : List (SinkWrite ρ)}
    (sound : history.WritesSound stacking top cursor chunkMaxSeq pending) :
    later.WritesSound stacking laterTop cursor chunkMaxSeq pending := by
  refine ⟨sound.within.trans grows.topLe, fun seq entry above below committed => ?_⟩
  have older := grows.fresh seq entry committed (below.trans sound.within)
  rcases sound.covered seq entry above below older with purged | covered
  · exact Or.inl (grows.purged seq purged)
  · refine Or.inr (covered.mono fun sinkWrite member => ?_)
    rcases List.mem_append.mp member with settled | outstanding
    · exact List.mem_append_left _ (grows.settled sinkWrite settled)
    · exact List.mem_append_right _ outstanding

/-- No call is disturbed by what the others do. -/
theorem PhaseSound.mono (sound : history.PhaseSound stacking top phase) :
    later.PhaseSound stacking laterTop phase := by
  cases phase with
  | idle | flushed | returned => trivial
  | started | looping | missed | reading | checking | truncating | recording =>
    exact SafeThrough.mono grows sound
  | recaching =>
    obtain ⟨safe, foundSound, slotsSound⟩ := sound
    exact ⟨safe.mono grows, foundSound.mono grows,
      fun item member => (slotsSound item member).mono grows⟩
  | writing =>
    obtain ⟨safe, writesSound⟩ := sound
    exact ⟨safe.mono grows, fun allGood => (writesSound allGood).mono grows⟩
  | deleting =>
    obtain ⟨safe, sequenceLe⟩ := sound
    exact ⟨safe.mono grows, sequenceLe⟩

end FlushHistory

namespace FlushWorld

/-- Entries stored from now on have a sequence above this one. -/
def top (world : FlushWorld stacking) : Nat :=
  match world.writer with
  | .reserved firstSeq _ => firstSeq - 1
  | _ => world.seq

/-- What the writer still has to do is in order.  While the sizes of a batch are not
noted, all noted ones are of earlier sequences. -/
def WriterSound (world : FlushWorld stacking) : Prop :=
  match world.writer with
  | .idle => ∀ entry ∈ world.sizes, entry.1 ≤ world.seq
  | .reserved firstSeq bundles =>
    (0 < firstSeq ∧ firstSeq + bundles.length = world.seq + 1) ∧
      ∀ entry ∈ world.sizes, entry.1 < firstSeq
  | .sizing stored =>
    (∀ item ∈ slotsOf stored, world.history.SlotSound stacking item.1 item.2) ∧
      ∃ firstSeq, firstSeq + stored.length = world.seq + 1 ∧
        stored.map Prod.fst = List.range' firstSeq stored.length ∧
        ∀ entry ∈ world.sizes, entry.1 < firstSeq
  | .caching slots =>
    (∀ item ∈ slots, world.history.SlotSound stacking item.1 item.2) ∧
      ∀ entry ∈ world.sizes, entry.1 ≤ world.seq

structure Sound (world : FlushWorld stacking) : Prop where
  stored : ∀ (seq : Nat) (row : WalRow ρ), world.rows[seq]? = some row →
    world.history.committed[seq]? = some row.entry ∧
      ∀ slot ∈ row.prepared, PreparedFor stacking slot row.entry
  missing : ∀ (seq : Nat) (entry : WalEntry), world.history.committed[seq]? = some entry →
    world.rows[seq]? = none → world.history.Settled stacking seq entry
  within : ∀ (seq : Nat) (entry : WalEntry), world.history.committed[seq]? = some entry →
    seq ≤ world.top
  cached : ∀ (seq : Nat) (slot : PreparedWalSlot ρ), world.cache[seq]? = some slot →
    world.history.SlotSound stacking seq slot
  sizes : world.sizes.Pairwise fun first second => first.1 < second.1
  writer : world.WriterSound
  flushed : world.history.SafeThrough stacking world.top world.lastFlushed
  truncated : world.history.SafeThrough stacking world.top (world.truncatedThrough - 1)
  calls : ∀ call, world.history.PhaseSound stacking world.top (world.calls call).phase

variable {world : FlushWorld stacking}

/-! ## Steps that leave the history alone -/

variable (sound : world.Sound)
include sound

theorem Sound.setPhase {call : Nat}
    (phaseSound : world.history.PhaseSound stacking world.top phase) :
    (world.setPhase call phase).Sound := by
  refine { sound with calls := fun other => ?_ }
  change world.history.PhaseSound stacking world.top _
  by_cases same : other = call
  · subst same
    simpa [FlushWorld.setPhase] using phaseSound
  · simpa [FlushWorld.setPhase, same] using sound.calls other

theorem Sound.noteLocal (last : Nat) : Sound { world with lastLocalWalSeq := last } :=
  { sound with }

theorem Sound.withCache {cache : Rows Nat (PreparedWalSlot ρ)}
    (cached : ∀ (seq : Nat) (slot : PreparedWalSlot ρ), cache[seq]? = some slot →
      world.history.SlotSound stacking seq slot) : Sound { world with cache := cache } :=
  { sound with cached := cached }

theorem Sound.insertSlot {item : Nat × PreparedWalSlot ρ}
    (slotSound : world.history.SlotSound stacking item.1 item.2) :
    Sound { world with cache := world.cache.insert item.1 item.2 } := by
  apply sound.withCache
  intro seq slot lookup
  rw [Std.ExtTreeMap.getElem?_insert] at lookup
  split at lookup
  next same =>
    have sameSeq : item.1 = seq := by simpa using same
    rw [← sameSeq, ← Option.some.inj lookup]
    exact slotSound
  next => exact sound.cached seq slot lookup

variable {sizes : List (Nat × Nat)}

omit sound in
theorem WriterSound.of_sublist (writerSound : world.WriterSound)
    (fewer : sizes.Sublist world.sizes) : WriterSound { world with sizes := sizes } := by
  unfold WriterSound at writerSound ⊢
  cases phase : world.writer with
  | idle =>
    simp only [phase] at writerSound ⊢
    exact fun entry member => writerSound entry (fewer.subset member)
  | reserved | caching =>
    simp only [phase] at writerSound ⊢
    exact ⟨writerSound.1, fun entry member => writerSound.2 entry (fewer.subset member)⟩
  | sizing =>
    simp only [phase] at writerSound ⊢
    obtain ⟨slotsSound, firstSeq, counted, seqs, sizesBelow⟩ := writerSound
    exact ⟨slotsSound, firstSeq, counted, seqs,
      fun entry member => sizesBelow entry (fewer.subset member)⟩

theorem Sound.withSizes (fewer : sizes.Sublist world.sizes) :
    Sound { world with sizes := sizes } :=
  { sound with sizes := sound.sizes.sublist fewer, writer := sound.writer.of_sublist fewer }

/-- More is purged or settled, and nothing is stored. -/
theorem Sound.withHistory {history : FlushHistory ρ}
    (grows : world.history.Grows history world.top world.top)
    (sameEntries : history.committed = world.history.committed) :
    Sound { world with history := history } := by
  refine { sound with
    stored := ?_, missing := ?_, within := ?_, cached := ?_, writer := ?_,
    flushed := sound.flushed.mono grows, truncated := sound.truncated.mono grows,
    calls := fun call => (sound.calls call).mono grows }
  · intro seq row lookup
    rw [sameEntries]
    exact sound.stored seq row lookup
  · intro seq entry committed lookup
    exact (sound.missing seq entry (sameEntries ▸ committed) lookup).mono grows
  · intro seq entry committed
    exact sound.within seq entry (sameEntries ▸ committed)
  · intro seq slot lookup
    exact (sound.cached seq slot lookup).mono grows
  · have writerSound := sound.writer
    unfold WriterSound at writerSound ⊢
    cases phase : world.writer with
    | idle => simpa only [phase] using writerSound
    | reserved => simpa only [phase] using writerSound
    | sizing =>
      simp only [phase] at writerSound ⊢
      exact ⟨fun item member => (writerSound.1 item member).mono grows, writerSound.2⟩
    | caching =>
      simp only [phase] at writerSound ⊢
      exact ⟨fun item member => (writerSound.1 item member).mono grows, writerSound.2⟩

theorem Sound.withWriter {writer : WriterPhase stacking}
    (topLe : world.top ≤ top { world with seq := seq, writer := writer })
    (writerSound : WriterSound { world with seq := seq, writer := writer }) :
    Sound { world with seq := seq, writer := writer } :=
  have grows := FlushHistory.Grows.of_le world.history topLe
  { sound with
    within := fun seq entry committed => (sound.within seq entry committed).trans topLe
    writer := writerSound
    flushed := sound.flushed.mono grows
    truncated := sound.truncated.mono grows
    calls := fun call => (sound.calls call).mono grows }

/-- An entry that the flush has passed over has reached the sink. -/
theorem Sound.settled_of_passed
    (committed : world.history.committed[seq]? = some entry)
    (passed : seq ≤ world.lastFlushed ∨ seq < world.truncatedThrough ∨ world.rows[seq]? = none) :
    world.history.Settled stacking seq entry := by
  rcases passed with flushed | truncated | deleted
  · exact sound.flushed.settled seq entry flushed committed
  · exact sound.truncated.settled seq entry (by omega) committed
  · exact sound.missing seq entry committed deleted

end FlushWorld

end

/-! ## Every step keeps a flush safe -/

variable {ρ : Type}

namespace FlushService

variable {service : FlushService ρ} {world : FlushWorld service.stacking}

/-! ## Choosing a chunk -/

variable {failure : Option String} {call cursor snapshot : Nat} {found : List (Nat × WalRow ρ)}

theorem chunkMax_spec {β : Type} (cursor : Nat) {chunk : List (Nat × β)} (nonempty : chunk ≠ []) :
    (∃ item ∈ chunk, item.1 = chunkMax cursor chunk) ∧
      ∀ item ∈ chunk, item.1 ≤ chunkMax cursor chunk := by
  unfold chunkMax
  cases found : (chunk.map Prod.fst).max? with
  | none =>
    have empty := max?_eq_none_iff.mp found
    exact absurd (map_eq_nil_iff.mp empty) nonempty
  | some greatest =>
    obtain ⟨member, bound⟩ := max?_eq_some_iff.mp found
    constructor
    · exact mem_map.mp member
    · intro item inside
      exact bound item.1 (mem_map_of_mem inside)

theorem takeBudget_front (budget takenPoints : Nat) (items : List (Nat × WalRow ρ)) :
    takeBudget budget takenPoints items <+: items := by
  induction items generalizing takenPoints with
  | nil => exact prefix_rfl
  | cons item items ih =>
    unfold takeBudget
    split
    · rw [prefix_cons_inj]
      exact ih _
    · exact nil_prefix

theorem selectChunk_cut (snapshot : Nat)
    (ascending : found.Pairwise fun first second => first.1 < second.1) :
    CutAbove found (service.selectChunk snapshot found) :=
  (CutAbove.filter_le found snapshot).trans (.of_front (ascending.filter _) (takeBudget_front ..))

theorem selectChunk_eq_nil_iff :
    service.selectChunk snapshot found = [] ↔ ∀ item ∈ found, snapshot < item.1 := by
  have emptyIff : service.selectChunk snapshot found = [] ↔
      (found.filter fun item => item.1 ≤ snapshot) = [] := by
    unfold selectChunk
    cases found.filter fun item => item.1 ≤ snapshot with
    | nil => simp [takeBudget]
    | cons item items => simp [takeBudget]
  rw [emptyIff]
  simp

/-! ## The prepared path -/

variable {taken : List (Nat × PreparedWalSlot ρ)}

theorem patchSlots_ok {history : FlushHistory ρ}
    (sound : ∀ item ∈ taken, history.SlotSound service.stacking item.1 item.2) :
    ∃ slots, service.patchSlots taken = .ok slots ∧
      slots.map Prod.fst = taken.map Prod.fst ∧
      ∀ item ∈ slots, history.SlotSound service.stacking item.1 item.2 := by
  induction taken with
  | nil => exact ⟨[], rfl, rfl, by simp⟩
  | cons item taken ih =>
    obtain ⟨slots, slotsOk, sameSeqs, slotsSound⟩ :=
      ih fun other member => sound other (by simp [member])
    obtain ⟨entry, committed, prepares⟩ := sound item (by simp)
    obtain ⟨patched, patchedOk, patchedFor⟩ :
        ∃ patched, service.patchSlot item.1 item.2 = .ok patched ∧
          PreparedFor service.stacking patched entry := by
      unfold patchSlot
      cases service.walFormat with
      | bincode => exact prepares.patchAllIngestSeqs _
      | arrowIpc => exact ⟨item.2, rfl, prepares⟩
    refine ⟨(item.1, patched) :: slots, ?_, ?_, ?_⟩
    · simp only [patchSlots, patchedOk, slotsOk]
      rfl
    · simp [sameSeqs]
    · rintro other (_ | ⟨_, member⟩)
      · exact ⟨entry, committed, patchedFor⟩
      · exact slotsSound other member

variable (sound : world.Sound)
include sound

theorem writesSound_of_slots {slots : List (Nat × PreparedWalSlot ρ)} (nonempty : slots ≠ [])
    (slotsSound : ∀ item ∈ slots, world.history.SlotSound service.stacking item.1 item.2)
    (noHole : ∀ item ∈ slots, ∀ seq, cursor < seq → seq ≤ item.1 → seq ∈ slots.map Prod.fst)
    {writes : List (SinkWrite ρ)}
    (made : service.settings.preparedWork service.stacking slots = .ok writes) :
    world.history.WritesSound service.stacking world.top cursor (chunkMax cursor slots) writes := by
  obtain ⟨⟨last, lastMember, lastEq⟩, -⟩ := chunkMax_spec cursor nonempty
  constructor
  · obtain ⟨entry, committed, -⟩ := slotsSound last lastMember
    rw [← lastEq]
    exact sound.within last.1 entry committed
  · intro seq entry above below committed
    rw [← lastEq] at below
    obtain ⟨⟨_, slot⟩, member, rfl⟩ :=
      mem_map.mp (noHole last lastMember seq above below)
    obtain ⟨stored, storedCommitted, prepares⟩ := slotsSound _ member
    obtain rfl : stored = entry :=
      Option.some.inj (storedCommitted.symm.trans committed)
    have wellFormed : ∀ pair ∈ slots, ∀ prepared ∈ pair.2.measurements,
        prepared.WellFormed := by
      intro pair pairMember
      obtain ⟨_, _, pairPrepares⟩ := slotsSound pair pairMember
      exact pairPrepares.wellFormed
    have covered := FlushSettings.preparedWork_covers made wellFormed member prepares
    exact Or.inr (covered.mono fun _ inWrites => mem_append_right _ inWrites)

theorem startPrepared_sound (safe : world.history.SafeThrough service.stacking world.top cursor)
    (nonempty : taken ≠ [])
    (takenSound : ∀ item ∈ taken, world.history.SlotSound service.stacking item.1 item.2)
    (noHole : ∀ item ∈ taken, ∀ seq, cursor < seq → seq ≤ item.1 → seq ∈ taken.map Prod.fst) :
    (service.startPrepared world call cursor snapshot taken).Sound := by
  obtain ⟨slots, slotsOk, sameSeqs, slotsSound⟩ := patchSlots_ok takenSound
  have slotsNonempty : slots ≠ [] := by
    intro empty
    rw [empty] at sameSeqs
    exact nonempty (map_eq_nil_iff.mp sameSeqs.symm)
  simp only [startPrepared, slotsOk]
  cases made : service.settings.preparedWork service.stacking slots with
  | error cause => exact (sound.noteLocal _).setPhase trivial
  | ok writes =>
    apply (sound.noteLocal _).setPhase
    refine ⟨safe, fun _ => writesSound_of_slots sound slotsNonempty slotsSound ?_ made⟩
    intro item member seq above below
    have inTaken : item.1 ∈ taken.map Prod.fst := by
      rw [← sameSeqs]
      exact mem_map_of_mem member
    obtain ⟨original, originalMember, sameSeq⟩ := mem_map.mp inTaken
    rw [sameSeqs]
    exact noHole original originalMember seq above (sameSeq ▸ below)

theorem loopStep_sound (safe : world.history.SafeThrough service.stacking world.top cursor) :
    (service.loopStep world call cursor snapshot).Sound := by
  unfold loopStep
  split
  · split
    · cases took : takeRange world.cache (cursor + 1) snapshot walReadChunk with
      | none => exact sound.setPhase safe
      | some result =>
        obtain ⟨taken, left⟩ := result
        obtain ⟨nonempty, run⟩ := takeRange_spec took
        have smaller : FlushWorld.Sound { world with cache := left } :=
          sound.withCache fun seq slot inLeft => sound.cached seq slot (run.left seq slot inLeft)
        refine startPrepared_sound smaller safe nonempty ?_ ?_
        · intro item member
          exact sound.cached item.1 item.2 (run.slots item member)
        · intro item member seq above below
          obtain ⟨slot, inTaken⟩ := run.exists_of_le member above below
          exact mem_map_of_mem inTaken
    · exact sound.setPhase safe
  · exact sound.setPhase trivial

/-! ## The native path -/

theorem foundSound_readRange (cursor limit : Nat) :
    world.history.FoundSound service.stacking world.top cursor
      (readRange world.rows (cursor + 1) limit) := by
  have cut := readRange_cut world.rows (cursor + 1) limit
  have stored : ∀ item ∈ readRange world.rows (cursor + 1) limit,
      world.rows[item.1]? = some item.2 ∧ cursor + 1 ≤ item.1 := fun item member =>
    mem_rowsFrom.mp (cut.subset item member)
  refine ⟨readRange_ascending .., fun item member => (stored item member).2,
    fun item member => ?_, ?_⟩
  · exact sound.within item.1 _ (sound.stored item.1 item.2 (stored item member).1).1
  · intro item member seq entry above below committed
    cases lookup : world.rows[seq]? with
    | none => exact Or.inl (sound.missing seq entry committed lookup)
    | some row =>
      have sameEntry : row.entry = entry :=
        Option.some.inj ((sound.stored seq row lookup).1.symm.trans committed)
      have inFound : (seq, row) ∈ readRange world.rows (cursor + 1) limit :=
        cut.closed item member (seq, row) (mem_rowsFrom.mpr ⟨lookup, above⟩) below
      rw [← sameEntry]
      exact Or.inr (mem_map_of_mem inFound)

theorem decodedSlots_sound (fromSeq limit : Nat) :
    ∀ item ∈ service.decodedSlots (readRange world.rows fromSeq limit),
      world.history.SlotSound service.stacking item.1 item.2 := by
  intro item member
  unfold decodedSlots at member
  split at member
  · obtain ⟨⟨seq, row⟩, inFound, made⟩ := mem_filterMap.mp member
    obtain ⟨slot, slotEq, rfl⟩ := Option.map_eq_some_iff.mp made
    have lookup := (mem_rowsFrom.mp ((readRange_cut ..).subset _ inFound)).1
    obtain ⟨committed, prepares⟩ := sound.stored seq row lookup
    exact ⟨row.entry, committed, prepares slot slotEq⟩
  · simp at member

theorem startNative_sound (safe : world.history.SafeThrough service.stacking world.top cursor)
    (foundSound : world.history.FoundSound service.stacking world.top cursor found) :
    (service.startNative world call cursor snapshot found).Sound := by
  have cut : CutAbove found (service.selectChunk snapshot found) :=
    selectChunk_cut snapshot foundSound.ascending
  simp only [startNative]
  split
  next => exact sound.setPhase trivial
  next nonempty =>
    obtain ⟨⟨last, lastMember, lastEq⟩, -⟩ :=
      chunkMax_spec cursor (by simpa using nonempty : service.selectChunk snapshot found ≠ [])
    have lastFound := cut.subset last lastMember
    apply (sound.noteLocal _).setPhase
    refine ⟨safe, fun _ => ⟨lastEq ▸ foundSound.within last lastFound, ?_⟩⟩
    intro seq entry above below committed
    rw [← lastEq] at below
    rcases foundSound.complete last lastFound seq entry above below committed with
      (purged | covered) | inFound
    · exact Or.inl purged
    · exact Or.inr (covered.mono fun _ member => mem_append_left _ member)
    · obtain ⟨item, itemMember, itemEq⟩ := mem_map.mp inFound
      cases itemEq
      have inChunk : item ∈ service.selectChunk snapshot found :=
        cut.closed last lastMember item itemMember below
      have covered : Covered service.stacking (service.settings.nativeWork (cursor + 1)
          (entriesOf (service.selectChunk snapshot found))) item.2.entry :=
        FlushSettings.nativeWork_covers (mem_map_of_mem inChunk)
      exact Or.inr (covered.mono fun _ member => mem_append_right _ member)

/-! ## Settling a chunk -/

omit sound in
theorem grows_settled (history : FlushHistory ρ) (top : Nat) (sinkWrite : SinkWrite ρ) :
    history.Grows { history with settled := history.settled ++ [sinkWrite] } top top :=
  { FlushHistory.Grows.of_le history (Nat.le_refl top) with
    settled := fun _ member => mem_append_left _ member }

variable {chunkMaxSeq : Nat}

variable {path : FlushPath} {anyFailed : Bool}

theorem settle_sound {pending : List (SinkWrite ρ)}
    (phaseSound : world.history.PhaseSound service.stacking world.top
      (.writing cursor snapshot chunkMaxSeq path pending anyFailed)) (index : Nat)
    (outcome : SinkOutcome) :
    (service.settle world call cursor snapshot chunkMaxSeq path pending anyFailed index
      outcome).Sound := by
  obtain ⟨safe, writesSound⟩ := phaseSound
  unfold settle
  cases lookup : pending[index]? with
  | none => exact sound
  | some sinkWrite =>
    have done : FlushWorld.Sound { world with
        history := { world.history with
          settled := world.history.settled ++ [sinkWrite] } } :=
      sound.withHistory (grows_settled ..) rfl
    -- What leaves the outstanding writes is among the settled ones.
    have moved : anyFailed = false →
        FlushHistory.WritesSound service.stacking
          { world.history with settled := world.history.settled ++ [sinkWrite] }
          world.top cursor chunkMaxSeq (pending.eraseIdx index) := by
      intro allGood
      refine ⟨(writesSound allGood).within, fun seq entry above below committed => ?_⟩
      refine ((writesSound allGood).covered seq entry above below committed).imp_right
        fun covered => covered.mono fun other member => ?_
      rcases mem_append.mp member with settled | outstanding
      · simp [settled]
      · obtain ⟨place, found⟩ := mem_iff_getElem?.mp outstanding
        by_cases here : place = index
        · rw [here, lookup] at found
          simp [Option.some.inj found]
        · apply mem_append_right
          exact mem_eraseIdx_iff_getElem?.mpr ⟨place, here, found⟩
    cases outcome with
    | failed => exact sound.setPhase ⟨safe, by simp⟩
    | accepted | refused =>
      exact done.setPhase ⟨safe.mono (grows_settled ..), moved⟩

omit sound in
theorem safeThrough_chunkMax {history : FlushHistory ρ} {top : Nat}
    (safe : history.SafeThrough service.stacking top cursor)
    (writesSound : history.WritesSound service.stacking top cursor chunkMaxSeq []) :
    history.SafeThrough service.stacking top chunkMaxSeq := by
  refine ⟨writesSound.within, fun seq entry below committed => ?_⟩
  by_cases earlier : seq ≤ cursor
  · exact safe.settled seq entry earlier committed
  · have covered := writesSound.covered seq entry (by omega) below committed
    rwa [append_nil] at covered

theorem finishWrites_sound
    (phaseSound : world.history.PhaseSound service.stacking world.top
      (.writing cursor snapshot chunkMaxSeq path [] anyFailed)) :
    (service.finishWrites world call cursor snapshot chunkMaxSeq path anyFailed).Sound := by
  obtain ⟨safe, writesSound⟩ := phaseSound
  cases anyFailed with
  | true => exact sound.setPhase safe
  | false => exact sound.setPhase (safeThrough_chunkMax safe (writesSound rfl))

/-! ## Truncating and recording -/

variable {flushedThrough : Nat}

variable (safe : world.history.SafeThrough service.stacking world.top flushedThrough)
include safe

theorem truncateStep_sound (view : PeerView) :
    (service.truncateStep world call snapshot flushedThrough failure view).Sound := by
  have behind := service.policy.computeSafeTruncateSeq_le service.settings.nodeId view
    sound.sizes world.lastLocalWalSeq flushedThrough
  unfold truncateStep
  generalize service.policy.computeSafeTruncateSeq service.settings.nodeId view world.sizes
    world.lastLocalWalSeq flushedThrough = safeSeq at behind
  have fewerSizes := sound.withSizes
    (dropWhile_sublist fun entry : Nat × Nat => decide (entry.1 < safeSeq + 1))
  refine (fewerSizes.withCache ?_).setPhase ⟨safe, by omega⟩
  intro seq slot lookup
  rw [truncateCache, Std.ExtTreeMap.getElem?_filter', Option.filter_eq_some_iff] at lookup
  exact sound.cached seq slot lookup.1

theorem deleteStep_sound {sequence : Nat} (sequenceLe : sequence ≤ flushedThrough + 1) :
    (service.deleteStep world call snapshot flushedThrough sequence failure).Sound := by
  have deleted : FlushWorld.Sound { world with
      rows := truncateRows world.rows world.truncatedThrough sequence
      truncatedThrough := max world.truncatedThrough sequence } := by
    refine { sound with stored := ?_, missing := ?_, truncated := ⟨?_, ?_⟩ }
    · intro seq row lookup
      rw [getElem?_truncateRows, Option.ite_none_left_eq_some] at lookup
      exact sound.stored seq row lookup.2
    · intro seq entry committed lookup
      rw [getElem?_truncateRows] at lookup
      split at lookup
      next below => exact safe.settled seq entry (by omega) committed
      next => exact sound.missing seq entry committed lookup
    · have within := safe.within
      have older := sound.truncated.within
      change max world.truncatedThrough sequence - 1 ≤ world.top
      omega
    · intro seq entry below committed
      by_cases earlier : seq ≤ world.truncatedThrough - 1
      · exact sound.truncated.settled seq entry earlier committed
      · have reached : seq ≤ max world.truncatedThrough sequence - 1 := below
        exact safe.settled seq entry (by omega) committed
  exact deleted.setPhase safe

theorem recordStep_sound :
    (service.recordStep world call snapshot flushedThrough failure).Sound := by
  have recorded : FlushWorld.Sound { world with
      lastFlushed := flushedThrough, flushedThrough := flushedThrough } :=
    { sound with flushed := safe }
  cases failure with
  | some cause => exact recorded.setPhase trivial
  | none => exact recorded.setPhase safe

omit safe in
theorem checkStep_sound : (service.checkStep world call cursor).Sound := by
  have recached : FlushWorld.Sound { world with
      cache := write world.cache ((service.decodedSlots
        (readRange world.rows (cursor + 1) 1)).map fun item => .put item.1 item.2) } := by
    apply sound.withCache
    intro seq slot lookup
    rcases mem_or_of_lookup_write_puts lookup with inserted | ⟨-, older⟩
    · exact decodedSlots_sound sound _ _ _ inserted
    · exact sound.cached seq slot older
  simp only [checkStep]
  split
  · exact recached.setPhase trivial
  · exact recached.setPhase sound.flushed

omit safe in
theorem recacheOne_sound {item : Nat × PreparedWalSlot ρ} {pending : List (Nat × PreparedWalSlot ρ)}
    (phaseSound : world.history.PhaseSound service.stacking world.top
      (.recaching cursor snapshot found (item :: pending))) :
    (FlushWorld.setPhase { world with cache := world.cache.insert item.1 item.2 } call
      (.recaching cursor snapshot found pending)).Sound := by
  obtain ⟨safe, foundSound, slotsSound⟩ := phaseSound
  apply (sound.insertSlot (slotsSound item (by simp))).setPhase
  exact ⟨safe, foundSound, fun other member => slotsSound other (by simp [member])⟩

omit safe in
theorem advance_sound (call : Nat) (answer : Answer) :
    (service.advance world call answer).Sound := by
  have here := sound.calls call
  unfold advance
  generalize (world.calls call).phase = phase at here ⊢
  split
  next =>
    split
    · exact sound.setPhase trivial
    · exact sound.setPhase here
  next => exact loopStep_sound sound here
  next => exact sound.setPhase here
  next =>
    exact sound.setPhase ⟨here, foundSound_readRange sound _ _, decodedSlots_sound sound _ _⟩
  next => exact sound.setPhase trivial
  next => exact startNative_sound sound here.1 here.2.1
  next => exact recacheOne_sound sound here
  next => exact sound.setPhase trivial
  next => exact settle_sound sound here _ _
  next => exact finishWrites_sound sound here
  next => exact truncateStep_sound sound here _
  next => exact deleteStep_sound sound here.1 here.2
  next => exact sound.setPhase trivial
  next => exact recordStep_sound sound here
  next => exact sound.setPhase trivial
  next =>
    split
    · exact sound.setPhase sound.flushed
    · exact sound.setPhase trivial
  next => exact checkStep_sound sound
  next => exact sound.setPhase trivial
  next => exact sound

end FlushService

end HyperbyteDb
