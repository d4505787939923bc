import HyperbyteDb.SeparatedTexts
import HyperbyteDb.ShardMapCoherence

/-!
# Runs of the persisted shard map

Which calls keep the rows on disk equal to the map in memory.
-/

namespace HyperbyteDb

open GuardedRuns List OrderedRows RocksDbShardMap

section

variable {map after : ShardMap}

variable {op : ShardMapOp} {key : MeasurementKey}

theorem Applied.lookup_of_not_affected (applied : Applied map op after)
    (unaffected : key ∉ op.affectedSpaceKeys map) :
    after.spaces[key]? = map.spaces[key]? := by
  rcases applied.replaced_or_dropped with
    ⟨changed, nextRegionId, space, isKey, rfl⟩ | ⟨db, rp, measurement, rfl, rfl⟩
  · rw [ShardMapOp.affectedSpaceKeys_of_measurementKey isKey, mem_singleton]
      at unaffected
    rw [ShardMap.lookup_advance, if_neg (Ne.symm unaffected)]
  · rw [ShardMap.lookup_dropped]
    split
    · rename_i matched
      cases lookup : map.spaces[key]? with
      | none => rfl
      | some space =>
        refine absurd (mem_filter.mpr ⟨?_, matched⟩) unaffected
        rw [Std.ExtTreeMap.mem_keys, Std.ExtTreeMap.mem_iff_isSome_getElem?, lookup]
        rfl
    · rfl

theorem coversSeries_sortByStart_replace {front back : List ShardRegion}
    {old new : ShardRegion} (startEq : new.start = old.start) (endEq : new.end_ = old.end_)
    (covers : CoversSeries (sortByStart (front ++ old :: back))) :
    CoversSeries (sortByStart (front ++ new :: back)) := by
  refine IntervalPartitions.Spans.congr ?_ covers
  have sorted (regions : List ShardRegion) :
      (sortByStart regions).map (fun region => (region.start, region.end_)) =
        (regions.map fun region => (region.start, region.end_)).insertionSort
          fun first second => first.1 ≤ second.1 :=
    map_insertionSort _ _ _ _ (by simp)
  rw [sorted, sorted]
  simp [startEq, endEq]

/-- Accepted operations keep a map loadable as long as a merge takes no identifier
from another space. -/
theorem Applied.loadable (applied : Applied map op after)
    (loadable : Loadable map) (apart : op.InstallsApart map) : Loadable after := by
  have distinct := applied.regionIds_nodup loadable.distinct apart
  have allocator : after.nextRegionId ≠ 0 := by
    intro zero
    have bounded := applied.nextRegionId_le
    rw [zero] at bounded
    exact loadable.allocator (le_antisymm bounded UInt64.zero_le)
  have stored (space : MeasurementShardSpace) :=
    MeasurementShardSpace.validate_eq_ok_iff space
  cases applied with
  | @bootstrap _ key regions isBootstrap absent idsDistinct unused covers =>
    refine ⟨loadable.keyed.advance rfl, loadable.validates.advance ?_, distinct, allocator⟩
    rw [stored, sortByStart_sortByStart]
    exact ⟨covers, ((perm_sortByStart _).map _).nodup_iff.mpr idsDistinct⟩
  | split allocatable spaceEq found epochEq inside meets regionsEq covers idsDistinct
      globallyDistinct =>
      have keyEq := loadable.keyed _ _ spaceEq
      refine ⟨loadable.keyed.advance keyEq, loadable.validates.advance ?_, distinct, allocator⟩
      rw [stored, regionsEq, sortByStart_sortByStart, ← regionsEq]
      exact ⟨covers, idsDistinct⟩
  | merge spaceEq leftFound rightFound leftEpochEq rightEpochEq regionsEq covers
      idsDistinct =>
      have keyEq := loadable.keyed _ _ spaceEq
      refine ⟨loadable.keyed.advance keyEq, loadable.validates.advance ?_, distinct, allocator⟩
      rw [stored, regionsEq, sortByStart_sortByStart, ← regionsEq]
      exact ⟨covers, idsDistinct⟩
  | @edit _ _ _ _ space _ _ isEdit spaceEq found epochEq editEq =>
    obtain ⟨idEq, startEq, endEq⟩ := ShardMapOp.regionEdit_frame isEdit editEq
    have valid := (stored space).mp (loadable.validates _ _ spaceEq)
    rw [MeasurementShardSpace.regionIds, found.regionsEq] at valid
    have keyEq := loadable.keyed _ _ spaceEq
    refine ⟨loadable.keyed.advance keyEq, loadable.validates.advance ?_, distinct, allocator⟩
    rw [stored, sortByStart_sortByStart]
    refine ⟨coversSeries_sortByStart_replace startEq endEq valid.1,
      ((perm_sortByStart _).map _).nodup_iff.mpr ?_⟩
    simpa [idEq] using valid.2
  | drop =>
    exact ⟨loadable.keyed.dropped _ _ _, loadable.validates.dropped _ _ _, distinct, allocator⟩

section Persisting

variable {β : Type} {codec : ShardMapCodec β}
variable {map : ShardMap} {db : ShardRows β} {commits : Nat → Bool} {keys : List MeasurementKey}

theorem spaceKey_ne_metaKey (key : MeasurementKey) : spaceKey key ≠ metaKey := fun same =>
  not_spacePrefix_prefix_metaKey (same ▸ spacePrefix_prefix_spaceKey key)

/-- The batches of a loop over the affected spaces, one after the other. -/
def persistedEntries (codec : ShardMapCodec β) (map : ShardMap)
    (keys : List MeasurementKey) : List (BatchEntry (List Char) β) :=
  keys.flatMap fun key => [metaEntry codec map, spaceEntry codec map key]

theorem write_persistedEntries_cons (key : MeasurementKey) :
    write db (persistedEntries codec map (key :: keys)) =
      write (write db [metaEntry codec map, spaceEntry codec map key])
        (persistedEntries codec map keys) := rfl

variable {written : ShardRows β}

variable {n : Nat}

/-- A loop that ran to its end wrote all its batches. -/
theorem persistSpaces_of_ok
    (ok : persistSpaces codec map commits n db keys = (.ok (), written)) :
    written = write db (persistedEntries codec map keys) := by
  induction keys generalizing n db with
  | nil => exact (Prod.mk.inj ok).2.symm
  | cons key keys ih =>
    rw [persistSpaces, persistSpace] at ok
    split at ok
    · simp at ok
    · rename_i first firstEq
      split at firstEq
      · rw [ih ok, write_persistedEntries_cons, ← Except.ok.inj firstEq]
      · simp at firstEq

theorem persistSpaces_of_commits (all : ∀ m < keys.length, commits (n + m) = true) :
    (persistSpaces codec map commits n db keys).1 = .ok () := by
  induction keys generalizing n db with
  | nil => rfl
  | cons key keys ih =>
    have now : commits n = true := all 0 (by simp)
    rw [persistSpaces, persistSpace, if_pos now]
    refine ih fun m bound => ?_
    have later := all (m + 1) (by simpa using bound)
    rwa [Nat.add_right_comm]

/-- When the first write decides the others, a loop that failed wrote nothing. -/
theorem persistSpaces_of_error {error : ShardStoreError}
    (together : commits 0 = true → ∀ n < keys.length, commits n = true)
    (failed : persistSpaces codec map commits 0 db keys = (.error error, written)) :
    written = db := by
  cases keys with
  | nil => simp [persistSpaces] at failed
  | cons key keys =>
    cases first : commits 0 with
    | true =>
      have ok : (persistSpaces codec map commits 0 db (key :: keys)).1 = .ok () :=
        persistSpaces_of_commits fun m bound => by
          rw [Nat.zero_add]
          exact together first m bound
      rw [failed] at ok
      simp at ok
    | false =>
      simp [persistSpaces, persistSpace, first] at failed
      exact failed.2.symm

theorem lookup_spaceEntry (key : MeasurementKey) (row : List Char) :
    (applyEntry db (spaceEntry codec map key))[row]? =
      if spaceKey key = row then (map.space key).map codec.encodeSpace else db[row]? := by
  unfold spaceEntry
  cases map.space key <;> simp

theorem lookup_persisted_meta (nonempty : keys ≠ []) :
    (write db (persistedEntries codec map keys))[metaKey]? =
      some (codec.encodeMeta ⟨map.mapVersion, map.nextRegionId⟩) := by
  induction keys generalizing db with
  | nil => exact absurd rfl nonempty
  | cons key keys ih =>
    cases keys with
    | nil =>
      simp [persistedEntries, lookup_spaceEntry, spaceKey_ne_metaKey, metaEntry]
    | cons second keys => exact ih (by simp)

variable {row : List Char}

/-- After all batches, a space row holds what the new map stores for the affected
space it belongs to, or what it held before. -/
theorem lookup_persisted (target : Option MeasurementShardSpace)
    (notMeta : row ≠ metaKey) (agree : ∀ key ∈ keys, spaceKey key = row → map.space key = target) :
    (write db (persistedEntries codec map keys))[row]? =
      if ∃ key ∈ keys, spaceKey key = row then target.map codec.encodeSpace else db[row]? := by
  induction keys generalizing db with
  | nil => simp [persistedEntries]
  | cons key keys ih =>
    rw [write_persistedEntries_cons, ih fun other member => agree other (mem_cons_of_mem _ member)]
    simp only [exists_mem_cons_iff]
    by_cases later : ∃ other ∈ keys, spaceKey other = row
    · rw [if_pos later, if_pos (Or.inr later)]
    · rw [if_neg later]
      by_cases here : spaceKey key = row
      · simp [lookup_spaceEntry, here, agree key mem_cons_self here]
      · rw [if_neg (not_or.mpr ⟨here, later⟩)]
        simp [lookup_spaceEntry, here, metaEntry, Ne.symm notMeta]

theorem lookup_persisted_elsewhere (notMeta : row ≠ metaKey)
    (elsewhere : ∀ key ∈ keys, spaceKey key ≠ row) :
    (write db (persistedEntries codec map keys))[row]? = db[row]? := by
  rw [lookup_persisted none notMeta fun key member same =>
    absurd same (elsewhere key member), if_neg]
  rintro ⟨key, member, same⟩
  exact elsewhere key member same

theorem lookup_persisted_affected
    (apart : ∀ first ∈ keys, ∀ second ∈ keys, spaceKey first = spaceKey second → first = second)
    (member : key ∈ keys) :
    (write db (persistedEntries codec map keys))[spaceKey key]? =
      (map.space key).map codec.encodeSpace := by
  rw [lookup_persisted (map.space key) (spaceKey_ne_metaKey key), if_pos ⟨key, member, rfl⟩]
  intro other otherMember sameRow
  rw [apart other otherMember key member sameRow]

/-- Writing the affected spaces of a changed map turns rows that represent the old
map into rows that represent the new one. -/
theorem Represents.persisted (represents : Represents codec db map) (nonempty : keys ≠ [])
    (frame : ∀ key, key ∉ keys → after.spaces[key]? = map.spaces[key]?)
    (free : ∀ key ∈ keys, ∀ (other : MeasurementKey) (space : MeasurementShardSpace),
      map.spaces[other]? = some space → spaceKey other = spaceKey key → other = key)
    (apart : ∀ first ∈ keys, ∀ second ∈ keys, spaceKey first = spaceKey second → first = second) :
    Represents codec (write db (persistedEntries codec after keys)) after where
  noLegacy := by
    rw [lookup_persisted_elsewhere (by decide)]
    · exact represents.noLegacy
    · exact fun key _ same => not_spacePrefix_prefix_legacyShardMapKey
        (same ▸ spacePrefix_prefix_spaceKey key)
  counters := by
    simp [loadMeta, lookup_persisted_meta nonempty, codec.decodeMeta_encodeMeta]
  stored key space stored := by
    by_cases affected : key ∈ keys
    · refine ⟨codec.encodeSpace space, ?_, codec.decodeSpace_encodeSpace space⟩
      rw [lookup_persisted_affected apart affected, ShardMap.space, stored]
      rfl
    · rw [frame key affected] at stored
      rw [lookup_persisted_elsewhere (spaceKey_ne_metaKey key)]
      · exact represents.stored key space stored
      · exact fun other member sameRow =>
          affected (free other member key space stored sameRow.symm ▸ member)
  onlyStored row value isSpace found := by
    by_cases affected : ∃ key ∈ keys, spaceKey key = row
    · obtain ⟨key, member, rfl⟩ := affected
      rw [lookup_persisted_affected apart member] at found
      obtain ⟨space, stored, rfl⟩ := Option.map_eq_some_iff.mp found
      exact ⟨key, space, stored, rfl, codec.decodeSpace_encodeSpace space⟩
    · rw [lookup_persisted_elsewhere
        (fun same => not_spacePrefix_prefix_metaKey (same ▸ isSpace))
        (fun key member same => affected ⟨key, member, same⟩)] at found
      obtain ⟨key, space, stored, rowEq, decoded⟩ :=
        represents.onlyStored row value isSpace found
      have unaffected : key ∉ keys := fun member => affected ⟨key, member, rowEq.symm⟩
      exact ⟨key, space, (frame key unaffected).trans stored, rowEq, decoded⟩

theorem Represents.persistFullMap {new : ShardMap} (represents : Represents codec db map)
    (oldKeyed : map.ForallSpaces fun key space => space.key = key)
    (keyed : new.ForallSpaces fun key space => space.key = key)
    (apart : ∀ (first second : MeasurementKey) (firstSpace secondSpace : MeasurementShardSpace),
      new.spaces[first]? = some firstSpace → new.spaces[second]? = some secondSpace →
      spaceKey first = spaceKey second → first = second) {commits : Bool}
    (ok : HyperbyteDb.persistFullMap codec db new commits = .ok written) :
    Represents codec written new := by
  obtain ⟨existing, loaded⟩ := represents.loadSpaces
  unfold HyperbyteDb.persistFullMap at ok
  rw [loaded] at ok
  dsimp only at ok
  split at ok
  swap
  · simp at ok
  obtain rfl := Except.ok.inj ok
  rw [write_cons, write_append]
  have removedAreSpaces : ∀ row, ¬spacePrefix <+: row →
      row ∉ (existing.filter fun space => !new.spaces.contains space.key).map
        fun space => spaceKey space.key := by
    intro row notSpace member
    obtain ⟨space, -, rfl⟩ := mem_map.mp member
    exact notSpace (spacePrefix_prefix_spaceKey space.key)
  have functional : ∀ first ∈ spaceRows codec new, ∀ second ∈ spaceRows codec new,
      first.1 = second.1 → first.2 = second.2 := by
    intro first firstMember second secondMember sameRow
    obtain ⟨firstKey, firstSpace, firstStored, rfl⟩ := mem_spaceRows_iff.mp firstMember
    obtain ⟨secondKey, secondSpace, secondStored, rfl⟩ := mem_spaceRows_iff.mp secondMember
    rw [keyed firstKey firstSpace firstStored, keyed secondKey secondSpace secondStored] at sameRow
    obtain rfl := apart firstKey secondKey firstSpace secondSpace firstStored secondStored sameRow
    obtain rfl := Option.some.inj (firstStored.symm.trans secondStored)
    rfl
  refine ⟨?_, ?_, fun key space stored => ?_, fun row value isSpace found => ?_⟩
  · rw [lookup_write_puts_of_not_mem _
        (spaceRows_ne not_spacePrefix_prefix_legacyShardMapKey), lookup_write_deletes,
      if_neg (removedAreSpaces _ not_spacePrefix_prefix_legacyShardMapKey), metaEntry,
      lookup_put]
    exact represents.noLegacy
  · rw [loadMeta, lookup_write_puts_of_not_mem _
        (spaceRows_ne not_spacePrefix_prefix_metaKey), lookup_write_deletes,
      if_neg (removedAreSpaces _ not_spacePrefix_prefix_metaKey), metaEntry]
    simp [codec.decodeMeta_encodeMeta]
  · refine ⟨codec.encodeSpace space, ?_, codec.decodeSpace_encodeSpace space⟩
    obtain rfl : space.key = key := keyed key space stored
    exact lookup_write_puts_of_mem _ functional
      (mem_spaceRows_iff.mpr ⟨space.key, space, stored, rfl⟩)
  · rcases mem_or_of_lookup_write_puts found with written | ⟨notWritten, earlier⟩
    · obtain ⟨key, space, stored, rowEq⟩ := mem_spaceRows_iff.mp written
      obtain ⟨rfl, rfl⟩ := Prod.mk.inj rowEq
      exact ⟨key, space, stored, by rw [keyed key space stored],
        codec.decodeSpace_encodeSpace space⟩
    · rw [lookup_write_deletes] at earlier
      split at earlier
      · simp at earlier
      rename_i notRemoved
      have notMeta : metaKey ≠ row := fun same =>
        not_spacePrefix_prefix_metaKey (same ▸ isSpace)
      rw [metaEntry, lookup_put, if_neg notMeta] at earlier
      obtain ⟨key, space, stored, rfl, -⟩ :=
        represents.onlyStored row value isSpace earlier
      have keyEq : space.key = key := oldKeyed key space stored
      have inExisting : space ∈ existing :=
        (represents.mem_loadSpaces loaded).mpr ⟨key, stored⟩
      cases incoming : new.spaces[key]? with
      | some newSpace =>
        refine absurd ?_ (notWritten _ (mem_spaceRows_iff.mpr ⟨key, newSpace, incoming, rfl⟩))
        rw [keyed key newSpace incoming]
      | none =>
        refine absurd (mem_map.mpr ⟨space, mem_filter.mpr ⟨inExisting, ?_⟩,
          by rw [keyEq]⟩) notRemoved
        rw [keyEq, Std.ExtTreeMap.contains_eq_isSome_getElem?, incoming]
        rfl

end Persisting

end

/-! ## Runs of the persisted shard map -/

section Persisting

variable {β : Type} {codec : ShardMapCodec β}

structure Coherent (codec : ShardMapCodec β) (store : RocksDbShardMap β) : Prop where
  represents : Represents codec store.db store.cache
  loadable : Loadable store.cache

/-- What a call must meet, in the map it is made on, to leave the rows equal to the
map in memory. -/
def ShardMapCall.KeepsRows (cache : ShardMap) : ShardMapCall → Prop
  | .applyOp op commits => ∀ after, applyShardMapOp cache op = .ok after →
      op.affectedSpaceKeys cache ≠ [] ∧
      op.InstallsApart cache ∧
      (∀ key ∈ op.affectedSpaceKeys cache, ∀ (other : MeasurementKey)
        (space : MeasurementShardSpace), cache.spaces[other]? = some space →
        spaceKey other = spaceKey key → other = key) ∧
      (commits 0 = true → ∀ n < (op.affectedSpaceKeys cache).length, commits n = true)
  | .replaceMap map _ =>
    map.nextRegionId ≠ 0 ∧
    (map.ForallSpaces fun key space => space.key = key) ∧
    ∀ (first second : MeasurementKey) (firstSpace secondSpace : MeasurementShardSpace),
      map.spaces[first]? = some firstSpace → map.spaces[second]? = some secondSpace →
      spaceKey first = spaceKey second → first = second

variable {store : RocksDbShardMap β}

theorem Coherent.applyOp (coherent : Coherent codec store) {op : ShardMapOp} {commits : Nat → Bool}
    (keeps : (ShardMapCall.applyOp op commits).KeepsRows store.cache) :
    Coherent codec (store.applyOp codec op commits).2 := by
  unfold RocksDbShardMap.applyOp
  cases result : applyShardMapOp store.cache op with
  | error error => exact coherent
  | ok after =>
    have applied := applyShardMapOp_eq_ok_iff.mp result
    obtain ⟨nonempty, installsApart, free, together⟩ := keeps after result
    dsimp only
    split
    · rename_i error written failed
      rw [persistSpaces_of_error together failed]
      exact coherent
    · rename_i written ok
      rw [persistSpaces_of_ok ok]
      refine ⟨coherent.represents.persisted nonempty
        (fun key unaffected => applied.lookup_of_not_affected unaffected) free ?_,
        applied.loadable coherent.loadable installsApart⟩
      intro first firstMember second secondMember sameRow
      rcases applied.replaced_or_dropped with
        ⟨changed, nextRegionId, space, isKey, -⟩ | ⟨db, rp, measurement, rfl, -⟩
      · rw [ShardMapOp.affectedSpaceKeys_of_measurementKey isKey, mem_singleton]
          at firstMember secondMember
        rw [firstMember, secondMember]
      · have stored := (mem_filter.mp firstMember).1
        rw [Std.ExtTreeMap.mem_keys, Std.ExtTreeMap.mem_iff_isSome_getElem?,
          Option.isSome_iff_exists] at stored
        obtain ⟨space, stored⟩ := stored
        exact free second secondMember first space stored sameRow

theorem firstInvalid_eq_none_iff (map : ShardMap) :
    firstInvalid map = none ↔ map.ForallSpaces fun _ space => space.validate = .ok () := by
  unfold firstInvalid ShardMap.ForallSpaces
  rw [findSome?_eq_none_iff]
  constructor
  · intro valid key space stored
    have accepted := valid (key, space) (Std.ExtTreeMap.mem_toList_iff_getElem?_eq_some.mpr stored)
    split at accepted
    · simp at accepted
    · assumption
  · intro valid entry member
    have accepted := valid entry.1 entry.2
      (Std.ExtTreeMap.mem_toList_iff_getElem?_eq_some.mp member)
    rw [accepted]

theorem Coherent.replaceMap (coherent : Coherent codec store) {map : ShardMap} {commits : Bool}
    (keeps : (ShardMapCall.replaceMap map commits).KeepsRows store.cache) :
    Coherent codec (store.replaceMap codec map commits).2 := by
  obtain ⟨allocator, keyed, apart⟩ := keeps
  unfold RocksDbShardMap.replaceMap
  split
  · exact coherent
  rename_i noneInvalid
  split
  · exact coherent
  rename_i distinct
  split
  · exact coherent
  rename_i written ok
  exact ⟨coherent.represents.persistFullMap coherent.loadable.keyed keyed apart ok,
    keyed, (firstInvalid_eq_none_iff map).mp noneInvalid,
    map.validateGlobalRegionIds_eq_ok_iff.mp distinct, allocator⟩

/-- In every state of a run from opening the store whose calls all keep the rows,
the map loaded from the rows is the map in memory. -/
theorem loadMap_eq_cache_of_run {codec : ShardMapCodec β} {db : ShardRows β}
    (own : OwnRows codec db) {commits : Bool}
    (opened : openDb codec db commits = .ok store) {calls : List ShardMapCall}
    (keeps : Along (afterCall codec) (fun store call => call.KeepsRows store.cache) store calls) :
    ∀ earlier, earlier <+: calls → ∀ commits,
      loadMap codec (run (afterCall codec) store earlier).db commits =
      .ok ((run (afterCall codec) store earlier).cache,
        (run (afterCall codec) store earlier).db) := by
  intro earlier isPrefix commits
  obtain ⟨represents, loadable⟩ := own.represents_of_openDb opened
  have coherent : Coherent codec
      (run (afterCall codec) store earlier) := by
    refine run_invariant (fun store call coherent keeps => ?_)
      ⟨represents, loadable⟩ (keeps.of_prefix isPrefix)
    cases call with
    | applyOp op commits => exact coherent.applyOp keeps
    | replaceMap map commits => exact coherent.replaceMap keeps
  exact coherent.represents.loadMap coherent.loadable commits

end Persisting

/-- Rows kept as they are, without an encoding. -/
inductive PlainRow where
  | counters (counters : PersistedShardMapMeta)
  | space (space : MeasurementShardSpace)
  | legacy (map : PersistedShardMap)

def plainCodec : ShardMapCodec PlainRow where
  encodeMeta := .counters
  decodeMeta
    | .counters counters => some counters
    | _ => none
  encodeSpace := .space
  decodeSpace
    | .space space => some space
    | _ => none
  decodeLegacy
    | .legacy map => some map
    | _ => none
  decodeMeta_encodeMeta _ := rfl
  decodeSpace_encodeSpace _ := rfl

def plainStoreAfter (calls : List ShardMapCall) : RocksDbShardMap PlainRow :=
  run (afterCall plainCodec) ⟨∅, ShardMap.default⟩ calls

def committedBootstrap (measurement : String) (regionId : UInt64) : ShardMapCall :=
  .applyOp (.bootstrapMeasurement ⟨"db", "autogen", measurement⟩
    (soleRegion regionId ⟨0, 0⟩)) fun _ => true

theorem committedBootstrap_loadMap_eq_cache :
    (plainStoreAfter [committedBootstrap "cpu" 1]).cache.regionIds = [1] ∧
      loadMap plainCodec (plainStoreAfter [committedBootstrap "cpu" 1]).db true =
        .ok ((plainStoreAfter [committedBootstrap "cpu" 1]).cache,
          (plainStoreAfter [committedBootstrap "cpu" 1]).db) := by
  have own : OwnRows plainCodec ∅ := ⟨by simp, by simp⟩
  have opened : openDb plainCodec ∅ true = .ok ⟨∅, ShardMap.default⟩ := rfl
  have keeps : Along (afterCall plainCodec)
      (fun store call => call.KeepsRows store.cache) ⟨∅, ShardMap.default⟩
      [committedBootstrap "cpu" 1] := by
    refine ⟨fun after accepted => ⟨by decide, trivial, ?_, fun _ _ _ => rfl⟩, trivial⟩
    intro key member other space stored
    simp [ShardMap.default] at stored
  exact ⟨by decide +kernel, loadMap_eq_cache_of_run own opened keeps _ prefix_rfl true⟩

/-- A merge that stores its result under the identifier of another measurement. -/
def clashingMergeCalls : List ShardMapCall :=
  [.applyOp (.bootstrapMeasurementPresplit sampleKey
      [{ soleRegion 1 ⟨0, 0⟩ with end_ := 100 },
        { soleRegion 2 ⟨0, 0⟩ with start := 100 }]) fun _ => true,
    committedBootstrap "mem" 3,
    .applyOp (.merge sampleKey 1 2 ⟨0, 0⟩ none (soleRegion 3 ⟨0, 1⟩)) fun _ => true]

/-- A drop of two spaces whose second write fails, then a further bootstrap. -/
def interruptedDropCalls : List ShardMapCall :=
  [committedBootstrap "cpu" 1, committedBootstrap "mem" 2,
    .applyOp (.dropSpace "db" none none) fun n => n == 0,
    committedBootstrap "disk" 3]

/-- A drop that matches nothing advances the version in memory only, a merge that
takes an identifier of another measurement leaves rows that do not load, and a drop
cut short by a failing write loses a space on disk that stays in memory. -/
theorem rows_diverge_from_cache :
    (plainStoreAfter [.applyOp (.dropSpace "db" none none) fun _ => true]).cache.mapVersion
      = 1 ∧ (loadMap plainCodec (plainStoreAfter
      [.applyOp (.dropSpace "db" none none) fun _ => true]).db true).map (·.1.mapVersion) =
        .ok 0 ∧ (plainStoreAfter clashingMergeCalls).cache.regionIds = [3, 3] ∧
    (loadMap plainCodec (plainStoreAfter clashingMergeCalls).db true).map (·.1.regionIds) =
      .error (.invalid "duplicate region_id 3") ∧
    (plainStoreAfter interruptedDropCalls).cache.regionIds = [1, 3, 2] ∧
    (loadMap plainCodec (plainStoreAfter interruptedDropCalls).db true).map
      (·.1.regionIds) = .ok [3, 2] := by
  decide +kernel

section RowKeys

open SeparatedTexts

theorem eq_of_spaceKey_eq {key other : MeasurementKey} (dbFree : unitSeparator ∉ key.db.toList)
    (rpFree : unitSeparator ∉ key.rp.toList)
    (measurementFree : unitSeparator ∉ key.measurement.toList)
    (same : spaceKey other = spaceKey key) : other = key := by
  have texts := append_cancel_left same
  -- The other names have no separators left over.
  have counts := congrArg (count unitSeparator) texts
  simp only [count_append, count_cons_self, count_eq_zero_of_not_mem dbFree,
    count_eq_zero_of_not_mem rpFree, count_eq_zero_of_not_mem measurementFree] at counts
  have otherDbFree : unitSeparator ∉ other.db.toList := count_eq_zero.mp (by omega)
  have otherRpFree : unitSeparator ∉ other.rp.toList := count_eq_zero.mp (by omega)
  obtain ⟨sameDb, texts⟩ := (append_cons_inj otherDbFree dbFree).mp texts
  obtain ⟨sameRp, sameMeasurement⟩ := (append_cons_inj otherRpFree rpFree).mp texts
  rw [String.toList_inj] at sameDb sameRp sameMeasurement
  cases other
  simp_all

/-- The row of a space is that of no other space, and stays as it is when another space is
persisted, exactly if no name of the space has the separator. -/
theorem row_unshared_iff {β : Type} (codec : ShardMapCodec β) (key : MeasurementKey) :
    ((∀ other, spaceKey other = spaceKey key → other = key) ∧
      ∀ other, other ≠ key → ∀ db map commits after,
        persistSpace codec db map other commits = .ok after →
        after[spaceKey key]? = db[spaceKey key]?) ↔
    unitSeparator ∉ key.db.toList ∧ unitSeparator ∉ key.rp.toList ∧
      unitSeparator ∉ key.measurement.toList := by
  constructor
  · rintro ⟨own, -⟩
    obtain ⟨db, rp, measurement⟩ := key
    refine ⟨fun inDb => ?_, fun inRp => ?_, fun inMeasurement => ?_⟩
    · obtain ⟨before, behind, same⟩ := append_of_mem inDb
      have other := own ⟨String.ofList before, String.ofList behind,
        String.ofList (rp.toList ++ unitSeparator :: measurement.toList)⟩ (by simp [spaceKey, same])
      simp_all [← String.toList_inj]
    · obtain ⟨before, behind, same⟩ := append_of_mem inRp
      have other := own ⟨db, String.ofList before,
        String.ofList (behind ++ unitSeparator :: measurement.toList)⟩ (by simp [spaceKey, same])
      simp_all [← String.toList_inj]
    · obtain ⟨before, behind, same⟩ := append_of_mem inMeasurement
      have other := own ⟨String.ofList (db.toList ++ unitSeparator :: rp.toList),
        String.ofList before, String.ofList behind⟩ (by simp [spaceKey, same])
      simp_all [← String.toList_inj]
  · rintro ⟨dbFree, rpFree, measurementFree⟩
    have own := fun other => @eq_of_spaceKey_eq key other dbFree rpFree measurementFree
    refine ⟨own, fun other different db map commits after persisted => ?_⟩
    unfold persistSpace at persisted
    split at persisted
    · cases persisted
      rw [write_cons, write_cons, write_nil, lookup_spaceEntry,
        if_neg fun same => different (own other same), metaEntry, lookup_put,
        if_neg (spaceKey_ne_metaKey _).symm]
    · cases persisted

/-- Persisting a space that is not in the map deletes the row of another one. -/
theorem separator_in_database_shares_row :
    let key : MeasurementKey := ⟨"a\x1fb", "c", "m"⟩
    let db : ShardRows PlainRow := write ∅ [.put (spaceKey key) (.space ⟨key, []⟩)]
    db[spaceKey key]?.isSome = true ∧
      (persistSpace plainCodec db ShardMap.default ⟨"a", "b\x1fc", "m"⟩ true).map
        (·[spaceKey key]?.isSome) = .ok false := by
  decide +kernel

end RowKeys

end HyperbyteDb
