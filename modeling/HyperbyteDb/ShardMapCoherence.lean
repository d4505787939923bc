import HyperbyteDb.OrderedRows
import HyperbyteDb.ShardRegionIdentity

/-!
# The persisted rows describe the map in memory

A store represents a map when its counters row holds the map's counters and its space rows are
exactly the map's spaces, each under its own name.
-/

namespace HyperbyteDb

open List OrderedRows

/-- Row keys by their characters; UTF-8 keeps their order and their prefixes. -/
abbrev ShardRows (β : Type) := Rows (List Char) β

/-- Whole-map row of older versions, read during migration. -/
def legacyShardMapKey : List Char := "shardmap:global".toList

def metaKey : List Char := "shardmap:meta".toList

def spacePrefix : List Char := "shardmap:space:".toList

def unitSeparator : Char := Char.ofNat 31

def spaceKey (key : MeasurementKey) : List Char :=
  spacePrefix ++ (key.db.toList ++ unitSeparator :: (key.rp.toList ++
    unitSeparator :: key.measurement.toList))

structure PersistedShardMapMeta where
  mapVersion : UInt64
  nextRegionId : UInt64
deriving DecidableEq

/-- Whole-map envelope of older versions. -/
structure PersistedShardMap where
  mapVersion : UInt64
  nextRegionId : UInt64
  spaces : List MeasurementShardSpace

/-- The JSON encoding of the rows.  What it writes it reads back. -/
structure ShardMapCodec (β : Type) where
  encodeMeta : PersistedShardMapMeta → β
  decodeMeta : β → Option PersistedShardMapMeta
  encodeSpace : MeasurementShardSpace → β
  decodeSpace : β → Option MeasurementShardSpace
  decodeLegacy : β → Option PersistedShardMap
  decodeMeta_encodeMeta : ∀ counters, decodeMeta (encodeMeta counters) = some counters
  decodeSpace_encodeSpace : ∀ space, decodeSpace (encodeSpace space) = some space

inductive ShardStoreError where
  | storage
  | corrupt (context : String)
  | invalid (message : String)
  | apply (error : ShardMapApplyError)
deriving DecidableEq, Repr

section Loading

variable {β : Type} (codec : ShardMapCodec β)

def defaultNextRegionId : UInt64 := 1

variable (db : ShardRows β)

def loadMeta : Except ShardStoreError PersistedShardMapMeta :=
  match db[metaKey]? with
  | some bytes =>
    match codec.decodeMeta bytes with
    | some counters => .ok counters
    | none => .error (.corrupt "shard map meta corrupt")
  | none => .ok ⟨0, defaultNextRegionId⟩

def decodeSpaces : List (List Char × β) → Except ShardStoreError (List MeasurementShardSpace)
  | [] => .ok []
  | (_, bytes) :: rows =>
    match codec.decodeSpace bytes with
    | none => .error (.corrupt "shard space corrupt")
    | some space =>
      match decodeSpaces rows with
      | .error error => .error error
      | .ok spaces => .ok (space :: spaces)

def loadSpaces : Except ShardStoreError (List MeasurementShardSpace) :=
  decodeSpaces codec (scanPrefix spacePrefix db)

/-- One above the largest identifier of the map, or 1. -/
def recomputedNextRegionId (map : ShardMap) : UInt64 :=
  match map.regionIds.max? with
  | some top => top.saturatingAdd 1
  | none => 1

def withNextRegionId (map : ShardMap) : ShardMap :=
  if map.nextRegionId = 0 then
    { map with nextRegionId := recomputedNextRegionId map }
  else
    map

def PersistedShardMap.intoShardMap (legacy : PersistedShardMap) : ShardMap :=
  withNextRegionId
    { mapVersion := legacy.mapVersion
      nextRegionId := legacy.nextRegionId
      spaces := legacy.spaces.foldl (fun spaces space => spaces.insert space.key space) ∅ }

def metaEntry (map : ShardMap) : BatchEntry (List Char) β :=
  .put metaKey (codec.encodeMeta ⟨map.mapVersion, map.nextRegionId⟩)

def spaceRows (map : ShardMap) : List (List Char × β) :=
  map.spaces.toList.map fun entry => (spaceKey entry.2.key, codec.encodeSpace entry.2)

/-- Returns the store and whether a migration was performed. -/
def migrateLegacyIfPresent (commits : Bool) : Except ShardStoreError (Bool × ShardRows β) :=
  match db[legacyShardMapKey]? with
  | none => .ok (false, db)
  | some bytes =>
    match codec.decodeLegacy bytes with
    | none => .error (.corrupt "legacy shard map corrupt")
    | some legacy =>
      let map := legacy.intoShardMap
      if commits then
        .ok (true, write db (metaEntry codec map ::
          ((spaceRows codec map).map (fun row => .put row.1 row.2) ++
            [.delete legacyShardMapKey])))
      else
        .error .storage

def assembleSpaces (spaces : Std.ExtTreeMap MeasurementKey MeasurementShardSpace) :
    List MeasurementShardSpace →
      Except ShardStoreError (Std.ExtTreeMap MeasurementKey MeasurementShardSpace)
  | [] => .ok spaces
  | space :: rest =>
    match space.validate with
    | .error message => .error (.invalid message)
    | .ok () => assembleSpaces (spaces.insert space.key space) rest

def assembleMap : Except ShardStoreError ShardMap :=
  match loadMeta codec db with
  | .error error => .error error
  | .ok counters =>
    match loadSpaces codec db with
    | .error error => .error error
    | .ok rows =>
      match assembleSpaces ∅ rows with
      | .error error => .error error
      | .ok spaces =>
        let map := withNextRegionId
          { mapVersion := counters.mapVersion
            nextRegionId := counters.nextRegionId
            spaces := spaces }
        match map.validateGlobalRegionIds with
        | .error message => .error (.invalid message)
        | .ok () => .ok map

/-- The map read from the store, and the store after a migration. -/
def loadMap (commits : Bool) : Except ShardStoreError (ShardMap × ShardRows β) :=
  match migrateLegacyIfPresent codec db commits with
  | .error error => .error error
  | .ok (_, migrated) =>
    match assembleMap codec migrated with
    | .error error => .error error
    | .ok map => .ok (map, migrated)

end Loading

section Persisting

variable {β : Type} (codec : ShardMapCodec β)

def persistFullMap (db : ShardRows β) (map : ShardMap) (commits : Bool) :
    Except ShardStoreError (ShardRows β) :=
  match loadSpaces codec db with
  | .error error => .error error
  | .ok existing =>
    let removed := existing.filter fun space => !map.spaces.contains space.key
    if commits then
      .ok (write db (metaEntry codec map ::
        ((removed.map fun space => spaceKey space.key).map .delete ++
          (spaceRows codec map).map fun row => .put row.1 row.2)))
    else
      .error .storage

def spaceEntry (map : ShardMap) (changed : MeasurementKey) : BatchEntry (List Char) β :=
  match map.space changed with
  | some space => .put (spaceKey changed) (codec.encodeSpace space)
  | none => .delete (spaceKey changed)

/-- Persist the counters and the one space an operation touched in one batch. -/
def persistSpace (db : ShardRows β) (map : ShardMap) (changed : MeasurementKey)
    (commits : Bool) : Except ShardStoreError (ShardRows β) :=
  if commits then
    .ok (write db [metaEntry codec map, spaceEntry codec map changed])
  else
    .error .storage

/-- Persist the affected spaces one after the other until a write fails.
`commits n` is the store's answer to the `n`-th write. -/
def persistSpaces (map : ShardMap) (commits : Nat → Bool) :
    Nat → ShardRows β → List MeasurementKey → Except ShardStoreError Unit × ShardRows β
  | _, db, [] => (.ok (), db)
  | n, db, key :: keys =>
    match persistSpace codec db map key (commits n) with
    | .error error => (.error error, db)
    | .ok written => persistSpaces map commits (n + 1) written keys

/-- The store together with the map kept in memory. -/
structure RocksDbShardMap (β : Type) where
  db : ShardRows β
  cache : ShardMap

namespace RocksDbShardMap

def openDb (db : ShardRows β) (commits : Bool) : Except ShardStoreError (RocksDbShardMap β) :=
  match loadMap codec db commits with
  | .error error => .error error
  | .ok (map, migrated) => .ok ⟨migrated, map⟩

def applyOp (store : RocksDbShardMap β) (op : ShardMapOp) (commits : Nat → Bool) :
    Except ShardStoreError ShardMap × RocksDbShardMap β :=
  let changed := op.affectedSpaceKeys store.cache
  match applyShardMapOp store.cache op with
  | .error error => (.error (.apply error), store)
  | .ok map =>
    match persistSpaces codec map commits 0 store.db changed with
    | (.error error, db) => (.error error, { store with db := db })
    | (.ok (), db) => (.ok map, ⟨db, map⟩)

def firstInvalid (map : ShardMap) : Option String :=
  map.spaces.toList.findSome? fun entry =>
    match entry.2.validate with
    | .error message => some message
    | .ok () => none

def replaceMap (store : RocksDbShardMap β) (map : ShardMap) (commits : Bool) :
    Except ShardStoreError Unit × RocksDbShardMap β :=
  match firstInvalid map with
  | some message => (.error (.invalid message), store)
  | none =>
    match map.validateGlobalRegionIds with
    | .error message => (.error (.invalid message), store)
    | .ok () =>
      match persistFullMap codec store.db map commits with
      | .error error => (.error error, store)
      | .ok db => (.ok (), ⟨db, map⟩)

end RocksDbShardMap

/-- A call on the persisted map, with the store's answers to its writes. -/
inductive ShardMapCall where
  | applyOp (op : ShardMapOp) (commits : Nat → Bool)
  | replaceMap (map : ShardMap) (commits : Bool)

/-- The state after a call, whether or not it succeeded. -/
def RocksDbShardMap.afterCall (store : RocksDbShardMap β) : ShardMapCall → RocksDbShardMap β
  | .applyOp op commits => (store.applyOp codec op commits).2
  | .replaceMap map commits => (store.replaceMap codec map commits).2

end Persisting

/-! ## The persisted rows describe the map in memory -/

theorem spacePrefix_prefix_spaceKey (key : MeasurementKey) : spacePrefix <+: spaceKey key :=
  prefix_append _ _

theorem not_spacePrefix_prefix_metaKey : ¬spacePrefix <+: metaKey := by
  decide

theorem not_spacePrefix_prefix_legacyShardMapKey : ¬spacePrefix <+: legacyShardMapKey := by
  decide

section Loading

variable {β : Type} {codec : ShardMapCodec β}

variable {map : ShardMap} {db : ShardRows β} {spaces : List MeasurementShardSpace}

/-- Decoding a list of rows reads each of them. -/
theorem decodeSpaces_eq_ok_iff {rows : List (List Char × β)} :
    decodeSpaces codec rows = .ok spaces ↔
      rows.map (fun row => codec.decodeSpace row.2) = spaces.map some := by
  fun_induction decodeSpaces generalizing spaces with
  | case1 => cases spaces <;> simp
  | case2 name bytes rows undecoded => cases spaces <;> simp [undecoded]
  | case3 name bytes rows space decoded error rest ih
  | case4 name bytes rows space decoded loaded rest ih =>
    rw [rest] at ih
    cases spaces <;> simp [decoded, ← ih]

variable {space : MeasurementShardSpace}

theorem mem_of_loadSpaces (loaded : loadSpaces codec db = .ok spaces) :
    space ∈ spaces ↔ ∃ row value, spacePrefix <+: row ∧ db[row]? = some value ∧
      codec.decodeSpace value = some space := by
  have decoded := decodeSpaces_eq_ok_iff.mp loaded
  have member : space ∈ spaces ↔ some space ∈ spaces.map some := by simp
  rw [member, ← decoded, mem_map]
  simp only [Prod.exists, mem_scanPrefix_iff, and_assoc]

theorem loadSpaces_of_decodable
    (decodable : ∀ row value, spacePrefix <+: row → db[row]? = some value →
      ∃ space, codec.decodeSpace value = some space) :
    ∃ spaces, loadSpaces codec db = .ok spaces := by
  have each : ∀ row ∈ scanPrefix spacePrefix db,
      ∃ space, codec.decodeSpace row.2 = some space := fun row member =>
    have isRow := mem_scanPrefix_iff.mp member
    decodable row.1 row.2 isRow.1 isRow.2
  unfold loadSpaces
  generalize scanPrefix spacePrefix db = rows at each
  induction rows with
  | nil => exact ⟨[], rfl⟩
  | cons row rows ih =>
    obtain ⟨space, decoded⟩ := each row mem_cons_self
    obtain ⟨spaces, rest⟩ := ih fun row member =>
      each row (mem_cons_of_mem _ member)
    exact ⟨space :: spaces, by simp [decodeSpaces, decoded, rest]⟩

variable {rows : List MeasurementShardSpace}

/-- Assembling succeeds exactly when every space validates, and then inserts them
one after the other. -/
theorem assembleSpaces_eq_ok_iff {spaces result : Rows MeasurementKey MeasurementShardSpace} :
    assembleSpaces spaces rows = .ok result ↔ (∀ space ∈ rows, space.validate = .ok ()) ∧
      result = write spaces
        ((rows.map fun space => (space.key, space)).map fun row => .put row.1 row.2) := by
  induction rows generalizing spaces with
  | nil => simp [assembleSpaces, eq_comm]
  | cons space rows ih =>
    rw [assembleSpaces]
    cases valid : space.validate with
    | error message => simp [valid]
    | ok accepted => simp [valid, ih, applyEntry]

/-- The rows of the store are exactly the encoding of the map. -/
structure Represents (codec : ShardMapCodec β) (db : ShardRows β) (map : ShardMap) : Prop where
  noLegacy : db[legacyShardMapKey]? = none
  counters : loadMeta codec db = .ok ⟨map.mapVersion, map.nextRegionId⟩
  stored : ∀ (key : MeasurementKey) (space : MeasurementShardSpace),
    map.spaces[key]? = some space → ∃ value, db[spaceKey key]? = some value ∧
      codec.decodeSpace value = some space
  onlyStored : ∀ row value, spacePrefix <+: row → db[row]? = some value →
    ∃ (key : MeasurementKey) (space : MeasurementShardSpace),
      map.spaces[key]? = some space ∧ row = spaceKey key ∧
      codec.decodeSpace value = some space

/-- The map passes every check made when it is loaded. -/
structure Loadable (map : ShardMap) : Prop where
  keyed : map.ForallSpaces fun key space => space.key = key
  validates : map.ForallSpaces fun _ space => space.validate = .ok ()
  distinct : map.regionIds.Nodup
  allocator : map.nextRegionId ≠ 0

theorem Represents.mem_loadSpaces (represents : Represents codec db map)
    (loaded : loadSpaces codec db = .ok spaces) :
    space ∈ spaces ↔ ∃ key : MeasurementKey, map.spaces[key]? = some space := by
  rw [mem_of_loadSpaces loaded]
  constructor
  · rintro ⟨row, value, isSpace, lookup, decoded⟩
    obtain ⟨key, other, stored, -, otherDecoded⟩ :=
      represents.onlyStored row value isSpace lookup
    obtain rfl : other = space := Option.some.inj (otherDecoded.symm.trans decoded)
    exact ⟨key, stored⟩
  · rintro ⟨key, stored⟩
    obtain ⟨value, lookup, decoded⟩ := represents.stored key space stored
    exact ⟨spaceKey key, value, spacePrefix_prefix_spaceKey key, lookup, decoded⟩

theorem Represents.loadSpaces (represents : Represents codec db map) :
    ∃ spaces, HyperbyteDb.loadSpaces codec db = .ok spaces := by
  refine loadSpaces_of_decodable fun row value isSpace lookup => ?_
  obtain ⟨-, space, -, -, decoded⟩ := represents.onlyStored row value isSpace lookup
  exact ⟨space, decoded⟩

/-- Inserting spaces with pairwise different names yields the map with exactly
these spaces. -/
theorem lookup_write_spaces (functional : ∀ first ∈ rows, ∀ second ∈ rows, first.key = second.key →
      first = second) (key : MeasurementKey) (space : MeasurementShardSpace) :
    (write (∅ : Rows MeasurementKey MeasurementShardSpace)
        ((rows.map fun space => (space.key, space)).map fun row =>
          .put row.1 row.2))[key]? = some space ↔
      space ∈ rows ∧ space.key = key := by
  have entriesFunctional : ∀ first ∈ rows.map fun space => (space.key, space),
      ∀ second ∈ rows.map fun space => (space.key, space), first.1 = second.1 →
      first.2 = second.2 := by
    simp only [mem_map]
    rintro _ ⟨first, firstMember, rfl⟩ _ ⟨second, secondMember, rfl⟩
    exact functional first firstMember second secondMember
  constructor
  · intro lookup
    by_cases present : ∃ other ∈ rows, other.key = key
    · obtain ⟨other, member, rfl⟩ := present
      have stored := lookup_write_puts_of_mem
        (∅ : Rows MeasurementKey MeasurementShardSpace) entriesFunctional
        (mem_map.mpr ⟨other, member, rfl⟩)
      obtain rfl : other = space := Option.some.inj (stored.symm.trans lookup)
      exact ⟨member, rfl⟩
    · rw [lookup_write_puts_of_not_mem] at lookup
      · simp at lookup
      · simp only [mem_map]
        rintro _ ⟨other, member, rfl⟩ same
        exact present ⟨other, member, same⟩
  · rintro ⟨member, rfl⟩
    exact lookup_write_puts_of_mem (∅ : Rows MeasurementKey MeasurementShardSpace)
      entriesFunctional (mem_map.mpr ⟨space, member, rfl⟩)

theorem Represents.loadMap (represents : Represents codec db map) (loadable : Loadable map)
    (commits : Bool) : HyperbyteDb.loadMap codec db commits = .ok (map, db) := by
  obtain ⟨rows, loaded⟩ := represents.loadSpaces
  have member (space : MeasurementShardSpace) :
      space ∈ rows ↔ ∃ key : MeasurementKey, map.spaces[key]? = some space :=
    represents.mem_loadSpaces loaded
  have assembled : assembleSpaces ∅ rows = .ok map.spaces := by
    refine assembleSpaces_eq_ok_iff.mpr ⟨fun space inRows => ?_, ?_⟩
    · obtain ⟨key, stored⟩ := (member space).mp inRows
      exact loadable.validates key space stored
    · refine Std.ExtTreeMap.ext_getElem? fun key => Option.ext fun space => ?_
      rw [lookup_write_spaces]
      · rw [member]
        constructor
        · exact fun stored => ⟨⟨key, stored⟩, loadable.keyed key space stored⟩
        · rintro ⟨⟨other, stored⟩, keyEq⟩
          rw [← keyEq, loadable.keyed other space stored]
          exact stored
      · intro first firstMember second secondMember sameKey
        obtain ⟨firstKey, firstStored⟩ := (member first).mp firstMember
        obtain ⟨secondKey, secondStored⟩ := (member second).mp secondMember
        rw [loadable.keyed _ _ firstStored, loadable.keyed _ _ secondStored] at sameKey
        subst sameKey
        exact Option.some.inj (firstStored.symm.trans secondStored)
  have checked := map.validateGlobalRegionIds_eq_ok_iff.mpr loadable.distinct
  have assembledMap : assembleMap codec db = .ok map := by
    simp [assembleMap, represents.counters, loaded, assembled, withNextRegionId,
      loadable.allocator, checked]
  simp [HyperbyteDb.loadMap, migrateLegacyIfPresent, represents.noLegacy, assembledMap]

/-- Rows this code writes: every space row decodes and lies under the name of its
space, and stored counters have an allocator. -/
structure OwnRows (codec : ShardMapCodec β) (db : ShardRows β) : Prop where
  spaces : ∀ row value, spacePrefix <+: row → db[row]? = some value →
    ∃ space, codec.decodeSpace value = some space ∧ row = spaceKey space.key
  counters : ∀ value, db[metaKey]? = some value →
    ∃ counters, codec.decodeMeta value = some counters ∧ counters.nextRegionId ≠ 0

theorem withNextRegionId_ne_zero : (withNextRegionId map).nextRegionId ≠ 0 := by
  fun_cases withNextRegionId with
  | case1 =>
    dsimp only
    fun_cases recomputedNextRegionId with
    | case1 top =>
      intro zero
      have positive : top.saturatingAdd 1 ≤ 0 := le_of_eq zero
      have topZero : top = 0 :=
        le_antisymm (le_trans (UInt64.le_saturatingAdd_one top) positive) UInt64.zero_le
      rw [topZero] at zero
      exact absurd zero (by decide)
    | case2 => decide
  | case2 some => exact some

theorem OwnRows.nextRegionId_ne_zero (own : OwnRows codec db) {counters : PersistedShardMapMeta}
    (loaded : loadMeta codec db = .ok counters) : counters.nextRegionId ≠ 0 := by
  revert loaded
  fun_cases loadMeta with
  | case1 value lookup stored decoded =>
    rintro ⟨⟩
    obtain ⟨again, sameDecoded, nonzero⟩ := own.counters value lookup
    cases decoded.symm.trans sameDecoded
    exact nonzero
  | case2 => rintro ⟨⟩
  | case3 =>
    rintro ⟨⟩
    decide

theorem OwnRows.represents_of_assembleMap (own : OwnRows codec db)
    (noLegacy : db[legacyShardMapKey]? = none) (assembled : assembleMap codec db = .ok map) :
    Represents codec db map ∧ Loadable map := by
  revert assembled
  fun_cases assembleMap with
  | case5 counters countersEq rows loaded spaces spacesEq read checked =>
    intro assembled
    rw [Except.ok.inj assembled] at checked
    obtain ⟨validates, rfl⟩ := assembleSpaces_eq_ok_iff.mp spacesEq
    obtain rfl := (if_neg (own.nextRegionId_ne_zero countersEq)).symm.trans
      (Except.ok.inj assembled)
    have fromRow (space : MeasurementShardSpace) (member : space ∈ rows) :
        ∃ value, db[spaceKey space.key]? = some value ∧ codec.decodeSpace value = some space := by
      obtain ⟨row, value, isSpace, lookup, decoded⟩ := (mem_of_loadSpaces loaded).mp member
      obtain ⟨other, otherDecoded, rfl⟩ := own.spaces row value isSpace lookup
      obtain rfl : other = space := Option.some.inj (otherDecoded.symm.trans decoded)
      exact ⟨value, lookup, decoded⟩
    have functional : ∀ first ∈ rows, ∀ second ∈ rows, first.key = second.key →
        first = second := by
      intro first firstMember second secondMember sameKey
      obtain ⟨firstValue, firstLookup, firstDecoded⟩ := fromRow first firstMember
      obtain ⟨secondValue, secondLookup, secondDecoded⟩ := fromRow second secondMember
      rw [sameKey, secondLookup] at firstLookup
      obtain rfl := Option.some.inj firstLookup
      exact Option.some.inj (firstDecoded.symm.trans secondDecoded)
    have lookups := lookup_write_spaces functional
    refine ⟨⟨noLegacy, countersEq, fun key space stored => ?_,
      fun row value isSpace lookup => ?_⟩, fun key space stored => ?_,
      fun key space stored => ?_, ?_, own.nextRegionId_ne_zero countersEq⟩
    · obtain ⟨member, rfl⟩ := (lookups key space).mp stored
      exact fromRow space member
    · obtain ⟨space, decoded, rowEq⟩ := own.spaces row value isSpace lookup
      have member := (mem_of_loadSpaces loaded).mpr ⟨row, value, isSpace, lookup, decoded⟩
      exact ⟨space.key, space, (lookups space.key space).mpr ⟨member, rfl⟩, rowEq, decoded⟩
    · exact ((lookups key space).mp stored).2
    · exact validates space ((lookups key space).mp stored).1
    · exact (ShardMap.validateGlobalRegionIds_eq_ok_iff _).mp checked
  | _ => rintro ⟨⟩

/-- The rows a whole-map batch puts lie under the names of the map's spaces. -/
theorem mem_spaceRows_iff {row : List Char × β} :
    row ∈ spaceRows codec map ↔ ∃ (key : MeasurementKey) (space : MeasurementShardSpace),
      map.spaces[key]? = some space ∧ row = (spaceKey space.key, codec.encodeSpace space) := by
  simp only [spaceRows, mem_map, Prod.exists,
    Std.ExtTreeMap.mem_toList_iff_getElem?_eq_some, eq_comm]

theorem spaceRows_ne {key : List Char} (notSpace : ¬spacePrefix <+: key)
    : ∀ row ∈ spaceRows codec map, row.1 ≠ key := by
  intro row member same
  obtain ⟨-, space, -, rfl⟩ := mem_spaceRows_iff.mp member
  exact notSpace (same ▸ spacePrefix_prefix_spaceKey space.key)

/-- Migrating a whole-map row leaves own rows without it. -/
theorem OwnRows.migrate {db migrated : ShardRows β} (own : OwnRows codec db)
    {commits performed : Bool}
    (migration : migrateLegacyIfPresent codec db commits = .ok (performed, migrated)) :
    OwnRows codec migrated ∧ migrated[legacyShardMapKey]? = none := by
  revert migration
  fun_cases migrateLegacyIfPresent with
  | case1 noLegacy =>
    rintro ⟨⟩
    exact ⟨own, noLegacy⟩
  | case3 bytes found legacy decoded map =>
    rintro ⟨⟩
    rw [write_cons, write_append, write_cons, write_nil]
    refine ⟨⟨fun row value isSpace found => ?_, fun value found => ?_⟩, by simp⟩
    · have notLegacy : legacyShardMapKey ≠ row := fun same =>
        not_spacePrefix_prefix_legacyShardMapKey (same ▸ isSpace)
      have notMeta : metaKey ≠ row := fun same =>
        not_spacePrefix_prefix_metaKey (same ▸ isSpace)
      rw [lookup_delete, if_neg notLegacy] at found
      rcases mem_or_of_lookup_write_puts found with written | ⟨-, earlier⟩
      · obtain ⟨-, space, -, rowEq⟩ := mem_spaceRows_iff.mp written
        obtain ⟨rfl, rfl⟩ := Prod.mk.inj rowEq
        exact ⟨space, codec.decodeSpace_encodeSpace space, rfl⟩
      · rw [metaEntry, lookup_put, if_neg notMeta] at earlier
        exact own.spaces row value isSpace earlier
    · rw [lookup_delete, lookup_write_puts_of_not_mem _ (spaceRows_ne not_spacePrefix_prefix_metaKey),
        metaEntry, lookup_put] at found
      obtain rfl := Option.some.inj found
      exact ⟨_, codec.decodeMeta_encodeMeta _, withNextRegionId_ne_zero⟩
  | _ => rintro ⟨⟩

theorem OwnRows.represents_of_openDb (own : OwnRows codec db) {commits : Bool}
    {store : RocksDbShardMap β} (opened : RocksDbShardMap.openDb codec db commits = .ok store) :
    Represents codec store.db store.cache ∧ Loadable store.cache := by
  unfold RocksDbShardMap.openDb HyperbyteDb.loadMap at opened
  cases migration : migrateLegacyIfPresent codec db commits with
  | error error => simp [migration] at opened
  | ok result =>
    cases assembled : assembleMap codec result.2 with
    | error error => simp [migration, assembled] at opened
    | ok map =>
      obtain rfl : RocksDbShardMap.mk result.2 map = store := by
        simpa [migration, assembled] using opened
      obtain ⟨ownMigrated, noLegacy⟩ := own.migrate migration
      exact ownMigrated.represents_of_assembleMap noLegacy assembled

end Loading

end HyperbyteDb
