import HyperbyteDb.SchemaCacheTransparency

/-!
# What a drop leaves behind

A dropped name should answer every query like a name that was never used, before and after
it is created again, and no other name should answer differently.  Dropping a measurement
leaves its tag values and tombstones, and takes the series of measurements of the same name
in other retention policies.  Dropping a database leaves its tombstones and continuous
queries.  A drop is clean exactly if there is nothing of this.
-/

namespace HyperbyteDb

open CheckLoops MetadataStore

theorem MetadataStore.measurements_storeMeasurement {first second : MetadataStore}
    (same : first.measurements = second.measurements) (db rp : String)
    (update : String × MeasurementMeta) : (first.storeMeasurement db rp update).measurements =
      (second.storeMeasurement db rp update).measurements := by
  have found : first.getMeasurement db rp update.1 = second.getMeasurement db rp update.1 := by
    rw [getMeasurement, getMeasurement, same]
  have merged : first.mergedMeasurement db rp update = second.mergedMeasurement db rp update := by
    rw [mergedMeasurement, mergedMeasurement, found]
  unfold storeMeasurement
  rw [found, merged]
  dsimp only
  split
  · exact same
  · rw [same]

namespace NodeMetadata

variable {first second : NodeMetadata} {db rp : String}

structure Alike (first second : NodeMetadata) : Prop where
  measurements : first.store.measurements = second.store.measurements
  tagValues : ∀ key tagKey,
    first.store.tagValuesAt key tagKey = second.store.tagValuesAt key tagKey
  series : ∀ key, first.seriesAt key = second.seriesAt key
  tagCaches : first.tagCaches = second.tagCaches

namespace Alike

variable (alike : Alike first second)
include alike

theorem countTagValues (key : MeasurementKey) (tagKey : String) :
    first.countTagValues key tagKey = second.countTagValues key tagKey := by
  rw [NodeMetadata.countTagValues, NodeMetadata.countTagValues, alike.tagCaches, alike.tagValues]

/-! ## Registration -/

theorem registerSeriesBatch (hashes : IngestHashes) (db rp : String) (points : List Point) :
    Alike (first.registerSeriesBatch hashes db rp points)
      (second.registerSeriesBatch hashes db rp points) := by
  induction points generalizing first second with
  | nil => exact alike
  | cons point points ih =>
    apply ih
    refine ⟨alike.measurements, alike.tagValues, fun key => ?_, alike.tagCaches⟩
    rw [seriesAt_registerSeries, seriesAt_registerSeries, alike.series]

theorem storeTagValue (key : MeasurementKey) (tag : String × String) :
    Alike (first.storeTagValue key tag) (second.storeTagValue key tag) := by
  unfold NodeMetadata.storeTagValue tagValueIsKnown
  rw [alike.tagCaches, alike.tagValues]
  split
  · exact alike
  · split
    · exact ⟨alike.measurements, alike.tagValues, alike.series, rfl⟩
    · refine ⟨alike.measurements, fun otherKey otherTag => ?_, alike.series, rfl⟩
      rw [tagValuesAt_storeTagValue, tagValuesAt_storeTagValue, alike.tagValues, alike.tagValues]

theorem storeTagValues (tags : List (MeasurementKey × String × String)) :
    Alike (first.storeTagValues tags) (second.storeTagValues tags) := by
  induction tags generalizing first second with
  | nil => exact alike
  | cons tag tags ih => exact ih (alike.storeTagValue tag.1 tag.2)

theorem storeMeasurements (db rp : String) (updates : List (String × MeasurementMeta)) :
    Alike (first.storeMeasurements db rp updates) (second.storeMeasurements db rp updates) := by
  refine ⟨?_, fun key tagKey => ?_, alike.series, alike.tagCaches⟩
  · exact List.foldl_rel (r := fun first second : MetadataStore =>
        first.measurements = second.measurements)
      alike.measurements fun update _ _ _ same =>
        measurements_storeMeasurement same db rp update
  · have rows : ∀ node : NodeMetadata,
        (node.storeMeasurements db rp updates).store.tagValuesAt key tagKey =
          node.store.tagValuesAt key tagKey := by
      intro node
      unfold tagValuesAt listTagValues NodeMetadata.storeMeasurements
      rw [tagValues_foldl_storeMeasurement]
    rw [rows, rows, alike.tagValues]

theorem registerBatch (db rp : String) (schemas : Std.ExtTreeMap String BatchSchema)
    (points : List Point) :
    Alike (first.registerBatch db rp schemas points)
      (second.registerBatch db rp schemas points) := by
  have updates : first.store.measurementUpdates db rp schemas =
      second.store.measurementUpdates db rp schemas := by
    simp only [measurementUpdates, mergedFieldTypes,
      mergedTagKeys, getMeasurement, alike.measurements]
  unfold NodeMetadata.registerBatch registerMetadataBatch
  rw [updates]
  exact (alike.storeMeasurements db rp _).storeTagValues _

/-! ## Checks -/

variable (limits : CardinalityLimitValues)

theorem checkTagKey (db rp : String) (points : List Point) (measurement tagKey : String) :
    (checkTagKey limits db rp points measurement tagKey first).1 =
        (checkTagKey limits db rp points measurement tagKey second).1 ∧
      Alike (checkTagKey limits db rp points measurement tagKey first).2
        (checkTagKey limits db rp points measurement tagKey second).2 := by
  have novel : first.novelValues db rp points measurement tagKey =
      second.novelValues db rp points measurement tagKey := by
    simp only [novelValues, tagValueIsKnown, alike.tagCaches]
  unfold NodeMetadata.checkTagKey
  split
  · exact ⟨rfl, alike⟩
  · refine ⟨?_, alike.measurements, alike.tagValues, alike.series, ?_⟩
    · rw [alike.countTagValues, novel]
    · dsimp only [rememberCount]
      rw [alike.countTagValues, alike.tagCaches]

theorem checkSchema (db rp : String) (points : List Point) (entry : String × BatchSchema) :
    (checkSchema limits db rp points entry first).1 =
        (checkSchema limits db rp points entry second).1 ∧
      Alike (checkSchema limits db rp points entry first).2
        (checkSchema limits db rp points entry second).2 := by
  obtain ⟨verdict, after⟩ := run_related
    (fun tagKey _ _ now => now.checkTagKey limits db rp points entry.1 tagKey) alike
    entry.2.tagKeys.toList
  unfold NodeMetadata.checkSchema
  rcases firstRun : run (NodeMetadata.checkTagKey limits db rp points entry.1)
    entry.2.tagKeys.toList first with ⟨firstVerdict, firstAfter⟩
  rcases secondRun : run (NodeMetadata.checkTagKey limits db rp points entry.1)
    entry.2.tagKeys.toList second with ⟨secondVerdict, secondAfter⟩
  rw [firstRun, secondRun] at verdict after
  subst verdict
  cases firstVerdict with
  | error cause => exact ⟨rfl, after⟩
  | ok _ =>
    have found : firstAfter.store.getMeasurement db rp entry.1 =
        secondAfter.store.getMeasurement db rp entry.1 := by
      rw [getMeasurement, getMeasurement, after.measurements]
    refine ⟨?_, after⟩
    dsimp only
    rw [checkFieldTypes, checkFieldTypes, found]

theorem checkBatch (db rp : String) (schemas : Std.ExtTreeMap String BatchSchema)
    (points : List Point) : (first.checkBatch limits db rp schemas points).1 =
        (second.checkBatch limits db rp schemas points).1 ∧
      Alike (first.checkBatch limits db rp schemas points).2
        (second.checkBatch limits db rp schemas points).2 := by
  have counted : checkMeasurementCount limits first.store db schemas =
      checkMeasurementCount limits second.store db schemas := by
    unfold checkMeasurementCount listMeasurements
    rw [alike.measurements]
  unfold NodeMetadata.checkBatch
  rw [counted]
  cases checkMeasurementCount limits second.store db schemas with
  | error cause => exact ⟨rfl, alike⟩
  | ok _ =>
    exact run_related
      (fun entry _ _ now => now.checkSchema limits db rp points entry) alike schemas.toList

theorem prepareUnknown (hashes : IngestHashes) (limits : CardinalityLimitValues) (db rp : String)
    (schemas : Std.ExtTreeMap String BatchSchema) (points : List Point) :
    (first.prepareUnknown hashes limits none db rp schemas points).result =
        (second.prepareUnknown hashes limits none db rp schemas points).result ∧
      Alike (first.prepareUnknown hashes limits none db rp schemas points).node
        (second.prepareUnknown hashes limits none db rp schemas points).node := by
  obtain ⟨verdict, after⟩ := alike.checkBatch limits db rp schemas points
  unfold NodeMetadata.prepareUnknown
  rcases firstChecked : first.checkBatch limits db rp schemas points with
    ⟨firstVerdict, firstAfter⟩
  rcases secondChecked : second.checkBatch limits db rp schemas points with
    ⟨secondVerdict, secondAfter⟩
  rw [firstChecked, secondChecked] at verdict after
  subst verdict
  cases firstVerdict with
  | error cause => exact ⟨rfl, after⟩
  | ok _ => exact ⟨rfl, after.registerBatch db rp schemas points⟩

theorem prepareBatchMetadata (hashes : IngestHashes) (limits : CardinalityLimitValues)
    (db rp : String) (points : List Point) :
    (first.prepareBatchMetadata hashes limits none db rp points).result =
        (second.prepareBatchMetadata hashes limits none db rp points).result ∧
      Alike (first.prepareBatchMetadata hashes limits none db rp points).node
        (second.prepareBatchMetadata hashes limits none db rp points).node := by
  have started := alike.registerSeriesBatch hashes db rp
    (unregisteredPoints hashes none db rp points)
  unfold NodeMetadata.prepareBatchMetadata
  cases batchSchemas ∅ points with
  | error cause => exact ⟨rfl, started⟩
  | ok schemas => exact started.prepareUnknown hashes limits db rp schemas points

end Alike

end NodeMetadata

end HyperbyteDb

namespace HyperbyteDb

open NodeMetadata Std

structure ContinuousQueryDef where
  name : String
  database : String
  queryText : String
deriving DecidableEq, Repr

/-- A tombstone's id and the SQL predicate of the points that it hides. -/
abbrev Tombstone := String × String

structure ServerMetadata where
  node : NodeMetadata := {}
  databases : ExtTreeSet String := ∅
  tombstones : ExtTreeMap MeasurementKey (ExtTreeMap String String) := ∅
  /-- The tombstones that were listed since the last one was stored. -/
  tombstoneCache : MeasurementKey → Option (List Tombstone) := fun _ => none
  continuousQueries : ExtTreeMap String (ExtTreeMap String ContinuousQueryDef) := ∅

namespace ServerMetadata

variable (server : ServerMetadata)

/-! ## Tombstones -/

variable (key : MeasurementKey)

def tombstoneRows : ExtTreeMap String String :=
  server.tombstones[key]?.getD ∅

def storeTombstone (id predicate : String) : ServerMetadata :=
  { server with
    tombstones := server.tombstones.insert key ((server.tombstoneRows key).insert id predicate)
    tombstoneCache := fun other => if other = key then none else server.tombstoneCache other }

def listTombstones : List Tombstone × ServerMetadata :=
  match server.tombstoneCache key with
  | some entries => (entries, server)
  | none =>
    let entries := (server.tombstoneRows key).toList
    (entries,
      { server with
        tombstoneCache := fun other =>
          if other = key then some entries else server.tombstoneCache other })

def deleteSeriesMatching (db rp : String) (measurement : Option String) : ServerMetadata :=
  { server with
    node := { server.node with
      series := server.node.series.filter fun key _ =>
        !(key.db == db && key.rp == rp && measurement.all (key.measurement == ·)) } }

/-! ## Continuous queries -/

def listContinuousQueries (db : String) : List ContinuousQueryDef :=
  (server.continuousQueries[db]?.getD ∅).values

/-! ## Databases -/

def createDatabase (name : String) : ServerMetadata :=
  { server with databases := server.databases.insert name }

/-- Tombstones stay, as do the rows of tag values. -/
def deleteMeasurement (db rp name : String) : ServerMetadata :=
  { server with node := server.node.deleteMeasurement db rp name }

/-- Fails for a database that does not exist.  Tombstones and continuous queries stay. -/
def dropDatabase (name : String) : Option ServerMetadata :=
  if server.databases.contains name then
    some { server with
      node := server.node.dropDatabase name
      databases := server.databases.erase name }
  else none

end ServerMetadata

/-! ## What a drop leaves behind -/

inductive Dropped where
  | measurement (db rp name : String)
  | database (name : String)
deriving DecidableEq

namespace Dropped

def covers : Dropped → MeasurementKey → Bool
  | measurement db rp name, key => key == ⟨db, rp, name⟩
  | database name, key => key.db == name

def coversDatabase : Dropped → String → Bool
  | measurement .., _ => false
  | database name, db => db == name

end Dropped

structure MeasurementAnswers where
  measurement : Option MeasurementMeta
  tagValues : String → ExtTreeSet String
  tagCounts : String → Nat
  series : ExtTreeMap UInt64 (ExtTreeMap String String)
  tombstones : List Tombstone

/-- How a dropped name comes to be used again. -/
inductive LaterUse where
  | createDatabase (name : String)
  | write (limits : CardinalityLimitValues) (db rp : String) (points : List Point)

namespace ServerMetadata

variable (server : ServerMetadata) (dropped : Dropped) (hashes : IngestHashes)

def answers (key : MeasurementKey) : MeasurementAnswers where
  measurement := server.node.store.getMeasurement key.db key.rp key.measurement
  tagValues := server.node.store.tagValuesAt key
  tagCounts := server.node.countTagValues key
  series := server.node.seriesAt key
  tombstones := (server.listTombstones key).1

/-- A statement that drops; it fails for a database that does not exist. -/
def drop : Dropped → Option ServerMetadata
  | .measurement db rp name => some (server.deleteMeasurement db rp name)
  | .database name => server.dropDatabase name

/-- The metadata as if the dropped name had never been used. -/
def forget : ServerMetadata where
  node :=
    { store :=
        { measurements := server.node.store.measurements.filter fun key _ => !dropped.covers key
          tagValues := server.node.store.tagValues.filter fun key _ => !dropped.covers key }
      series := server.node.series.filter fun key _ => !dropped.covers key
      tagCaches :=
        { server.node.tagCaches with
          known := fun key tagKey tagValue =>
            !dropped.covers key && server.node.tagCaches.known key tagKey tagValue
          counts := fun key tagKey =>
            if dropped.covers key = true then none else server.node.tagCaches.counts key tagKey } }
  databases := server.databases.filter fun db => !dropped.coversDatabase db
  tombstones := server.tombstones.filter fun key _ => !dropped.covers key
  tombstoneCache key := if dropped.covers key = true then none else server.tombstoneCache key
  continuousQueries := server.continuousQueries.filter fun db _ => !dropped.coversDatabase db

def use (server : ServerMetadata) : LaterUse → ServerMetadata
  | .createDatabase name => server.createDatabase name
  | .write limits db rp points =>
    { server with
      node := (server.node.prepareBatchMetadata hashes limits none db rp points).node }

def useAgain (uses : List LaterUse) : ServerMetadata := GuardedRuns.run (use hashes) server uses

end ServerMetadata

structure CleanDrop (hashes : IngestHashes) (before after : ServerMetadata) (dropped : Dropped) :
    Prop where
  nothingLeft : ∀ uses key, dropped.covers key = true →
    (after.useAgain hashes uses).answers key =
      ((before.forget dropped).useAgain hashes uses).answers key
  noQueriesLeft : ∀ uses db, dropped.coversDatabase db = true →
    (after.useAgain hashes uses).listContinuousQueries db =
      ((before.forget dropped).useAgain hashes uses).listContinuousQueries db
  othersUntouched : ∀ key, dropped.covers key = false → after.answers key = before.answers key
  otherQueriesUntouched : ∀ db, dropped.coversDatabase db = false →
    after.listContinuousQueries db = before.listContinuousQueries db

/-- There is nothing of what a drop leaves behind or takes by mistake. -/
def Dropped.Removable (server : ServerMetadata) : Dropped → Prop
  | .measurement db rp name =>
    (∀ tagKey, server.node.store.tagValuesAt ⟨db, rp, name⟩ tagKey = ∅) ∧
      (server.listTombstones ⟨db, rp, name⟩).1 = [] ∧
      ∀ other, other ≠ rp → server.node.seriesAt ⟨db, other, name⟩ = ∅
  | .database name =>
    (∀ rp measurement, (server.listTombstones ⟨name, rp, measurement⟩).1 = []) ∧
      server.listContinuousQueries name = []

namespace ServerMetadata

variable {server after : ServerMetadata} {dropped : Dropped} {hashes : IngestHashes}

/-! ## Metadata without a name -/

variable {key : MeasurementKey} {first second : ServerMetadata}

theorem getD_filter_key {κ ν : Type} [Ord κ] [Std.TransOrd κ] [Std.LawfulEqOrd κ]
    (rows : ExtTreeMap κ ν) (gone : κ → Bool) (key : κ) (default : ν) :
    (rows.filter fun key _ => !gone key)[key]?.getD default =
      if gone key = true then default else rows[key]?.getD default := by
  rw [ExtTreeMap.getElem?_filter']
  cases rows[key]? with
  | none => simp
  | some row =>
    cases gone key <;> simp [Option.filter]

theorem tagValuesAt_filter (store : MetadataStore) (gone : MeasurementKey → Bool)
    (measurements : ExtTreeMap MeasurementKey MeasurementMeta) (tagKey : String) :
    MetadataStore.tagValuesAt ⟨measurements, store.tagValues.filter fun key _ => !gone key⟩
        key tagKey =
      if gone key = true then ∅ else store.tagValuesAt key tagKey := by
  unfold MetadataStore.tagValuesAt MetadataStore.listTagValues
  rw [getD_filter_key]
  cases gone key <;> simp

theorem seriesAt_filter {node : NodeMetadata} {rows : SeriesRows} {gone : MeasurementKey → Bool}
    (filtered : node.series = rows.filter fun key _ => !gone key) :
    node.seriesAt key = if gone key = true then ∅ else rows[key]?.getD ∅ := by
  rw [seriesAt, filtered, getD_filter_key]

theorem seriesAt_forget :
    (server.forget dropped).node.seriesAt key =
      if dropped.covers key = true then ∅ else server.node.seriesAt key :=
  seriesAt_filter rfl

theorem tagValuesAt_forget (tagKey : String) :
    (server.forget dropped).node.store.tagValuesAt key tagKey =
      if dropped.covers key = true then ∅ else server.node.store.tagValuesAt key tagKey :=
  tagValuesAt_filter server.node.store dropped.covers _ tagKey

theorem fst_listTombstones (server : ServerMetadata) (key : MeasurementKey) :
    (server.listTombstones key).1 =
      (server.tombstoneCache key).getD (server.tombstoneRows key).toList := by
  unfold listTombstones
  cases server.tombstoneCache key <;> rfl

theorem tombstones_forget :
    ((server.forget dropped).listTombstones key).1 =
      if dropped.covers key = true then [] else (server.listTombstones key).1 := by
  rw [fst_listTombstones, fst_listTombstones]
  unfold forget tombstoneRows
  dsimp only
  rw [getD_filter_key]
  cases dropped.covers key <;> simp

theorem continuousQueries_forget (db : String) :
    (server.forget dropped).listContinuousQueries db =
      if dropped.coversDatabase db = true then [] else server.listContinuousQueries db := by
  unfold forget listContinuousQueries
  rw [getD_filter_key]
  cases dropped.coversDatabase db <;> rfl

/-- A forgotten name answers like one that no metadata mentions, and another one as before. -/
theorem answers_forget (key : MeasurementKey) :
    (server.forget dropped).answers key =
      if dropped.covers key = true then ({} : ServerMetadata).answers key
      else server.answers key := by
  have measurement : (server.forget dropped).node.store.getMeasurement key.db key.rp
      key.measurement = if dropped.covers key = true then none
        else server.node.store.getMeasurement key.db key.rp key.measurement := by
    unfold forget MetadataStore.getMeasurement
    rw [ExtTreeMap.getElem?_filter']
    cases dropped.covers key <;> cases server.node.store.measurements[key]? <;> rfl
  have counts : ∀ tagKey, (server.forget dropped).node.countTagValues key tagKey =
      if dropped.covers key = true then 0 else server.node.countTagValues key tagKey := by
    intro tagKey
    rw [countTagValues, tagValuesAt_forget]
    cases covered : dropped.covers key <;> simp [forget, covered, countTagValues]
  unfold answers
  rw [measurement, funext tagValuesAt_forget, funext counts, seriesAt_forget, tombstones_forget]
  cases dropped.covers key <;> rfl

/-! ## Metadata that answer alike -/

/-- The two answer every query alike, now and after the same batches. -/
structure Alike (first second : ServerMetadata) : Prop where
  node : first.node.Alike second.node
  tombstones : ∀ key, (first.listTombstones key).1 = (second.listTombstones key).1
  continuousQueries : ∀ db, first.listContinuousQueries db = second.listContinuousQueries db

theorem Alike.answers (alike : Alike first second) (key : MeasurementKey)
    : first.answers key = second.answers key := by
  unfold ServerMetadata.answers MetadataStore.getMeasurement
  rw [alike.node.measurements, funext (alike.node.tagValues key),
    funext (alike.node.countTagValues key), alike.node.series, alike.tombstones]

theorem fst_listTombstones_congr (rows : first.tombstones = second.tombstones)
    (cached : first.tombstoneCache = second.tombstoneCache) :
    (first.listTombstones key).1 = (second.listTombstones key).1 := by
  rw [fst_listTombstones, fst_listTombstones, tombstoneRows, tombstoneRows, rows, cached]

theorem fst_listTombstones_use (later : LaterUse) :
    ((server.use hashes later).listTombstones key).1 = (server.listTombstones key).1 := by
  apply fst_listTombstones_congr <;> cases later <;> rfl

theorem Alike.use (alike : Alike first second) (hashes : IngestHashes) (later : LaterUse) :
    Alike (first.use hashes later) (second.use hashes later) := by
  have tombstones : ∀ key, ((first.use hashes later).listTombstones key).1 =
      ((second.use hashes later).listTombstones key).1 := fun key => by
    rw [fst_listTombstones_use, fst_listTombstones_use, alike.tombstones]
  cases later with
  | createDatabase name => exact ⟨alike.node, tombstones, alike.continuousQueries⟩
  | write limits db rp points =>
    exact ⟨(alike.node.prepareBatchMetadata hashes limits db rp points).2, tombstones,
      alike.continuousQueries⟩

theorem Alike.useAgain (alike : Alike first second) (hashes : IngestHashes) (uses : List LaterUse) :
    Alike (first.useAgain hashes uses) (second.useAgain hashes uses) := by
  induction uses generalizing first second with
  | nil => exact alike
  | cons later uses ih => exact ih (alike.use hashes later)

/-! ## Drops -/

theorem cleanDrop_of_alike (before : ServerMetadata) (alike : Alike after (before.forget dropped)) :
    CleanDrop hashes before after dropped where
  nothingLeft uses key _ := (alike.useAgain hashes uses).answers key
  noQueriesLeft uses db _ := (alike.useAgain hashes uses).continuousQueries db
  othersUntouched key other := by
    rw [alike.answers key, answers_forget, other]
    rfl
  otherQueriesUntouched db other := by
    rw [alike.continuousQueries, continuousQueries_forget, if_neg (by simp [other])]

/-- What is left of a name is seen before it is used again. -/
theorem answers_of_cleanDrop (clean : CleanDrop hashes server after dropped)
    (covered : dropped.covers key = true) :
    after.answers key = (server.forget dropped).answers key :=
  clean.nothingLeft [] key covered

theorem eq_of_dropDatabase {name : String} (done : server.dropDatabase name = some after) :
    after = { server with
      node := server.node.dropDatabase name
      databases := server.databases.erase name } := by
  obtain ⟨-, made⟩ := Option.ite_none_right_eq_some.mp done
  exact (Option.some.inj made).symm

theorem fst_listTombstones_drop (done : server.drop dropped = some after) :
    (after.listTombstones key).1 = (server.listTombstones key).1 := by
  cases dropped with
  | measurement db rp name =>
    cases done
    apply fst_listTombstones_congr <;> rfl
  | database name =>
    obtain rfl := eq_of_dropDatabase done
    apply fst_listTombstones_congr <;> rfl

theorem listContinuousQueries_drop (done : server.drop dropped = some after) (db : String) :
    after.listContinuousQueries db = server.listContinuousQueries db := by
  cases dropped with
  | measurement db rp name =>
    cases done
    rfl
  | database name =>
    obtain rfl := eq_of_dropDatabase done
    rfl

section Measurement

variable {db rp name : String}

theorem seriesAt_deleteMeasurement :
    (server.deleteMeasurement db rp name).node.seriesAt key =
      if (key.db == db && key.measurement == name) = true then ∅
      else server.node.seriesAt key := by
  have filtered : (server.deleteMeasurement db rp name).node.series =
      server.node.series.filter fun key _ => !(key.db == db && key.measurement == name) := rfl
  rw [seriesAt_filter filtered]
  rfl

/-- Measurements that do not have the name in the database answer as before. -/
theorem seriesAt_deleteMeasurement_of_empty
    (empty : ∀ other, other ≠ rp → server.node.seriesAt ⟨db, other, name⟩ = ∅) :
    (server.deleteMeasurement db rp name).node.seriesAt key =
      if key = ⟨db, rp, name⟩ then ∅ else server.node.seriesAt key := by
  rw [seriesAt_deleteMeasurement]
  by_cases named : key.db = db ∧ key.measurement = name
  · obtain ⟨rfl, rfl⟩ := named
    by_cases same : key.rp = rp
    · subst same
      simp
    · rw [empty key.rp same]
      simp
  · have other : ¬key = ⟨db, rp, name⟩ := fun eq => named (by simp [eq])
    rw [if_neg other, if_neg (by simpa using named)]

theorem measurements_deleteMeasurement :
    (server.deleteMeasurement db rp name).node.store.measurements =
      (server.forget (.measurement db rp name)).node.store.measurements := by
  apply ExtTreeMap.ext_getElem?
  intro key
  unfold deleteMeasurement NodeMetadata.deleteMeasurement forget
  rw [ExtTreeMap.getElem?_erase, ExtTreeMap.getElem?_filter']
  by_cases same : key = ⟨db, rp, name⟩
  · subst same
    cases server.node.store.measurements[(⟨db, rp, name⟩ : MeasurementKey)]? <;>
      simp [Dropped.covers]
  · cases server.node.store.measurements[key]? <;>
      simp [Dropped.covers, Option.filter, same, Ne.symm same]

theorem tagCaches_deleteMeasurement :
    (server.deleteMeasurement db rp name).node.tagCaches =
      (server.forget (.measurement db rp name)).node.tagCaches := by
  unfold deleteMeasurement NodeMetadata.deleteMeasurement forget
  simp only [Dropped.covers, beq_iff_eq]
  rfl

theorem alike_deleteMeasurement (removable : Dropped.Removable server (.measurement db rp name)) :
    (server.deleteMeasurement db rp name).node.Alike
      (server.forget (.measurement db rp name)).node := by
  obtain ⟨noValues, -, noSeries⟩ := removable
  refine ⟨measurements_deleteMeasurement, fun key tagKey => ?_,
    fun key => ?_, tagCaches_deleteMeasurement⟩
  · rw [tagValuesAt_forget]
    by_cases same : key = ⟨db, rp, name⟩
    · subst same
      rw [if_pos (by simp [Dropped.covers])]
      exact noValues tagKey
    · rw [if_neg (by simpa [Dropped.covers] using same)]
      rfl
  · rw [seriesAt_deleteMeasurement_of_empty noSeries, seriesAt_forget]
    simp only [Dropped.covers, beq_iff_eq]

end Measurement

theorem alike_dropDatabase (name : String) (done : server.dropDatabase name = some after) :
    after.node.Alike (server.forget (.database name)).node := by
  obtain rfl := eq_of_dropDatabase done
  refine ⟨rfl, fun _ _ => rfl, fun _ => rfl, ?_⟩
  unfold NodeMetadata.dropDatabase forget
  simp only [Dropped.covers, beq_iff_eq]
  rfl

theorem alike_drop (done : server.drop dropped = some after)
    (removable : dropped.Removable server) : Alike after (server.forget dropped) where
  node := by
    cases dropped with
    | measurement db rp name =>
      cases done
      exact alike_deleteMeasurement removable
    | database name => exact alike_dropDatabase name done
  tombstones key := by
    rw [fst_listTombstones_drop done, tombstones_forget]
    split
    next covered =>
      cases dropped with
      | measurement db rp name =>
        obtain rfl := beq_iff_eq.mp covered
        exact removable.2.1
      | database name =>
        obtain rfl := beq_iff_eq.mp covered
        exact removable.1 key.rp key.measurement
    next => rfl
  continuousQueries db := by
    rw [listContinuousQueries_drop done, continuousQueries_forget]
    split
    next covered =>
      cases dropped with
      | measurement => cases covered
      | database name =>
        obtain rfl := beq_iff_eq.mp covered
        exact removable.2
    next => rfl

theorem tombstones_of_cleanDrop (clean : CleanDrop hashes server after dropped)
    (done : server.drop dropped = some after) (covered : dropped.covers key = true) :
    (server.listTombstones key).1 = [] := by
  have same := congrArg MeasurementAnswers.tombstones (answers_of_cleanDrop clean covered)
  rw [← fst_listTombstones_drop done]
  refine same.trans ?_
  exact tombstones_forget.trans (if_pos covered)

def untaggedServer : ServerMetadata where
  databases := (∅ : ExtTreeSet String).insert "db"
  node.store.measurements := (∅ : ExtTreeMap MeasurementKey MeasurementMeta).insert
    ⟨"db", "rp", "m"⟩ { fieldTypes := (∅ : FieldTypes).insert "f" .float }
  node.series := (∅ : SeriesRows).insert ⟨"db", "rp", "m"⟩
    ((∅ : ExtTreeMap UInt64 (ExtTreeMap String String)).insert 0 ∅)

def taggedServer : ServerMetadata :=
  ServerMetadata.useAgain {} sameHashes
    [.createDatabase "db", .write {} "db" "rp" [sampledPoint]]

end ServerMetadata

end HyperbyteDb
