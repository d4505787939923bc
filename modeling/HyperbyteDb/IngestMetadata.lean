import HyperbyteDb.PointCoalescing
import HyperbyteDb.ServiceErrors
import HyperbyteDb.ShardRegions

/-!
# Metadata of ingested batches

Before points are appended, their measurements, field types and tag values are checked against
the stored metadata and registered.
-/

namespace HyperbyteDb

open Std

inductive FieldType where
  | float
  | integer
  | unsigned
  | string
  | boolean
deriving DecidableEq, Repr

def FieldType.typeName : FieldType → String
  | float => "float"
  | integer => "integer"
  | unsigned => "unsigned"
  | string => "string"
  | boolean => "boolean"

def FieldValue.fieldType : FieldValue → FieldType
  | float _ => .float
  | integer _ => .integer
  | uinteger _ => .unsigned
  | string _ => .string
  | boolean _ => .boolean

/-- The type that can hold values of both types, if there is one. -/
def widenFieldDisc (first second : FieldType) : Option FieldType :=
  if first = second then some first
  else
    match first, second with
    | .float, .integer | .integer, .float => some .float
    | .integer, .unsigned | .unsigned, .integer => some .unsigned
    | _, _ => none

def fieldTypesCompatible (stored incoming : FieldType) : Bool :=
  (widenFieldDisc stored incoming).isSome

abbrev FieldTypes := ExtTreeMap String FieldType

def mergeFieldTypeMap (existing batch : FieldTypes) : FieldTypes :=
  batch.toList.foldl (fun merged entry =>
    match merged[entry.1]? with
    | some stored =>
      match widenFieldDisc stored entry.2 with
      | some widened => merged.insert entry.1 widened
      | none => merged
    | none => merged.insert entry.1 entry.2) existing

structure MeasurementMeta where
  fieldTypes : FieldTypes := ∅
  tagKeys : ExtTreeSet String := ∅
  materialized : Bool := false
  materializedRp : Option String := none
deriving DecidableEq

structure MetadataStore where
  measurements : ExtTreeMap MeasurementKey MeasurementMeta := ∅
  tagValues : ExtTreeMap MeasurementKey (ExtTreeMap String (ExtTreeSet String)) := ∅

def fieldTypeConflict (field measurement : String) (got expected : FieldType) : HyperbytedbError :=
  .fieldTypeConflict field measurement got.typeName expected.typeName

namespace MetadataStore

variable (store : MetadataStore) (db rp : String)

variable (measurement : String)

def getMeasurement : Option MeasurementMeta :=
  store.measurements[(⟨db, rp, measurement⟩ : MeasurementKey)]?

def listMeasurements : List String :=
  ((store.measurements.keys.filter (·.db == db)).map (·.measurement)).dedup

def listTagValues (measurement tagKey : String) : ExtTreeSet String :=
  ((store.tagValues[(⟨db, rp, measurement⟩ : MeasurementKey)]?.getD ∅)[tagKey]?).getD ∅

def countTagValues (measurement tagKey : String) : Nat :=
  (store.listTagValues db rp measurement tagKey).size

def tagValueIsKnown (measurement tagKey tagValue : String) : Bool :=
  (store.listTagValues db rp measurement tagKey).contains tagValue

def checkFieldTypes (fields : FieldTypes) : Except HyperbytedbError Unit :=
  match store.getMeasurement db rp measurement with
  | none => .ok ()
  | some stored => fields.toList.forM fun field =>
    match stored.fieldTypes[field.1]? with
    | none => .ok ()
    | some expected =>
      if fieldTypesCompatible expected field.2 then .ok ()
      else .error (fieldTypeConflict field.1 measurement field.2 expected)

def mergedFieldTypes (batch : FieldTypes) : FieldTypes :=
  match store.getMeasurement db rp measurement with
  | some stored => mergeFieldTypeMap stored.fieldTypes batch
  | none => batch

def mergedTagKeys (batch : ExtTreeSet String) : ExtTreeSet String :=
  match store.getMeasurement db rp measurement with
  | some stored => batch.insertMany stored.tagKeys.toList
  | none => batch

def mergedMeasurement (update : String × MeasurementMeta) : MeasurementMeta :=
  match store.getMeasurement db rp update.1 with
  | none => update.2
  | some stored =>
    { update.2 with
      fieldTypes := mergeFieldTypeMap stored.fieldTypes update.2.fieldTypes
      tagKeys := stored.tagKeys.insertMany update.2.tagKeys.toList }

def storeMeasurement (update : String × MeasurementMeta) : MetadataStore :=
  let merged := store.mergedMeasurement db rp update
  if (store.getMeasurement db rp update.1).any fun stored =>
      stored.fieldTypes == merged.fieldTypes && decide (stored.tagKeys = merged.tagKeys) then
    store
  else { store with measurements := store.measurements.insert ⟨db, rp, update.1⟩ merged }

def storeTagValue (tag : String × String) : MetadataStore :=
  let key : MeasurementKey := ⟨db, rp, measurement⟩
  { store with
    tagValues := store.tagValues.insert key ((store.tagValues[key]?.getD ∅).insert tag.1
      ((store.listTagValues db rp measurement tag.1).insert tag.2)) }

def registerMetadataBatch (updates : List (String × MeasurementMeta))
    (tags : List (String × List (String × String))) : MetadataStore :=
  let updated := updates.foldl (fun store => store.storeMeasurement db rp) store
  tags.foldl (fun store batch =>
    batch.2.foldl (fun store => store.storeTagValue db rp batch.1) store) updated

end MetadataStore

/-- Limits on stored names; zero stands for no limit. -/
structure CardinalityLimitValues where
  maxTagValuesPerMeasurement : Nat := 0
  maxMeasurementsPerDatabase : Nat := 0

def maxCachedTagHashes : Nat := 1048576

structure SchemaHashes where
  hashKey : String → String → String → UInt64
  hashSchema : FieldTypes → ExtTreeSet String → UInt64
  hashTag : String → String → String → String → String → UInt64
  hashSeries : String → String → Point → UInt64

/-- What is known to be stored, by hash. -/
structure IngestSchemaCache where
  schema : ExtTreeMap UInt64 UInt64 := ∅
  tags : ExtTreeSet UInt64 := ∅
  series : ExtTreeSet UInt64 := ∅

structure BatchSchema where
  fieldTypes : FieldTypes := ∅
  tagKeys : ExtTreeSet String := ∅

namespace IngestSchemaCache

variable (cache : IngestSchemaCache) (hashes : SchemaHashes) (db rp : String)

def isSchemaKnown (measurement : String) (batch : BatchSchema) : Bool :=
  cache.schema[hashes.hashKey db rp measurement]? ==
    some (hashes.hashSchema batch.fieldTypes batch.tagKeys)

def markSchema (measurement : String) (merged : BatchSchema) : IngestSchemaCache :=
  { cache with
    schema := cache.schema.insert (hashes.hashKey db rp measurement)
      (hashes.hashSchema merged.fieldTypes merged.tagKeys) }

variable (points : List Point)

def hashedTags : List (UInt64 × String × String × String) :=
  points.flatMap fun point => point.tags.toList.map fun tag =>
    (hashes.hashTag db rp point.measurement tag.1 tag.2, point.measurement, tag)

def novelTags : List (UInt64 × String × String × String) :=
  (hashedTags hashes db rp points).filter fun tag => !cache.tags.contains tag.1

def markTags (tags : List UInt64) : IngestSchemaCache :=
  let kept := if maxCachedTagHashes < cache.tags.size then ∅ else cache.tags
  { cache with tags := kept.insertMany tags }

def freshPoints : List Point :=
  points.filter fun point => !cache.series.contains (hashes.hashSeries db rp point)

def markSeriesSeen : IngestSchemaCache :=
  if points.isEmpty then cache
  else
    let kept := if maxCachedTagHashes < cache.series.size then ∅ else cache.series
    { cache with series := kept.insertMany (points.map (hashes.hashSeries db rp)) }

end IngestSchemaCache

def addFields (measurement : String) (types : FieldTypes) :
    List (String × FieldValue) → Except HyperbytedbError FieldTypes
  | [] => .ok types
  | (field, value) :: rest =>
    match types[field]? with
    | none => addFields measurement (types.insert field value.fieldType) rest
    | some existing =>
      match widenFieldDisc existing value.fieldType with
      | some widened => addFields measurement (types.insert field widened) rest
      | none => .error (fieldTypeConflict field measurement value.fieldType existing)

def schemaSoFar (schemas : ExtTreeMap String BatchSchema) (measurement : String) : BatchSchema :=
  schemas[measurement]?.getD {}

def batchSchemas (schemas : ExtTreeMap String BatchSchema) :
    List Point → Except HyperbytedbError (ExtTreeMap String BatchSchema)
  | [] => .ok schemas
  | point :: rest =>
    let schema := schemaSoFar schemas point.measurement
    match addFields point.measurement schema.fieldTypes point.fields.toList with
    | .error cause => .error cause
    | .ok fieldTypes =>
      batchSchemas (schemas.insert point.measurement
        ⟨fieldTypes, schema.tagKeys.insertMany point.tags.keys⟩) rest

def findConflict (types : FieldTypes) (point : Point) : Option HyperbytedbError :=
  point.fields.toList.findSome? fun field =>
    match types[field.1]? with
    | none => none
    | some known =>
      if fieldTypesCompatible known field.2.fieldType then none
      else some (fieldTypeConflict field.1 point.measurement field.2.fieldType known)

def widenFields (types : FieldTypes) (point : Point) : FieldTypes :=
  point.fields.toList.foldl (fun types field =>
    types.insert field.1
      ((types[field.1]?.bind (widenFieldDisc · field.2.fieldType)).getD field.2.fieldType))
    types

/-- The points that are kept and the errors of those that are dropped.  `types` holds
the types of the measurements met so far. -/
def splitPoints (stored : String → FieldTypes)
    (types : ExtTreeMap String FieldTypes) : List Point → List Point × List HyperbytedbError
  | [] => ([], [])
  | point :: rest =>
    let known := types[point.measurement]?.getD (stored point.measurement)
    match findConflict known point with
    | some cause =>
      let (kept, dropped) := splitPoints stored (types.insert point.measurement known) rest
      (kept, cause :: dropped)
    | none =>
      let (kept, dropped) := splitPoints stored
        (types.insert point.measurement (widenFields known point)) rest
      (point :: kept, dropped)

/-- Drop the points whose fields conflict with the stored types or with an earlier point
of the batch, and tell of it as a partial write. -/
def splitFieldTypeConflicts (store : MetadataStore) (db rp : String) (points : List Point) :
    List Point × Option HyperbytedbError :=
  let stored := fun measurement =>
    ((store.getMeasurement db rp measurement).map (·.fieldTypes)).getD ∅
  let (kept, dropped) := splitPoints stored ∅ points
  (kept, dropped.head?.map fun cause => .partialWrite cause.message dropped.length)

/-- What ingestion reads and writes of a node's metadata. -/
structure IngestState where
  store : MetadataStore := {}
  cache : IngestSchemaCache := {}

section Checks

variable (limits : CardinalityLimitValues) (store : MetadataStore) (db rp : String)

def checkMeasurementCount (schemas : ExtTreeMap String BatchSchema) :
    Except HyperbytedbError Unit :=
  if limits.maxMeasurementsPerDatabase = 0 then .ok ()
  else
    let existing := store.listMeasurements db
    let total := existing.length + (schemas.keys.filter (!existing.contains ·)).length
    if limits.maxMeasurementsPerDatabase < total then
      .error (.cardinalityExceeded db "(measurements)" total
        limits.maxMeasurementsPerDatabase)
    else .ok ()

def checkTagValueCount (points : List Point) (measurement tagKey : String) :
    Except HyperbytedbError Unit :=
  if limits.maxTagValuesPerMeasurement = 0 then .ok ()
  else
    let values := ((points.filter (·.measurement == measurement)).filterMap (·.tags[tagKey]?)).dedup
    let novel := values.filter (!store.tagValueIsKnown db rp measurement tagKey ·)
    let total := store.countTagValues db rp measurement tagKey + novel.length
    if limits.maxTagValuesPerMeasurement < total then
      .error (.cardinalityExceeded measurement tagKey total limits.maxTagValuesPerMeasurement)
    else .ok ()

def checkBatch (schemas : ExtTreeMap String BatchSchema) (points : List Point) :
    Except HyperbytedbError Unit := do
  checkMeasurementCount limits store db schemas
  schemas.toList.forM fun (measurement, schema) => do
    schema.tagKeys.toList.forM (checkTagValueCount limits store db rp points measurement)
    store.checkFieldTypes db rp measurement schema.fieldTypes

end Checks

namespace IngestState

variable (state : IngestState) (hashes : SchemaHashes) (db rp : String)

def registerBatch (schemas : ExtTreeMap String BatchSchema) (points : List Point) : IngestState :=
  let updates := schemas.toList.map fun (measurement, schema) =>
    (measurement,
      { fieldTypes := state.store.mergedFieldTypes db rp measurement schema.fieldTypes
        tagKeys := state.store.mergedTagKeys db rp measurement schema.tagKeys :
        MeasurementMeta })
  let tags := schemas.keys.map fun measurement =>
    (measurement, (points.filter (·.measurement == measurement)).flatMap (·.tags.toList))
  let store := state.store.registerMetadataBatch db rp updates tags
  let marked := schemas.toList.foldl (fun cache (measurement, schema) =>
    cache.markSchema hashes db rp measurement
      ⟨store.mergedFieldTypes db rp measurement schema.fieldTypes,
        store.mergedTagKeys db rp measurement schema.tagKeys⟩) state.cache
  let tagged := marked.markTags ((IngestSchemaCache.hashedTags hashes db rp points).map (·.1))
  { store, cache := tagged.markSeriesSeen hashes db rp
      (state.cache.freshPoints hashes db rp points) }

/-- Register the new tag values of a batch whose schemas are known. -/
def registerNovelTags (fresh : List Point) : IngestState :=
  let novel := state.cache.novelTags hashes db rp fresh
  let tags := novel.map fun tag => (tag.2.1, [tag.2.2])
  { store := state.store.registerMetadataBatch db rp [] tags
    cache := (if novel.isEmpty then state.cache
      else state.cache.markTags (novel.map (·.1))).markSeriesSeen hashes db rp fresh }

def prepareBatchMetadata (limits : CardinalityLimitValues) (points : List Point) :
    Except HyperbytedbError IngestState := do
  let schemas ← batchSchemas ∅ points
  if schemas.toList.all fun (measurement, schema) =>
      state.cache.isSchemaKnown hashes db rp measurement schema then
    return state.registerNovelTags hashes db rp (state.cache.freshPoints hashes db rp points)
  checkBatch limits state.store db rp schemas points
  return state.registerBatch hashes db rp schemas points

end IngestState

end HyperbyteDb
