import HyperbyteDb.RegisteredSchemas

/-!
# What the checks of a batch decide

The checks of a batch remember the counts that they ask for, which changes no answer.
-/

namespace HyperbyteDb

open Std

structure IngestHashes where
  hashKey : String → String → String → UInt64
  hashSchema : FieldTypes → ExtTreeSet String → UInt64
  hashTag : String → String → String → String → String → UInt64
  hashSeries : String → String → String → UInt64 → UInt64
  seriesIdForPoint : Point → UInt64

def IngestHashes.schemaHashes (hashes : IngestHashes) : SchemaHashes where
  hashKey := hashes.hashKey
  hashSchema := hashes.hashSchema
  hashTag := hashes.hashTag
  hashSeries db rp point :=
    hashes.hashSeries db rp point.measurement (hashes.seriesIdForPoint point)

/-! ## Caches of tag values -/

/-- Tag values that are known to be stored, and how many values a tag key has. -/
structure TagCaches where
  known : MeasurementKey → String → String → Bool := fun _ _ _ => false
  counts : MeasurementKey → String → Option Nat := fun _ _ => none
  /-- The counts were read from the rows, so that a missing one is zero. -/
  warmed : Bool := false

namespace TagCaches

variable (caches : TagCaches) (key : MeasurementKey) (tagKey : String)

def addKnown (tagValue : String) : TagCaches :=
  { caches with
    known := fun otherKey otherTag otherValue =>
      (otherKey == key && otherTag == tagKey && otherValue == tagValue) ||
        caches.known otherKey otherTag otherValue }

def setCount (count : Nat) : TagCaches :=
  { caches with
    counts := fun otherKey otherTag =>
      if otherKey = key ∧ otherTag = tagKey then some count
      else caches.counts otherKey otherTag }

/-- One more value.  Before the counts are warmed a missing one is left out. -/
def bumpCount : TagCaches :=
  match caches.counts key tagKey with
  | some count => caches.setCount key tagKey (count + 1)
  | none => if caches.warmed then caches.setCount key tagKey 1 else caches

end TagCaches

/-! ## Rows and caches -/

abbrev SeriesRows :=
  ExtTreeMap MeasurementKey (ExtTreeMap UInt64 (ExtTreeMap String String))

structure NodeMetadata where
  store : MetadataStore := {}
  series : SeriesRows := ∅
  tagCaches : TagCaches := {}

namespace NodeMetadata

variable (node : NodeMetadata) (hashes : IngestHashes) (limits : CardinalityLimitValues)
  (db rp : String)

variable (key : MeasurementKey)

def countTagValues (tagKey : String) : Nat :=
  (node.tagCaches.counts key tagKey).getD (node.store.tagValuesAt key tagKey).size

/-- A count that was asked for is kept. -/
def rememberCount (tagKey : String) : NodeMetadata :=
  { node with
    tagCaches := node.tagCaches.setCount key tagKey (node.countTagValues key tagKey) }

def tagValueIsKnown (tagKey tagValue : String) : Bool :=
  node.tagCaches.known key tagKey tagValue

/-- Store a tag value unless it is known.  Only a value that the rows do not hold yet is
counted. -/
def storeTagValue (tag : String × String) : NodeMetadata :=
  if node.tagValueIsKnown key tag.1 tag.2 then node
  else
    let caches := node.tagCaches.addKnown key tag.1 tag.2
    if (node.store.tagValuesAt key tag.1).contains tag.2 then { node with tagCaches := caches }
    else
      { node with
        store := node.store.storeTagValue key.db key.rp key.measurement tag
        tagCaches := caches.bumpCount key tag.1 }

def storeTagValues (tags : List (MeasurementKey × String × String)) : NodeMetadata :=
  tags.foldl (fun node tag => node.storeTagValue tag.1 tag.2) node

variable (updates : List (String × MeasurementMeta))

def storeMeasurements : NodeMetadata :=
  { node with store := updates.foldl (fun store => store.storeMeasurement db rp) node.store }

def registerMetadataBatch (tags : List (MeasurementKey × String × String)) : NodeMetadata :=
  (node.storeMeasurements db rp updates).storeTagValues tags

def warmTagValueCounts : NodeMetadata :=
  { node with
    tagCaches :=
      { known := fun key tagKey tagValue => node.tagCaches.known key tagKey tagValue ||
          (node.store.tagValuesAt key tagKey).contains tagValue
        counts := fun key tagKey =>
          if (node.store.tagValuesAt key tagKey).size = 0 then none
          else some (node.store.tagValuesAt key tagKey).size
        warmed := true } }

/-- The process starts again: its caches are empty, and are warmed from the rows. -/
def restart : NodeMetadata :=
  { node with tagCaches := {} }.warmTagValueCounts

/-- Drop a measurement.  Its series go in every retention policy, and its tag values stay in
their rows. -/
def deleteMeasurement (name : String) : NodeMetadata where
  store := { node.store with measurements := node.store.measurements.erase ⟨db, rp, name⟩ }
  series := node.series.filter fun key _ => !(key.db == db && key.measurement == name)
  tagCaches :=
    { node.tagCaches with
      known := fun key tagKey tagValue =>
        key != ⟨db, rp, name⟩ && node.tagCaches.known key tagKey tagValue
      counts := fun key tagKey =>
        if key = ⟨db, rp, name⟩ then none else node.tagCaches.counts key tagKey }

def dropDatabase (name : String) : NodeMetadata where
  store :=
    { measurements := node.store.measurements.filter fun key _ => key.db != name
      tagValues := node.store.tagValues.filter fun key _ => key.db != name }
  series := node.series.filter fun key _ => key.db != name
  tagCaches :=
    { node.tagCaches with
      known := fun key tagKey tagValue =>
        key.db != name && node.tagCaches.known key tagKey tagValue
      counts := fun key tagKey =>
        if key.db = name then none else node.tagCaches.counts key tagKey }

def seriesAt : ExtTreeMap UInt64 (ExtTreeMap String String) :=
  node.series[key]?.getD ∅

def registerSeries (point : Point) : NodeMetadata :=
  let key : MeasurementKey := ⟨db, rp, point.measurement⟩
  { node with
    series := node.series.insert key
      ((node.seriesAt key).insertIfNew (hashes.seriesIdForPoint point) point.tags) }

variable (points : List Point)

def registerSeriesBatch : NodeMetadata :=
  points.foldl (fun node => node.registerSeries hashes db rp) node

/-! ## Checks -/

variable (measurement tagKey : String)

def batchValues : List String :=
  ((points.filter (·.measurement == measurement)).filterMap (·.tags[tagKey]?)).dedup

def novelValues : List String :=
  (batchValues points measurement tagKey).filter fun value =>
    !node.tagValueIsKnown ⟨db, rp, measurement⟩ tagKey value

def checkTagKey (node : NodeMetadata) : Except HyperbytedbError Unit × NodeMetadata :=
  if limits.maxTagValuesPerMeasurement = 0 then (.ok (), node)
  else
    let total := node.countTagValues ⟨db, rp, measurement⟩ tagKey +
      (node.novelValues db rp points measurement tagKey).length
    (if limits.maxTagValuesPerMeasurement < total then
        .error (.cardinalityExceeded measurement tagKey total limits.maxTagValuesPerMeasurement)
      else .ok (),
      node.rememberCount ⟨db, rp, measurement⟩ tagKey)

def checkSchema (entry : String × BatchSchema) (node : NodeMetadata) :
    Except HyperbytedbError Unit × NodeMetadata :=
  match CheckLoops.run (checkTagKey limits db rp points entry.1) entry.2.tagKeys.toList node with
  | (.error cause, node) => (.error cause, node)
  | (.ok _, node) => (node.store.checkFieldTypes db rp entry.1 entry.2.fieldTypes, node)

def checkBatch (schemas : ExtTreeMap String BatchSchema) (points : List Point) :
    Except HyperbytedbError Unit × NodeMetadata :=
  match checkMeasurementCount limits node.store db schemas with
  | .error cause => (.error cause, node)
  | .ok _ => CheckLoops.run (checkSchema limits db rp points) schemas.toList node

/-! ## Batches -/

def tagsOf : List (MeasurementKey × String × String) :=
  (points.flatMap fun point => point.tags.toList.map fun tag =>
    ((⟨db, rp, point.measurement⟩ : MeasurementKey), tag)).dedup

def registerBatch (schemas : ExtTreeMap String BatchSchema) (points : List Point) : NodeMetadata :=
  node.registerMetadataBatch db rp (node.store.measurementUpdates db rp schemas)
    (tagsOf db rp points)

end NodeMetadata

namespace IngestSchemaCache

variable (cache : IngestSchemaCache) (hashes : SchemaHashes) (db rp : String)

def allSchemasKnown (schemas : ExtTreeMap String BatchSchema) : Bool :=
  schemas.toList.all fun (measurement, schema) =>
    cache.isSchemaKnown hashes db rp measurement schema

def markBatch (store : MetadataStore) (schemas : ExtTreeMap String BatchSchema)
    (points : List Point) : IngestSchemaCache :=
  let marked := schemas.toList.foldl (fun cache (measurement, schema) =>
    cache.markSchema hashes db rp measurement
      ⟨store.mergedFieldTypes db rp measurement schema.fieldTypes,
        store.mergedTagKeys db rp measurement schema.tagKeys⟩) cache
  (marked.markTags ((hashedTags hashes db rp points).map (·.1))).markSeriesSeen hashes db rp
    (cache.freshPoints hashes db rp points)

def freshTags (points : List Point) : List (UInt64 × String × String × String) :=
  cache.novelTags hashes db rp (cache.freshPoints hashes db rp points)

def markKnownBatch (points : List Point) : IngestSchemaCache :=
  (if (cache.freshTags hashes db rp points).isEmpty then cache
    else cache.markTags ((cache.freshTags hashes db rp points).map (·.1))).markSeriesSeen
      hashes db rp (cache.freshPoints hashes db rp points)

end IngestSchemaCache

/-- What preparing a batch returns, and what it leaves. -/
structure PrepareOutcome where
  result : Except HyperbytedbError Unit
  node : NodeMetadata
  cache : Option IngestSchemaCache

namespace NodeMetadata

variable (hashes : IngestHashes) (limits : CardinalityLimitValues) (node : NodeMetadata)
  (cache : Option IngestSchemaCache) (db rp : String)

def prepareUnknown (schemas : ExtTreeMap String BatchSchema) (points : List Point) :
    PrepareOutcome :=
  match node.checkBatch limits db rp schemas points with
  | (.error cause, node) => ⟨.error cause, node, cache⟩
  | (.ok _, node) =>
    let node := node.registerBatch db rp schemas points
    ⟨.ok (), node, cache.map fun cache =>
      cache.markBatch hashes.schemaHashes db rp node.store schemas points⟩

variable (known : IngestSchemaCache) (points : List Point)

def newTags : List (MeasurementKey × String × String) :=
  ((known.freshTags hashes.schemaHashes db rp points).map fun tag =>
    ((⟨db, rp, tag.2.1⟩ : MeasurementKey), tag.2.2)).dedup

def prepareKnown : PrepareOutcome :=
  ⟨.ok (), node.storeTagValues (newTags hashes db rp known points),
    some (known.markKnownBatch hashes.schemaHashes db rp points)⟩

/-- The points whose series are registered: with a cache, those of unseen series. -/
def unregisteredPoints : List Point :=
  match cache with
  | some cache => cache.freshPoints hashes.schemaHashes db rp points
  | none => points

def prepareBatchMetadata : PrepareOutcome :=
  let node := node.registerSeriesBatch hashes db rp (unregisteredPoints hashes cache db rp points)
  match batchSchemas ∅ points with
  | .error cause => ⟨.error cause, node, cache⟩
  | .ok schemas =>
    match cache with
    | none => node.prepareUnknown hashes limits none db rp schemas points
    | some known =>
      if known.allSchemasKnown hashes.schemaHashes db rp schemas then
        node.prepareKnown hashes db rp known points
      else node.prepareUnknown hashes limits (some known) db rp schemas points

end NodeMetadata

end HyperbyteDb

namespace HyperbyteDb

open CheckLoops List MetadataStore Std TagCaches

namespace NodeMetadata

variable {node reached : NodeMetadata} {limits : CardinalityLimitValues} {db rp : String}
  {points : List Point}

/-- The two nodes have the same rows, and their caches give the same answers. -/
structure SameAnswers (node reached : NodeMetadata) : Prop where
  store : reached.store = node.store
  series : reached.series = node.series
  known : reached.tagCaches.known = node.tagCaches.known
  counts : ∀ key tagKey, reached.countTagValues key tagKey = node.countTagValues key tagKey

theorem sameAnswers_self : SameAnswers node node :=
  ⟨rfl, rfl, rfl, fun _ _ => rfl⟩

theorem sameAnswers_rememberCount (reached : NodeMetadata) (key : MeasurementKey)
    (tagKey : String) (same : SameAnswers node reached) :
    SameAnswers node (reached.rememberCount key tagKey) where
  store := same.store
  series := same.series
  known := same.known
  counts otherKey otherTag := by
    rw [← same.counts]
    unfold countTagValues NodeMetadata.rememberCount TagCaches.setCount
    dsimp only
    split
    next here =>
      obtain ⟨rfl, rfl⟩ := here
      rfl
    next => rfl

def FitsTagLimit (limits : CardinalityLimitValues) (node : NodeMetadata) (db rp : String)
    (points : List Point) (measurement tagKey : String) : Prop :=
  limits.maxTagValuesPerMeasurement = 0 ∨
    node.countTagValues ⟨db, rp, measurement⟩ tagKey +
      (node.novelValues db rp points measurement tagKey).length ≤ limits.maxTagValuesPerMeasurement

theorem SameAnswers.total (same : SameAnswers node reached) (measurement tagKey : String) :
    reached.countTagValues ⟨db, rp, measurement⟩ tagKey +
        (reached.novelValues db rp points measurement tagKey).length =
      node.countTagValues ⟨db, rp, measurement⟩ tagKey +
        (node.novelValues db rp points measurement tagKey).length := by
  unfold novelValues tagValueIsKnown
  rw [same.counts, same.known]

/-! What remembered counts do not change, the checks do not change. -/

section Preserved

variable (limits db rp points) {holds : NodeMetadata → Prop}
  (remembered : ∀ node key tagKey, holds node → holds (node.rememberCount key tagKey))
include remembered

theorem checkTagKey_preserves (measurement tagKey : String) (node : NodeMetadata)
    (start : holds node) : holds (checkTagKey limits db rp points measurement tagKey node).2 := by
  unfold checkTagKey
  split
  · exact start
  · exact remembered node _ tagKey start

theorem tagKeys_preserves (entry : String × BatchSchema) {node : NodeMetadata}
    (start : holds node) : holds (run (checkTagKey limits db rp points entry.1)
      entry.2.tagKeys.toList node).2 :=
  run_preserves (checkTagKey_preserves limits db rp points remembered entry.1) start

theorem checkSchema_preserves (entry : String × BatchSchema) (node : NodeMetadata)
    (start : holds node) : holds (checkSchema limits db rp points entry node).2 := by
  have looped := tagKeys_preserves limits db rp points remembered entry start
  unfold checkSchema
  split
  next checked =>
    rw [checked] at looped
    exact looped
  next checked =>
    rw [checked] at looped
    exact looped

theorem checkBatch_preserves (schemas : Std.ExtTreeMap String BatchSchema) (start : holds node) :
    holds (node.checkBatch limits db rp schemas points).2 := by
  unfold checkBatch
  split
  · exact start
  · exact run_preserves (checkSchema_preserves limits db rp points remembered) start

end Preserved

theorem fst_checkTagKey_eq_ok_iff (same : SameAnswers node reached) (measurement tagKey : String) :
    (checkTagKey limits db rp points measurement tagKey reached).1 = .ok () ↔
      FitsTagLimit limits node db rp points measurement tagKey := by
  unfold checkTagKey FitsTagLimit
  split
  next unlimited => simp [unlimited]
  next limited =>
    dsimp only
    rw [same.total]
    split
    next exceeded => simp [limited, exceeded]
    next within => simp [Nat.not_lt.mp within]

def FitsSchema (limits : CardinalityLimitValues) (node : NodeMetadata) (db rp : String)
    (points : List Point) (entry : String × BatchSchema) : Prop :=
  (∀ tagKey ∈ entry.2.tagKeys.toList, FitsTagLimit limits node db rp points entry.1 tagKey) ∧
    node.store.checkFieldTypes db rp entry.1 entry.2.fieldTypes = .ok ()

theorem fst_checkSchema_eq_ok_iff (same : SameAnswers node reached) (entry : String × BatchSchema) :
    (checkSchema limits db rp points entry reached).1 = .ok () ↔
      FitsSchema limits node db rp points entry := by
  have verdict := fst_run_eq_ok_iff
    (checkTagKey_preserves limits db rp points sameAnswers_rememberCount entry.1)
    (fun tagKey state holds => fst_checkTagKey_eq_ok_iff holds entry.1 tagKey) same
    entry.2.tagKeys.toList
  have looped := tagKeys_preserves limits db rp points sameAnswers_rememberCount entry same
  unfold checkSchema FitsSchema
  rw [← verdict]
  split
  next cause after checked => simp [checked]
  next after checked =>
    rw [checked] at looped ⊢
    have sameStore : after.store = node.store := looped.store
    simp [sameStore]

variable (limits db rp points) in
theorem sameAnswers_checkBatch (node : NodeMetadata) (schemas : Std.ExtTreeMap String BatchSchema) :
    SameAnswers node (node.checkBatch limits db rp schemas points).2 :=
  checkBatch_preserves limits db rp points sameAnswers_rememberCount schemas sameAnswers_self

variable {schemas : Std.ExtTreeMap String BatchSchema}

theorem fst_checkBatch_eq_ok_iff : (node.checkBatch limits db rp schemas points).1 = .ok () ↔
      checkMeasurementCount limits node.store db schemas = .ok () ∧
        ∀ entry ∈ schemas.toList, FitsSchema limits node db rp points entry := by
  have verdict := fst_run_eq_ok_iff
    (checkSchema_preserves limits db rp points sameAnswers_rememberCount)
    (fun entry state (holds : SameAnswers node state) => fst_checkSchema_eq_ok_iff holds entry)
    sameAnswers_self schemas.toList
  unfold checkBatch
  rw [← verdict]
  cases checkMeasurementCount limits node.store db schemas <;> simp

theorem checkFieldTypes_ne_cardinalityExceeded {store : MetadataStore} {name : String}
    {fields : FieldTypes} {measurement tagKey : String} {total limit : Nat} :
    store.checkFieldTypes db rp name fields ≠
      .error (.cardinalityExceeded measurement tagKey total limit) := by
  unfold MetadataStore.checkFieldTypes
  split
  · exact nofun
  next stored _ =>
    generalize fields.toList = entries
    induction entries with
    | nil => exact nofun
    | cons entry entries ih =>
      rw [List.forM_eq_forM, List.forM_cons]
      split
      · exact ih
      · split
        · exact ih
        · exact fun conflict => by cases conflict

/-- The check that refuses a batch is the one of the measurements, of a tag key or of a schema's
types. -/
theorem checkBatch_error_cases {cause : HyperbytedbError}
    (refused : (node.checkBatch limits db rp schemas points).1 = .error cause) :
    checkMeasurementCount limits node.store db schemas = .error cause ∨
      ∃ entry ∈ schemas.toList, (∃ tagKey ∈ entry.2.tagKeys, ∃ state, SameAnswers node state ∧
          (checkTagKey limits db rp points entry.1 tagKey state).1 = .error cause) ∨
        node.store.checkFieldTypes db rp entry.1 entry.2.fieldTypes = .error cause := by
  unfold checkBatch at refused
  split at refused
  next counted => exact .inl (counted.trans refused)
  next =>
    obtain ⟨entry, listed, reached, same, refused⟩ := exists_of_fst_run_eq_error
      (checkSchema_preserves limits db rp points sameAnswers_rememberCount)
      sameAnswers_self refused
    refine .inr ⟨entry, listed, ?_⟩
    have looped := tagKeys_preserves limits db rp points sameAnswers_rememberCount entry same
    unfold checkSchema at refused
    split at refused
    next checked =>
      obtain ⟨tagKey, member, failed⟩ := exists_of_fst_run_eq_error
        (checkTagKey_preserves limits db rp points sameAnswers_rememberCount entry.1) same
        (by rw [checked, refused])
      exact .inl ⟨tagKey, Std.ExtTreeSet.mem_toList.mp member, failed⟩
    next after checked =>
      rw [checked] at looped
      have sameStore : after.store = node.store := looped.store
      exact .inr (sameStore ▸ refused)

theorem exists_of_checkBatch_eq_error
    (counted : checkMeasurementCount limits node.store db schemas = .ok ())
    {measurement tagKey : String} {total limit : Nat}
    (refused : (node.checkBatch limits db rp schemas points).1 =
      .error (.cardinalityExceeded measurement tagKey total limit)) :
    ∃ entry ∈ schemas.toList, ∃ tagKey ∈ entry.2.tagKeys,
      ¬FitsTagLimit limits node db rp points entry.1 tagKey := by
  rcases checkBatch_error_cases refused with few | ⟨entry, listed, tagged | typed⟩
  · cases counted.symm.trans few
  · obtain ⟨tagKey, member, state, same, failed⟩ := tagged
    refine ⟨entry, listed, tagKey, member, fun fits => ?_⟩
    rw [(fst_checkTagKey_eq_ok_iff same entry.1 tagKey).mpr fits] at failed
    cases failed
  · exact absurd typed checkFieldTypes_ne_cardinalityExceeded

end NodeMetadata

/-! ## Rows of tag values -/

variable {tagKey : String} {key : MeasurementKey}

theorem TagCaches.known_addKnown {caches : TagCaches} {tagValue : String}
    {otherKey : MeasurementKey} {otherTag otherValue : String} :
    (caches.addKnown key tagKey tagValue).known otherKey otherTag otherValue = true ↔
      (otherKey = key ∧ otherTag = tagKey ∧ otherValue = tagValue) ∨
        caches.known otherKey otherTag otherValue = true := by
  simp [addKnown, and_assoc]

variable {value : String}

theorem insert_of_mem {values : ExtTreeSet String} (member : value ∈ values) :
    values.insert value = values := by
  apply ExtTreeSet.ext_mem
  intro other
  rw [ExtTreeSet.mem_insert, Std.compare_eq_iff_eq]
  constructor
  · rintro (rfl | before)
    · exact member
    · exact before
  · exact Or.inr

theorem MetadataStore.tagValuesAt_storeTagValue (store : MetadataStore) (key : MeasurementKey)
    (tag : String × String) (otherKey : MeasurementKey) (otherTag : String) :
    (store.storeTagValue key.db key.rp key.measurement tag).tagValuesAt otherKey otherTag =
      if otherKey = key ∧ otherTag = tag.1 then (store.tagValuesAt key tag.1).insert tag.2
      else store.tagValuesAt otherKey otherTag := by
  unfold storeTagValue tagValuesAt listTagValues
  by_cases sameKey : otherKey = key
  · subst sameKey
    rw [ExtTreeMap.getElem?_insert, if_pos Std.ReflCmp.compare_self]
    rw [Option.getD_some, ExtTreeMap.getElem?_insert]
    by_cases sameTag : tag.1 = otherTag
    · subst sameTag
      simp
    · simp [sameTag, Ne.symm sameTag]
  · rw [ExtTreeMap.getElem?_insert]
    simp [sameKey, Ne.symm sameKey]

namespace NodeMetadata

variable {node : NodeMetadata} {db rp : String}

def KnownStored (node : NodeMetadata) : Prop :=
  ∀ key tagKey value, node.tagCaches.known key tagKey value = true →
    value ∈ node.store.tagValuesAt key tagKey

theorem KnownStored.tagValuesAt_storeTagValue (knownStored : node.KnownStored) (key : MeasurementKey)
    (tag : String × String) (otherKey : MeasurementKey) (otherTag : String) :
    (node.storeTagValue key tag).store.tagValuesAt otherKey otherTag =
      if otherKey = key ∧ otherTag = tag.1 then (node.store.tagValuesAt key tag.1).insert tag.2
      else node.store.tagValuesAt otherKey otherTag := by
  have stays : tag.2 ∈ node.store.tagValuesAt key tag.1 →
      node.store.tagValuesAt otherKey otherTag =
        if otherKey = key ∧ otherTag = tag.1 then
          (node.store.tagValuesAt key tag.1).insert tag.2
        else node.store.tagValuesAt otherKey otherTag := by
    intro member
    split
    next same =>
      obtain ⟨rfl, rfl⟩ := same
      exact (insert_of_mem member).symm
    next => rfl
  unfold NodeMetadata.storeTagValue tagValueIsKnown
  split
  next known => exact stays (knownStored key tag.1 tag.2 known)
  next =>
    split
    next stored => exact stays stored
    next => exact node.store.tagValuesAt_storeTagValue key tag otherKey otherTag

theorem KnownStored.storeTagValue (knownStored : node.KnownStored) (key : MeasurementKey)
    (tag : String × String) : (node.storeTagValue key tag).KnownStored := by
  intro otherKey otherTag value known
  rw [knownStored.tagValuesAt_storeTagValue]
  have cases_ : (otherKey = key ∧ otherTag = tag.1 ∧ value = tag.2) ∨
      node.tagCaches.known otherKey otherTag value = true := by
    revert known
    unfold NodeMetadata.storeTagValue
    split
    · exact Or.inr
    · dsimp only
      split
      · exact known_addKnown.mp
      · unfold bumpCount
        split
        · exact known_addKnown.mp
        · split <;> exact known_addKnown.mp
  split
  next same =>
    obtain ⟨rfl, rfl⟩ := same
    rw [ExtTreeSet.mem_insert, Std.compare_eq_iff_eq]
    rcases cases_ with ⟨-, -, rfl⟩ | before
    · exact Or.inl rfl
    · exact Or.inr (knownStored otherKey tag.1 value before)
  next other =>
    rcases cases_ with ⟨rfl, rfl, -⟩ | before
    · exact absurd ⟨rfl, rfl⟩ other
    · exact knownStored otherKey otherTag value before

def valuesOf (tags : List (MeasurementKey × String × String)) (key : MeasurementKey)
    (tagKey : String) : List String :=
  (tags.filter fun tag => decide (tag.1 = key ∧ tag.2.1 = tagKey)).map (·.2.2)

theorem KnownStored.storeTagValues (knownStored : node.KnownStored)
    (tags : List (MeasurementKey × String × String)) :
    (node.storeTagValues tags).KnownStored ∧ ∀ key tagKey,
      (node.storeTagValues tags).store.tagValuesAt key tagKey =
        (node.store.tagValuesAt key tagKey).insertMany (valuesOf tags key tagKey) := by
  induction tags generalizing node with
  | nil => exact ⟨knownStored, fun _ _ => ExtTreeSet.insertMany_nil.symm⟩
  | cons tag tags ih =>
    obtain ⟨later, values⟩ := ih (knownStored.storeTagValue tag.1 tag.2)
    refine ⟨later, fun key tagKey => ?_⟩
    refine (values key tagKey).trans ?_
    rw [knownStored.tagValuesAt_storeTagValue]
    unfold valuesOf
    by_cases same : tag.1 = key ∧ tag.2.1 = tagKey
    · obtain ⟨rfl, rfl⟩ := same
      rw [if_pos ⟨rfl, rfl⟩, filter_cons_of_pos (by simp), map_cons, ExtTreeSet.insertMany_cons]
    · rw [if_neg fun here => same ⟨here.1.symm, here.2.symm⟩,
        filter_cons_of_neg (by simpa using same)]

theorem mem_valuesOf {tags : List (MeasurementKey × String × String)} :
    value ∈ valuesOf tags key tagKey ↔ (key, tagKey, value) ∈ tags := by
  unfold valuesOf
  rw [mem_map]
  constructor
  · rintro ⟨tag, member, rfl⟩
    obtain ⟨listed, here⟩ := mem_filter.mp member
    obtain ⟨rfl, rfl⟩ := of_decide_eq_true here
    exact listed
  · intro listed
    exact ⟨_, mem_filter.mpr ⟨listed, by simp⟩, rfl⟩

theorem mem_tagsOf {points : List Point} :
    (key, tagKey, value) ∈ tagsOf db rp points ↔ ∃ point ∈ points,
      ⟨db, rp, point.measurement⟩ = key ∧ point.tags[tagKey]? = some value := by
  unfold tagsOf
  rw [mem_dedup, mem_flatMap]
  constructor
  · rintro ⟨point, member, listed⟩
    obtain ⟨tag, tagged, made⟩ := mem_map.mp listed
    obtain ⟨keyed, rfl⟩ := Prod.mk.inj made
    exact ⟨point, member, keyed, ExtTreeMap.mem_toList_iff_getElem?_eq_some.mp tagged⟩
  · rintro ⟨point, member, rfl, lookup⟩
    exact ⟨point, member, mem_map.mpr
      ⟨(tagKey, value), ExtTreeMap.mem_toList_iff_getElem?_eq_some.mpr lookup, rfl⟩⟩

theorem mem_batchValues {points : List Point} {measurement : String} :
    value ∈ batchValues points measurement tagKey ↔ ∃ point ∈ points,
      point.measurement = measurement ∧ point.tags[tagKey]? = some value := by
  unfold batchValues
  rw [mem_dedup, mem_filterMap]
  constructor
  · rintro ⟨point, member, lookup⟩
    obtain ⟨listed, named⟩ := mem_filter.mp member
    exact ⟨point, listed, by simpa using named, lookup⟩
  · rintro ⟨point, listed, named, lookup⟩
    exact ⟨point, mem_filter.mpr ⟨listed, by simpa using named⟩, lookup⟩

theorem store_registerSeriesBatch (node : NodeMetadata) (hashes : IngestHashes)
    (db rp : String) (points : List Point) :
    (node.registerSeriesBatch hashes db rp points).store = node.store ∧
      (node.registerSeriesBatch hashes db rp points).tagCaches = node.tagCaches := by
  induction points generalizing node with
  | nil => exact ⟨rfl, rfl⟩
  | cons point points ih => exact ih (node.registerSeries hashes db rp point)

theorem tagValues_foldl_storeMeasurement (store : MetadataStore) (db rp : String)
    (updates : List (String × MeasurementMeta)) :
    (updates.foldl (fun store => store.storeMeasurement db rp) store).tagValues =
      store.tagValues := by
  refine foldlRecOn (motive := (tagValues · = store.tagValues)) updates _
    rfl ?_
  intro stored same update _
  fun_cases storeMeasurement <;> exact same

theorem KnownStored.registerBatch (knownStored : node.KnownStored) (db rp : String)
    (schemas : ExtTreeMap String BatchSchema) (points : List Point) :
    (node.registerBatch db rp schemas points).KnownStored ∧ ∀ key tagKey,
      (node.registerBatch db rp schemas points).store.tagValuesAt key tagKey =
        (node.store.tagValuesAt key tagKey).insertMany
          (valuesOf (tagsOf db rp points) key tagKey) := by
  have rows := tagValues_foldl_storeMeasurement node.store db rp
    (node.store.measurementUpdates db rp schemas)
  have values : (node.storeMeasurements db rp
      (node.store.measurementUpdates db rp schemas)).store.tagValuesAt =
        node.store.tagValuesAt := by
    unfold tagValuesAt listTagValues storeMeasurements
    rw [rows]
  have updated : (node.storeMeasurements db rp
      (node.store.measurementUpdates db rp schemas)).KnownStored := by
    unfold KnownStored
    rw [values]
    exact knownStored
  have stored := updated.storeTagValues (tagsOf db rp points)
  rw [values] at stored
  exact stored

end NodeMetadata

end HyperbyteDb
