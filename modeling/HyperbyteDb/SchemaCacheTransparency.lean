import HyperbyteDb.BatchChecks

/-!
# When the cache of ingestion is transparent

With a cache, ingestion skips the registration of series that it has seen, and of whole
batches whose schemas it knows.  Nothing takes an entry out of the cache when the metadata
that it stands for is dropped, and batches that it knows are not counted against the limits.
So a batch has the same outcome with the cache as without it exactly if what the cache takes
for known is stored, and the batch is within the limits.
-/

namespace HyperbyteDb

open GuardedRuns List MetadataStore NodeMetadata Std

namespace NodeMetadata

variable {node : NodeMetadata} {hashes : IngestHashes} {limits : CardinalityLimitValues}
  {db rp : String} {points : List Point}

/-! ## Series -/

variable {first second : NodeMetadata} {schemas : ExtTreeMap String BatchSchema}

variable {name : String} {store : MetadataStore}

theorem seriesAt_registerSeries (node : NodeMetadata) (hashes : IngestHashes) (db rp : String)
    (point : Point) (key : MeasurementKey) : (node.registerSeries hashes db rp point).seriesAt key =
      if ⟨db, rp, point.measurement⟩ = key then
        (node.seriesAt key).insertIfNew (hashes.seriesIdForPoint point) point.tags
      else node.seriesAt key := by
  have found : (node.registerSeries hashes db rp point).seriesAt key =
      ((node.series.insert ⟨db, rp, point.measurement⟩
        ((node.seriesAt ⟨db, rp, point.measurement⟩).insertIfNew
          (hashes.seriesIdForPoint point) point.tags))[key]?).getD ∅ := rfl
  rw [found, ExtTreeMap.getElem?_insert]
  by_cases same : (⟨db, rp, point.measurement⟩ : MeasurementKey) = key
  · subst same
    simp
  · simp [same, seriesAt]

variable {id : UInt64}

theorem mem_seriesAt_registerSeriesBatch {key : MeasurementKey} :
    id ∈ (node.registerSeriesBatch hashes db rp points).seriesAt key ↔
      id ∈ node.seriesAt key ∨ ∃ point ∈ points,
        ⟨db, rp, point.measurement⟩ = key ∧ hashes.seriesIdForPoint point = id := by
  unfold registerSeriesBatch
  induction points generalizing node with
  | nil => simp
  | cons point points ih =>
    rw [foldl_cons, ih, seriesAt_registerSeries]
    split
    next same =>
      rw [ExtTreeMap.mem_insertIfNew, Std.compare_eq_iff_eq]
      simp only [exists_mem_cons_iff]
      tauto
    next other =>
      simp only [exists_mem_cons_iff, other, false_and, false_or]

theorem insertIfNew_of_mem {rows : ExtTreeMap UInt64 (ExtTreeMap String String)}
    (member : id ∈ rows) (tags : ExtTreeMap String String) :
    rows.insertIfNew id tags = rows := by
  apply ExtTreeMap.ext_getElem?
  intro other
  rw [ExtTreeMap.getElem?_insertIfNew, if_neg fun new => new.2 member]

theorem seriesAt_registerSeriesBatch_filter {keep : Point → Bool}
    (same : ∀ key, first.seriesAt key = second.seriesAt key)
    (registered : ∀ point ∈ points, keep point = false →
      hashes.seriesIdForPoint point ∈ first.seriesAt ⟨db, rp, point.measurement⟩)
    (key : MeasurementKey) : (first.registerSeriesBatch hashes db rp points).seriesAt key =
      (second.registerSeriesBatch hashes db rp (points.filter keep)).seriesAt key := by
  induction points generalizing first second with
  | nil => exact same key
  | cons point points ih =>
    have stays : ∀ other ∈ points, keep other = false → hashes.seriesIdForPoint other ∈
        (first.registerSeries hashes db rp point).seriesAt ⟨db, rp, other.measurement⟩ := by
      intro other member dropped
      have before := registered other (mem_cons_of_mem point member) dropped
      rw [seriesAt_registerSeries]
      split
      · exact ExtTreeMap.mem_insertIfNew.mpr (Or.inr before)
      · exact before
    cases kept : keep point with
    | true =>
      rw [filter_cons_of_pos kept]
      refine ih (fun key => ?_) stays
      rw [seriesAt_registerSeries, seriesAt_registerSeries, same key]
    | false =>
      rw [filter_cons_of_neg (by simp [kept])]
      refine ih (fun key => ?_) stays
      rw [seriesAt_registerSeries, ← same key]
      split
      next here =>
        subst here
        exact insertIfNew_of_mem (registered point mem_cons_self kept) _
      next => rfl

theorem storeTagValues_keeps (node : NodeMetadata)
    (tags : List (MeasurementKey × String × String)) :
    (node.storeTagValues tags).series = node.series ∧
      (node.storeTagValues tags).store.measurements = node.store.measurements := by
  refine foldlRecOn (motive := fun stored : NodeMetadata => stored.series = node.series ∧
    stored.store.measurements = node.store.measurements) tags _ ⟨rfl, rfl⟩ ?_
  intro stored same tag _
  fun_cases storeTagValue <;> exact same

theorem series_prepareUnknown (cache : Option IngestSchemaCache) :
    (node.prepareUnknown hashes limits cache db rp schemas points).node.series = node.series := by
  have same := sameAnswers_checkBatch limits db rp points node schemas
  unfold prepareUnknown
  split
  next checked =>
    rw [checked] at same
    exact same.series
  next checked =>
    rw [checked] at same
    exact (storeTagValues_keeps _ _).1.trans same.series

/-- Preparing a batch registers its series, whatever else happens. -/
theorem series_prepareBatchMetadata (node : NodeMetadata) (hashes : IngestHashes)
    (limits : CardinalityLimitValues) (cache : Option IngestSchemaCache) (db rp : String)
    (points : List Point) :
    (node.prepareBatchMetadata hashes limits cache db rp points).node.series =
      (node.registerSeriesBatch hashes db rp
        (unregisteredPoints hashes cache db rp points)).series := by
  unfold prepareBatchMetadata
  split
  · rfl
  · split
    · exact series_prepareUnknown _
    · split
      · exact (storeTagValues_keeps _ _).1
      · exact series_prepareUnknown _

/-! ## Schemas and tag values -/

def Passes (limits : CardinalityLimitValues) (node : NodeMetadata) (db rp : String)
    (schemas : ExtTreeMap String BatchSchema) (points : List Point) : Prop :=
  checkMeasurementCount limits node.store db schemas = .ok () ∧
    ∀ entry ∈ schemas.toList, FitsSchema limits node db rp points entry

theorem passes_congr (store : first.store = second.store)
    (tagCaches : first.tagCaches = second.tagCaches) :
    Passes limits first db rp schemas points ↔ Passes limits second db rp schemas points := by
  simp only [Passes, FitsSchema, FitsTagLimit, countTagValues, novelValues, tagValueIsKnown,
    store, tagCaches]

theorem KnownStored.prepareUnknown_cases (knownStored : node.KnownStored)
    (hashes : IngestHashes) (limits : CardinalityLimitValues)
    (cache : Option IngestSchemaCache) (db rp : String)
    (schemas : ExtTreeMap String BatchSchema) (points : List Point) :
    ((node.prepareUnknown hashes limits cache db rp schemas points).result = .ok () ∧
        Passes limits node db rp schemas points ∧
        (node.prepareUnknown hashes limits cache db rp schemas points).node.store.measurements =
          ((node.store.measurementUpdates db rp schemas).foldl
            (fun store => store.storeMeasurement db rp) node.store).measurements ∧
        ∀ key tagKey, (node.prepareUnknown hashes limits cache db rp schemas
            points).node.store.tagValuesAt key tagKey =
          (node.store.tagValuesAt key tagKey).insertMany
            (valuesOf (tagsOf db rp points) key tagKey)) ∨
      ((node.prepareUnknown hashes limits cache db rp schemas points).result ≠ .ok () ∧
        ¬Passes limits node db rp schemas points ∧
        (node.prepareUnknown hashes limits cache db rp schemas points).node.store =
          node.store) := by
  have same := sameAnswers_checkBatch limits db rp points node schemas
  have passes : (node.checkBatch limits db rp schemas points).1 = .ok () ↔
      Passes limits node db rp schemas points := fst_checkBatch_eq_ok_iff
  unfold prepareUnknown
  split
  next cause after checked =>
    rw [checked] at same passes
    exact Or.inr ⟨nofun, fun passed => (by cases passes.mpr passed), same.store⟩
  next after checked =>
    rw [checked] at same passes
    have sameStore : after.store = node.store := same.store
    have sameKnown : after.tagCaches.known = node.tagCaches.known := same.known
    have afterKnown : after.KnownStored := by
      unfold KnownStored
      rw [sameStore, sameKnown]
      exact knownStored
    refine Or.inl ⟨rfl, passes.mp rfl, ?_, ?_⟩
    · unfold NodeMetadata.registerBatch registerMetadataBatch
      rw [(storeTagValues_keeps _ _).2, storeMeasurements, sameStore]
    · intro key tagKey
      rw [(afterKnown.registerBatch db rp schemas points).2, sameStore]

def SchemaStored (store : MetadataStore) (db rp name : String) (schema : BatchSchema) : Prop :=
  ∃ stored, store.getMeasurement db rp name = some stored ∧
    CoversTypes stored.fieldTypes schema.fieldTypes ∧
    ∀ tagKey ∈ schema.tagKeys, tagKey ∈ stored.tagKeys

theorem mem_mergedTagKeys {batch : ExtTreeSet String} {tagKey : String} :
    tagKey ∈ store.mergedTagKeys db rp name batch ↔ tagKey ∈ batch ∨
      ∃ stored, store.getMeasurement db rp name = some stored ∧ tagKey ∈ stored.tagKeys := by
  unfold mergedTagKeys
  cases store.getMeasurement db rp name with
  | none => simp
  | some stored =>
    simp

variable {schema : BatchSchema}

theorem storeMeasurement_of_stored
    (isStored : SchemaStored store db rp name schema) :
    store.storeMeasurement db rp (name,
      { fieldTypes := store.mergedFieldTypes db rp name schema.fieldTypes
        tagKeys := store.mergedTagKeys db rp name schema.tagKeys }) = store := by
  obtain ⟨stored, found, types, tagKeys⟩ := isStored
  have sameTypes : mergeFieldTypeMap stored.fieldTypes
      (store.mergedFieldTypes db rp name schema.fieldTypes) = stored.fieldTypes := by
    rw [mergedFieldTypes, found]
    dsimp only
    rw [mergeFieldTypeMap_of_covered types]
    exact mergeFieldTypeMap_of_covered (coversTypes_self _)
  have sameKeys : stored.tagKeys.insertMany
      (store.mergedTagKeys db rp name schema.tagKeys).toList = stored.tagKeys := by
    apply ExtTreeSet.ext_mem
    intro tagKey
    rw [ExtTreeSet.mem_insertMany_list]
    simp only [contains_iff_mem, ExtTreeSet.mem_toList, mem_mergedTagKeys, found,
      Option.some.injEq, exists_eq_left']
    constructor
    · rintro (member | new | member)
      · exact member
      · exact tagKeys tagKey new
      · exact member
    · exact Or.inl
  unfold storeMeasurement mergedMeasurement
  simp [found, sameTypes, sameKeys]

theorem foldl_storeMeasurement_of_stored
    (stored : ∀ entry ∈ schemas.toList, SchemaStored store db rp entry.1 entry.2) :
    (store.measurementUpdates db rp schemas).foldl
      (fun store => store.storeMeasurement db rp) store = store := by
  refine foldlRecOn (motive := (· = store)) _ _ rfl ?_
  rintro _ rfl update member
  obtain ⟨entry, listed, rfl⟩ := mem_map.mp member
  exact storeMeasurement_of_stored (stored entry listed)

theorem schemaStored_of_foldl_eq (lookup : schemas[name]? = some schema)
    (fit : TypesFit (store.fieldTypesAt ⟨db, rp, name⟩) schema.fieldTypes)
    (same : ((store.measurementUpdates db rp schemas).foldl
      (fun store => store.storeMeasurement db rp) store).measurements = store.measurements) :
    SchemaStored store db rp name schema := by
  have updated := getMeasurement_foldl_storeMeasurement store db rp
    (store.nodup_measurementUpdates db rp schemas) (mem_map.mpr
      ⟨(name, schema), ExtTreeMap.mem_toList_iff_getElem?_eq_some.mpr lookup, rfl⟩)
  rw [getMeasurement, same] at updated
  refine ⟨_, updated, ?_, fun tagKey member => ?_⟩
  · rw [fieldTypes_updatedMeasurement, ← fieldTypesAt_eq,
      mergedFieldTypes_eq, mergeFieldTypeMap_merge]
    exact coversTypes_merge_batch fit
  · exact mem_tagKeys_updatedMeasurement.mpr (Or.inr (mem_mergedTagKeys.mpr (Or.inl member)))

theorem checkFieldTypes_of_typesFit {batch : FieldTypes}
    (fit : TypesFit (store.fieldTypesAt ⟨db, rp, name⟩) batch) :
    store.checkFieldTypes db rp name batch = .ok () := by
  rw [fieldTypesAt_eq] at fit
  unfold checkFieldTypes
  cases found : store.getMeasurement db rp name with
  | none => rfl
  | some stored =>
    rw [found] at fit
    apply forM_eq_ok_iff.mpr
    intro entry listed
    cases known : stored.fieldTypes[entry.1]? with
    | none => rfl
    | some expected =>
      have fits := fit entry.1 expected entry.2 known
        (ExtTreeMap.mem_toList_iff_getElem?_eq_some.mp listed)
      simp [fits]

theorem typesFit_of_covers {wide batch : FieldTypes} (covers : CoversTypes wide batch) :
    TypesFit wide batch := by
  intro field known type lookup typed
  obtain ⟨other, found, absorbs⟩ := covers field type typed
  obtain rfl := Option.some.inj (lookup.symm.trans found)
  exact fieldTypesCompatible_comm type known ▸
    compatible_of_absorbs absorbs (fieldTypesCompatible_self known)

theorem newTags_subset_tagsOf {cache : IngestSchemaCache} {tag : MeasurementKey × String × String}
    (member : tag ∈ newTags hashes db rp cache points) : tag ∈ tagsOf db rp points := by
  obtain ⟨hashed, fresh, rfl⟩ := mem_map.mp (mem_dedup.mp member)
  obtain ⟨point, inFresh, made⟩ := mem_flatMap.mp (mem_of_mem_filter fresh)
  obtain ⟨tag, tagged, rfl⟩ := mem_map.mp made
  exact mem_dedup.mpr (mem_flatMap.mpr ⟨point, mem_of_mem_filter inFresh,
    mem_map.mpr ⟨tag, tagged, rfl⟩⟩)

/-! ## With and without a cache -/

structure SameRegistered (first second : NodeMetadata) : Prop where
  measurements : first.store.measurements = second.store.measurements
  tagValues : ∀ key tagKey,
    first.store.tagValuesAt key tagKey = second.store.tagValuesAt key tagKey
  series : ∀ key, first.seriesAt key = second.seriesAt key

/-- A batch is accepted with the cache exactly if it is accepted without it, and leaves the
same registered. -/
def CacheTransparent (hashes : IngestHashes) (limits : CardinalityLimitValues)
    (node : NodeMetadata) (cache : IngestSchemaCache) (db rp : String) (points : List Point) :
    Prop :=
  ((node.prepareBatchMetadata hashes limits (some cache) db rp points).result = .ok () ↔
      (node.prepareBatchMetadata hashes limits none db rp points).result = .ok ()) ∧
    SameRegistered (node.prepareBatchMetadata hashes limits (some cache) db rp points).node
      (node.prepareBatchMetadata hashes limits none db rp points).node

def SeenRegistered (hashes : IngestHashes) (node : NodeMetadata) (cache : IngestSchemaCache)
    (db rp : String) (points : List Point) : Prop :=
  ∀ point ∈ points, cache.series.contains (hashes.schemaHashes.hashSeries db rp point) = true →
    hashes.seriesIdForPoint point ∈ node.seriesAt ⟨db, rp, point.measurement⟩

/-- What the cache takes for known is stored, and a batch that it knows is within the
limits. -/
structure CacheTruthful (hashes : IngestHashes) (limits : CardinalityLimitValues)
    (node : NodeMetadata) (cache : IngestSchemaCache) (db rp : String) (points : List Point) :
    Prop where
  series : SeenRegistered hashes node cache db rp points
  schemas : ∀ schemas, batchSchemas ∅ points = .ok schemas →
    cache.allSchemasKnown hashes.schemaHashes db rp schemas = true →
    ∀ entry ∈ schemas.toList, SchemaStored node.store db rp entry.1 entry.2
  tags : ∀ schemas, batchSchemas ∅ points = .ok schemas →
    cache.allSchemasKnown hashes.schemaHashes db rp schemas = true →
    ∀ key tagKey value, (key, tagKey, value) ∈ tagsOf db rp points →
      value ∈ node.store.tagValuesAt key tagKey ∨
        (key, tagKey, value) ∈ newTags hashes db rp cache points
  within : ∀ schemas, batchSchemas ∅ points = .ok schemas →
    cache.allSchemasKnown hashes.schemaHashes db rp schemas = true →
    checkMeasurementCount limits node.store db schemas = .ok () ∧
      ∀ entry ∈ schemas.toList, ∀ tagKey ∈ entry.2.tagKeys.toList,
        FitsTagLimit limits node db rp points entry.1 tagKey

variable {cache : IngestSchemaCache}

theorem seriesAt_congr (same : first.series = second.series) (key : MeasurementKey)
    : first.seriesAt key = second.seriesAt key := by
  rw [seriesAt, seriesAt, same]

variable (limits) in
theorem sameSeries_iff :
    (∀ key, (node.prepareBatchMetadata hashes limits (some cache) db rp points).node.seriesAt key =
        (node.prepareBatchMetadata hashes limits none db rp points).node.seriesAt key) ↔
      SeenRegistered hashes node cache db rp points := by
  have cached := seriesAt_congr
    (series_prepareBatchMetadata node hashes limits (some cache) db rp points)
  have uncached := seriesAt_congr (series_prepareBatchMetadata node hashes limits none db rp points)
  simp only [cached, uncached]
  unfold unregisteredPoints
  dsimp only
  constructor
  · intro same point member seen
    have registered : hashes.seriesIdForPoint point ∈
        (node.registerSeriesBatch hashes db rp points).seriesAt ⟨db, rp, point.measurement⟩ :=
      mem_seriesAt_registerSeriesBatch.mpr (Or.inr ⟨point, member, rfl, rfl⟩)
    rw [← same] at registered
    rcases mem_seriesAt_registerSeriesBatch.mp registered with before |
      ⟨other, fresh, sameKey, sameId⟩
    · exact before
    · -- a point of the same series has the same hash, so it was seen as well
      have unseen := (mem_filter.mp fresh).2
      have sameMeasurement : other.measurement = point.measurement := by
        simpa using sameKey
      have sameHash : hashes.schemaHashes.hashSeries db rp other =
          hashes.schemaHashes.hashSeries db rp point := by
        unfold IngestHashes.schemaHashes
        dsimp only
        rw [sameMeasurement, sameId]
      rw [sameHash, seen] at unseen
      cases unseen
  · intro registered key
    refine (seriesAt_registerSeriesBatch_filter (fun _ => rfl) ?_ key).symm
    intro point member seen
    exact registered point member (by simpa using seen)

/-- Storing the new tags leaves the same values as storing all of them if the others are
stored. -/
theorem insertMany_newTags_iff : (∀ key tagKey, (node.store.tagValuesAt key tagKey).insertMany
          (valuesOf (newTags hashes db rp cache points) key tagKey) =
        (node.store.tagValuesAt key tagKey).insertMany
          (valuesOf (tagsOf db rp points) key tagKey)) ↔
      ∀ key tagKey value, (key, tagKey, value) ∈ tagsOf db rp points →
        value ∈ node.store.tagValuesAt key tagKey ∨
          (key, tagKey, value) ∈ newTags hashes db rp cache points := by
  have mem_iff : ∀ {key : MeasurementKey} {tagKey value : String}
      {tags : List (MeasurementKey × String × String)},
      value ∈ (node.store.tagValuesAt key tagKey).insertMany (valuesOf tags key tagKey) ↔
        value ∈ node.store.tagValuesAt key tagKey ∨ (key, tagKey, value) ∈ tags := by
    intro key tagKey value tags
    rw [ExtTreeSet.mem_insertMany_list, contains_iff_mem, mem_valuesOf]
  constructor
  · intro same key tagKey value member
    exact mem_iff.mp (same key tagKey ▸ mem_iff.mpr (Or.inr member))
  · intro stored key tagKey
    apply ExtTreeSet.ext_mem
    intro value
    rw [mem_iff, mem_iff]
    constructor
    · exact Or.imp_right newTags_subset_tagsOf
    · rintro (before | member)
      · exact Or.inl before
      · exact stored key tagKey value member

/-- The two nodes differ in their series only. -/
structure SameStore (first second : NodeMetadata) : Prop where
  store : first.store = second.store
  tagCaches : first.tagCaches = second.tagCaches

theorem SameStore.knownStored (same : SameStore first second) (knownStored : second.KnownStored)
    : first.KnownStored := by
  unfold KnownStored
  rw [same.store, same.tagCaches]
  exact knownStored

/-- The outcomes agree up to series. -/
structure SameOutcome (first second : PrepareOutcome) : Prop where
  result : first.result = .ok () ↔ second.result = .ok ()
  measurements : first.node.store.measurements = second.node.store.measurements
  tagValues : ∀ key tagKey,
    first.node.store.tagValuesAt key tagKey = second.node.store.tagValuesAt key tagKey

section

variable (firstSame : SameStore first node) (secondSame : SameStore second node)
  (knownStored : node.KnownStored)
include firstSame secondSame knownStored

/-- Batches that are checked have the same outcome with and without a cache. -/
theorem prepareUnknown_agrees (firstCache secondCache : Option IngestSchemaCache) :
    SameOutcome (first.prepareUnknown hashes limits firstCache db rp schemas points)
      (second.prepareUnknown hashes limits secondCache db rp schemas points) := by
  have agree : Passes limits first db rp schemas points ↔
      Passes limits second db rp schemas points :=
    passes_congr (firstSame.store.trans secondSame.store.symm)
      (firstSame.tagCaches.trans secondSame.tagCaches.symm)
  rcases (firstSame.knownStored knownStored).prepareUnknown_cases hashes limits firstCache db rp
      schemas points with ⟨ok, passes, rows, values⟩ | ⟨refused, fails, unchanged⟩ <;>
    rcases (secondSame.knownStored knownStored).prepareUnknown_cases hashes limits secondCache db
      rp schemas points with ⟨ok', passes', rows', values'⟩ | ⟨refused', fails', unchanged'⟩
  · refine ⟨by simp [ok, ok'], ?_, fun key tagKey => ?_⟩
    · rw [rows, rows', firstSame.store, secondSame.store]
    · rw [values, values', firstSame.store, secondSame.store]
  · exact absurd (agree.mp passes) fails'
  · exact absurd (agree.mpr passes') fails
  · refine ⟨by simp [refused, refused'], ?_, fun key tagKey => ?_⟩
    · rw [unchanged, unchanged', firstSame.store, secondSame.store]
    · rw [unchanged, unchanged', firstSame.store, secondSame.store]

/-- A batch that is known has the outcome that it would have without the cache exactly if
its schemas and known tags are stored and it is within the limits. -/
theorem prepareKnown_agrees_iff : SameOutcome (first.prepareKnown hashes db rp cache points)
        (second.prepareUnknown hashes limits none db rp schemas points) ↔
      (∀ entry ∈ schemas.toList, SchemaStored node.store db rp entry.1 entry.2) ∧
      (∀ key tagKey value, (key, tagKey, value) ∈ tagsOf db rp points →
        value ∈ node.store.tagValuesAt key tagKey ∨
          (key, tagKey, value) ∈ newTags hashes db rp cache points) ∧
      checkMeasurementCount limits node.store db schemas = .ok () ∧
      ∀ entry ∈ schemas.toList, ∀ tagKey ∈ entry.2.tagKeys.toList,
        FitsTagLimit limits node db rp points entry.1 tagKey := by
  have accepted : (first.prepareKnown hashes db rp cache points).result = .ok () := rfl
  have rows : (first.prepareKnown hashes db rp cache points).node.store.measurements =
      node.store.measurements :=
    (storeTagValues_keeps _ _).2.trans (by rw [firstSame.store])
  have values : ∀ key tagKey, (first.prepareKnown hashes db rp cache
      points).node.store.tagValuesAt key tagKey = (node.store.tagValuesAt key tagKey).insertMany
        (valuesOf (newTags hashes db rp cache points) key tagKey) := by
    intro key tagKey
    rw [← firstSame.store]
    exact ((firstSame.knownStored knownStored).storeTagValues _).2 key tagKey
  have passesNode : Passes limits second db rp schemas points ↔
      Passes limits node db rp schemas points :=
    passes_congr secondSame.store secondSame.tagCaches
  constructor
  · rintro ⟨result, measurements, tagValues⟩
    rcases (secondSame.knownStored knownStored).prepareUnknown_cases hashes limits none db rp
      schemas points with ⟨-, passes, rows', values'⟩ | ⟨refused, -, -⟩
    · have passes := passesNode.mp passes
      rw [rows, rows', secondSame.store] at measurements
      refine ⟨?_, ?_, passes.1, fun entry listed => (passes.2 entry listed).1⟩
      · intro entry listed
        exact schemaStored_of_foldl_eq
          (ExtTreeMap.mem_toList_iff_getElem?_eq_some.mp listed)
          (typesFit_of_checkFieldTypes (passes.2 entry listed).2) measurements.symm
      · refine insertMany_newTags_iff.mp fun key tagKey => ?_
        rw [← values, tagValues, values', secondSame.store]
    · exact absurd (result.mp accepted) refused
  · rintro ⟨stored, tags, counted, within⟩
    have passes : Passes limits node db rp schemas points := by
      refine ⟨counted, fun entry listed => ⟨within entry listed, ?_⟩⟩
      obtain ⟨measurement, found, covers, -⟩ := stored entry listed
      apply checkFieldTypes_of_typesFit
      rw [fieldTypesAt_eq, found]
      exact typesFit_of_covers covers
    rcases (secondSame.knownStored knownStored).prepareUnknown_cases hashes limits none db rp
      schemas points with ⟨ok', -, rows', values'⟩ | ⟨-, fails, -⟩
    · refine ⟨by simp [accepted, ok'], ?_, fun key tagKey => ?_⟩
      · rw [rows, rows', secondSame.store, foldl_storeMeasurement_of_stored stored]
      · rw [values, values', secondSame.store]
        exact insertMany_newTags_iff.mpr tags key tagKey
    · exact absurd (passesNode.mpr passes) fails

end

theorem cacheTransparent_iff_sameOutcome :
    CacheTransparent hashes limits node cache db rp points ↔
      SeenRegistered hashes node cache db rp points ∧
        SameOutcome (node.prepareBatchMetadata hashes limits (some cache) db rp points)
          (node.prepareBatchMetadata hashes limits none db rp points) := by
  rw [← sameSeries_iff limits]
  constructor
  · rintro ⟨results, same⟩
    exact ⟨same.series, results, same.measurements, same.tagValues⟩
  · rintro ⟨sameSeries, same⟩
    exact ⟨same.result, same.measurements, same.tagValues, sameSeries⟩

/-- A batch has the same outcome with the cache as without it exactly if what the cache
takes for known is stored and within the limits. -/
theorem KnownStored.cacheTransparent_iff (knownStored : node.KnownStored) :
    CacheTransparent hashes limits node cache db rp points ↔
      CacheTruthful hashes limits node cache db rp points := by
  have sameCached : SameStore (node.registerSeriesBatch hashes db rp
      (unregisteredPoints hashes (some cache) db rp points)) node :=
    ⟨(store_registerSeriesBatch ..).1, (store_registerSeriesBatch ..).2⟩
  have sameUncached : SameStore (node.registerSeriesBatch hashes db rp
      (unregisteredPoints hashes none db rp points)) node :=
    ⟨(store_registerSeriesBatch ..).1, (store_registerSeriesBatch ..).2⟩
  rw [cacheTransparent_iff_sameOutcome]
  unfold prepareBatchMetadata
  cases built : batchSchemas ∅ points with
  | error cause =>
    constructor
    · rintro ⟨series, -⟩
      exact ⟨series, by simp [built], by simp [built], by simp [built]⟩
    · intro truthful
      refine ⟨truthful.series, by simp, ?_, fun key tagKey => ?_⟩
      · rw [sameCached.store, sameUncached.store]
      · rw [sameCached.store, sameUncached.store]
  | ok schemas =>
    dsimp only
    by_cases known : cache.allSchemasKnown hashes.schemaHashes db rp schemas = true
    · rw [if_pos known, prepareKnown_agrees_iff sameCached sameUncached knownStored]
      constructor
      · rintro ⟨series, stored, tags, within⟩
        refine ⟨series, ?_, ?_, ?_⟩ <;> intro other same _ <;>
          obtain rfl := Except.ok.inj (built.symm.trans same)
        · exact stored
        · exact tags
        · exact within
      · intro truthful
        exact ⟨truthful.series, truthful.schemas schemas built known,
          truthful.tags schemas built known, truthful.within schemas built known⟩
    · rw [if_neg known]
      constructor
      · rintro ⟨series, -⟩
        refine ⟨series, ?_, ?_, ?_⟩ <;> intro other same hit <;>
          obtain rfl := Except.ok.inj (built.symm.trans same) <;>
          exact absurd hit known
      · intro truthful
        exact ⟨truthful.series,
          prepareUnknown_agrees sameCached sameUncached knownStored (some cache) none⟩

/-! ## What is known stays stored -/

theorem KnownStored.prepareBatchMetadata (knownStored : node.KnownStored)
    (hashes : IngestHashes) (limits : CardinalityLimitValues)
    (cache : Option IngestSchemaCache) (db rp : String) (points : List Point) :
    (node.prepareBatchMetadata hashes limits cache db rp points).node.KnownStored := by
  have started : SameStore (node.registerSeriesBatch hashes db rp
      (unregisteredPoints hashes cache db rp points)) node :=
    ⟨(store_registerSeriesBatch ..).1, (store_registerSeriesBatch ..).2⟩
  have unknown : ∀ schemas, ((node.registerSeriesBatch hashes db rp
      (unregisteredPoints hashes cache db rp points)).prepareUnknown hashes limits cache db rp
        schemas points).node.KnownStored := by
    intro schemas
    have before := started.knownStored knownStored
    generalize node.registerSeriesBatch hashes db rp
      (unregisteredPoints hashes cache db rp points) = start at before
    have same := sameAnswers_checkBatch limits db rp points start schemas
    have checked : (start.checkBatch limits db rp schemas points).2.KnownStored := by
      unfold KnownStored
      rw [same.store, same.known]
      exact before
    unfold prepareUnknown
    split
    next found =>
      rw [found] at checked
      exact checked
    next found =>
      rw [found] at checked
      exact (checked.registerBatch db rp schemas points).1
  unfold NodeMetadata.prepareBatchMetadata
  split
  · exact started.knownStored knownStored
  · split
    · exact unknown _
    · split
      · exact ((started.knownStored knownStored).storeTagValues _).1
      · exact unknown _

theorem knownStored_restart : node.restart.KnownStored := by
  intro key tagKey value known
  simpa [restart, warmTagValueCounts] using known

theorem KnownStored.deleteMeasurement (knownStored : node.KnownStored) (db rp name : String) :
    (node.deleteMeasurement db rp name).KnownStored := by
  intro key tagKey value known
  exact knownStored key tagKey value (Bool.and_eq_true_iff.mp known).2

theorem KnownStored.dropDatabase (knownStored : node.KnownStored) (name : String) :
    (node.dropDatabase name).KnownStored := by
  intro key tagKey value known
  obtain ⟨other, known⟩ := Bool.and_eq_true_iff.mp known
  have stored := knownStored key tagKey value known
  unfold NodeMetadata.dropDatabase tagValuesAt listTagValues
  cases rows : node.store.tagValues[key]? with
  | none => simp [tagValuesAt, listTagValues, rows] at stored
  | some rows_ =>
    simpa [tagValuesAt, listTagValues, rows, Option.filter, other] using stored

end NodeMetadata

/-! ## Histories -/

/-- A node's metadata, and the caches of those who write to it. -/
structure CachedMetadata where
  node : NodeMetadata := restart {}
  caches : Nat → IngestSchemaCache := fun _ => {}

/-- What happens to a node's metadata; each writer has limits of its own. -/
inductive MetadataEvent where
  | batch (cache : Nat) (limits : CardinalityLimitValues) (db rp : String) (points : List Point)
  | dropMeasurement (db rp name : String)
  | dropDatabase (name : String)
  | restart

namespace CachedMetadata

variable (hashes : IngestHashes) (state : CachedMetadata)

def next : MetadataEvent → CachedMetadata
  | .batch cache limits db rp points =>
    let outcome := state.node.prepareBatchMetadata hashes limits (some (state.caches cache)) db
      rp points
    ⟨outcome.node, Function.update state.caches cache (outcome.cache.getD {})⟩
  | .dropMeasurement db rp name => ⟨state.node.deleteMeasurement db rp name, state.caches⟩
  | .dropDatabase name => ⟨state.node.dropDatabase name, state.caches⟩
  | .restart => ⟨state.node.restart, fun _ => {}⟩

def Transparent : MetadataEvent → Prop
  | .batch cache limits db rp points =>
    NodeMetadata.CacheTransparent hashes limits state.node (state.caches cache) db rp points
  | _ => True

def Truthful : MetadataEvent → Prop
  | .batch cache limits db rp points =>
    NodeMetadata.CacheTruthful hashes limits state.node (state.caches cache) db rp points
  | _ => True

variable {hashes state}

theorem knownStored_next (knownStored : state.node.KnownStored) (event : MetadataEvent) :
    (state.next hashes event).node.KnownStored := by
  cases event with
  | batch cache limits db rp points =>
    exact knownStored.prepareBatchMetadata hashes limits _ db rp points
  | dropMeasurement db rp name => exact knownStored.deleteMeasurement db rp name
  | dropDatabase name => exact knownStored.dropDatabase name
  | restart => exact knownStored_restart

end CachedMetadata

/-- **The cache is transparent** over a history of batches through any number of caches,
drops and restarts exactly if at every batch what its cache takes for known is stored and
within the limits. -/
theorem schema_cache_transparent_iff (hashes : IngestHashes) (events : List MetadataEvent) :
    Along (CachedMetadata.next hashes) (CachedMetadata.Transparent hashes) {} events ↔
      Along (CachedMetadata.next hashes) (CachedMetadata.Truthful hashes) {} events := by
  have agrees : ∀ (state : CachedMetadata) event, state.node.KnownStored →
      (state.Transparent hashes event ↔ state.Truthful hashes event) := by
    intro state event knownStored
    cases event with
    | batch cache limits db rp points => exact knownStored.cacheTransparent_iff
    | _ => exact Iff.rfl
  exact along_iff_along_of_invariant agrees
    (fun state event knownStored _ => CachedMetadata.knownStored_next knownStored event)
    knownStored_restart

/-- Hashes for a sample with one measurement, one schema and one tag, where none collide. -/
def sameHashes : IngestHashes where
  hashKey _ _ _ := 0
  hashSchema _ _ := 0
  hashTag _ _ _ _ _ := 0
  hashSeries _ _ _ id := id
  seriesIdForPoint _ := 0

def sampledPoint : Point :=
  { measurement := "m", tags := .ofList [("host", "a")],
    fields := .ofList [("f", FieldValue.integer 1)], timestamp := 0 }

/-- A measurement that was dropped is not registered again when it is written to. -/
theorem schema_cache_not_transparent :
    ¬Along (CachedMetadata.next sameHashes) (CachedMetadata.Transparent sameHashes) {}
      [.batch 0 {} "db" "rp" [sampledPoint], .dropMeasurement "db" "rp" "m",
        .batch 0 {} "db" "rp" [sampledPoint]] := by
  rintro ⟨-, -, ⟨-, same⟩, -⟩
  have missing := congrArg (·[(⟨"db", "rp", "m"⟩ : MeasurementKey)]?.isSome) same.measurements
  revert missing
  decide +kernel

end HyperbyteDb
