import HyperbyteDb.MetadataGrowth

/-!
# What a registered batch leaves in the store

Each measurement of a batch has its own update, which changes the types of that measurement
only.
-/

namespace HyperbyteDb

open MetadataStore Std

/-! ## Merged types -/

def TypesFit (existing batch : FieldTypes) : Prop :=
  ∀ (field : String) known type, existing[field]? = some known → batch[field]? = some type →
    fieldTypesCompatible known type = true

variable {batch : FieldTypes}

theorem coversTypes_merge_batch {existing : FieldTypes} (fit : TypesFit existing batch) :
    CoversTypes (mergeFieldTypeMap existing batch) batch := by
  intro field type lookup
  rw [getElem?_mergeFieldTypeMap, lookup]
  cases stored : existing[field]? with
  | none => exact ⟨type, rfl, absorbs_self type⟩
  | some known =>
    rcases widenFieldDisc_cases (fit field known type stored lookup) with
      ⟨-, widened⟩ | ⟨absorbs, widened⟩
    · exact ⟨type, by simp [mergeFieldDisc, widened], absorbs_self type⟩
    · exact ⟨known, by simp [mergeFieldDisc, widened], absorbs⟩

theorem mergeFieldTypeMap_of_covers {existing wide : FieldTypes}
    (covers : CoversTypes wide existing) : mergeFieldTypeMap existing wide = wide := by
  apply ExtTreeMap.ext_getElem?
  intro field
  rw [getElem?_mergeFieldTypeMap]
  cases stored : existing[field]? with
  | none => cases wide[field]? <;> rfl
  | some known =>
    obtain ⟨other, lookup, absorbs⟩ := covers field known stored
    have widened : widenFieldDisc known other = some other := absorbs
    simp [lookup, mergeFieldDisc, widened]

theorem mergeFieldTypeMap_empty (batch : FieldTypes) : mergeFieldTypeMap ∅ batch = batch :=
  mergeFieldTypeMap_of_covers (by simp [CoversTypes])

/-- Merging types that are merged already changes nothing. -/
theorem mergeFieldTypeMap_merge (existing batch : FieldTypes) :
    mergeFieldTypeMap existing (mergeFieldTypeMap existing batch) =
      mergeFieldTypeMap existing batch :=
  mergeFieldTypeMap_of_covers (.of_widened (widened_merge existing batch))

theorem mergeFieldDisc_of_absorbs {wide narrow : FieldType} (absorbs : Absorbs wide narrow) :
    mergeFieldDisc wide narrow = wide := by
  revert wide narrow
  decide

theorem mergeFieldTypeMap_of_covered {existing : FieldTypes}
    (covers : CoversTypes existing batch) : mergeFieldTypeMap existing batch = existing := by
  apply ExtTreeMap.ext_getElem?
  intro field
  rw [getElem?_mergeFieldTypeMap]
  cases typed : batch[field]? with
  | none => rfl
  | some type =>
    obtain ⟨other, lookup, absorbs⟩ := covers field type typed
    simp [lookup, mergeFieldDisc_of_absorbs absorbs]

/-! ## Updates of the store -/

namespace MetadataStore

variable {store : MetadataStore} {db rp : String}

theorem mergedFieldTypes_eq (store : MetadataStore) (db rp name : String) (batch : FieldTypes) :
    store.mergedFieldTypes db rp name batch =
      mergeFieldTypeMap (store.fieldTypesAt ⟨db, rp, name⟩) batch := by
  unfold mergedFieldTypes getMeasurement fieldTypesAt
  cases store.measurements[(⟨db, rp, name⟩ : MeasurementKey)]? with
  | none => exact (mergeFieldTypeMap_empty batch).symm
  | some stored => rfl

end MetadataStore

variable (existing : Option MeasurementMeta) (update : MeasurementMeta)

def updatedMeasurement : MeasurementMeta :=
  match existing with
  | none => update
  | some stored =>
    let merged : MeasurementMeta :=
      { update with
        fieldTypes := mergeFieldTypeMap stored.fieldTypes update.fieldTypes
        tagKeys := stored.tagKeys.insertMany update.tagKeys.toList }
    if stored.fieldTypes == merged.fieldTypes && decide (stored.tagKeys = merged.tagKeys) then
      stored
    else merged

theorem fieldTypes_updatedMeasurement : (updatedMeasurement existing update).fieldTypes =
      mergeFieldTypeMap ((existing.map (·.fieldTypes)).getD ∅) update.fieldTypes := by
  unfold updatedMeasurement
  cases existing with
  | none => exact (mergeFieldTypeMap_empty _).symm
  | some stored =>
    dsimp only
    split
    next unchanged =>
      rw [Bool.and_eq_true, beq_iff_eq] at unchanged
      exact unchanged.1
    next => rfl

variable {update : MeasurementMeta}

theorem mem_tagKeys_updatedMeasurement {existing : Option MeasurementMeta} {tagKey : String} :
    tagKey ∈ (updatedMeasurement existing update).tagKeys ↔
      (∃ stored, existing = some stored ∧ tagKey ∈ stored.tagKeys) ∨ tagKey ∈ update.tagKeys := by
  unfold updatedMeasurement
  cases existing with
  | none => simp
  | some stored =>
    have merged : tagKey ∈ stored.tagKeys.insertMany update.tagKeys.toList ↔
        tagKey ∈ stored.tagKeys ∨ tagKey ∈ update.tagKeys := by
      simp
    dsimp only
    split
    next unchanged =>
      rw [Bool.and_eq_true, decide_eq_true_eq] at unchanged
      rw [unchanged.2]
      simp
    next =>
      simp

namespace MetadataStore

variable {store : MetadataStore} {db rp : String}

theorem getMeasurement_storeMeasurement (store : MetadataStore) (db rp : String)
    (update : String × MeasurementMeta) (probe : String) :
    (store.storeMeasurement db rp update).getMeasurement db rp probe =
      if update.1 = probe then
        some (updatedMeasurement (store.getMeasurement db rp probe) update.2)
      else store.getMeasurement db rp probe := by
  have inserted : ∀ stored : MeasurementMeta, ({ store with
      measurements := store.measurements.insert ⟨db, rp, update.1⟩ stored } :
        MetadataStore).getMeasurement db rp probe =
          if update.1 = probe then some stored else store.getMeasurement db rp probe := by
    intro stored
    unfold getMeasurement
    rw [ExtTreeMap.getElem?_insert]
    simp
  unfold storeMeasurement
  dsimp only
  by_cases same : update.1 = probe
  · subst same
    unfold mergedMeasurement updatedMeasurement
    cases found : store.getMeasurement db rp update.1 with
    | none =>
      simpa using inserted update.2
    | some stored =>
      simp only [Option.any_some]
      split
      · exact found
      · simpa using inserted _
  · split
    · rfl
    · rw [inserted, if_neg same]

theorem fieldTypesAt_eq (store : MetadataStore) (db rp name : String) :
    store.fieldTypesAt ⟨db, rp, name⟩ =
      ((store.getMeasurement db rp name).map (·.fieldTypes)).getD ∅ :=
  rfl

theorem measurements_foldl_storeTagValue (store : MetadataStore) (db rp name : String)
    (tags : List (String × String)) :
    (tags.foldl (fun store => store.storeTagValue db rp name) store).measurements =
      store.measurements := by
  induction tags generalizing store with
  | nil => rfl
  | cons tag tags ih => exact ih (store.storeTagValue db rp name tag)

theorem measurements_registerMetadataBatch (updates : List (String × MeasurementMeta))
    (tags : List (String × List (String × String))) :
    (store.registerMetadataBatch db rp updates tags).measurements =
      (updates.foldl (fun store => store.storeMeasurement db rp) store).measurements := by
  unfold registerMetadataBatch
  generalize updates.foldl (fun store => store.storeMeasurement db rp) store = updated
  induction tags generalizing updated with
  | nil => rfl
  | cons batch tags ih =>
    exact (ih _).trans (measurements_foldl_storeTagValue updated db rp batch.1 batch.2)

variable {name : String}

variable {updates : List (String × MeasurementMeta)}

variable (store db rp) in
theorem getMeasurement_foldl_storeMeasurement
    (distinct : (updates.map Prod.fst).Nodup) (member : (name, update) ∈ updates) :
    (updates.foldl (fun store => store.storeMeasurement db rp) store).getMeasurement db rp name =
      some (updatedMeasurement (store.getMeasurement db rp name) update) :=
  KeyedUpdates.read_foldl_of_mem (fun state name => getMeasurement state db rp name)
    (fun existing update => some (updatedMeasurement existing update))
    (fun state entry probe => getMeasurement_storeMeasurement state db rp entry probe) distinct
    member

theorem fieldTypesAt_registerMetadataBatch
    (distinct : (updates.map Prod.fst).Nodup) (tags : List (String × List (String × String)))
    (member : (name, update) ∈ updates) :
    (store.registerMetadataBatch db rp updates tags).fieldTypesAt ⟨db, rp, name⟩ =
      mergeFieldTypeMap (store.fieldTypesAt ⟨db, rp, name⟩) update.fieldTypes := by
  have updated : (store.registerMetadataBatch db rp updates tags).getMeasurement db rp name =
      some (updatedMeasurement (store.getMeasurement db rp name) update) := by
    rw [getMeasurement, measurements_registerMetadataBatch]
    exact getMeasurement_foldl_storeMeasurement store db rp distinct member
  rw [fieldTypesAt_eq, updated]
  exact fieldTypes_updatedMeasurement _ _

end MetadataStore

/-! ## Batches -/

variable {store : MetadataStore}

theorem typesFit_of_checkFieldTypes {db rp : String}
    (checked : store.checkFieldTypes db rp name batch = .ok ()) :
    TypesFit (store.fieldTypesAt ⟨db, rp, name⟩) batch := by
  intro field known type lookup typed
  unfold checkFieldTypes getMeasurement at checked
  unfold fieldTypesAt at lookup
  cases stored : store.measurements[(⟨db, rp, name⟩ : MeasurementKey)]? with
  | none =>
    rw [stored] at lookup
    simp at lookup
  | some existing =>
    rw [stored] at checked lookup
    have passed := forM_eq_ok_iff.mp checked (field, type)
      (ExtTreeMap.mem_toList_iff_getElem?_eq_some.mpr typed)
    have known : existing.fieldTypes[field]? = some known := lookup
    rw [known] at passed
    by_contra conflict
    simp [conflict] at passed

variable {schema : BatchSchema}

theorem typesFit_of_checkBatch {limits : CardinalityLimitValues}
    {db rp : String} {schemas : ExtTreeMap String BatchSchema} {points : List Point}
    (checked : checkBatch limits store db rp schemas points = .ok ())
    (lookup : schemas[name]? = some schema) :
    TypesFit (store.fieldTypesAt ⟨db, rp, name⟩) schema.fieldTypes := by
  obtain ⟨-, -, checked⟩ := ByteReaders.exists_of_bind_eq_ok checked
  have passed := forM_eq_ok_iff.mp checked (name, schema)
    (ExtTreeMap.mem_toList_iff_getElem?_eq_some.mpr lookup)
  obtain ⟨-, -, passed⟩ := ByteReaders.exists_of_bind_eq_ok passed
  exact typesFit_of_checkFieldTypes passed

variable (store : MetadataStore) (db rp : String) (schemas : ExtTreeMap String BatchSchema)

def MetadataStore.measurementUpdates : List (String × MeasurementMeta) :=
  schemas.toList.map fun (measurement, schema) =>
    (measurement,
      { fieldTypes := store.mergedFieldTypes db rp measurement schema.fieldTypes
        tagKeys := store.mergedTagKeys db rp measurement schema.tagKeys :
        MeasurementMeta })

theorem MetadataStore.nodup_measurementUpdates :
    ((store.measurementUpdates db rp schemas).map Prod.fst).Nodup := by
  have distinct : (schemas.toList.map Prod.fst).Nodup := by
    rw [ExtTreeMap.map_fst_toList_eq_keys]
    exact ExtTreeMap.nodup_keys
  unfold measurementUpdates
  rw [List.map_map]
  exact distinct

def measurementTags (points : List Point) : List (String × List (String × String)) :=
  schemas.keys.map fun measurement =>
    (measurement, (points.filter (·.measurement == measurement)).flatMap (·.tags.toList))

namespace IngestState

variable {state : IngestState} {hashes : SchemaHashes} {db rp : String}

theorem store_registerBatch (points : List Point) :
    (state.registerBatch hashes db rp schemas points).store =
      state.store.registerMetadataBatch db rp (state.store.measurementUpdates db rp schemas)
        (measurementTags schemas points) :=
  rfl

/-- A registered measurement has the stored types merged with those of the batch. -/
theorem fieldTypesAt_registerBatch {schemas : ExtTreeMap String BatchSchema}
    (points : List Point) (lookup : schemas[name]? = some schema) :
    (state.registerBatch hashes db rp schemas points).store.fieldTypesAt ⟨db, rp, name⟩ =
      mergeFieldTypeMap (state.store.fieldTypesAt ⟨db, rp, name⟩) schema.fieldTypes := by
  rw [store_registerBatch, fieldTypesAt_registerMetadataBatch
    (state.store.nodup_measurementUpdates db rp schemas) _
    (List.mem_map.mpr ⟨(name, schema), ExtTreeMap.mem_toList_iff_getElem?_eq_some.mpr lookup, rfl⟩)]
  rw [mergedFieldTypes_eq]
  exact mergeFieldTypeMap_merge _ _

theorem fieldTypesAt_registerNovelTags (fresh : List Point) (key : MeasurementKey) :
    (state.registerNovelTags hashes db rp fresh).store.fieldTypesAt key =
      state.store.fieldTypesAt key := by
  unfold registerNovelTags fieldTypesAt
  rw [measurements_registerMetadataBatch]
  rfl

variable {limits : CardinalityLimitValues} {points : List Point} {after : IngestState}

theorem coversTypes_prepareBatchMetadata
    (prepared : state.prepareBatchMetadata hashes db rp limits points = .ok after)
    (key : MeasurementKey) :
    CoversTypes (after.store.fieldTypesAt key) (state.store.fieldTypesAt key) :=
  .of_widened ((prepareBatchMetadata_below (below_self state.store []) prepared ).types key)

end IngestState

end HyperbyteDb
