import HyperbyteDb.FieldTypeWidening
import HyperbyteDb.PointFrames
import HyperbyteDb.ShardMapTransitions

/-!
# How metadata grows by batches

Registering a batch adds its measurements, types and tag values and nothing else.
-/

namespace HyperbyteDb

open List MetadataStore Std

abbrev Loads := List (MeasurementKey × Point)

def loadsOf (db rp : String) (points : List Point) : Loads :=
  points.map fun point => (⟨db, rp, point.measurement⟩, point)

variable {db rp : String} {points : List Point}

theorem mem_loadsOf {load : MeasurementKey × Point} :
    load ∈ loadsOf db rp points ↔ load.2 ∈ points ∧ load.1 = ⟨db, rp, load.2.measurement⟩ := by
  unfold loadsOf
  rw [mem_map]
  constructor
  · rintro ⟨point, member, rfl⟩
    exact ⟨member, rfl⟩
  · rintro ⟨member, keyed⟩
    exact ⟨load.2, member, Prod.ext keyed.symm rfl⟩

variable {name : String}

theorem mem_loadsOf_of_named {point : Point}
    (member : point ∈ points) (named : point.measurement = name) :
    (⟨db, rp, name⟩, point) ∈ loadsOf db rp points :=
  mem_loadsOf.mpr ⟨member, by rw [named]⟩

abbrev Loads.BringType (loads : Loads) (key : MeasurementKey) (field : String)
    (type : FieldType) : Prop :=
  ∃ point, (key, point) ∈ loads ∧ point.fieldType? field = some type

variable {base : MetadataStore} {loads : Loads}

namespace MetadataStore

variable (store : MetadataStore) (key : MeasurementKey)

def fieldTypesAt : FieldTypes :=
  (store.measurements[key]?.map (·.fieldTypes)).getD ∅

def tagValuesAt (tagKey : String) : Std.ExtTreeSet String :=
  store.listTagValues key.db key.rp key.measurement tagKey

/-- The store holds `base` and nothing else than what the loads bring. -/
structure Below (store base : MetadataStore) (loads : Loads) : Prop where
  types : ∀ key (field : String), Widened
    (fun type => ∃ point, (key, point) ∈ loads ∧ point.fieldType? field = some type)
    (base.fieldTypesAt key)[field]? (store.fieldTypesAt key)[field]?
  measurements : ∀ key, key ∈ store.measurements →
    key ∈ base.measurements ∨ ∃ point, (key, point) ∈ loads
  tagValues : ∀ key tagKey value, value ∈ store.tagValuesAt key tagKey →
    value ∈ base.tagValuesAt key tagKey ∨
      ∃ point, (key, point) ∈ loads ∧ point.tags[tagKey]? = some value

theorem below_self (loads : Loads) : store.Below store loads where
  types _ _ := .refl _ _
  measurements _ member := Or.inl member
  tagValues _ _ _ member := Or.inl member

namespace Below

variable {store : MetadataStore} {more : Loads}

theorem mono (below : store.Below base loads) (included : loads ⊆ more) :
    store.Below base more where
  types key field := (below.types key field).mono fun _ ⟨point, member, typed⟩ =>
    ⟨point, included member, typed⟩
  measurements key member := (below.measurements key member).imp_right
    fun ⟨point, load⟩ => ⟨point, included load⟩
  tagValues key tagKey value member := (below.tagValues key tagKey value member).imp_right
    fun ⟨point, load, tagged⟩ => ⟨point, included load, tagged⟩

end Below

end MetadataStore

def mergeFieldDisc (stored incoming : FieldType) : FieldType :=
  (widenFieldDisc stored incoming).getD stored

variable (existing batch : FieldTypes) (field : String)

theorem getElem?_mergeFieldTypeMap : (mergeFieldTypeMap existing batch)[field]? =
      match batch[field]? with
      | some type => some ((existing[field]?.map (mergeFieldDisc · type)).getD type)
      | none => existing[field]? := by
  unfold mergeFieldTypeMap
  rewrite [KeyedUpdates.getElem?_foldl_toList fun known type =>
    some ((known.map (mergeFieldDisc · type)).getD type)]
  · cases batch[field]? <;> rfl
  · intro map entry probe
    by_cases same : entry.1 = probe
    · subst same
      cases stored : map[entry.1]? with
      | none => simp
      | some known =>
        cases widened : widenFieldDisc known entry.2 <;>
          simp [mergeFieldDisc, stored, widened]
    · split
      · split <;> simp [Std.ExtTreeMap.getElem?_insert, same]
      · simp [Std.ExtTreeMap.getElem?_insert, same]

theorem widened_merge : Widened (fun type => batch[field]? = some type) existing[field]?
      (mergeFieldTypeMap existing batch)[field]? := by
  rw [getElem?_mergeFieldTypeMap]
  cases batch[field]? with
  | none => exact .refl _ _
  | some type =>
    cases stored : existing[field]? with
    | none => exact Or.inr ⟨type, rfl, rfl, by simp⟩
    | some known =>
      by_cases fits : fieldTypesCompatible known type = true
      · rcases widenFieldDisc_cases fits with ⟨absorbs, widened⟩ | ⟨-, widened⟩
        · refine Or.inr ⟨type, rfl, by simp [mergeFieldDisc, widened], ?_⟩
          rintro known ⟨⟩
          exact absorbs
        · exact Or.inl (by simp [mergeFieldDisc, widened])
      · have none_ : widenFieldDisc known type = none := by
          simpa [fieldTypesCompatible] using fits
        exact Or.inl (by simp [mergeFieldDisc, none_])

variable {field : String}

namespace MetadataStore

variable {store : MetadataStore}

theorem fieldTypesAt_insert (key other : MeasurementKey) (stored : MeasurementMeta) :
    ({ store with measurements := store.measurements.insert key stored } :
      MetadataStore).fieldTypesAt other =
      if key = other then stored.fieldTypes else store.fieldTypesAt other := by
  unfold fieldTypesAt
  rw [Std.ExtTreeMap.getElem?_insert]
  by_cases same : key = other <;> simp [same]

variable (below : store.Below base loads)
include below

theorem Below.storeMeasurement {update : String × MeasurementMeta}
    (types : ∀ field : String, Widened (loads.BringType ⟨db, rp, update.1⟩ field)
      (base.fieldTypesAt ⟨db, rp, update.1⟩)[field]? update.2.fieldTypes[field]?)
    (brought : ∃ point, (⟨db, rp, update.1⟩, point) ∈ loads) :
    (store.storeMeasurement db rp update).Below base loads := by
  unfold MetadataStore.storeMeasurement
  dsimp only
  split
  · exact below
  · constructor
    · intro key field
      rw [fieldTypesAt_insert]
      split
      next same =>
        subst same
        unfold mergedMeasurement getMeasurement
        cases stored : store.measurements[(⟨db, rp, update.1⟩ : MeasurementKey)]? with
        | none => exact types field
        | some existing =>
          have before := below.types ⟨db, rp, update.1⟩ field
          rw [fieldTypesAt, fieldTypesAt, stored] at before
          exact before.join (types field) (widened_merge _ _ field)
      next => exact below.types key field
    · intro key member
      rcases Std.ExtTreeMap.mem_insert.mp member with same | before
      · obtain rfl := compare_eq_iff_eq.mp same
        exact Or.inr brought
      · exact below.measurements key before
    · exact below.tagValues

theorem Below.mergedFieldTypes {batch : FieldTypes}
    (brought : ∀ type, batch[field]? = some type → loads.BringType ⟨db, rp, name⟩ field type) :
    Widened (loads.BringType ⟨db, rp, name⟩ field) (base.fieldTypesAt ⟨db, rp, name⟩)[field]?
      (store.mergedFieldTypes db rp name batch)[field]? := by
  refine (below.types ⟨db, rp, name⟩ field).trans ?_
  unfold MetadataStore.mergedFieldTypes getMeasurement fieldTypesAt
  cases store.measurements[(⟨db, rp, name⟩ : MeasurementKey)]? with
  | some existing => exact (widened_merge _ _ field).mono brought
  | none =>
    cases typed : batch[field]? with
    | none => exact Or.inl (by simp)
    | some type => exact Or.inr ⟨type, brought type typed, rfl, by simp⟩

theorem Below.storeTagValue {measurement : String} {tag : String × String}
    (brought : ∃ point, (⟨db, rp, measurement⟩, point) ∈ loads ∧ point.tags[tag.1]? = some tag.2) :
    (store.storeTagValue db rp measurement tag).Below base loads where
  types := below.types
  measurements := below.measurements
  tagValues := by
    intro key tagKey value member
    unfold MetadataStore.storeTagValue tagValuesAt listTagValues at member
    rw [Std.ExtTreeMap.getElem?_insert] at member
    split at member
    next same =>
      have keyed : key = ⟨db, rp, measurement⟩ := (compare_eq_iff_eq.mp same).symm
      subst keyed
      rw [Option.getD_some, Std.ExtTreeMap.getElem?_insert] at member
      split at member
      next sameTag =>
        obtain rfl := Std.compare_eq_iff_eq.mp sameTag
        rw [Option.getD_some, Std.ExtTreeSet.mem_insert] at member
        rcases member with sameValue | before
        · obtain rfl := Std.compare_eq_iff_eq.mp sameValue
          exact Or.inr brought
        · exact below.tagValues _ _ _ before
      next => exact below.tagValues _ _ _ member
    next => exact below.tagValues key tagKey value member

theorem Below.registerMetadataBatch {updates : List (String × MeasurementMeta)}
    {tags : List (String × List (String × String))} (types : ∀ update ∈ updates, ∀ field : String,
      Widened (loads.BringType ⟨db, rp, update.1⟩ field) (base.fieldTypesAt ⟨db, rp, update.1⟩)[field]? update.2.fieldTypes[field]?)
    (brought : ∀ update ∈ updates, ∃ point, (⟨db, rp, update.1⟩, point) ∈ loads)
    (tagged : ∀ batch ∈ tags, ∀ tag ∈ batch.2,
      ∃ point, (⟨db, rp, batch.1⟩, point) ∈ loads ∧ point.tags[tag.1]? = some tag.2) :
    (store.registerMetadataBatch db rp updates tags).Below base loads := by
  refine List.foldlRecOn (motive := (Below · base loads)) _ _
    (List.foldlRecOn (motive := (Below · base loads)) _ _ below ?_) ?_
  · intro store below update member
    exact below.storeMeasurement (types update member) (brought update member)
  · intro store below batch member
    refine List.foldlRecOn (motive := (Below · base loads)) _ _ below ?_
    intro store below tag inside
    exact below.storeTagValue (tagged batch member tag inside)

end MetadataStore

/-- The loads fit the stored types and each other, and all of them together stay within
the limits. -/
structure LoadsFit (limits : CardinalityLimitValues) (base : MetadataStore) (loads : Loads) :
    Prop where
  agree : ∀ key first second, (key, first) ∈ loads → (key, second) ∈ loads →
    FieldsAgree first second
  stored : ∀ key point, (key, point) ∈ loads → FitsStored (base.fieldTypesAt key) point
  measurements : limits.maxMeasurementsPerDatabase = 0 ∨ ∀ load ∈ loads,
    (base.listMeasurements load.1.db ++ (loads.filter (·.1.db == load.1.db)).map
      (·.1.measurement)).dedup.length ≤ limits.maxMeasurementsPerDatabase
  tagValues : limits.maxTagValuesPerMeasurement = 0 ∨ ∀ load ∈ loads, ∀ tagKey ∈ load.2.tags,
    ((base.tagValuesAt load.1 tagKey).toList ++ (loads.filter (·.1 == load.1)).filterMap
      (·.2.tags[tagKey]?)).dedup.length ≤ limits.maxTagValuesPerMeasurement

theorem forM_eq_ok_iff {α ε : Type} {check : α → Except ε Unit} {items : List α} :
    items.forM check = .ok () ↔ ∀ item ∈ items, check item = .ok () := by
  induction items with
  | nil => simp [pure, Except.pure]
  | cons item items ih =>
    rw [forall_mem_cons, ← ih, forM_eq_forM, forM_cons]
    cases check item <;> simp [bind, Except.bind]

theorem mem_listMeasurements {store : MetadataStore} :
    name ∈ store.listMeasurements db ↔
      ∃ key ∈ store.measurements, key.db = db ∧ key.measurement = name := by
  unfold listMeasurements
  rw [mem_dedup, mem_map]
  constructor
  · rintro ⟨key, member, rfl⟩
    obtain ⟨stored, sameDb⟩ := mem_filter.mp member
    exact ⟨key, Std.ExtTreeMap.mem_keys.mp stored, by simpa using sameDb, rfl⟩
  · rintro ⟨key, stored, rfl, rfl⟩
    exact ⟨key, mem_filter.mpr ⟨Std.ExtTreeMap.mem_keys.mpr stored, by simp⟩, rfl⟩

variable {limits : CardinalityLimitValues} {done kept : Loads}

section Checks

variable {store : MetadataStore} {schemas : Std.ExtTreeMap String BatchSchema}

theorem LoadsFit.exists_batchSchemas (fit : LoadsFit limits base kept)
    (pointsKept : loadsOf db rp points ⊆ kept) :
    ∃ schemas, batchSchemas ∅ points = .ok schemas := by
  refine HyperbyteDb.exists_batchSchemas schemasFrom_empty ?_
  intro first firstMember second secondMember same
  exact fit.agree ⟨db, rp, first.measurement⟩ first second
    (pointsKept (mem_loadsOf_of_named (by simpa using firstMember) rfl))
    (pointsKept (mem_loadsOf_of_named (by simpa using secondMember) same.symm))

variable (below : store.Below base done)
include below

variable (fit : LoadsFit limits base kept)
include fit

variable (doneKept : done ⊆ kept)
include doneKept

variable (pointsKept : loadsOf db rp points ⊆ kept)
include pointsKept

theorem checkMeasurementCount_eq_ok (nonempty : points ≠ []) (made : SchemasFrom points schemas) :
    checkMeasurementCount limits store db schemas = .ok () := by
  unfold checkMeasurementCount
  split
  · rfl
  next limited =>
    rw [if_neg]
    rcases fit.measurements with unlimited | within
    · exact absurd unlimited limited
    · obtain ⟨first, rest, rfl⟩ := exists_cons_of_ne_nil nonempty
      have bound := within (⟨db, rp, first.measurement⟩, first)
        (pointsKept (mem_loadsOf_of_named mem_cons_self rfl))
      refine Nat.not_lt.mpr ((KeyedUpdates.length_add_filter_le (nodup_dedup _)
        Std.ExtTreeMap.nodup_keys (fun _ => contains_iff_mem.mpr) ?_).trans bound)
      rintro name (existing | new)
      · obtain ⟨key, stored, sameDb, rfl⟩ := mem_listMeasurements.mp existing
        rcases below.measurements key stored with before | ⟨point, load⟩
        · exact mem_append_left _ (mem_listMeasurements.mpr ⟨key, before, sameDb, rfl⟩)
        · exact mem_append_right _ (mem_map.mpr
            ⟨_, mem_filter.mpr ⟨doneKept load, by simp [sameDb]⟩, rfl⟩)
      · obtain ⟨schema, lookup⟩ := Option.isSome_iff_exists.mp
          (Std.ExtTreeMap.mem_iff_isSome_getElem?.mp (Std.ExtTreeMap.mem_keys.mp new))
        obtain ⟨point, inPoints, named⟩ := made.measurement name schema lookup
        exact mem_append_right _ (mem_map.mpr ⟨_, mem_filter.mpr
          ⟨pointsKept (mem_loadsOf_of_named inPoints named), by simp⟩, rfl⟩)

theorem checkTagValueCount_eq_ok {tagged : Point} (member : tagged ∈ points) {tagKey : String}
    (hasTag : tagKey ∈ tagged.tags) :
    checkTagValueCount limits store db rp points tagged.measurement tagKey = .ok () := by
  unfold checkTagValueCount
  split
  · rfl
  next limited =>
    rw [if_neg]
    rcases fit.tagValues with unlimited | within
    · exact absurd unlimited limited
    · have bound := within (⟨db, rp, tagged.measurement⟩, tagged)
        (pointsKept (mem_loadsOf_of_named member rfl)) tagKey hasTag
      rw [countTagValues, ← Std.ExtTreeSet.length_toList]
      refine Nat.not_lt.mpr ((KeyedUpdates.length_add_filter_le
        (Std.ExtTreeSet.distinct_toList.imp fun apart => by simpa using apart) (nodup_dedup _)
        (fun _ => Std.ExtTreeSet.mem_toList.mp) ?_).trans bound)
      have ofLoad : ∀ value point, (⟨db, rp, tagged.measurement⟩, point) ∈ kept →
          point.tags[tagKey]? = some value → value ∈ (kept.filter
            (·.1 == (⟨db, rp, tagged.measurement⟩ : MeasurementKey))).filterMap
              (·.2.tags[tagKey]?) := by
        intro value point load lookup
        exact mem_filterMap.mpr ⟨_, mem_filter.mpr ⟨load, by simp⟩, lookup⟩
      rintro value (existing | new)
      · rcases below.tagValues ⟨db, rp, tagged.measurement⟩ tagKey value
          (Std.ExtTreeSet.mem_toList.mp existing) with before | ⟨point, load, lookup⟩
        · exact mem_append_left _ (Std.ExtTreeSet.mem_toList.mpr before)
        · exact mem_append_right _ (ofLoad value point (doneKept load) lookup)
      · obtain ⟨point, inPoints, lookup⟩ := mem_filterMap.mp (mem_dedup.mp new)
        obtain ⟨inPoints, named⟩ := mem_filter.mp inPoints
        exact mem_append_right _ (ofLoad value point
          (pointsKept (mem_loadsOf_of_named inPoints (by simpa using named))) lookup)

theorem checkFieldTypes_eq_ok (made : SchemasFrom points schemas)
    {schema : BatchSchema} (lookup : schemas[name]? = some schema) :
    store.checkFieldTypes db rp name schema.fieldTypes = .ok () := by
  unfold checkFieldTypes getMeasurement
  cases stored : store.measurements[(⟨db, rp, name⟩ : MeasurementKey)]? with
  | none => rfl
  | some existing =>
    apply forM_eq_ok_iff.mpr
    intro entry member
    cases known : existing.fieldTypes[entry.1]? with
    | none => rfl
    | some expected =>
      obtain ⟨point, inPoints, rfl, typed⟩ := made.fieldType name schema lookup entry.1
        entry.2 (Std.ExtTreeMap.mem_toList_iff_getElem?_eq_some.mp member)
      have load : (⟨db, rp, point.measurement⟩, point) ∈ kept :=
        pointsKept (mem_loadsOf_of_named inPoints rfl)
      have fits : fieldTypesCompatible expected entry.2 = true := by
        refine (below.types ⟨db, rp, point.measurement⟩ entry.1).compatible ?_ ?_ ?_
        · intro before lookupBefore
          exact fit.stored _ point load entry.1 before entry.2 lookupBefore typed
        · rintro other ⟨earlier, earlierLoad, earlierTyped⟩
          exact fit.agree _ earlier point (doneKept earlierLoad) load entry.1 other entry.2
            earlierTyped typed
        · rw [fieldTypesAt, stored]
          exact known
      simp [fits]

theorem checkBatch_eq_ok (nonempty : points ≠ []) (made : SchemasFrom points schemas) :
    checkBatch limits store db rp schemas points = .ok () := by
  unfold checkBatch
  rw [checkMeasurementCount_eq_ok below fit doneKept pointsKept nonempty made]
  apply forM_eq_ok_iff.mpr
  intro entry member
  have lookup := Std.ExtTreeMap.mem_toList_iff_getElem?_eq_some.mp member
  dsimp only
  rw [forM_eq_ok_iff.mpr, checkFieldTypes_eq_ok below fit doneKept pointsKept made lookup]
  · rfl
  · intro tagKey inside
    obtain ⟨point, inPoints, named, hasTag⟩ := made.tagKey entry.1 entry.2 lookup tagKey
      (Std.ExtTreeSet.mem_toList.mp inside)
    rw [← named]
    exact checkTagValueCount_eq_ok below fit doneKept pointsKept inPoints hasTag

end Checks

namespace IngestState

variable {state : IngestState} {hashes : SchemaHashes}

variable (below : state.store.Below base done)
include below

theorem registerBatch_below {schemas : Std.ExtTreeMap String BatchSchema}
    (made : SchemasFrom points schemas) :
    (state.registerBatch hashes db rp schemas points).store.Below base
      (done ++ loadsOf db rp points) := by
  have wider := below.mono (subset_append_left done (loadsOf db rp points))
  refine wider.registerMetadataBatch ?_ ?_ ?_
  · intro update member field
    obtain ⟨entry, listed, rfl⟩ := mem_map.mp member
    have lookup := Std.ExtTreeMap.mem_toList_iff_getElem?_eq_some.mp listed
    have brought : ∀ type, entry.2.fieldTypes[field]? = some type →
        (done ++ loadsOf db rp points).BringType ⟨db, rp, entry.1⟩ field type := by
      intro type typed
      obtain ⟨point, inPoints, named, typed⟩ :=
        made.fieldType entry.1 entry.2 lookup field type typed
      exact ⟨point, mem_append_right _ (mem_loadsOf_of_named inPoints named), typed⟩
    exact wider.mergedFieldTypes brought
  · intro update member
    obtain ⟨entry, listed, rfl⟩ := mem_map.mp member
    have lookup := Std.ExtTreeMap.mem_toList_iff_getElem?_eq_some.mp listed
    obtain ⟨point, inPoints, named⟩ := made.measurement entry.1 entry.2 lookup
    exact ⟨point, mem_append_right _ (mem_loadsOf_of_named inPoints named)⟩
  · intro batch member tag inside
    obtain ⟨name, -, rfl⟩ := mem_map.mp member
    obtain ⟨point, inPoints, tagged⟩ := mem_flatMap.mp inside
    obtain ⟨inPoints, named⟩ := mem_filter.mp inPoints
    exact ⟨point, mem_append_right _ (mem_loadsOf_of_named inPoints (by simpa using named)),
      Std.ExtTreeMap.mem_toList_iff_getElem?_eq_some.mp tagged⟩

theorem registerNovelTags_below {fresh : List Point} (included : fresh ⊆ points) :
    (state.registerNovelTags hashes db rp fresh).store.Below base
      (done ++ loadsOf db rp points) := by
  have wider := below.mono (subset_append_left done (loadsOf db rp points))
  refine wider.registerMetadataBatch (by simp) (by simp) ?_
  intro batch member tag inside
  obtain ⟨hashed, novel, rfl⟩ := mem_map.mp member
  obtain rfl := mem_singleton.mp inside
  obtain ⟨point, inFresh, made⟩ := mem_flatMap.mp (mem_of_mem_filter novel)
  obtain ⟨tag, tagged, rfl⟩ := mem_map.mp made
  exact ⟨point, mem_append_right _ (mem_loadsOf_of_named (included inFresh) rfl),
    Std.ExtTreeMap.mem_toList_iff_getElem?_eq_some.mp tagged⟩

variable {after : IngestState}

omit below in
theorem prepareBatchMetadata_cases
    (prepared : state.prepareBatchMetadata hashes db rp limits points = .ok after) :
    ∃ schemas, batchSchemas ∅ points = .ok schemas ∧
      (((schemas.toList.all fun (measurement, schema) =>
            state.cache.isSchemaKnown hashes db rp measurement schema) = true ∧
          after = state.registerNovelTags hashes db rp
            (state.cache.freshPoints hashes db rp points)) ∨
        ((schemas.toList.all fun (measurement, schema) =>
            state.cache.isSchemaKnown hashes db rp measurement schema) = false ∧
          checkBatch limits state.store db rp schemas points = .ok () ∧
          after = state.registerBatch hashes db rp schemas points)) := by
  unfold prepareBatchMetadata at prepared
  obtain ⟨schemas, built, prepared⟩ := ByteReaders.exists_of_bind_eq_ok prepared
  refine ⟨schemas, built, ?_⟩
  split at prepared
  next known => exact Or.inl ⟨known, (Except.ok.inj prepared).symm⟩
  next unknown =>
    obtain ⟨done, checked, prepared⟩ := ByteReaders.exists_of_bind_eq_ok prepared
    exact Or.inr ⟨Bool.not_eq_true _ ▸ unknown, checked, (Except.ok.inj prepared).symm⟩

/-- A batch that is accepted adds nothing but what it brings. -/
theorem prepareBatchMetadata_below
    (prepared : state.prepareBatchMetadata hashes db rp limits points = .ok after) :
    after.store.Below base (done ++ loadsOf db rp points) := by
  obtain ⟨schemas, built, ⟨-, rfl⟩ | ⟨-, -, rfl⟩⟩ := prepareBatchMetadata_cases prepared
  · exact registerNovelTags_below below (filter_subset_self points)
  · exact registerBatch_below below (schemasFrom_of_batchSchemas built)

/-- A batch of points that fit is accepted, whatever was registered before, and adds
nothing but what it brings. -/
theorem prepareBatchMetadata_of_fit (fit : LoadsFit limits base kept) (doneKept : done ⊆ kept)
    (pointsKept : loadsOf db rp points ⊆ kept) :
    ∃ after, state.prepareBatchMetadata hashes db rp limits points = .ok after ∧
      after.store.Below base (done ++ loadsOf db rp points) := by
  obtain ⟨schemas, built⟩ := fit.exists_batchSchemas pointsKept
  have made : SchemasFrom points schemas := schemasFrom_of_batchSchemas built
  obtain ⟨after, prepared⟩ : ∃ after,
      state.prepareBatchMetadata hashes db rp limits points = .ok after := by
    unfold prepareBatchMetadata
    rw [built]
    by_cases known : schemas.toList.all fun (measurement, schema) =>
        state.cache.isSchemaKnown hashes db rp measurement schema
    · exact ⟨_, if_pos known⟩
    · have nonempty : points ≠ [] := by
        rintro rfl
        cases built
        simp at known
      refine ⟨state.registerBatch hashes db rp schemas points, (if_neg known).trans ?_⟩
      rw [checkBatch_eq_ok below fit doneKept pointsKept nonempty made]
      rfl
  exact ⟨after, prepared, prepareBatchMetadata_below below prepared⟩

end IngestState

theorem fieldType_bytePoint {byte : UInt8} (small : byte < 100)
    {type : FieldType} (typed : (bytePoint byte).fieldType? field = some type) : type = .float := by
  unfold Point.fieldType? bytePoint at typed
  rw [Std.ExtTreeMap.getElem?_insert] at typed
  split at typed
  · cases typed
    rfl
  · simp at typed

theorem loadsFit_floats : LoadsFit {} {} [(sampleKey, bytePoint 1), (sampleKey, bytePoint 2)] := by
  refine ⟨?_, ?_, Or.inl rfl, Or.inl rfl⟩
  · intro key first second firstLoad secondLoad field type other typed otherTyped
    simp only [mem_cons, not_mem_nil, or_false] at firstLoad secondLoad
    rcases firstLoad with ⟨-, rfl⟩ | ⟨-, rfl⟩ <;> rcases secondLoad with ⟨-, rfl⟩ | ⟨-, rfl⟩ <;>
      rw [fieldType_bytePoint (by decide) typed, fieldType_bytePoint (by decide) otherTyped] <;>
      rfl
  · intro key point load field known type lookup
    simp [fieldTypesAt] at lookup

end HyperbyteDb
