import HyperbyteDb.BatchChecks

/-!
# The limit on tag values

A batch is refused if a tag key would get more values than allowed.  The caches that the
check reads stay in step with the rows through batches and restarts, so that what is refused
does exceed the limit.  But batches whose schemas are known are not checked: the limit holds
exactly as long as the new values of such batches fit.
-/

namespace HyperbyteDb

open GuardedRuns MetadataStore Std TagCaches

/-! ## The caches are in step with the rows -/

namespace TagCaches

variable {caches : TagCaches} {key : MeasurementKey} {tagKey : String}

theorem bumpCount_eq (warmed : caches.warmed = true) :
    caches.bumpCount key tagKey =
      caches.setCount key tagKey ((caches.counts key tagKey).getD 0 + 1) := by
  unfold bumpCount
  cases caches.counts key tagKey with
  | some count => rfl
  | none => simp [warmed]

theorem counts_setCount {count : Nat} {otherKey : MeasurementKey} {otherTag : String} :
    (caches.setCount key tagKey count).counts otherKey otherTag =
      if otherKey = key ∧ otherTag = tagKey then some count else caches.counts otherKey otherTag :=
  rfl

end TagCaches

variable {other : NodeMetadata}

variable {node : NodeMetadata}

namespace NodeMetadata

/-- The caches know exactly the stored tag values, and count them. -/
structure Coherent (node : NodeMetadata) : Prop where
  known : ∀ key tagKey value, node.tagCaches.known key tagKey value = true ↔
    value ∈ node.store.tagValuesAt key tagKey
  counts : ∀ key tagKey, (node.tagCaches.counts key tagKey).getD 0 =
    (node.store.tagValuesAt key tagKey).size
  warmed : node.tagCaches.warmed = true

variable {db rp : String}

variable (coherent : node.Coherent)
include coherent

theorem Coherent.knownStored : node.KnownStored :=
  fun key tagKey value => (coherent.known key tagKey value).mp

theorem Coherent.countTagValues (key : MeasurementKey) (tagKey : String) :
    node.countTagValues key tagKey = (node.store.tagValuesAt key tagKey).size := by
  have counted := coherent.counts key tagKey
  unfold NodeMetadata.countTagValues
  cases found : node.tagCaches.counts key tagKey with
  | none => rfl
  | some count =>
    rw [found] at counted
    exact counted

omit coherent in
theorem coherent_rememberCount (node : NodeMetadata) (key : MeasurementKey) (tagKey : String)
    (coherent : node.Coherent) : (node.rememberCount key tagKey).Coherent where
  known := coherent.known
  counts otherKey otherTag := by
    unfold rememberCount
    dsimp only
    rw [counts_setCount]
    split
    next same =>
      obtain ⟨rfl, rfl⟩ := same
      exact coherent.countTagValues otherKey otherTag
    next => exact coherent.counts otherKey otherTag
  warmed := coherent.warmed

omit coherent in
theorem coherent_restart : node.restart.Coherent where
  known key tagKey value := by
    simp [restart, warmTagValueCounts]
  counts key tagKey := by
    unfold restart warmTagValueCounts
    dsimp only
    split
    next none_ => exact none_.symm
    next => rfl
  warmed := rfl

theorem Coherent.storeTagValue (key : MeasurementKey) (tag : String × String) :
    (node.storeTagValue key tag).Coherent := by
  have values := coherent.knownStored.tagValuesAt_storeTagValue key tag
  revert values
  unfold NodeMetadata.storeTagValue tagValueIsKnown
  split
  next => exact fun _ => coherent
  next unknown =>
    have absent : ¬(node.store.tagValuesAt key tag.1).contains tag.2 = true :=
      fun stored => unknown ((coherent.known key tag.1 tag.2).mpr stored)
    have bumped : (node.tagCaches.addKnown key tag.1 tag.2).bumpCount key tag.1 =
        (node.tagCaches.addKnown key tag.1 tag.2).setCount key tag.1
          ((node.tagCaches.counts key tag.1).getD 0 + 1) :=
      bumpCount_eq coherent.warmed
    rw [if_neg absent, bumped]
    intro values
    refine ⟨?_, ?_, coherent.warmed⟩
    · intro otherKey otherTag value
      rw [values]
      refine known_addKnown.trans ?_
      rw [coherent.known]
      split
      next same =>
        obtain ⟨rfl, rfl⟩ := same
        rw [ExtTreeSet.mem_insert, Std.compare_eq_iff_eq]
        simp [eq_comm]
      next other =>
        constructor
        · rintro (⟨rfl, rfl, rfl⟩ | before)
          · exact absurd ⟨rfl, rfl⟩ other
          · exact before
        · exact Or.inr
    · intro otherKey otherTag
      rw [values, counts_setCount]
      split
      next same =>
        obtain ⟨rfl, rfl⟩ := same
        rw [ExtTreeSet.size_insert, if_neg absent]
        exact congrArg (· + 1) (coherent.counts otherKey tag.1)
      next => exact coherent.counts otherKey otherTag

theorem Coherent.storeTagValues (tags : List (MeasurementKey × String × String)) :
    (node.storeTagValues tags).Coherent := by
  induction tags generalizing node with
  | nil => exact coherent
  | cons tag tags ih => exact ih (coherent.storeTagValue tag.1 tag.2)

theorem Coherent.congr (rows : other.store.tagValues = node.store.tagValues)
    (caches : other.tagCaches = node.tagCaches) : other.Coherent := by
  have values : other.store.tagValuesAt = node.store.tagValuesAt := by
    unfold tagValuesAt listTagValues
    rw [rows]
  constructor
  · rw [values, caches]
    exact coherent.known
  · rw [values, caches]
    exact coherent.counts
  · rw [caches]
    exact coherent.warmed

theorem Coherent.registerSeriesBatch (hashes : IngestHashes) (db rp : String) (points : List Point) :
    (node.registerSeriesBatch hashes db rp points).Coherent := by
  obtain ⟨rows, caches⟩ := node.store_registerSeriesBatch hashes db rp points
  exact coherent.congr (by rw [rows]) caches

theorem Coherent.checkBatch (limits : CardinalityLimitValues) (db rp : String)
    (schemas : ExtTreeMap String BatchSchema) (points : List Point) :
    (node.checkBatch limits db rp schemas points).2.Coherent :=
  checkBatch_preserves limits db rp points coherent_rememberCount schemas coherent

theorem Coherent.registerBatch (db rp : String) (schemas : ExtTreeMap String BatchSchema)
    (points : List Point) : (node.registerBatch db rp schemas points).Coherent := by
  have rows := tagValues_foldl_storeMeasurement node.store db rp
    (node.store.measurementUpdates db rp schemas)
  have updated : (node.storeMeasurements db rp
      (node.store.measurementUpdates db rp schemas)).Coherent :=
    coherent.congr rows rfl
  exact updated.storeTagValues _

/-- What the check adds up is the number of stored values with those of the batch. -/
theorem Coherent.total (points : List Point) (measurement tagKey : String) :
    node.countTagValues ⟨db, rp, measurement⟩ tagKey +
        (node.novelValues db rp points measurement tagKey).length =
      ((node.store.tagValuesAt ⟨db, rp, measurement⟩ tagKey).insertMany
        (batchValues points measurement tagKey)).size := by
  have absent : ∀ value ∈ node.novelValues db rp points measurement tagKey,
      value ∉ node.store.tagValuesAt ⟨db, rp, measurement⟩ tagKey := by
    intro value novel stored
    have unknown := (List.mem_filter.mp novel).2
    simp [tagValueIsKnown, (coherent.known _ _ _).mpr stored] at unknown
  have same : (node.store.tagValuesAt ⟨db, rp, measurement⟩ tagKey).insertMany
      (batchValues points measurement tagKey) =
        (node.store.tagValuesAt ⟨db, rp, measurement⟩ tagKey).insertMany
          (node.novelValues db rp points measurement tagKey) := by
    apply ExtTreeSet.ext_mem
    intro value
    by_cases stored : value ∈ node.store.tagValuesAt ⟨db, rp, measurement⟩ tagKey
    · simp [stored]
    · have unknown : node.tagCaches.known ⟨db, rp, measurement⟩ tagKey value = false := by
        rw [← Bool.not_eq_true, coherent.known]
        exact stored
      simp [novelValues, tagValueIsKnown, unknown]
  rw [coherent.countTagValues, same, ExtTreeSet.size_insertMany_list]
  · have distinct : (node.novelValues db rp points measurement tagKey).Nodup :=
      (List.nodup_dedup _).filter _
    exact distinct.imp fun {one other} apart => by simpa using apart
  · intro value stored
    rw [List.contains_eq_mem, decide_eq_false_iff_not]
    exact fun novel => absent value novel stored

end NodeMetadata

/-! ## Histories of one node -/

structure IngestNode where
  node : NodeMetadata := NodeMetadata.restart {}
  cache : IngestSchemaCache := {}

inductive NodeEvent where
  | batch (db rp : String) (points : List Point)
  | restart

namespace IngestNode

open NodeMetadata

variable (hashes : IngestHashes) (limits : CardinalityLimitValues) (state : IngestNode)

def prepare (db rp : String) (points : List Point) : PrepareOutcome :=
  state.node.prepareBatchMetadata hashes limits (some state.cache) db rp points

def next : NodeEvent → IngestNode
  | .batch db rp points =>
    ⟨(state.prepare hashes limits db rp points).node,
      (state.prepare hashes limits db rp points).cache.getD {}⟩
  | .restart => ⟨state.node.restart, {}⟩

def WithinTagLimit (node : NodeMetadata) : Prop :=
  ∀ key tagKey, (node.store.tagValuesAt key tagKey).size ≤ limits.maxTagValuesPerMeasurement

/-- The stored values of some tag key of the batch, with those of the batch, are more than
allowed. -/
def ExceedsTagLimit (node : NodeMetadata) (db rp : String) (points : List Point) : Prop :=
  ∃ point ∈ points, ∃ tagKey ∈ point.tags, limits.maxTagValuesPerMeasurement <
    ((node.store.tagValuesAt ⟨db, rp, point.measurement⟩ tagKey).insertMany
      (batchValues points point.measurement tagKey)).size

/-- The limit holds after an accepted batch, and a batch that is refused for it exceeds
it. -/
def LimitExact : NodeEvent → Prop
  | .batch db rp points =>
    ((state.prepare hashes limits db rp points).result = .ok () →
      WithinTagLimit limits (state.prepare hashes limits db rp points).node) ∧
    ∀ schemas, batchSchemas ∅ points = .ok schemas →
      checkMeasurementCount limits state.node.store db schemas = .ok () →
      ∀ measurement tagKey total limit, (state.prepare hashes limits db rp points).result =
          .error (.cardinalityExceeded measurement tagKey total limit) →
        ExceedsTagLimit limits state.node db rp points
  | .restart => True

def KnownBatchFits : NodeEvent → Prop
  | .batch db rp points =>
    ∀ schemas, batchSchemas ∅ points = .ok schemas →
      state.cache.allSchemasKnown hashes.schemaHashes db rp schemas = true →
      ∀ key tagKey, ((state.node.store.tagValuesAt key tagKey).insertMany
        (valuesOf (newTags hashes db rp state.cache points) key tagKey)).size ≤
          limits.maxTagValuesPerMeasurement
  | .restart => True

/-- The caches are in step with the rows, and the limit holds. -/
structure Sound : Prop where
  coherent : state.node.Coherent
  within : WithinTagLimit limits state.node

variable {hashes limits state}

theorem WithinTagLimit.congr (within : WithinTagLimit limits node)
    (same : other.store = node.store) : WithinTagLimit limits other := by
  unfold WithinTagLimit
  rw [same]
  exact within

variable {points : List Point}

variable {measurement : String}

theorem fitsTagLimit_iff (limited : 0 < limits.maxTagValuesPerMeasurement)
    (coherent : node.Coherent) {db rp tagKey : String} :
    FitsTagLimit limits node db rp points measurement tagKey ↔
      ((node.store.tagValuesAt ⟨db, rp, measurement⟩ tagKey).insertMany
        (batchValues points measurement tagKey)).size ≤ limits.maxTagValuesPerMeasurement := by
  rw [FitsTagLimit, coherent.total]
  exact or_iff_right (Nat.ne_of_gt limited)

/-- A batch that passes the checks leaves the limit intact. -/
theorem within_registerBatch (limited : 0 < limits.maxTagValuesPerMeasurement)
    (coherent : node.Coherent) (within : WithinTagLimit limits node) {db rp : String}
    {schemas : ExtTreeMap String BatchSchema}
    (built : batchSchemas ∅ points = .ok schemas)
    (fits : ∀ entry ∈ schemas.toList, FitsSchema limits node db rp points entry) :
    WithinTagLimit limits (node.registerBatch db rp schemas points) := by
  intro key tagKey
  rw [(coherent.knownStored.registerBatch db rp schemas points).2]
  by_cases brought : ∃ value, value ∈ valuesOf (tagsOf db rp points) key tagKey
  · obtain ⟨value, member⟩ := brought
    obtain ⟨point, inPoints, rfl, lookup⟩ := mem_tagsOf.mp (mem_valuesOf.mp member)
    obtain ⟨schema, found, tagged⟩ := coversTagKeys_of_batchSchemas built point inPoints
    have inside : tagKey ∈ schema.tagKeys :=
      tagged tagKey (ExtTreeMap.mem_iff_isSome_getElem?.mpr (by simp [lookup]))
    have fitsKey := (fits _ (ExtTreeMap.mem_toList_iff_getElem?_eq_some.mpr found)).1 tagKey
      (ExtTreeSet.mem_toList.mpr inside)
    rw [fitsTagLimit_iff limited coherent] at fitsKey
    refine le_of_eq_of_le (congrArg _ ?_) fitsKey
    apply ExtTreeSet.ext_mem
    simp [mem_valuesOf, mem_tagsOf, mem_batchValues]
  · have none_ : valuesOf (tagsOf db rp points) key tagKey = [] :=
      List.eq_nil_iff_forall_not_mem.mpr fun value member => brought ⟨value, member⟩
    rw [none_]
    exact within key tagKey

variable {db rp : String}
  {schemas : ExtTreeMap String BatchSchema}

variable (hashes db rp) in
/-- A batch that is checked leaves the limit intact, whether it passes or not. -/
theorem prepareUnknown_sound (limited : 0 < limits.maxTagValuesPerMeasurement)
    (coherent : node.Coherent) (within : WithinTagLimit limits node)
    (built : batchSchemas ∅ points = .ok schemas) (cache : Option IngestSchemaCache) :
    (node.prepareUnknown hashes limits cache db rp schemas points).node.Coherent ∧
      WithinTagLimit limits
        (node.prepareUnknown hashes limits cache db rp schemas points).node := by
  have same := sameAnswers_checkBatch limits db rp points node schemas
  have checkedCoherent := coherent.checkBatch limits db rp schemas points
  unfold prepareUnknown
  split
  next cause after checked =>
    rw [checked] at same checkedCoherent
    exact ⟨checkedCoherent, within.congr same.store⟩
  next after checked =>
    have passed : (node.checkBatch limits db rp schemas points).1 = .ok () := by rw [checked]
    have fits := (fst_checkBatch_eq_ok_iff.mp passed).2
    rw [checked] at same checkedCoherent
    refine ⟨checkedCoherent.registerBatch db rp schemas points, ?_⟩
    refine within_registerBatch limited checkedCoherent (within.congr same.store) built ?_
    intro entry listed
    refine ⟨fun tagKey member => ?_, ?_⟩
    · have fitsKey := (fits entry listed).1 tagKey member
      rw [FitsTagLimit, ← same.total] at fitsKey
      exact fitsKey
    · rw [same.store]
      exact (fits entry listed).2

theorem exceeds_of_prepareUnknown (limited : 0 < limits.maxTagValuesPerMeasurement)
    (coherent : node.Coherent) (built : batchSchemas ∅ points = .ok schemas)
    (counted : checkMeasurementCount limits node.store db schemas = .ok ())
    {cache : Option IngestSchemaCache} {tagKey : String} {total limit : Nat}
    (refused : (node.prepareUnknown hashes limits cache db rp schemas points).result =
      .error (.cardinalityExceeded measurement tagKey total limit)) :
    ExceedsTagLimit limits node db rp points := by
  have failed : (node.checkBatch limits db rp schemas points).1 =
      .error (.cardinalityExceeded measurement tagKey total limit) := by
    unfold prepareUnknown at refused
    split at refused
    next cause after checked =>
      rw [checked]
      exact refused
    next => cases refused
  obtain ⟨entry, listed, tagKey, member, exceeded⟩ :=
    exists_of_checkBatch_eq_error counted failed
  have lookup := ExtTreeMap.mem_toList_iff_getElem?_eq_some.mp listed
  obtain ⟨point, inPoints, named, tagged⟩ :=
    (schemasFrom_of_batchSchemas built).tagKey entry.1 entry.2 lookup tagKey member
  rw [fitsTagLimit_iff limited coherent, Nat.not_le] at exceeded
  exact ⟨point, by simpa using inPoints, tagKey, tagged, named ▸ exceeded⟩

theorem Sound.step (limited : 0 < limits.maxTagValuesPerMeasurement)
    (sound : state.Sound limits) (event : NodeEvent) :
    (state.LimitExact hashes limits event ↔ state.KnownBatchFits hashes limits event) ∧
      (state.LimitExact hashes limits event → (state.next hashes limits event).Sound limits) := by
  cases event with
  | restart =>
    refine ⟨Iff.rfl, fun _ => ⟨coherent_restart, ?_⟩⟩
    exact sound.within.congr rfl
  | batch db rp points =>
    have started := store_registerSeriesBatch state.node hashes db rp
      (unregisteredPoints hashes (some state.cache) db rp points)
    have coherent := sound.coherent.registerSeriesBatch hashes db rp
      (unregisteredPoints hashes (some state.cache) db rp points)
    have within := sound.within.congr started.1
    have prepared : state.prepare hashes limits db rp points =
        state.node.prepareBatchMetadata hashes limits (some state.cache) db rp points := rfl
    unfold prepareBatchMetadata at prepared
    unfold LimitExact KnownBatchFits next
    dsimp only
    generalize state.node.registerSeriesBatch hashes db rp
      (unregisteredPoints hashes (some state.cache) db rp points) = start at *
    cases built : batchSchemas ∅ points with
    | error cause =>
      rw [built] at prepared
      rw [prepared]
      exact ⟨⟨fun _ => nofun, fun _ => ⟨nofun, nofun⟩⟩, fun _ => ⟨coherent, within⟩⟩
    | ok schemas =>
      rw [built] at prepared
      dsimp only at prepared
      split at prepared
      next known =>
        have stored := coherent.knownStored.storeTagValues (newTags hashes db rp state.cache points)
        have after : (state.prepare hashes limits db rp points).node =
            start.storeTagValues (newTags hashes db rp state.cache points) := by
          rw [prepared]
          rfl
        have accepted : (state.prepare hashes limits db rp points).result = .ok () := by
          rw [prepared]
          rfl
        have kept : WithinTagLimit limits (state.prepare hashes limits db rp points).node ↔
            ∀ key tagKey, ((state.node.store.tagValuesAt key tagKey).insertMany
              (valuesOf (newTags hashes db rp state.cache points) key tagKey)).size ≤
                limits.maxTagValuesPerMeasurement := by
          unfold WithinTagLimit
          simp only [after, stored.2, started.1]
        constructor
        · rw [accepted, kept]
          constructor
          · intro exact_ other same _
            exact exact_.1 rfl
          · intro fits
            exact ⟨fun _ => fits schemas rfl known, by simp⟩
        · intro exact_
          refine ⟨?_, exact_.1 accepted⟩
          rw [after]
          exact coherent.storeTagValues _
      next unknown =>
        have sound := prepareUnknown_sound hashes db rp limited coherent within built
          (some state.cache)
        rw [prepared]
        refine ⟨⟨?_, ?_⟩, fun _ => ⟨sound.1, sound.2⟩⟩
        · intro _ other same known
          obtain rfl := Except.ok.inj same
          exact absurd known unknown
        · intro _
          refine ⟨fun _ => sound.2, ?_⟩
          intro other same counted measurement tagKey total limit refused
          obtain rfl := Except.ok.inj same
          have exceeds := exceeds_of_prepareUnknown limited coherent built
            (by rw [started.1]; exact counted) refused
          unfold ExceedsTagLimit at exceeds ⊢
          rw [started.1] at exceeds
          exact exceeds

end IngestNode

def oneTagValue : CardinalityLimitValues := { maxTagValuesPerMeasurement := 1 }

/-- Hashes that tell two values apart. -/
def hostHashes : IngestHashes where
  hashKey _ _ _ := 0
  hashSchema _ _ := 0
  hashTag _ _ _ _ value := if value = "a" then 1 else 2
  hashSeries _ _ _ id := id
  seriesIdForPoint point := if point.tags["host"]? = some "a" then 1 else 2

def pointOfHost (host : String) : Point :=
  { measurement := "m", tags := .ofList [("host", host)],
    fields := .ofList [("f", FieldValue.integer 1)],
    timestamp := 0 }

end HyperbyteDb
