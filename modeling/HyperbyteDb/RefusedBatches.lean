import HyperbyteDb.SchemaCacheTransparency
import HyperbyteDb.ShardWriteIsolation

/-!
# What a refused batch leaves, and which points are refused

Preparing a batch registers its series before anything is checked, so a batch that is refused
leaves those series behind.  The points that conflict with stored types are split off before
that; what is kept is never refused for its types.
-/

namespace HyperbyteDb

open List NodeMetadata Std

variable {node : NodeMetadata} {limits : CardinalityLimitValues} {db rp : String}
  {points : List Point} {schemas : ExtTreeMap String BatchSchema}

namespace NodeMetadata

variable {hashes : IngestHashes}
  {cache : Option IngestSchemaCache} {cause : HyperbytedbError}

/-! ## Traces of refused batches -/

theorem prepareUnknown_refused
    (refused : (node.prepareUnknown hashes limits cache db rp schemas points).result =
      .error cause) :
    (node.prepareUnknown hashes limits cache db rp schemas points).node.store = node.store ∧
      (node.checkBatch limits db rp schemas points).1 = .error cause := by
  have same := sameAnswers_checkBatch limits db rp points node schemas
  unfold prepareUnknown at refused ⊢
  split
  next checked =>
    rw [checked] at same refused ⊢
    exact ⟨same.store, refused⟩
  next checked =>
    rw [checked] at refused
    cases refused

/-- A batch is refused by the scan of its types or by the checks; the rows of measurements and
tag values are as before. -/
theorem prepareBatchMetadata_refused
    (refused : (node.prepareBatchMetadata hashes limits cache db rp points).result = .error cause) :
    (node.prepareBatchMetadata hashes limits cache db rp points).node.store = node.store ∧
      (batchSchemas ∅ points = .error cause ∨ ∃ schemas, batchSchemas ∅ points = .ok schemas ∧
        ((node.registerSeriesBatch hashes db rp
          (unregisteredPoints hashes cache db rp points)).checkBatch limits db rp schemas
            points).1 = .error cause) := by
  have started := (store_registerSeriesBatch node hashes db rp
    (unregisteredPoints hashes cache db rp points)).1
  rw [← started]
  unfold prepareBatchMetadata at refused ⊢
  split at refused
  next built =>
    cases refused
    exact ⟨rfl, .inl built⟩
  next schemas built =>
    split at refused
    · obtain ⟨same, checked⟩ := prepareUnknown_refused refused
      exact ⟨same, .inr ⟨schemas, built, checked⟩⟩
    · split at refused
      · cases refused
      next unknown =>
        obtain ⟨same, checked⟩ := prepareUnknown_refused refused
        rw [if_neg unknown]
        exact ⟨same, .inr ⟨schemas, built, checked⟩⟩

/-- **A refused batch leaves no trace** exactly if every series that it was to register is
registered before. -/
theorem refused_batch_traceless_iff
    (refused : (node.prepareBatchMetadata hashes limits cache db rp points).result = .error cause) :
    ((node.prepareBatchMetadata hashes limits cache db rp points).node.store = node.store ∧
        ∀ key, (node.prepareBatchMetadata hashes limits cache db rp points).node.seriesAt key =
          node.seriesAt key) ↔
      ∀ point ∈ unregisteredPoints hashes cache db rp points,
        hashes.seriesIdForPoint point ∈ node.seriesAt ⟨db, rp, point.measurement⟩ := by
  have registers : ∀ key,
      (node.prepareBatchMetadata hashes limits cache db rp points).node.seriesAt key =
        (node.registerSeriesBatch hashes db rp
          (unregisteredPoints hashes cache db rp points)).seriesAt key :=
    seriesAt_congr (series_prepareBatchMetadata node hashes limits cache db rp points)
  simp only [registers, (prepareBatchMetadata_refused refused).1, true_and]
  constructor
  · intro same point member
    rw [← same, mem_seriesAt_registerSeriesBatch]
    exact .inr ⟨point, member, rfl, rfl⟩
  · intro registered key
    rw [seriesAt_registerSeriesBatch_filter (fun _ => rfl)
      fun point member (_ : (fun _ => false) point = false) => registered point member,
      filter_false]
    rfl

end NodeMetadata

/-- A batch with a field of two types. -/
def refusedSample (node : NodeMetadata) : PrepareOutcome :=
  node.prepareBatchMetadata sameHashes {} none "db" "rp"
    [sampledPoint, { sampledPoint with fields := .ofList [("f", FieldValue.string "x")] }]

/-- The second time the series is there already. -/
theorem refusedSample_again :
    (refusedSample (refusedSample {}).node).node.store = (refusedSample {}).node.store ∧
      ∀ key, (refusedSample (refusedSample {}).node).node.seriesAt key =
        (refusedSample {}).node.seriesAt key := by
  have refused : (refusedSample (refusedSample {}).node).result =
      .error (fieldTypeConflict "f" "m" .string .integer) := by
    decide +kernel
  exact (refused_batch_traceless_iff refused).mpr (by decide +kernel)

theorem refusedSample_leaves_series :
    (refusedSample {}).result = .error (fieldTypeConflict "f" "m" .string .integer) ∧
      ¬∀ key, (refusedSample {}).node.seriesAt key = ({} : NodeMetadata).seriesAt key := by
  refine ⟨by decide +kernel, fun same => ?_⟩
  have none := congrArg (·.size) (same ⟨"db", "rp", "m"⟩)
  revert none
  decide +kernel

/-! ## Points without a conflict -/

/-- The type of a field after a first one and the types of the points that are kept. -/
def typeAfter (stored : Option FieldType) (kept : List Point) (measurement field : String) :
    Option FieldType :=
  ((kept.filter (·.measurement == measurement)).filterMap (·.fieldType? field)).foldl
    (fun known type => some (widenWith known type)) stored

theorem getElem?_foldl_widenKnown (known : String → FieldTypes) (kept : List Point)
    (measurement field : String) : (kept.foldl widenKnown known measurement)[field]? =
      typeAfter (known measurement)[field]? kept measurement field := by
  induction kept generalizing known with
  | nil => rfl
  | cons point kept ih =>
    rw [foldl_cons, ih, typeAfter, typeAfter, widenKnown]
    by_cases same : point.measurement = measurement
    · rw [if_pos same, getElem?_widenFields, filter_cons_of_pos (by simpa using same)]
      cases typed : point.fieldType? field <;> simp [typed]
    · rw [if_neg same, filter_cons_of_neg (by simpa using same)]

/-- A field of the point cannot be widened with the type that is known of it. -/
def Conflicts (known : String → Option FieldType) (point : Point) : Prop :=
  ∃ field type earlier, point.fieldType? field = some type ∧ known field = some earlier ∧
    widenFieldDisc earlier type = none

theorem findConflict_eq_none_iff_not_conflicts (types : FieldTypes) (point : Point) :
    findConflict types point = none ↔ ¬Conflicts (types[·]?) point := by
  rw [findConflict_eq_none_iff]
  simp only [Conflicts, not_exists, not_and, fieldTypesCompatible, Option.isSome_iff_ne_none]
  exact ⟨fun fits field type known typed lookup => fits field known type lookup typed,
    fun fits field known type lookup typed => fits field type known typed lookup⟩

theorem splitKnown_append (known : String → FieldTypes) (before after : List Point) :
    (splitKnown known (before ++ after)).1 = (splitKnown known before).1 ++
      (splitKnown ((splitKnown known before).1.foldl widenKnown known) after).1 := by
  fun_induction splitKnown known before with
  | case1 => rfl
  | case2 known point rest cause conflict ih => simp only [cons_append, splitKnown, conflict, ih]
  | case3 known point rest conflict ih =>
    simp only [cons_append, splitKnown, conflict, ih, foldl_cons]

namespace NodeMetadata

variable
  {field measurement got expected : String}

/-- The checks refuse a batch for a type only where a schema conflicts with a stored one. -/
theorem checkBatch_ne_fieldTypeConflict (fits : ∀ entry ∈ schemas.toList,
      node.store.checkFieldTypes db rp entry.1 entry.2.fieldTypes = .ok ()) :
    (node.checkBatch limits db rp schemas points).1 ≠
      .error (.fieldTypeConflict field measurement got expected) := by
  intro refused
  rcases checkBatch_error_cases refused with counted | ⟨entry, listed, tagged | typed⟩
  · revert counted
    fun_cases checkMeasurementCount <;> simp
  · obtain ⟨tagKey, -, state, -, failed⟩ := tagged
    revert failed
    fun_cases checkTagKey
    · simp
    · split <;> simp
  · cases (fits entry listed).symm.trans typed

end NodeMetadata

/-- **The split of conflicting points is exact, and what it keeps is not refused**: the kept
points come in their order, a point is dropped exactly if one of its fields cannot be widened
with its type after the stored one and those of the points kept before, and the kept points are
never refused for their types, with any limits and any cache. -/
theorem splitFieldTypeConflicts_exact (store : MetadataStore) (db rp : String)
    (points : List Point) : (splitFieldTypeConflicts store db rp points).1.Sublist points ∧
      (∀ before point after, points = before ++ point :: after →
        let kept := (splitFieldTypeConflicts store db rp before).1
        let known := fun field => typeAfter
          (store.fieldTypesAt ⟨db, rp, point.measurement⟩)[field]? kept point.measurement field
        ∃ rest, rest.Sublist after ∧ (Conflicts known point ∧
              (splitFieldTypeConflicts store db rp points).1 = kept ++ rest ∨
            ¬Conflicts known point ∧
              (splitFieldTypeConflicts store db rp points).1 = kept ++ point :: rest)) ∧
      ∀ (node : NodeMetadata) hashes limits cache field measurement got expected,
        node.store = store → (node.prepareBatchMetadata hashes limits cache db rp
          (splitFieldTypeConflicts store db rp points).1).result ≠
            .error (.fieldTypeConflict field measurement got expected) := by
  refine ⟨?_, ?_, ?_⟩
  · rw [splitFieldTypeConflicts_eq]
    exact splitKnown_sublist _ points
  · rintro before point after rfl kept known
    have keptEq : kept =
        (splitKnown (fun name => store.fieldTypesAt ⟨db, rp, name⟩) before).1 := by
      simp only [kept, splitFieldTypeConflicts_eq]
    have conflicts := findConflict_eq_none_iff_not_conflicts
      (kept.foldl widenKnown (fun name => store.fieldTypesAt ⟨db, rp, name⟩) point.measurement)
      point
    simp only [getElem?_foldl_widenKnown] at conflicts
    rw [splitFieldTypeConflicts_eq, splitKnown_append, ← keptEq, splitKnown]
    split
    next conflict =>
      refine ⟨_, splitKnown_sublist _ after, .inl ⟨?_, rfl⟩⟩
      by_contra none
      rw [conflicts.mpr none] at conflict
      cases conflict
    next none => exact ⟨_, splitKnown_sublist _ after, .inr ⟨conflicts.mp none, rfl⟩⟩
  · rintro node hashes limits cache field measurement got expected rfl refused
    have fit := ShardPrimary.loadsFit_splitFieldTypeConflicts node.store db rp points
    obtain ⟨schemas, built⟩ := fit.exists_batchSchemas (Subset.refl _)
    obtain ⟨-, scanned | ⟨made, madeEq, checked⟩⟩ :=
      prepareBatchMetadata_refused refused
    · cases built.symm.trans scanned
    · refine checkBatch_ne_fieldTypeConflict (fun entry listed => ?_) checked
      rw [(store_registerSeriesBatch ..).1]
      exact checkFieldTypes_eq_ok (MetadataStore.below_self _ []) fit (nil_subset _) (Subset.refl _)
        (schemasFrom_of_batchSchemas madeEq)
        (ExtTreeMap.mem_toList_iff_getElem?_eq_some.mp listed)

end HyperbyteDb
