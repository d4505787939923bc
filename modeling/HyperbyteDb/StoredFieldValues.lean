import HyperbyteDb.MovedFieldValues
import HyperbyteDb.RegisteredSchemas
import Mathlib.Data.Rat.Cast.Defs

/-!
# Values that are accepted and values that are stored

A point is kept if the types of its fields can be widened to the stored ones.  Whether its
values can be written to the widened columns is another question: a column of unsigned
numbers takes no negative integer, and a column of floats rounds large ones.  So the values
of the kept points are stored as what they are exactly if no negative integer meets an
unsigned number in a field, and no integer that a float cannot hold meets a float.
-/

namespace HyperbyteDb

open FieldValue GuardedRuns IngestState Std

/-! ## What values stand for -/

variable {casts : FloatCasts}

def floatNumber (bits : UInt64) : Option Rat :=
  let exponent := ((bits >>> 52) &&& 0x7FF).toNat
  let fraction := (bits &&& 0xFFFFFFFFFFFFF).toNat
  let sign : Rat := if bits >>> 63 = 0 then 1 else -1
  if exponent = 0x7FF then none
  else if exponent = 0 then some (sign * (fraction / 2 ^ 1074))
  else some (sign * ((2 ^ 52 + fraction) * 2 ^ exponent / 2 ^ 1075))

inductive FieldDatum where
  | number (value : Rat)
  | text (value : String)
  | truth (value : Bool)
deriving DecidableEq

def FieldValue.datum : FieldValue → Option FieldDatum
  | float bits => (floatNumber bits).map .number
  | integer value => some (.number value.toInt)
  | uinteger value => some (.number value.toNat)
  | string value => some (.text value)
  | boolean value => some (.truth value)

def ExactAsFloat (casts : FloatCasts) (value : Int64) : Prop :=
  floatNumber (casts.ofInt64 value) = some (value.toInt : Rat)

def StoredIn (casts : FloatCasts) (column : Option FieldType) (value : FieldValue) : Prop :=
  ∃ type, column = some type ∧ buildFieldCell casts type (some value) ≠ .null ∧
    ((buildFieldCell casts type (some value)).value type).bind datum = value.datum

/-- An integer is one of the numbers that a column of the type holds. -/
def IntegerFits (casts : FloatCasts) (type : FieldType) (value : Int64) : Prop :=
  (type = .unsigned → 0 ≤ value) ∧ (type = .float → ExactAsFloat casts value)

variable {value : Int64}

theorem natCast_toNat_toUInt64 (positive : 0 ≤ value) :
    ((value.toUInt64.toNat : Int)) = value.toInt := by
  have sign : 0 ≤ value.toBitVec.toInt := Int64.le_iff_toInt_le.mp positive
  have bits : value.toUInt64.toNat = value.toBitVec.toNat := rfl
  have signed : value.toInt = value.toBitVec.toInt := rfl
  rw [signed]
  rw [BitVec.toInt_eq_toNat_cond] at sign ⊢
  split at sign <;> split <;> omega

variable {type : FieldType}

theorem storedIn_some {value : FieldValue} :
    StoredIn casts (some type) value ↔ buildFieldCell casts type (some value) ≠ .null ∧
      ((buildFieldCell casts type (some value)).value type).bind datum = value.datum := by
  constructor
  · rintro ⟨_, ⟨⟩, stored⟩
    exact stored
  · intro stored
    exact ⟨type, rfl, stored⟩

theorem storedIn_float_iff :
    StoredIn casts (some .float) (.integer value) ↔ ExactAsFloat casts value := by
  rw [storedIn_some, ExactAsFloat]
  cases number : floatNumber (casts.ofInt64 value) <;>
    simp [buildFieldCell, FieldCell.value, datum, number]

theorem storedIn_unsigned_iff : StoredIn casts (some .unsigned) (.integer value) ↔ 0 ≤ value := by
  rw [storedIn_some, buildFieldCell]
  split
  next positive =>
    have same : ((value.toUInt64.toNat : Rat)) = (value.toInt : Rat) := by
      rw [← natCast_toNat_toUInt64 positive]
      rfl
    simp [FieldCell.value, datum, positive, same]
  next negative => simp [negative]

variable {wide : FieldType}

/-- Nothing but integers widens. -/
theorem Absorbs.eq_of_ne_integer {narrow : FieldType} (absorbs : Absorbs wide narrow)
    (notInteger : narrow ≠ .integer) : narrow = wide := by
  revert wide narrow
  decide

theorem Absorbs.integer_cases (absorbs : Absorbs wide .integer) :
    wide = .integer ∨ wide = .unsigned ∨ wide = .float := by
  revert wide
  decide

/-- A column that absorbs the type of a value holds it, unless it is an integer out of
range. -/
theorem storedIn_iff {value : FieldValue} (absorbs : Absorbs type value.fieldType)
    (notFloat : value.fieldType ≠ .float) :
    StoredIn casts (some type) value ↔
      ∀ number, value = .integer number → IntegerFits casts type number := by
  have own : value.fieldType = type → StoredIn casts (some type) value := by
    rintro rfl
    rw [storedIn_some, FieldCell.value_buildFieldCell]
    cases value <;> simp [buildFieldCell, fieldType]
  cases value with
  | float bits => exact absurd rfl notFloat
  | integer value =>
    rcases absorbs.integer_cases with rfl | rfl | rfl
    · simpa [IntegerFits] using own rfl
    · simpa [IntegerFits] using storedIn_unsigned_iff
    · simpa [IntegerFits] using storedIn_float_iff
  | uinteger value | string value | boolean value =>
    simpa using own (absorbs.eq_of_ne_integer (by simp [fieldType]))

/-! ## Histories -/

/-- The metadata of a node and the caches in front of it, with what was kept and what the
caches were told so far. -/
structure IngestHistory where
  store : MetadataStore := {}
  caches : Nat → IngestSchemaCache := fun _ => {}
  marked : List (MeasurementKey × BatchSchema) := []
  kept : Loads := []

inductive IngestEvent where
  | batch (cache : Nat) (db rp : String) (points : List Point)
  | restart

namespace IngestHistory

variable (hashes : SchemaHashes) (limits : CardinalityLimitValues) (history : IngestHistory)

def ingestState (cache : Nat) : IngestState :=
  ⟨history.store, history.caches cache⟩

def keptPoints (db rp : String) (points : List Point) : List Point :=
  (splitFieldTypeConflicts history.store db rp points).1

def newMarks (cache : Nat) (db rp : String) (points : List Point) (store : MetadataStore) :
    List (MeasurementKey × BatchSchema) :=
  match batchSchemas ∅ points with
  | .error _ => []
  | .ok schemas =>
    if schemas.toList.all fun (measurement, schema) =>
        (history.caches cache).isSchemaKnown hashes db rp measurement schema then []
    else schemas.toList.map fun (measurement, schema) =>
      (⟨db, rp, measurement⟩, ⟨store.mergedFieldTypes db rp measurement schema.fieldTypes,
        store.mergedTagKeys db rp measurement schema.tagKeys⟩)

def next : IngestEvent → IngestHistory
  | .batch cache db rp points =>
    let points := history.keptPoints db rp points
    match (history.ingestState cache).prepareBatchMetadata hashes db rp limits points with
    | .error _ => history
    | .ok after =>
      { store := after.store
        caches := Function.update history.caches cache after.cache
        marked := history.newMarks hashes cache db rp points after.store ++ history.marked
        kept := history.kept ++ loadsOf db rp points }
  | .restart => { history with caches := fun _ => {} }

def NoFalseHit : IngestEvent → Prop
  | .batch cache db rp points =>
    ∀ schemas, batchSchemas ∅ (history.keptPoints db rp points) = .ok schemas →
    ∀ name schema, schemas[name]? = some schema →
    (history.caches cache).isSchemaKnown hashes db rp name schema = true →
    (⟨db, rp, name⟩, schema) ∈ history.marked
  | .restart => True

/-- The stored types come from the kept points, and they cover them and all that the caches
take for known. -/
structure TypesKept : Prop where
  below : history.store.Below {} history.kept
  kept : ∀ key point, (key, point) ∈ history.kept → ∀ (field : String) type,
    point.fieldType? field = some type →
    ∃ other, (history.store.fieldTypesAt key)[field]? = some other ∧ Absorbs other type
  marked : ∀ key schema, (key, schema) ∈ history.marked →
    CoversTypes (history.store.fieldTypesAt key) schema.fieldTypes

variable {hashes limits history}

variable {cache : Nat} {points : List Point} {schema : BatchSchema}

theorem TypesKept.covers_schemas (holds : history.TypesKept) {db rp : String} {after : IngestState}
    {schemas : ExtTreeMap String BatchSchema} (built : batchSchemas ∅ points = .ok schemas)
    (genuine : ∀ name schema, schemas[name]? = some schema →
      (history.caches cache).isSchemaKnown hashes db rp name schema = true →
      (⟨db, rp, name⟩, schema) ∈ history.marked)
    (prepared : (history.ingestState cache).prepareBatchMetadata hashes db rp limits points =
      .ok after) {name : String} (lookup : schemas[name]? = some schema) :
    CoversTypes (after.store.fieldTypesAt ⟨db, rp, name⟩) schema.fieldTypes := by
  obtain ⟨schemas, rebuilt, way⟩ := prepareBatchMetadata_cases prepared
  obtain rfl := Except.ok.inj (built.symm.trans rebuilt)
  rcases way with ⟨known, rfl⟩ | ⟨-, checked, rfl⟩
  · rw [fieldTypesAt_registerNovelTags]
    have hit := List.all_eq_true.mp known (name, schema)
      (ExtTreeMap.mem_toList_iff_getElem?_eq_some.mpr lookup)
    exact holds.marked _ _ (genuine name schema lookup hit)
  · rw [fieldTypesAt_registerBatch points lookup]
    exact coversTypes_merge_batch (typesFit_of_checkBatch checked lookup)

variable {key : MeasurementKey}

theorem covers_newMarks {db rp : String} {store : MetadataStore}
    (covers : ∀ schemas, batchSchemas ∅ points = .ok schemas →
      ∀ name schema, schemas[name]? = some schema →
      CoversTypes (store.fieldTypesAt ⟨db, rp, name⟩) schema.fieldTypes)
    (member : (key, schema) ∈ history.newMarks hashes cache db rp points store) :
    CoversTypes (store.fieldTypesAt key) schema.fieldTypes := by
  revert member
  fun_cases newMarks with
  | case1 | case2 => rintro ⟨⟩
  | case3 schemas built =>
    intro member
    obtain ⟨entry, listed, made⟩ := List.mem_map.mp member
    have lookup := ExtTreeMap.mem_toList_iff_getElem?_eq_some.mp listed
    obtain ⟨rfl, rfl⟩ := Prod.mk.inj made
    rw [MetadataStore.mergedFieldTypes_eq,
      mergeFieldTypeMap_of_covered (covers schemas built entry.1 entry.2 lookup)]
    exact coversTypes_self _

theorem TypesKept.next (holds : history.TypesKept) {event : IngestEvent}
    (genuine : history.NoFalseHit hashes event) : (history.next hashes limits event).TypesKept := by
  cases event with
  | restart => exact ⟨holds.below, holds.kept, holds.marked⟩
  | batch cache db rp points =>
    unfold IngestHistory.next
    dsimp only
    generalize keptEq : history.keptPoints db rp points = kept
    split
    next => exact holds
    next after prepared =>
      have wider := coversTypes_prepareBatchMetadata prepared
      have schemasCovered : ∀ schemas, batchSchemas ∅ kept = .ok schemas →
          ∀ name schema, schemas[name]? = some schema →
          CoversTypes (after.store.fieldTypesAt ⟨db, rp, name⟩) schema.fieldTypes := by
        intro schemas built name schema lookup
        exact holds.covers_schemas built (genuine schemas (keptEq ▸ built)) prepared lookup
      constructor
      · exact prepareBatchMetadata_below holds.below prepared
      · intro key point member field type typed
        rcases List.mem_append.mp member with before | new
        · obtain ⟨between, lookup, absorbs⟩ := holds.kept key point before field type typed
          obtain ⟨other, lookupOther, absorbsBetween⟩ := wider key field between lookup
          exact ⟨other, lookupOther, absorbsBetween.trans absorbs⟩
        · obtain ⟨inKept, keyed⟩ := mem_loadsOf.mp new
          obtain ⟨schemas, built, -⟩ := prepareBatchMetadata_cases prepared
          obtain ⟨between, lookup, absorbs⟩ := coversPoints_of_batchSchemas built
            point inKept field type typed
          cases found : schemas[point.measurement]? with
          | none => simp [soFarTypes, schemaSoFar, found] at lookup
          | some schema =>
            have lookup : schema.fieldTypes[field]? = some between := by
              simpa [soFarTypes, schemaSoFar, found] using lookup
            obtain ⟨other, lookupOther, absorbsBetween⟩ :=
              schemasCovered schemas built _ schema found field between lookup
            obtain rfl : key = ⟨db, rp, point.measurement⟩ := keyed
            exact ⟨other, lookupOther, absorbsBetween.trans absorbs⟩
      · intro key schema member
        rcases List.mem_append.mp member with new | before
        · exact covers_newMarks schemasCovered new
        · exact (wider key).trans (holds.marked key schema before)

def Meets (key : MeasurementKey) (field : String) (type : FieldType) : Prop :=
  ∃ point, (key, point) ∈ history.kept ∧ point.fieldType? field = some type

theorem TypesKept.column (holds : history.TypesKept) {field : String}
    (meets : history.Meets key field type) :
    ∃ column, (history.store.fieldTypesAt key)[field]? = some column ∧
      history.Meets key field column ∧ ∀ other, history.Meets key field other →
        Absorbs column other := by
  obtain ⟨point, member, typed⟩ := meets
  obtain ⟨column, lookup, -⟩ := holds.kept key point member field type typed
  refine ⟨column, lookup, ?_, ?_⟩
  · rcases holds.below.types key field with same | ⟨brought, meets, after, -⟩
    · rw [lookup] at same
      simp [MetadataStore.fieldTypesAt] at same
    · obtain rfl := Option.some.inj (lookup.symm.trans after)
      exact meets
  · rintro other ⟨another, memberAnother, typedAnother⟩
    obtain ⟨again, lookupAgain, absorbs⟩ :=
      holds.kept key another memberAnother field other typedAnother
    obtain rfl := Option.some.inj (lookup.symm.trans lookupAgain)
    exact absorbs

def ValuesStored (casts : FloatCasts) (history : IngestHistory) : Prop :=
  ∀ key point (field : String) value, (key, point) ∈ history.kept →
    point.fields[field]? = some value → value.fieldType ≠ .float →
    StoredIn casts (history.store.fieldTypesAt key)[field]? value

def IntegersFit (casts : FloatCasts) (history : IngestHistory) : Prop :=
  ∀ key point (field : String) number, (key, point) ∈ history.kept →
    point.fields[field]? = some (.integer number) →
    (history.Meets key field .unsigned → 0 ≤ number) ∧
      (history.Meets key field .float → ExactAsFloat casts number)

theorem TypesKept.valuesStored_iff (holds : history.TypesKept) (casts : FloatCasts) :
    history.ValuesStored casts ↔ history.IntegersFit casts := by
  have typed : ∀ {point : Point} {field : String} {value : FieldValue},
      point.fields[field]? = some value → point.fieldType? field = some value.fieldType := by
    intro point field value lookup
    rw [Point.fieldType?, lookup]
    rfl
  -- a type that is not an integer's is the type of the column wherever it is met
  have meets_iff : ∀ {key : MeasurementKey} {field : String} {column type : FieldType},
      history.Meets key field column →
      (∀ other, history.Meets key field other → Absorbs column other) → type ≠ .integer →
      (history.Meets key field type ↔ column = type) := by
    intro key field column type own absorbs notInteger
    constructor
    · intro meets
      exact ((absorbs type meets).eq_of_ne_integer notInteger).symm
    · rintro rfl
      exact own
  constructor
  · intro stored key point field number member lookup
    have notFloat : (integer number).fieldType ≠ .float := by
      simp [fieldType]
    obtain ⟨column, found, own, absorbs⟩ := holds.column ⟨point, member, typed lookup⟩
    have fits := stored key point field (.integer number) member lookup notFloat
    rw [found, storedIn_iff (absorbs _ ⟨point, member, typed lookup⟩) notFloat] at fits
    rw [meets_iff own absorbs (by decide), meets_iff own absorbs (by decide)]
    exact fits number rfl
  · intro fit key point field value member lookup notFloat
    obtain ⟨column, found, own, absorbs⟩ := holds.column ⟨point, member, typed lookup⟩
    rw [found, storedIn_iff (absorbs _ ⟨point, member, typed lookup⟩) notFloat]
    rintro number rfl
    have fits := fit key point field number member lookup
    rw [meets_iff own absorbs (by decide), meets_iff own absorbs (by decide)] at fits
    exact fits

theorem typesKept_empty : ({} : IngestHistory).TypesKept where
  below := MetadataStore.below_self _ _
  kept := by simp
  marked := by simp

deriving instance DecidableEq for BatchSchema

instance (hashes : SchemaHashes) (history : IngestHistory) :
    (event : IngestEvent) → Decidable (history.NoFalseHit hashes event)
  | .restart => .isTrue trivial
  | .batch cache db rp points =>
    match built : batchSchemas ∅ (history.keptPoints db rp points) with
    | .error _ => .isTrue fun _ made => by cases built.symm.trans made
    | .ok schemas =>
      have : Decidable (∀ entry ∈ schemas.toList,
          (history.caches cache).isSchemaKnown hashes db rp entry.1 entry.2 = true →
          (⟨db, rp, entry.1⟩, entry.2) ∈ history.marked) := List.decidableBAll _ _
      decidable_of_iff (∀ entry ∈ schemas.toList,
          (history.caches cache).isSchemaKnown hashes db rp entry.1 entry.2 = true →
          (⟨db, rp, entry.1⟩, entry.2) ∈ history.marked) (by
        constructor
        · intro each schemas made name schema lookup
          obtain rfl := Except.ok.inj (built.symm.trans made)
          exact each (name, schema) (ExtTreeMap.mem_toList_iff_getElem?_eq_some.mpr lookup)
        · intro each entry member
          exact each schemas built entry.1 entry.2
            (ExtTreeMap.mem_toList_iff_getElem?_eq_some.mp member))

end IngestHistory

/-- **Accepted values are stored** exactly if no integer meets, in its field, an unsigned
number while it is negative or a float that cannot stand for it: over every history of
batches and restarts, through any number of caches whose hashes do not collide. -/
theorem accepted_values_stored_iff (casts : FloatCasts) (hashes : SchemaHashes)
    (limits : CardinalityLimitValues) (events : List IngestEvent)
    (genuine : Along (IngestHistory.next hashes limits)
      (IngestHistory.NoFalseHit hashes) {} events) :
    (run (IngestHistory.next hashes limits) {} events).ValuesStored casts ↔
      (run (IngestHistory.next hashes limits) {} events).IntegersFit casts := by
  have holds : (run (IngestHistory.next hashes limits) {} events).TypesKept :=
    run_invariant (fun history event holds genuine => holds.next genuine)
      IngestHistory.typesKept_empty genuine
  exact holds.valuesStored_iff casts

/-- Hashes that tell the schemas of the samples apart. -/
def typeHashes : SchemaHashes where
  hashKey _ _ _ := 0
  hashSchema types _ := if types["f"]? = some .unsigned then 2 else 1
  hashTag _ _ _ _ _ := 0
  hashSeries _ _ _ := 0

def zeroCasts : FloatCasts where
  ofInt64 _ := 0
  ofUInt64 _ := 0
  toInt64 _ := 0

def pointOfValue (value : FieldValue) : Point :=
  { measurement := "m", tags := ∅, fields := .ofList [("f", value)], timestamp := 0 }

def signedThenUnsigned (value : Int64) : List IngestEvent :=
  [.batch 0 "db" "rp" [pointOfValue (.integer value)],
    .batch 0 "db" "rp" [pointOfValue (.uinteger 1)]]

theorem accepted_five_stored :
    Along (IngestHistory.next typeHashes {}) (IngestHistory.NoFalseHit typeHashes)
      {} (signedThenUnsigned 5) ∧ ((run (IngestHistory.next typeHashes {}) {}
        (signedThenUnsigned 5)).ValuesStored zeroCasts ↔ (run (IngestHistory.next typeHashes {}) {}
        (signedThenUnsigned 5)).IntegersFit zeroCasts) := by
  have genuine : Along (IngestHistory.next typeHashes {})
      (IngestHistory.NoFalseHit typeHashes) {} (signedThenUnsigned 5) := by
    decide +kernel
  exact ⟨genuine, accepted_values_stored_iff zeroCasts typeHashes {} _ genuine⟩

/-- A negative integer is accepted, and it is stored as null once its field is unsigned. -/
theorem accepted_negative_not_stored :
    Along (IngestHistory.next typeHashes {}) (IngestHistory.NoFalseHit typeHashes)
      {} (signedThenUnsigned (-1)) ∧
    ¬(run (IngestHistory.next typeHashes {}) {}
        (signedThenUnsigned (-1))).ValuesStored zeroCasts := by
  refine ⟨by decide +kernel, fun stored => ?_⟩
  have column : ((run (IngestHistory.next typeHashes {}) {}
      (signedThenUnsigned (-1))).store.fieldTypesAt ⟨"db", "rp", "m"⟩)["f"]? =
        some .unsigned := by
    decide +kernel
  have negative := stored ⟨"db", "rp", "m"⟩ (pointOfValue (.integer (-1))) "f" (.integer (-1))
    (by decide +kernel) (by decide +kernel) (by decide)
  rw [column, storedIn_unsigned_iff] at negative
  exact absurd negative (by decide)

end HyperbyteDb
