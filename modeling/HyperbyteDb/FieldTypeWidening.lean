import HyperbyteDb.IngestMetadata
import HyperbyteDb.KeyedUpdates

/-!
# Field types widen independently of their order

Integers widen to floats and to unsigned integers, and nothing else widens.  A batch has a
schema for each of its measurements, and the order of its points does not matter.
-/

namespace HyperbyteDb

open List Std

section

instance : Fintype FieldType where
  elems := {.float, .integer, .unsigned, .string, .boolean}
  complete type := by cases type <;> decide

theorem fieldTypesCompatible_comm (first second : FieldType) :
    fieldTypesCompatible first second = fieldTypesCompatible second first := by
  cases first <;> cases second <;> rfl

theorem fieldTypesCompatible_self (type : FieldType) : fieldTypesCompatible type type = true := by
  cases type <;> rfl

def Absorbs (wide narrow : FieldType) : Prop :=
  widenFieldDisc narrow wide = some wide

instance (wide narrow : FieldType) : Decidable (Absorbs wide narrow) :=
  inferInstanceAs (Decidable (_ = _))

theorem absorbs_self (type : FieldType) : Absorbs type type := by
  cases type <;> rfl

theorem Absorbs.trans {wide middle narrow : FieldType} (first : Absorbs wide middle)
    (second : Absorbs middle narrow) : Absorbs wide narrow := by
  revert wide middle narrow
  decide

theorem Absorbs.antisymm {first second : FieldType} (one : Absorbs first second)
    (other : Absorbs second first) : first = second := by
  revert first second
  decide

variable {type : FieldType}

theorem compatible_of_absorbs {wide narrow : FieldType} (absorbs : Absorbs wide narrow)
    (compatible : fieldTypesCompatible wide type = true) :
    fieldTypesCompatible narrow type = true := by
  revert wide narrow type
  decide

theorem widenFieldDisc_cases {first second : FieldType}
    (compatible : fieldTypesCompatible first second = true) :
    (Absorbs second first ∧ widenFieldDisc first second = some second) ∨
      (Absorbs first second ∧ widenFieldDisc first second = some first) := by
  revert first second
  decide

def Point.fieldType? (point : Point) (field : String) : Option FieldType :=
  point.fields[field]?.map (·.fieldType)

/-- The types after one more type, as a point without a conflict leaves them. -/
def widenWith (known : Option FieldType) (type : FieldType) : FieldType :=
  (known.bind (widenFieldDisc · type)).getD type

theorem getElem?_widenFields (types : FieldTypes) (point : Point) (field : String) :
    (widenFields types point)[field]? = match point.fieldType? field with
      | some type => some (widenWith types[field]? type)
      | none => types[field]? := by
  unfold widenFields Point.fieldType?
  rw [KeyedUpdates.getElem?_foldl_toList fun known value =>
    some (widenWith known value.fieldType)]
  · cases point.fields[field]? <;> rfl
  · intro map entry probe
    rw [ExtTreeMap.getElem?_insert]
    by_cases same : entry.1 = probe
    · subst same
      simp [widenWith]
    · simp [same]

theorem findConflict_eq_none_iff (types : FieldTypes) (point : Point) :
    findConflict types point = none ↔
      ∀ field known type, types[field]? = some known → point.fieldType? field = some type →
        fieldTypesCompatible known type = true := by
  unfold findConflict Point.fieldType?
  rw [findSome?_eq_none_iff]
  constructor
  · intro none_ field known type lookup typed
    obtain ⟨value, stored, rfl⟩ := Option.map_eq_some_iff.mp typed
    have noConflict := none_ (field, value) (ExtTreeMap.mem_toList_iff_getElem?_eq_some.mpr stored)
    rw [lookup] at noConflict
    by_contra conflict
    simp [conflict] at noConflict
  · intro compatible entry member
    have stored := ExtTreeMap.mem_toList_iff_getElem?_eq_some.mp member
    cases lookup : types[entry.1]? with
    | none => rfl
    | some known =>
      have fits := compatible entry.1 known entry.2.fieldType lookup (by rw [stored]; rfl)
      simp [fits]

def Widened (brought : FieldType → Prop) (before after : Option FieldType) : Prop :=
  after = before ∨ ∃ type, brought type ∧ after = some type ∧
    ∀ known, before = some known → Absorbs type known

namespace Widened

variable {brought more : FieldType → Prop} {before middle after : Option FieldType}

theorem refl (brought : FieldType → Prop) (known : Option FieldType) :
    Widened brought known known :=
  Or.inl rfl

theorem mono (widened : Widened brought before after)
    (included : ∀ type, brought type → more type) : Widened more before after := by
  rcases widened with same | ⟨type, isBrought, rest⟩
  · exact Or.inl same
  · exact Or.inr ⟨type, included type isBrought, rest⟩

theorem trans (first : Widened brought before middle) (second : Widened brought middle after) :
    Widened brought before after := by
  rcases second with rfl | ⟨type, isBrought, rfl, absorbs⟩
  · exact first
  · refine Or.inr ⟨type, isBrought, rfl, ?_⟩
    rcases first with rfl | ⟨earlier, -, rfl, absorbsEarlier⟩
    · exact absorbs
    · intro known lookup
      exact (absorbs earlier rfl).trans (absorbsEarlier known lookup)

theorem compatible (widened : Widened brought before after)
    (fits : ∀ known, before = some known → fieldTypesCompatible known type = true)
    (fitsBrought : ∀ other, brought other → fieldTypesCompatible other type = true)
    {known : FieldType} (lookup : after = some known) : fieldTypesCompatible known type = true := by
  rcases widened with rfl | ⟨other, isBrought, rfl, -⟩
  · exact fits known lookup
  · obtain rfl := Option.some.inj lookup
    exact fitsBrought _ isBrought

/-- What widens one of two sides to the other stays between them. -/
theorem join {existing batch merged : Option FieldType} (first : Widened brought before existing)
    (second : Widened brought before batch)
    (merge : Widened (fun type => batch = some type) existing merged) :
    Widened brought before merged := by
  rcases merge with rfl | ⟨type, rfl, rfl, absorbs⟩
  · exact first
  · rcases second with same | ⟨other, isBrought, same, absorbsBefore⟩
    · -- The old type comes again, so the existing one is still it.
      rcases first with rfl | ⟨wide, -, rfl, absorbsType⟩
      · exact Or.inl same
      · exact Or.inl (by
          rw [← same])
    · cases same
      exact Or.inr ⟨type, isBrought, rfl, absorbsBefore⟩

end Widened

section

variable {known : Option FieldType}
  (fits : ∀ stored, known = some stored → fieldTypesCompatible stored type = true)
include fits

/-- One more compatible type is one of those that were brought. -/
theorem widened_widenWith : Widened (· = type) known (some (widenWith known type)) := by
  cases known with
  | none => exact Or.inr ⟨type, rfl, rfl, by simp⟩
  | some stored =>
    rcases widenFieldDisc_cases (fits stored rfl) with ⟨absorbs, widened⟩ | ⟨-, widened⟩
    · refine Or.inr ⟨type, rfl, by simp [widenWith, widened], ?_⟩
      rintro known ⟨⟩
      exact absorbs
    · exact Or.inl (by simp [widenWith, widened])

theorem absorbs_widenWith : Absorbs (widenWith known type) type := by
  cases known with
  | none => exact absorbs_self type
  | some stored =>
    rcases widenFieldDisc_cases (fits stored rfl) with ⟨-, widened⟩ | ⟨absorbs, widened⟩
    · simpa [widenWith, widened] using absorbs_self type
    · simpa [widenWith, widened] using absorbs

end

/-- A type stays ahead of what was brought when one more type comes to both sides. -/
theorem Widened.widenWith {brought : FieldType → Prop} {before after : Option FieldType}
    (widened : Widened brought before after)
    (fits : ∀ known, before = some known → fieldTypesCompatible known type = true)
    (fitsAfter : ∀ known, after = some known → fieldTypesCompatible known type = true) :
    Widened brought (some (widenWith before type)) (some (widenWith after type)) := by
  rcases widened with rfl | ⟨other, isBrought, rfl, absorbs⟩
  · exact Or.inl rfl
  · rcases widenFieldDisc_cases (fitsAfter other rfl) with ⟨absorbsOther, kept⟩ | ⟨absorbsType, kept⟩
    · -- The new type is ahead of both sides.
      refine Or.inl ?_
      cases before with
      | none => simp [HyperbyteDb.widenWith, kept]
      | some known =>
        have ahead : widenFieldDisc known type = some type :=
          absorbsOther.trans (absorbs known rfl)
        simp [HyperbyteDb.widenWith, kept, ahead]
    · refine Or.inr ⟨other, isBrought, by simp [HyperbyteDb.widenWith, kept], ?_⟩
      rintro known ⟨⟩
      cases before with
      | none => exact absorbsType
      | some stored =>
        rcases widenFieldDisc_cases (fits stored rfl) with ⟨-, widened⟩ | ⟨-, widened⟩
        · simpa [HyperbyteDb.widenWith, widened] using absorbsType
        · simpa [HyperbyteDb.widenWith, widened] using absorbs stored rfl

def CoversTypes (wide narrow : FieldTypes) : Prop :=
  ∀ (field : String) (type : FieldType), narrow[field]? = some type →
    ∃ other, wide[field]? = some other ∧ Absorbs other type

theorem coversTypes_self (types : FieldTypes) : CoversTypes types types :=
  fun _ type lookup => ⟨type, lookup, absorbs_self type⟩

variable {point : Point}

theorem widened_widenFields {types : FieldTypes} (fits : findConflict types point = none)
    (field : String) :
    Widened (fun type => point.fieldType? field = some type) types[field]?
      (widenFields types point)[field]? := by
  rw [getElem?_widenFields]
  cases typed : point.fieldType? field with
  | none => exact .refl _ _
  | some type =>
    refine (widened_widenWith fun known lookup =>
      (findConflict_eq_none_iff types point).mp fits field known type lookup typed).mono ?_
    rintro other rfl
    rfl

theorem CoversTypes.of_widened {wide narrow : FieldTypes} {brought : String → FieldType → Prop}
    (widened : ∀ field : String, Widened (brought field) narrow[field]? wide[field]?) :
    CoversTypes wide narrow := by
  intro field type lookup
  rcases widened field with same | ⟨other, -, after, absorbs⟩
  · exact ⟨type, same.trans lookup, absorbs_self type⟩
  · exact ⟨other, after, absorbs type lookup⟩

theorem CoversTypes.trans {wide middle narrow : FieldTypes} (first : CoversTypes wide middle)
    (second : CoversTypes middle narrow) : CoversTypes wide narrow := by
  intro field type lookup
  obtain ⟨between, lookupBetween, absorbs⟩ := second field type lookup
  obtain ⟨other, lookupOther, absorbsBetween⟩ := first field between lookupBetween
  exact ⟨other, lookupOther, absorbsBetween.trans absorbs⟩

/-! ## Types that widen point by point -/

section Known

variable {known wider : String → FieldTypes} {seen : List Point}

/-- The types of all measurements after a point without a conflict. -/
def widenKnown (known : String → FieldTypes) (point : Point) (measurement : String) : FieldTypes :=
  if point.measurement = measurement then widenFields (known measurement) point
  else known measurement

theorem widened_widenKnown (fits : findConflict (known point.measurement) point = none)
    (measurement : String) :
    CoversTypes (widenKnown known point measurement) (known measurement) := by
  unfold widenKnown
  split
  next same =>
    subst same
    exact .of_widened (widened_widenFields fits)
  next => exact coversTypes_self _

def CoversPoints (known : String → FieldTypes) (seen : List Point) : Prop :=
  ∀ point ∈ seen, ∀ (field : String) type, point.fieldType? field = some type →
    ∃ other, (known point.measurement)[field]? = some other ∧ Absorbs other type

theorem CoversPoints.mono (covers : CoversPoints known seen)
    (wide : ∀ measurement, CoversTypes (wider measurement) (known measurement)) :
    CoversPoints wider seen := by
  intro point member field type typed
  obtain ⟨between, lookup, absorbs⟩ := covers point member field type typed
  obtain ⟨other, lookupOther, absorbsBetween⟩ := wide point.measurement field between lookup
  exact ⟨other, lookupOther, absorbsBetween.trans absorbs⟩

theorem CoversPoints.widenKnown (fits : findConflict (known point.measurement) point = none)
    (covers : CoversPoints known seen) :
    CoversPoints (widenKnown known point) (seen ++ [point]) := by
  intro other member
  rcases mem_append.mp member with before | here
  · exact covers.mono (widened_widenKnown fits) other before
  · obtain rfl := mem_singleton.mp here
    intro field type typed
    rw [HyperbyteDb.widenKnown, if_pos rfl, getElem?_widenFields, typed]
    exact ⟨_, rfl, absorbs_widenWith fun known lookup =>
      (findConflict_eq_none_iff _ _).mp fits field known type lookup typed⟩

end Known

def FieldsAgree (first second : Point) : Prop :=
  ∀ (field : String) one other, first.fieldType? field = some one →
    second.fieldType? field = some other → fieldTypesCompatible one other = true

theorem FieldsAgree.symm {first second : Point} (agree : FieldsAgree first second) :
    FieldsAgree second first := by
  intro field one other typed typedOther
  rw [fieldTypesCompatible_comm]
  exact agree field other one typedOther typed

theorem fieldsAgree_self (point : Point) : FieldsAgree point point := by
  intro field one other typed typedAgain
  cases typed.symm.trans typedAgain
  exact fieldTypesCompatible_self one

def TypesAgree (first second : Point) : Prop :=
  first.measurement = second.measurement → FieldsAgree first second

instance : Std.Symm TypesAgree where
  symm _ _ agree same := (agree same.symm).symm

def FitsStored (stored : FieldTypes) (point : Point) : Prop :=
  ∀ (field : String) known type, stored[field]? = some known →
    point.fieldType? field = some type → fieldTypesCompatible known type = true

theorem FitsStored.of_covers {wide narrow : FieldTypes} (covers : CoversTypes wide narrow)
    (fits : FitsStored wide point) : FitsStored narrow point := by
  intro field known type lookup typed
  obtain ⟨other, lookupOther, absorbs⟩ := covers field known lookup
  exact compatible_of_absorbs absorbs (fits field other type lookupOther typed)

theorem CoversPoints.typesAgree {known : String → FieldTypes} {seen : List Point}
    (covers : CoversPoints known seen)
    (fits : findConflict (known point.measurement) point = none) :
    ∀ other ∈ seen, TypesAgree other point := by
  intro other inSeen same field one type typed typedHere
  obtain ⟨wide, lookup, absorbs⟩ := covers other inSeen field one typed
  rw [same] at lookup
  exact compatible_of_absorbs absorbs
    ((findConflict_eq_none_iff _ _).mp fits field wide type lookup typedHere)

/-! ## Splitting a batch -/

section Splits

variable {stored known known' : String → FieldTypes}
  {brought : String → String → FieldType → Prop}

def knownTypes (stored : String → FieldTypes) (types : ExtTreeMap String FieldTypes)
    (measurement : String) : FieldTypes :=
  types[measurement]?.getD (stored measurement)

theorem knownTypes_insert (types : ExtTreeMap String FieldTypes) (measurement other : String)
    (known : FieldTypes) :
    knownTypes stored (types.insert measurement known) other =
      if measurement = other then known else knownTypes stored types other := by
  unfold knownTypes
  rw [ExtTreeMap.getElem?_insert]
  by_cases same : measurement = other <;> simp [same]

/-- The split of a batch, in terms of what is known of each measurement. -/
def splitKnown (known : String → FieldTypes) : List Point → List Point × List HyperbytedbError
  | [] => ([], [])
  | point :: rest =>
    match findConflict (known point.measurement) point with
    | some cause => ((splitKnown known rest).1, cause :: (splitKnown known rest).2)
    | none =>
      (point :: (splitKnown (widenKnown known point) rest).1,
        (splitKnown (widenKnown known point) rest).2)

theorem splitPoints_eq (stored : String → FieldTypes) (types : ExtTreeMap String FieldTypes)
    (points : List Point) :
    splitPoints stored types points = splitKnown (knownTypes stored types) points := by
  induction points generalizing types with
  | nil => rfl
  | cons point rest ih =>
    rw [splitPoints, splitKnown, ih, ih]
    change (match findConflict (knownTypes stored types point.measurement) point with
      | some cause => _
      | none => _) = _
    split
    next =>
      have same : knownTypes stored (types.insert point.measurement
          (knownTypes stored types point.measurement)) = knownTypes stored types := by
        funext measurement
        rw [knownTypes_insert]
        split
        next here => rw [here]
        next => rfl
      exact same ▸ rfl
    next =>
      have widens : knownTypes stored (types.insert point.measurement
          (widenFields (knownTypes stored types point.measurement) point)) =
          widenKnown (knownTypes stored types) point := by
        funext measurement
        rw [knownTypes_insert, widenKnown]
        split
        next here => rw [here]
        next => rfl
      exact widens ▸ rfl

theorem splitKnown_sublist (known : String → FieldTypes) (points : List Point) :
    (splitKnown known points).1.Sublist points := by
  fun_induction splitKnown known points with
  | case1 => exact .refl []
  | case2 _ point rest cause _ ih => exact ih.cons point
  | case3 _ point rest _ ih => exact ih.cons_cons point

/-- What was brought in between changes neither whether a field of the point conflicts
nor what the conflict says. -/
theorem findConflict_congr {known known' : FieldTypes} (widened : ∀ field : String,
      Widened (brought point.measurement field) known[field]? known'[field]?)
    (covers : CoversTypes known (stored point.measurement))
    (apart : ∀ (field : String) type other, point.fieldType? field = some type →
      brought point.measurement field other →
      fieldTypesCompatible other type = true ∨ (stored point.measurement)[field]? = some other) :
    findConflict known' point = findConflict known point := by
  apply KeyedUpdates.findSome?_congr
  intro entry member
  have typed : point.fieldType? entry.1 = some entry.2.fieldType := by
    rw [Point.fieldType?, ExtTreeMap.mem_toList_iff_getElem?_eq_some.mp member]
    rfl
  rcases widened entry.1 with same | ⟨other, isBrought, after, absorbs⟩
  · rw [same]
  · rw [after]
    rcases apart entry.1 entry.2.fieldType other typed isBrought with fits | isStored
    · cases before : known[entry.1]? with
      | none => simp [fits]
      | some narrow => simp [fits, compatible_of_absorbs (absorbs narrow before) fits]
    · -- The stored type is brought again, so nothing is ahead of it.
      obtain ⟨wide, before, ahead⟩ := covers entry.1 other isStored
      rw [before, (absorbs wide before).antisymm ahead]

/-- A split says the same against types that others have widened in between, as long as
what they brought is compatible with the points or was stored before. -/
theorem splitKnown_congr {points : List Point}
    (widened : ∀ (measurement field : String), Widened (brought measurement field)
      (known measurement)[field]? (known' measurement)[field]?)
    (covers : ∀ measurement, CoversTypes (known measurement) (stored measurement))
    (apart : ∀ point ∈ points, ∀ (field : String) type other,
      point.fieldType? field = some type → brought point.measurement field other →
      fieldTypesCompatible other type = true ∨ (stored point.measurement)[field]? = some other) :
    splitKnown known' points = splitKnown known points := by
  induction points generalizing known known' with
  | nil => rfl
  | cons point rest ih =>
    obtain ⟨apartHere, apartRest⟩ := forall_mem_cons.mp apart
    have same := findConflict_congr (widened point.measurement) (covers point.measurement) apartHere
    rw [splitKnown, splitKnown, same]
    cases conflict : findConflict (known point.measurement) point with
    | some cause =>
      rw [ih widened covers apartRest]
    | none =>
      dsimp only
      rw [conflict] at same
      rw [ih ?_ (fun measurement => (widened_widenKnown conflict measurement).trans
        (covers measurement)) apartRest]
      intro measurement field
      unfold widenKnown
      split
      next here =>
        subst here
        rw [getElem?_widenFields, getElem?_widenFields]
        cases typed : point.fieldType? field with
        | none => exact widened point.measurement field
        | some type =>
          exact (widened point.measurement field).widenWith
            (fun known lookup =>
              (findConflict_eq_none_iff _ _).mp conflict field known type lookup typed)
            fun known lookup =>
              (findConflict_eq_none_iff _ _).mp same field known type lookup typed
      next => exact widened measurement field

theorem splitKnown_kept {seen : List Point} (points : List Point)
    (covers : ∀ measurement, CoversTypes (known measurement) (stored measurement))
    (coversSeen : CoversPoints known seen) : (∀ point ∈ (splitKnown known points).1,
        FitsStored (stored point.measurement) point ∧ ∀ other ∈ seen, TypesAgree other point) ∧
      (splitKnown known points).1.Pairwise TypesAgree := by
  fun_induction splitKnown known points generalizing seen with
  | case1 => exact ⟨by simp, .nil⟩
  | case2 known point rest cause conflict ih => exact ih covers coversSeen
  | case3 known point rest conflict ih =>
    obtain ⟨each, pairs⟩ := ih (fun measurement =>
      (widened_widenKnown conflict measurement).trans (covers measurement))
      (coversSeen.widenKnown conflict)
    refine ⟨forall_mem_cons.mpr ⟨?_, fun other later => ?_⟩, pairwise_cons.mpr
      ⟨fun other member => (each other member).2 point (by simp), pairs⟩⟩
    · exact ⟨.of_covers (covers point.measurement) ((findConflict_eq_none_iff _ _).mp conflict),
        coversSeen.typesAgree conflict⟩
    · exact ⟨(each other later).1, fun before inSeen =>
        (each other later).2 before (mem_append_left _ inSeen)⟩

end Splits

end

/-! ## The schemas of a batch -/

/-- What the schemas hold comes from points. -/
structure SchemasFrom (points : List Point) (schemas : ExtTreeMap String BatchSchema) : Prop where
  measurement : ∀ name schema, schemas[name]? = some schema →
    ∃ point ∈ points, point.measurement = name
  fieldType : ∀ name schema, schemas[name]? = some schema → ∀ (field : String) type,
    schema.fieldTypes[field]? = some type →
    ∃ point ∈ points, point.measurement = name ∧ point.fieldType? field = some type
  tagKey : ∀ name schema, schemas[name]? = some schema → ∀ tagKey ∈ schema.tagKeys,
    ∃ point ∈ points, point.measurement = name ∧ tagKey ∈ point.tags

variable {schemas made : ExtTreeMap String BatchSchema} {point : Point}
  {seen points : List Point}

theorem schemasFrom_empty : SchemasFrom [] ∅ where
  measurement := by simp
  fieldType := by simp
  tagKey := by simp

namespace SchemasFrom

variable (kept : SchemasFrom seen schemas) {name : String}
include kept

theorem soFar_fieldType {field : String} {type : FieldType}
    (typed : (schemaSoFar schemas name).fieldTypes[field]? = some type) :
    ∃ point ∈ seen, point.measurement = name ∧ point.fieldType? field = some type := by
  unfold schemaSoFar at typed
  cases stored : schemas[name]? with
  | none => simp [stored] at typed
  | some schema =>
    rw [stored] at typed
    exact kept.fieldType name schema stored field type typed

theorem soFar_tagKey {tagKey : String} (member : tagKey ∈ (schemaSoFar schemas name).tagKeys) :
    ∃ point ∈ seen, point.measurement = name ∧ tagKey ∈ point.tags := by
  unfold schemaSoFar at member
  cases stored : schemas[name]? with
  | none => simp [stored] at member
  | some schema =>
    rw [stored] at member
    exact kept.tagKey name schema stored tagKey member

end SchemasFrom

/-! ## One more point -/

def FitsSchemas (schemas : ExtTreeMap String BatchSchema) (point : Point) : Prop :=
  findConflict (schemaSoFar schemas point.measurement).fieldTypes point = none

def insertSchema (schemas : ExtTreeMap String BatchSchema) (point : Point) :
    ExtTreeMap String BatchSchema :=
  schemas.insert point.measurement
    ⟨widenFields (schemaSoFar schemas point.measurement).fieldTypes point,
      (schemaSoFar schemas point.measurement).tagKeys.insertMany point.tags.keys⟩

theorem schemaSoFar_insertSchema (name : String) :
    schemaSoFar (insertSchema schemas point) name =
      if point.measurement = name then
        ⟨widenFields (schemaSoFar schemas name).fieldTypes point,
          (schemaSoFar schemas name).tagKeys.insertMany point.tags.keys⟩
      else schemaSoFar schemas name := by
  rw [schemaSoFar, insertSchema, ExtTreeMap.getElem?_insert]
  by_cases same : point.measurement = name
  · subst same
    simp
  · simp [same, schemaSoFar]

variable (measurement : String) {types added : FieldTypes}

theorem addFields_list_eq_ok_iff {fields : List (String × FieldValue)}
    (distinct : (fields.map Prod.fst).Nodup) :
    addFields measurement types fields = .ok added ↔
      (∀ entry ∈ fields, ∀ known, types[entry.1]? = some known →
        fieldTypesCompatible known entry.2.fieldType = true) ∧
      fields.foldl (fun types field => types.insert field.1
        ((types[field.1]?.bind (widenFieldDisc · field.2.fieldType)).getD field.2.fieldType))
        types = added := by
  induction fields generalizing types with
  | nil => simp [addFields]
  | cons entry fields ih =>
    rw [map_cons, nodup_cons] at distinct
    -- Later fields have other names, so what is known of them stays.
    have others : ∀ widened : FieldType,
        (∀ other ∈ fields, ∀ known, (types.insert entry.1 widened)[other.1]? = some known →
          fieldTypesCompatible known other.2.fieldType = true) ↔
        ∀ other ∈ fields, ∀ known, types[other.1]? = some known →
          fieldTypesCompatible known other.2.fieldType = true := by
      refine fun widened => forall₂_congr fun other member => ?_
      have apart : entry.1 ≠ other.1 := fun same =>
        distinct.1 (same ▸ mem_map_of_mem member)
      rw [ExtTreeMap.getElem?_insert, if_neg (by simpa using apart)]
    rw [addFields, forall_mem_cons, foldl_cons]
    cases lookup : types[entry.1]? with
    | none =>
      rw [ih distinct.2, others]
      simp
    | some existing =>
      dsimp only [Option.bind_some]
      cases widens : widenFieldDisc existing entry.2.fieldType with
      | none => simp [fieldTypesCompatible, widens]
      | some widened =>
        rw [ih distinct.2, others]
        simp [fieldTypesCompatible, widens]

theorem addFields_eq_ok_iff : addFields measurement types point.fields.toList = .ok added ↔
      findConflict types point = none ∧ widenFields types point = added := by
  have distinct : (point.fields.toList.map Prod.fst).Nodup := by
    rw [ExtTreeMap.map_fst_toList_eq_keys]
    exact ExtTreeMap.nodup_keys
  rw [addFields_list_eq_ok_iff measurement distinct, findConflict, findSome?_eq_none_iff]
  refine and_congr_left' (forall₂_congr fun entry member => ?_)
  cases types[entry.1]? <;> simp

theorem batchSchemas_cons_eq_ok_iff :
    batchSchemas schemas (point :: points) = .ok made ↔
      FitsSchemas schemas point ∧ batchSchemas (insertSchema schemas point) points = .ok made := by
  rw [batchSchemas]
  cases added : addFields point.measurement (schemaSoFar schemas point.measurement).fieldTypes
      point.fields.toList with
  | error cause =>
    refine iff_of_false nofun fun fits => ?_
    rw [(addFields_eq_ok_iff _).mpr ⟨fits.1, rfl⟩] at added
    cases added
  | ok fieldTypes =>
    obtain ⟨fits, rfl⟩ := (addFields_eq_ok_iff _).mp added
    exact (and_iff_right fits).symm

/-- What every fitting point keeps holds of the schemas of a batch. -/
theorem batchSchemas_preserves (Kept : List Point → ExtTreeMap String BatchSchema → Prop)
    (step : ∀ {seen schemas point}, FitsSchemas schemas point → Kept seen schemas →
      Kept (seen ++ [point]) (insertSchema schemas point))
    (initial : Kept [] ∅) (built : batchSchemas ∅ points = .ok made) : Kept points made := by
  have general : ∀ points seen schemas, Kept seen schemas →
      batchSchemas schemas points = .ok made → Kept (seen ++ points) made := by
    intro points
    induction points with
    | nil =>
      intro seen schemas kept built
      cases built
      simpa using kept
    | cons point points ih =>
      intro seen schemas kept built
      obtain ⟨fits, built⟩ := batchSchemas_cons_eq_ok_iff.mp built
      have whole := ih _ _ (step fits kept) built
      rwa [append_assoc] at whole
  exact general points [] ∅ initial built

/-! ## What the schemas of a batch hold -/

theorem SchemasFrom.insertSchema (fits : FitsSchemas schemas point)
    (made : SchemasFrom seen schemas) :
    SchemasFrom (seen ++ [point]) (insertSchema schemas point) := by
  have here : point ∈ seen ++ [point] := by simp
  have earlier : ∀ {property : Point → Prop}, (∃ other ∈ seen, property other) →
      ∃ other ∈ seen ++ [point], property other := by
    rintro property ⟨other, member, holds⟩
    exact ⟨other, mem_append_left _ member, holds⟩
  have soFar : ∀ {name schema}, (HyperbyteDb.insertSchema schemas point)[name]? = some schema →
      schema = schemaSoFar (HyperbyteDb.insertSchema schemas point) name := by
    intro name schema lookup
    rw [schemaSoFar, lookup]
    rfl
  constructor
  · intro name schema lookup
    rw [HyperbyteDb.insertSchema, ExtTreeMap.getElem?_insert] at lookup
    split at lookup
    next same => exact ⟨point, here, Std.compare_eq_iff_eq.mp same⟩
    next => exact earlier (made.measurement name schema lookup)
  · intro name schema lookup field type typed
    rw [soFar lookup, schemaSoFar_insertSchema] at typed
    split at typed
    next same =>
      subst same
      rcases widened_widenFields fits field with before | ⟨other, brought, after, -⟩
      · exact earlier (made.soFar_fieldType (before.symm.trans typed))
      · cases after.symm.trans typed
        exact ⟨point, here, rfl, brought⟩
    next => exact earlier (made.soFar_fieldType typed)
  · intro name schema lookup tagKey member
    rw [soFar lookup, schemaSoFar_insertSchema] at member
    split at member
    next same =>
      rw [ExtTreeSet.mem_insertMany_list] at member
      rcases member with before | tagged
      · exact earlier (made.soFar_tagKey before)
      · exact ⟨point, here, same, ExtTreeMap.mem_keys.mp (by simpa using tagged)⟩
    next => exact earlier (made.soFar_tagKey member)

theorem schemasFrom_of_batchSchemas (built : batchSchemas ∅ points = .ok made) :
    SchemasFrom points made :=
  batchSchemas_preserves SchemasFrom .insertSchema schemasFrom_empty built

theorem exists_batchSchemas (fromSeen : SchemasFrom seen schemas)
    (agree : ∀ first ∈ seen ++ points, ∀ second ∈ seen ++ points, TypesAgree first second) :
    ∃ made, batchSchemas schemas points = .ok made := by
  induction points generalizing seen schemas with
  | nil => exact ⟨schemas, rfl⟩
  | cons point points ih =>
    have fits : FitsSchemas schemas point := by
      rw [FitsSchemas, findConflict_eq_none_iff]
      intro field known type lookup typed
      obtain ⟨other, member, same, typedOther⟩ := fromSeen.soFar_fieldType lookup
      exact agree other (mem_append_left _ member) point (by simp) same field known
        type typedOther typed
    obtain ⟨made, built⟩ := ih (fromSeen.insertSchema fits) (by simpa using agree)
    exact ⟨made, batchSchemas_cons_eq_ok_iff.mpr ⟨fits, built⟩⟩

def soFarTypes (schemas : ExtTreeMap String BatchSchema) (name : String) : FieldTypes :=
  (schemaSoFar schemas name).fieldTypes

theorem CoversPoints.insertSchema (fits : FitsSchemas schemas point)
    (covers : CoversPoints (soFarTypes schemas) seen) :
    CoversPoints (soFarTypes (insertSchema schemas point)) (seen ++ [point]) := by
  have widens : soFarTypes (HyperbyteDb.insertSchema schemas point) =
      HyperbyteDb.widenKnown (soFarTypes schemas) point := by
    funext name
    rw [soFarTypes, schemaSoFar_insertSchema, HyperbyteDb.widenKnown]
    split <;> rfl
  exact widens ▸ covers.widenKnown fits

theorem coversPoints_of_batchSchemas (built : batchSchemas ∅ points = .ok made) :
    CoversPoints (soFarTypes made) points :=
  batchSchemas_preserves (fun seen schemas => CoversPoints (soFarTypes schemas) seen) .insertSchema
    (fun _ member => absurd member not_mem_nil) built

def CoversTagKeys (schemas : ExtTreeMap String BatchSchema) (seen : List Point) : Prop :=
  ∀ point ∈ seen, ∃ schema, schemas[point.measurement]? = some schema ∧
    ∀ tagKey ∈ point.tags, tagKey ∈ schema.tagKeys

theorem CoversTagKeys.insertSchema (covers : CoversTagKeys schemas seen) (point : Point) :
    CoversTagKeys (insertSchema schemas point) (seen ++ [point]) := by
  intro other member
  rw [HyperbyteDb.insertSchema, ExtTreeMap.getElem?_insert]
  rcases mem_append.mp member with before | here
  · obtain ⟨schema, lookup, tagged⟩ := covers other before
    split
    next same =>
      have same : point.measurement = other.measurement := Std.compare_eq_iff_eq.mp same
      refine ⟨_, rfl, fun tagKey inside => ?_⟩
      rw [ExtTreeSet.mem_insertMany_list, schemaSoFar, same, lookup]
      exact Or.inl (tagged tagKey inside)
    next => exact ⟨schema, lookup, tagged⟩
  · obtain rfl := mem_singleton.mp here
    refine ⟨_, if_pos Std.ReflCmp.compare_self, fun tagKey tagged => ?_⟩
    rw [ExtTreeSet.mem_insertMany_list]
    exact Or.inr (by simpa using ExtTreeMap.mem_keys.mpr tagged)

theorem coversTagKeys_of_batchSchemas (built : batchSchemas ∅ points = .ok made) :
    CoversTagKeys made points :=
  batchSchemas_preserves (fun seen schemas => CoversTagKeys schemas seen)
    (fun _ covers => covers.insertSchema _) (fun _ member => absurd member not_mem_nil) built

/-- The points of a batch with schemas agree on their types. -/
theorem agree_of_batchSchemas (built : batchSchemas ∅ points = .ok made) :
    points.Pairwise TypesAgree := by
  refine (batchSchemas_preserves (fun seen schemas => CoversPoints (soFarTypes schemas) seen ∧
    seen.Pairwise TypesAgree) ?_ ⟨by simp [CoversPoints], .nil⟩ built).2
  rintro seen schemas point fits ⟨covers, agree⟩
  refine ⟨covers.insertSchema fits, pairwise_append.mpr
    ⟨agree, pairwise_singleton _ _, fun before inSeen _ here => ?_⟩⟩
  obtain rfl := mem_singleton.mp here
  exact covers.typesAgree fits before inSeen

/-! ## No order of the points -/

/-- The schemas hold what the points bring, each field with the widest of its types. -/
structure Describes (schemas : ExtTreeMap String BatchSchema) (points : List Point) : Prop where
  made : SchemasFrom points schemas
  types : CoversPoints (soFarTypes schemas) points
  tagKeys : CoversTagKeys schemas points

namespace Describes

variable {name : String} {schema other : BatchSchema} (first : Describes schemas points)
  (second : Describes made points)
include first second

theorem exists_schema (stored : schemas[name]? = some schema) :
    ∃ other, made[name]? = some other := by
  obtain ⟨point, member, rfl⟩ := first.made.measurement name schema stored
  obtain ⟨other, found, -⟩ := second.tagKeys point member
  exact ⟨other, found⟩

theorem exists_absorbs (stored : schemas[name]? = some schema) (found : made[name]? = some other)
    {field : String} {type : FieldType} (typed : schema.fieldTypes[field]? = some type) :
    ∃ wide, other.fieldTypes[field]? = some wide ∧ Absorbs wide type := by
  obtain ⟨point, member, rfl, brought⟩ := first.made.fieldType name schema stored field type typed
  have covered := second.types point member field type brought
  rwa [soFarTypes, schemaSoFar, found] at covered

theorem tagKeys_subset (stored : schemas[name]? = some schema) (found : made[name]? = some other)
    {tagKey : String} (inside : tagKey ∈ schema.tagKeys) : tagKey ∈ other.tagKeys := by
  obtain ⟨point, member, rfl, tagged⟩ := first.made.tagKey name schema stored tagKey inside
  obtain ⟨again, same, covers⟩ := second.tagKeys point member
  cases found.symm.trans same
  exact covers tagKey tagged

theorem fieldTypes_le (stored : schemas[name]? = some schema) (found : made[name]? = some other)
    (field : String) (type : FieldType) (typed : schema.fieldTypes[field]? = some type) :
    other.fieldTypes[field]? = some type := by
  obtain ⟨wide, lookup, absorbs⟩ := first.exists_absorbs second stored found typed
  obtain ⟨wider, again, absorbed⟩ := second.exists_absorbs first found stored lookup
  cases typed.symm.trans again
  rw [lookup, absorbs.antisymm absorbed]

theorem getElem?_eq_some (stored : schemas[name]? = some schema) : made[name]? = some schema := by
  obtain ⟨other, found⟩ := first.exists_schema second stored
  have types : other.fieldTypes = schema.fieldTypes := by
    apply ExtTreeMap.ext_getElem?
    intro field
    apply Option.ext
    intro type
    exact ⟨second.fieldTypes_le first found stored field type,
      first.fieldTypes_le second stored found field type⟩
  have tagKeys : other.tagKeys = schema.tagKeys := by
    apply ExtTreeSet.ext_mem
    intro tagKey
    exact ⟨second.tagKeys_subset first found stored, first.tagKeys_subset second stored found⟩
  cases other
  cases types
  cases tagKeys
  exact found

end Describes

/-- A batch has schemas exactly if its points agree, and they are what the points bring. -/
theorem batchSchemas_eq_ok_iff : batchSchemas ∅ points = .ok made ↔
    (∀ first ∈ points, ∀ second ∈ points, TypesAgree first second) ∧ Describes made points := by
  have described : ∀ {schemas}, batchSchemas ∅ points = .ok schemas → Describes schemas points :=
    fun built => ⟨schemasFrom_of_batchSchemas built, coversPoints_of_batchSchemas built,
      coversTagKeys_of_batchSchemas built⟩
  constructor
  · intro built
    refine ⟨fun first inside second insideToo => ?_, described built⟩
    exact (agree_of_batchSchemas built).forall_of_forall (fun point _ _ => fieldsAgree_self point)
      inside insideToo
  · rintro ⟨agree, describes⟩
    obtain ⟨schemas, built⟩ := exists_batchSchemas schemasFrom_empty agree
    have same : schemas = made := by
      apply ExtTreeMap.ext_getElem?
      intro name
      apply Option.ext
      intro schema
      exact ⟨(described built).getElem?_eq_some describes,
        describes.getElem?_eq_some (described built)⟩
    rw [built, same]

end HyperbyteDb
