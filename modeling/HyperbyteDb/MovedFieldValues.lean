import HyperbyteDb.LineProtocolText
import HyperbyteDb.MetadataGrowth

/-!
# Field values of a moved row

A row that moves to another node is read from its store as JSON, turned into a point by the
types of its fields, written as a line and read again.  A value must come out of this as it
was stored, in its own type.  It does unless the field is boolean: the store has no boolean
column, so that the decoder sees a number and takes it for a float.
-/

namespace HyperbyteDb

open List Std

/-! ## Columns -/

/-- A cell of a field column, in the type of the column. -/
inductive FieldCell where
  | null
  | float64 (bits : UInt64)
  | int64 (value : Int64)
  | uint64 (value : UInt64)
  | utf8 (value : String)
  | uint8 (value : UInt8)
deriving DecidableEq

/-- Casts between integers and floats, which are held by their bits. -/
structure FloatCasts where
  ofInt64 : Int64 → UInt64
  ofUInt64 : UInt64 → UInt64
  toInt64 : UInt64 → Int64

def maxInt64 : UInt64 := 0x7FFFFFFFFFFFFFFF

def buildFieldCell (casts : FloatCasts) : FieldType → Option FieldValue → FieldCell
  | .integer, some (.integer value) => .int64 value
  | .integer, some (.uinteger value) => if value ≤ maxInt64 then .int64 value.toInt64 else .null
  | .integer, some (.float bits) => .int64 (casts.toInt64 bits)
  | .unsigned, some (.uinteger value) => .uint64 value
  | .unsigned, some (.integer value) => if 0 ≤ value then .uint64 value.toUInt64 else .null
  | .string, some (.string value) => .utf8 value
  | .boolean, some (.boolean value) => .uint8 (if value then 1 else 0)
  | .float, some (.float bits) => .float64 bits
  | .float, some (.integer value) => .float64 (casts.ofInt64 value)
  | _, _ => .null

def FieldCell.value : FieldType → FieldCell → Option FieldValue
  | .float, .float64 bits => some (.float bits)
  | .integer, .int64 value => some (.integer value)
  | .unsigned, .uint64 value => some (.uinteger value)
  | .string, .utf8 value => some (.string value)
  | .boolean, .uint8 value => some (.boolean (value != 0))
  | _, _ => none

/-- A value in a column of its own type is kept. -/
theorem FieldCell.value_buildFieldCell (casts : FloatCasts) (value : FieldValue) :
    (buildFieldCell casts value.fieldType (some value)).value value.fieldType = some value := by
  cases value with
  | boolean value => cases value <;> rfl
  | _ => rfl

/-- Anything but a letter, a digit or an underscore becomes an underscore. -/
def sanitiseIdent (input : String) : String :=
  if input = "" then "_"
  else
    let out := input.toList.map fun ch => if ch.isAlphanum || ch == '_' then ch else '_'
    String.ofList (if out.head?.any Char.isDigit then '_' :: out else out)

def fieldColumnName (field : String) : String := sanitiseIdent field

abbrev FieldColumns := ExtTreeMap String FieldCell

def FieldColumns.cell (columns : FieldColumns) (field : String) : FieldCell :=
  (columns[fieldColumnName field]?).getD .null

def FieldColumns.storedValue (types : FieldTypes) (columns : FieldColumns) (field : String) :
    Option FieldValue :=
  types[field]?.bind fun type => (columns.cell field).value type

/-! ## JSON -/

def isFiniteFloat (bits : UInt64) : Bool := (bits >>> 52) &&& 0x7FF != 0x7FF

inductive JsonNumber where
  | posInt (value : UInt64)
  | negInt (value : Int64)
  | float (bits : UInt64) (finite : isFiniteFloat bits = true)

namespace JsonNumber

def asI64 : JsonNumber → Option Int64
  | posInt value => if value ≤ maxInt64 then some value.toInt64 else none
  | negInt value => some value
  | float .. => none

def asU64 : JsonNumber → Option UInt64
  | posInt value => some value
  | negInt _ | float .. => none

def asF64 (casts : FloatCasts) : JsonNumber → UInt64
  | posInt value => casts.ofUInt64 value
  | negInt value => casts.ofInt64 value
  | float bits _ => bits

/-- Signed integers are written with their sign. -/
def ofInt64 (value : Int64) : JsonNumber :=
  if 0 ≤ value then .posInt value.toUInt64 else .negInt value

theorem asI64_ofInt64 (value : Int64) : (ofInt64 value).asI64 = some value := by
  unfold ofInt64
  split
  next positive =>
    have small : value.toUInt64 ≤ maxInt64 := by
      have sign : 0 ≤ value.toBitVec.toInt := Int64.le_iff_toInt_le.mp positive
      have bits : value.toUInt64.toNat = value.toBitVec.toNat := rfl
      have greatest : maxInt64.toNat = 2 ^ 63 - 1 := rfl
      rw [BitVec.toInt_eq_toNat_cond] at sign
      rw [UInt64.le_iff_toNat_le]
      split at sign <;> omega
    rw [asI64, if_pos small, Int64.toInt64_toUInt64]
  next => rfl

end JsonNumber

inductive JsonValue where
  | null
  | bool (value : Bool)
  | number (value : JsonNumber)
  | string (value : String)

def jsonFieldToValue (casts : FloatCasts) (value : JsonValue) (disc : Option FieldType) :
    Option FieldValue :=
  match value with
  | .number number =>
    if disc = some .integer then number.asI64.map .integer
    else if disc = some .unsigned then number.asU64.map .uinteger
    else some (.float (number.asF64 casts))
  | .string text => some (.string text)
  | .bool value => some (.boolean value)
  | .null => none

def FieldType.decoded : FieldType → FieldType
  | .boolean => .float
  | type => type

/-! ## From the store to the line and back -/

/-- How the store renders floats, and how values of fields are written in a line and read
from it.  Integers, strings and booleans are read as they were written, and numbers
without a suffix are read as floats. -/
structure ValueWire where
  casts : FloatCasts
  renderFloat : UInt64 → Option JsonNumber
  numberToLpFloat : UInt64 → String
  readValue : String → Option FieldValue
  read_written : ∀ value, value.fieldType ≠ .float →
    readValue (fieldValueToLp numberToLpFloat value) = some value
  read_float : ∀ number : JsonNumber,
    ∃ bits, readValue (numberToLpFloat (number.asF64 casts)) = some (.float bits)

variable (wire : ValueWire) {types : FieldTypes}

namespace ValueWire

variable {type : FieldType} {cell : FieldCell} {value : FieldValue}

def renderCell : FieldCell → JsonValue
  | .null => .null
  | .float64 bits => (wire.renderFloat bits).elim .null .number
  | .int64 value => .number (.ofInt64 value)
  | .uint64 value => .number (.posInt value)
  | .utf8 value => .string value
  | .uint8 value => .number (.posInt value.toUInt64)

/-- The fields of the point that is rebuilt from a row. -/
def exportFields (types : FieldTypes) (columns : FieldColumns) : ExtTreeMap String FieldValue :=
  types.filterMap fun field type =>
    jsonFieldToValue wire.casts (wire.renderCell (columns.cell field)) (some type)

def carry (value : FieldValue) : Option FieldValue :=
  wire.readValue (fieldValueToLp wire.numberToLpFloat value)

/-- The fields as the receiver reads them; a line with an unreadable value is no line. -/
def carryFields (fields : ExtTreeMap String FieldValue) : Option (ExtTreeMap String FieldValue) :=
  if fields.toList.all fun entry => (wire.carry entry.2).isSome then
    some (fields.filterMap fun _ value => wire.carry value)
  else none

variable {wire} {columns : FieldColumns}

theorem getElem?_exportFields (field : String) :
    (wire.exportFields types columns)[field]? = types[field]?.bind fun type =>
      jsonFieldToValue wire.casts (wire.renderCell (columns.cell field)) (some type) :=
  ExtTreeMap.getElem?_filterMap'

/-- What the decoder makes of a JSON value is read again in its own type, and as it was
unless it is a float. -/
theorem carry_of_jsonFieldToValue {json : JsonValue} {disc : Option FieldType}
    (decoded : jsonFieldToValue wire.casts json disc = some value) :
    ∃ arrived, wire.carry value = some arrived ∧ arrived.fieldType = value.fieldType ∧
      (value.fieldType ≠ .float → arrived = value) := by
  by_cases isFloat : value.fieldType = .float
  · obtain ⟨number, rfl⟩ : ∃ number : JsonNumber, value = .float (number.asF64 wire.casts) := by
      cases json with
      | null => cases decoded
      | bool | string =>
        cases decoded
        cases isFloat
      | number number =>
        refine ⟨number, ?_⟩
        unfold jsonFieldToValue at decoded
        dsimp only at decoded
        split at decoded
        · obtain ⟨value, -, rfl⟩ := Option.map_eq_some_iff.mp decoded
          cases isFloat
        · split at decoded
          · obtain ⟨value, -, rfl⟩ := Option.map_eq_some_iff.mp decoded
            cases isFloat
          · exact (Option.some.inj decoded).symm
    obtain ⟨bits, read⟩ := wire.read_float number
    exact ⟨.float bits, read, rfl, fun other => absurd rfl other⟩
  · exact ⟨value, wire.read_written value isFloat, rfl, fun _ => rfl⟩

/-- Every exported line is read. -/
theorem exists_carryFields (types : FieldTypes) (columns : FieldColumns) :
    ∃ arrived, wire.carryFields (wire.exportFields types columns) = some arrived ∧
      ∀ field : String, arrived[field]? =
        (wire.exportFields types columns)[field]?.bind wire.carry := by
  refine ⟨_, if_pos ?_, fun field => ExtTreeMap.getElem?_filterMap'⟩
  rw [all_eq_true]
  rintro ⟨field, value⟩ member
  have stored := ExtTreeMap.mem_toList_iff_getElem?_eq_some.mp member
  rw [getElem?_exportFields] at stored
  obtain ⟨type, -, decoded⟩ := Option.bind_eq_some_iff.mp stored
  obtain ⟨arrived, read, -⟩ := carry_of_jsonFieldToValue decoded
  rw [read]
  rfl

variable (wire) in
theorem jsonFieldToValue_renderCell (stored : cell.value type = some value)
    (notBoolean : type ≠ .boolean) (notFloat : type ≠ .float) :
    jsonFieldToValue wire.casts (wire.renderCell cell) (some type) = some value := by
  cases type with
  | float => exact absurd rfl notFloat
  | boolean => exact absurd rfl notBoolean
  | integer =>
    cases cell <;> cases stored
    simp [jsonFieldToValue, renderCell, JsonNumber.asI64_ofInt64]
  | unsigned =>
    cases cell <;> cases stored
    rfl
  | string =>
    cases cell <;> cases stored
    rfl

theorem fieldType_of_value (stored : cell.value type = some value) : value.fieldType = type := by
  cases type <;> cases cell <;> cases stored <;> rfl

theorem fieldType_decoded (typed : cell = .null ∨ (cell.value type).isSome)
    (decoded : jsonFieldToValue wire.casts (wire.renderCell cell) (some type) = some value) :
    value.fieldType = type.decoded := by
  rcases typed with rfl | typed
  · cases decoded
  obtain ⟨stored, isStored⟩ := Option.isSome_iff_exists.mp typed
  cases type with
  | float =>
    obtain ⟨bits, rfl⟩ : ∃ bits, cell = .float64 bits := by
      cases cell <;> cases isStored
      exact ⟨_, rfl⟩
    rw [renderCell] at decoded
    cases rendered : wire.renderFloat bits <;> rw [rendered] at decoded <;> cases decoded
    rfl
  | boolean =>
    cases cell <;> cases isStored
    cases decoded
    rfl
  | integer | unsigned | string =>
    have same := jsonFieldToValue_renderCell wire isStored (by simp) (by simp)
    cases decoded.symm.trans same
    exact fieldType_of_value isStored

end ValueWire

/-- A stored row of a measurement whose fields have these types: every cell is null or in the
column of its field's type. -/
structure TypedRow (types : FieldTypes) where
  columns : FieldColumns
  tags : ExtTreeMap String String
  time : Int64
  typed : ∀ field type, types[field]? = some type →
    columns.cell field = .null ∨ ((columns.cell field).value type).isSome

namespace TypedRow

variable (measurement : String) (row : TypedRow types)

/-- The point that the receiver reads; a row without fields is not sent. -/
def arrivedPoint : Option Point :=
  let fields := wire.exportFields types row.columns
  if fields.isEmpty then none
  else (wire.carryFields fields).map fun fields => ⟨measurement, row.tags, fields, row.time⟩

def Preserved : Prop :=
  ∀ field value, row.columns.storedValue types field = some value → value.fieldType ≠ .float →
    ∃ point, row.arrivedPoint wire measurement = some point ∧ point.fields[field]? = some value

def NoBoolean : Prop :=
  ∀ field, types[field]? = some .boolean → row.columns.cell field = .null

variable {wire measurement row} {point : Point}

theorem arrivedPoint_cases (arrived : row.arrivedPoint wire measurement = some point) :
    point.measurement = measurement ∧ ∀ field : String, point.fields[field]? =
      (wire.exportFields types row.columns)[field]?.bind wire.carry := by
  obtain ⟨fields, carried, each⟩ := wire.exists_carryFields types row.columns
  unfold arrivedPoint at arrived
  dsimp only at arrived
  split at arrived
  · cases arrived
  · rw [carried] at arrived
    cases arrived
    exact ⟨rfl, each⟩

variable {field : String}

variable (measurement) in
theorem exists_arrivedPoint {value : FieldValue}
    (exported : (wire.exportFields types row.columns)[field]? = some value) :
    ∃ point, row.arrivedPoint wire measurement = some point := by
  obtain ⟨fields, carried, -⟩ := wire.exists_carryFields types row.columns
  have some : (wire.exportFields types row.columns).isEmpty = false := by
    rw [Bool.eq_false_iff]
    intro empty
    rw [ExtTreeMap.isEmpty_iff.mp empty] at exported
    simp at exported
  refine ⟨⟨measurement, row.tags, fields, row.time⟩, ?_⟩
  rw [arrivedPoint, some, carried]
  rfl

theorem type_of_arrived (arrived : row.arrivedPoint wire measurement = some point)
    {arrivedType : FieldType} (isType : point.fieldType? field = some arrivedType) :
    ∃ type, types[field]? = some type ∧ row.columns.cell field ≠ .null ∧
      arrivedType = type.decoded := by
  obtain ⟨value, isValue, rfl⟩ := Option.map_eq_some_iff.mp isType
  rw [(arrivedPoint_cases arrived).2] at isValue
  obtain ⟨sent, exported, read⟩ := Option.bind_eq_some_iff.mp isValue
  rw [ValueWire.getElem?_exportFields] at exported
  obtain ⟨type, known, decoded⟩ := Option.bind_eq_some_iff.mp exported
  obtain ⟨again, readAgain, sameType, -⟩ := ValueWire.carry_of_jsonFieldToValue decoded
  cases read.symm.trans readAgain
  refine ⟨type, known, ?_, ?_⟩
  · intro isNull
    rw [isNull] at decoded
    cases decoded
  · rw [sameType]
    exact ValueWire.fieldType_decoded (row.typed field type known) decoded

theorem preserved_iff : row.Preserved wire measurement ↔ row.NoBoolean := by
  constructor
  · intro preserved field isBoolean
    rcases row.typed field .boolean isBoolean with isNull | typed
    · exact isNull
    · obtain ⟨value, isValue⟩ := Option.isSome_iff_exists.mp typed
      have sameType := ValueWire.fieldType_of_value isValue
      have stored : row.columns.storedValue types field = some value := by
        rw [FieldColumns.storedValue, isBoolean]
        exact isValue
      obtain ⟨point, arrived, same⟩ := preserved field value stored (by simp [sameType])
      have isType : point.fieldType? field = some value.fieldType := by
        rw [Point.fieldType?, same]
        rfl
      obtain ⟨type, isKnown, -, decoded⟩ := type_of_arrived arrived isType
      cases isBoolean.symm.trans isKnown
      cases sameType.symm.trans decoded
  · intro noBoolean field value stored notFloat
    obtain ⟨type, isType, isValue⟩ := Option.bind_eq_some_iff.mp stored
    have sameType := ValueWire.fieldType_of_value isValue
    have notBoolean : type ≠ .boolean := by
      rintro rfl
      rw [noBoolean field isType] at isValue
      cases isValue
    have exported : (wire.exportFields types row.columns)[field]? = some value := by
      rw [ValueWire.getElem?_exportFields, isType]
      exact wire.jsonFieldToValue_renderCell isValue notBoolean (sameType ▸ notFloat)
    obtain ⟨point, arrived⟩ := exists_arrivedPoint measurement exported
    refine ⟨point, arrived, ?_⟩
    rw [(arrivedPoint_cases arrived).2, exported]
    exact wire.read_written value notFloat

theorem NoBoolean.type_of_arrived (noBoolean : row.NoBoolean)
    (arrived : row.arrivedPoint wire measurement = some point) {type : FieldType}
    (isType : point.fieldType? field = some type) : types[field]? = some type := by
  obtain ⟨known, isKnown, notNull, rfl⟩ := TypedRow.type_of_arrived arrived isType
  cases known with
  | boolean => exact absurd (noBoolean field isKnown) notNull
  | _ => exact isKnown

end TypedRow

/-- A node that moved rows of `key` arrive at: where it has a type for one of the fields, it is
the one that the rows were stored with. -/
def SameTypes (types : FieldTypes) (store : MetadataStore) (key : MeasurementKey) : Prop :=
  ∀ (field : String) known type, (store.fieldTypesAt key)[field]? = some known →
    types[field]? = some type → known = type

theorem loadsFit_arrived (wire : ValueWire) {key : MeasurementKey} {types : FieldTypes}
    {rows : List (TypedRow types)} {store : MetadataStore}
    (noBoolean : ∀ row ∈ rows, row.NoBoolean) (sameTypes : SameTypes types store key) :
    LoadsFit {} store (loadsOf key.db key.rp
      (rows.filterMap (·.arrivedPoint wire key.measurement))) := by
  have typed : ∀ load ∈ loadsOf key.db key.rp
      (rows.filterMap (·.arrivedPoint wire key.measurement)),
      load.1 = key ∧ ∀ field type, load.2.fieldType? field = some type →
        types[field]? = some type := by
    intro load member
    obtain ⟨inPoints, keyed⟩ := mem_loadsOf.mp member
    obtain ⟨row, isRow, arrived⟩ := mem_filterMap.mp inPoints
    refine ⟨?_, fun field type => (noBoolean row isRow).type_of_arrived arrived⟩
    rw [keyed, (TypedRow.arrivedPoint_cases arrived).1]
  refine ⟨?_, ?_, Or.inl rfl, Or.inl rfl⟩
  · intro other first second firstLoad secondLoad field one two isOne isTwo
    cases ((typed _ firstLoad).2 field one isOne).symm.trans
      ((typed _ secondLoad).2 field two isTwo)
    exact fieldTypesCompatible_self one
  · intro other point load field known type stored isType
    obtain ⟨rfl, each⟩ := typed _ load
    cases sameTypes field known type stored (each field type isType)
    exact fieldTypesCompatible_self known

/-- The values of moved rows arrive as they were, in their own types, and the metadata of the
receiver takes them without a conflict, exactly if no row has a boolean value. -/
theorem movedRows_preserved_iff (wire : ValueWire) (key : MeasurementKey) {types : FieldTypes}
    (rows : List (TypedRow types)) : ((∀ row ∈ rows, row.Preserved wire key.measurement) ∧
      ∀ (hashes : SchemaHashes) (state : IngestState), SameTypes types state.store key →
        ∃ after, state.prepareBatchMetadata hashes key.db key.rp {}
          (rows.filterMap (·.arrivedPoint wire key.measurement)) = .ok after) ↔
      ∀ row ∈ rows, row.NoBoolean := by
  constructor
  · intro ⟨preserved, _⟩ row member
    exact TypedRow.preserved_iff.mp (preserved row member)
  · intro noBoolean
    refine ⟨fun row member => TypedRow.preserved_iff.mpr (noBoolean row member), ?_⟩
    intro hashes state sameTypes
    have fit := loadsFit_arrived wire noBoolean sameTypes
    have accepted : ∃ after, state.prepareBatchMetadata hashes key.db key.rp {} _ = .ok after ∧ _ :=
      IngestState.prepareBatchMetadata_of_fit (state.store.below_self []) fit
        (nil_subset _) (List.Subset.refl _)
    exact accepted.imp fun _ prepared => prepared.1

def unescapeChars : List Char → List Char
  | '\\' :: ch :: rest => ch :: unescapeChars rest
  | ch :: rest => ch :: unescapeChars rest
  | [] => []

theorem unescapeChars_escape (chars : List Char) : unescapeChars (chars.flatMap fun ch =>
      if ch = '\\' ∨ ch = '"' then ['\\', ch] else [ch]) = chars := by
  induction chars with
  | nil => rfl
  | cons ch chars ih =>
    rw [flatMap_cons]
    split
    next => rw [cons_append, singleton_append, unescapeChars, ih]
    next plain =>
      rw [singleton_append, unescapeChars, ih]
      exact fun _ _ same => absurd (Or.inl same) plain

def readDigits : List Char → Int
  | '-' :: digits => -(Nat.ofDigitChars 10 digits 0 : Int)
  | digits => Nat.ofDigitChars 10 digits 0

theorem readDigits_nat (value : Nat) : readDigits (toString value).toList = value := by
  have digits : (toString value).toList = Nat.toDigits 10 value := String.toList_ofList
  rw [digits, readDigits, Nat.ofDigitChars_toDigits (by decide) (by decide)]
  intro rest same
  have isDigit := Nat.isDigit_of_mem_toDigits (by decide) (by decide)
    (same ▸ mem_cons_self : '-' ∈ Nat.toDigits 10 value)
  cases isDigit

theorem readDigits_int (value : Int) : readDigits (toString value).toList = value := by
  cases value with
  | ofNat value => exact readDigits_nat value
  | negSucc value =>
    have sign : (toString (Int.negSucc value)).toList =
        '-' :: (toString (value + 1)).toList := String.toList_append
    have digits : (toString (value + 1)).toList = Nat.toDigits 10 (value + 1) :=
      String.toList_ofList
    rw [sign, readDigits, digits, Nat.ofDigitChars_toDigits (by decide) (by decide)]
    rfl

/-- A value that is no word is told by its last character. -/
def readSuffixed (front : List Char) : Char → Option FieldValue
  | 'i' => some (.integer (.ofInt (readDigits front)))
  | 'u' => some (.uinteger (.ofNat (readDigits front).toNat))
  | '"' => some (.string (String.ofList (unescapeChars front.tail)))
  | _ => some (.float 0)

def readPlainValue (text : String) : Option FieldValue :=
  if text = "true" then some (.boolean true)
  else if text = "false" then some (.boolean false)
  else text.toList.getLast?.bind (readSuffixed text.toList.dropLast)

theorem readPlainValue_of_ends {text : String} {front : List Char} {last : Char}
    (ends : text.toList = front ++ [last]) (noWord : last ≠ 'e') :
    readPlainValue text = readSuffixed front last := by
  have notWord : ∀ word : String, word.toList.getLast? = some 'e' → text ≠ word := by
    rintro word isWord rfl
    rw [ends, getLast?_concat] at isWord
    exact noWord (Option.some.inj isWord)
  rw [readPlainValue, if_neg (notWord "true" (by decide +kernel)),
    if_neg (notWord "false" (by decide +kernel)), ends, getLast?_concat,
    dropLast_concat]
  rfl

theorem readPlainValue_written (value : FieldValue) (notFloat : value.fieldType ≠ .float) :
    readPlainValue (fieldValueToLp (fun _ => "0") value) = some value := by
  cases value with
  | float => exact absurd rfl notFloat
  | boolean value => cases value <;> decide +kernel
  | integer value =>
    have ends : (fieldValueToLp (fun _ => "0") (.integer value)).toList =
        (toString value.toInt).toList ++ ['i'] := String.toList_append
    rw [readPlainValue_of_ends ends (by decide), readSuffixed, readDigits_int, Int64.ofInt_toInt]
  | uinteger value =>
    have ends : (fieldValueToLp (fun _ => "0") (.uinteger value)).toList =
        (toString value.toNat).toList ++ ['u'] := String.toList_append
    rw [readPlainValue_of_ends ends (by decide), readSuffixed, readDigits_nat, Int.toNat_natCast,
      UInt64.ofNat_toNat]
  | string value =>
    have ends : (fieldValueToLp (fun _ => "0") (.string value)).toList =
        ('"' :: (escapeStringField value).toList) ++ ['"'] := by
      rw [fieldValueToLp, String.toList_append, String.toList_append]
      rfl
    rw [readPlainValue_of_ends ends (by decide), readSuffixed, tail_cons,
      escapeStringField, String.toList_ofList, unescapeChars_escape, String.ofList_toList]

def plainWire : ValueWire where
  casts := ⟨fun _ => 0, fun _ => 0, fun _ => 0⟩
  renderFloat _ := none
  numberToLpFloat _ := "0"
  readValue := readPlainValue
  read_written := readPlainValue_written
  read_float number := ⟨0, by decide +kernel⟩

def booleanTypes : FieldTypes := (∅ : FieldTypes).insert "up" .boolean

def booleanRow : TypedRow booleanTypes where
  columns := (∅ : FieldColumns).insert (fieldColumnName "up")
    (buildFieldCell plainWire.casts .boolean (some (.boolean true)))
  tags := ∅
  time := 7
  typed := by
    intro field type isType
    rw [booleanTypes, ExtTreeMap.getElem?_insert] at isType
    split at isType
    next same =>
      cases isType
      cases Std.LawfulEqCmp.eq_of_compare same
      exact Or.inr (by decide +kernel)
    next => cases isType

/-- The boolean arrives as a float. -/
theorem movedBoolean_becomes_float :
    booleanRow.columns.storedValue booleanTypes "up" = some (.boolean true) ∧
      ¬booleanRow.Preserved plainWire "cpu" ∧
      (booleanRow.arrivedPoint plainWire "cpu").map (·.fields["up"]?) = some (some (.float 0)) := by
  refine ⟨by decide +kernel, ?_, by decide +kernel⟩
  rw [TypedRow.preserved_iff]
  exact fun noBoolean => absurd (noBoolean "up" (by decide +kernel)) (by decide +kernel)

end HyperbyteDb
