import HyperbyteDb.RegionExport
import HyperbyteDb.RegionPruning

/-!
# The columns that queries read

Storage writes a field or tag to a column of its sanitised name.  The translator of queries
writes the name itself in some places, and the name of the column in others.
-/

namespace HyperbyteDb

open Ast List MeasurementMeta Std

section

/-- A measurement of a retention policy of a database. -/
structure TableKey where
  db : String
  rp : String
  measurement : String
deriving DecidableEq

def unquotedTableName (db rp measurement : String) : String :=
  sanitiseIdent db ++ "_" ++ sanitiseIdent rp ++ "_" ++ sanitiseIdent measurement

def unquotedSeriesTableName (db rp measurement : String) : String :=
  unquotedTableName db rp measurement ++ "_series"

def unquotedFactMvName (db rp mvName : String) : String :=
  unquotedTableName db rp mvName ++ "_mv"

def unquotedSeriesMvName (db rp mvName : String) : String :=
  unquotedTableName db rp mvName ++ "_series_mv"

namespace TableKey

variable (key : TableKey)

def objectNames : List String :=
  [unquotedTableName key.db key.rp key.measurement,
    unquotedSeriesTableName key.db key.rp key.measurement,
    unquotedFactMvName key.db key.rp key.measurement,
    unquotedSeriesMvName key.db key.rp key.measurement]

end TableKey

/-! ## Operations on objects -/

abbrev ObjectCatalog (Row : Type) := Std.ExtTreeMap String (List Row)

/-- The statements that the service sends for a key. -/
inductive ObjectOp (Row : Type) where
  | insertFacts (rows : List Row)
  | insertSeries (rows : List Row)
  | createViews
  | dropMeasurement
  | dropViews

namespace ObjectCatalog

variable {Row : Type}

variable (catalog : ObjectCatalog Row)

def insertRows (name : String) (rows : List Row) : ObjectCatalog Row :=
  catalog.insert name ((catalog[name]?).getD [] ++ rows)

def apply (key : TableKey) : ObjectOp Row → ObjectCatalog Row
  | .insertFacts rows => insertRows catalog (unquotedTableName key.db key.rp key.measurement) rows
  | .insertSeries rows =>
    insertRows catalog (unquotedSeriesTableName key.db key.rp key.measurement) rows
  | .createViews =>
    insertRows
      (insertRows catalog (unquotedFactMvName key.db key.rp key.measurement) [])
      (unquotedSeriesMvName key.db key.rp key.measurement) []
  | .dropMeasurement =>
    (catalog.erase (unquotedTableName key.db key.rp key.measurement)).erase
      (unquotedSeriesTableName key.db key.rp key.measurement)
  | .dropViews =>
    (catalog.erase (unquotedFactMvName key.db key.rp key.measurement)).erase
      (unquotedSeriesMvName key.db key.rp key.measurement)

variable {name : String}

theorem getElem?_insertRows {other : String} (rows : List Row) (different : name ≠ other) :
    (insertRows catalog name rows)[other]? = catalog[other]? := by
  simp [insertRows, Std.ExtTreeMap.getElem?_insert, different]

theorem getElem?_apply (key : TableKey) (op : ObjectOp Row)
    (foreign : name ∉ key.objectNames) : (apply catalog key op)[name]? = catalog[name]? := by
  simp only [TableKey.objectNames, mem_cons, not_mem_nil, or_false, not_or] at foreign
  obtain ⟨notFact, notSeries, notFactMv, notSeriesMv⟩ := foreign
  cases op with
  | insertFacts rows => exact getElem?_insertRows catalog rows (Ne.symm notFact)
  | insertSeries rows => exact getElem?_insertRows catalog rows (Ne.symm notSeries)
  | createViews =>
    rw [apply, getElem?_insertRows _ _ (Ne.symm notSeriesMv),
      getElem?_insertRows _ _ (Ne.symm notFactMv)]
  | dropMeasurement =>
    simp [apply, Std.ExtTreeMap.getElem?_erase, Ne.symm notFact, Ne.symm notSeries]
  | dropViews =>
    simp [apply, Std.ExtTreeMap.getElem?_erase, Ne.symm notFactMv, Ne.symm notSeriesMv]

theorem getElem?_foldl_apply (ops : List (ObjectOp Row)) (catalog : ObjectCatalog Row)
    (key : TableKey) (foreign : name ∉ key.objectNames) :
    (ops.foldl (fun catalog op => apply catalog key op) catalog)[name]? = catalog[name]? := by
  induction ops generalizing catalog with
  | nil => rfl
  | cons op ops ih => rw [foldl_cons, ih, getElem?_apply catalog key op foreign]

end ObjectCatalog

/-- No object of one key is an object of the other, so that no work on the first changes what
is read from the second. -/
structure Isolated (first second : TableKey) : Prop where
  apart : ∀ name ∈ first.objectNames, ∀ other ∈ second.objectNames, name ≠ other
  untouched : ∀ (Row : Type) (ops : List (ObjectOp Row)) (catalog : ObjectCatalog Row),
    ∀ name ∈ second.objectNames,
      (ops.foldl (fun catalog op => ObjectCatalog.apply catalog first op) catalog)[name]? =
        catalog[name]?

theorem isolated_iff_apart (first second : TableKey) :
    Isolated first second ↔
      ∀ name ∈ first.objectNames, ∀ other ∈ second.objectNames, name ≠ other := by
  refine ⟨Isolated.apart, fun apart => ⟨apart, fun Row ops catalog name member => ?_⟩⟩
  have foreign : name ∉ first.objectNames := fun shared => apart name shared name member rfl
  exact ObjectCatalog.getElem?_foldl_apply ops catalog first foreign

/-! ## Texts that look the same -/

/-- A character as it stands in the name of an object. -/
def blur (ch : Char) : Char := if ch.isAlphanum || ch == '_' then ch else '_'

variable {ch : Char}

theorem blur_of_isAlphanum (plain : ch.isAlphanum = true) : blur ch = ch := by
  simp [blur, plain]

theorem blur_of_not_isAlphanum (other : ch.isAlphanum = false) : blur ch = '_' := by
  simp [blur, other]

theorem ne_underscore_of_isAlphanum (plain : ch.isAlphanum = true) : ch ≠ '_' := by
  rintro rfl
  exact absurd plain (by decide)

/-- The texts differ only where both have a character that is no letter and no digit. -/
def LooksLike (text other : List Char) : Prop :=
  List.Forall₂ (fun ch ch' => ch = ch' ∨ ch.isAlphanum = false ∧ ch'.isAlphanum = false) text other

theorem blur_eq_iff (ch ch' : Char) :
    blur ch = blur ch' ↔ ch = ch' ∨ ch.isAlphanum = false ∧ ch'.isAlphanum = false := by
  cases kind : ch.isAlphanum <;> cases kind' : ch'.isAlphanum
  · simp [blur_of_not_isAlphanum kind, blur_of_not_isAlphanum kind']
  · rw [blur_of_not_isAlphanum kind, blur_of_isAlphanum kind']
    grind [ne_underscore_of_isAlphanum kind']
  · rw [blur_of_isAlphanum kind, blur_of_not_isAlphanum kind']
    grind [ne_underscore_of_isAlphanum kind]
  · simp [blur_of_isAlphanum kind, blur_of_isAlphanum kind']

theorem map_blur_eq_iff (text other : List Char) :
    text.map blur = other.map blur ↔ LooksLike text other := by
  rw [← forall₂_eq_eq_eq, forall₂_map_left_iff, forall₂_map_right_iff, LooksLike]
  simp only [blur_eq_iff]

/-- A name with the underscore that goes before a digit, and that stands for no name. -/
def marked (name : String) : List Char :=
  if name.toList.head?.all Char.isDigit then '_' :: name.toList else name.toList

theorem isDigit_blur (ch : Char) : (blur ch).isDigit = ch.isDigit := by
  cases kind : ch.isAlphanum with
  | true => rw [blur_of_isAlphanum kind]
  | false =>
    have noDigit : ch.isDigit = false := by
      simp only [Char.isAlphanum, Bool.or_eq_false_iff] at kind
      exact kind.2
    rw [blur_of_not_isAlphanum kind, noDigit]
    rfl

theorem toList_sanitiseIdent (name : String) :
    (sanitiseIdent name).toList = (marked name).map blur := by
  unfold sanitiseIdent marked
  by_cases empty : name = ""
  · subst empty
    decide
  · obtain ⟨ch, rest, chars⟩ := exists_cons_of_ne_nil (fun nothing =>
      empty (String.toList_inj.mp nothing) : name.toList ≠ [])
    have digit : (blur ch).isDigit = ch.isDigit := isDigit_blur ch
    rw [if_neg empty, String.toList_ofList, chars]
    change (if ((ch :: rest).map blur).head?.any Char.isDigit = true then _ else _) = _
    cases leading : ch.isDigit <;> simp_all [blur]

namespace TableKey

/-- The names of the key, one after another. -/
def writtenOut (key : TableKey) : List Char :=
  marked key.db ++ '_' :: (marked key.rp ++ '_' :: marked key.measurement)

/-- What the names of the objects of one key end in. -/
def objectEndings : List (List Char) :=
  [[], "_series".toList, "_mv".toList, "_series_mv".toList]

theorem toList_unquotedTableName (key : TableKey) :
    (unquotedTableName key.db key.rp key.measurement).toList = key.writtenOut.map blur := by
  simp [unquotedTableName, writtenOut, toList_sanitiseIdent, blur]

theorem map_toList_objectNames (key : TableKey) :
    key.objectNames.map String.toList =
      objectEndings.map fun ending => (key.writtenOut ++ ending).map blur := by
  simp [objectNames, objectEndings, unquotedSeriesTableName, unquotedFactMvName,
    unquotedSeriesMvName, toList_unquotedTableName, blur]

variable {ending : List Char}

theorem map_blur_ending (isEnding : ending ∈ objectEndings) :
    ending.map blur = ending := by
  have unchanged : ∀ ending ∈ objectEndings, ending.map blur = ending := by decide
  exact unchanged ending isEnding

/-- What is left of an ending before another ending is an ending. -/
theorem mem_objectEndings_of_append {front other : List Char}
    (isEnding : ending ∈ objectEndings) (isOther : other ∈ objectEndings)
    (split : ending = front ++ other) : front ∈ objectEndings := by
  have fronts : ∀ ending ∈ objectEndings, ∀ other ∈ objectEndings,
      ending = ending.take (ending.length - other.length) ++ other →
        ending.take (ending.length - other.length) ∈ objectEndings := by decide
  have isFront : ending.take (ending.length - other.length) = front := by simp [split]
  have found := fronts ending isEnding other isOther
  rw [isFront] at found
  exact found split

end TableKey

open TableKey

/-- Two keys share no object exactly if their names do not look the same, nor the names of one
with an ending of an object and the names of the other. -/
theorem isolated_iff_not_looksLike (first second : TableKey) :
    Isolated first second ↔
      ∀ ending ∈ objectEndings,
        ¬ LooksLike (first.writtenOut ++ ending) second.writtenOut ∧
          ¬ LooksLike first.writtenOut (second.writtenOut ++ ending) := by
  have named : ∀ (key : TableKey) (name : List Char),
      (∃ object ∈ key.objectNames, object.toList = name) ↔
        ∃ ending ∈ objectEndings, (key.writtenOut ++ ending).map blur = name := by
    intro key name
    rw [← mem_map, ← mem_map, map_toList_objectNames]
  have plain : ∀ key : TableKey, ∃ object ∈ key.objectNames,
      object.toList = key.writtenOut.map blur := fun key =>
    (named key _).mpr ⟨[], by simp [objectEndings], by simp⟩
  rw [isolated_iff_apart]
  constructor
  · intro apart ending isEnding
    constructor
    · intro alike
      obtain ⟨name, member, text⟩ := (named first _).mpr ⟨ending, isEnding, rfl⟩
      obtain ⟨other, otherMember, otherText⟩ := plain second
      refine apart name member other otherMember (String.toList_inj.mp ?_)
      rw [text, otherText, (map_blur_eq_iff _ _).mpr alike]
    · intro alike
      obtain ⟨name, member, text⟩ := plain first
      obtain ⟨other, otherMember, otherText⟩ := (named second _).mpr ⟨ending, isEnding, rfl⟩
      refine apart name member other otherMember (String.toList_inj.mp ?_)
      rw [text, otherText, (map_blur_eq_iff _ _).mpr alike]
  · rintro unlike name member _ otherMember rfl
    obtain ⟨ending, isEnding, text⟩ := (named first _).mp ⟨name, member, rfl⟩
    obtain ⟨other, isOther, otherText⟩ := (named second _).mp ⟨name, otherMember, rfl⟩
    have same := text.trans otherText.symm
    rw [map_append, map_append, map_blur_ending isEnding, map_blur_ending isOther] at same
    -- One of the two names is the other with an ending more.
    obtain ⟨front, longer, split⟩ | ⟨front, longer, split⟩ := append_eq_append_iff.mp same
    · have isFront := mem_objectEndings_of_append isEnding isOther split
      refine (unlike front isFront).1 ((map_blur_eq_iff _ _).mp ?_)
      rw [map_append, map_blur_ending isFront, longer]
    · have isFront := mem_objectEndings_of_append isOther isEnding split
      refine (unlike front isFront).2 ((map_blur_eq_iff _ _).mp ?_)
      rw [map_append, map_blur_ending isFront, longer]

/-- Two databases whose names differ in a hyphen have one table. -/
theorem hyphenated_database_not_isolated :
    ¬ Isolated ⟨"my-db", "autogen", "cpu"⟩ ⟨"my_db", "autogen", "cpu"⟩ := by
  intro isolated
  refine isolated.apart (unquotedTableName "my-db" "autogen" "cpu") (by simp [objectNames])
    (unquotedTableName "my_db" "autogen" "cpu") (by simp [objectNames]) ?_
  decide

end

/-! ## The columns that queries read -/

/-- A reference of a query, with the column that is written for it. -/
structure ColumnRef where
  name : String
  typ : Option Ast.FieldType
  column : String

def builtInColumns : List String := ["time", "origin_node_id", "ingest_seq", "series_id"]

/-- The column of a quoted name; control characters are refused. -/
def quoteIdentifier (name : String) : Option String :=
  if name.toList.any fun ch => ch.toNat < 32 || (127 ≤ ch.toNat && ch.toNat < 160) then none
  else some name

def isWhereLiteral : Expr → Bool
  | .integerLiteral _ | .floatLiteral _ | .stringLiteral _ | .booleanLiteral _ => true
  | _ => false

/-- The name of an operand, and whether it is cast to a tag. -/
def comparedName : Expr → Option (String × Bool)
  | .identifier name | .fieldRef name none => some (name, false)
  | .fieldRef name (some .tag) => some (name, true)
  | _ => none

namespace MeasurementMeta

variable (schema : MeasurementMeta)

/-- The columns of the fields in the fact table and of the tags in the series table. -/
def physicalColumns : List String :=
  schema.fieldTypes.keys.map fieldColumnName ++
    schema.tagKeys.toList.map schema.physicalTagColumnName

def tagColumnName (tag : String) : String :=
  if tag ∈ schema.fieldTypes then tagColPrefix ++ tag else tag

/-- `SELECT` and the arguments of aggregates. -/
def physicalSelectIdentifier (name : String) : String :=
  if name ∈ schema.fieldTypes then name
  else if name ∈ schema.tagKeys then schema.tagColumnName name
  else name

def tagFieldCollision (name : String) : Bool :=
  decide (name ∈ schema.tagKeys) && decide (name ∈ schema.fieldTypes)

def whereIdentifierPhysicalName (name : String) (other : Expr) : Option String :=
  if !schema.tagFieldCollision name then quoteIdentifier name
  else
    match other with
    | .integerLiteral _ | .floatLiteral _ | .booleanLiteral _ => quoteIdentifier name
    | _ => some (schema.physicalTagColumnName name)

def regexMatchColumnName : Expr → Option ColumnRef
  | .fieldRef name (some .field) => (quoteIdentifier name).map (⟨name, some .field, ·⟩)
  | .fieldRef name typ => some ⟨name, typ, schema.physicalTagColumnName name⟩
  | .identifier name => some ⟨name, none,
      if schema.tagFieldCollision name then schema.physicalTagColumnName name
      else schema.physicalSelectIdentifier name⟩
  | _ => none

/-- A comparison with a literal, unless it is translated like any other expression.  A tag and
a number are never equal. -/
def tryTranslateWhereBinaryExpr (left right : Expr) : Option (Option (List ColumnRef)) :=
  let compared :=
    if isWhereLiteral right then (comparedName left).map (·, right)
    else if isWhereLiteral left then (comparedName right).map (·, left)
    else none
  compared.bind fun ((name, explicitTag), literal) =>
    let isPureTag := explicitTag || (name ∈ schema.tagKeys && !(name ∈ schema.fieldTypes))
    match isPureTag, literal with
    | true, .integerLiteral _ | true, .floatLiteral _ => some (some [])
    | _, _ =>
      if !schema.tagFieldCollision name then none
      else some ((schema.whereIdentifierPhysicalName name literal).map fun column =>
        [⟨name, if explicitTag then some .tag else none, column⟩])

/-- A comparison of `time` with an epoch or a text. -/
def isTimeComparison (left : Expr) (op : BinaryOp) (right : Expr) : Bool :=
  let isTime : Expr → Bool
    | .identifier name => isTimeIdentifier name
    | _ => false
  let isMoment : Expr → Bool
    | .durationLiteral _ | .integerLiteral _ | .stringLiteral _ | .timeLiteral _ => true
    | _ => false
  op matches .eq | .neq | .lt | .lte | .gt | .gte &&
    ((isTime left && isMoment right) || (isTime right && isMoment left))

/-- The references of a `WHERE` clause, if it can be translated. -/
def translateExpr : Expr → Option (List ColumnRef)
  | .identifier name =>
    if isTimeIdentifier name then some [⟨name, none, "time"⟩]
    else if schema.tagFieldCollision name then
      some [⟨name, none, schema.physicalTagColumnName name⟩]
    else (quoteIdentifier name).map ([⟨name, none, ·⟩])
  | .fieldRef name (some .tag) => some [⟨name, some .tag, schema.physicalTagColumnName name⟩]
  | .fieldRef name (some .field) => (quoteIdentifier name).map ([⟨name, some .field, ·⟩])
  | .fieldRef name none =>
    if schema.tagFieldCollision name then
      some [⟨name, none, schema.physicalTagColumnName name⟩]
    else (quoteIdentifier name).map ([⟨name, none, ·⟩])
  | .binaryExpr left op right =>
    let both := (translateExpr left).bind fun first => (translateExpr right).map (first ++ ·)
    if op matches .regexMatch | .regexNotMatch then
      match right with
      | .regex _ => (schema.regexMatchColumnName left).map ([·])
      | _ => none
    else if op matches .and | .or then both
    else if isTimeComparison left op right then both
    else (schema.tryTranslateWhereBinaryExpr left right).getD both
  | .unaryExpr _ inner => translateExpr inner
  | .star | .call .. | .wildcard => none
  | _ => some []

end MeasurementMeta

/-- Every cast names a field or a tag, as the parser demands. -/
def CastsNamed : Expr → Prop
  | .fieldRef _ typ => typ ≠ none
  | .binaryExpr left _ right => CastsNamed left ∧ CastsNamed right
  | .unaryExpr _ inner => CastsNamed inner
  | _ => True

namespace ColumnRef

variable (schema : MeasurementMeta) (ref : ColumnRef)

/-- The column of a field or tag that the reference may mean. -/
def Means (column : String) : Prop :=
  (ref.typ ≠ some .tag ∧ ref.name ∈ schema.fieldTypes ∧ column = fieldColumnName ref.name) ∨
    ref.typ ≠ some .field ∧ ref.name ∈ schema.tagKeys ∧
      column = schema.physicalTagColumnName ref.name

def Resolved : Prop :=
  (∃ column, ref.Means schema column) → ref.Means schema ref.column

end ColumnRef

/-- The columns of a measurement are distinct, and every clause names the column that it
means. -/
structure ColumnsConsistent (schema : MeasurementMeta) : Prop where
  distinct : (builtInColumns ++ schema.physicalColumns).Nodup
  select : ∀ name typ, ColumnRef.Resolved schema ⟨name, typ, schema.physicalSelectIdentifier name⟩
  where_ : ∀ expr refs, CastsNamed expr → schema.translateExpr expr = some refs →
    ∀ ref ∈ refs, ref.Resolved schema
  groupBy : ∀ tag, ColumnRef.Resolved schema ⟨tag, some .tag, schema.physicalTagColumnName tag⟩

/-- The names are not changed by sanitising, are not those of built-in columns or a spelling of
`time`, and no name is both of a field and of a tag. -/
structure PlainNames (schema : MeasurementMeta) : Prop where
  clean : ∀ name, name ∈ schema.fieldTypes ∨ name ∈ schema.tagKeys → sanitiseIdent name = name
  ownName : ∀ name, name ∈ schema.fieldTypes ∨ name ∈ schema.tagKeys →
    isTimeIdentifier name = false ∧ name ∉ builtInColumns
  apart : ∀ tag ∈ schema.tagKeys, tag ∉ schema.fieldTypes

/-- Every field and tag has a column of its own name. -/
structure OwnColumns (schema : MeasurementMeta) : Prop where
  fields : ∀ name ∈ schema.fieldTypes, fieldColumnName name = name
  tags : ∀ tag ∈ schema.tagKeys, schema.physicalTagColumnName tag = tag

theorem PlainNames.ownColumns {schema : MeasurementMeta} (plain : PlainNames schema) :
    OwnColumns schema := by
  refine ⟨fun name isField => plain.clean name (.inl isField), fun tag isTag => ?_⟩
  rw [physicalTagColumnName, if_neg (plain.apart tag isTag),
    plain.clean tag (.inr isTag)]

theorem length_le_sanitiseIdent (name : String) :
    name.toList.length ≤ (sanitiseIdent name).toList.length := by
  rw [toList_sanitiseIdent, marked]
  split <;> simp

theorem physicalSelectIdentifier_eq (schema : MeasurementMeta) (name : String) :
    schema.physicalSelectIdentifier name = name := by
  unfold physicalSelectIdentifier tagColumnName
  split
  next => rfl
  next => rw [ite_self]

namespace OwnColumns

variable {schema : MeasurementMeta} (own : OwnColumns schema)
include own

theorem apart {tag : String} (isTag : tag ∈ schema.tagKeys) : tag ∉ schema.fieldTypes := by
  intro isField
  have same := own.tags tag isTag
  rw [physicalTagColumnName, if_pos isField] at same
  have longer := length_le_sanitiseIdent (tagColPrefix ++ tag)
  rw [same, String.toList_append, length_append,
    show tagColPrefix.toList.length = 7 from rfl] at longer
  omega

theorem no_collision (name : String) : schema.tagFieldCollision name = false := by
  have apart : name ∈ schema.tagKeys → name ∉ schema.fieldTypes := own.apart
  simp only [tagFieldCollision, Bool.and_eq_false_iff, decide_eq_false_iff_not]
  tauto

theorem nodup_columns_iff : (builtInColumns ++ schema.physicalColumns).Nodup ↔
      ∀ name, name ∈ schema.fieldTypes ∨ name ∈ schema.tagKeys → name ∉ builtInColumns := by
  have columns : schema.physicalColumns = schema.fieldTypes.keys ++ schema.tagKeys.toList := by
    have fields := map_congr_left fun name isField =>
      own.fields name (ExtTreeMap.mem_keys.mp isField)
    have tags := map_congr_left fun tag isTag =>
      own.tags tag (ExtTreeSet.mem_toList.mp isTag)
    rw [physicalColumns, fields, tags, map_id', map_id']
  have distinct : schema.physicalColumns.Nodup := by
    rw [columns]
    refine nodup_append.mpr ⟨ExtTreeMap.nodup_keys, ?_, ?_⟩
    · exact ExtTreeSet.distinct_toList.imp fun apart same => apart (by simp [same])
    · rintro name isField _ isTag rfl
      exact own.apart (ExtTreeSet.mem_toList.mp isTag) (ExtTreeMap.mem_keys.mp isField)
  have mem_iff : ∀ name, name ∈ schema.physicalColumns ↔
      name ∈ schema.fieldTypes ∨ name ∈ schema.tagKeys := by simp [columns]
  rw [nodup_append]
  constructor
  · rintro ⟨-, -, apart⟩ name known isBuiltIn
    exact apart name isBuiltIn name ((mem_iff name).mpr known) rfl
  · intro apart
    refine ⟨by decide, distinct, ?_⟩
    rintro name isBuiltIn _ isColumn rfl
    exact apart name ((mem_iff name).mp isColumn) isBuiltIn

theorem resolved_of_name (name : String) (typ : Option Ast.FieldType) :
    ColumnRef.Resolved schema ⟨name, typ, name⟩ := by
  rintro ⟨_, ⟨cast, isField, -⟩ | ⟨cast, isTag, -⟩⟩
  · exact .inl ⟨cast, isField, (own.fields name isField).symm⟩
  · exact .inr ⟨cast, isTag, (own.tags name isTag).symm⟩

theorem resolved_of_quoteIdentifier {name column : String} {typ : Option Ast.FieldType}
    (quoted : quoteIdentifier name = some column) :
    ColumnRef.Resolved schema ⟨name, typ, column⟩ := by
  obtain ⟨-, same⟩ := Option.ite_none_left_eq_some.mp quoted
  rw [← Option.some.inj same]
  exact own.resolved_of_name name typ

omit own in
theorem resolved_of_tag (tag : String) :
    ColumnRef.Resolved schema ⟨tag, some .tag, schema.physicalTagColumnName tag⟩ := by
  rintro ⟨_, ⟨cast, -⟩ | ⟨cast, isTag, -⟩⟩
  · exact absurd rfl cast
  · exact .inr ⟨cast, isTag, rfl⟩

theorem resolved_regexMatchColumnName {left : Expr} {ref : ColumnRef} (named : CastsNamed left)
    (made : schema.regexMatchColumnName left = some ref) : ref.Resolved schema := by
  unfold regexMatchColumnName at made
  split at made
  next name =>
    obtain ⟨column, quoted, rfl⟩ := Option.map_eq_some_iff.mp made
    exact own.resolved_of_quoteIdentifier quoted
  next name typ notField =>
    obtain rfl := Option.some.inj made
    match typ with
    | some .tag => exact resolved_of_tag name
    | some .field => exact absurd rfl notField
    | none => exact absurd rfl named
  next name =>
    obtain rfl := Option.some.inj made
    rw [own.no_collision, physicalSelectIdentifier_eq]
    exact own.resolved_of_name name none
  next => cases made

theorem tryTranslate_eq {left right : Expr} {refs : Option (List ColumnRef)}
    (handled : schema.tryTranslateWhereBinaryExpr left right = some refs) : refs = some [] := by
  obtain ⟨⟨⟨name, explicitTag⟩, literal⟩, -, made⟩ := Option.bind_eq_some_iff.mp handled
  dsimp only at made
  rw [own.no_collision] at made
  split at made
  · exact (Option.some.inj made).symm
  · exact (Option.some.inj made).symm
  · cases made

omit own in
theorem resolved_both {first second : Option (List ColumnRef)} {refs : List ColumnRef}
    (ofFirst : ∀ {refs}, first = some refs → ∀ ref ∈ refs, ref.Resolved schema)
    (ofSecond : ∀ {refs}, second = some refs → ∀ ref ∈ refs, ref.Resolved schema)
    (made : (first.bind fun some => second.map (some ++ ·)) = some refs) :
    ∀ ref ∈ refs, ref.Resolved schema := by
  obtain ⟨front, isFront, made⟩ := Option.bind_eq_some_iff.mp made
  obtain ⟨back, isBack, rfl⟩ := Option.map_eq_some_iff.mp made
  exact forall_mem_append.mpr ⟨ofFirst isFront, ofSecond isBack⟩

theorem resolved_translateExpr (noTime : ∀ name, name ∈ schema.fieldTypes ∨ name ∈ schema.tagKeys →
      isTimeIdentifier name = false) {expr : Expr} (named : CastsNamed expr) {refs : List ColumnRef}
    (made : schema.translateExpr expr = some refs) : ∀ ref ∈ refs, ref.Resolved schema := by
  fun_induction schema.translateExpr expr generalizing refs with
  | case1 name isTime =>
    obtain rfl := Option.some.inj made
    refine forall_mem_singleton.mpr ?_
    rintro ⟨_, ⟨-, isField, -⟩ | ⟨-, isTag, -⟩⟩
    · simp [noTime name (.inl isField)] at isTime
    · simp [noTime name (.inr isTag)] at isTime
  | case2 name _ collides =>
    rw [own.no_collision] at collides
    cases collides
  | case3 name | case5 name =>
    obtain ⟨column, quoted, rfl⟩ := Option.map_eq_some_iff.mp made
    exact forall_mem_singleton.mpr (own.resolved_of_quoteIdentifier quoted)
  | case4 name =>
    obtain rfl := Option.some.inj made
    exact forall_mem_singleton.mpr (resolved_of_tag name)
  | case6 | case7 => exact absurd rfl named
  | case8 left op isRegex pattern =>
    obtain ⟨ref, matched, rfl⟩ := Option.map_eq_some_iff.mp made
    exact forall_mem_singleton.mpr (own.resolved_regexMatchColumnName named.1 matched)
  | case10 left op right both _ _ ofFirst ofSecond | case11 left op right both _ _ _ ofFirst ofSecond =>
    exact resolved_both (ofFirst named.1) (ofSecond named.2) made
  | case12 left op right both _ _ _ ofFirst ofSecond =>
    cases handled : schema.tryTranslateWhereBinaryExpr left right with
    | none =>
      rw [handled] at made
      exact resolved_both (ofFirst named.1) (ofSecond named.2) made
    | some answer =>
      rw [handled, own.tryTranslate_eq handled] at made
      obtain rfl := Option.some.inj made
      exact forall_mem_nil _
  | case13 op inner ih => exact ih named made
  | case9 | case14 | case15 | case16 => cases made
  | case17 =>
    obtain rfl := Option.some.inj made
    exact forall_mem_nil _

end OwnColumns

namespace ColumnsConsistent

variable {schema : MeasurementMeta} (consistent : ColumnsConsistent schema)
include consistent

theorem ownColumns : OwnColumns schema := by
  constructor
  · intro name isField
    have meant := consistent.select name (some .field) ⟨_, .inl ⟨nofun, isField, rfl⟩⟩
    rw [physicalSelectIdentifier_eq] at meant
    rcases meant with ⟨-, -, same⟩ | ⟨cast, -⟩
    · exact same.symm
    · exact absurd rfl cast
  · intro tag isTag
    have meant := consistent.select tag (some .tag) ⟨_, .inr ⟨nofun, isTag, rfl⟩⟩
    rw [physicalSelectIdentifier_eq] at meant
    rcases meant with ⟨cast, -⟩ | ⟨-, -, same⟩
    · exact absurd rfl cast
    · exact same.symm

/-- `WHERE` writes `time` for every spelling of it. -/
theorem not_time {name : String} (known : name ∈ schema.fieldTypes ∨ name ∈ schema.tagKeys) :
    isTimeIdentifier name = false := by
  by_contra isTime
  rw [Bool.not_eq_false] at isTime
  have own := consistent.ownColumns
  have meant := consistent.where_ (.identifier name) [⟨name, none, "time"⟩] trivial
    (by rw [translateExpr, if_pos isTime]) _ mem_cons_self
    (known.elim (fun isField => ⟨_, .inl ⟨nofun, isField, rfl⟩⟩)
      fun isTag => ⟨_, .inr ⟨nofun, isTag, rfl⟩⟩)
  have isName : "time" = name := by
    rcases meant with ⟨-, isField, same⟩ | ⟨-, isTag, same⟩
    · exact same.trans (own.fields name isField)
    · exact same.trans (own.tags name isTag)
  exact own.nodup_columns_iff.mp consistent.distinct name known (isName ▸ by decide)

end ColumnsConsistent

/-- Columns are distinct and named alike everywhere exactly if the names are plain. -/
theorem columns_consistent_iff (schema : MeasurementMeta) :
    ColumnsConsistent schema ↔ PlainNames schema := by
  constructor
  · intro consistent
    have own := consistent.ownColumns
    refine ⟨fun name known => ?_, fun name known => ⟨consistent.not_time known,
      own.nodup_columns_iff.mp consistent.distinct name known⟩, fun tag => own.apart⟩
    rcases known with isField | isTag
    · exact own.fields name isField
    · have same := own.tags name isTag
      rwa [physicalTagColumnName, if_neg (own.apart isTag)] at same
  · intro plain
    have own := plain.ownColumns
    refine ⟨own.nodup_columns_iff.mpr fun name known => (plain.ownName name known).2,
      fun name typ => ?_, fun expr refs named made => own.resolved_translateExpr
        (fun name known => (plain.ownName name known).1) named made, OwnColumns.resolved_of_tag⟩
    rw [physicalSelectIdentifier_eq]
    exact own.resolved_of_name name typ

/-- A field with a hyphen, which storage writes to `cpu_load` and queries read as `cpu-load`. -/
theorem hyphen_not_consistent :
    ¬ColumnsConsistent { fieldTypes := (∅ : FieldTypes).insert "cpu-load" .float } := by
  intro consistent
  have same := consistent.ownColumns.fields "cpu-load" (by decide +kernel)
  revert same
  decide +kernel

end HyperbyteDb
