import HyperbyteDb.MovedFieldValues
import HyperbyteDb.QueryAst
import HyperbyteDb.SeparatedTexts
import HyperbyteDb.TopOfUnions
import Mathlib.Algebra.Order.Ring.Rat

/-!
# Ranking the points of the regions again

`TOP` and `BOTTOM` select a number of points for each series and time bucket.  Each region
returns its own best points, and the coordinator ranks what the regions returned once more.
Series of several regions are put together by name and tags.
-/

namespace HyperbyteDb

open Ast KeyedFolds SeparatedTexts Std TopOfUnions

deriving instance DecidableEq for JsonNumber
deriving instance DecidableEq for JsonValue

structure SeriesResult where
  name : String
  tags : Option (Std.ExtTreeMap String String)
  columns : List String
  values : List (List JsonValue)
  partial_ : Option Bool := none

namespace SeriesResult

def tagPairs (series : SeriesResult) : List (String × String) :=
  (series.tags.map fun tags => tags.toList).getD []

end SeriesResult

namespace JsonValue

def asI64 : JsonValue → Option Int64
  | .number num => num.asI64
  | _ => none

def asF64 (casts : FloatCasts) : JsonValue → Option UInt64
  | .number num => some (num.asF64 casts)
  | _ => none

def ofUInt64 (value : UInt64) : JsonValue := .number (.posInt value)

end JsonValue

def columnIdx (columns : List String) (name : String) : Option Nat :=
  columns.findIdx? (· = name)

def pageRows {α : Type} (limit offset : Option UInt64) (rows : List α) : List α :=
  let rows := rows.drop (offset.getD 0).toNat
  match limit with
  | some limit => rows.take limit.toNat
  | none => rows

/-! ## Merging the series of several responses -/

/-! ## The key of the aggregate merge -/

def tagTexts (pairs : List (String × String)) : List Char :=
  pairs.flatMap fun (key, value) => '|' :: (key.toList ++ '=' :: value.toList)

namespace SeriesResult

def seriesKey (series : SeriesResult) : List Char :=
  series.name.toList ++ tagTexts series.tagPairs

def tagMap (series : SeriesResult) : ExtTreeMap String String := series.tags.getD ∅

def WrittenIn (allowed : Char → Prop) (series : SeriesResult) : Prop :=
  (∀ letter ∈ series.name.toList, allowed letter) ∧ ∀ pair ∈ series.tagPairs,
    (∀ letter ∈ pair.1.toList, allowed letter) ∧ ∀ letter ∈ pair.2.toList, allowed letter

theorem tagPairs_eq (series : SeriesResult) : series.tagPairs = series.tagMap.toList := by
  unfold tagPairs tagMap
  cases series.tags <;> simp

theorem tagTexts_inj {pairs others : List (String × String)} (free : ∀ pair ∈ pairs ++ others,
      '|' ∉ pair.1.toList ∧ '|' ∉ pair.2.toList ∧ '=' ∉ pair.1.toList)
    {text other : List Char} (textFree : '|' ∉ text) (otherFree : '|' ∉ other)
    (same : text ++ tagTexts pairs = other ++ tagTexts others) : text = other ∧ pairs = others := by
  induction pairs generalizing text other others with
  | nil =>
    cases others with
    | nil => simpa [tagTexts] using same
    | cons pair others =>
      refine absurd ?_ textFree
      simp [tagTexts] at same
      simp [same]
  | cons pair pairs ih =>
    cases others with
    | nil =>
      refine absurd ?_ otherFree
      simp [tagTexts] at same
      simp [← same]
    | cons counterpart others =>
      have pairFree := free pair (by simp)
      have counterpartFree := free counterpart (by simp)
      obtain ⟨sameText, same⟩ := (append_cons_inj textFree otherFree).mp same
      obtain ⟨samePair, sameRest⟩ := ih (fun pair member => free pair (by grind))
        (by simp [pairFree]) (by simp [counterpartFree]) same
      obtain ⟨sameKey, sameValue⟩ :=
        (append_cons_inj pairFree.2.2 counterpartFree.2.2).mp samePair
      exact ⟨sameText, by simp_all [String.toList_inj, Prod.ext_iff]⟩

end SeriesResult

def taggedSeries (name key value : String) : SeriesResult where
  name
  tags := some ((∅ : ExtTreeMap String String).insert key value)
  columns := []
  values := []

theorem writtenIn_taggedSeries {allowed : Char → Prop} {name key value : String} :
    (taggedSeries name key value).WrittenIn allowed ↔
      (∀ letter ∈ name.toList, allowed letter) ∧ (∀ letter ∈ key.toList, allowed letter) ∧
        ∀ letter ∈ value.toList, allowed letter := by
  rw [SeriesResult.WrittenIn, show (taggedSeries name key value).tagPairs = [(key, value)] from rfl,
    List.forall_mem_singleton]
  rfl

/-- The key tells series of different names or tags apart exactly if neither of its separators
can be in a name, a tag or a value. -/
theorem seriesKey_injective_iff (allowed : Char → Prop) :
    (∀ first second : SeriesResult, first.WrittenIn allowed → second.WrittenIn allowed →
      first.seriesKey = second.seriesKey →
      first.name = second.name ∧ first.tagMap = second.tagMap) ↔ ¬allowed '|' ∧ ¬allowed '=' := by
  constructor
  · intro injective
    constructor
    · intro bar
      have same := injective (taggedSeries "" "|" "") (taggedSeries "|" "" "")
        (writtenIn_taggedSeries.mpr (by simp [bar]))
        (writtenIn_taggedSeries.mpr (by simp [bar]))
        (by decide +kernel)
      exact absurd same.1 (by decide)
    · intro equals
      have same := injective (taggedSeries "" "" "=") (taggedSeries "" "=" "")
        (writtenIn_taggedSeries.mpr (by simp [equals]))
        (writtenIn_taggedSeries.mpr (by simp [equals]))
        (by decide +kernel)
      exact absurd same.2 (by decide +kernel)
  · rintro ⟨noBar, noEquals⟩ first second firstIn secondIn same
    have free : ∀ series : SeriesResult, series.WrittenIn allowed → ∀ pair ∈ series.tagPairs,
        '|' ∉ pair.1.toList ∧ '|' ∉ pair.2.toList ∧ '=' ∉ pair.1.toList := by
      intro series isIn pair member
      obtain ⟨keyIn, valueIn⟩ := isIn.2 pair member
      exact ⟨fun bar => noBar (keyIn _ bar), fun bar => noBar (valueIn _ bar),
        fun equals => noEquals (keyIn _ equals)⟩
    obtain ⟨sameName, samePairs⟩ := SeriesResult.tagTexts_inj
      (List.forall_mem_append.mpr ⟨free first firstIn, free second secondIn⟩)
      (fun bar => noBar (firstIn.1 _ bar)) (fun bar => noBar (secondIn.1 _ bar)) same
    rw [SeriesResult.tagPairs_eq, SeriesResult.tagPairs_eq, ExtTreeMap.toList_inj] at samePairs
    exact ⟨String.toList_inj.mp sameName, samePairs⟩

/-- One tag whose value reads like a second tag, and two tags. -/
theorem tagValue_reads_like_tag :
    let tags : ExtTreeMap String String := (∅ : ExtTreeMap String String).insert "host" "a"
    (taggedSeries "cpu" "host" "a|zone=b").seriesKey =
      { taggedSeries "cpu" "" "" with tags := some (tags.insert "zone" "b") }.seriesKey := by
  decide +kernel

/-! ## Ranking the points of the regions again -/

inductive SelectorKind where
  | top
  | bottom
  | sample
deriving DecidableEq

structure MultiSelector where
  kind : SelectorKind
  output : String
  field : String
  /-- At most one point for each combination of these tags. -/
  tags : List String
  n : UInt64

/-- The hidden columns: the bucket of a row and the time of its point, in nanoseconds. -/
def bucketCol : String := "__bucket"

def timeNsCol : String := "__tns"

def isHidden (column : String) : Bool := column = bucketCol || column = timeNsCol

def stripHidden (series : SeriesResult) : SeriesResult :=
  let keep := series.columns.zipIdx.filter fun item => !isHidden item.1
  if keep.length = series.columns.length then series
  else
    { series with
      columns := keep.map Prod.fst
      values := series.values.map fun row => keep.map fun item => (row[item.2]?).getD .null }

/-! ## Ranks -/

def cellNum (casts : FloatCasts) (idx : Nat) (row : List JsonValue) : Option UInt64 :=
  (row[idx]?).bind fun cell => cell.asF64 casts

def cellInt (idx : Nat) (row : List JsonValue) : Int64 :=
  ((row[idx]?).bind JsonValue.asI64).getD 0

/-- The total order of floats: a set sign bit turns the order of the other bits around. -/
def totalOrderKey (bits : UInt64) : Int :=
  if bits.toNat < 2 ^ 63 then bits.toNat else 2 ^ 63 - 1 - bits.toNat

/-- A row without a value is below all others. -/
def valueKey : Option UInt64 → Int
  | none => -2 ^ 64
  | some bits => totalOrderKey bits

/-- The best value first, and of equal values the earliest. -/
def rankKey (kind : SelectorKind) (value : Option UInt64) (time : Int64) : Int ×ₗ Int :=
  toLex (if kind = .top then -valueKey value else valueKey value, time.toInt)

def timeKey (desc : Bool) (time : Int64) : Int := if desc then -time.toInt else time.toInt

/-! ## The coordinator -/

section Coordinator

variable (casts : FloatCasts) (shuffle : Int64 → UInt64) (sel : MultiSelector)

def rerankGroup (value tns : Nat) (tagCols : List Nat) (rows : List (List JsonValue)) :
    List (List JsonValue) :=
  let rows :=
    match sel.kind with
    | .sample => ranked (fun row => shuffle (cellInt tns row)) rows
    | kind =>
      let rows := ranked (fun row => rankKey kind (cellNum casts value row) (cellInt tns row)) rows
      if tagCols.isEmpty then rows
      else retainFirst (fun row => tagCols.map fun idx => (row[idx]?).getD JsonValue.null) [] rows
  rows.take sel.n.toNat

def rerankSeries (stmt : SelectStatement) (series : SeriesResult) : Option SeriesResult :=
  match columnIdx series.columns bucketCol, columnIdx series.columns timeNsCol,
    columnIdx series.columns sel.output with
  | some bucket, some tns, some value =>
    let tagCols := sel.tags.filterMap (columnIdx series.columns)
    let kept := (groups (cellInt bucket) series.values).flatMap fun group =>
      rerankGroup casts shuffle sel value tns tagCols group.2
    let desc := stmt.orderBy.any (·.timeDesc)
    let values := pageRows stmt.limit stmt.offset
      (ranked (fun row => timeKey desc (cellInt tns row)) kept)
    if values.isEmpty then none else some { series with values }
  | _, _, _ => some series

/-- The rows of a further part of a series go to the end, in the column order of the first. -/
def appendRemapped (series : SeriesResult) : Option SeriesResult → SeriesResult
  | none => series
  | some into =>
    { into with
      values := into.values ++ series.values.map fun row =>
        into.columns.map fun column =>
          ((columnIdx series.columns column).bind (row[·]?)).getD .null }

def rerank (stmt : SelectStatement) (series : List SeriesResult) : List SeriesResult :=
  let merged := series.foldl
    (fun merged one => upsert (one.name, one.tagPairs) (appendRemapped one) merged) []
  ((merged.map Prod.snd).filterMap (rerankSeries casts shuffle sel stmt)).map stripHidden

end Coordinator

/-! ## Points and what is to be selected from them -/

abbrev StoredPoint := String → JsonValue

def pointTime (point : StoredPoint) : Int64 := (point timeNsCol).asI64.getD 0

def pointBucket (point : StoredPoint) : Int64 := (point bucketCol).asI64.getD 0

/-- How good a point is, by the number that its value stands for. -/
def exactRank (sel : MultiSelector) (exact : JsonValue → ℚ) (point : StoredPoint) : ℚ ×ₗ Int :=
  toLex (if sel.kind = .top then -exact (point sel.output) else exact (point sel.output),
    (pointTime point).toInt)

section Selection

variable (sel : MultiSelector) (exact : JsonValue → ℚ)

/-- The points of one series and bucket that are to be selected. -/
def selectGroup (points : List StoredPoint) : List StoredPoint :=
  if sel.tags.isEmpty then (ranked (exactRank sel exact) points).take sel.n.toNat
  else best (exactRank sel exact) (fun point => sel.tags.map point) sel.n.toNat points

def selectPoints (points : List StoredPoint) : List StoredPoint :=
  (groups pointBucket points).flatMap fun group => selectGroup sel exact group.2

def expectedPoints (stmt : SelectStatement) (points : List StoredPoint) : List StoredPoint :=
  pageRows stmt.limit stmt.offset
    (ranked (fun point => toLex (timeKey (stmt.orderBy.any (·.timeDesc)) (pointTime point),
      exactRank sel exact point)) (selectPoints sel exact points))

end Selection

/-- What one region holds of a series, and the points that it returns. -/
structure SeriesPart where
  name : String
  tags : Option (Std.ExtTreeMap String String)
  columns : List String
  points : List StoredPoint
  answer : List StoredPoint

namespace SeriesPart

def toSeries (part : SeriesPart) : SeriesResult where
  name := part.name
  tags := part.tags
  columns := part.columns
  values := part.answer.map fun point => part.columns.map point

def key (part : SeriesPart) : String × List (String × String) :=
  (part.name, part.toSeries.tagPairs)

end SeriesPart

end HyperbyteDb
