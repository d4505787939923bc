import HyperbyteDb.SelectorReranking
import Mathlib.Algebra.Order.Ring.Cast

/-!
# When ranking again is exact

The rows that the coordinator ranks are the rows of points, so that what it does can be said of
points.
-/

namespace HyperbyteDb

open Ast JsonValue KeyedFolds List TopOfUnions

/-! ## From rows to points -/

variable {columns : List String} {name : String} {idx : Nat}

theorem getElem?_of_columnIdx (found : columnIdx columns name = some idx) :
    columns[idx]? = some name := by
  obtain ⟨bound, same, -⟩ := findIdx?_eq_some_iff_getElem.mp found
  rw [getElem?_eq_getElem bound]
  simpa using same

theorem exists_columnIdx (member : name ∈ columns) : ∃ idx, columnIdx columns name = some idx := by
  cases found : columnIdx columns name with
  | some idx => exact ⟨idx, rfl⟩
  | none =>
    have absent := findIdx?_eq_none_iff.mp found name member
    simp at absent

theorem cell_of_columnIdx (found : columnIdx columns name = some idx) (point : StoredPoint) :
    (columns.map point)[idx]? = some (point name) := by
  rw [getElem?_map, getElem?_of_columnIdx found, Option.map_some]

theorem groups_map {α β κ : Type} [DecidableEq κ] (key : β → κ) (project : α → β) (items : List α) :
    groups key (items.map project) =
      (groups (fun item => key (project item)) items).map fun group =>
        (group.1, group.2.map project) := by
  rw [groups_eq, groups_eq]
  simp [filter_map, Function.comp_def]

theorem pageRows_map {α β : Type} (project : α → β) (limit offset : Option UInt64)
    (items : List α) :
    pageRows limit offset (items.map project) = (pageRows limit offset items).map project := by
  cases limit <;> simp [pageRows]

section Selection

variable (casts : FloatCasts) (sel : MultiSelector) (columns : List String)

def shownRank (point : StoredPoint) : Int ×ₗ Int :=
  rankKey sel.kind ((point sel.output).asF64 casts) (pointTime point)

def shownTags : List String := sel.tags.filter (· ∈ columns)

def keepGroup (points : List StoredPoint) : List StoredPoint :=
  (if (shownTags sel columns).isEmpty then ranked (shownRank casts sel) points
    else retainFirst (fun point => (shownTags sel columns).map point) []
      (ranked (shownRank casts sel) points)).take sel.n.toNat

def keepPoints (points : List StoredPoint) : List StoredPoint :=
  (groups pointBucket points).flatMap fun group => keepGroup casts sel columns group.2

end Selection

variable {shuffle : Int64 → UInt64} {points : List StoredPoint}

section Rows

variable {casts : FloatCasts} {sel : MultiSelector}
  {columns : List String} {bucket tns value : Nat}

theorem columnIdx_eq_none_iff : columnIdx columns name = none ↔ name ∉ columns := by
  constructor
  · intro none member
    obtain ⟨idx, found⟩ := exists_columnIdx member
    rw [none] at found
    cases found
  · intro absent
    cases found : columnIdx columns name with
    | none => rfl
    | some idx => exact absurd (mem_of_getElem? (getElem?_of_columnIdx found)) absent

theorem map_tagCols (tags columns : List String) (point : StoredPoint) :
    ((tags.filterMap (columnIdx columns)).map fun idx =>
      ((columns.map point)[idx]?).getD null) = (tags.filter (· ∈ columns)).map point := by
  induction tags with
  | nil => rfl
  | cons tag tags ih =>
    cases found : columnIdx columns tag with
    | none =>
      rw [filterMap_cons_none found,
        filter_cons_of_neg (by simpa using columnIdx_eq_none_iff.mp found), ih]
    | some idx =>
      have member := mem_of_getElem? (getElem?_of_columnIdx found)
      rw [filterMap_cons_some found, filter_cons_of_pos (by simpa using member),
        map_cons, map_cons, ih, cell_of_columnIdx found, Option.getD_some]

theorem isEmpty_tagCols (tags columns : List String) :
    (tags.filterMap (columnIdx columns)).isEmpty = (tags.filter (· ∈ columns)).isEmpty := by
  have lengths := congrArg length (map_tagCols tags columns fun _ => .null)
  rw [length_map, length_map] at lengths
  rw [Bool.eq_iff_iff, isEmpty_iff_length_eq_zero, isEmpty_iff_length_eq_zero, lengths]

theorem cellInt_map (found : columnIdx columns name = some idx) (point : StoredPoint) :
    cellInt idx (columns.map point) = (point name).asI64.getD 0 := by
  rw [cellInt, cell_of_columnIdx found, Option.bind_some]

theorem cellNum_map (found : columnIdx columns name = some idx) (point : StoredPoint) :
    cellNum casts idx (columns.map point) = (point name).asF64 casts := by
  rw [cellNum, cell_of_columnIdx found, Option.bind_some]

theorem rerankGroup_map (selects : sel.kind ≠ .sample)
    (timeFound : columnIdx columns timeNsCol = some tns)
    (valueFound : columnIdx columns sel.output = some value) (points : List StoredPoint) :
    rerankGroup casts shuffle sel value tns (sel.tags.filterMap (columnIdx columns))
        (points.map fun point => columns.map point) =
      (keepGroup casts sel columns points).map fun point => columns.map point := by
  have rankEq : (fun point : StoredPoint => rankKey sel.kind
      (cellNum casts value (columns.map point)) (cellInt tns (columns.map point))) =
      shownRank casts sel := by
    funext point
    rw [cellNum_map valueFound, cellInt_map timeFound]
    rfl
  have unfolded : rerankGroup casts shuffle sel value tns
      (sel.tags.filterMap (columnIdx columns)) (points.map fun point => columns.map point) =
      (if (shownTags sel columns).isEmpty then
        ranked (fun row => rankKey sel.kind (cellNum casts value row) (cellInt tns row))
          (points.map fun point => columns.map point)
      else retainFirst (fun row => (sel.tags.filterMap (columnIdx columns)).map fun idx =>
          (row[idx]?).getD null) []
        (ranked (fun row => rankKey sel.kind (cellNum casts value row) (cellInt tns row))
          (points.map fun point => columns.map point))).take sel.n.toNat := by
    unfold rerankGroup
    rw [isEmpty_tagCols]
    cases kind : sel.kind with
    | top | bottom => rfl
    | sample => exact absurd kind selects
  rw [unfolded, ranked_map, rankEq, keepGroup]
  split
  · rw [map_take]
  · rw [retainFirst_map, map_take]
    simp only [map_tagCols, shownTags]

variable {series : SeriesResult}

theorem rerankSeries_map (selects : sel.kind ≠ .sample) (stmt : SelectStatement)
    (hasBucket : bucketCol ∈ columns) (hasTime : timeNsCol ∈ columns)
    (hasValue : sel.output ∈ columns) (columnsEq : series.columns = columns)
    (rowsEq : series.values = points.map fun point => columns.map point) :
    rerankSeries casts shuffle sel stmt series =
      let kept := pageRows stmt.limit stmt.offset
        (ranked (fun point => timeKey (stmt.orderBy.any (·.timeDesc)) (pointTime point))
          (keepPoints casts sel columns points))
      if kept.isEmpty then none
      else some { series with values := kept.map fun point => columns.map point } := by
  obtain ⟨bucket, bucketFound⟩ := exists_columnIdx hasBucket
  obtain ⟨tns, timeFound⟩ := exists_columnIdx hasTime
  obtain ⟨value, valueFound⟩ := exists_columnIdx hasValue
  have grouped : (groups (cellInt bucket) (points.map fun point => columns.map point)).flatMap
      (fun group => rerankGroup casts shuffle sel value tns
        (sel.tags.filterMap (columnIdx columns)) group.2) =
      (keepPoints casts sel columns points).map fun point => columns.map point := by
    rw [groups_map, flatMap_map, keepPoints, map_flatMap]
    simp only [cellInt_map bucketFound, rerankGroup_map selects timeFound valueFound]
    rfl
  unfold rerankSeries
  rw [columnsEq, bucketFound, timeFound, valueFound, rowsEq]
  dsimp only
  rw [grouped, ranked_map, pageRows_map, isEmpty_map]
  simp only [cellInt_map timeFound]
  rfl

def shownColumns (columns : List String) : List String := columns.filter fun name => !isHidden name

theorem map_fst_filter_zipIdx (columns : List String) (keeps : String → Bool) :
    ((columns.zipIdx.filter fun item => keeps item.1).map Prod.fst) = columns.filter keeps := by
  have projected := filter_map (p := keeps) (f := Prod.fst) (l := columns.zipIdx)
  rw [zipIdx_map_fst] at projected
  exact projected.symm

theorem stripHidden_map (columnsEq : series.columns = columns)
    (rowsEq : series.values = points.map fun point => columns.map point) :
    stripHidden series = { series with
        columns := shownColumns columns
        values := points.map fun point => (shownColumns columns).map point } := by
  have names := map_fst_filter_zipIdx columns fun name => !isHidden name
  have cells : ∀ point : StoredPoint,
      ((columns.zipIdx.filter fun item => !isHidden item.1).map fun item =>
        ((columns.map point)[item.2]?).getD null) = (shownColumns columns).map point := by
    intro point
    rw [shownColumns, ← names, map_map]
    refine map_congr_left fun item member => ?_
    have place := mem_zipIdx_iff_getElem?.mp (mem_of_mem_filter member)
    simp [place]
  unfold stripHidden
  rw [columnsEq, rowsEq]
  dsimp only
  split
  next all =>
    have shown : shownColumns columns = columns := by
      rw [← length_map Prod.fst, names] at all
      exact filter_eq_self.mpr (length_filter_eq_length_iff.mp all)
    cases series
    simp_all
  next =>
    rw [names, map_map]
    simp only [Function.comp_def, cells, shownColumns]

end Rows

/-! ## Series of several parts -/

variable {first : SeriesPart} {rest : List SeriesPart}

theorem foldItems_appendRemapped
    (sameColumns : ∀ part ∈ rest, ∀ column, column ∈ first.columns → column ∈ part.columns) :
    foldItems appendRemapped ((first :: rest).map SeriesPart.toSeries) =
      some { first.toSeries with
        values := ((first :: rest).flatMap SeriesPart.answer).map fun point =>
          first.columns.map point } := by
  induction rest using reverseRecOn with
  | nil => simp [foldItems, appendRemapped, SeriesPart.toSeries]
  | append_singleton rest last ih =>
    have earlier := ih fun part member => sameColumns part (mem_append_left _ member)
    rw [← cons_append, map_append, map_singleton, foldItems_concat, earlier]
    have remapped : ∀ point : StoredPoint,
        (first.columns.map fun column => ((columnIdx last.columns column).bind fun idx =>
          (last.columns.map point)[idx]?).getD null) = first.columns.map point := by
      intro point
      refine map_congr_left fun column member => ?_
      obtain ⟨idx, found⟩ := exists_columnIdx (sameColumns last (by simp) column member)
      rw [found, Option.bind_some, cell_of_columnIdx found, Option.getD_some]
    simp only [appendRemapped, SeriesPart.toSeries, map_map, Function.comp_def, remapped]
    simp

/-! ## Regions that answer -/

def pointsOf (parts : List SeriesPart) (key : String × List (String × String)) : List StoredPoint :=
  (parts.filter fun part => part.key = key).flatMap SeriesPart.points

/-- The regions hold points of the series, whose values and times are distinct, and answer
with their own best points. -/
structure RegionsAnswer (sel : MultiSelector) (exact : JsonValue → ℚ) (parts : List SeriesPart) :
    Prop where
  answered : ∀ part ∈ parts, part.answer.Perm (selectPoints sel exact part.points)
  hasColumns : ∀ part ∈ parts,
    bucketCol ∈ part.columns ∧ timeNsCol ∈ part.columns ∧ sel.output ∈ part.columns
  sameColumns : ∀ part ∈ parts, ∀ other ∈ parts, part.key = other.key →
    ∀ column, column ∈ part.columns ↔ column ∈ other.columns
  /-- A tag without a column is a tag of the series. -/
  seriesTags : ∀ tag ∈ sel.tags, ∀ part ∈ parts, tag ∉ part.columns →
    ∀ point ∈ pointsOf parts part.key, ∀ other ∈ pointsOf parts part.key, point tag = other tag
  distinct : ∀ part ∈ parts, (pointsOf parts part.key).Pairwise fun point other =>
    (exact (point sel.output), pointTime point) ≠ (exact (other sel.output), pointTime other)
  /-- The bucket follows from the time. -/
  bucketOfTime : ∀ part ∈ parts, ∀ point ∈ pointsOf parts part.key,
    ∀ other ∈ pointsOf parts part.key,
      pointTime point = pointTime other → pointBucket point = pointBucket other

variable (casts : FloatCasts)

variable (sel : MultiSelector)

def FloatsOrder (exact : JsonValue → ℚ) (parts : List SeriesPart) : Prop :=
  ∀ part ∈ parts, ∀ point ∈ pointsOf parts part.key, ∀ other ∈ pointsOf parts part.key,
    exact (point sel.output) ≤ exact (other sel.output) ↔
      valueKey ((point sel.output).asF64 casts) ≤ valueKey ((other sel.output).asF64 casts)

def readValue (value : JsonValue) : ℚ := valueKey (value.asF64 casts)

/-- Numbers as they are read are always in order: only values that reading a float does not
keep apart can be out of order. -/
theorem floatsOrder_readValue (parts : List SeriesPart) :
    FloatsOrder casts sel (readValue casts) parts :=
  fun _ _ _ _ _ _ => Int.cast_le

def seriesRows (result : List SeriesResult) (key : String × List (String × String)) :
    List (List String × List (List JsonValue)) :=
  (result.filter fun series => (series.name, series.tagPairs) = key).map fun series =>
    (series.columns, series.values)

/-- The rows that a series should have: none, or a series with the rows of the points. -/
def expectedRows (columns : List String) (points : List StoredPoint) :
    List (List String × List (List JsonValue)) :=
  if points.isEmpty then []
  else [(shownColumns columns, points.map fun point => (shownColumns columns).map point)]

theorem stripHidden_key (series : SeriesResult) :
    ((stripHidden series).name, (stripHidden series).tagPairs) = (series.name, series.tagPairs) := by
  unfold stripHidden
  dsimp only
  split <;> rfl

theorem rerankSeries_key {casts : FloatCasts} {sel : MultiSelector}
    {stmt : SelectStatement} {after : SeriesResult}
    (reranked : rerankSeries casts shuffle sel stmt series = some after) :
    (after.name, after.tagPairs) = (series.name, series.tagPairs) := by
  unfold rerankSeries at reranked
  split at reranked
  · dsimp only at reranked
    split at reranked
    · cases reranked
    · obtain rfl := Option.some.inj reranked
      rfl
  · obtain rfl := Option.some.inj reranked
    rfl

/-- The points that the coordinator shows of a series. -/
def shownPoints (stmt : SelectStatement) (columns : List String) (points : List StoredPoint) :
    List StoredPoint :=
  pageRows stmt.limit stmt.offset
    (ranked (fun point => timeKey (stmt.orderBy.any (·.timeDesc)) (pointTime point))
      (keepPoints casts sel columns points))

variable {exact : JsonValue → ℚ}

theorem seriesRows_rerank {casts : FloatCasts} {sel : MultiSelector}
    {parts : List SeriesPart} (selects : sel.kind ≠ .sample)
    (setting : RegionsAnswer sel exact parts) (stmt : SelectStatement)
    (own : (parts.filter fun part => part.key = first.key) = first :: rest) :
    seriesRows (rerank casts shuffle sel stmt (parts.map SeriesPart.toSeries)) first.key =
      expectedRows first.columns (shownPoints casts sel stmt first.columns
        ((first :: rest).flatMap SeriesPart.answer)) := by
  have member : ∀ part ∈ first :: rest, part ∈ parts ∧ part.key = first.key := by
    intro part isPart
    rw [← own] at isPart
    simpa using isPart
  have firstMember := (member first mem_cons_self).1
  have ownSeries : (parts.map SeriesPart.toSeries).filter
      (fun series => (series.name, series.tagPairs) = first.key) =
      (first :: rest).map SeriesPart.toSeries := by
    rw [filter_map, ← own]
    rfl
  have folded := foldItems_appendRemapped fun part isPart column inFirst =>
    (setting.sameColumns first firstMember part (member part (mem_cons_of_mem _ isPart)).1
      (member part (mem_cons_of_mem _ isPart)).2.symm column).mp inFirst
  have columns := setting.hasColumns first firstMember
  have kept := filter_foldl_upsert (fun one : SeriesResult => (one.name, one.tagPairs))
    appendRemapped (fun one => (one.name, one.tagPairs)) (fun _ => rfl) (fun _ _ => rfl)
  rw [seriesRows, rerank, filter_map]
  simp only [Function.comp_def, stripHidden_key]
  rw [filter_filterMap_of_name fun _ _ => rerankSeries_key, kept, ownSeries, folded, Option.toList_some,
    filterMap_eq_flatMap_toList, flatMap_singleton,
    rerankSeries_map selects stmt columns.1 columns.2.1 columns.2.2 rfl rfl, expectedRows]
  change (map _ (map _ (Option.toList (if (shownPoints casts sel stmt first.columns
    ((first :: rest).flatMap SeriesPart.answer)).isEmpty then _ else _)))) = _
  split
  · rfl
  · rw [Option.toList_some, map_singleton, stripHidden_map rfl rfl]
    rfl

/-! ## One bucket -/

theorem selectGroup_subset (exact : JsonValue → ℚ) (points : List StoredPoint) :
    selectGroup sel exact points ⊆ points := by
  unfold selectGroup
  split
  · exact fun point member => (perm_ranked _ _).mem_iff.mp (mem_of_mem_take member)
  · exact best_subset

theorem keepGroup_subset (columns : List String) (points : List StoredPoint) :
    keepGroup casts sel columns points ⊆ points := by
  intro point member
  have kept := mem_of_mem_take member
  split at kept
  · exact (perm_ranked _ _).mem_iff.mp kept
  · exact (perm_ranked _ _).mem_iff.mp ((retainFirst_sublist _ _ _).subset kept)

section Bucket

variable {casts : FloatCasts} {sel : MultiSelector}
  {columns : List String}

theorem ranked_shownRank (ordered : ∀ point ∈ points, ∀ other ∈ points,
      exact (point sel.output) ≤ exact (other sel.output) ↔
        valueKey ((point sel.output).asF64 casts) ≤ valueKey ((other sel.output).asF64 casts)) :
    ranked (shownRank casts sel) points = ranked (exactRank sel exact) points := by
  refine ranked_congr fun point member other otherMember => ?_
  have forward := ordered point member other otherMember
  have backward := ordered other otherMember point member
  unfold shownRank rankKey exactRank
  rw [Prod.Lex.toLex_le_toLex, Prod.Lex.toLex_le_toLex]
  split
  · simp only [lt_iff_le_not_ge, le_antisymm_iff, neg_le_neg_iff, forward, backward]
  · simp only [lt_iff_le_not_ge, le_antisymm_iff, forward, backward]

theorem selectGroup_of_sameTags (hasTags : sel.tags ≠ []) (positive : 1 ≤ sel.n.toNat)
    (sameTags : ∀ point ∈ points, ∀ other ∈ points, sel.tags.map point = sel.tags.map other) :
    selectGroup sel exact points = (ranked (exactRank sel exact) points).take 1 := by
  rw [selectGroup, if_neg (by simpa using hasTags), best]
  have same : ∀ point ∈ ranked (exactRank sel exact) points,
      ∀ other ∈ ranked (exactRank sel exact) points,
        sel.tags.map point = sel.tags.map other := fun point member other otherMember =>
    sameTags point ((perm_ranked _ _).mem_iff.mp member) other
      ((perm_ranked _ _).mem_iff.mp otherMember)
  rw [retainFirst_of_same same, take_take, min_eq_right positive]

theorem length_flatMap_of_singles {α : Type} {choose : List α → List α} {parts : List (List α)}
    (single : ∀ part ∈ parts, (choose part).length = min 1 part.length) :
    (parts.flatMap choose).length = (parts.filter fun part => !part.isEmpty).length := by
  induction parts with
  | nil => rfl
  | cons part parts ih =>
    have here := single part mem_cons_self
    have later := ih fun part isPart => single part (mem_cons_of_mem _ isPart)
    rw [flatMap_cons, length_append, here, later]
    cases part with
    | nil => simp
    | cons => simp; omega

structure BucketAnswer (casts : FloatCasts) (sel : MultiSelector) (exact : JsonValue → ℚ)
    (columns : List String) (parts : List (List StoredPoint)) (candidates : List StoredPoint) :
    Prop where
  returned : candidates.Perm (parts.flatMap (selectGroup sel exact))
  distinct : parts.flatten.Pairwise fun point other =>
    exactRank sel exact point ≠ exactRank sel exact other
  ordered : ∀ point ∈ parts.flatten, ∀ other ∈ parts.flatten,
    exact (point sel.output) ≤ exact (other sel.output) ↔
      valueKey ((point sel.output).asF64 casts) ≤ valueKey ((other sel.output).asF64 casts)
  sameTags : ∀ tag ∈ sel.tags, tag ∉ columns →
    ∀ point ∈ parts.flatten, ∀ other ∈ parts.flatten, point tag = other tag

namespace BucketAnswer

variable {parts : List (List StoredPoint)} {candidates : List StoredPoint}
  (answer : BucketAnswer casts sel exact columns parts candidates)
include answer

theorem subset_flatten : candidates ⊆ parts.flatten := by
  intro point member
  obtain ⟨part, isPart, selected⟩ := mem_flatMap.mp (answer.returned.mem_iff.mp member)
  exact mem_flatten.mpr ⟨part, isPart, selectGroup_subset sel exact part selected⟩

theorem ranked_candidates :
    ranked (shownRank casts sel) candidates = ranked (exactRank sel exact) candidates :=
  ranked_shownRank fun point member other otherMember => answer.ordered point
    (answer.subset_flatten member) other (answer.subset_flatten otherMember)

/-- Ranking the candidates again is ranking all points, where the regions select by rank. -/
theorem take_ranked_candidates {count : Nat} (choose : ∀ part ∈ parts,
      selectGroup sel exact part = (ranked (exactRank sel exact) part).take count) :
    (ranked (exactRank sel exact) candidates).take count =
      (ranked (exactRank sel exact) parts.flatten).take count := by
  have best : ∀ part ∈ parts, selectGroup sel exact part =
      best (exactRank sel exact) (exactRank sel exact) count part := fun part isPart => by
    rw [choose part isPart, take_ranked ((pairwise_flatten.mp answer.distinct).1 part isPart)]
  have returned := answer.returned
  rw [flatMap_congr best] at returned
  have apart := (returned.pairwise_iff Ne.symm).mpr
    (pairwise_flatMap_best (exactRank sel exact) count answer.distinct)
  rw [take_ranked apart, take_ranked answer.distinct,
    best_of_candidates (exactRank sel exact) count answer.distinct returned]

/-- Without tag arguments, or with shown ones, ranking the regions' own selections again is
ranking all points. -/
theorem keepGroup_eq_selectGroup (shown : sel.tags = [] ∨ shownTags sel columns ≠ []) :
    keepGroup casts sel columns candidates = selectGroup sel exact parts.flatten := by
  by_cases noTags : sel.tags = []
  · have noShown : shownTags sel columns = [] := by simp [shownTags, noTags]
    have choose : ∀ points, selectGroup sel exact points =
        (ranked (exactRank sel exact) points).take sel.n.toNat := fun points => by
      rw [selectGroup, if_pos (by simpa using noTags)]
    rw [keepGroup, if_pos (by simpa using noShown), answer.ranked_candidates,
      answer.take_ranked_candidates fun part _ => choose part, choose]
  · have someShown : shownTags sel columns ≠ [] := shown.resolve_left noTags
    have choose : selectGroup sel exact = best (exactRank sel exact)
        (fun point => sel.tags.map point) sel.n.toNat := by
      funext part
      rw [selectGroup, if_neg (by simpa using noTags)]
    -- The tags without a column are the same for all points.
    have sameKeys : ∀ point ∈ ranked (exactRank sel exact) candidates,
        ∀ other ∈ ranked (exactRank sel exact) candidates,
          (shownTags sel columns).map point = (shownTags sel columns).map other ↔
            sel.tags.map point = sel.tags.map other := by
      intro point member other otherMember
      have inAll := answer.subset_flatten ((perm_ranked _ _).mem_iff.mp member)
      have otherInAll := answer.subset_flatten ((perm_ranked _ _).mem_iff.mp otherMember)
      rw [map_inj_left, map_inj_left]
      refine ⟨fun agree tag isTag => ?_, fun agree tag isShown =>
        agree tag (mem_of_mem_filter isShown)⟩
      by_cases isColumn : tag ∈ columns
      · exact agree tag (mem_filter.mpr ⟨isTag, by simpa using isColumn⟩)
      · exact answer.sameTags tag isTag isColumn point inAll other otherInAll
    have relabelled : retainFirst (fun point => (shownTags sel columns).map point) []
        (ranked (exactRank sel exact) candidates) =
        retainFirst (fun point => sel.tags.map point) []
          (ranked (exactRank sel exact) candidates) :=
      retainFirst_congr sameKeys fun _ _ => by simp
    have returned := answer.returned
    rw [choose] at returned
    rw [keepGroup, if_neg (by simpa using someShown), answer.ranked_candidates, choose, relabelled]
    exact best_of_candidates (fun point => sel.tags.map point) sel.n.toNat answer.distinct returned

/-- With tag arguments that have no column, the coordinator keeps the best of the regions' best
points, one or more. -/
theorem keepGroup_of_hiddenTags (hasTags : sel.tags ≠ []) (hidden : shownTags sel columns = [])
    (positive : 1 ≤ sel.n.toNat) :
    (keepGroup casts sel columns candidates).take 1 = selectGroup sel exact parts.flatten ∧
      (keepGroup casts sel columns candidates).length =
        min sel.n.toNat (parts.filter fun part => !part.isEmpty).length := by
  have agree : ∀ point ∈ parts.flatten, ∀ other ∈ parts.flatten,
      sel.tags.map point = sel.tags.map other := by
    intro point member other otherMember
    rw [map_inj_left]
    intro tag isTag
    refine answer.sameTags tag isTag (fun isColumn => ?_) point member other otherMember
    have isShown : tag ∈ shownTags sel columns :=
      mem_filter.mpr ⟨isTag, by simpa using isColumn⟩
    rw [hidden] at isShown
    cases isShown
  have one : ∀ part ∈ parts,
      selectGroup sel exact part = (ranked (exactRank sel exact) part).take 1 := by
    intro part isPart
    have inAll : ∀ point ∈ part, point ∈ parts.flatten := fun point member =>
      mem_flatten.mpr ⟨part, isPart, member⟩
    exact selectGroup_of_sameTags hasTags positive fun point member other otherMember =>
      agree point (inAll point member) other (inAll other otherMember)
  have lengths : (parts.flatMap (selectGroup sel exact)).length =
      (parts.filter fun part => !part.isEmpty).length :=
    length_flatMap_of_singles fun part isPart => by
      rw [one part isPart, length_take, (perm_ranked _ _).length_eq]
  rw [keepGroup, if_pos (by simpa using hidden), answer.ranked_candidates]
  constructor
  · rw [take_take, min_eq_left positive, answer.take_ranked_candidates one,
      selectGroup_of_sameTags hasTags positive agree]
  · rw [length_take, (perm_ranked _ _).length_eq, answer.returned.length_eq, lengths]

end BucketAnswer

end Bucket

/-! ## One series -/

structure SeriesAnswer (casts : FloatCasts) (sel : MultiSelector) (exact : JsonValue → ℚ)
    (columns : List String) (parts : List SeriesPart) : Prop where
  answered : ∀ part ∈ parts, part.answer.Perm (selectPoints sel exact part.points)
  sameTags : ∀ tag ∈ sel.tags, tag ∉ columns → ∀ point ∈ parts.flatMap SeriesPart.points,
    ∀ other ∈ parts.flatMap SeriesPart.points, point tag = other tag
  distinct : (parts.flatMap SeriesPart.points).Pairwise fun point other =>
    exactRank sel exact point ≠ exactRank sel exact other
  ordered : ∀ point ∈ parts.flatMap SeriesPart.points,
    ∀ other ∈ parts.flatMap SeriesPart.points,
      exact (point sel.output) ≤ exact (other sel.output) ↔
        valueKey ((point sel.output).asF64 casts) ≤ valueKey ((other sel.output).asF64 casts)
  bucketOfTime : ∀ point ∈ parts.flatMap SeriesPart.points,
    ∀ other ∈ parts.flatMap SeriesPart.points,
      pointTime point = pointTime other → pointBucket point = pointBucket other

variable (parts : List SeriesPart)

variable (bucket : Int64)

def inBucket (points : List StoredPoint) : List StoredPoint :=
  points.filter fun point => pointBucket point = bucket

def bucketParts : List (List StoredPoint) :=
  parts.map fun part => part.points.filter fun point => pointBucket point = bucket

theorem flatten_bucketParts :
    (bucketParts parts bucket).flatten = inBucket bucket (parts.flatMap SeriesPart.points) := by
  rw [bucketParts, inBucket, filter_flatMap, flatMap_def]

def regionsWith : Nat :=
  (parts.filter fun part => part.points.any fun point => pointBucket point = bucket).length

theorem length_filter_bucketParts :
    ((bucketParts parts bucket).filter fun part => !part.isEmpty).length =
      regionsWith parts bucket := by
  rw [bucketParts, filter_map, length_map]
  congr 1
  refine filter_congr fun part _ => ?_
  rw [Bool.eq_iff_iff]
  simp [filter_eq_nil_iff]

namespace SeriesAnswer

variable {casts : FloatCasts} {sel : MultiSelector}
  {columns : List String} {parts : List SeriesPart}

variable (answer : SeriesAnswer casts sel exact columns parts)
include answer

/-- What the regions return for a bucket are their selections from it. -/
theorem returned : (inBucket bucket (parts.flatMap SeriesPart.answer)).Perm
      ((bucketParts parts bucket).flatMap (selectGroup sel exact)) := by
  rw [inBucket, filter_flatMap, bucketParts, flatMap_map]
  refine List.Perm.flatMap_left _ fun part isPart => ?_
  have selected : (selectPoints sel exact part.points).filter
      (fun point => pointBucket point = bucket) = selectGroup sel exact
        (part.points.filter fun point => pointBucket point = bucket) :=
    filter_flatMap_groups (selectGroup_subset sel exact) part.points bucket
  exact ((answer.answered part isPart).filter _).trans (.of_eq selected)

theorem bucketAnswer : BucketAnswer casts sel exact columns (bucketParts parts bucket)
      (inBucket bucket (parts.flatMap SeriesPart.answer)) := by
  have whole : ∀ point ∈ (bucketParts parts bucket).flatten,
      point ∈ parts.flatMap SeriesPart.points := by
    intro point member
    rw [flatten_bucketParts] at member
    exact mem_of_mem_filter member
  refine ⟨answer.returned bucket, ?_, ?_, ?_⟩
  · rw [flatten_bucketParts]
    exact answer.distinct.filter _
  · intro point member other otherMember
    exact answer.ordered point (whole point member) other (whole other otherMember)
  · intro tag isTag hidden point member other otherMember
    exact answer.sameTags tag isTag hidden point (whole point member) other
      (whole other otherMember)

theorem keepGroup_eq (shown : sel.tags = [] ∨ shownTags sel columns ≠ []) (bucket : Int64) :
    keepGroup casts sel columns (inBucket bucket (parts.flatMap SeriesPart.answer)) =
      selectGroup sel exact (inBucket bucket (parts.flatMap SeriesPart.points)) := by
  rw [← flatten_bucketParts]
  exact (answer.bucketAnswer bucket).keepGroup_eq_selectGroup shown

theorem keepGroup_hidden (hasTags : sel.tags ≠ []) (hidden : shownTags sel columns = [])
    (positive : 1 ≤ sel.n.toNat) (bucket : Int64) :
    (keepGroup casts sel columns (inBucket bucket (parts.flatMap SeriesPart.answer))).take 1 =
        selectGroup sel exact (inBucket bucket (parts.flatMap SeriesPart.points)) ∧
      (keepGroup casts sel columns (inBucket bucket (parts.flatMap SeriesPart.answer))).length =
        min sel.n.toNat (regionsWith parts bucket) := by
  rw [← flatten_bucketParts, ← length_filter_bucketParts]
  exact (answer.bucketAnswer bucket).keepGroup_of_hiddenTags hasTags hidden positive

variable {point : StoredPoint}

omit answer in
theorem mem_keepPoints :
    point ∈ keepPoints casts sel columns points ↔
      point ∈ keepGroup casts sel columns (inBucket (pointBucket point) points) :=
  mem_flatMap_groups (keepGroup_subset casts sel columns)

omit answer in
theorem mem_selectPoints :
    point ∈ selectPoints sel exact points ↔
      point ∈ selectGroup sel exact (inBucket (pointBucket point) points) :=
  mem_flatMap_groups (selectGroup_subset sel exact)

omit answer in
theorem selectPoints_subset : selectPoints sel exact points ⊆ points := fun _ member =>
  mem_of_mem_filter (selectGroup_subset sel exact _ (mem_selectPoints.mp member))

omit answer in
theorem pairwise_selectGroup (distinct : points.Pairwise fun point other =>
      exactRank sel exact point ≠ exactRank sel exact other) :
    (selectGroup sel exact points).Pairwise fun point other =>
      exactRank sel exact point < exactRank sel exact other := by
  unfold selectGroup
  split
  · exact (pairwise_ranked distinct).sublist (take_sublist _ _)
  · exact pairwise_best distinct

omit answer in
theorem pairwise_selectPoints (distinct : points.Pairwise fun point other =>
      exactRank sel exact point ≠ exactRank sel exact other) :
    (selectPoints sel exact points).Pairwise fun point other =>
      exactRank sel exact point ≠ exactRank sel exact other := by
  refine pairwise_flatMap_groups (selectGroup_subset sel exact)
    (fun bucket => (pairwise_selectGroup (distinct.filter _)).imp ne_of_lt) ?_
  intro point member other otherMember different sameRank
  have nodup : (points.map (exactRank sel exact)).Nodup := pairwise_map.mpr distinct
  exact different (congrArg pointBucket (inj_on_of_nodup_map nodup member otherMember sameRank))

theorem pairwise_answers : (parts.flatMap SeriesPart.answer).Pairwise fun point other =>
      exactRank sel exact point ≠ exactRank sel exact other := by
  have distinct := answer.distinct
  rw [flatMap_def, pairwise_flatten, forall_mem_map, pairwise_map] at distinct ⊢
  refine ⟨fun part isPart => ?_, ?_⟩
  · rw [(answer.answered part isPart).pairwise_iff Ne.symm]
    exact pairwise_selectPoints (distinct.1 part isPart)
  · refine distinct.2.imp_of_mem fun {part other} isPart isOther apart point member point'
      member' => apart point ?_ point' ?_
    · exact selectPoints_subset ((answer.answered part isPart).mem_iff.mp member)
    · exact selectPoints_subset ((answer.answered other isOther).mem_iff.mp member')

omit answer in
theorem nodup_keepGroup (nodup : points.Nodup) : (keepGroup casts sel columns points).Nodup := by
  have sorted : (ranked (shownRank casts sel) points).Nodup :=
    (perm_ranked _ _).nodup_iff.mpr nodup
  refine List.Nodup.sublist (take_sublist _ _) ?_
  split
  · exact sorted
  · exact sorted.sublist (retainFirst_sublist _ _ _)

omit answer in
theorem timeKey_inj {desc : Bool} {time other : Int64}
    (same : timeKey desc time = timeKey desc other) : time = other := by
  unfold timeKey at same
  apply Int64.toInt_inj.mp
  split at same <;> omega

/-- If the right points stay in each bucket, then they are shown in the right order. -/
theorem shownPoints_eq (kept : ∀ bucket,
      keepGroup casts sel columns (inBucket bucket (parts.flatMap SeriesPart.answer)) =
        selectGroup sel exact (inBucket bucket (parts.flatMap SeriesPart.points)))
    (stmt : SelectStatement) :
    shownPoints casts sel stmt columns (parts.flatMap SeriesPart.answer) =
      expectedPoints sel exact stmt (parts.flatMap SeriesPart.points) := by
  have within : ∀ point ∈ parts.flatMap SeriesPart.answer,
      point ∈ parts.flatMap SeriesPart.points := by
    intro point member
    obtain ⟨part, isPart, inAnswer⟩ := mem_flatMap.mp member
    exact mem_flatMap.mpr ⟨part, isPart,
      selectPoints_subset ((answer.answered part isPart).mem_iff.mp inAnswer)⟩
  have tied : (keepPoints casts sel columns (parts.flatMap SeriesPart.answer)).Pairwise
      fun point other =>
        timeKey (stmt.orderBy.any (·.timeDesc)) (pointTime point) =
            timeKey (stmt.orderBy.any (·.timeDesc)) (pointTime other) →
          exactRank sel exact point < exactRank sel exact other := by
    refine pairwise_flatMap_groups (keepGroup_subset casts sel columns) (fun bucket => ?_) ?_
    · rw [← inBucket, kept]
      refine (pairwise_selectGroup (answer.distinct.filter _)).imp ?_
      exact fun better _ => better
    · intro point member other otherMember different sameTime
      exact absurd (answer.bucketOfTime point (within point member) other (within other otherMember)
        (timeKey_inj sameTime)) different
  unfold shownPoints expectedPoints
  rw [ranked_eq_ranked_lex tied (pairwise_selectPoints answer.distinct) fun point => ?_]
  rw [mem_keepPoints, kept, mem_selectPoints]

/-- Where two regions have points of a bucket, tags without columns let too many through. -/
theorem length_selectPoints_lt (hasTags : sel.tags ≠ []) (hidden : shownTags sel columns = [])
    (several : 2 ≤ sel.n.toNat) {bucket : Int64} (regions : 2 ≤ regionsWith parts bucket) :
    (selectPoints sel exact (parts.flatMap SeriesPart.points)).length <
      (keepPoints casts sel columns (parts.flatMap SeriesPart.answer)).length := by
  have positive : 1 ≤ sel.n.toNat := by omega
  have selected : ∀ point ∈ selectPoints sel exact (parts.flatMap SeriesPart.points),
      point ∈ keepPoints casts sel columns (parts.flatMap SeriesPart.answer) := by
    intro point member
    rw [mem_selectPoints, ← (answer.keepGroup_hidden hasTags hidden positive _).1] at member
    exact mem_keepPoints.mpr (mem_of_mem_take member)
  obtain ⟨first, length⟩ := answer.keepGroup_hidden hasTags hidden positive bucket
  generalize groupEq : keepGroup casts sel columns
    (inBucket bucket (parts.flatMap SeriesPart.answer)) = group at first length
  have nodup : group.Nodup := groupEq ▸ nodup_keepGroup
    ((answer.pairwise_answers.imp fun apart same => apart (congrArg _ same)).filter _)
  obtain ⟨leader, extra, rest, rfl⟩ : ∃ leader extra rest, group = leader :: extra :: rest := by
    match group, length with
    | [], length => simp at length; omega
    | [_], length => simp at length; omega
    | leader :: extra :: rest, _ => exact ⟨leader, extra, rest, rfl⟩
  have inGroup : extra ∈ keepGroup casts sel columns
      (inBucket bucket (parts.flatMap SeriesPart.answer)) := groupEq ▸ by simp
  have ownBucket : pointBucket extra = bucket := by
    simpa using (mem_filter.mp (keepGroup_subset casts sel columns _ inGroup)).2
  have kept : extra ∈ keepPoints casts sel columns (parts.flatMap SeriesPart.answer) := by
    rw [mem_keepPoints, ownBucket]
    exact inGroup
  have surplus : extra ∉ selectPoints sel exact (parts.flatMap SeriesPart.points) := by
    rw [mem_selectPoints, ownBucket, ← first]
    intro isFirst
    obtain rfl : extra = leader := by simpa using isFirst
    simp at nodup
  have whole : (extra :: selectPoints sel exact (parts.flatMap SeriesPart.points)).Nodup :=
    nodup_cons.mpr ⟨surplus, (pairwise_selectPoints answer.distinct).imp fun apart same =>
      apart (congrArg _ same)⟩
  exact (whole.subperm (cons_subset.mpr ⟨kept, selected⟩)).length_le

end SeriesAnswer

/-! ## All series -/

/-- Where the tags of a selector cannot be told from the rows and several points may stay, no
bucket of the series has points in two regions. -/
def TagsCount (part : SeriesPart) : Prop :=
  sel.tags = [] ∨ (∃ tag ∈ sel.tags, tag ∈ part.columns) ∨ sel.n = 1 ∨
    ∀ bucket, regionsWith (parts.filter fun other => other.key = part.key) bucket ≤ 1

theorem length_eq_of_expectedRows {columns others : List String} {shown : List StoredPoint}
    (same : expectedRows columns points = expectedRows others shown) :
    points.length = shown.length := by
  unfold expectedRows at same
  split at same <;> split at same
  next none none' => simp_all
  next => cases same
  next => cases same
  next =>
    have rows := congrArg (fun rows => rows.map fun pair => pair.2.length) same
    simpa using rows

theorem exactRank_inj {sel : MultiSelector} {other : StoredPoint}
    (same : exactRank sel exact point = exactRank sel exact other) :
    (exact (point sel.output), pointTime point) = (exact (other sel.output), pointTime other) := by
  have values := congrArg (fun rank => (ofLex rank).1) same
  have times := congrArg (fun rank => (ofLex rank).2) same
  simp only [exactRank] at values times
  rw [Int64.toInt_inj.mp times, Prod.mk.injEq]
  refine ⟨?_, rfl⟩
  split at values
  · exact neg_inj.mp values
  · exact values

variable {part : SeriesPart}

theorem RegionsAnswer.seriesAnswer {casts : FloatCasts} {sel : MultiSelector}
    {parts : List SeriesPart} (setting : RegionsAnswer sel exact parts)
    (ordered : FloatsOrder casts sel exact parts) (isPart : part ∈ parts) :
    SeriesAnswer casts sel exact part.columns (parts.filter fun other => other.key = part.key) where
  answered other isOther := setting.answered other (mem_of_mem_filter isOther)
  sameTags tag isTag hidden := setting.seriesTags tag isTag part isPart hidden
  distinct := (setting.distinct part isPart).imp fun apart same => apart (exactRank_inj same)
  ordered := ordered part isPart
  bucketOfTime := setting.bucketOfTime part isPart

theorem exists_filter_eq_cons {parts : List SeriesPart}
    (isPart : part ∈ parts) :
    ∃ first rest, (parts.filter fun other => other.key = first.key) = first :: rest ∧
      first ∈ parts ∧ first.key = part.key := by
  obtain ⟨first, rest, shape⟩ := exists_cons_of_ne_nil (ne_nil_of_mem
    (mem_filter.mpr ⟨isPart, by simp⟩ : part ∈ parts.filter fun other => other.key = part.key))
  have member : first ∈ parts.filter fun other => other.key = part.key := by
    rw [shape]
    exact mem_cons_self
  have sameKey : first.key = part.key := by simpa using (mem_filter.mp member).2
  exact ⟨first, rest, by rw [sameKey]; exact shape, mem_of_mem_filter member, sameKey⟩

/-- Casts that keep the order of small numbers. -/
def smallCasts : FloatCasts := ⟨fun _ => 0, id, fun _ => 0⟩

def topByHost (n : UInt64) : MultiSelector := ⟨.top, "top", "v", ["host"], n⟩

def hostPoint (time value : UInt64) : StoredPoint := fun column =>
  if column = "host" then .string "a"
  else if column = bucketCol then .ofUInt64 0
  else if column = "top" then .ofUInt64 value
  else .ofUInt64 time

def hostPart (time value : UInt64) : SeriesPart where
  name := "cpu"
  tags := some (Std.ExtTreeMap.ofList [("host", "a")])
  columns := ["time", "top", bucketCol, timeNsCol]
  points := [hostPoint time value]
  answer := [hostPoint time value]

def hostParts : List SeriesPart := [hostPart 1 7, hostPart 2 5]

theorem pointsOf_hostParts : ∀ part ∈ hostParts,
    pointsOf hostParts part.key = [hostPoint 1 7, hostPoint 2 5] := by
  simp [hostParts, pointsOf, SeriesPart.key, SeriesResult.tagPairs, hostPart, SeriesPart.toSeries]

theorem hostParts_answer (n : UInt64) (positive : 1 ≤ n) :
    RegionsAnswer (topByHost n) (readValue smallCasts) hostParts where
  answered part isPart := by
    have single : ∀ point : StoredPoint,
        selectPoints (topByHost n) (readValue smallCasts) [point] = [point].take n.toNat ++ [] :=
      fun _ => rfl
    have whole : n.toNat = n.toNat - 1 + 1 := by
      have := UInt64.le_iff_toNat_le.mp positive
      simp at this
      omega
    simp only [hostParts, mem_cons, not_mem_nil, or_false] at isPart
    obtain rfl | rfl := isPart <;> simp only [hostPart] <;> rw [single, whole] <;> simp
  hasColumns part isPart := by
    simp only [hostParts, mem_cons, not_mem_nil, or_false] at isPart
    obtain rfl | rfl := isPart <;>
      exact ⟨by decide, by decide, mem_cons_of_mem _ mem_cons_self⟩
  sameColumns part isPart other isOther _ column := by
    simp only [hostParts, mem_cons, not_mem_nil, or_false] at isPart isOther
    obtain rfl | rfl := isPart <;> obtain rfl | rfl := isOther <;> rfl
  seriesTags tag isTag part isPart _ := by
    rw [pointsOf_hostParts part isPart, mem_singleton.mp isTag]
    simp [hostPoint]
  distinct part isPart := by
    rw [pointsOf_hostParts part isPart]
    change List.Pairwise (fun point other : StoredPoint =>
      (readValue smallCasts (point "top"), pointTime point) ≠
        (readValue smallCasts (other "top"), pointTime other)) _
    decide +kernel
  bucketOfTime part isPart := by
    rw [pointsOf_hostParts part isPart]
    simp [pointBucket, hostPoint]

end HyperbyteDb
