import HyperbyteDb.KeyedFolds
import HyperbyteDb.VersionedRows
import Mathlib.Data.Fintype.Card

/-!
# Points and the coalescing of partial rows

Several written points may share a series instant, that is, a timestamp and a tag set, and
carry different fields.  Before an insert they are merged into one point.
-/

namespace HyperbyteDb

open List Std VersionedRows

inductive FieldValue where
  | float (bits : UInt64)
  | integer (value : Int64)
  | uinteger (value : UInt64)
  | string (value : String)
  | boolean (value : Bool)
deriving DecidableEq, Repr, Inhabited

structure Point where
  measurement : String
  tags : ExtTreeMap String String
  fields : ExtTreeMap String FieldValue
  timestamp : Int64
deriving DecidableEq

namespace Point

def sameSeriesInstant (first second : Point) : Bool :=
  first.timestamp == second.timestamp && first.tags == second.tags

/-- `row` stands for `point`: the same series instant of the same measurement, with
a value under every field that `point` carries.  The value itself may come from a
later write of the field. -/
structure Absorbs (row point : Point) : Prop where
  measurement : row.measurement = point.measurement
  tags : row.tags = point.tags
  timestamp : row.timestamp = point.timestamp
  fields : ∀ name ∈ point.fields, name ∈ row.fields

theorem Absorbs.refl (point : Point) : point.Absorbs point :=
  ⟨rfl, rfl, rfl, fun _ member => member⟩

theorem sameSeriesInstant_iff {first second : Point} :
    first.sameSeriesInstant second ↔
      first.timestamp = second.timestamp ∧ first.tags = second.tags := by
  simp [sameSeriesInstant]

end Point

/-- The indices of one series instant, in input order. -/
structure PointGroup (count : Nat) where
  first : Fin count
  rest : List (Fin count)

variable {count : Nat}

namespace PointGroup

variable (group : PointGroup count)

def members : List (Fin count) :=
  group.first :: group.rest

def push (index : Fin count) : PointGroup count :=
  { group with rest := group.rest ++ [index] }

def last : Fin count :=
  group.rest.getLast?.getD group.first

end PointGroup

/-- The groups found so far, and for each hash the positions of its groups. -/
structure CoalescePlan (count : Nat) where
  groups : List (PointGroup count) := []
  buckets : ExtTreeMap UInt64 (List Nat) := ∅

section Planning

variable (seriesInstantHash : Point → UInt64) (points : Fin count → Point)

def CoalescePlan.collects (plan : CoalescePlan count) (point : Point)
    (position : Nat) : Bool :=
  match plan.groups[position]? with
  | some group => (points group.first).sameSeriesInstant point
  | none => false

def CoalescePlan.add (plan : CoalescePlan count) (index : Fin count) :
    CoalescePlan count :=
  let point := points index
  let hash := seriesInstantHash point
  let bucket := plan.buckets[hash]?.getD []
  match bucket.find? (plan.collects points point) with
  | some position => { plan with groups := plan.groups.modify position (·.push index) }
  | none =>
    { groups := plan.groups ++ [⟨index, []⟩]
      buckets := plan.buckets.insert hash (bucket ++ [plan.groups.length]) }

def coalescePlanIndexed (idxs : List (Fin count)) : Option (List (PointGroup count)) :=
  let groups := (idxs.foldl (CoalescePlan.add seriesInstantHash points) {}).groups
  if groups.length = idxs.length then none else some groups

def coalescePlan : Option (List (PointGroup count)) :=
  coalescePlanIndexed seriesInstantHash points (finRange count)

/-- The union of the group's fields, where the last write of a field wins. -/
def mergePointGroup (group : PointGroup count) : Point :=
  group.rest.foldl
    (fun base index =>
      { base with fields := base.fields.insertMany (points index).fields.toList })
    (points group.first)

end Planning

/-- The rows after merging, or `none` when no two share a series instant.  A row is a
point with its origin node; a merged row has the origin of its last contributor. -/
def coalescePointsAndOrigins (seriesInstantHash : Point → UInt64)
    (rows : List (Point × UInt64)) : Option (List (Point × UInt64)) :=
  let points := fun index => (rows.get index).1
  (coalescePlan seriesInstantHash points).map fun groups =>
    groups.map fun group => (mergePointGroup points group, (rows.get group.last).2)

section Coverage

variable {seriesInstantHash : Point → UInt64} {points : Fin count → Point}
  {group : PointGroup count} {groups : List (PointGroup count)}

/-- What two points of a group agree on. -/
def instantKey (seriesInstantHash : Point → UInt64) (point : Point) :
    UInt64 × Int64 × ExtTreeMap String String :=
  (seriesInstantHash point, point.timestamp, point.tags)

def PointGroup.entry (seriesInstantHash : Point → UInt64) (points : Fin count → Point)
    (group : PointGroup count) :
    (UInt64 × Int64 × ExtTreeMap String String) × List (Fin count) :=
  (instantKey seriesInstantHash (points group.first), group.members)

variable {index : Fin count}

namespace CoalescePlan

structure Grouped (seriesInstantHash : Point → UInt64) (points : Fin count → Point)
    (plan : CoalescePlan count) (added : List (Fin count)) : Prop where
  entries : plan.groups.map (·.entry seriesInstantHash points) =
    KeyedFolds.groups (fun index => instantKey seriesInstantHash (points index)) added
  mem_bucket : ∀ hash place, place ∈ plan.buckets[hash]?.getD [] ↔
    plan.groups[place]?.map (seriesInstantHash <| points ·.first) = some hash

variable {plan : CoalescePlan count} {added : List (Fin count)}

theorem Grouped.join (grouped : plan.Grouped seriesInstantHash points added)
    {position : Nat}
    (found : (plan.buckets[seriesInstantHash (points index)]?.getD []).find?
      (plan.collects points (points index)) = some position) :
    Grouped seriesInstantHash points
      { plan with groups := plan.groups.modify position (·.push index) } (added ++ [index]) := by
  have collected := find?_some found
  have inBucket := (grouped.mem_bucket _ _).mp (mem_of_find?_eq_some found)
  obtain ⟨group, isGroup, sameHash⟩ := Option.map_eq_some_iff.mp inBucket
  rw [collects, isGroup, Point.sameSeriesInstant_iff] at collected
  constructor
  · have distinct := KeyedFolds.nodup_keys_groups
      (fun index => instantKey seriesInstantHash (points index)) added
    rw [← grouped.entries] at distinct
    have atPosition : (plan.groups.map (·.entry seriesInstantHash points))[position]? =
        some (instantKey seriesInstantHash (points index), group.members) := by
      rw [getElem?_map, isGroup, Option.map_some, PointGroup.entry, instantKey, sameHash,
        collected.1, collected.2, instantKey]
    rw [KeyedFolds.groups_concat, ← grouped.entries,
      KeyedFolds.upsert_of_getElem? _ distinct atPosition]
    refine ext_getElem? fun place => ?_
    rw [getElem?_map, getElem?_modify, getElem?_modify, getElem?_map]
    cases plan.groups[place]? <;> by_cases here : position = place <;>
      simp [here, PointGroup.entry, PointGroup.members, PointGroup.push]
  · intro hash place
    rw [grouped.mem_bucket, getElem?_modify]
    cases plan.groups[place]? <;> by_cases here : position = place <;>
      simp [here, PointGroup.push]

theorem Grouped.start (grouped : plan.Grouped seriesInstantHash points added)
    {hash : UInt64} (isHash : hash = seriesInstantHash (points index))
    (missed : (plan.buckets[hash]?.getD []).find? (plan.collects points (points index)) = none) :
    Grouped seriesInstantHash points
      { groups := plan.groups ++ [⟨index, []⟩]
        buckets := plan.buckets.insert hash
          (plan.buckets[hash]?.getD [] ++ [plan.groups.length]) } (added ++ [index]) := by
  constructor
  · rw [KeyedFolds.groups_concat, ← grouped.entries, KeyedFolds.upsert_of_not_mem]
    · simp [PointGroup.entry, PointGroup.members]
    · simp only [mem_map, not_exists, not_and]
      rintro _ ⟨group, member, rfl⟩ same
      simp only [PointGroup.entry, instantKey, Prod.mk.injEq, ← isHash] at same
      obtain ⟨place, isGroup⟩ := mem_iff_getElem?.mp member
      refine find?_eq_none.mp missed place ((grouped.mem_bucket hash place).mpr ?_) ?_
      · rw [isGroup, Option.map_some, same.1]
      · rw [collects, isGroup, Point.sameSeriesInstant_iff]
        exact same.2
  · intro probe place
    have inBucket : place ∈ (if hash = probe then
          some (plan.buckets[hash]?.getD [] ++ [plan.groups.length])
          else plan.buckets[probe]?).getD [] ↔
        place ∈ plan.buckets[probe]?.getD [] ∨ hash = probe ∧ place = plan.groups.length := by
      split
      next same => simp [same]
      next differs => simp [differs]
    simp only [ExtTreeMap.getElem?_insert, Std.compare_eq_iff_eq, inBucket, grouped.mem_bucket]
    rcases Nat.lt_trichotomy place plan.groups.length with inside | rfl | outside
    · simp [getElem?_append_left inside, inside.ne]
    · simp [isHash]
    · rw [getElem?_eq_none outside.le, getElem?_eq_none (by simp; omega)]
      simp [outside.ne']

theorem grouped_foldl (seriesInstantHash : Point → UInt64) (points : Fin count → Point)
    (idxs : List (Fin count)) :
    (idxs.foldl (CoalescePlan.add seriesInstantHash points) {}).Grouped seriesInstantHash points
      idxs := by
  induction idxs using reverseRecOn with
  | nil => exact ⟨rfl, by simp⟩
  | append_singleton idxs index ih =>
    rw [foldl_append, foldl_cons]
    fun_cases CoalescePlan.add with
    | case1 _ _ _ _ found => exact ih.join found
    | case2 _ _ _ missed => exact ih.start rfl missed

theorem Grouped.members (grouped : plan.Grouped seriesInstantHash points added)
    (member : group ∈ plan.groups) :
    group.members = added.filter fun index =>
      instantKey seriesInstantHash (points index) =
        instantKey seriesInstantHash (points group.first) := by
  have entry := mem_map_of_mem (f := (·.entry seriesInstantHash points)) member
  rw [grouped.entries, KeyedFolds.groups_eq, mem_map] at entry
  obtain ⟨key, -, same⟩ := entry
  obtain ⟨rfl, members⟩ := Prod.mk.inj same
  exact members.symm

theorem Grouped.exists_group (grouped : plan.Grouped seriesInstantHash points added)
    (member : index ∈ added) :
    ∃ group ∈ plan.groups, instantKey seriesInstantHash (points index) =
      instantKey seriesInstantHash (points group.first) := by
  have known : instantKey seriesInstantHash (points index) ∈
      (plan.groups.map (·.entry seriesInstantHash points)).map Prod.fst := by
    rw [grouped.entries, KeyedFolds.groups_eq]
    simpa using ⟨index, member, rfl⟩
  simpa [PointGroup.entry, eq_comm] using known

end CoalescePlan

theorem coalescePlan_sound (planned : coalescePlan seriesInstantHash points = some groups)
    (index : Fin count) :
    ∃ group ∈ groups, index ∈ group.members ∧
      ∀ other ∈ group.rest, (points group.first).sameSeriesInstant (points other) := by
  simp only [coalescePlan, coalescePlanIndexed, Option.ite_none_left_eq_some,
    Option.some.injEq] at planned
  obtain ⟨-, rfl⟩ := planned
  have grouped := CoalescePlan.grouped_foldl seriesInstantHash points (finRange count)
  obtain ⟨group, member, same⟩ := grouped.exists_group (mem_finRange index)
  have members := grouped.members member
  refine ⟨group, member, by simp [members, same], fun other inside => ?_⟩
  have inGroup : other ∈ group.members := mem_cons_of_mem _ inside
  rw [members, mem_filter, decide_eq_true_eq] at inGroup
  exact Point.sameSeriesInstant_iff.mpr (Prod.mk.inj (Prod.mk.inj inGroup.2.symm).2)

/-- Folding further members in keeps the identity of the first one and every field
seen so far. -/
theorem foldl_insertFields (points : Fin count → Point) (indices : List (Fin count))
    (base : Point) :
    let merged := indices.foldl (fun base index =>
      { base with fields := base.fields.insertMany (points index).fields.toList }) base
    merged.measurement = base.measurement ∧ merged.tags = base.tags ∧
      merged.timestamp = base.timestamp ∧
      (∀ name ∈ base.fields, name ∈ merged.fields) ∧
      ∀ index ∈ indices, ∀ name ∈ (points index).fields, name ∈ merged.fields := by
  induction indices generalizing base with
  | nil => simp
  | cons index indices ih =>
    obtain ⟨measurement, tags, timestamp, kept, inserted⟩ := ih
      { base with fields := base.fields.insertMany (points index).fields.toList }
    refine ⟨measurement, tags, timestamp, fun name member => ?_, ?_⟩
    · exact kept name (ExtTreeMap.mem_insertMany_list.mpr (Or.inl member))
    · intro other inside name member
      rcases mem_cons.mp inside with rfl | later
      · apply kept name
        simpa [ExtTreeMap.mem_insertMany_list] using Or.inr member
      · exact inserted other later name member

theorem mergePointGroup_absorbs
    (agree : ∀ other ∈ group.rest, (points group.first).sameSeriesInstant (points other))
    (oneMeasurement : ∀ first second, (points first).measurement = (points second).measurement)
    (member : index ∈ group.members) :
    (mergePointGroup points group).Absorbs (points index) := by
  obtain ⟨measurement, tags, timestamp, kept, inserted⟩ :=
    foldl_insertFields points group.rest (points group.first)
  rcases mem_cons.mp member with rfl | later
  · exact ⟨measurement, tags, timestamp, kept⟩
  · have same := Point.sameSeriesInstant_iff.mp (agree index later)
    exact ⟨measurement.trans (oneMeasurement _ _), tags.trans same.2,
      timestamp.trans same.1, inserted index later⟩

end Coverage

theorem coalescePointsAndOrigins_absorbs {seriesInstantHash : Point → UInt64}
    {rows merged : List (Point × UInt64)} {measurement : String}
    (oneMeasurement : ∀ row ∈ rows, row.1.measurement = measurement)
    (coalesced : coalescePointsAndOrigins seriesInstantHash rows = some merged)
    {row : Point × UInt64} (member : row ∈ rows) :
    ∃ out ∈ merged, out.1.Absorbs row.1 := by
  obtain ⟨groups, planned, rfl⟩ := Option.map_eq_some_iff.mp coalesced
  obtain ⟨index, rfl⟩ := get_of_mem member
  obtain ⟨group, groupMember, placed, agree⟩ := coalescePlan_sound planned index
  refine ⟨_, mem_map_of_mem groupMember, ?_⟩
  apply mergePointGroup_absorbs agree _ placed
  intro first second
  rw [oneMeasurement _ (get_mem rows first), oneMeasurement _ (get_mem rows second)]

/-! ## What the coalescing plan groups -/

def RespectsInstant (seriesInstantHash : Point → UInt64) : Prop :=
  ∀ first second : Point, first.sameSeriesInstant second →
    seriesInstantHash first = seriesInstantHash second

namespace Point

theorem sameSeriesInstant_symm {first second : Point}
    (same : first.sameSeriesInstant second) : second.sameSeriesInstant first := by
  rw [sameSeriesInstant_iff] at same ⊢
  exact ⟨same.1.symm, same.2.symm⟩

end Point

section Classes

variable {seriesInstantHash : Point → UInt64} {points : Fin count → Point}

theorem RespectsInstant.instantKey_eq_iff (respects : RespectsInstant seriesInstantHash)
    (first second : Point) :
    instantKey seriesInstantHash first = instantKey seriesInstantHash second ↔
      first.sameSeriesInstant second := by
  constructor
  · intro same
    exact Point.sameSeriesInstant_iff.mpr (Prod.mk.inj (Prod.mk.inj same).2)
  · intro same
    obtain ⟨timestamp, tags⟩ := Point.sameSeriesInstant_iff.mp same
    rw [instantKey, instantKey, respects first second same, timestamp, tags]

structure Classes (points : Fin count → Point) (groups : List (PointGroup count)) : Prop where
  members : ∀ group ∈ groups, group.members = (finRange count).filter fun index =>
    (points group.first).sameSeriesInstant (points index)
  placed : ∀ index, ∃ group ∈ groups, (points group.first).sameSeriesInstant (points index)
  distinct : groups.Pairwise fun group other =>
    ¬(points group.first).sameSeriesInstant (points other.first)
  length_le : groups.length ≤ count

theorem coalescePlan_classes (respects : RespectsInstant seriesInstantHash)
    {groups : List (PointGroup count)}
    (planned : coalescePlan seriesInstantHash points = some groups) :
    Classes points groups := by
  simp only [coalescePlan, coalescePlanIndexed, Option.ite_none_left_eq_some,
    Option.some.injEq] at planned
  obtain ⟨-, rfl⟩ := planned
  have grouped := CoalescePlan.grouped_foldl seriesInstantHash points (finRange count)
  generalize (finRange count).foldl (CoalescePlan.add seriesInstantHash points) {} = plan
    at grouped ⊢
  have distinct : plan.groups.Pairwise fun group other =>
      ¬(points group.first).sameSeriesInstant (points other.first) := by
    have keys := KeyedFolds.nodup_keys_groups
      (fun index => instantKey seriesInstantHash (points index)) (finRange count)
    rw [← grouped.entries, map_map] at keys
    exact (pairwise_map.mp keys).imp fun apart same =>
      apart ((respects.instantKey_eq_iff _ _).mpr same)
  refine ⟨fun group member => ?_, fun index => ?_, distinct, ?_⟩
  · rw [grouped.members member]
    refine filter_congr fun index _ => ?_
    rw [Bool.eq_iff_iff, decide_eq_true_iff, ← respects.instantKey_eq_iff]
    exact eq_comm
  · obtain ⟨group, member, same⟩ := grouped.exists_group (mem_finRange index)
    exact ⟨group, member, (respects.instantKey_eq_iff _ _).mp same.symm⟩
  · have firsts : (plan.groups.map PointGroup.first).Nodup :=
      pairwise_map.mpr (distinct.imp fun apart same =>
        apart (Point.sameSeriesInstant_iff.mpr (by simp [same])))
    simpa using firsts.length_le_card

theorem getElem?_insertFields (base more : ExtTreeMap String FieldValue) (name : String) :
    (base.insertMany more.toList)[name]? = more[name]?.or base[name]? := by
  cases lookup : more[name]? with
  | none =>
    rw [ExtTreeMap.getElem?_insertMany_list_of_contains_eq_false, Option.none_or]
    simpa using lookup
  | some value =>
    have member := ExtTreeMap.mem_toList_iff_getElem?_eq_some.mpr lookup
    rw [ExtTreeMap.getElem?_insertMany_list_of_mem Std.ReflCmp.compare_self
      more.distinct_keys_toList member, Option.some_or]

/-- A merged point holds, under every field, the last value given for it. -/
theorem getElem?_mergePointGroup (points : Fin count → Point) (group : PointGroup count)
    (name : String) :
    (mergePointGroup points group).fields[name]? =
      latest (fun index => (points index).fields[name]?) group.members := by
  have folded : ∀ (rest : List (Fin count)) (base : Point),
      (rest.foldl (fun base index =>
        { base with fields := base.fields.insertMany (points index).fields.toList })
        base).fields[name]? =
      (latest (fun index => (points index).fields[name]?) rest).or base.fields[name]? := by
    intro rest
    induction rest with
    | nil => simp
    | cons index rest ih =>
      intro base
      rw [foldl_cons, ih, latest_cons, getElem?_insertFields, Option.or_assoc]
  rw [mergePointGroup, folded, PointGroup.members, latest_cons]

end Classes

end HyperbyteDb
