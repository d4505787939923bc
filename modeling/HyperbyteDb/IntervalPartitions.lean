import Mathlib.Data.List.Sort

/-!
# Chained half-open intervals

A list of intervals `[start, stop)` spans `[lo, hi)` when the first starts at `lo`, each stops
where the next one starts and the last stops at `hi`.  Empty intervals are allowed.
-/

namespace PartitionedSearch

open List

variable {α : Type*}

variable {items : List α} {pred : α → Bool}

/-- One halving per unit of fuel.  The base moves up to the probed entry
exactly when that entry still satisfies the predicate. -/
def searchBase (pred : α → Bool) (items : List α) : Nat → Nat → Nat → Nat
  | 0, base, _ => base
  | fuel + 1, base, size =>
    if 1 < size then
      let half := size / 2
      let mid := base + half
      searchBase pred items fuel (if items[mid]?.any pred then mid else base) (size - half)
    else
      base

/-- The index of the first entry that fails `pred`, found by binary search. -/
def partitionPoint (pred : α → Bool) (items : List α) : Nat :=
  if items.isEmpty then
    0
  else
    let base := searchBase pred items items.length 0 items.length
    if items[base]?.any pred then base + 1 else base

/-- Exactly the first `count` entries satisfy `pred`. -/
def PartitionedAt (pred : α → Bool) (items : List α) (count : Nat) : Prop :=
  ∀ index, items[index]?.any pred = decide (index < count)

section

variable {count : Nat} (partitioned : PartitionedAt pred items count)
include partitioned

/-- The halving loop keeps the partition point inside its window.  Fuel equal
to the window size always suffices, since every pass shrinks the window. -/
theorem searchBase_window (fuel base size : Nat) (enough : size ≤ fuel) (positive : 0 < size)
    (low : base = 0 ∨ base < count) (high : count ≤ base + size) :
    let final := searchBase pred items fuel base size
    (final = 0 ∨ final < count) ∧ count ≤ final + 1 := by
  induction fuel generalizing base size with
  | zero => omega
  | succ fuel ih =>
    simp only [searchBase]
    by_cases wide : 1 < size
    · rw [if_pos wide]
      have probe := partitioned (base + size / 2)
      by_cases before : base + size / 2 < count
      · rw [probe, decide_eq_true before, if_pos rfl]
        exact ih _ _ (by omega) (by omega) (Or.inr before) (by omega)
      · rw [probe, decide_eq_false before, if_neg Bool.false_ne_true]
        exact ih _ _ (by omega) (by omega) low (by omega)
    · rw [if_neg wide]
      exact ⟨low, by omega⟩

theorem PartitionedAt.count_le_length : count ≤ items.length := by
  by_contra beyond
  have outside := partitioned items.length
  rw [decide_eq_true (by omega)] at outside
  simp at outside

theorem partitionPoint_eq : partitionPoint pred items = count := by
  have countBound := partitioned.count_le_length
  unfold partitionPoint
  cases items with
  | nil =>
    have : count = 0 := by simpa using countBound
    simp [this]
  | cons head tail =>
    have window := searchBase_window partitioned (head :: tail).length 0
      (head :: tail).length (Nat.le_refl _) (by simp) (Or.inl rfl) (by omega)
    simp only [isEmpty_cons, Bool.false_eq_true, if_false]
    generalize searchBase pred (head :: tail) (head :: tail).length 0
      (head :: tail).length = final at window
    rw [partitioned final]
    by_cases before : final < count
    · rw [decide_eq_true before, if_pos rfl]
      omega
    · rw [decide_eq_false before, if_neg Bool.false_ne_true]
      omega

end

/-- A prefix of satisfying entries followed by failing ones is partitioned at
the length of the prefix. -/
theorem partitionedAt_append {front back : List α} (satisfied : ∀ item ∈ front, pred item = true)
    (failed : ∀ item ∈ back, pred item = false) :
    PartitionedAt pred (front ++ back) front.length := by
  intro index
  by_cases inFront : index < front.length
  · rw [getElem?_append_left inFront, getElem?_eq_getElem inFront,
      decide_eq_true inFront]
    exact satisfied _ (getElem_mem inFront)
  · rw [getElem?_append_right (by omega), decide_eq_false inFront]
    cases found : back[index - front.length]? with
    | none => rfl
    | some item => exact failed item (mem_of_getElem? found)

/-- Searching a mapped list is searching the list for the mapped predicate. -/
theorem partitionPoint_map {β : Type*} (pred : β → Bool) (change : α → β) (items : List α) :
    partitionPoint pred (items.map change) =
      partitionPoint (fun item => pred (change item)) items := by
  have probe : ∀ index : Nat, (items.map change)[index]?.any pred =
      items[index]?.any fun item => pred (change item) := by
    intro index
    rw [getElem?_map, Option.any_map]
  have search : ∀ fuel base size, searchBase pred (items.map change) fuel base size =
      searchBase (fun item => pred (change item)) items fuel base size := by
    intro fuel
    induction fuel with
    | zero => exact fun _ _ => rfl
    | succ fuel ih =>
      intro base size
      simp only [searchBase, probe, ih]
  unfold partitionPoint
  simp only [isEmpty_map, length_map, search, probe]

end PartitionedSearch

namespace IntervalPartitions

open List

variable {ρ α : Type*} [LinearOrder α] {start stop : ρ → α}

variable {lo hi : α} {items : List ρ}

/-- `items` covers `[lo, hi)` from left to right without gap or overlap. -/
def Spans (start stop : ρ → α) : α → α → List ρ → Prop
  | lo, hi, [] => lo = hi
  | lo, hi, item :: items =>
    start item = lo ∧ lo ≤ stop item ∧ Spans start stop (stop item) hi items

def Holds (start stop : ρ → α) (point : α) (item : ρ) : Prop :=
  start item ≤ point ∧ point < stop item

variable (spans : Spans start stop lo hi items)
include spans

theorem Spans.le : lo ≤ hi := by
  induction items generalizing lo with
  | nil => exact le_of_eq spans
  | cons item items ih => exact spans.2.1.trans (ih spans.2.2)

theorem Spans.bounds {item : ρ} (member : item ∈ items) :
    lo ≤ start item ∧ start item ≤ stop item ∧ stop item ≤ hi := by
  induction items generalizing lo with
  | nil => simp at member
  | cons first items ih =>
    obtain ⟨startEq, ordered, rest⟩ := spans
    rcases mem_cons.mp member with rfl | later
    · exact ⟨le_of_eq startEq.symm, startEq.trans_le ordered, rest.le⟩
    · obtain ⟨low, middle, high⟩ := ih rest later
      exact ⟨ordered.trans low, middle, high⟩

theorem Spans.ascending : items.Pairwise fun first second => start first ≤ start second := by
  induction items generalizing lo with
  | nil => exact List.Pairwise.nil
  | cons first items ih =>
    obtain ⟨startEq, ordered, rest⟩ := spans
    refine pairwise_cons.mpr ⟨fun later laterMem => ?_, ih rest⟩
    rw [startEq]
    exact ordered.trans (rest.bounds laterMem).1

omit spans in
/-- The spanning relation only reads the end points of the intervals. -/
theorem Spans.congr {first second : List ρ}
    (endPoints : first.map (fun item => (start item, stop item)) =
      second.map fun item => (start item, stop item))
    (spans : Spans start stop lo hi first) : Spans start stop lo hi second := by
  induction first generalizing lo second with
  | nil =>
    have empty : second = [] := by simpa using endPoints.symm
    rw [empty]
    exact spans
  | cons item items ih =>
    cases second with
    | nil => simp at endPoints
    | cons other others =>
      simp only [map_cons, cons.injEq, Prod.mk.injEq] at endPoints
      obtain ⟨⟨startEq, stopEq⟩, restEq⟩ := endPoints
      obtain ⟨atLow, ordered, rest⟩ := spans
      refine ⟨startEq ▸ atLow, stopEq ▸ ordered, ?_⟩
      rw [← stopEq]
      exact ih restEq rest

omit spans in
theorem spans_of_ascending (nonempty : items ≠ [])
    (ascending : items.Pairwise fun first second => start first ≤ start second)
    (below : ∀ item ∈ items, start item ≤ hi) (starts : ∀ item ∈ items.head?, start item = lo)
    (meet : items.IsChain fun first second => stop first = start second)
    (ends : ∀ item ∈ items.getLast?, stop item = hi) : Spans start stop lo hi items := by
  induction items generalizing lo with
  | nil => exact absurd rfl nonempty
  | cons first items ih =>
    have startEq : start first = lo := starts first (by simp)
    cases items with
    | nil =>
      have stopEq : stop first = hi := ends first (by simp)
      refine ⟨startEq, ?_, stopEq⟩
      rw [stopEq, ← startEq]
      exact below first (by simp)
    | cons second items =>
      rw [isChain_cons_cons] at meet
      rw [pairwise_cons] at ascending
      refine ⟨startEq, ?_, ?_⟩
      · rw [meet.1, ← startEq]
        exact ascending.1 second (by simp)
      · apply ih (by simp) ascending.2
          (fun item itemMem => below item (mem_cons_of_mem _ itemMem))
          _ meet.2
          (fun item itemMem => ends item (by simpa using itemMem))
        intro item itemMem
        obtain rfl : second = item := by simpa using itemMem
        exact meet.1.symm

theorem Spans.meet : items.IsChain fun first second => stop first = start second := by
  induction items generalizing lo with
  | nil => exact List.IsChain.nil
  | cons first items ih =>
    cases items with
    | nil => exact List.IsChain.singleton first
    | cons second items =>
      exact isChain_cons_cons.mpr ⟨spans.2.2.1.symm, ih spans.2.2⟩

theorem Spans.starts : ∀ item ∈ items.head?, start item = lo := by
  cases items with
  | nil => simp
  | cons first items =>
    intro item itemMem
    obtain rfl : first = item := by simpa using itemMem
    exact spans.1

theorem Spans.ends : ∀ item ∈ items.getLast?, stop item = hi := by
  induction items generalizing lo with
  | nil => simp
  | cons first items ih =>
    cases items with
    | nil =>
      intro item itemMem
      obtain rfl : first = item := by simpa using itemMem
      exact spans.2.2
    | cons second items =>
      intro item itemMem
      exact ih spans.2.2 item (by simpa using itemMem)

/-- Every covered point splits the list at the one interval that holds it:
earlier intervals stop at or below the point, later ones start above it. -/
theorem Spans.split_at {point : α} (low : lo ≤ point) (high : point < hi) :
    ∃ front item back, items = front ++ item :: back ∧
      Holds start stop point item ∧
      (∀ earlier ∈ front, start earlier ≤ point ∧ stop earlier ≤ point) ∧
      ∀ later ∈ back, point < start later := by
  induction items generalizing lo with
  | nil => exact absurd (spans ▸ low) (not_le_of_gt high)
  | cons first items ih =>
    obtain ⟨startEq, ordered, rest⟩ := spans
    by_cases inFirst : point < stop first
    · refine ⟨[], first, items, rfl, ⟨startEq.trans_le low, inFirst⟩, by simp, ?_⟩
      intro later laterMem
      exact lt_of_lt_of_le inFirst (rest.bounds laterMem).1
    · have past : stop first ≤ point := le_of_not_gt inFirst
      obtain ⟨front, item, back, splitEq, holds, before, after⟩ := ih rest past
      refine ⟨first :: front, item, back, by rw [splitEq]; rfl, holds, ?_, after⟩
      intro earlier earlierMem
      rcases mem_cons.mp earlierMem with rfl | inFront
      · exact ⟨startEq.trans_le low, past⟩
      · exact before earlier inFront

/-- Binary search for the last start at or below a covered point lands one past
an interval that holds the point. -/
theorem Spans.partitionPoint_search {point : α} (low : lo ≤ point) (high : point < hi) :
    ∃ index item,
      PartitionedSearch.partitionPoint (fun item => decide (start item ≤ point)) items = index + 1 ∧
      items[index]? = some item ∧ item ∈ items ∧ Holds start stop point item := by
  obtain ⟨front, item, back, rfl, holds, before, after⟩ := spans.split_at low high
  refine ⟨front.length, item, ?_, by simp, by simp, holds⟩
  have partitioned : PartitionedSearch.PartitionedAt
      (fun item => decide (start item ≤ point)) ((front ++ [item]) ++ back)
      (front ++ [item]).length := PartitionedSearch.partitionedAt_append
    (fun earlier earlierMem => by
      rcases mem_append.mp earlierMem with inFront | atItem
      · exact decide_eq_true (before earlier inFront).1
      · obtain rfl : earlier = item := by simpa using atItem
        exact decide_eq_true holds.1)
    (fun later laterMem => decide_eq_false (not_le_of_gt (after later laterMem)))
  have found := PartitionedSearch.partitionPoint_eq partitioned
  simpa using found

end IntervalPartitions
