import Mathlib.Algebra.Order.Ring.Nat
import Mathlib.Data.List.Perm.Basic

/-!
# Collecting items under keys and cutting lists into bounded slices

Two steps that batch work: items are collected under a key, in the order of the
items, and a long list is cut into slices of at most `limit` items.  Neither step
loses an item.
-/

namespace KeyedBatches

open List Std

variable {α β : Type*} {items : List α}

section Collect

variable {κ : Type*} [Ord κ] [Std.TransOrd κ]

variable (groups : Std.ExtTreeMap κ (List β))

def push (key : κ) (value : β) : Std.ExtTreeMap κ (List β) :=
  groups.insert key (groups[key]?.getD [] ++ [value])

variable (key : α → κ)

variable (value : α → β)

def collect (items : List α) : Std.ExtTreeMap κ (List β) :=
  items.foldl (fun groups item => push groups (key item) (value item)) ∅

variable [Std.LawfulEqOrd κ] [DecidableEq κ]

theorem getElem?_push (key other : κ) (value : β) : (push groups key value)[other]? =
      if key = other then some (groups[key]?.getD [] ++ [value]) else groups[other]? := by
  simp [push, Std.ExtTreeMap.getElem?_insert]

/-- What `items` leave under `probe`, on top of what was there. -/
theorem getElem?_foldl_push (probe : κ) :
    (items.foldl (fun groups item => push groups (key item) (value item)) groups)[probe]? =
      if items.any (key · = probe) then
        some (groups[probe]?.getD [] ++ (items.filter (key · = probe)).map value)
      else groups[probe]? := by
  induction items generalizing groups with
  | nil => simp
  | cons item items ih =>
    rw [foldl_cons, ih, getElem?_push]
    by_cases here : key item = probe
    · subst here
      by_cases later : items.any (key · = key item)
      · simp [later]
      · simp
    · simp [here]

theorem getElem?_collect (probe : κ) : (collect key value items)[probe]? =
      if items.any (key · = probe) then
        some ((items.filter (key · = probe)).map value) else none := by
  rw [collect, getElem?_foldl_push]
  simp

theorem exists_of_mem {item : α} (member : item ∈ items) :
    ∃ values, (collect key value items)[key item]? = some values ∧ value item ∈ values := by
  have found : items.any (key · = key item) := by
    simpa using ⟨item, member, rfl⟩
  rw [getElem?_collect, if_pos found]
  exact ⟨_, rfl, mem_map_of_mem (by simpa using member)⟩

theorem exists_item_of_mem {key : α → κ} {value : α → β} {probe : κ} {values : List β}
    (lookup : (collect key value items)[probe]? = some values) {found : β}
    (member : found ∈ values) : ∃ item ∈ items, key item = probe ∧ value item = found := by
  rw [getElem?_collect] at lookup
  split at lookup
  next =>
    cases lookup
    obtain ⟨item, inside, rfl⟩ := mem_map.mp member
    exact ⟨item, mem_of_mem_filter inside, by simpa using of_mem_filter inside, rfl⟩
  next => simp at lookup

theorem mem_toList_collect {key : α → κ} {value : α → β} {group : κ × List β}
    (member : group ∈ (collect key value items).toList) :
    group.2 = (items.filter (key · = group.1)).map value ∧ group.2 ≠ [] := by
  have lookup := Std.ExtTreeMap.mem_toList_iff_getElem?_eq_some.mp member
  rw [getElem?_collect] at lookup
  split at lookup
  next some =>
    have same := Option.some.inj lookup
    rw [← same]
    simpa [filter_eq_nil_iff] using some
  next => cases lookup

omit [DecidableEq κ] in
theorem pairwise_keys_toList : groups.toList.Pairwise fun group other => group.1 ≠ other.1 := by
  refine Std.ExtTreeMap.distinct_keys_toList.imp fun {group other} distinct same => ?_
  exact distinct (compare_eq_iff_eq.mpr same)

variable {γ : Type*}

theorem toList_collect_map (change : κ → β → γ) (items : List α) :
    (collect key (fun item => change (key item) (value item)) items).toList =
      (collect key value items).toList.map fun group =>
        (group.1, group.2.map (change group.1)) := by
  have mapped : collect key (fun item => change (key item) (value item)) items =
      (collect key value items).map fun probe values => values.map (change probe) := by
    apply Std.ExtTreeMap.ext_getElem?
    intro probe
    rw [Std.ExtTreeMap.getElem?_map, getElem?_collect, getElem?_collect]
    split
    · rw [Option.map_some, map_map]
      congr 1
      apply map_congr_left
      intro item member
      have under : key item = probe := by simpa using of_mem_filter member
      rw [Function.comp_apply, under]
    · rfl
  rw [mapped, Std.ExtTreeMap.toList_map]

variable {make : κ × List β → List γ}

omit [DecidableEq κ] in
/-- Of what is made from the groups, the part under `probe` is made from its group. -/
theorem flatMap_toList (probe : κ)
    (elsewhere : ∀ group ∈ groups.toList, group.1 ≠ probe → make group = []) :
    groups.toList.flatMap make = (groups[probe]?.map fun values => make (probe, values)).getD [] := by
  cases lookup : groups[probe]? with
  | none =>
    refine flatMap_eq_nil_iff.mpr fun group member => elsewhere group member ?_
    rintro rfl
    rw [Std.ExtTreeMap.mem_toList_iff_getElem?_eq_some.mp member] at lookup
    cases lookup
  | some values =>
    have member := Std.ExtTreeMap.mem_toList_iff_getElem?_eq_some.mpr lookup
    obtain ⟨before, after, split⟩ := append_of_mem member
    have distinct := pairwise_keys_toList groups
    rw [split] at elsewhere distinct
    rw [pairwise_append, pairwise_cons] at distinct
    obtain ⟨-, ⟨later, -⟩, earlier⟩ := distinct
    have noneBefore : before.flatMap make = [] := by
      rw [flatMap_eq_nil_iff]
      intro group inside
      exact elsewhere group (by simp [inside]) (earlier group inside _ mem_cons_self)
    have noneAfter : after.flatMap make = [] := by
      rw [flatMap_eq_nil_iff]
      intro group inside
      exact elsewhere group (by simp [inside]) (Ne.symm (later group inside))
    simp [split, noneBefore, noneAfter]

theorem flatMap_toList_collect (items : List α) (probe : κ)
    (elsewhere : ∀ group, group.1 ≠ probe → make group = []) (nothing : make (probe, []) = []) :
    (collect key value items).toList.flatMap make =
      make (probe, (items.filter (key · = probe)).map value) := by
  rw [flatMap_toList _ probe fun group _ => elsewhere group, getElem?_collect]
  split
  next => rfl
  next none =>
    have absent : items.filter (key · = probe) = [] := by
      simpa [filter_eq_nil_iff] using none
    rw [absent, map_nil, nothing]
    rfl

omit [DecidableEq κ] in
theorem nodup_toList : groups.toList.Nodup := by
  refine Std.ExtTreeMap.distinct_keys_toList.imp fun {group other} distinct same => ?_
  exact distinct (compare_eq_iff_eq.mpr (congrArg Prod.fst same))

theorem toList_insert_perm (key : κ) (values : List β) : (groups.insert key values).toList.Perm
      ((key, values) :: groups.toList.filter fun group => group.1 ≠ key) := by
  have fresh : (groups.toList.filter fun group => group.1 ≠ key).Nodup :=
    (nodup_toList groups).filter _
  refine (perm_ext_iff_of_nodup (nodup_toList _)
    (nodup_cons.mpr ⟨by simp, fresh⟩)).mpr fun group => ?_
  rw [Std.ExtTreeMap.mem_toList_iff_getElem?_eq_some, Std.ExtTreeMap.getElem?_insert,
    mem_cons]
  obtain ⟨probe, found⟩ := group
  by_cases here : key = probe
  · simp [here, eq_comm]
  · simp [here, Ne.symm here]

theorem values_push_perm (key : κ) (value : β) :
    ((push groups key value).toList.flatMap Prod.snd).Perm
      (groups.toList.flatMap Prod.snd ++ [value]) := by
  have inserted := (toList_insert_perm groups key
    (groups[key]?.getD [] ++ [value])).flatMap_right Prod.snd
  have before : (groups.toList.flatMap Prod.snd).Perm (groups[key]?.getD [] ++
      (groups.toList.filter fun group => group.1 ≠ key).flatMap Prod.snd) := by
    cases lookup : groups[key]? with
    | none =>
      have all : groups.toList.filter (fun group => group.1 ≠ key) = groups.toList := by
        rw [filter_eq_self]
        rintro ⟨probe, values⟩ member
        rw [Std.ExtTreeMap.mem_toList_iff_getElem?_eq_some] at member
        have apart : probe ≠ key := by
          rintro rfl
          rw [lookup] at member
          cases member
        simpa using apart
      rw [all]
      rfl
    | some values =>
      have same : groups.insert key values = groups := by
        ext probe found
        rw [Std.ExtTreeMap.getElem?_insert]
        split
        next here => rw [← compare_eq_iff_eq.mp here, lookup]
        next => rfl
      have split := (toList_insert_perm groups key values).flatMap_right Prod.snd
      rwa [same] at split
  rw [flatMap_cons] at inserted
  refine inserted.trans (.trans ?_ (before.symm.append_right _))
  rw [append_assoc, append_assoc]
  exact perm_append_comm.append_left _

theorem values_collect_perm (items : List α) :
    ((collect key value items).toList.flatMap Prod.snd).Perm (items.map value) := by
  have general : ∀ groups : Std.ExtTreeMap κ (List β),
      ((items.foldl (fun groups item => push groups (key item) (value item))
        groups).toList.flatMap Prod.snd).Perm
        (groups.toList.flatMap Prod.snd ++ items.map value) := by
    induction items with
    | nil => simp
    | cons item items ih =>
      intro groups
      refine (ih _).trans (((values_push_perm groups _ _).append_right _).trans ?_)
      rw [append_assoc]
      rfl
  exact general ∅

/-- The groups together hold no more than the items. -/
theorem sum_length_collect_le (items : List α) :
    ((collect key value items).toList.map (·.2.length)).sum ≤ items.length := by
  have lengths := (values_collect_perm key value items).length_eq
  rw [length_flatMap, length_map] at lengths
  exact Nat.le_of_eq lengths

end Collect

section Sorting

/-- Items that each go one of two ways, under a name that does not depend on the way,
keep their names together. -/
theorem sorted_perm (items : List α) (first second : α → Option β) (name : α → β)
    (oneWay : ∀ item ∈ items, (first item = some (name item) ∧ second item = none) ∨
        (first item = none ∧ second item = some (name item))) :
    (items.filterMap first ++ items.filterMap second).Perm (items.map name) := by
  induction items with
  | nil => simp
  | cons item items ih =>
    have rest := ih fun other member => oneWay other (mem_cons_of_mem item member)
    rcases oneWay item mem_cons_self with ⟨goes, stays⟩ | ⟨stays, goes⟩
    · rw [filterMap_cons_some goes, filterMap_cons_none stays]
      exact rest.cons _
    · rw [filterMap_cons_none stays, filterMap_cons_some goes]
      exact perm_middle.trans (rest.cons _)

end Sorting

section Slices

/-- Slices of `limit` items, the last one possibly shorter; `fuel` bounds their number. -/
def slicesWithin (limit : Nat) : Nat → List α → List (List α)
  | 0, _ => []
  | fuel + 1, items =>
    if items.isEmpty then []
    else items.take limit :: slicesWithin limit fuel (items.drop limit)

def slices (limit : Nat) (items : List α) : List (List α) :=
  slicesWithin limit items.length items

variable {limit : Nat}

theorem flatten_slicesWithin {fuel : Nat} (positive : 0 < limit) (enough : items.length ≤ fuel) :
    (slicesWithin limit fuel items).flatten = items := by
  induction fuel generalizing items with
  | zero =>
    have empty : items = [] := eq_nil_of_length_eq_zero (by omega)
    simp [slicesWithin, empty]
  | succ fuel ih =>
    cases items with
    | nil => simp [slicesWithin]
    | cons item items =>
      have shorter : ((item :: items).drop limit).length ≤ fuel := by
        simp only [length_drop] at enough ⊢
        omega
      simp [slicesWithin, ih shorter]

theorem flatten_slices (positive : 0 < limit) (items : List α) :
    (slices limit items).flatten = items :=
  flatten_slicesWithin positive (Nat.le_refl _)

theorem exists_slice_of_mem (positive : 0 < limit) {item : α} (member : item ∈ items) :
    ∃ slice ∈ slices limit items, item ∈ slice := by
  rw [← flatten_slices positive items] at member
  exact mem_flatten.mp member

theorem slices_of_length_le (nonempty : items ≠ []) (short : items.length ≤ limit) :
    slices limit items = [items] := by
  cases items with
  | nil => exact absurd rfl nonempty
  | cons item items =>
    have done : slicesWithin limit items.length ((item :: items).drop limit) = [] := by
      rw [drop_eq_nil_of_le short]
      cases items <;> simp [slicesWithin]
    simp [slices, slicesWithin, take_of_length_le short, done]

/-- When no list is empty, the place of a list plus a place in it stays below the number
of all items. -/
theorem place_add_place_lt {lists : List (List α)} (nonempty : ∀ list ∈ lists, list ≠ [])
    {place inside : Nat} {list : List α} (lookup : lists[place]? = some list)
    (within : inside < list.length) : place + inside < (lists.map length).sum := by
  induction lists generalizing place with
  | nil => cases lookup
  | cons head lists ih =>
    have positive := length_pos_iff.mpr (nonempty head mem_cons_self)
    rw [map_cons, sum_cons]
    cases place with
    | zero =>
      obtain rfl : head = list := by simpa using lookup
      omega
    | succ place =>
      have later := ih (fun other member => nonempty other (mem_cons_of_mem _ member))
        (by simpa using lookup)
      omega

end Slices

end KeyedBatches
