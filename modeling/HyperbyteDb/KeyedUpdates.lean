import Mathlib.Data.List.Dedup
import Mathlib.Data.List.Perm.Subperm

/-!
# States that are updated key by key

A state is folded over the entries of a map, each of which changes what is read under its own
key only.
-/

namespace KeyedUpdates

open List Std.ExtTreeMap

section Reads

variable {σ κ α γ : Type*} [DecidableEq κ] {read : σ → κ → γ} {step : σ → κ × α → σ}
  {update : γ → α → γ}

variable {entries : List (κ × α)} {state : σ} {probe : κ}

theorem read_foldl_of_notMem
    (updates : ∀ state entry probe, read (step state entry) probe =
      if entry.1 = probe then update (read state probe) entry.2 else read state probe) (fresh : probe ∉ entries.map Prod.fst) :
    read (entries.foldl step state) probe = read state probe := by
  induction entries generalizing state with
  | nil => rfl
  | cons entry entries ih =>
    rw [map_cons, mem_cons, not_or] at fresh
    rw [foldl_cons, ih fresh.2, updates, if_neg (Ne.symm fresh.1)]

theorem read_foldl_of_mem (read : σ → κ → γ) (update : γ → α → γ)
    (updates : ∀ state entry probe, read (step state entry) probe =
      if entry.1 = probe then update (read state probe) entry.2 else read state probe)
    (distinct : (entries.map Prod.fst).Nodup) {value : α}
    (member : (probe, value) ∈ entries) :
    read (entries.foldl step state) probe = update (read state probe) value := by
  induction entries generalizing state with
  | nil => cases member
  | cons entry entries ih =>
    rw [map_cons, nodup_cons] at distinct
    rw [foldl_cons]
    rcases mem_cons.mp member with rfl | later
    · rw [read_foldl_of_notMem updates distinct.1, updates, if_pos rfl]
    · have other : entry.1 ≠ probe := by
        intro same
        exact distinct.1 (mem_map.mpr ⟨_, later, same.symm⟩)
      rw [ih distinct.2 later, updates, if_neg other]

/-- What the entries of `source` leave under a key. -/
theorem read_foldl_toList [Ord κ] [Std.TransOrd κ] [Std.LawfulEqOrd κ] (update : γ → α → γ)
    (source : Std.ExtTreeMap κ α) (state : σ)
    (updates : ∀ state entry probe, read (step state entry) probe =
      if entry.1 = probe then update (read state probe) entry.2 else read state probe) (probe : κ) :
    read (source.toList.foldl step state) probe = match source[probe]? with
      | some value => update (read state probe) value
      | none => read state probe := by
  cases lookup : source[probe]? with
  | none =>
    apply read_foldl_of_notMem updates
    rw [map_fst_toList_eq_keys, Std.ExtTreeMap.mem_keys]
    rw [mem_iff_isSome_getElem?, lookup]
    exact Bool.false_ne_true
  | some value =>
    apply read_foldl_of_mem read update updates
    · rw [map_fst_toList_eq_keys]
      exact nodup_keys
    · exact mem_toList_iff_getElem?_eq_some.mpr lookup

end Reads

section Folds

variable {κ α β : Type*} [Ord κ] [Std.TransOrd κ] [Std.LawfulEqOrd κ] [DecidableEq κ]
  {step : Std.ExtTreeMap κ β → κ × α → Std.ExtTreeMap κ β}

theorem getElem?_foldl_toList (update : Option β → α → Option β)
    (source : Std.ExtTreeMap κ α) (map : Std.ExtTreeMap κ β)
    (updates : ∀ map entry probe, (step map entry)[probe]? =
      if entry.1 = probe then update map[probe]? entry.2 else map[probe]?) (probe : κ) :
    (source.toList.foldl step map)[probe]? = match source[probe]? with
      | some value => update map[probe]? value
      | none => map[probe]? := by
  have reads := @read_foldl_toList _ κ α _ _
    (fun (map : Std.ExtTreeMap κ β) probe => map[probe]?) step _ _ _ update source map updates
    probe
  exact reads

end Folds

variable {α : Type*}

theorem findSome?_congr {β : Type*} {first second : α → Option β} {items : List α}
    (same : ∀ item ∈ items, first item = second item) :
    items.findSome? first = items.findSome? second := by
  induction items with
  | nil => rfl
  | cons item items ih =>
    rw [findSome?_cons, findSome?_cons, same item mem_cons_self,
      ih fun other member => same other (mem_cons_of_mem item member)]

/-- Items that are held, and new ones that are not known to be, are together no more than there
are different ones. -/
theorem length_add_filter_le [DecidableEq α] {held new whole : List α}
    {known : α → Bool} (heldOnce : held.Nodup) (newOnce : new.Nodup)
    (isKnown : ∀ item ∈ held, known item = true)
    (included : ∀ item, item ∈ held ∨ item ∈ new → item ∈ whole) :
    held.length + (new.filter (!known ·)).length ≤ whole.dedup.length := by
  rw [← length_append]
  apply List.Subperm.length_le
  apply subperm_of_subset (heldOnce.append (newOnce.filter _) ?_)
  · intro item member
    exact mem_dedup.mpr (included item ((mem_append.mp member).imp_right mem_of_mem_filter))
  · intro item isHeld isNew
    simp [isKnown item isHeld] at isNew

end KeyedUpdates
