import Mathlib.Data.List.Induction
import Mathlib.Data.List.Nodup

/-!
# Folding items into a list of keyed values

A list of pairs is used as a map that remembers the order in which its keys came in.
-/

namespace KeyedFolds

open List

variable {κ α β ε : Type*} [DecidableEq κ]

/-! ## Keys -/

def firstSeen (keys : List κ) : List κ :=
  keys.foldl (fun seen key => if key ∈ seen then seen else seen ++ [key]) []

theorem firstSeen_concat (keys : List κ) (key : κ) :
    firstSeen (keys ++ [key]) =
      if key ∈ firstSeen keys then firstSeen keys else firstSeen keys ++ [key] := by
  rw [firstSeen, foldl_append]
  rfl

theorem firstSeen_spec (keys : List κ) :
    (firstSeen keys).Nodup ∧ ∀ key, key ∈ firstSeen keys ↔ key ∈ keys := by
  induction keys using reverseRecOn with
  | nil => simp [firstSeen]
  | append_singleton keys last ih =>
    obtain ⟨distinct, members⟩ := ih
    rw [firstSeen_concat]
    split
    next old =>
      refine ⟨distinct, fun key => ?_⟩
      rw [members, mem_append, mem_singleton]
      exact ⟨.inl, fun known => known.elim id fun same => same ▸ (members last).mp old⟩
    next new =>
      refine ⟨distinct.append (nodup_singleton last) (by simpa using new), fun key => ?_⟩
      rw [mem_append, mem_append, members]

@[simp] theorem mem_firstSeen {keys : List κ} {key : κ} : key ∈ firstSeen keys ↔ key ∈ keys :=
  (firstSeen_spec keys).2 key

theorem nodup_firstSeen (keys : List κ) : (firstSeen keys).Nodup := (firstSeen_spec keys).1

/-! ## Values by key -/

variable {key : α → κ} {items : List α} {choose : List α → List α}

/-- Replace the value under `key`, or put one at the end. -/
def upsert (key : κ) (step : Option β → β) : List (κ × β) → List (κ × β)
  | [] => [(key, step none)]
  | (other, value) :: rest =>
    if other = key then (other, step (some value)) :: rest
    else (other, value) :: upsert key step rest

theorem lookup_cons_ite (probe other : κ) (value : β) (entries : List (κ × β)) :
    ((other, value) :: entries).lookup probe =
      if probe = other then some value else entries.lookup probe := by
  rw [lookup_cons]
  by_cases same : probe = other
  · simp [same]
  · simp [same, beq_eq_false_iff_ne.mpr same]

theorem lookup_upsert (key : κ) (step : Option β → β) (entries : List (κ × β)) (probe : κ) :
    (upsert key step entries).lookup probe =
      if probe = key then some (step (entries.lookup key)) else entries.lookup probe := by
  induction entries with
  | nil => rw [upsert, lookup_cons_ite]; rfl
  | cons entry entries ih =>
    obtain ⟨other, value⟩ := entry
    rw [upsert]
    by_cases same : other = key
    · subst same
      rw [if_pos rfl, lookup_cons_ite, lookup_cons_ite, lookup_cons_ite, if_pos rfl]
      split <;> rfl
    · rw [if_neg same, lookup_cons_ite, lookup_cons_ite, lookup_cons_ite, if_neg (Ne.symm same), ih]
      by_cases here : probe = other <;> simp [here, same]

theorem keys_upsert (key : κ) (step : Option β → β) (entries : List (κ × β)) :
    (upsert key step entries).map Prod.fst =
      if key ∈ entries.map Prod.fst then entries.map Prod.fst
      else entries.map Prod.fst ++ [key] := by
  induction entries with
  | nil => simp [upsert]
  | cons entry entries ih =>
    rw [upsert]
    split
    next same => simp [same]
    next different =>
      rw [map_cons, ih, map_cons]
      split <;> simp_all [Ne.symm different]

variable {entries : List (κ × β)}

theorem upsert_of_getElem? {key : κ} (step : Option β → β)
    (distinct : (entries.map Prod.fst).Nodup) {place : Nat} {value : β}
    (found : entries[place]? = some (key, value)) :
    upsert key step entries = entries.modify place fun entry => (entry.1, step (some entry.2)) := by
  induction entries generalizing place with
  | nil => cases found
  | cons entry entries ih =>
    obtain ⟨fresh, distinct⟩ := nodup_cons.mp distinct
    rw [upsert]
    cases place with
    | zero =>
      cases found
      simp
    | succ place =>
      have differs : entry.1 ≠ key := by
        rintro rfl
        exact fresh (mem_map.mpr ⟨_, mem_of_getElem? found, rfl⟩)
      rw [if_neg differs, ih distinct found, modify_succ_cons]

theorem upsert_of_not_mem {key : κ} (step : Option β → β) (new : key ∉ entries.map Prod.fst) :
    upsert key step entries = entries ++ [(key, step none)] := by
  induction entries with
  | nil => rfl
  | cons entry entries ih =>
    rw [map_cons, mem_cons, not_or] at new
    rw [upsert, if_neg (Ne.symm new.1), ih new.2, cons_append]

variable (step : α → Option β → β)

def foldItems (items : List α) : Option β :=
  items.foldl (fun state item => some (step item state)) none

theorem foldItems_concat (items : List α) (item : α) :
    foldItems step (items ++ [item]) = some (step item (foldItems step items)) := by
  rw [foldItems, foldl_append]
  rfl

theorem foldl_upsert (key : α → κ) (step : α → Option β → β) (items : List α) :
    (items.foldl (fun entries item => upsert (key item) (step item) entries) []).map Prod.fst =
        firstSeen (items.map key) ∧
      ∀ probe, (items.foldl (fun entries item => upsert (key item) (step item) entries) []).lookup
        probe = foldItems step (items.filter fun item => key item = probe) := by
  induction items using reverseRecOn with
  | nil => exact ⟨rfl, fun probe => rfl⟩
  | append_singleton items item ih =>
    obtain ⟨keys, values⟩ := ih
    rw [foldl_append, foldl_cons, foldl_nil]
    constructor
    · rw [keys_upsert, keys, map_append, map_singleton, firstSeen_concat]
    · intro probe
      rw [lookup_upsert, values, values]
      by_cases same : probe = key item
      · subst same
        simp [foldItems_concat]
      · simp [same, Ne.symm same]

theorem lookup_of_mem (distinct : (entries.map Prod.fst).Nodup)
    {entry : κ × β} (member : entry ∈ entries) : entries.lookup entry.1 = some entry.2 := by
  induction entries with
  | nil => cases member
  | cons head entries ih =>
    rw [map_cons, nodup_cons] at distinct
    obtain rfl | later := mem_cons.mp member
    · exact lookup_cons_self
    · have different : entry.1 ≠ head.1 := fun same =>
        distinct.1 (mem_map.mpr ⟨entry, later, same⟩)
      rw [lookup_cons_ite, if_neg different, ih distinct.2 later]

theorem filter_snd_eq_lookup {name : β → κ}
    (distinct : (entries.map Prod.fst).Nodup) (own : ∀ entry ∈ entries, name entry.2 = entry.1)
    (probe : κ) : (entries.map Prod.snd).filter (fun value => name value = probe) =
      (entries.lookup probe).toList := by
  induction entries with
  | nil => rfl
  | cons entry entries ih =>
    rw [map_cons, nodup_cons] at distinct
    obtain ⟨isName, own⟩ := forall_mem_cons.mp own
    rw [map_cons, filter_cons, isName, lookup_cons_ite, ih distinct.2 own]
    by_cases same : entry.1 = probe
    · subst same
      have absent : entries.lookup entry.1 = none := by
        refine lookup_eq_none_iff.mpr fun other isOther => bne_iff_ne.mpr fun same => ?_
        exact distinct.1 (same ▸ mem_map_of_mem isOther)
      simp [absent]
    · simp [same, Ne.symm same]

theorem foldItems_induction {step : α → Option β → β} (holds : β → Prop)
    (first : ∀ item ∈ items, holds (step item none))
    (next : ∀ item ∈ items, ∀ value, holds value → holds (step item (some value))) {value : β}
    (folded : foldItems step items = some value) : holds value := by
  induction items using reverseRecOn generalizing value with
  | nil => cases folded
  | append_singleton items item ih =>
    have member : item ∈ items ++ [item] := by simp
    rw [foldItems_concat] at folded
    obtain rfl := Option.some.inj folded
    cases before : foldItems step items with
    | none => exact first item member
    | some old =>
      exact next item member old (ih (fun item known => first item (mem_append_left _ known))
        (fun item known => next item (mem_append_left _ known)) before)

/-- Where the values of a fold carry their key, those of a key are the fold of its items. -/
theorem filter_foldl_upsert (key : α → κ) (step : α → Option β → β) (name : β → κ)
    (first : ∀ item, name (step item none) = key item)
    (next : ∀ item old, name (step item (some old)) = name old) (items : List α) (probe : κ) :
    ((items.foldl (fun entries item => upsert (key item) (step item) entries) []).map
        Prod.snd).filter (fun value => name value = probe) =
      (foldItems step (items.filter fun item => key item = probe)).toList := by
  obtain ⟨keys, values⟩ := foldl_upsert key step items
  have distinct := nodup_firstSeen (items.map key)
  rw [← keys] at distinct
  rw [← values]
  refine filter_snd_eq_lookup distinct (fun entry member => ?_) probe
  have folded := values entry.1
  rw [lookup_of_mem distinct member] at folded
  refine foldItems_induction (fun value => name value = entry.1) (fun item isItem => ?_)
    (fun item _ old same => (next item old).trans same) folded.symm
  rw [first]
  exact of_decide_eq_true (mem_filter.mp isItem).2

theorem filter_filterMap_of_name {finish : β → Option β} {name : β → κ}
    (keeps : ∀ value after, finish value = some after → name after = name value)
    (values : List β) (probe : κ) :
    (values.filterMap finish).filter (fun value => name value = probe) =
      (values.filter fun value => name value = probe).filterMap finish := by
  induction values with
  | nil => rfl
  | cons value values ih =>
    rw [filter_cons]
    cases finished : finish value with
    | none => split <;> simp [finished, ih]
    | some after => split <;> simp_all [keeps value after finished]

theorem eq_map_of_lookup {value : κ → β} (distinct : (entries.map Prod.fst).Nodup)
    (values : ∀ key ∈ entries.map Prod.fst, entries.lookup key = some (value key)) :
    entries = (entries.map Prod.fst).map fun key => (key, value key) := by
  induction entries with
  | nil => rfl
  | cons entry entries ih =>
    obtain ⟨key, here⟩ := entry
    rw [map_cons, nodup_cons] at distinct
    have own : here = value key := by
      simpa using values key (by simp)
    rw [own]
    congr 1
    refine ih distinct.2 fun probe member => ?_
    have different : probe ≠ key := by
      rintro rfl
      exact distinct.1 member
    rw [← values probe (mem_cons_of_mem _ member), lookup_cons_ite, if_neg different]

def groups (key : α → κ) (items : List α) : List (κ × List α) :=
  items.foldl (fun entries item => upsert (key item) (fun old => old.getD [] ++ [item]) entries) []

theorem groups_eq (key : α → κ) (items : List α) :
    groups key items = (firstSeen (items.map key)).map fun probe =>
        (probe, items.filter fun item => key item = probe) := by
  have collected : ∀ items : List α, items ≠ [] →
      foldItems (fun item old => old.getD [] ++ [item]) items = some items := by
    intro items
    induction items using reverseRecOn with
    | nil => exact fun nonempty => absurd rfl nonempty
    | append_singleton items item ih =>
      intro _
      rw [foldItems_concat]
      by_cases empty : items = []
      · rw [empty]
        rfl
      · rw [ih empty]
        rfl
  obtain ⟨keys, values⟩ := foldl_upsert key (fun item old => old.getD [] ++ [item]) items
  unfold groups
  rw [← keys]
  refine eq_map_of_lookup (by rw [keys]; exact nodup_firstSeen _) fun probe member => ?_
  rw [values]
  refine collected _ fun none => ?_
  rw [keys, mem_firstSeen, mem_map] at member
  obtain ⟨item, isItem, same⟩ := member
  exact filter_eq_nil_iff.mp none item isItem (by simpa using same)

theorem groups_concat (key : α → κ) (items : List α) (item : α) :
    groups key (items ++ [item]) =
      upsert (key item) (fun old => old.getD [] ++ [item]) (groups key items) := by
  rw [groups, foldl_append]
  rfl

theorem nodup_keys_groups (key : α → κ) (items : List α) :
    ((groups key items).map Prod.fst).Nodup := by
  rw [groups_eq]
  simpa [Function.comp_def] using nodup_firstSeen _

theorem flatten_groups_perm (key : α → κ) (items : List α) :
    ((groups key items).map Prod.snd).flatten.Perm items := by
  have added : ∀ (entries : List (κ × List α)) (item : α),
      ((upsert (key item) (fun old => old.getD [] ++ [item]) entries).map Prod.snd).flatten.Perm
        ((entries.map Prod.snd).flatten ++ [item]) := by
    intro entries item
    fun_induction upsert with
    | case1 => simp
    | case2 value rest =>
      simpa using (perm_append_comm.append_left value : (value ++ ([item] ++ _)).Perm _)
    | case3 _ _ _ _ ih => simpa using ih.append_left _
  induction items using reverseRecOn with
  | nil => rfl
  | append_singleton items item ih =>
    rw [groups_concat]
    exact (added _ item).trans (ih.append_right [item])

/-- Keys that are told apart in the same way make the same groups. -/
theorem groups_comp {ν : Type*} [DecidableEq ν] {change : κ → ν}
    (injective : Function.Injective change) (key : α → κ) (items : List α) :
    groups (change ∘ key) items = (groups key items).map (Prod.map change id) := by
  have seen : ∀ keys, firstSeen (keys.map change) = (firstSeen keys).map change := by
    intro keys
    induction keys using reverseRecOn with
    | nil => rfl
    | append_singleton keys key ih =>
      rw [map_append, map_singleton, firstSeen_concat, firstSeen_concat, ih]
      simp only [mem_map_of_injective injective]
      split <;> simp
  rw [groups_eq, groups_eq, ← map_map, seen]
  simp [injective.eq_iff]

theorem firstSeen_eq_self (keys : List κ) : (firstSeen keys).length ≤ keys.length ∧
      ((firstSeen keys).length = keys.length → firstSeen keys = keys) := by
  induction keys using reverseRecOn with
  | nil => exact ⟨Nat.le_refl 0, fun _ => rfl⟩
  | append_singleton keys key ih =>
    rw [firstSeen_concat, length_append, length_singleton]
    split
    · omega
    · rw [length_append, length_singleton]
      refine ⟨by omega, fun same => ?_⟩
      rw [ih.2 (by omega)]

theorem length_flatten_eq_iff {lists : List (List α)} (nonempty : ∀ list ∈ lists, list ≠ []) :
    lists.length ≤ lists.flatten.length ∧
      (lists.length = lists.flatten.length ↔ ∀ list ∈ lists, list.length = 1) := by
  induction lists with
  | nil => simp
  | cons list lists ih =>
    obtain ⟨here, nonempty⟩ := forall_mem_cons.mp nonempty
    obtain ⟨le, iff⟩ := ih nonempty
    have := length_pos_iff.mpr here
    rw [forall_mem_cons, ← iff, flatten_cons, length_append, length_cons]
    omega

variable (within : ∀ items, choose items ⊆ items)
include within

theorem filter_flatMap_groups (items : List α) (probe : κ) :
    ((groups key items).flatMap fun group => choose group.2).filter (fun item => key item = probe) =
      choose (items.filter fun item => key item = probe) := by
  have kept : ∀ other, (choose (items.filter fun item => key item = other)).filter
      (fun item => key item = probe) =
      if other = probe then choose (items.filter fun item => key item = other) else [] := by
    intro other
    have known : ∀ item ∈ choose (items.filter fun item => key item = other), key item = other :=
      fun item member => by simpa using (mem_filter.mp (within _ member)).2
    split
    next same =>
      subst same
      exact filter_eq_self.mpr fun item member => by simpa using known item member
    next different =>
      refine filter_eq_nil_iff.mpr fun item member => ?_
      simpa [known item member] using different
  rw [groups_eq, flatMap_map, filter_flatMap]
  simp only [kept]
  have single : ∀ keys : List κ, keys.Nodup →
      (keys.flatMap fun other =>
        if other = probe then choose (items.filter fun item => key item = other) else []) =
        if probe ∈ keys then choose (items.filter fun item => key item = probe) else [] := by
    intro keys distinct
    induction keys with
    | nil => rfl
    | cons head keys ih =>
      obtain ⟨fresh, distinct⟩ := nodup_cons.mp distinct
      rw [flatMap_cons, ih distinct]
      by_cases same : head = probe
      · subst same
        simp [fresh]
      · simp [same, Ne.symm same]
  rw [single _ (nodup_firstSeen _)]
  split
  next => rfl
  next absent =>
    have none : items.filter (fun item => key item = probe) = [] := by
      refine filter_eq_nil_iff.mpr fun item member found => absent ?_
      rw [mem_firstSeen]
      exact mem_map.mpr ⟨item, member, by simpa using found⟩
    rw [none]
    exact (eq_nil_of_subset_nil (within [])).symm

theorem mem_flatMap_groups {item : α} :
    (item ∈ (groups key items).flatMap fun group => choose group.2) ↔
      item ∈ choose (items.filter fun other => key other = key item) := by
  rw [← filter_flatMap_groups within items (key item)]
  simp

theorem pairwise_flatMap_groups {relation : α → α → Prop}
    (same : ∀ probe, (choose (items.filter fun item => key item = probe)).Pairwise relation)
    (apart : ∀ item ∈ items, ∀ other ∈ items, key item ≠ key other → relation item other) :
    ((groups key items).flatMap fun group => choose group.2).Pairwise relation := by
  rw [groups_eq, flatMap_map, flatMap_def, pairwise_flatten, forall_mem_map, pairwise_map]
  refine ⟨fun probe _ => same probe, (nodup_firstSeen _).imp fun different item member other
    otherMember => ?_⟩
  obtain ⟨isItem, itemKey⟩ := mem_filter.mp (within _ member)
  obtain ⟨isOther, otherKey⟩ := mem_filter.mp (within _ otherMember)
  refine apart item isItem other isOther ?_
  rw [of_decide_eq_true itemKey, of_decide_eq_true otherKey]
  exact different

end KeyedFolds
