import Mathlib.Data.List.Perm.Basic

/-!
# First-fit groups

Items are put one after another into the first group that takes them, and open a group
where none does.  Whatever the groups take, every item is in one of them.
-/

namespace FirstFitGroups

open List

variable {α β γ : Type*} (takes : γ → α → Bool) (add : γ → α → γ) (start : α → γ)

def place (item : α) : List γ → List γ
  | [] => [start item]
  | group :: rest =>
    if takes group item then add group item :: rest else group :: place item rest

def gather (items : List α) : List γ :=
  items.foldl (fun groups item => place takes add start item groups) []

section Members

variable {takes add start} {members : γ → List β} {label : α → β}

section

variable (started : ∀ item, members (start item) = [label item])
  (added : ∀ group item, members (add group item) = members group ++ [label item])
include started added

theorem place_perm (item : α) (groups : List γ) :
    ((place takes add start item groups).flatMap members).Perm
      (label item :: groups.flatMap members) := by
  induction groups with
  | nil => simp [place, started]
  | cons group rest ih =>
    unfold place
    split
    · rw [flatMap_cons, added, append_assoc]
      exact perm_middle
    · exact (ih.append_left (members group)).trans perm_middle

theorem foldl_place_perm (items : List α) (groups : List γ) :
    ((items.foldl (fun groups item => place takes add start item groups) groups).flatMap
      members).Perm (groups.flatMap members ++ items.map label) := by
  induction items generalizing groups with
  | nil => simp
  | cons item rest ih =>
    refine (ih (place takes add start item groups)).trans ?_
    refine ((place_perm started added item groups).append_right _).trans ?_
    exact perm_middle.symm

end

theorem gather_perm (members : γ → List β) (label : α → β)
    (started : ∀ item, members (start item) = [label item])
    (added : ∀ group item, members (add group item) = members group ++ [label item])
    (items : List α) : ((gather takes add start items).flatMap members).Perm (items.map label) :=
  foldl_place_perm started added items []

end Members

variable {item : α} {groups : List γ}

section Invariants

variable {takes add start} {holds : γ → Prop} {items : List α}

theorem place_forall (started : holds (start item))
    (added : ∀ group, holds group → takes group item = true → holds (add group item))
    (before : ∀ group ∈ groups, holds group) :
    ∀ group ∈ place takes add start item groups, holds group := by
  induction groups with
  | nil => simpa [place] using started
  | cons first rest ih =>
    obtain ⟨here, later⟩ := forall_mem_cons.mp before
    unfold place
    split
    next room => exact forall_mem_cons.mpr ⟨added first here room, later⟩
    next => exact forall_mem_cons.mpr ⟨here, ih later⟩

theorem gather_forall (holds : γ → Prop) (started : ∀ item ∈ items, holds (start item))
    (added : ∀ item ∈ items, ∀ group, holds group → takes group item = true →
      holds (add group item)) : ∀ group ∈ gather takes add start items, holds group := by
  exact foldlRecOn (motive := fun groups => ∀ group ∈ groups, holds group) items _ (by simp)
    fun _ before item member => place_forall (started item member) (added item member) before

end Invariants

section Apart

variable {takes add start} {items : List α}

theorem place_of_not_taken
    (refused : ∀ group ∈ groups, takes group item = false) :
    place takes add start item groups = groups ++ [start item] := by
  induction groups with
  | nil => rfl
  | cons group rest ih =>
    obtain ⟨here, later⟩ := forall_mem_cons.mp refused
    rw [place, here, if_neg Bool.false_ne_true, ih later, cons_append]

theorem gather_of_apart
    (apart : items.Pairwise fun first second => takes (start first) second = false) :
    gather takes add start items = items.map start := by
  have general : ∀ before : List α,
      (before ++ items).Pairwise (fun first second => takes (start first) second = false) →
      items.foldl (fun groups item => place takes add start item groups) (before.map start) =
        (before ++ items).map start := by
    clear apart
    induction items with
    | nil => simp
    | cons item rest ih =>
      intro before apart
      rw [foldl_cons, place_of_not_taken, ← map_singleton, ← map_append,
        ih (before ++ [item]) (by simpa using apart)]
      · simp
      · intro group member
        obtain ⟨earlier, listed, rfl⟩ := mem_map.mp member
        exact (pairwise_append.mp apart).2.2 earlier listed item mem_cons_self
  exact general [] apart

theorem gather_of_taken (holds : γ → Prop) {first : α} {rest : List α}
    (started : holds (start first)) (taken : ∀ item ∈ rest, ∀ group, holds group →
      takes group item = true ∧ holds (add group item)) :
    gather takes add start (first :: rest) = [rest.foldl add (start first)] := by
  have general : ∀ group, holds group →
      rest.foldl (fun groups item => place takes add start item groups) [group] =
        [rest.foldl add group] := by
    induction rest with
    | nil => exact fun _ _ => rfl
    | cons item rest ih =>
      obtain ⟨takenItem, takenRest⟩ := forall_mem_cons.mp taken
      intro group held
      obtain ⟨here, kept⟩ := takenItem group held
      rw [foldl_cons, place, if_pos here]
      exact ih takenRest (add group item) kept
  exact general (start first) started

end Apart

end FirstFitGroups
