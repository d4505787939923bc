import Mathlib.Data.List.FinRange
import Mathlib.Data.List.Induction
import Mathlib.Data.List.Pairwise

/-!
# Partial rows under versions

A table keeps several rows under one key, each with a version and with values for some of its
fields.
-/

namespace VersionedRows

open List

section Latest

variable {α β υ : Type*}

def latest (carried : α → Option υ) (items : List α) : Option υ :=
  (items.filterMap carried).getLast?

variable {carried : α → Option υ}

@[simp] theorem latest_nil : latest carried [] = none := rfl

theorem latest_append (first second : List α) :
    latest carried (first ++ second) = (latest carried second).or (latest carried first) := by
  rw [latest, filterMap_append, getLast?_append]
  rfl

@[simp] theorem latest_singleton (item : α) : latest carried [item] = carried item := by
  cases value : carried item <;> simp [latest, value]

theorem latest_cons (item : α) (items : List α) :
    latest carried (item :: items) = (latest carried items).or (carried item) := by
  rw [← singleton_append, latest_append, latest_singleton]

theorem latest_map (project : β → α) (items : List β) :
    latest carried (items.map project) = latest (carried ∘ project) items := by
  rw [latest, filterMap_map, latest]

theorem latest_filter_get (items : List α) (keep : α → Bool) :
    latest carried (items.filter keep) =
      latest (fun index => carried (items.get index))
        ((finRange items.length).filter fun index => keep (items.get index)) := by
  have listed : (finRange items.length).map items.get = items := by simp
  conv_lhs => rw [← listed]
  rw [filter_map, latest_map]
  rfl

variable {items : List α}

theorem latest_eq_none_iff : latest carried items = none ↔ ∀ item ∈ items, carried item = none := by
  rw [latest, getLast?_eq_none_iff, filterMap_eq_nil_iff]

/-! ## Copies that arrive in another order -/

variable {ν : Type*} [LinearOrder ν] {rank : α → ν}

/-- Where the items that carry a value stand in the order of their ranks, the last value
is the one of greatest rank. -/
theorem latest_eq_some_iff_of_ranked (ranked : items.Pairwise fun earlier later =>
      (carried earlier).isSome → (carried later).isSome → rank earlier ≤ rank later)
    (determined : ∀ item ∈ items, ∀ other ∈ items, rank item = rank other → item = other)
    {answer : υ} :
    latest carried items = some answer ↔
      ∃ item ∈ items, carried item = some answer ∧
        ∀ other ∈ items, (carried other).isSome → rank other ≤ rank item := by
  induction items using reverseRecOn with
  | nil => simp
  | append_singleton items last ih =>
    obtain ⟨rankedItems, -, below⟩ := pairwise_append.mp ranked
    specialize ih rankedItems fun item member other otherMember =>
      determined item (by simp [member]) other (by simp [otherMember])
    rw [latest_append, latest_singleton]
    cases value : carried last with
    | none =>
      rw [Option.none_or, ih]
      constructor
      · rintro ⟨item, member, carries, greatest⟩
        refine ⟨item, by simp [member], carries, fun other otherMember some => ?_⟩
        rcases mem_append.mp otherMember with inItems | isLast
        · exact greatest other inItems some
        · obtain rfl := mem_singleton.mp isLast
          simp [value] at some
      · rintro ⟨item, member, carries, greatest⟩
        rcases mem_append.mp member with inItems | isLast
        · exact ⟨item, inItems, carries, fun other otherMember =>
            greatest other (by simp [otherMember])⟩
        · obtain rfl := mem_singleton.mp isLast
          simp [value] at carries
    | some found =>
      rw [Option.some_or]
      have lastGreatest : ∀ other ∈ items ++ [last], (carried other).isSome →
          rank other ≤ rank last := by
        intro other otherMember some
        rcases mem_append.mp otherMember with inItems | isLast
        · exact below other inItems last (by simp) some (by simp [value])
        · obtain rfl := mem_singleton.mp isLast
          exact le_refl _
      constructor
      · intro same
        exact ⟨last, by simp, value.trans same, lastGreatest⟩
      · rintro ⟨item, member, carries, greatest⟩
        have sameRank : rank item = rank last :=
          le_antisymm (lastGreatest item member (by simp [carries]))
            (greatest last (by simp) (by simp [value]))
        rw [← value, ← determined item member last (by simp) sameRank, carries]

/-- Items that arrive in any order and any number of times leave the same last value, as
long as no item that carries a value arrives after one of greater rank. -/
theorem latest_eq_of_arrivals {arrivals : List α}
    (ascending : items.Pairwise fun earlier later => rank earlier < rank later)
    (onlyItems : arrivals ⊆ items) (allItems : items ⊆ arrivals)
    (ranked : arrivals.Pairwise fun earlier later =>
      (carried earlier).isSome → (carried later).isSome → rank earlier ≤ rank later) :
    latest carried arrivals = latest carried items := by
  have apart : (items.map rank).Nodup :=
    pairwise_map.mpr (ascending.imp fun less => less.ne)
  have determined : ∀ item ∈ items, ∀ other ∈ items, rank item = rank other → item = other :=
    fun item member other otherMember same => inj_on_of_nodup_map apart member otherMember same
  have inOrder : items.Pairwise fun earlier later =>
      (carried earlier).isSome → (carried later).isSome → rank earlier ≤ rank later :=
    ascending.imp fun less _ _ => less.le
  have sameMembers : ∀ item, item ∈ arrivals ↔ item ∈ items :=
    fun item => ⟨fun member => onlyItems member, fun member => allItems member⟩
  apply Option.ext
  intro answer
  rw [latest_eq_some_iff_of_ranked inOrder determined, latest_eq_some_iff_of_ranked ranked
    fun item member other otherMember =>
      determined item (onlyItems member) other (onlyItems otherMember)]
  simp only [sameMembers]

end Latest

section Tables

variable {ρ κ φ υ ν : Type*} [DecidableEq κ] [LinearOrder ν]
  (key : ρ → κ) (version : ρ → ν) (value : ρ → φ → Option υ)

def Reads (rows : List ρ) (probe : κ) (field : φ) (answer : υ) : Prop :=
  ∃ row ∈ rows, key row = probe ∧ value row field = some answer ∧
    ∀ other ∈ rows, key other = probe → (value other field).isSome → version other ≤ version row

def Ordered (rows : List ρ) : Prop :=
  rows.Pairwise fun first second => key first = key second → version first < version second

def latestUnder (rows : List ρ) (probe : κ) (field : φ) : Option υ :=
  latest (value · field) (rows.filter (key · = probe))

variable {key version value}

theorem latestUnder_cons (row : ρ) (rows : List ρ) (probe : κ) (field : φ) :
    latestUnder key value (row :: rows) probe field = (latestUnder key value rows probe field).or
        (if key row = probe then value row field else none) := by
  unfold latestUnder
  by_cases here : key row = probe
  · simp [here, latest_cons]
  · simp [here]

theorem latestUnder_append (first second : List ρ) (probe : κ) (field : φ) :
    latestUnder key value (first ++ second) probe field =
      (latestUnder key value second probe field).or (latestUnder key value first probe field) := by
  rw [latestUnder, filter_append, latest_append]
  rfl

theorem latestUnder_map {σ : Type*} (project : σ → ρ) (items : List σ) (probe : κ) (field : φ) :
    latestUnder key value (items.map project) probe field =
      latestUnder (fun item => key (project item)) (fun item => value (project item)) items
        probe field := by
  rw [latestUnder, filter_map, latest_map]
  rfl

variable {rows : List ρ} {probe : κ} {field : φ}

theorem latestUnder_eq_none_iff :
    latestUnder key value rows probe field = none ↔
      ∀ row ∈ rows, key row = probe → value row field = none := by
  simp [latestUnder, latest_eq_none_iff]

omit [DecidableEq κ] in
theorem Ordered.eq_of_version_eq (ordered : Ordered key version rows) {first second : ρ}
    (firstIn : first ∈ rows) (secondIn : second ∈ rows) (same : key first = key second)
    (equal : version first = version second) : first = second := by
  let Apart := fun one two : ρ => key one = key two → version one ≠ version two
  have symmetric : Std.Symm Apart :=
    ⟨fun one two apart sameKey => (apart sameKey.symm).symm⟩
  have apart : rows.Pairwise Apart := ordered.imp fun below sameKey => ne_of_lt (below sameKey)
  by_contra different
  exact apart.forall firstIn secondIn different same equal

theorem Ordered.reads_iff (ordered : Ordered key version rows) {answer : υ} :
    Reads key version value rows probe field answer ↔
      latestUnder key value rows probe field = some answer := by
  have ranked : (rows.filter (key · = probe)).Pairwise fun earlier later =>
      (value earlier field).isSome → (value later field).isSome →
        version earlier ≤ version later := by
    rw [pairwise_filter]
    refine ordered.imp fun below under laterUnder _ _ => le_of_lt (below ?_)
    rw [of_decide_eq_true under, of_decide_eq_true laterUnder]
  have determined : ∀ item ∈ rows.filter (key · = probe), ∀ other ∈ rows.filter (key · = probe),
      version item = version other → item = other := by
    intro item member other otherMember equal
    simp only [mem_filter, decide_eq_true_eq] at member otherMember
    exact ordered.eq_of_version_eq member.1 otherMember.1 (member.2.trans otherMember.2.symm) equal
  rw [latestUnder, latest_eq_some_iff_of_ranked ranked determined]
  simp only [Reads, mem_filter, decide_eq_true_eq, and_assoc, and_imp]

/-! ## Merges -/

section Merge

variable (key version)

def superseded (selected : ρ → Bool) (rows later : List ρ) (row : ρ) : Bool :=
  rows.any (fun other => selected other && key other = key row && version row < version other) ||
    later.any (fun other => selected other && key other = key row && version other = version row)

def mergeFrom (selected : ρ → Bool) (rows : List ρ) : List ρ → List ρ
  | [] => []
  | row :: later =>
    if selected row && superseded key version selected rows later row then
      mergeFrom selected rows later
    else row :: mergeFrom selected rows later

def mergeParts (selected : ρ → Bool) (rows : List ρ) : List ρ :=
  mergeFrom key version selected rows rows

variable {key version}

theorem mergeFrom_sublist (selected : ρ → Bool) (rows later : List ρ) :
    (mergeFrom key version selected rows later).Sublist later := by
  induction later with
  | nil => exact List.Sublist.refl _
  | cons row later ih =>
    unfold mergeFrom
    split
    · exact ih.cons row
    · exact ih.cons_cons row

theorem Ordered.mergeParts (ordered : Ordered key version rows) (selected : ρ → Bool) :
    Ordered key version (mergeParts key version selected rows) :=
  ordered.sublist (mergeFrom_sublist selected rows rows)

def Survives (key : ρ → κ) (version : ρ → ν) (selected : ρ → Bool) (rows : List ρ) (row : ρ) :
    Prop :=
  selected row → ∀ rival ∈ rows, selected rival → key rival = key row → version rival ≤ version row

instance (selected : ρ → Bool) (rows : List ρ) (row : ρ) :
    Decidable (Survives key version selected rows row) :=
  inferInstanceAs (Decidable (_ → ∀ rival ∈ rows, _ → _ → _))

theorem Ordered.mem_mergeFrom_iff {later : List ρ} (ordered : Ordered key version later)
    {selected : ρ → Bool} {row : ρ} :
    row ∈ mergeFrom key version selected rows later ↔
      row ∈ later ∧ Survives key version selected rows row := by
  induction later with
  | nil => simp [mergeFrom]
  | cons head later ih =>
    obtain ⟨below, orderedLater⟩ := pairwise_cons.mp ordered
    specialize ih orderedLater
    -- No later row has the version of the first one, so only a greater one supersedes it.
    have noTie : later.any (fun other => selected other && key other = key head &&
        version other = version head) = false := by
      rw [any_eq_false]
      intro other member tie
      simp only [Bool.and_eq_true, decide_eq_true_eq] at tie
      exact absurd tie.2 (ne_of_gt (below other member tie.1.2.symm))
    have dropped : (selected head && superseded key version selected rows later head) = true ↔
        ¬ Survives key version selected rows head := by
      simp only [superseded, noTie, Bool.or_false, Bool.and_eq_true, any_eq_true,
        decide_eq_true_eq, Survives]
      push Not
      simp only [and_assoc]
    rw [mergeFrom]
    split
    · rename_i gone
      rw [ih, mem_cons]
      constructor
      · exact fun kept => ⟨Or.inr kept.1, kept.2⟩
      · rintro ⟨rfl | member, survives⟩
        · exact absurd survives (dropped.mp gone)
        · exact ⟨member, survives⟩
    · rename_i stays
      rw [dropped, not_not] at stays
      rw [mem_cons, ih, mem_cons]
      constructor
      · rintro (rfl | kept)
        · exact ⟨Or.inl rfl, stays⟩
        · exact ⟨Or.inr kept.1, kept.2⟩
      · rintro ⟨rfl | member, survives⟩
        · exact Or.inl rfl
        · exact Or.inr ⟨member, survives⟩

/-- A merge of the selected rows loses no field: a field that one of them carries is
carried by a row that stays and is not older. -/
def Lossless (key : ρ → κ) (version : ρ → ν) (value : ρ → φ → Option υ)
    (selected : ρ → Bool) (rows : List ρ) : Prop :=
  ∀ row ∈ rows, selected row → ∀ field, (value row field).isSome →
    ∃ kept ∈ rows, Survives key version selected rows kept ∧ key kept = key row ∧
      version row ≤ version kept ∧ (value kept field).isSome

/-- A merge that loses no field is invisible to every query. -/
theorem Ordered.reads_mergeParts_iff (ordered : Ordered key version rows) {selected : ρ → Bool}
    (lossless : Lossless key version value selected rows) {answer : υ} :
    Reads key version value (VersionedRows.mergeParts key version selected rows) probe field answer
      ↔ Reads key version value rows probe field answer := by
  -- Every row that carries the field is covered by one that stays.
  have covered : ∀ row ∈ rows, (value row field).isSome →
      ∃ kept ∈ rows, Survives key version selected rows kept ∧ key kept = key row ∧
        version row ≤ version kept ∧ (value kept field).isSome := by
    intro row member carries
    cases picked : selected row with
    | false => exact ⟨row, member, by simp [Survives, picked], rfl, le_refl _, carries⟩
    | true => exact lossless row member picked field carries
  simp only [Reads, VersionedRows.mergeParts, ordered.mem_mergeFrom_iff]
  constructor
  · rintro ⟨row, ⟨member, -⟩, under, carries, greatest⟩
    refine ⟨row, member, under, carries, fun other otherMember otherUnder otherCarries => ?_⟩
    obtain ⟨kept, keptMember, survives, same, newer, keptCarries⟩ :=
      covered other otherMember otherCarries
    exact newer.trans (greatest kept ⟨keptMember, survives⟩ (same.trans otherUnder) keptCarries)
  · rintro ⟨row, member, under, carries, greatest⟩
    obtain ⟨kept, keptMember, survives, same, newer, keptCarries⟩ :=
      covered row member (by rw [carries]; rfl)
    have notNewer := greatest kept keptMember (same.trans under) keptCarries
    obtain rfl := ordered.eq_of_version_eq keptMember member same (le_antisymm notNewer newer)
    exact ⟨kept, ⟨member, survives⟩, under, carries, fun other otherMember =>
      greatest other otherMember.1⟩

end Merge

end Tables

end VersionedRows
