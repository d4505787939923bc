import Mathlib.Data.Finset.Card
import Mathlib.Data.List.Sort
import Mathlib.Data.Prod.Lex

/-!
# The best of several lists

Elements are ranked, and of the elements that share a tag only the best one counts.  The best
`count` elements of some lists together are the best of the lists' own best elements.
-/

namespace TopOfUnions

open List

variable {α τ κ : Type*} [DecidableEq τ] [LinearOrder κ]

variable {tag : α → τ} {rank : α → κ} {items : List α}

def retainFirst (tag : α → τ) : List τ → List α → List α
  | _, [] => []
  | seen, item :: items =>
    if tag item ∈ seen then retainFirst tag seen items
    else item :: retainFirst tag (tag item :: seen) items

def ranked (rank : α → κ) (items : List α) : List α :=
  items.insertionSort fun first second => rank first ≤ rank second

def best (rank : α → κ) (tag : α → τ) (count : Nat) (items : List α) : List α :=
  (retainFirst tag [] (ranked rank items)).take count

/-! ## First elements of their tags -/

theorem retainFirst_sublist (tag : α → τ) (items : List α) (seen : List τ) :
    (retainFirst tag seen items).Sublist items := by
  induction items generalizing seen with
  | nil => exact List.Sublist.slnil
  | cons item items ih =>
    rw [retainFirst]
    split
    · exact (ih seen).cons item
    · exact (ih _).cons_cons item

theorem map_tag_retainFirst (seen : List τ) : ((retainFirst tag seen items).map tag).Nodup ∧
      ∀ label, label ∈ (retainFirst tag seen items).map tag ↔
        label ∈ items.map tag ∧ label ∉ seen := by
  induction items generalizing seen with
  | nil => simp [retainFirst]
  | cons item items ih =>
    rw [retainFirst]
    split
    next old =>
      refine ⟨(ih seen).1, fun label => ?_⟩
      rw [(ih seen).2, map_cons, mem_cons]
      grind
    next new =>
      obtain ⟨distinct, tags⟩ := ih (tag item :: seen)
      refine ⟨?_, fun label => ?_⟩
      · rw [map_cons, nodup_cons, tags]
        exact ⟨by simp, distinct⟩
      · rw [map_cons, map_cons, mem_cons, mem_cons, tags]
        grind

variable {item : α} {seen : List τ}

/-- In a list that is strictly sorted, the elements that stay are those with no better one of
their tag. -/
theorem mem_retainFirst (sorted : items.Pairwise fun first second => rank first < rank second) :
    item ∈ retainFirst tag seen items ↔
      item ∈ items ∧ tag item ∉ seen ∧
        ∀ other ∈ items, rank other < rank item → tag other ≠ tag item := by
  induction items generalizing seen with
  | nil => simp [retainFirst]
  | cons head items ih =>
    obtain ⟨least, sorted⟩ := pairwise_cons.mp sorted
    rw [retainFirst]
    split
    next old =>
      rw [ih sorted, mem_cons]
      grind
    next new =>
      rw [mem_cons, ih sorted]
      constructor
      · rintro (rfl | ⟨member, unseen, leading⟩)
        · refine ⟨mem_cons_self, new, fun other otherMember better => ?_⟩
          obtain rfl | later := mem_cons.mp otherMember
          · exact absurd better (lt_irrefl _)
          · exact absurd better (least other later).asymm
        · grind
      · rintro ⟨isMember, unseen, leading⟩
        obtain rfl | member := mem_cons.mp isMember
        · exact .inl rfl
        · right
          refine ⟨member, ?_, fun other later => leading other (mem_cons_of_mem head later)⟩
          have apart := leading head mem_cons_self (least item member)
          grind

theorem retainFirst_map {β : Type*} (tag : β → τ) (project : α → β) (items : List α)
    (seen : List τ) :
    retainFirst tag seen (items.map project) =
      (retainFirst (fun item => tag (project item)) seen items).map project := by
  induction items generalizing seen with
  | nil => rfl
  | cons item items ih =>
    rw [map_cons, retainFirst, retainFirst]
    split
    · exact ih seen
    · rw [ih, map_cons]

/-- Only which elements share a tag matters. -/
theorem retainFirst_congr {σ : Type*} [DecidableEq σ] {label : α → σ} {marked : List σ}
    (same : ∀ item ∈ items, ∀ other ∈ items, tag item = tag other ↔ label item = label other)
    (sameSeen : ∀ item ∈ items, tag item ∈ seen ↔ label item ∈ marked) :
    retainFirst tag seen items = retainFirst label marked items := by
  induction items generalizing seen marked with
  | nil => rfl
  | cons item items ih =>
    have later : ∀ item ∈ items, ∀ other ∈ items, tag item = tag other ↔ label item = label other :=
      fun item member other otherMember =>
        same item (mem_cons_of_mem _ member) other (mem_cons_of_mem _ otherMember)
    rw [retainFirst, retainFirst]
    by_cases old : tag item ∈ seen
    · rw [if_pos old, if_pos ((sameSeen item mem_cons_self).mp old)]
      exact ih later fun other member => sameSeen other (mem_cons_of_mem _ member)
    · rw [if_neg old, if_neg fun known => old ((sameSeen item mem_cons_self).mpr known)]
      congr 1
      refine ih later fun other member => ?_
      rw [mem_cons, mem_cons, sameSeen other (mem_cons_of_mem _ member),
        same other (mem_cons_of_mem _ member) item mem_cons_self]

theorem retainFirst_eq_self (distinct : (items.map tag).Nodup)
    (unseen : ∀ item ∈ items, tag item ∉ seen) : retainFirst tag seen items = items := by
  induction items generalizing seen with
  | nil => rfl
  | cons item items ih =>
    rw [map_cons, nodup_cons] at distinct
    rw [retainFirst, if_neg (unseen item mem_cons_self), ih distinct.2]
    intro other member known
    obtain same | known := mem_cons.mp known
    · exact distinct.1 (same ▸ mem_map_of_mem member)
    · exact unseen other (mem_cons_of_mem _ member) known

theorem retainFirst_of_same (same : ∀ item ∈ items, ∀ other ∈ items, tag item = tag other) :
    retainFirst tag [] items = items.take 1 := by
  cases items with
  | nil => rfl
  | cons item items =>
    have none : retainFirst tag [tag item] items = [] := by
      refine eq_nil_iff_forall_not_mem.mpr fun other member => ?_
      have label := ((map_tag_retainFirst [tag item]).2 (tag other)).mp (mem_map_of_mem member)
      have isItem := (retainFirst_sublist tag items [tag item]).subset member
      exact label.2 (by simp [same other (mem_cons_of_mem _ isItem) item mem_cons_self])
    rw [retainFirst, none]
    rfl

/-! ## Ranked lists -/

theorem ranked_map {β : Type*} (rank : β → κ) (project : α → β) (items : List α) :
    ranked rank (items.map project) =
      (ranked (fun item => rank (project item)) items).map project :=
  (map_insertionSort _ _ project items fun _ _ _ _ => Iff.rfl).symm

theorem ranked_congr {κ' : Type*} [LinearOrder κ'] {rank' : α → κ'}
    (same : ∀ item ∈ items, ∀ other ∈ items, rank item ≤ rank other ↔ rank' item ≤ rank' other) :
    ranked rank items = ranked rank' items := by
  have sorted := map_insertionSort (fun item other => rank item ≤ rank other)
    (fun item other => rank' item ≤ rank' other) id items same
  simpa [ranked] using sorted

theorem perm_ranked (rank : α → κ) (items : List α) : (ranked rank items).Perm items :=
  perm_insertionSort _ _

theorem pairwise_le_ranked (key : α → κ) (items : List α) :
    (ranked key items).Pairwise fun first second => key first ≤ key second := by
  exact pairwise_insertionSort _ items

theorem pairwise_ranked (distinct : items.Pairwise fun first second => rank first ≠ rank second) :
    (ranked rank items).Pairwise fun first second => rank first < rank second := by
  have sorted := pairwise_le_ranked rank items
  have apart : (ranked rank items).Pairwise fun first second => rank first ≠ rank second :=
    ((perm_ranked rank items).pairwise_iff Ne.symm).mpr distinct
  exact (sorted.and apart).imp fun both => lt_of_le_of_ne both.1 both.2

/-- A further element is put between the others. -/
theorem ranked_cons (rank : α → κ) (item : α) (items : List α) :
    ∃ before after, ranked rank (item :: items) = before ++ item :: after ∧
      ranked rank items = before ++ after :=
  ⟨_, _, insertionSort_cons_eq_take_drop _ item items, takeWhile_append_dropWhile.symm⟩

variable {others : List α}

theorem ranked_eq_of_perm (distinct : items.Pairwise fun first second => rank first ≠ rank second)
    (perm : items.Perm others) : ranked rank items = ranked rank others := by
  refine (pairwise_ranked distinct).eq_of_mem_iff
    (pairwise_ranked ((perm.pairwise_iff Ne.symm).mp distinct)) fun item => ?_
  rw [(perm_ranked rank items).mem_iff, (perm_ranked rank others).mem_iff, perm.mem_iff]

theorem mem_take_iff (sorted : items.Pairwise fun first second => rank first < rank second)
    (count : Nat) :
    item ∈ items.take count ↔
      item ∈ items ∧ (items.filter fun other => rank other < rank item).length < count := by
  induction items generalizing count with
  | nil => simp
  | cons head items ih =>
    obtain ⟨least, sorted⟩ := pairwise_cons.mp sorted
    cases count with
    | zero => simp
    | succ count =>
      rw [take_succ_cons, mem_cons, mem_cons, ih sorted count]
      constructor
      · rintro (rfl | ⟨member, few⟩)
        · have none : (items.filter fun other => rank other < rank item) = [] := by
            rw [filter_eq_nil_iff]
            intro other later
            simpa using (least other later).le
          simp [none]
        · simp [member, least item member, few]
      · rintro ⟨rfl | member, few⟩
        · exact .inl rfl
        · simp only [filter_cons, least item member, decide_true, if_true,
            length_cons] at few
          exact .inr ⟨member, by omega⟩

/-! ## The best elements -/

def tagsBefore (rank : α → κ) (tag : α → τ) (items : List α) (item : α) : Finset τ :=
  ((items.filter fun other => rank other < rank item).map tag).toFinset

theorem mem_tagsBefore {label : τ} :
    label ∈ tagsBefore rank tag items item ↔
      ∃ other ∈ items, rank other < rank item ∧ tag other = label := by
  simp [tagsBefore, and_assoc]

theorem tagsBefore_mono (subset : items ⊆ others) :
    tagsBefore rank tag items item ⊆ tagsBefore rank tag others item := by
  intro label
  rw [mem_tagsBefore, mem_tagsBefore]
  rintro ⟨other, member, before, same⟩
  exact ⟨other, subset member, before, same⟩

theorem tagsBefore_subset {later : α} (notAfter : rank item ≤ rank later) :
    tagsBefore rank tag items item ⊆ tagsBefore rank tag items later := by
  intro label
  rw [mem_tagsBefore, mem_tagsBefore]
  rintro ⟨other, member, before, same⟩
  exact ⟨other, member, before.trans_le notAfter, same⟩

section Best

variable {count : Nat}

variable (distinct : items.Pairwise fun first second => rank first ≠ rank second)
include distinct

theorem pairwise_retainFirst : (retainFirst tag [] (ranked rank items)).Pairwise fun first second =>
      rank first < rank second :=
  (pairwise_ranked distinct).sublist (retainFirst_sublist tag _ _)

theorem pairwise_best :
    (best rank tag count items).Pairwise fun first second => rank first < rank second :=
  (pairwise_retainFirst distinct).sublist (take_sublist count _)

omit distinct in
theorem best_subset : best rank tag count items ⊆ items := fun _ member =>
  (perm_ranked rank items).mem_iff.mp
    ((retainFirst_sublist tag _ _).subset (mem_of_mem_take member))

variable (tag) in
/-- Each tag has a best element. -/
theorem exists_leader (member : item ∈ items) :
    ∃ leader ∈ items, tag leader = tag item ∧ rank leader ≤ rank item ∧
      tag leader ∉ tagsBefore rank tag items leader ∧
      leader ∈ retainFirst tag [] (ranked rank items) := by
  have present : tag item ∈ (retainFirst tag [] (ranked rank items)).map tag := by
    rw [(map_tag_retainFirst []).2]
    exact ⟨mem_map_of_mem ((perm_ranked rank items).mem_iff.mpr member), by simp⟩
  obtain ⟨leader, kept, same⟩ := mem_map.mp present
  obtain ⟨isLeader, -, leads⟩ := (mem_retainFirst (pairwise_ranked distinct)).mp kept
  refine ⟨leader, (perm_ranked rank items).mem_iff.mp isLeader, same, ?_, fun known => ?_, kept⟩
  · by_contra later
    exact leads item ((perm_ranked rank items).mem_iff.mpr member) (not_le.mp later) same.symm
  · obtain ⟨other, isOther, before, sameTag⟩ := mem_tagsBefore.mp known
    exact leads other ((perm_ranked rank items).mem_iff.mpr isOther) before sameTag

theorem length_filter_retainFirst (item : α) :
    ((retainFirst tag [] (ranked rank items)).filter fun other =>
      rank other < rank item).length = (tagsBefore rank tag items item).card := by
  have tagsDistinct : (((retainFirst tag [] (ranked rank items)).filter fun other =>
      rank other < rank item).map tag).Nodup :=
    (map_tag_retainFirst []).1.sublist (filter_sublist.map tag)
  rw [← length_map tag, ← toFinset_card_of_nodup tagsDistinct]
  congr 1
  ext label
  rw [mem_tagsBefore, mem_toFinset, mem_map]
  constructor
  · rintro ⟨other, member, same⟩
    obtain ⟨kept, before⟩ := mem_filter.mp member
    exact ⟨other, (perm_ranked rank items).mem_iff.mp
      ((retainFirst_sublist tag _ _).subset kept), by simpa using before, same⟩
  · rintro ⟨other, member, before, rfl⟩
    obtain ⟨leader, -, same, notAfter, -, kept⟩ := exists_leader tag distinct member
    exact ⟨leader, mem_filter.mpr ⟨kept, by simpa using notAfter.trans_lt before⟩, same⟩

/-- An element is among the best if no better one has its tag and few tags come before it. -/
theorem mem_best :
    item ∈ best rank tag count items ↔
      item ∈ items ∧ tag item ∉ tagsBefore rank tag items item ∧
        (tagsBefore rank tag items item).card < count := by
  rw [best, mem_take_iff (pairwise_retainFirst distinct), length_filter_retainFirst distinct,
    mem_retainFirst (pairwise_ranked distinct), mem_tagsBefore]
  simp only [(perm_ranked rank items).mem_iff, not_mem_nil, not_false_eq_true, true_and,
    not_exists, not_and, and_assoc]

/-- Without tags each element counts for itself. -/
theorem take_ranked : (ranked rank items).take count = best rank rank count items := by
  have sorted := pairwise_ranked distinct
  have apart : ((ranked rank items).map rank).Nodup := by
    rw [List.Nodup, pairwise_map]
    exact sorted.imp ne_of_lt
  rw [best, retainFirst_eq_self apart fun _ _ => not_mem_nil]

theorem le_card_tagsBefore_best (many : count ≤ (tagsBefore rank tag items item).card) :
    count ≤ (tagsBefore rank tag (best rank tag count items) item).card := by
  have early : ∀ other ∈ best rank tag count items, rank other < rank item := by
    intro other member
    by_contra late
    have few := ((mem_best distinct).mp member).2.2
    have more := Finset.card_le_card
      (tagsBefore_subset (not_lt.mp late) : tagsBefore rank tag items item ⊆ _)
    omega
  have all : (best rank tag count items).filter (fun other => rank other < rank item) =
      best rank tag count items := by
    rw [filter_eq_self]
    intro other member
    simpa using early other member
  have tagsDistinct : ((best rank tag count items).map tag).Nodup :=
    (map_tag_retainFirst []).1.sublist ((take_sublist count _).map tag)
  rw [tagsBefore, all, toFinset_card_of_nodup tagsDistinct, length_map, best,
    length_take, le_min_iff]
  refine ⟨le_rfl, many.trans ?_⟩
  rw [← length_filter_retainFirst distinct]
  exact length_filter_le _ _

end Best

variable {parts : List (List α)}

variable {key : α → κ}

theorem pairwise_flatMap_best (tag : α → τ) (count : Nat)
    (distinct : parts.flatten.Pairwise fun first second => rank first ≠ rank second) :
    (parts.flatMap (best rank tag count)).Pairwise fun first second => rank first ≠ rank second := by
  obtain ⟨within, across⟩ := pairwise_flatten.mp distinct
  rw [flatMap_def, pairwise_flatten, forall_mem_map, pairwise_map]
  exact ⟨fun part isPart => (pairwise_best (within part isPart)).imp ne_of_lt,
    across.imp fun apart item member other otherMember =>
      apart item (best_subset member) other (best_subset otherMember)⟩

/-- The best elements of the lists together are the best of the lists' own best. -/
theorem best_flatMap_best (count : Nat)
    (distinct : parts.flatten.Pairwise fun first second => rank first ≠ rank second) :
    best rank tag count (parts.flatMap (best rank tag count)) =
      best rank tag count parts.flatten := by
  have within : parts.flatMap (best rank tag count) ⊆ parts.flatten := by
    intro item member
    obtain ⟨part, isPart, inBest⟩ := mem_flatMap.mp member
    exact mem_flatten.mpr ⟨part, isPart, best_subset inBest⟩
  have partDistinct : ∀ part ∈ parts,
      part.Pairwise fun first second => rank first ≠ rank second := fun part isPart =>
    (pairwise_flatten.mp distinct).1 part isPart
  have candidatesDistinct := pairwise_flatMap_best tag count distinct
  refine (pairwise_best candidatesDistinct).eq_of_mem_iff (pairwise_best distinct) fun item => ?_
  rw [mem_best candidatesDistinct, mem_best distinct]
  constructor
  · rintro ⟨member, leads, few⟩
    -- Every tag that comes before the element has a candidate that does.
    have tagsKept : tagsBefore rank tag parts.flatten item ⊆
        tagsBefore rank tag (parts.flatMap (best rank tag count)) item := by
      intro label known
      obtain ⟨other, isOther, before, rfl⟩ := mem_tagsBefore.mp known
      obtain ⟨part, isPart, inPart⟩ := mem_flatten.mp isOther
      obtain ⟨leader, isLeader, same, notAfter, leads, -⟩ :=
        exists_leader tag (partDistinct part isPart) inPart
      have bestKept : best rank tag count part ⊆ parts.flatMap (best rank tag count) :=
        fun chosen isChosen => mem_flatMap.mpr ⟨part, isPart, isChosen⟩
      have leaderBefore : rank leader < rank item := notAfter.trans_lt before
      by_cases fewBefore : (tagsBefore rank tag part leader).card < count
      · have chosen := (mem_best (partDistinct part isPart)).mpr ⟨isLeader, leads, fewBefore⟩
        exact mem_tagsBefore.mpr ⟨leader, bestKept chosen, leaderBefore, same⟩
      · have many := le_card_tagsBefore_best (partDistinct part isPart) (not_lt.mp fewBefore)
        have earlier : tagsBefore rank tag (best rank tag count part) leader ⊆
            tagsBefore rank tag (parts.flatMap (best rank tag count)) item :=
          (tagsBefore_mono bestKept).trans (tagsBefore_subset leaderBefore.le)
        have := Finset.card_le_card earlier
        omega
    exact ⟨within member, fun known => leads (tagsKept known),
      (Finset.card_le_card tagsKept).trans_lt few⟩
  · rintro ⟨member, leads, few⟩
    obtain ⟨part, isPart, inPart⟩ := mem_flatten.mp member
    have partWithin : part ⊆ parts.flatten := fun other otherMember =>
      mem_flatten.mpr ⟨part, isPart, otherMember⟩
    refine ⟨mem_flatMap.mpr ⟨part, isPart, (mem_best (partDistinct part isPart)).mpr
      ⟨inPart, fun known => leads (tagsBefore_mono partWithin known),
        (Finset.card_le_card (tagsBefore_mono partWithin)).trans_lt few⟩⟩,
      fun known => leads (tagsBefore_mono within known),
      (Finset.card_le_card (tagsBefore_mono within)).trans_lt few⟩

/-- The same in whatever order the lists' best come. -/
theorem best_of_candidates (tag : α → τ) (count : Nat) {candidates : List α}
    (distinct : parts.flatten.Pairwise fun first second => rank first ≠ rank second)
    (returned : candidates.Perm (parts.flatMap (best rank tag count))) :
    best rank tag count candidates = best rank tag count parts.flatten := by
  have apart := (returned.pairwise_iff Ne.symm).mpr (pairwise_flatMap_best tag count distinct)
  rw [best, ranked_eq_of_perm apart returned, ← best, best_flatMap_best count distinct]

/-! ## Stable sorting -/

theorem pairwise_orderedInsert_of_tied {before : α → α → Prop}
    (ahead : ∀ other ∈ items, key item = key other → before item other)
    (tied : items.Pairwise fun first second => key first = key second → before first second) :
    (items.orderedInsert (fun first second => key first ≤ key second) item).Pairwise
      fun first second => key first = key second → before first second := by
  induction items with
  | nil => exact pairwise_singleton _ _
  | cons head items ih =>
    obtain ⟨first, rest⟩ := pairwise_cons.mp tied
    rw [orderedInsert_cons]
    split
    next => exact pairwise_cons.mpr ⟨ahead, tied⟩
    next later =>
      refine pairwise_cons.mpr ⟨fun other member equal => ?_,
        ih (fun other member => ahead other (mem_cons_of_mem _ member)) rest⟩
      obtain rfl | member := (mem_orderedInsert _).mp member
      · exact absurd equal.ge later
      · exact first other member equal

/-- Sorting keeps the order of elements with equal keys. -/
theorem pairwise_ranked_of_tied {before : α → α → Prop}
    (tied : items.Pairwise fun first second => key first = key second → before first second) :
    (ranked key items).Pairwise fun first second => key first = key second → before first second := by
  induction items with
  | nil => exact List.Pairwise.nil
  | cons head items ih =>
    obtain ⟨first, rest⟩ := pairwise_cons.mp tied
    refine pairwise_orderedInsert_of_tied (fun other member => ?_) (ih rest)
    exact first other ((perm_ranked key items).mem_iff.mp member)

theorem ranked_eq_ranked_lex {ρ : Type*} [LinearOrder ρ] {rank : α → ρ}
    (tied : items.Pairwise fun first second => key first = key second → rank first < rank second)
    (distinct : others.Pairwise fun first second => rank first ≠ rank second)
    (same : ∀ item, item ∈ items ↔ item ∈ others) :
    ranked key items = ranked (fun item => toLex (key item, rank item)) others := by
  have apart : others.Pairwise fun first second =>
      toLex (key first, rank first) ≠ toLex (key second, rank second) :=
    distinct.imp fun different equal => different (congrArg (fun pair => (ofLex pair).2) equal)
  have sorted : (ranked key items).Pairwise fun first second =>
      toLex (key first, rank first) < toLex (key second, rank second) := by
    refine ((pairwise_le_ranked key items).and (pairwise_ranked_of_tied tied)).imp ?_
    intro first second both
    rw [Prod.Lex.toLex_lt_toLex]
    obtain strict | equal := both.1.lt_or_eq
    · exact .inl strict
    · exact .inr ⟨equal, both.2 equal⟩
  refine sorted.eq_of_mem_iff (pairwise_ranked apart) fun item => ?_
  rw [(perm_ranked _ _).mem_iff, (perm_ranked _ _).mem_iff, same]

end TopOfUnions
