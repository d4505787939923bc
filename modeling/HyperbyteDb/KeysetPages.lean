import Mathlib.Algebra.Order.Ring.Nat

/-!
# Pages of a sorted table

A reader takes a sorted table page by page: the first rows that are ahead of it, up to a limit,
together with all further rows of the last one's key.  It then goes on after that key.
-/

namespace KeysetPages

open List

variable {ρ κ : Type*} [LinearOrder κ] (key : ρ → κ)

def pageWithTies (limit : Nat) (rows : List ρ) : List ρ :=
  match (rows.take limit).getLast? with
  | none => []
  | some last => rows.take limit ++ (rows.drop limit).takeWhile fun row => key row = key last

variable {key} {limit : Nat} {rows : List ρ}

theorem pageWithTies_eq_nil_iff (positive : 0 < limit) :
    pageWithTies key limit rows = [] ↔ rows = [] := by
  constructor
  · intro empty
    unfold pageWithTies at empty
    split at empty
    next none =>
      rw [getLast?_eq_none_iff, take_eq_nil_iff] at none
      exact none.resolve_left (by omega)
    next last isLast =>
      rw [(append_eq_nil_iff.mp empty).1] at isLast
      cases isLast
  · rintro rfl
    simp [pageWithTies]

theorem mem_of_mem_pageWithTies {row : ρ} (member : row ∈ pageWithTies key limit rows) :
    row ∈ rows := by
  unfold pageWithTies at member
  split at member
  next => cases member
  next =>
    rcases mem_append.mp member with taken | tied
    · exact mem_of_mem_take taken
    · exact mem_of_mem_drop ((takeWhile_subset _) tied)

theorem exists_pageWithTies_append (sorted : rows.Pairwise fun row other => key row ≤ key other)
    {last : ρ} (isLast : (pageWithTies key limit rows).getLast? = some last) :
    ∃ rest, rows = pageWithTies key limit rows ++ rest ∧
      (∀ row ∈ pageWithTies key limit rows, key row ≤ key last) ∧
      ∀ row ∈ rest, key last < key row := by
  unfold pageWithTies at isLast ⊢
  split at isLast
  next => cases isLast
  next cut isCut =>
    set ties := (rows.drop limit).takeWhile fun row => key row = key cut
    set rest := (rows.drop limit).dropWhile fun row => key row = key cut with restEq
    have whole : rows = rows.take limit ++ ties ++ rest := by
      rw [append_assoc, takeWhile_append_dropWhile, take_append_drop]
    have sameKey : key last = key cut := by
      rw [getLast?_append] at isLast
      cases tied : ties.getLast? with
      | none =>
        rw [tied, isCut] at isLast
        cases isLast
        rfl
      | some tie =>
        rw [tied] at isLast
        cases isLast
        exact of_decide_eq_true (all_eq_true.mp all_takeWhile last (mem_of_getLast? tied))
    rw [whole, pairwise_append] at sorted
    obtain ⟨sortedPage, sortedRest, across⟩ := sorted
    have atMost : ∀ row ∈ rows.take limit ++ ties, key row ≤ key last := by
      intro row member
      obtain ⟨front, split⟩ := getLast?_eq_some_iff.mp isLast
      rw [split] at sortedPage member
      rcases mem_append.mp member with earlier | isLast
      · exact (pairwise_append.mp sortedPage).2.2 row earlier last (by simp)
      · exact (congrArg key (mem_singleton.mp isLast)).le
    refine ⟨rest, whole, atMost, ?_⟩
    -- The first row after the ties has another key, and the later ones are above it.
    intro row member
    have isMember := mem_of_getLast? isLast
    cases isRest : rest with
    | nil =>
      rw [isRest] at member
      cases member
    | cons first later =>
      have differs : key first ≠ key last := by
        have tieEnds := head?_dropWhile_not (fun row => decide (key row = key cut))
          (rows.drop limit)
        rw [← restEq, isRest] at tieEnds
        simpa [sameKey] using tieEnds
      have firstAbove : key last < key first :=
        lt_of_le_of_ne (across last isMember first (by simp [isRest])) differs.symm
      rw [isRest] at member sortedRest
      rcases mem_cons.mp member with rfl | isLater
      · exact firstAbove
      · exact firstAbove.trans_le ((pairwise_cons.mp sortedRest).1 row isLater)

theorem pageWithTies_eq_of_length_lt (short : (pageWithTies key limit rows).length < limit) :
    pageWithTies key limit rows = rows := by
  unfold pageWithTies at short ⊢
  split at short
  next none =>
    rw [getLast?_eq_none_iff, take_eq_nil_iff] at none
    exact (none.resolve_left (by omega)).symm
  next =>
    rw [length_append, length_take] at short
    have few : rows.length ≤ limit := by omega
    rw [take_of_length_le few, drop_eq_nil_of_le few]
    simp

/-! ## A reader's place -/

def Upward (key : ρ → κ) (ahead : ρ → Bool) : Prop :=
  ∀ row other, key row ≤ key other → ahead row = true → ahead other = true

theorem upward_after (bound : κ) : Upward key fun row => bound < key row := by
  intro row other below isAhead
  exact decide_eq_true ((of_decide_eq_true isAhead).trans_le below)

/-- What is ahead is a page, followed by what lies after the page. -/
theorem filter_eq_page_append (sorted : rows.Pairwise fun row other => key row ≤ key other)
    {ahead : ρ → Bool} (upward : Upward key ahead) {last : ρ}
    (isLast : (pageWithTies key limit (rows.filter ahead)).getLast? = some last) :
    rows.filter ahead = pageWithTies key limit (rows.filter ahead) ++
      rows.filter fun row => key last < key row := by
  obtain ⟨rest, whole, atMost, above⟩ := exists_pageWithTies_append (sorted.filter _) isLast
  have lastAhead : ahead last = true := by
    have member : last ∈ rows.filter ahead := by
      rw [whole]
      exact mem_append_left _ (mem_of_getLast? isLast)
    exact (mem_filter.mp member).2
  have afterLast : (rows.filter fun row => key last < key row) = rest := calc
    rows.filter (fun row => key last < key row) =
        (rows.filter ahead).filter fun row => key last < key row := by
      rw [filter_filter]
      apply filter_congr
      intro row _
      rw [eq_comm, Bool.and_eq_left_iff_imp]
      exact fun greater => upward last row (of_decide_eq_true greater).le lastAhead
    _ = rest := by
      rw [whole, filter_append, filter_eq_nil_iff.mpr, nil_append, filter_eq_self.mpr]
      · exact fun row member => decide_eq_true (above row member)
      · exact fun row member => by simpa using atMost row member
  rw [afterLast]
  exact whole

end KeysetPages
