import Mathlib.Algebra.Order.Ring.Nat
import Mathlib.Data.List.Basic
import Mathlib.Data.List.TakeWhile

/-!
# An ordered row store

Rows under ordered keys, changed by atomic batches of puts and deletes.
-/

namespace OrderedRows

open List

abbrev Rows (κ β : Type*) [Ord κ] := Std.ExtTreeMap κ β compare

inductive BatchEntry (κ β : Type*) where
  | put (key : κ) (value : β)
  | delete (key : κ)

section Batches

variable {κ β : Type*} [Ord κ] [Std.TransOrd κ]

variable {rows : Rows κ β} {entries : List (κ × β)}

def applyEntry (rows : Rows κ β) : BatchEntry κ β → Rows κ β
  | .put key value => rows.insert key value
  | .delete key => rows.erase key

/-- Commit a batch; later entries win over earlier ones. -/
def write (rows : Rows κ β) (batch : List (BatchEntry κ β)) : Rows κ β :=
  batch.foldl applyEntry rows

@[simp] theorem write_nil (rows : Rows κ β) : write rows [] = rows := rfl

@[simp] theorem write_cons (rows : Rows κ β) (entry : BatchEntry κ β)
    (batch : List (BatchEntry κ β)) :
    write rows (entry :: batch) = write (applyEntry rows entry) batch := rfl

theorem write_append (rows : Rows κ β) (first second : List (BatchEntry κ β)) :
    write rows (first ++ second) = write (write rows first) second :=
  foldl_append

theorem write_puts :
    write rows (entries.map fun entry => .put entry.1 entry.2) = rows.insertMany entries := by
  induction entries generalizing rows with
  | nil => simp
  | cons first entries ih =>
    rw [map_cons, write_cons, ih, Std.ExtTreeMap.insertMany_cons]
    rfl

variable [Std.LawfulEqOrd κ] [DecidableEq κ]

@[simp] theorem lookup_put (rows : Rows κ β) (key other : κ) (value : β) :
    (applyEntry rows (.put key value))[other]? =
      if key = other then some value else rows[other]? := by
  simp [applyEntry, Std.ExtTreeMap.getElem?_insert]

@[simp] theorem lookup_delete (rows : Rows κ β) (key other : κ) :
    (applyEntry rows (.delete key))[other]? = if key = other then none else rows[other]? := by
  simp [applyEntry, Std.ExtTreeMap.getElem?_erase]

theorem lookup_write_deletes (rows : Rows κ β) (keys : List κ) (key : κ) :
    (write rows (keys.map .delete))[key]? = if key ∈ keys then none else rows[key]? := by
  induction keys generalizing rows with
  | nil => simp
  | cons first keys ih =>
    rw [map_cons, write_cons, ih]
    by_cases later : key ∈ keys
    · simp [later]
    · by_cases here : first = key
      · simp [here]
      · simp [here, Ne.symm here]

/-- The last value that a batch of puts has for a key is stored. -/
theorem lookup_write_puts (key : κ) :
    (write rows (entries.map fun entry => .put entry.1 entry.2))[key]? =
      (entries.reverse.findSome? fun entry =>
        if entry.1 = key then some entry.2 else none).or rows[key]? := by
  rw [write_puts, Std.ExtTreeMap.getElem?_insertMany_list, findSomeRev?_eq_findSome?_reverse]
  simp only [Std.compare_eq_iff_eq]

variable {key : κ}

theorem lookup_write_puts_of_not_mem (rows : Rows κ β) (absent : ∀ entry ∈ entries, entry.1 ≠ key) :
    (write rows (entries.map fun entry => .put entry.1 entry.2))[key]? = rows[key]? := by
  rw [lookup_write_puts, findSome?_eq_none_iff.mpr, Option.none_or]
  intro entry member
  rw [if_neg (absent entry (mem_reverse.mp member))]

theorem mem_or_of_lookup_write_puts {value : β}
    (found : (write rows (entries.map fun entry => .put entry.1 entry.2))[key]? = some value) :
    (key, value) ∈ entries ∨ (∀ entry ∈ entries, entry.1 ≠ key) ∧ rows[key]? = some value := by
  rw [lookup_write_puts, Option.or_eq_some_iff, findSome?_eq_none_iff] at found
  rcases found with put | ⟨absent, old⟩
  · obtain ⟨entry, member, same⟩ := exists_of_findSome?_eq_some put
    obtain ⟨rfl, rfl⟩ : entry.1 = key ∧ entry.2 = value := by simpa using same
    exact Or.inl (mem_reverse.mp member)
  · refine Or.inr ⟨fun entry member same => ?_, old⟩
    have missed := absent entry (mem_reverse.mpr member)
    rw [if_pos same] at missed
    cases missed

theorem mem_write_puts :
    key ∈ write rows (entries.map fun entry => .put entry.1 entry.2) ↔
      key ∈ entries.map Prod.fst ∨ key ∈ rows := by
  rw [write_puts, Std.ExtTreeMap.mem_insertMany_list, or_comm, contains_iff_mem]

theorem mem_write_deletes {keys : List κ} :
    key ∈ write rows (keys.map .delete) ↔ key ∈ rows ∧ key ∉ keys := by
  rw [Std.ExtTreeMap.mem_iff_isSome_getElem?, lookup_write_deletes]
  split <;> simp_all

/-- When equal keys come with equal values, a batch of puts stores every value it
lists. -/
theorem lookup_write_puts_of_mem (rows : Rows κ β)
    (functional : ∀ first ∈ entries, ∀ second ∈ entries, first.1 = second.1 → first.2 = second.2)
    {entry : κ × β} (member : entry ∈ entries) :
    (write rows (entries.map fun entry => .put entry.1 entry.2))[entry.1]? = some entry.2 := by
  have stored : entry.1 ∈ write rows (entries.map fun entry => .put entry.1 entry.2) :=
    mem_write_puts.mpr (Or.inl (mem_map_of_mem member))
  obtain ⟨value, found⟩ := Option.isSome_iff_exists.mp
    (Std.ExtTreeMap.mem_iff_isSome_getElem?.mp stored)
  rcases mem_or_of_lookup_write_puts found with put | ⟨absent, -⟩
  · exact found.trans (congrArg some (functional _ put _ member rfl))
  · exact absurd rfl (absent entry member)

end Batches

section Scans

variable {α β : Type*} [Ord α] {word key : List α}

/-- Past the first key that neither precedes a word nor extends it, no key extends
the word. -/
theorem not_prefix_of_compare_lt [Std.LawfulEqOrd α] {later : List α}
    (notBefore : compare key word ≠ .lt) (notPrefix : ¬word <+: key)
    (ascending : compare key later = .lt) : ¬word <+: later := by
  rw [List.compare_eq_compareLex] at notBefore ascending
  induction word generalizing key later with
  | nil => exact absurd List.nil_prefix notPrefix
  | cons letter word ih =>
    rintro ⟨rest, rfl⟩
    cases key with
    | nil => simp [List.compareLex_nil_cons] at notBefore
    | cons first key =>
      rw [List.cons_append, List.compareLex_cons_cons] at ascending
      rw [List.compareLex_cons_cons] at notBefore
      cases order : compare first letter with
      | lt => simp [order] at notBefore
      | gt => simp [order] at ascending
      | eq =>
        obtain rfl := Std.LawfulEqCmp.eq_of_compare order
        rw [order] at notBefore ascending
        refine ih notBefore (fun isPrefix => notPrefix ?_) ascending (prefix_append word rest)
        exact (List.prefix_cons_inj first).mpr isPrefix

variable [Std.TransOrd α]

theorem compare_ne_lt_of_front (isPrefix : word <+: key) : compare key word ≠ .lt := by
  rw [List.compare_eq_compareLex]
  induction word generalizing key with
  | nil => cases key <;> simp [List.compareLex_nil_nil, List.compareLex_cons_nil]
  | cons letter word ih =>
    obtain ⟨rest, rfl⟩ := isPrefix
    have same : compare letter letter = .eq := Std.ReflCmp.compare_self
    rw [List.cons_append, List.compareLex_cons_cons, same]
    exact ih (prefix_append word rest)

variable [BEq α]

/-- The rows an iterator started at `word` yields until the first key without that
prefix. -/
def scanPrefix (word : List α) (rows : Rows (List α) β) : List (List α × β) :=
  (rows.toList.dropWhile fun row => compare row.1 word == .lt).takeWhile
    fun row => word.isPrefixOf row.1

variable [Std.LawfulEqOrd α] [LawfulBEq α]

/-- In ascending rows, dropping up to the word and taking while it is a prefix
leaves exactly the rows with that prefix. -/
theorem mem_dropWhile_takeWhile_iff {rows : List (List α × β)}
    (ascending : rows.Pairwise fun first second => compare first.1 second.1 = .lt)
    {row : List α × β} :
    row ∈ (rows.dropWhile fun row => compare row.1 word == .lt).takeWhile
        (fun row => word.isPrefixOf row.1) ↔ row ∈ rows ∧ word <+: row.1 := by
  induction rows with
  | nil => simp
  | cons first rows ih =>
    obtain ⟨above, rest⟩ := pairwise_cons.mp ascending
    by_cases before : compare first.1 word = .lt
    · have notFirst : ¬word <+: first.1 := fun isPrefix =>
        compare_ne_lt_of_front isPrefix before
      rw [dropWhile_cons_of_pos (by simpa using before), ih rest]
      grind
    · rw [dropWhile_cons_of_neg (by simpa using before)]
      by_cases extends_ : word <+: first.1
      · rw [takeWhile_cons_of_pos (by simpa using extends_)]
        have noneBefore : (rows.dropWhile fun row => compare row.1 word == .lt) = rows := by
          rw [dropWhile_eq_self_iff]
          intro nonempty
          have later := above _ (getElem_mem nonempty)
          rw [beq_iff_eq]
          exact fun isBefore => before (Std.TransCmp.lt_trans later isBefore)
        rw [noneBefore] at ih
        rw [mem_cons, mem_cons, ih rest]
        grind
      · rw [takeWhile_cons_of_neg (by simpa using extends_)]
        refine iff_of_false (by simp) ?_
        rintro ⟨member, isPrefix⟩
        rcases mem_cons.mp member with rfl | later
        · exact extends_ isPrefix
        · exact not_prefix_of_compare_lt before extends_ (above row later) isPrefix

theorem mem_scanPrefix_iff {rows : Rows (List α) β} {value : β} :
    (key, value) ∈ scanPrefix word rows ↔ word <+: key ∧ rows[key]? = some value := by
  rw [scanPrefix, mem_dropWhile_takeWhile_iff Std.ExtTreeMap.ordered_keys_toList,
    Std.ExtTreeMap.mem_toList_iff_getElem?_eq_some, and_comm]

end Scans

section Cuts

variable {κ β : Type*} [LinearOrder κ]

/-- `part` has the rows of `all` up to some key. -/
structure CutAbove (all part : List (κ × β)) : Prop where
  subset : ∀ row ∈ part, row ∈ all
  closed : ∀ row ∈ part, ∀ other ∈ all, other.1 ≤ row.1 → other ∈ part

theorem CutAbove.trans {all middle part : List (κ × β)} (first : CutAbove all middle)
    (second : CutAbove middle part) : CutAbove all part := by
  constructor
  · intro row member
    exact first.subset row (second.subset row member)
  · intro row member other inAll below
    have inMiddle := first.closed row (second.subset row member) other inAll below
    exact second.closed row member other inMiddle below

theorem CutAbove.filter_le (all : List (κ × β)) (bound : κ) :
    CutAbove all (all.filter fun row => row.1 ≤ bound) := by
  constructor
  · intro row member
    exact mem_of_mem_filter member
  · intro row member other inAll below
    have inside : row.1 ≤ bound := by simpa using of_mem_filter member
    simpa using And.intro inAll (below.trans inside)

theorem CutAbove.of_front {all part : List (κ × β)}
    (ascending : all.Pairwise fun first second => first.1 < second.1)
    (isPrefix : part <+: all) : CutAbove all part := by
  obtain ⟨rest, rfl⟩ := isPrefix
  constructor
  · intro row member
    exact mem_append_left rest member
  · intro row member other inAll below
    rcases mem_append.mp inAll with here | later
    · exact here
    · have above := (pairwise_append.mp ascending).2.2 row member other later
      exact absurd above (not_lt_of_ge below)

end Cuts

end OrderedRows
