import HyperbyteDb.RegionPruning

/-!
# Time bounds of a condition

The times that a condition allows are read off its comparisons with literal times: bounds of
terms that all hold are intersected, and alternatives are bounded where each of them is.
-/

namespace HyperbyteDb

open Ast List Option

structure TimeBounds where
  min : Option Int64 := none
  max : Option Int64 := none

namespace TimeBounds

def intersect (bounds other : TimeBounds) : TimeBounds where
  min := .merge Max.max bounds.min other.min
  max := .merge Min.min bounds.max other.max

def hasTimeConstraint (bounds : TimeBounds) : Bool :=
  bounds.min.isSome || bounds.max.isSome

/-- A missing side is unbounded. -/
def Contains (bounds : TimeBounds) (time : Int64) : Prop :=
  (∀ low ∈ bounds.min, low ≤ time) ∧ ∀ high ∈ bounds.max, time ≤ high

end TimeBounds

def isTimeColumn : Expr → Bool
  | .identifier name => isTimeIdentifier name
  | _ => false

/-- A time since the epoch, in nanoseconds. -/
def epochNanos : Expr → Option Int64
  | .durationLiteral duration => some (.ofInt duration.toNanos)
  | .integerLiteral value => some value
  | _ => none

def isComparison : BinaryOp → Bool
  | .eq | .neq | .lt | .lte | .gt | .gte => true
  | _ => false

def isTimeEpochComparison (left : Expr) (op : BinaryOp) (right : Expr) : Bool :=
  isComparison op &&
    if isTimeColumn left then (epochNanos right).isSome
    else isTimeColumn right && (epochNanos left).isSome

/-- The operator with its operands exchanged. -/
def flipped : BinaryOp → BinaryOp
  | .gt => .lt
  | .gte => .lte
  | .lt => .gt
  | .lte => .gte
  | op => op

/-- Bounds are inclusive: a strict comparison excludes its own instant. -/
def boundsOfOp (nanos : Int64) : BinaryOp → TimeBounds
  | .gte => { min := nanos }
  | .eq => { min := nanos, max := nanos }
  | .gt => { min := nanos.saturatingAdd 1 }
  | .lte => { max := nanos }
  | .lt => { max := nanos.saturatingSub 1 }
  | _ => {}

def boundsFromComparison (left : Expr) (op : BinaryOp) (right : Expr) : TimeBounds :=
  let timeIsLeft := isTimeColumn left
  match epochNanos (if timeIsLeft then right else left) with
  | none => {}
  | some nanos => boundsOfOp nanos (if timeIsLeft then op else flipped op)

def boundsForAndTree : Expr → TimeBounds
  | .binaryExpr left op right =>
    if op = .and then (boundsForAndTree left).intersect (boundsForAndTree right)
    else if isTimeEpochComparison left op right then boundsFromComparison left op right
    else {}
  | _ => {}

def collectOrDisjuncts : Expr → List Expr
  | .binaryExpr left .or right => collectOrDisjuncts left ++ collectOrDisjuncts right
  | expr => [expr]

def boundsForExpr (expr : Expr) : TimeBounds :=
  let bounds := (collectOrDisjuncts expr).map boundsForAndTree
  if bounds.any (!·.hasTimeConstraint) || bounds.isEmpty then {}
  else
    { min := if bounds.all (·.min.isSome) then (bounds.filterMap (·.min)).min? else none
      max := if bounds.all (·.max.isSome) then (bounds.filterMap (·.max)).max? else none }

def extractTimeBounds (condition : Option Expr) : Option Int64 × Option Int64 :=
  match condition with
  | none => (none, none)
  | some expr => ((boundsForExpr expr).min, (boundsForExpr expr).max)

/-! ## What a condition means for a row -/

def timeOperand (time : Int64) (expr : Expr) : Option Int64 :=
  if isTimeColumn expr then some time else epochNanos expr

def compareTimes (left right : Int64) : BinaryOp → Bool
  | .eq => left = right
  | .neq => left ≠ right
  | .lt => left < right
  | .lte => left ≤ right
  | .gt => right < left
  | .gte => right ≤ left
  | _ => false

/-- The truth of a condition for a row at a time; `other` decides the terms that do not compare
times with literals. -/
def rowSatisfies (time : Int64) (other : Expr → Bool) : Expr → Bool
  | .binaryExpr left op right =>
    match op with
    | .and => rowSatisfies time other left && rowSatisfies time other right
    | .or => rowSatisfies time other left || rowSatisfies time other right
    | op =>
      match timeOperand time left, timeOperand time right with
      | some first, some second =>
        if isComparison op then compareTimes first second op
        else other (.binaryExpr left op right)
      | _, _ => other (.binaryExpr left op right)
  | .unaryExpr .not inner => !rowSatisfies time other inner
  | expr => other expr

/-! ## Soundness -/

section Sound

variable {time : Int64} {other : Expr → Bool}

theorem TimeBounds.Contains.intersect {bounds more : TimeBounds} (inFirst : bounds.Contains time)
    (inSecond : more.Contains time) : (bounds.intersect more).Contains time := by
  obtain ⟨low, high⟩ := bounds
  obtain ⟨otherLow, otherHigh⟩ := more
  constructor
  · cases low <;> cases otherLow <;>
      simp_all [TimeBounds.intersect, TimeBounds.Contains, Std.LawfulOrderSup.max_le_iff]
  · cases high <;> cases otherHigh <;>
      simp_all [TimeBounds.intersect, TimeBounds.Contains, Std.LawfulOrderInf.le_min_iff]

theorem compareTimes_flipped (left right : Int64) (op : BinaryOp) :
    compareTimes right left (flipped op) = compareTimes left right op := by
  cases op <;> simp [flipped, compareTimes, eq_comm]

variable {nanos : Int64} {op : BinaryOp}

theorem contains_boundsOfOp
    (holds : compareTimes time nanos op = true) : (boundsOfOp nanos op).Contains time := by
  cases op <;> simp_all [compareTimes, boundsOfOp, TimeBounds.Contains,
    Int64.saturatingAdd_one_le, Int64.le_saturatingSub_one]

theorem timeOperand_of_epochNanos {expr : Expr}
    (isNanos : epochNanos expr = some nanos) : timeOperand time expr = some nanos := by
  cases expr <;> simp_all [timeOperand, isTimeColumn, epochNanos]

theorem contains_boundsFromComparison {left right : Expr}
    (isEpoch : isTimeEpochComparison left op right = true)
    (holds : rowSatisfies time other (.binaryExpr left op right) = true) :
    (boundsFromComparison left op right).Contains time := by
  rw [isTimeEpochComparison, Bool.and_eq_true] at isEpoch
  obtain ⟨compares, literal⟩ := isEpoch
  have compared : ∀ {first second}, timeOperand time left = some first →
      timeOperand time right = some second → compareTimes first second op = true := by
    intro first second isFirst isSecond
    cases op <;> simp_all [rowSatisfies, isComparison]
  unfold boundsFromComparison
  split at literal
  next timeIsLeft =>
    obtain ⟨nanos, isNanos⟩ := isSome_iff_exists.mp literal
    simp only [timeIsLeft, if_true, isNanos]
    exact contains_boundsOfOp (compared (if_pos timeIsLeft) (timeOperand_of_epochNanos isNanos))
  next timeIsRight =>
    rw [Bool.and_eq_true] at literal
    obtain ⟨nanos, isNanos⟩ := isSome_iff_exists.mp literal.2
    simp only [timeIsRight, if_false, isNanos, Bool.false_eq_true]
    refine contains_boundsOfOp ?_
    rw [compareTimes_flipped]
    exact compared (timeOperand_of_epochNanos isNanos) (if_pos literal.1)

section

variable {expr : Expr} (holds : rowSatisfies time other expr = true)
include holds

theorem contains_boundsForAndTree : (boundsForAndTree expr).Contains time := by
  fun_induction boundsForAndTree expr with
  | case1 left right leftIh rightIh =>
    rw [rowSatisfies, Bool.and_eq_true] at holds
    exact (leftIh holds.1).intersect (rightIh holds.2)
  | case2 left op right _ isTime => exact contains_boundsFromComparison isTime holds
  | case3 | case4 => simp [TimeBounds.Contains]

theorem exists_disjunct :
    ∃ disjunct ∈ collectOrDisjuncts expr, rowSatisfies time other disjunct = true := by
  fun_induction collectOrDisjuncts expr with
  | case1 left right leftIh rightIh =>
    rw [rowSatisfies, Bool.or_eq_true] at holds
    obtain leftHolds | rightHolds := holds
    · obtain ⟨disjunct, member, satisfied⟩ := leftIh leftHolds
      exact ⟨disjunct, mem_append_left _ member, satisfied⟩
    · obtain ⟨disjunct, member, satisfied⟩ := rightIh rightHolds
      exact ⟨disjunct, mem_append_right _ member, satisfied⟩
  | case2 expr => exact ⟨expr, mem_singleton_self expr, holds⟩

theorem contains_boundsForExpr : (boundsForExpr expr).Contains time := by
  obtain ⟨disjunct, member, satisfied⟩ := exists_disjunct holds
  have within := contains_boundsForAndTree satisfied
  have listed : boundsForAndTree disjunct ∈ (collectOrDisjuncts expr).map boundsForAndTree :=
    mem_map_of_mem member
  unfold boundsForExpr
  dsimp only
  split
  · simp [TimeBounds.Contains]
  · constructor
    · intro low isLow
      obtain ⟨all, isLow⟩ := ite_none_right_eq_some.mp isLow
      obtain ⟨own, ownLow⟩ := isSome_iff_exists.mp (all_eq_true.mp all _ listed)
      exact Int64.le_trans ((min?_eq_some_iff.mp isLow).2 own
        (mem_filterMap.mpr ⟨_, listed, ownLow⟩)) (within.1 own ownLow)
    · intro high isHigh
      obtain ⟨all, isHigh⟩ := ite_none_right_eq_some.mp isHigh
      obtain ⟨own, ownHigh⟩ := isSome_iff_exists.mp (all_eq_true.mp all _ listed)
      exact Int64.le_trans (within.2 own ownHigh) ((max?_eq_some_iff.mp isHigh).2 own
        (mem_filterMap.mpr ⟨_, listed, ownHigh⟩))

/-- A row that satisfies a condition lies within its time bounds, and so does its bucket. -/
theorem extractTimeBounds_sound : (∀ low ∈ (extractTimeBounds (some expr)).1, low ≤ time ∧
      ∀ step : Int, 0 < step → low.toInt / step ≤ time.toInt / step) ∧
    ∀ high ∈ (extractTimeBounds (some expr)).2, time ≤ high ∧
      ∀ step : Int, 0 < step → time.toInt / step ≤ high.toInt / step := by
  obtain ⟨above, below⟩ := contains_boundsForExpr holds
  constructor
  · intro low isLow
    have atLeast := above low isLow
    exact ⟨atLeast, fun step positive =>
      Int.ediv_le_ediv positive (Int64.le_iff_toInt_le.mp atLeast)⟩
  · intro high isHigh
    have atMost := below high isHigh
    exact ⟨atMost, fun step positive =>
      Int.ediv_le_ediv positive (Int64.le_iff_toInt_le.mp atMost)⟩

end

end Sound

def betweenBounds : Expr :=
  .binaryExpr (.binaryExpr (.identifier "time") .gt (.integerLiteral 100)) .and
    (.binaryExpr (.integerLiteral 500) .gt (.identifier "TIME"))

/-- A row at 150 is between the strict bounds 100 and 500. -/
theorem extractTimeBounds_between :
    rowSatisfies 150 (fun _ => false) betweenBounds = true ∧
      (extractTimeBounds (some betweenBounds)).1 = some 101 ∧ (101 : Int64) ≤ 150 :=
  ⟨by decide, by decide, ((@extractTimeBounds_sound 150 (fun _ => false) betweenBounds
    (by decide)).1 101 (by decide)).1⟩

end HyperbyteDb
