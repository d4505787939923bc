import Mathlib.Algebra.Order.Ring.Nat

/-!
# Saturating counters on 64-bit machine words

Identifiers, epochs and sequence numbers are 64-bit words that saturate rather than wrap.
-/

instance UInt64.instLinearOrder : LinearOrder UInt64 where
  le_refl := UInt64.le_refl
  le_trans _ _ _ := UInt64.le_trans
  lt_iff_le_not_ge first second := by
    simp only [UInt64.lt_iff_toNat_lt, UInt64.le_iff_toNat_le]
    omega
  le_antisymm _ _ := UInt64.le_antisymm
  le_total := UInt64.le_total
  toDecidableLE := inferInstance

instance UInt64.instLawfulOrderMax : Std.LawfulOrderMax UInt64 :=
  .of_max_le_iff (fun _ _ _ => max_le_iff) max_choice

namespace UInt64

def maxValue : UInt64 := 18446744073709551615

/-- Addition that stays at `maxValue` instead of wrapping. -/
def saturatingAdd (first second : UInt64) : UInt64 :=
  if first.toNat + second.toNat < 2 ^ 64 then first + second else maxValue

theorem le_maxValue (word : UInt64) : word ≤ maxValue := by
  have bounded := word.toNat_lt
  change word.toNat ≤ 18446744073709551615
  omega

variable {word : UInt64}

theorem lt_maxValue_iff : word < maxValue ↔ word ≠ maxValue := by
  rw [lt_iff_le_and_ne]
  exact ⟨fun below => below.2, fun notTop => ⟨le_maxValue word, notTop⟩⟩

/-- A sum that fits is the numeric sum. -/
theorem toNat_saturatingAdd {first second : UInt64} (fits : first.toNat + second.toNat < 2 ^ 64) :
    (first.saturatingAdd second).toNat = first.toNat + second.toNat := by
  rw [saturatingAdd, if_pos fits]
  exact Nat.mod_eq_of_lt fits

/-- Below the top, one saturating increment is the numeric successor. -/
theorem toNat_saturatingAdd_one (below : word < maxValue) :
    (word.saturatingAdd 1).toNat = word.toNat + 1 := by
  have bounded : word.toNat < 18446744073709551615 :=
    UInt64.lt_iff_toNat_lt.mp below
  refine toNat_saturatingAdd ?_
  change word.toNat + 1 < 2 ^ 64
  omega

@[simp] theorem saturatingAdd_zero (word : UInt64) : word.saturatingAdd 0 = word := by
  rw [saturatingAdd, if_pos (by simpa using word.toNat_lt)]
  simp

theorem lt_saturatingAdd_one (below : word < maxValue) : word < word.saturatingAdd 1 := by
  rw [UInt64.lt_iff_toNat_lt, toNat_saturatingAdd_one below]
  omega

theorem le_saturatingAdd_one (word : UInt64) : word ≤ word.saturatingAdd 1 := by
  by_cases below : word < maxValue
  · exact le_of_lt (lt_saturatingAdd_one below)
  · have top : word = maxValue := by
      by_contra notTop
      exact below (lt_maxValue_iff.mpr notTop)
    rw [top]
    exact le_rfl

/-- A word strictly above the incremented one is strictly above the original:
incrementing never skips a word. -/
theorem lt_saturatingAdd_one_iff {other : UInt64} (below : word < maxValue) :
    other < word.saturatingAdd 1 ↔ other ≤ word := by
  rw [UInt64.lt_iff_toNat_lt, UInt64.le_iff_toNat_le, toNat_saturatingAdd_one below]
  omega

end UInt64

/-- Multiplication of signed words that stays at the end of the range it passes. -/
def Int64.saturatingMul (first second : Int64) : Int64 :=
  .ofInt (max Int64.minValue.toInt (min Int64.maxValue.toInt (first.toInt * second.toInt)))

namespace Int64

theorem max_eq_ite (first second : Int64) :
    max first second = if first ≤ second then second else first := rfl

instance instLawfulOrderMax : Std.LawfulOrderMax Int64 :=
  .of_max_le_iff
    (fun first second bound => by
      rw [max_eq_ite]
      split <;> simp only [le_iff_toInt_le] at * <;> omega)
    (fun first second => by
      rw [max_eq_ite]
      split <;> simp)

def saturatingAdd (first second : Int64) : Int64 :=
  .ofInt (max minValue.toInt (min maxValue.toInt (first.toInt + second.toInt)))

def saturatingSub (first second : Int64) : Int64 :=
  .ofInt (max minValue.toInt (min maxValue.toInt (first.toInt - second.toInt)))

variable {first second : Int64}

theorem saturatingAdd_one_le (less : first < second) : first.saturatingAdd 1 ≤ second := by
  have low := first.le_toInt
  have high := second.toInt_lt
  rw [lt_iff_toInt_lt] at less
  rw [saturatingAdd, toInt_minValue, toInt_maxValue, toInt_one, min_eq_right (by omega),
    max_eq_right (by omega), le_iff_toInt_le, toInt_ofInt_of_le (by omega) (by omega)]
  exact less

theorem le_saturatingSub_one (less : first < second) : first ≤ second.saturatingSub 1 := by
  have high := second.toInt_lt
  rw [lt_iff_toInt_lt] at less
  rw [saturatingSub, toInt_minValue, toInt_maxValue, toInt_one, le_iff_toInt_le, toInt_ofInt_of_le (by omega) (by omega)]
  omega

end Int64
