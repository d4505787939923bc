import Mathlib.Data.List.Induction
import Mathlib.Order.WellFounded

/-!
# Runs of a state machine

The states a deterministic machine goes through over a list of inputs, and runs
all of whose inputs meet a guard in the state they are applied to.
-/

namespace GuardedRuns

open List

variable {σ ι : Type*} {next : σ → ι → σ}

def run (next : σ → ι → σ) (state : σ) (inputs : List ι) : σ :=
  inputs.foldl next state

@[simp] theorem run_nil (state : σ) : run next state [] = state := rfl

@[simp] theorem run_cons (state : σ) (input : ι) (inputs : List ι) :
    run next state (input :: inputs) = run next (next state input) inputs := rfl

theorem run_append (state : σ) (first second : List ι) :
    run next state (first ++ second) = run next (run next state first) second :=
  foldl_append

theorem run_concat (state : σ) (inputs : List ι) (input : ι) :
    run next state (inputs ++ [input]) = next (run next state inputs) input :=
  run_append state inputs [input]

def Along (next : σ → ι → σ) (guard : σ → ι → Prop) : σ → List ι → Prop
  | _, [] => True
  | state, input :: inputs =>
    guard state input ∧ Along next guard (next state input) inputs

variable {invariant : σ → Prop} {guard : σ → ι → Prop} {state : σ} {inputs : List ι}

instance Along.instDecidable [decides : ∀ state input, Decidable (guard state input)] :
    (state : σ) → (inputs : List ι) → Decidable (Along next guard state inputs)
  | _, [] => .isTrue trivial
  | state, input :: inputs =>
    @instDecidableAnd _ _ (decides state input) (instDecidable (next state input) inputs)

theorem Along.of_forall (always : ∀ state, ∀ input ∈ inputs, guard state input) :
    Along next guard state inputs := by
  induction inputs generalizing state with
  | nil => trivial
  | cons input inputs ih =>
    exact ⟨always state input (by simp),
      ih fun state other member => always state other (by simp [member])⟩

/-- A guard that does not look at the state is a condition on the inputs. -/
theorem along_const_iff {property : ι → Prop} :
    Along next (fun _ input => property input) state inputs ↔ ∀ input ∈ inputs, property input := by
  induction inputs generalizing state with
  | nil => simp [Along]
  | cons input inputs ih => simp [Along, ih]

theorem along_concat {input : ι} :
    Along next guard state (inputs ++ [input]) ↔
      Along next guard state inputs ∧ guard (run next state inputs) input := by
  induction inputs generalizing state with
  | nil => simp [Along]
  | cons first inputs ih => simp [Along, ih, and_assoc]

theorem Along.of_prefix {earlier : List ι} (isPrefix : earlier <+: inputs)
    (guarded : Along next guard state inputs) : Along next guard state earlier := by
  induction earlier generalizing state inputs with
  | nil => trivial
  | cons input earlier ih =>
    obtain ⟨rest, rfl⟩ := isPrefix
    exact ⟨guarded.1, ih (prefix_append earlier rest) guarded.2⟩

theorem Along.and {other : σ → ι → Prop} (guarded : Along next guard state inputs)
    (meets : Along next other state inputs) :
    Along next (fun state input => guard state input ∧ other state input) state inputs := by
  induction inputs generalizing state with
  | nil => trivial
  | cons input inputs ih => exact ⟨⟨guarded.1, meets.1⟩, ih guarded.2 meets.2⟩

theorem run_invariant (preserved : ∀ state input, invariant state → guard state input →
      invariant (next state input))
    (initial : invariant state) (guarded : Along next guard state inputs) :
    invariant (run next state inputs) := by
  induction inputs generalizing state with
  | nil => exact initial
  | cons input inputs ih =>
    exact ih (preserved state input initial guarded.1) guarded.2

theorem Along.of_invariant {property : σ → ι → Prop}
    (preserved : ∀ state input, invariant state → guard state input → invariant (next state input))
    (gives : ∀ state input, invariant state → guard state input → property state input)
    (initial : invariant state) (guarded : Along next guard state inputs) :
    Along next property state inputs := by
  induction inputs generalizing state with
  | nil => trivial
  | cons input inputs ih =>
    exact ⟨gives state input initial guarded.1,
      ih (preserved state input initial guarded.1) guarded.2⟩

theorem run_preserves (preserved : ∀ state input, invariant state → invariant (next state input))
    (initial : invariant state) (inputs : List ι) : invariant (run next state inputs) :=
  run_invariant (fun state input holds (_ : True) => preserved state input holds) initial
    (Along.of_forall fun _ _ _ => trivial)

theorem settled_run (invariant : σ → Prop) (guard settled : σ → ι → Prop)
    (preserved : ∀ state input, invariant state → guard state input →
      invariant (next state input)) (settles : ∀ state input, invariant state → guard state input →
      settled (next state input) input)
    (stays : ∀ state input other, invariant state → guard state input →
      settled state other → settled (next state input) other)
    (initial : invariant state) (guarded : Along next guard state inputs) :
    ∀ input ∈ inputs, settled (run next state inputs) input := by
  induction inputs using reverseRecOn with
  | nil => simp
  | append_singleton inputs last ih =>
    obtain ⟨earlier, here⟩ := along_concat.mp guarded
    have now := run_invariant preserved initial earlier
    rw [run_concat]
    intro input member
    rcases mem_append.mp member with before | isLast
    · exact stays _ last input now here (ih earlier input before)
    · rw [mem_singleton.mp isLast]
      exact settles _ last now here

/-- Steps that respect a relation between states make runs respect it. -/
theorem run_related {related : σ → σ → Prop}
    (respects : ∀ first second input, related first second →
      related (next first input) (next second input))
    {first second : σ} (start : related first second) (inputs : List ι) :
    related (run next first inputs) (run next second inputs) := by
  induction inputs generalizing first second with
  | nil => exact start
  | cons input inputs ih => exact ih (respects first second input start)

/-- What holds of the history so far holds throughout a run exactly if every input meets the
guard that decides whether it goes on to hold. -/
theorem forall_prefix_iff_along_of_history {holds : List ι → Prop}
    (decides : ∀ earlier input, earlier ++ [input] <+: inputs → holds earlier →
      (holds (earlier ++ [input]) ↔ guard (run next state earlier) input)) (initially : holds []) :
    (∀ earlier, earlier <+: inputs → holds earlier) ↔ Along next guard state inputs := by
  induction inputs using reverseRecOn with
  | nil => simpa [Along] using initially
  | append_singleton inputs input ih =>
    have shorter := ih fun earlier other isPrefix =>
      decides earlier other (isPrefix.trans (prefix_append inputs [input]))
    simp only [prefix_concat_iff, or_imp, forall_and, forall_eq]
    rw [along_concat, shorter, and_comm]
    refine and_congr_right fun guarded => ?_
    exact decides inputs input prefix_rfl (shorter.mpr guarded inputs prefix_rfl)

/-- Where the allowed inputs decide by the guard whether an invariant goes on, it holds all
along an allowed run exactly if the run meets the guard. -/
theorem forall_prefix_iff_along_of_allowed {always : σ → Prop} {allowed : σ → ι → Prop}
    (preserved : ∀ state input, always state → always (next state input))
    (decides : ∀ state input, always state → invariant state → allowed state input →
      (invariant (next state input) ↔ guard state input))
    (holds : always state) (initial : invariant state)
    (permitted : Along next allowed state inputs) :
    (∀ earlier, earlier <+: inputs → invariant (run next state earlier)) ↔
      Along next guard state inputs := by
  refine forall_prefix_iff_along_of_history (fun earlier input isPrefix before => ?_) initial
  rw [run_concat]
  exact decides _ input (run_preserves preserved holds earlier) before
    (along_concat.mp (permitted.of_prefix isPrefix)).2

theorem forall_prefix_iff_along_of_preserved {always : σ → Prop}
    (preserved : ∀ state input, always state → always (next state input))
    (decides : ∀ state input, always state → invariant state →
      (invariant (next state input) ↔ guard state input))
    (holds : always state) (initial : invariant state) (inputs : List ι) :
    (∀ earlier, earlier <+: inputs → invariant (run next state earlier)) ↔
      Along next guard state inputs :=
  forall_prefix_iff_along_of_allowed preserved
    (fun state input known before (_ : True) => decides state input known before) holds initial
    (Along.of_forall fun _ _ _ => trivial)

/-- When a guard decides exactly whether a step keeps the invariant, the invariant
holds in every state of a run exactly if every step meets the guard. -/
theorem forall_prefix_iff_along (decides : ∀ state input, invariant state →
      (invariant (next state input) ↔ guard state input))
    (initial : invariant state) (inputs : List ι) :
    (∀ earlier, earlier <+: inputs → invariant (run next state earlier)) ↔
      Along next guard state inputs := by
  refine forall_prefix_iff_along_of_history (fun earlier input _ before => ?_) initial
  rw [run_concat]
  exact decides _ input before

theorem along_iff_along_of_invariant {other : σ → ι → Prop}
    (agrees : ∀ state input, invariant state → (guard state input ↔ other state input))
    (preserved : ∀ state input, invariant state → guard state input →
      invariant (next state input)) (initial : invariant state) :
    Along next guard state inputs ↔ Along next other state inputs := by
  induction inputs generalizing state with
  | nil => exact Iff.rfl
  | cons input inputs ih =>
    rw [Along, Along, ← agrees state input initial]
    exact and_congr_right fun meets => ih (preserved state input initial meets)

section Descent

variable {step : σ → σ → Prop} {μ : Type*} [LT μ] {measure : σ → μ}

/-- What every step preserves holds wherever steps lead. -/
theorem reachable_invariant
    (preserved : ∀ state later, invariant state → step state later → invariant later)
    {later : σ} (initial : invariant state)
    (reached : Relation.ReflTransGen step state later) : invariant later := by
  induction reached with
  | refl => exact initial
  | tail _ taken ih => exact preserved _ _ ih taken

theorem exists_not_step [WellFoundedLT μ]
    (preserved : ∀ state later, invariant state → step state later → invariant later)
    (lowers : ∀ state later, invariant state → step state later →
      measure later < measure state) {path : Nat → σ} (initial : invariant (path 0)) :
    ∃ index, ¬step (path index) (path (index + 1)) := by
  by_contra forever
  have always : ∀ index, step (path index) (path (index + 1)) := by
    simpa using forever
  have kept : ∀ index, invariant (path index) := by
    intro index
    induction index with
    | zero => exact initial
    | succ index ih => exact preserved _ _ ih (always index)
  obtain ⟨index, notLower⟩ :=
    WellFounded.not_rel_apply_succ (r := (· < ·)) fun index => measure (path index)
  exact notLower (lowers _ _ (kept index) (always index))

end Descent

end GuardedRuns
