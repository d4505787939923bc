import HyperbyteDb.GuardedRuns

/-!
# Runs of a fallible step

A state machine whose step may refuse an input.  Its owner keeps the old state
when that happens, so a run over a list of inputs skips the refused ones.  A loop of
checks stops at the first that fails.
-/

namespace CheckLoops

variable {α σ ε : Type*} {check : α → σ → Except ε Unit × σ} {holds : σ → Prop}
  {passes : α → Prop} {items : List α} {state : σ}

/-- Check the items in order, up to the first that fails. -/
def run (check : α → σ → Except ε Unit × σ) : List α → σ → Except ε Unit × σ
  | [], state => (.ok (), state)
  | item :: items, state =>
    match check item state with
    | (.ok _, state) => run check items state
    | (.error cause, state) => (.error cause, state)

variable (preserved : ∀ item state, holds state → holds (check item state).2)
include preserved

theorem run_preserves (start : holds state) : holds (run check items state).2 := by
  induction items generalizing state with
  | nil => exact start
  | cons item items ih =>
    have now := preserved item state start
    unfold run
    split
    next checked =>
      rw [checked] at now
      exact ih now
    next checked =>
      rw [checked] at now
      exact now

omit preserved in
theorem run_related {related : σ → σ → Prop} (agree : ∀ item first second, related first second →
      (check item first).1 = (check item second).1 ∧
        related (check item first).2 (check item second).2)
    {first second : σ} (start : related first second) (items : List α) :
    (run check items first).1 = (run check items second).1 ∧
      related (run check items first).2 (run check items second).2 := by
  induction items generalizing first second with
  | nil => exact ⟨rfl, start⟩
  | cons item items ih =>
    obtain ⟨verdict, now⟩ := agree item first second start
    rw [run, run]
    rcases firstChecked : check item first with ⟨firstVerdict, firstAfter⟩
    rcases secondChecked : check item second with ⟨secondVerdict, secondAfter⟩
    rw [firstChecked, secondChecked] at verdict now
    subst verdict
    cases firstVerdict with
    | ok _ => exact ih now
    | error cause => exact ⟨rfl, now⟩

theorem fst_run_eq_ok_iff
    (decides : ∀ item state, holds state → ((check item state).1 = .ok () ↔ passes item))
    (start : holds state) (items : List α) :
    (run check items state).1 = .ok () ↔ ∀ item ∈ items, passes item := by
  induction items generalizing state with
  | nil => simp [run]
  | cons item items ih =>
    have now := preserved item state start
    have verdict := decides item state start
    rw [List.forall_mem_cons, ← verdict, run]
    split
    next after checked =>
      rw [checked] at now
      simp [checked, ih now]
    next cause after checked => simp [checked]

theorem exists_of_fst_run_eq_error (start : holds state) {cause : ε}
    (failed : (run check items state).1 = .error cause) :
    ∃ item ∈ items, ∃ reached, holds reached ∧ (check item reached).1 = .error cause := by
  induction items generalizing state with
  | nil => cases failed
  | cons item items ih =>
    have now := preserved item state start
    rw [run] at failed
    split at failed
    next after checked =>
      rw [checked] at now
      obtain ⟨later, member, found⟩ := ih now failed
      exact ⟨later, List.mem_cons_of_mem item member, found⟩
    next cause after checked =>
      exact ⟨item, List.mem_cons_self, state, start, by rw [checked]; exact failed⟩

end CheckLoops

namespace FallibleRuns

variable {σ ι ε : Type*} {step : σ → ι → Except ε σ}

variable {state : σ} {guard : σ → ι → Prop} {invariant : σ → Prop}

def stepOrKeep (step : σ → ι → Except ε σ) (state : σ) (input : ι) : σ :=
  match step state input with
  | .ok after => after
  | .error _ => state

/-- The state after all inputs, refused ones skipped. -/
def run (step : σ → ι → Except ε σ) (state : σ) (inputs : List ι) : σ :=
  GuardedRuns.run (stepOrKeep step) state inputs

theorem run_append (state : σ) (first second : List ι) :
    run step state (first ++ second) = run step (run step state first) second :=
  GuardedRuns.run_append state first second

def Along (step : σ → ι → Except ε σ) (guard : σ → ι → Prop) (state : σ) (inputs : List ι) : Prop :=
  GuardedRuns.Along (stepOrKeep step)
    (fun state input => ∀ after, step state input = .ok after → guard state input)
    state inputs

theorem stepOrKeep_of_ok {state after : σ} {input : ι} (accepted : step state input = .ok after) :
    stepOrKeep step state input = after := by
  simp [stepOrKeep, accepted]

theorem stepOrKeep_of_error {input : ι} {error : ε} (refused : step state input = .error error) :
    stepOrKeep step state input = state := by
  simp [stepOrKeep, refused]

theorem Along.of_forall {inputs : List ι} (always : ∀ state, ∀ input ∈ inputs, guard state input) :
    Along step guard state inputs :=
  GuardedRuns.Along.of_forall fun state input member _ _ => always state input member

theorem run_invariant_along (preserved : ∀ state input after, invariant state → guard state input →
      step state input = .ok after → invariant after)
    (initial : invariant state) {inputs : List ι} (guarded : Along step guard state inputs)
    : invariant (run step state inputs) := by
  refine GuardedRuns.run_invariant (fun state input holds meets => ?_) initial guarded
  cases result : step state input with
  | ok after =>
    rw [stepOrKeep_of_ok result]
    exact preserved state input after holds (meets after result) result
  | error error =>
    rw [stepOrKeep_of_error result]
    exact holds

theorem run_invariant (preserved : ∀ state input after, invariant state →
      step state input = .ok after → invariant after)
    (initial : invariant state) (inputs : List ι) : invariant (run step state inputs) :=
  run_invariant_along (fun state input after holds _ =>
    preserved state input after holds) initial (Along.of_forall fun _ _ _ => trivial)

theorem forall_prefix_iff_along
    (decides : ∀ state input after, invariant state → step state input = .ok after →
      (invariant after ↔ guard state input)) (initial : invariant state) (inputs : List ι) :
    (∀ earlier, earlier <+: inputs → invariant (run step state earlier)) ↔
      Along step guard state inputs := by
  refine GuardedRuns.forall_prefix_iff_along (fun state input holds => ?_) initial inputs
  cases result : step state input with
  | ok after =>
    rw [stepOrKeep_of_ok result, decides state input after holds result]
    exact ⟨fun meets _ _ => meets, fun meets => meets after rfl⟩
  | error error =>
    rw [stepOrKeep_of_error result]
    simp [holds]

end FallibleRuns
