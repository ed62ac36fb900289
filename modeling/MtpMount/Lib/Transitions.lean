/-!
# Transition systems with labelled steps

A system is a step function on a type of states; a label says which step is
taken, and a state where that step is not possible has none. `Run step allowed s₀`
are the states reached by steps that were all `allowed` in the state they were
taken in. Nothing here fixes the states or the labels.

* `Run.invariant`: what holds at the start and is kept by every allowed step
  holds in every state reached;
* `Run.of_test`: a run that is computed.
-/

namespace Transitions

variable {S L : Type} {step : S → L → Option S} {allowed : S → L → Prop} {s₀ s : S}

/-- The states that a run from `s₀` reaches whose every step was allowed. -/
inductive Run (step : S → L → Option S) (allowed : S → L → Prop) (s₀ : S) : S → Prop
  | start : Run step allowed s₀ s₀
  | next {s s' : S} {l : L} :
      Run step allowed s₀ s → allowed s l → step s l = some s' → Run step allowed s₀ s'

theorem Run.invariant {I : S → Prop} (h₀ : I s₀)
    (hI : ∀ s l s', Run step allowed s₀ s → I s → allowed s l → step s l = some s' → I s')
    (h : Run step allowed s₀ s) : I s := by
  induction h with
  | start => exact h₀
  | next hs hl hstep ih => exact hI _ _ _ hs ih hl hstep

/-- Takes the steps in order, each of which has to pass the check. -/
def runSteps (step : S → L → Option S) (check : S → L → Bool) (s : S) : List L → Option S
  | [] => some s
  | l :: ls => if check s l then (step s l).bind fun s' => runSteps step check s' ls else none

theorem Run.runSteps {check : S → L → Bool} (hc : ∀ s l, check s l = true → allowed s l)
    {ls : List L} {s' : S} (hs : Run step allowed s₀ s)
    (hr : runSteps step check s ls = some s') : Run step allowed s₀ s' := by
  induction ls generalizing s with
  | nil =>
    cases hr
    exact hs
  | cons l ls ih =>
    rw [Transitions.runSteps] at hr
    split at hr
    · obtain ⟨s₁, h₁, hr⟩ := Option.bind_eq_some_iff.mp hr
      exact ih (.next hs (hc s l ‹_›) h₁) hr
    · cases hr

/-- A run that is computed, with what its end was tested for. -/
theorem Run.of_test (step : S → L → Option S) (s₀ : S) (check : S → L → Bool)
    (hc : ∀ s l, check s l = true → allowed s l) (ls : List L) (test : S → Bool)
    (ht : (Transitions.runSteps step check s₀ ls).any test = true) :
    ∃ s, Run step allowed s₀ s ∧ test s = true := by
  obtain ⟨s, hr, ht⟩ := (Option.any_eq_true _ _).mp ht
  exact ⟨s, .runSteps hc .start hr, ht⟩

end Transitions
