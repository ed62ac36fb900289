/-!
# Machines that answer

A machine is a step function: from a state and an input it gives an answer and
the next state. `run` feeds it a list of inputs. Nothing here fixes the states,
the inputs or the answers.

* `run_invariant`: what every input keeps holds after a run;
* `Simulates.run`: machines whose related states answer alike give the same
  answers to every list of inputs.
-/

namespace Machines

variable {S T I O : Type}

/-- The answers to the inputs in order, and the state afterwards. -/
def run (step : S → I → O × S) : S → List I → List O × S
  | s, [] => ([], s)
  | s, i :: is => ((step s i).1 :: (run step (step s i).2 is).1, (run step (step s i).2 is).2)

variable {step : S → I → O × S} {step' : T → I → O × T} {ok : I → Prop}

theorem run_invariant {P : S → Prop} (hstep : ∀ s i, P s → ok i → P (step s i).2) {s : S} (h : P s)
    {is : List I} (his : ∀ i ∈ is, ok i) : P (run step s is).2 := by
  induction is generalizing s with
  | nil => exact h
  | cons i is ih =>
    exact ih (hstep s i h (his i List.mem_cons_self)) fun j hj => his j (List.mem_cons_of_mem i hj)

/-- States that are related answer alike and stay related, on the inputs that are `ok`. -/
def Simulates (step : S → I → O × S) (step' : T → I → O × T) (ok : I → Prop)
    (rel : S → T → Prop) : Prop :=
  ∀ s t i, rel s t → ok i → (step s i).1 = (step' t i).1 ∧ rel (step s i).2 (step' t i).2

theorem Simulates.run {rel : S → T → Prop} (h : Simulates step step' ok rel) {s : S} {t : T}
    (hst : rel s t) {is : List I} (his : ∀ i ∈ is, ok i) :
    (Machines.run step s is).1 = (Machines.run step' t is).1 ∧
      rel (Machines.run step s is).2 (Machines.run step' t is).2 := by
  induction is generalizing s t with
  | nil => exact ⟨rfl, hst⟩
  | cons i is ih =>
    obtain ⟨hanswer, hnext⟩ := h s t i hst (his i List.mem_cons_self)
    obtain ⟨hrest, hend⟩ := ih hnext fun j hj => his j (List.mem_cons_of_mem i hj)
    refine ⟨?_, hend⟩
    rw [Machines.run, Machines.run, hanswer, hrest]

end Machines
