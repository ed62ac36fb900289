import Mathlib.Order.WellFounded
import MtpMount.Lib.Transitions

/-!
# Executions that never end

The infinite runs of a transition system whose steps belong to parties. `Fair x
mine wants` says that a party which wants to move does so in the end.

* `Execution.invariant`: the invariant rule;
* `Execution.response`: if some party is always in charge until a goal is
  reached, keeps its charge while the others move, and comes closer to the goal
  when it moves itself, then the goal is reached;
* `Execution.of_script`: an execution that is computed.
-/

namespace Transitions

variable {S L P W : Type}

structure Execution (step : S → L → Option S) where
  state : Nat → S
  label : Nat → L
  next : ∀ n, step (state n) (label n) = some (state (n + 1))

namespace Execution

variable {step : S → L → Option S} (x : Execution step)

theorem invariant {I : S → Prop} (h₀ : I (x.state 0))
    (hI : ∀ s l s', I s → step s l = some s' → I s') (n : Nat) : I (x.state n) := by
  induction n with
  | zero => exact h₀
  | succ n ih => exact hI _ _ _ ih (x.next n)

/-- Who wants to move at some time moves then or later. -/
def Fair (mine : P → L → Prop) (wants : S → P → Prop) : Prop :=
  ∀ n p, wants (x.state n) p → ∃ m, n ≤ m ∧ mine p (x.label m)

/-- The execution from the time `k` on. -/
def drop (k : Nat) : Execution step where
  state := fun n => x.state (k + n)
  label := fun n => x.label (k + n)
  next := fun n => x.next (k + n)

variable {x} {mine : P → L → Prop} {charge : S → P → W → Prop}

theorem Fair.drop {wants : S → P → Prop} (h : x.Fair mine wants) (k : Nat) :
    (x.drop k).Fair mine wants := by
  intro n p hp
  obtain ⟨m, hm, hmine⟩ := h (k + n) p hp
  obtain ⟨d, rfl⟩ := Nat.exists_eq_add_of_le hm
  rw [Nat.add_assoc] at hmine
  exact ⟨n + d, Nat.le_add_right n d, hmine⟩

/-- The first step of a party that has the charge is taken with that charge. -/
theorem first_step (hfair : x.Fair mine fun s p => ∃ w, charge s p w)
    (hwait : ∀ n p w, charge (x.state n) p w → ¬ mine p (x.label n) → charge (x.state (n + 1)) p w)
    {n : Nat} {p : P} {w : W} (h : charge (x.state n) p w) :
    ∃ m, n ≤ m ∧ charge (x.state m) p w ∧ mine p (x.label m) := by
  obtain ⟨m, hm, hmine⟩ := hfair n p ⟨w, h⟩
  induction hd : m - n generalizing n with
  | zero =>
    obtain rfl : n = m := by omega
    exact ⟨n, Nat.le_refl n, h, hmine⟩
  | succ d ih =>
    by_cases hn : mine p (x.label n)
    · exact ⟨n, Nat.le_refl n, h, hn⟩
    · obtain ⟨k, hk, hcharge, hmine'⟩ := ih (hwait n p w h hn) (by omega) (by omega)
      exact ⟨k, by omega, hcharge, hmine'⟩

variable (mine charge) in
theorem response [LT W] [WellFoundedLT W] {Q : S → Prop}
    (hfair : x.Fair mine fun s p => ∃ w, charge s p w)
    (hwait : ∀ n p w, charge (x.state n) p w → ¬ mine p (x.label n) → charge (x.state (n + 1)) p w)
    (hstep : ∀ n p w, charge (x.state n) p w → mine p (x.label n) →
      Q (x.state (n + 1)) ∨ ∃ p' w', w' < w ∧ charge (x.state (n + 1)) p' w')
    {n : Nat} {p : P} {w : W} (h : charge (x.state n) p w) : ∃ m, n ≤ m ∧ Q (x.state m) := by
  induction w using WellFoundedLT.induction generalizing n p with
  | ind w ih =>
    obtain ⟨m, hm, hcharge, hmine⟩ := first_step hfair hwait h
    rcases hstep m p w hcharge hmine with hq | ⟨p', w', hw, h'⟩
    · exact ⟨m + 1, by omega, hq⟩
    · obtain ⟨k, hk, hq⟩ := ih w' hw h'
      exact ⟨k, by omega, hq⟩

/-- The execution that takes one more step first. -/
def cons (s : S) (l : L) (x : Execution step) (h : step s l = some (x.state 0)) :
    Execution step where
  state
    | 0 => s
    | n + 1 => x.state n
  label
    | 0 => l
    | n + 1 => x.label n
  next
    | 0 => h
    | n + 1 => x.next n

/-- The execution of a script that comes to a state where the step `l` does nothing. -/
theorem of_script {s₀ s' : S} (ls : List L) {l : L}
    (hr : Transitions.runSteps step (fun _ _ => true) s₀ ls = some s') (hl : step s' l = some s') :
    ∃ x : Execution step, x.label = (fun n => ls.getD n l) ∧
      (∀ n ≤ ls.length, Transitions.runSteps step (fun _ _ => true) s₀ (ls.take n) =
        some (x.state n)) ∧ ∀ n, ls.length ≤ n → x.state n = s' := by
  induction ls generalizing s₀ with
  | nil =>
    cases hr
    refine ⟨⟨fun _ => s', fun _ => l, fun _ => hl⟩, rfl, fun n hn => ?_, fun _ _ => rfl⟩
    cases Nat.le_zero.mp hn
    rfl
  | cons a ls ih =>
    rw [Transitions.runSteps, if_pos rfl] at hr
    obtain ⟨s₁, ha, hr⟩ := Option.bind_eq_some_iff.mp hr
    obtain ⟨x, hlabel, hstates, hend⟩ := ih hr
    have hfirst : x.state 0 = s₁ := by
      have := hstates 0 (Nat.zero_le _)
      exact (Option.some.inj this).symm
    refine ⟨cons s₀ a x (hfirst ▸ ha), ?_, fun n hn => ?_, fun n hn => ?_⟩
    · funext n
      cases n with
      | zero => rfl
      | succ n => exact congrFun hlabel n
    · cases n with
      | zero => rfl
      | succ n =>
        rw [List.take_succ_cons, Transitions.runSteps, if_pos rfl]
        exact Option.bind_eq_some_iff.mpr ⟨s₁, ha, hstates n (Nat.le_of_succ_le_succ hn)⟩
    · cases n with
      | zero => cases hn
      | succ n => exact hend n (Nat.le_of_succ_le_succ hn)

end Execution

end Transitions
