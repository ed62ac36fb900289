import Mathlib.Data.List.Chain
import Mathlib.Data.List.Nodup

/-!
# Walks along a partial function

`Walk next i nodes`: from `i` the function leads over `nodes`, `i` first, to
where it has no next. Where it has a walk, it runs into no circle.

* `Walk.nodup`: no node comes twice, so a walk over a finite part is short;
* `Walk.whole`: nor does the node where it stops;
* `Walk.within`: taking steps away leaves every walk an end, also when only the
  steps of a part it stays in are known;
* `Walk.redirected`: so does one new step, if the walk from where it leads does
  not come back.
-/

namespace Walks

variable {α : Type} {next next' : α → Option α} {i j : α} {nodes nodes' below : List α}

inductive Walk (next : α → Option α) : α → List α → Prop
  | stop {i : α} : next i = none → Walk next i []
  | step {i j : α} {nodes : List α} : next i = some j → Walk next j nodes → Walk next i (i :: nodes)

namespace Walk

theorem unique (h : Walk next i nodes) (h' : Walk next i nodes') : nodes = nodes' := by
  induction h generalizing nodes' with
  | stop hi =>
    cases h' with
    | stop _ => rfl
    | step hi' _ =>
      rw [hi] at hi'
      cases hi'
  | step hi _ ih =>
    cases h' with
    | stop hi' =>
      rw [hi] at hi'
      cases hi'
    | step hi' h' =>
      cases hi.symm.trans hi'
      rw [ih h']

/-- Every node walks by itself. -/
theorem suffix (h : Walk next i (below ++ j :: nodes)) : Walk next j (j :: nodes) := by
  induction below generalizing i with
  | nil =>
    cases h with
    | step hi h => exact .step hi h
  | cons b below ih =>
    cases h with
    | step _ h => exact ih h

theorem not_mem (h : Walk next i (i :: nodes)) : i ∉ nodes := by
  intro hi
  obtain ⟨below, above, rfl⟩ := List.append_of_mem hi
  have hself : Walk next i ((i :: below) ++ i :: above) := h
  have hlen := congrArg List.length (h.unique hself.suffix)
  simp at hlen
  omega

theorem nodup (h : Walk next i nodes) : nodes.Nodup := by
  induction h with
  | stop _ => exact List.nodup_nil
  | step hi h ih => exact List.nodup_cons.mpr ⟨(step hi h).not_mem, ih⟩

theorem isSome_of_mem (h : Walk next i nodes) (hj : j ∈ nodes) : (next j).isSome = true := by
  induction h with
  | stop _ => cases hj
  | step hi _ ih =>
    rcases List.mem_cons.mp hj with rfl | hj
    · rw [hi]
      rfl
    · exact ih hj

/-- The nodes with the one that leads nowhere behind them, where a walk in `P` stays. -/
theorem whole {P : α → Prop} (h : Walk next i nodes) (hi : P i)
    (hP : ∀ j k, next j = some k → P k) : ∃ last, P last ∧ next last = none ∧
      (nodes ++ [last]).head? = some i ∧ (nodes ++ [last]).Nodup ∧
      (nodes ++ [last]).IsChain fun a b => next a = some b := by
  induction h with
  | @stop i hstop =>
    exact ⟨i, hi, hstop, rfl, List.nodup_singleton i, List.isChain_singleton i⟩
  | @step i j nodes hij h ih =>
    obtain ⟨last, hin, hlast, hhead, hnodup, hchain⟩ := ih (hP i j hij)
    have hnew : i ∉ nodes ++ [last] := by
      intro hmem
      rcases List.mem_append.mp hmem with hmem | hmem
      · exact (step hij h).not_mem hmem
      · rw [List.mem_singleton.mp hmem, hlast] at hij
        cases hij
    refine ⟨last, hin, hlast, rfl, List.nodup_cons.mpr ⟨hnew, hnodup⟩,
      List.isChain_cons.mpr ⟨?_, hchain⟩⟩
    intro b hb
    cases hhead.symm.trans hb
    exact hij

theorem length_le (h : Walk next i nodes) {within : List α}
    (hin : ∀ j, (next j).isSome = true → j ∈ within) : nodes.length ≤ within.length :=
  h.nodup.length_le_of_subset fun j hj => hin j (h.isSome_of_mem hj)

/-- A walk that stays in `P` has an end also where some steps of `P` are gone. -/
theorem within {P : α → Prop} (h : Walk next i nodes) (hi : P i)
    (hP : ∀ j k, P j → next j = some k → P k)
    (hn : ∀ j, P j → next' j = next j ∨ next' j = none) : ∃ nodes', Walk next' i nodes' := by
  induction h with
  | stop hstop => exact ⟨[], .stop ((hn _ hi).elim (fun h => h.trans hstop) id)⟩
  | @step i j _ hij _ ih =>
    rcases hn i hi with hi' | hi'
    · obtain ⟨nodes', h'⟩ := ih (hP i j hi hij)
      exact ⟨_, .step (hi'.trans hij) h'⟩
    · exact ⟨[], .stop hi'⟩

/-- Taking steps away leaves every walk an end. -/
theorem thinned (h : Walk next i nodes) (hn : ∀ j, next' j = next j ∨ next' j = none) :
    ∃ nodes', Walk next' i nodes' :=
  h.within (P := fun _ => True) trivial (fun _ _ _ _ => trivial) fun j _ => hn j

/-- Past `turn` the steps are what they were or gone, and there the way goes on. -/
theorem redirected {turn : α} (h : Walk next i nodes)
    (hn : ∀ j, j ≠ turn → next' j = next j ∨ next' j = none)
    (hturn : ∃ nodes', Walk next' turn nodes') : ∃ nodes', Walk next' i nodes' := by
  by_cases hi : i = turn
  · exact hi ▸ hturn
  · induction h with
    | stop hstop => exact ⟨[], .stop ((hn _ hi).elim (fun h => h.trans hstop) id)⟩
    | @step i j _ hij _ ih =>
      rcases hn i hi with hi' | hi'
      · by_cases hj : j = turn
        · obtain ⟨nodes', h'⟩ := hturn
          exact ⟨_, .step (hi'.trans hij) (hj ▸ h')⟩
        · obtain ⟨nodes', h'⟩ := ih hj
          exact ⟨_, .step (hi'.trans hij) h'⟩
      · exact ⟨[], .stop hi'⟩

end Walk

end Walks
