import Mathlib.Algebra.Order.Ring.Nat
import MtpMount.Reconnect

/-!
# The pauses of a reconnect

The delays double up to a cap, and the last one is cut to what is left of the
window.

* `Backoff.delays_gives`: the list of the delays is what the iterator gives
  before it ends;
* `schedule_exact`: their number is finite, their sizes are known, and together
  they are the window.
-/

namespace MtpMount

namespace Backoff

/-- The calls of `next` that give these delays, and the iterator after them. -/
inductive Gives : Backoff → List Nat → Backoff → Prop
  | start {b : Backoff} : Gives b [] b
  | next {b b₁ b' : Backoff} {delay : Nat} {rest : List Nat} :
      b.advance = some (delay, b₁) → Gives b₁ rest b' → Gives b (delay :: rest) b'

variable {b b' : Backoff} {delay : Nat}

theorem advance_eq_none : b.advance = none ↔ b.remaining = 0 := by
  unfold advance
  split
  · exact iff_of_true rfl ‹_›
  · exact iff_of_false nofun ‹_›

/-- What a delay takes from the window. -/
theorem advance_takes (h : b.advance = some (delay, b')) :
    delay = min b.next b.remaining ∧ b.remaining = delay + b'.remaining ∧
      b'.next = min (b.next * 2) MAX_DELAY := by
  unfold advance at h
  split at h
  · cases h
  · cases h
    exact ⟨rfl, (Nat.add_sub_cancel' (Nat.min_le_right _ _)).symm, rfl⟩

/-- The delay before the cut, as often doubled. -/
theorem doubled (k : Nat) : min (min (FIRST_DELAY * 2 ^ k) MAX_DELAY * 2) MAX_DELAY =
    min (FIRST_DELAY * 2 ^ (k + 1)) MAX_DELAY := by
  rw [Nat.pow_succ, ← Nat.mul_assoc]
  omega

theorem doubled_pos (k : Nat) : 0 < min (FIRST_DELAY * 2 ^ k) MAX_DELAY :=
  Nat.lt_min.mpr ⟨Nat.mul_pos (by decide) (Nat.two_pow_pos k), by decide⟩

/-- The iterator after `k` delays, before it comes to its end. -/
def Doubled (b : Backoff) (k : Nat) : Prop := b.next = min (FIRST_DELAY * 2 ^ k) MAX_DELAY

variable {k : Nat}

theorem Doubled.advance (h : Doubled b k) (ha : b.advance = some (delay, b')) :
    Doubled b' (k + 1) := by
  obtain ⟨-, -, hnext⟩ := advance_takes ha
  rw [Doubled, hnext, h, doubled]

theorem Doubled.pos (h : Doubled b k) (ha : b.advance = some (delay, b')) : 0 < delay := by
  have hleft : b.remaining ≠ 0 := by
    rw [Ne, ← advance_eq_none, ha]
    nofun
  rw [(advance_takes ha).1, h]
  exact Nat.lt_min.mpr ⟨doubled_pos k, Nat.pos_of_ne_zero hleft⟩

/-- Every delay takes something off, so there are no more than the window has
milliseconds. -/
theorem delays_gives {fuel : Nat} (h : Doubled b k) (hfuel : b.remaining ≤ fuel) :
    ∃ b', Gives b (b.delays fuel) b' ∧ b'.advance = none := by
  induction fuel generalizing b k with
  | zero => exact ⟨b, .start, advance_eq_none.mpr (Nat.le_zero.mp hfuel)⟩
  | succ fuel ih =>
    rw [delays]
    cases ha : b.advance with
    | none => exact ⟨b, .start, ha⟩
    | some r =>
      obtain ⟨delay, b₁⟩ := r
      have htakes := (advance_takes ha).2.1
      have hpos := h.pos ha
      obtain ⟨b', hgives, hend⟩ := ih (h.advance ha) (by omega)
      exact ⟨b', .next ha hgives, hend⟩

/-! ## The delays of an iterator that came to its end -/

variable {ds : List Nat}

theorem Gives.sum (h : Gives b ds b') : ds.sum + b'.remaining = b.remaining := by
  induction h with
  | start => exact Nat.zero_add _
  | next ha _ ih =>
    rw [List.sum_cons, (advance_takes ha).2.1, ← ih, Nat.add_assoc]

theorem Gives.bounds (h : Gives b ds b') (hb : Doubled b k) :
    ∀ delay ∈ ds, 0 < delay ∧ delay ≤ MAX_DELAY := by
  induction h generalizing k with
  | start => nofun
  | @next b b₁ b' delay rest ha _ ih =>
    intro d hd
    rcases List.mem_cons.mp hd with rfl | hd
    · refine ⟨hb.pos ha, ?_⟩
      rw [(advance_takes ha).1, hb]
      exact Nat.le_trans (Nat.min_le_left _ _) (Nat.min_le_right _ _)
    · exact ih (hb.advance ha) d hd

/-- Only the last delay is cut: after any other something is left. -/
theorem Gives.getElem? {i : Nat} (h : Gives b ds b') (hb : Doubled b k) (hi : i + 1 < ds.length) :
    ds[i]? = some (min (FIRST_DELAY * 2 ^ (k + i)) MAX_DELAY) := by
  induction h generalizing k i with
  | start => cases hi
  | @next b b₁ b' delay rest ha hrest ih =>
    cases i with
    | zero =>
      obtain ⟨hdelay, htakes, -⟩ := advance_takes ha
      have hleft : b₁.remaining ≠ 0 := by
        cases hrest with
        | start => exact absurd hi (Nat.lt_irrefl _)
        | next ha₁ _ =>
          rw [Ne, ← advance_eq_none, ha₁]
          nofun
      rw [List.getElem?_cons_zero, Nat.add_zero, ← hb]
      refine congrArg some ?_
      omega
    | succ i =>
      rw [List.getElem?_cons_succ, ih (hb.advance ha) (Nat.lt_of_succ_lt_succ hi), Nat.add_assoc,
        Nat.add_comm 1 i]

end Backoff

open Backoff

/-- The iterator that `schedule` lists. -/
def ReconnectPolicy.backoff (p : ReconnectPolicy) : Backoff := ⟨p.timeout, FIRST_DELAY⟩

theorem ReconnectPolicy.doubled_backoff (p : ReconnectPolicy) : Doubled p.backoff 0 := by
  show FIRST_DELAY = min (FIRST_DELAY * 2 ^ 0) MAX_DELAY
  decide

/-- The schedule of a window of whole seconds is what the iterator gives before it
ends. Its delays are positive and at most the longest pause, add up to the window, and
are the doubled first pause up to the last one. No delay is more than what is left of
the window when it is taken. -/
theorem schedule_exact (secs : Nat) :
    (∃ b, Gives (ReconnectPolicy.fromSecs secs).backoff (ReconnectPolicy.fromSecs secs).schedule b ∧
      b.advance = none) ∧
    (∀ delay ∈ (ReconnectPolicy.fromSecs secs).schedule, 0 < delay ∧ delay ≤ MAX_DELAY) ∧
    (ReconnectPolicy.fromSecs secs).schedule.sum = secs * 1000 ∧
    (∀ k, k + 1 < (ReconnectPolicy.fromSecs secs).schedule.length →
      (ReconnectPolicy.fromSecs secs).schedule[k]? = some (min (FIRST_DELAY * 2 ^ k) MAX_DELAY)) ∧
    ∀ delays b delay b', Gives (ReconnectPolicy.fromSecs secs).backoff delays b →
      b.advance = some (delay, b') → delay ≤ b.remaining ∧ b'.remaining + delay = b.remaining := by
  have hstart := (ReconnectPolicy.fromSecs secs).doubled_backoff
  obtain ⟨b, hgives, hend⟩ := delays_gives hstart (Nat.le_refl _)
  refine ⟨⟨b, hgives, hend⟩, hgives.bounds hstart, ?_, fun k hk => ?_, ?_⟩
  · have hsum := hgives.sum
    rw [advance_eq_none.mp hend] at hsum
    exact hsum
  · have hdelay := hgives.getElem? hstart hk
    rwa [Nat.zero_add] at hdelay
  · intro delays b delay b' _ ha
    obtain ⟨-, htakes, -⟩ := advance_takes ha
    omega

/-- Three seconds: the last pause is cut to the rest. -/
example : (ReconnectPolicy.fromSecs 3).schedule = [250, 500, 1000, 1250] := by rfl

end MtpMount
