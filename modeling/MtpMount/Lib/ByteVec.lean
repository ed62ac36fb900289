import Mathlib.Data.List.GetD

/-!
# Growable vectors with holes

A file as a list: a write past the end leaves a hole that reads as `blank`.

* `patch`: the list after writing `data` at `offset`; `getD_patch` says what
  each position holds afterwards;
* `slice`: up to `size` elements from `offset` on.
-/

namespace ByteVec

variable {α : Type} {blank : α}

/-- `xs` with `data` written at `offset`, a gap before it filled with `blank`. -/
def patch (blank : α) (xs : List α) (offset : Nat) (data : List α) : List α :=
  (xs ++ List.replicate (offset - xs.length) blank).take offset ++
    (data ++ xs.drop (offset + data.length))

/-- `xs` cut or filled up with `blank` to `n` elements. -/
def resize (blank : α) (xs : List α) (n : Nat) : List α :=
  xs.take n ++ List.replicate (n - xs.length) blank

def slice (xs : List α) (offset size : Nat) : List α := (xs.drop offset).take size

theorem eq_of_getD {xs ys : List α} (blank : α) (hl : xs.length = ys.length)
    (h : ∀ i < xs.length, xs.getD i blank = ys.getD i blank) : xs = ys := by
  refine List.ext_getElem hl fun i hx hy => ?_
  have hi := h i hx
  rwa [List.getD_eq_getElem xs blank hx, List.getD_eq_getElem ys blank hy] at hi

theorem length_patch (xs : List α) (offset : Nat) (data : List α) :
    (patch blank xs offset data).length = max xs.length (offset + data.length) := by
  simp only [patch, List.length_append, List.length_take, List.length_replicate, List.length_drop]
  omega

theorem getD_patch (xs : List α) (offset : Nat) (data : List α) (i : Nat) :
    (patch blank xs offset data).getD i blank =
      if offset ≤ i ∧ i < offset + data.length then data.getD (i - offset) blank
      else xs.getD i blank := by
  have hlen : ((xs ++ List.replicate (offset - xs.length) blank).take offset).length = offset := by
    simp only [List.length_take, List.length_append, List.length_replicate]
    omega
  simp only [List.getD_eq_getElem?_getD]
  unfold patch
  by_cases hi : i < offset
  · rw [List.getElem?_append_left (by omega), List.getElem?_take_of_lt hi, if_neg (by omega)]
    by_cases hx : i < xs.length
    · rw [List.getElem?_append_left hx]
    · rw [List.getElem?_append_right (by omega), List.getElem?_replicate, if_pos (by omega),
        List.getElem?_eq_none (by omega), Option.getD_some, Option.getD_none]
  · rw [List.getElem?_append_right (by omega), hlen]
    by_cases hd : i < offset + data.length
    · rw [List.getElem?_append_left (by omega), if_pos (by omega)]
    · rw [List.getElem?_append_right (by omega), if_neg (by omega), List.getElem?_drop]
      congr 2
      omega

theorem length_resize (xs : List α) (n : Nat) : (resize blank xs n).length = n := by
  simp only [resize, List.length_append, List.length_take, List.length_replicate]
  omega

theorem length_slice (xs : List α) (offset size : Nat) :
    (slice xs offset size).length = min size (xs.length - offset) := by
  simp only [slice, List.length_take, List.length_drop]

theorem getD_slice {xs : List α} {offset size i : Nat} (h : i < size) :
    (slice xs offset size).getD i blank = xs.getD (offset + i) blank := by
  simp only [List.getD_eq_getElem?_getD, slice, List.getElem?_take_of_lt h, List.getElem?_drop]

/-- What was written is what is there. -/
theorem slice_patch (blank : α) (xs : List α) (offset : Nat) (data : List α) :
    slice (patch blank xs offset data) offset data.length = data := by
  have hlen : (slice (patch blank xs offset data) offset data.length).length = data.length := by
    rw [length_slice, length_patch]
    omega
  refine eq_of_getD blank hlen fun i hi => ?_
  rw [hlen] at hi
  rw [getD_slice hi, getD_patch, if_pos (by omega), Nat.add_sub_cancel_left]

/-- A write changes nothing when what it writes is there already. -/
theorem patch_eq_self_iff {xs : List α} {offset : Nat} {data : List α} :
    patch blank xs offset data = xs ↔
      offset + data.length ≤ xs.length ∧ slice xs offset data.length = data := by
  constructor
  · intro h
    constructor
    · have hlen := congrArg List.length h
      rw [length_patch] at hlen
      omega
    · have hslice := slice_patch blank xs offset data
      rwa [h] at hslice
  · rintro ⟨hle, hslice⟩
    refine eq_of_getD blank ?_ fun i _ => ?_
    · rw [length_patch]
      omega
    · rw [getD_patch]
      split
      · rename_i hi
        have hget : (slice xs offset data.length).getD (i - offset) blank =
            xs.getD (offset + (i - offset)) blank := getD_slice (by omega)
        rw [hslice, Nat.add_sub_cancel' hi.1] at hget
        exact hget
      · rfl

end ByteVec
