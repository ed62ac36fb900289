import Mathlib.Data.List.Basic
import Mathlib.Data.List.Count

/-!
# Reading a list by position while it changes

A stream takes some elements at each call and goes on at the position where the
last call stopped, in a list that may be another one by then. Nothing here fixes
the elements, nor what changes the list.

* `taken_add_skips`: how often an element is taken, against how often it gets
  across the position between two calls;
* `taken_eq_one_iff`: an element that every list has once is taken once exactly
  when it crossed as often one way as the other.
-/

namespace Cursor

variable {α : Type} {pos : Nat}

/-- The list at one call, and how many elements fit. -/
structure Look (α : Type) where
  list : List α
  room : Nat

namespace Look

def taken (l : Look α) (pos : Nat) : List α := (l.list.drop pos).take l.room

/-- Where the next call goes on. -/
def next (l : Look α) (pos : Nat) : Nat := pos + (l.taken pos).length

/-- What a call takes lies between its position and the next one. -/
theorem take_next (l : Look α) (pos : Nat) :
    l.list.take (l.next pos) = l.list.take pos ++ l.taken pos := by
  have h : (l.list.drop pos).take (l.taken pos).length = l.taken pos := by
    unfold taken
    rw [List.length_take, List.take_eq_take_min, Nat.min_assoc, Nat.min_self,
      ← List.take_eq_take_min]
  rw [next, List.take_add, h]

/-- A call with room takes nothing only at the end. -/
theorem le_of_taken_eq_nil {l : Look α} (hroom : 0 < l.room) (h : l.taken pos = []) :
    l.list.length ≤ pos := by
  have hlen := congrArg List.length h
  simp only [taken, List.length_take, List.length_drop, List.length_nil] at hlen
  omega

end Look

/-- What the calls take, the first at `pos`. -/
def taken : Nat → List (Look α) → List α
  | _, [] => []
  | pos, l :: ls => l.taken pos ++ taken (l.next pos) ls

/-- The position after the calls. -/
def endPos : Nat → List (Look α) → Nat
  | pos, [] => pos
  | pos, l :: ls => endPos (l.next pos) ls

/-- The list at the last call. -/
def endList : List α → List (Look α) → List α
  | last, [] => last
  | _, l :: ls => endList l.list ls

theorem taken_append (pos : Nat) (ls : List (Look α)) (l : Look α) :
    taken pos (ls ++ [l]) = taken pos ls ++ l.taken (endPos pos ls) := by
  induction ls generalizing pos with
  | nil => simp [taken, endPos]
  | cons k ls ih => simp [taken, endPos, ih]

theorem endPos_append (pos : Nat) (ls : List (Look α)) (l : Look α) :
    endPos pos (ls ++ [l]) = l.next (endPos pos ls) := by
  induction ls generalizing pos with
  | nil => rfl
  | cons k ls ih => simp [endPos, ih]

theorem endList_append (last : List α) (ls : List (Look α)) (l : Look α) :
    endList last (ls ++ [l]) = l.list := by
  induction ls generalizing last with
  | nil => rfl
  | cons k ls ih => simp [endList, ih]

section Crossings

variable [BEq α] (x : α)

/-- How often `x` came before the position between two calls, not having been taken. -/
def skips : List α → Nat → List (Look α) → Nat
  | _, _, [] => 0
  | last, pos, l :: ls =>
    ((l.list.take pos).count x - (last.take pos).count x) + skips l.list (l.next pos) ls

/-- How often `x` came behind the position between two calls, to be taken once more. -/
def repeats : List α → Nat → List (Look α) → Nat
  | _, _, [] => 0
  | last, pos, l :: ls =>
    ((last.take pos).count x - (l.list.take pos).count x) + repeats l.list (l.next pos) ls

/-- What is before the position was taken or skipped, and not repeated since. -/
theorem taken_add_skips (last : List α) (pos : Nat) (ls : List (Look α)) :
    (taken pos ls).count x + skips x last pos ls + (last.take pos).count x =
      ((endList last ls).take (endPos pos ls)).count x + repeats x last pos ls := by
  induction ls generalizing last pos with
  | nil => simp [taken, skips, repeats, endList, endPos]
  | cons l ls ih =>
    have hrest := ih l.list (l.next pos)
    rw [l.take_next, List.count_append] at hrest
    simp only [taken, skips, repeats, endList, endPos, List.count_append]
    omega

/-- What stands before the position is the same at the next call. -/
def Steady : List α → Nat → List (Look α) → Prop
  | _, _, [] => True
  | last, pos, l :: ls => l.list.take pos = last.take pos ∧ Steady l.list (l.next pos) ls

theorem Steady.no_crossings {last : List α} {ls : List (Look α)} (h : Steady last pos ls) :
    skips x last pos ls = 0 ∧ repeats x last pos ls = 0 := by
  induction ls generalizing last pos with
  | nil => exact ⟨rfl, rfl⟩
  | cons l ls ih =>
    obtain ⟨hskips, hrepeats⟩ := ih h.2
    simp [skips, repeats, h.1, hskips, hrepeats]

/-- A stream that came to its end has taken `x` once when it crossed the position as
often one way as the other. -/
theorem taken_eq_one_iff {ls : List (Look α)} {l : Look α} (hroom : 0 < l.room)
    (hend : l.taken (endPos 0 ls) = []) (hx : l.list.count x = 1) :
    (taken 0 (ls ++ [l])).count x = 1 ↔
      skips x [] 0 (ls ++ [l]) = repeats x [] 0 (ls ++ [l]) := by
  have hsum := taken_add_skips x [] 0 (ls ++ [l])
  have hlen := Look.le_of_taken_eq_nil hroom hend
  have hle : l.list.length ≤ endPos 0 (ls ++ [l]) := by
    rw [endPos_append, Look.next]
    omega
  rw [endList_append, List.take_of_length_le hle, hx] at hsum
  simp only [List.take_nil, List.count_nil] at hsum
  omega

end Crossings

end Cursor
