import Mathlib.Algebra.Group.Int.Defs
import Mathlib.Algebra.Group.Nat.Defs
import Mathlib.Data.List.Basic

/-!
# Which bytes are cached

`RangeSet` keeps byte offsets as sorted ranges that neither overlap nor touch;
its value carries the proof of that.

* `RangeSet.covers_insert`: an insert adds exactly the offsets of its range;
* `RangeSet.covered_missing`: `missing` is exactly what the set lacks;
* `RangeSet.insertAll_canonical`: what a set of offsets is stored as depends on
  the offsets alone;
* `RangeSet.missing_exact`: `missing` gives the gaps in the same form.
-/

namespace MtpMount

/-- The largest `u64`. -/
def U64_MAX : Nat := 2 ^ 64 - 1

/-- The offsets from `start` up to, not including, `stop`. -/
structure ByteRange where
  start : Nat
  stop : Nat
  deriving DecidableEq, Repr

namespace ByteRange

def Contains (r : ByteRange) (x : Nat) : Prop := r.start ≤ x ∧ x < r.stop

/-- `a` ends before `b` starts, with a gap between them. -/
def Before (a b : ByteRange) : Prop := a.stop < b.start

end ByteRange

/-- An offset lies in one of the ranges. -/
def Covered (rs : List ByteRange) (x : Nat) : Prop := ∃ r ∈ rs, r.Contains x

/-- Non-empty ranges in order, with a gap between any two. -/
structure Canonical (rs : List ByteRange) : Prop where
  nonempty : ∀ r ∈ rs, r.start < r.stop
  sorted : rs.Pairwise ByteRange.Before

/-- A set of byte offsets. -/
structure RangeSet where
  ranges : List ByteRange
  canonical : Canonical ranges

namespace RangeSet

/-- The `retain` of `insert`: what stays, and `new` grown by every range it
overlaps or touches. -/
def absorb (new : ByteRange) : List ByteRange → ByteRange × List ByteRange
  | [] => (new, [])
  | r :: rs =>
    if r.stop < new.start ∨ r.start > new.stop then
      ((absorb new rs).1, r :: (absorb new rs).2)
    else
      absorb ⟨min new.start r.start, max new.stop r.stop⟩ rs

/-- Puts a range at the insertion point that keeps the starts sorted. -/
def place (new : ByteRange) : List ByteRange → List ByteRange
  | [] => [new]
  | r :: rs => if r.start < new.start then r :: place new rs else new :: r :: rs

def insertRanges (rs : List ByteRange) (new : ByteRange) : List ByteRange :=
  if new.start < new.stop then place (absorb new rs).1 (absorb new rs).2 else rs

/-- The loop of `missing`, from `cursor` up to `stop`. -/
def missingFrom (stop cursor : Nat) : List ByteRange → List ByteRange
  | [] => if cursor < stop then [⟨cursor, stop⟩] else []
  | populated :: rs =>
    if populated.stop ≤ cursor then missingFrom stop cursor rs
    else if populated.start ≥ stop then
      if cursor < stop then [⟨cursor, stop⟩] else []
    else
      (if populated.start > cursor then [⟨cursor, min populated.start stop⟩] else []) ++
        if populated.stop ≥ stop then [] else missingFrom stop populated.stop rs

/-! ## Lists of ranges -/

section Lists

variable {rs : List ByteRange} {new r : ByteRange} {x : Nat}

@[simp] theorem covered_nil : ¬ Covered [] x := by simp [Covered]

@[simp] theorem covered_cons : Covered (r :: rs) x ↔ r.Contains x ∨ Covered rs x := by
  simp [Covered]

theorem covered_append {qs : List ByteRange} :
    Covered (qs ++ rs) x ↔ Covered qs x ∨ Covered rs x := by
  induction qs with
  | nil => simp
  | cons q qs ih => simp [ih, or_assoc]

theorem canonical_nil : Canonical [] where
  nonempty := fun _ h => nomatch h
  sorted := .nil

theorem canonical_cons :
    Canonical (r :: rs) ↔ r.start < r.stop ∧ (∀ q ∈ rs, r.Before q) ∧ Canonical rs := by
  constructor
  · intro h
    have hp := List.pairwise_cons.mp h.sorted
    exact ⟨h.nonempty r List.mem_cons_self, hp.1,
      fun q hq => h.nonempty q (List.mem_cons_of_mem _ hq), hp.2⟩
  · rintro ⟨hr, hb, hc⟩
    refine ⟨fun q hq => ?_, List.pairwise_cons.mpr ⟨hb, hc.sorted⟩⟩
    rcases List.mem_cons.mp hq with rfl | hq
    · exact hr
    · exact hc.nonempty q hq

/-- The offsets of the later ranges are those beyond the first. -/
theorem covered_tail_iff (h : Canonical (r :: rs)) : Covered rs x ↔ Covered (r :: rs) x ∧ r.stop < x := by
  obtain ⟨-, hb, -⟩ := canonical_cons.mp h
  rw [covered_cons]
  constructor
  · rintro ⟨q, hq, hx⟩
    have hrq : r.stop < q.start := hb q hq
    exact ⟨.inr ⟨q, hq, hx⟩, Nat.lt_of_lt_of_le hrq hx.1⟩
  · rintro ⟨hx | hx, hlt⟩
    · exact absurd hx.2 (Nat.lt_asymm hlt)
    · exact hx

/-- The first range starts at the least offset. -/
theorem start_le_of_covered (h : Canonical (r :: rs)) (hx : Covered (r :: rs) x) : r.start ≤ x := by
  obtain ⟨hr, -, -⟩ := canonical_cons.mp h
  rcases covered_cons.mp hx with hx | hx
  · exact hx.1
  · have hlt := ((covered_tail_iff h).mp hx).2
    omega

theorem covered_start (h : Canonical (r :: rs)) : Covered (r :: rs) r.start :=
  covered_cons.mpr (.inl ⟨Nat.le_refl _, (canonical_cons.mp h).1⟩)

/-- The first range ends where the gap after it begins. -/
theorem not_covered_stop (h : Canonical (r :: rs)) : ¬ Covered (r :: rs) r.stop := by
  intro hx
  rcases covered_cons.mp hx with hx | hx
  · exact absurd hx.2 (Nat.lt_irrefl _)
  · exact absurd ((covered_tail_iff h).mp hx).2 (Nat.lt_irrefl _)

/-- Canonical ranges are determined by the offsets in them. -/
theorem eq_of_canonical {qs : List ByteRange} (hr : Canonical rs) (hq : Canonical qs)
    (h : ∀ x, Covered rs x ↔ Covered qs x) : rs = qs := by
  induction rs generalizing qs with
  | nil =>
    cases qs with
    | nil => rfl
    | cons q qs => exact absurd ((h _).mpr (covered_start hq)) covered_nil
  | cons r rs ih =>
    cases qs with
    | nil => exact absurd ((h _).mp (covered_start hr)) covered_nil
    | cons q qs =>
      have hstart : r.start = q.start := by
        refine Nat.le_antisymm ?_ ?_
        · exact start_le_of_covered hr ((h _).mpr (covered_start hq))
        · exact start_le_of_covered hq ((h _).mp (covered_start hr))
      have hrne := (canonical_cons.mp hr).1
      have hqne := (canonical_cons.mp hq).1
      have hstop : r.stop = q.stop := by
        refine Nat.le_antisymm (Nat.le_of_not_lt fun hlt => ?_) (Nat.le_of_not_lt fun hlt => ?_)
        · -- the end of `q` lies in `r`, the gap after `q` does not
          have hin : Covered (r :: rs) q.stop := covered_cons.mpr (.inl ⟨by omega, hlt⟩)
          exact not_covered_stop hq ((h _).mp hin)
        · have hin : Covered (q :: qs) r.stop := covered_cons.mpr (.inl ⟨by omega, hlt⟩)
          exact not_covered_stop hr ((h _).mpr hin)
      have hhead : r = q := by
        cases r
        cases q
        simp only at hstart hstop
        rw [hstart, hstop]
      subst hhead
      have htail : rs = qs := by
        refine ih (canonical_cons.mp hr).2.2 (canonical_cons.mp hq).2.2 fun x => ?_
        rw [covered_tail_iff hr, covered_tail_iff hq, h]
      rw [htail]

/-- Nothing after the new range is touched by it. -/
theorem absorb_of_before (h : ∀ r ∈ rs, new.Before r) : absorb new rs = (new, rs) := by
  induction rs with
  | nil => rfl
  | cons r rs ih =>
    have hr : new.stop < r.start := h r List.mem_cons_self
    rw [absorb, if_pos (.inr hr), ih fun q hq => h q (List.mem_cons_of_mem _ hq)]

theorem mem_of_mem_absorb (h : r ∈ (absorb new rs).2) : r ∈ rs := by
  induction rs generalizing new with
  | nil => exact h
  | cons q rs ih =>
    rw [absorb] at h
    split at h
    · rcases List.mem_cons.mp h with rfl | h
      · exact List.mem_cons_self
      · exact List.mem_cons_of_mem _ (ih h)
    · exact List.mem_cons_of_mem _ (ih h)

theorem sorted_absorb (h : rs.Pairwise ByteRange.Before) :
    (absorb new rs).2.Pairwise ByteRange.Before := by
  induction rs generalizing new with
  | nil => exact .nil
  | cons q rs ih =>
    obtain ⟨hq, hs⟩ := List.pairwise_cons.mp h
    rw [absorb]
    split
    · exact List.pairwise_cons.mpr ⟨fun r hr => hq r (mem_of_mem_absorb hr), ih hs⟩
    · exact ih hs

/-- The grown range starts no earlier than the first of what it was made from. -/
theorem lt_absorb_start {b : Nat} (hn : b < new.start) (h : ∀ r ∈ rs, b < r.start) :
    b < (absorb new rs).1.start := by
  induction rs generalizing new with
  | nil => exact hn
  | cons q rs ih =>
    have hq := h q List.mem_cons_self
    have ht := fun r hr => h r (List.mem_cons_of_mem q hr)
    rw [absorb]
    split
    · exact ih hn ht
    · exact ih (Nat.lt_min.mpr ⟨hn, hq⟩) ht

theorem absorb_nonempty (hn : new.start < new.stop) :
    (absorb new rs).1.start < (absorb new rs).1.stop := by
  induction rs generalizing new with
  | nil => exact hn
  | cons q rs ih =>
    rw [absorb]
    split
    · exact ih hn
    · exact ih (by dsimp only; omega)

/-- What stays lies apart from the grown range. -/
theorem absorb_apart (hn : new.start < new.stop) (h : Canonical rs)
    (hr : r ∈ (absorb new rs).2) :
    r.Before (absorb new rs).1 ∨ (absorb new rs).1.Before r := by
  induction rs generalizing new with
  | nil => cases hr
  | cons q rs ih =>
    obtain ⟨hq, hb, hc⟩ := canonical_cons.mp h
    rw [absorb] at hr ⊢
    split at hr
    · rename_i hapart
      rw [if_pos hapart]
      rcases List.mem_cons.mp hr with rfl | hr
      · rcases hapart with hl | hg
        · exact .inl (lt_absorb_start hl hb)
        · -- a kept range beyond the new one: the rest lies beyond it too
          have hall : ∀ p ∈ rs, new.Before p := fun p hp => by
            have hrp : r.stop < p.start := hb p hp
            show new.stop < p.start
            omega
          rw [absorb_of_before hall]
          exact .inr hg
      · exact ih hn hc hr
    · rename_i hapart
      rw [if_neg hapart]
      exact ih (by dsimp only; omega) hc hr

theorem covered_absorb (hn : new.start < new.stop) (h : Canonical rs) :
    (absorb new rs).1.Contains x ∨ Covered (absorb new rs).2 x ↔
      new.Contains x ∨ Covered rs x := by
  induction rs generalizing new with
  | nil => exact Iff.rfl
  | cons q rs ih =>
    obtain ⟨hq, -, hc⟩ := canonical_cons.mp h
    rw [absorb]
    split
    · rw [covered_cons, covered_cons, or_left_comm, ih hn hc, or_left_comm]
    · rename_i hapart
      rw [ih (by dsimp only; omega) hc, covered_cons, ← or_assoc]
      refine or_congr_left ?_
      simp only [ByteRange.Contains]
      omega

theorem mem_place : r ∈ place new rs ↔ r = new ∨ r ∈ rs := by
  induction rs with
  | nil => simp [place]
  | cons q rs ih =>
    rw [place]
    split
    · rw [List.mem_cons, ih, List.mem_cons, or_left_comm]
    · rw [List.mem_cons]

theorem covered_place : Covered (place new rs) x ↔ new.Contains x ∨ Covered rs x := by
  constructor
  · rintro ⟨r, hr, hx⟩
    rcases mem_place.mp hr with rfl | hr
    · exact .inl hx
    · exact .inr ⟨r, hr, hx⟩
  · rintro (hx | ⟨r, hr, hx⟩)
    · exact ⟨new, mem_place.mpr (.inl rfl), hx⟩
    · exact ⟨r, mem_place.mpr (.inr hr), hx⟩

theorem canonical_place (hn : new.start < new.stop) (h : Canonical rs)
    (ha : ∀ r ∈ rs, r.Before new ∨ new.Before r) : Canonical (place new rs) := by
  induction rs with
  | nil => exact canonical_cons.mpr ⟨hn, (fun _ h => nomatch h), canonical_nil⟩
  | cons q rs ih =>
    obtain ⟨hq, hb, hc⟩ := canonical_cons.mp h
    have ht := fun r hr => ha r (List.mem_cons_of_mem q hr)
    have hqn := ha q List.mem_cons_self
    rw [place]
    simp only [ByteRange.Before] at hb hqn ht
    split
    · refine canonical_cons.mpr ⟨hq, fun p hp => ?_, ih hc ht⟩
      rcases mem_place.mp hp with rfl | hp
      · show q.stop < p.start
        omega
      · exact hb p hp
    · refine canonical_cons.mpr ⟨hn, fun p hp => ?_, h⟩
      show new.stop < p.start
      rcases List.mem_cons.mp hp with rfl | hp
      · omega
      · have := hb p hp
        omega

theorem canonical_insertRanges (h : Canonical rs) : Canonical (insertRanges rs new) := by
  rw [insertRanges]
  split
  · rename_i hn
    refine canonical_place (absorb_nonempty hn) ⟨fun r hr => ?_, sorted_absorb h.sorted⟩ ?_
    · exact h.nonempty r (mem_of_mem_absorb hr)
    · exact fun r hr => absorb_apart hn h hr
  · exact h

theorem covered_insertRanges (h : Canonical rs) :
    Covered (insertRanges rs new) x ↔ Covered rs x ∨ new.Contains x := by
  rw [insertRanges]
  split
  · rename_i hn
    rw [covered_place, covered_absorb hn h, or_comm]
  · simp only [ByteRange.Contains]
    constructor
    · exact .inl
    · rintro (hx | hx)
      · exact hx
      · omega

theorem covered_missingFrom {stop cursor : Nat} (h : Canonical rs) :
    Covered (missingFrom stop cursor rs) x ↔ cursor ≤ x ∧ x < stop ∧ ¬ Covered rs x := by
  induction rs generalizing cursor with
  | nil =>
    rw [missingFrom]
    split
    · simp [ByteRange.Contains]
    · simp only [covered_nil, not_false_eq_true, and_true, false_iff]
      omega
  | cons p rs ih =>
    obtain ⟨hp, hb, hc⟩ := canonical_cons.mp h
    have above : Covered rs x → p.stop < x := by
      rintro ⟨r, hr, hx⟩
      have hpr : p.stop < r.start := hb r hr
      exact Nat.lt_of_lt_of_le hpr hx.1
    rw [missingFrom, covered_cons]
    simp only [ByteRange.Contains]
    split
    · rw [ih hc]
      constructor
      · rintro ⟨h₁, h₂, h₃⟩
        exact ⟨h₁, h₂, fun h => h.elim (fun h => by omega) h₃⟩
      · rintro ⟨h₁, h₂, h₃⟩
        exact ⟨h₁, h₂, fun h => h₃ (.inr h)⟩
    · split
      · have hbeyond : x < stop → ¬ ((p.start ≤ x ∧ x < p.stop) ∨ Covered rs x) := by
          rintro hx (h | h)
          · omega
          · have := above h
            omega
        split
        · simp only [covered_cons, covered_nil, or_false, ByteRange.Contains]
          exact ⟨fun h => ⟨h.1, h.2, hbeyond h.2⟩, fun h => ⟨h.1, h.2.1⟩⟩
        · simp only [covered_nil, false_iff]
          omega
      · -- the part before `populated`, then the rest from its end
        have hgap : Covered (if p.start > cursor then [⟨cursor, min p.start stop⟩] else []) x ↔
            cursor ≤ x ∧ x < p.start ∧ x < stop := by
          split
          · simp only [covered_cons, covered_nil, or_false, ByteRange.Contains, Nat.lt_min]
          · simp only [covered_nil, false_iff]
            omega
        have hrest : Covered (if p.stop ≥ stop then [] else missingFrom stop p.stop rs) x ↔
            p.stop ≤ x ∧ x < stop ∧ ¬ Covered rs x := by
          split
          · simp only [covered_nil, false_iff]
            omega
          · exact ih hc
        rw [covered_append, hgap, hrest]
        constructor
        · rintro (⟨h₁, h₂, h₃⟩ | ⟨h₁, h₂, h₃⟩)
          · refine ⟨h₁, h₃, fun h => h.elim (fun h => by omega) fun h => ?_⟩
            have := above h
            omega
          · exact ⟨by omega, h₂, fun h => h.elim (fun h => by omega) h₃⟩
        · rintro ⟨h₁, h₂, h₃⟩
          by_cases hx : x < p.start
          · exact .inl ⟨h₁, hx, h₂⟩
          · refine .inr ⟨?_, h₂, fun h => h₃ (.inr h)⟩
            by_contra hlt
            exact h₃ (.inl ⟨by omega, by omega⟩)

/-- The gap that the walk ends with. -/
theorem canonical_lastGap {stop cursor : Nat} :
    Canonical (if cursor < stop then [⟨cursor, stop⟩] else []) ∧
      ∀ q ∈ (if cursor < stop then [(⟨cursor, stop⟩ : ByteRange)] else []), cursor ≤ q.start := by
  split
  · refine ⟨canonical_cons.mpr ⟨‹_›, (fun _ h => nomatch h), canonical_nil⟩, fun q hq => ?_⟩
    obtain rfl := List.mem_singleton.mp hq
    exact Nat.le_refl _
  · exact ⟨canonical_nil, fun _ h => nomatch h⟩

/-- What the walk finds lies beyond its cursor, in order and with gaps. -/
theorem canonical_missingFrom {stop cursor : Nat} (h : Canonical rs) :
    Canonical (missingFrom stop cursor rs) ∧ ∀ q ∈ missingFrom stop cursor rs, cursor ≤ q.start := by
  induction rs generalizing cursor with
  | nil => exact canonical_lastGap
  | cons p rs ih =>
    obtain ⟨hp, hb, hc⟩ := canonical_cons.mp h
    rw [missingFrom]
    split
    · exact ih hc
    · split
      · exact canonical_lastGap
      · -- the gap before `p` ends before `p` does, and the rest starts after it
        have htail : Canonical (if p.stop ≥ stop then [] else missingFrom stop p.stop rs) ∧
            ∀ q ∈ (if p.stop ≥ stop then [] else missingFrom stop p.stop rs), p.stop ≤ q.start := by
          split
          · exact ⟨canonical_nil, fun _ h => nomatch h⟩
          · exact ih hc
        split
        · rw [List.singleton_append]
          refine ⟨canonical_cons.mpr ⟨?_, fun q hq => ?_, htail.1⟩, fun q hq => ?_⟩
          · show cursor < min p.start stop
            omega
          · have hq' := htail.2 q hq
            show min p.start stop < q.start
            omega
          · rcases List.mem_cons.mp hq with rfl | hq
            · exact Nat.le_refl _
            · have hq' := htail.2 q hq
              omega
        · rw [List.nil_append]
          refine ⟨htail.1, fun q hq => ?_⟩
          have hq' := htail.2 q hq
          omega

end Lists

/-! ## Range sets -/

def new : RangeSet := ⟨[], canonical_nil⟩

/-- Adds a range, merging it with every range it overlaps or touches. An empty
range changes nothing. -/
def insert (s : RangeSet) (new : ByteRange) : RangeSet :=
  ⟨insertRanges s.ranges new, canonical_insertRanges s.canonical⟩

/-- `offset.saturating_add(size)` on `u64`. -/
def saturatingAdd (offset size : Nat) : Nat := min (offset + size) U64_MAX

/-- The parts of `[offset, offset + size)`, clipped to `[0, limit)`, that are
not in the set. -/
def missing (s : RangeSet) (offset size limit : Nat) : List ByteRange :=
  let stop := min (saturatingAdd offset size) limit
  if offset ≥ stop then [] else missingFrom stop offset s.ranges

/-- The offset is in the set. -/
def Covers (s : RangeSet) (x : Nat) : Prop := Covered s.ranges x

variable {s : RangeSet} {x : Nat}

theorem covers_new : ¬ new.Covers x := covered_nil

theorem covers_insert {r : ByteRange} :
    (s.insert r).Covers x ↔ s.Covers x ∨ r.Contains x := covered_insertRanges s.canonical

theorem covered_missing {offset size limit : Nat} (hl : limit ≤ U64_MAX) :
    Covered (s.missing offset size limit) x ↔
      (offset ≤ x ∧ x < offset + size ∧ x < limit) ∧ ¬ s.Covers x := by
  have hstop : min (saturatingAdd offset size) limit = min (offset + size) limit := by
    rw [saturatingAdd, Nat.min_assoc, Nat.min_eq_right hl]
  unfold missing
  dsimp only
  rw [hstop]
  split
  · simp only [covered_nil, false_iff, not_and]
    omega
  · rw [covered_missingFrom s.canonical, Nat.lt_min]
    exact ⟨fun h => ⟨⟨h.1, h.2.1⟩, h.2.2⟩, fun h => ⟨h.1.1, h.1.2, h.2⟩⟩

theorem canonical_missing (s : RangeSet) (offset size limit : Nat) :
    Canonical (s.missing offset size limit) := by
  unfold missing
  dsimp only
  split
  · exact canonical_nil
  · exact (canonical_missingFrom s.canonical).1

/-- Nothing is missing exactly when every offset asked for is in the set. -/
theorem missing_eq_nil_iff {offset size limit : Nat} (hl : limit ≤ U64_MAX) :
    s.missing offset size limit = [] ↔
      ∀ x, offset ≤ x → x < offset + size → x < limit → s.Covers x := by
  constructor
  · intro h x h₁ h₂ h₃
    by_contra hx
    have hm := (covered_missing hl).mpr ⟨⟨h₁, h₂, h₃⟩, hx⟩
    rw [h] at hm
    exact covered_nil hm
  · intro h
    refine List.eq_nil_iff_forall_not_mem.mpr fun r hr => ?_
    have hne : r.start < r.stop := (s.canonical_missing offset size limit).nonempty r hr
    have hm := (covered_missing hl).mp ⟨r, hr, Nat.le_refl _, hne⟩
    exact hm.2 (h _ hm.1.1 hm.1.2.1 hm.1.2.2)

/-! ## What is stored for a set of offsets -/

/-- One insert after another, from the empty set. -/
def insertAll (rs : List ByteRange) : RangeSet := rs.foldl insert new

theorem covers_foldl_insert {rs : List ByteRange} {s : RangeSet} :
    (rs.foldl insert s).Covers x ↔ s.Covers x ∨ Covered rs x := by
  induction rs generalizing s with
  | nil => simp
  | cons r rs ih => rw [List.foldl_cons, ih, covers_insert, covered_cons, or_assoc]

theorem covers_insertAll {rs : List ByteRange} : (insertAll rs).Covers x ↔ Covered rs x := by
  rw [insertAll, covers_foldl_insert]
  exact or_iff_right covers_new

/-- Two sets with the same offsets are the same. -/
theorem eq_of_covers {t : RangeSet} (h : ∀ x, s.Covers x ↔ t.Covers x) : s = t := by
  cases s with
  | mk rs hr =>
    cases t with
    | mk qs hq =>
      have heq : rs = qs := eq_of_canonical hr hq h
      subst heq
      rfl

/-- Any inserts in any order leave non-empty, sorted ranges with gaps between
them, that contain what some inserted range contains; inserts that cover the same
offsets leave the same set. -/
theorem insertAll_canonical (rs : List ByteRange) :
    (∀ r ∈ (insertAll rs).ranges, r.start < r.stop) ∧
      (insertAll rs).ranges.Pairwise (fun a b => a.stop < b.start) ∧
      (∀ x, (∃ r ∈ (insertAll rs).ranges, r.start ≤ x ∧ x < r.stop) ↔
        ∃ r ∈ rs, r.start ≤ x ∧ x < r.stop) ∧
      ∀ qs : List ByteRange, (∀ x, (∃ r ∈ rs, r.start ≤ x ∧ x < r.stop) ↔
        ∃ r ∈ qs, r.start ≤ x ∧ x < r.stop) → insertAll rs = insertAll qs := by
  have hcanonical := (insertAll rs).canonical
  refine ⟨hcanonical.nonempty, hcanonical.sorted, fun x => covers_insertAll, fun qs h => ?_⟩
  refine eq_of_covers fun x => ?_
  rw [covers_insertAll, covers_insertAll]
  exact h x

/-- Two ranges that touch, and the same offsets in three that overlap. -/
theorem insertAll_regrouped :
    insertAll [⟨4, 8⟩, ⟨0, 4⟩] = insertAll [⟨0, 3⟩, ⟨5, 8⟩, ⟨2, 6⟩] := by
  refine (insertAll_canonical [⟨4, 8⟩, ⟨0, 4⟩]).2.2.2 _ fun x => ?_
  simp only [List.mem_cons, List.not_mem_nil, or_false, exists_eq_or_imp, exists_eq_left]
  omega

/-- `missing` gives non-empty, sorted ranges with gaps between them, that contain
exactly what the request, clipped to the limit, has outside the set. -/
theorem missing_exact (s : RangeSet) (offset size limit : Nat) (hl : limit ≤ U64_MAX) :
    (∀ r ∈ s.missing offset size limit, r.start < r.stop) ∧
      (s.missing offset size limit).Pairwise (fun a b => a.stop < b.start) ∧
      ∀ x, (∃ r ∈ s.missing offset size limit, r.start ≤ x ∧ x < r.stop) ↔
        offset ≤ x ∧ x < min (offset + size) limit ∧ ¬ s.Covers x := by
  have hcanonical := s.canonical_missing offset size limit
  refine ⟨hcanonical.nonempty, hcanonical.sorted, fun x => ?_⟩
  refine (covered_missing hl).trans ?_
  rw [Nat.lt_min]
  exact ⟨fun h => ⟨h.1.1, h.1.2, h.2⟩, fun h => ⟨⟨h.1, h.2.1⟩, h.2.2⟩⟩

/-- A request over the end of `u64`, with its middle in the set. -/
theorem missing_exact_saturated :
    ((insertAll [⟨2, 4⟩]).missing 1 U64_MAX U64_MAX).Pairwise (fun a b => a.stop < b.start) ∧
      ∀ x, (∃ r ∈ (insertAll [⟨2, 4⟩]).missing 1 U64_MAX U64_MAX, r.start ≤ x ∧ x < r.stop) ↔
        1 ≤ x ∧ x < min (1 + U64_MAX) U64_MAX ∧ ¬ (insertAll [⟨2, 4⟩]).Covers x :=
  (missing_exact (insertAll [⟨2, 4⟩]) 1 U64_MAX U64_MAX (Nat.le_refl _)).2

end RangeSet

end MtpMount
