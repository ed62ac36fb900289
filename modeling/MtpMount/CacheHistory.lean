import MtpMount.SparseCache

/-!
# The writes behind a sparse cache

A sparse cache after any calls of `write_at`, whatever they answered. The set of
populated ranges and the file change one after the other, and a write may fail
between the two.

* `Wrote.supplied`: a populated offset was covered by a write that succeeded, and
  holds the byte of some write;
* `Wrote.latest`: of the last of them, when no write to the file failed;
* `cache_invents_nothing`: what that means for a reader.
-/

namespace MtpMount

open ByteVec

/-- One call of `write_at`, with how its write to the file fails. -/
structure CacheWrite where
  offset : Nat
  data : Bytes
  fault : Option WriteFault

namespace CacheWrite

/-- The call has a byte for this position. -/
def Covers (w : CacheWrite) (x : Nat) : Prop := w.offset ≤ x ∧ x < w.offset + w.data.length

/-- The call has this byte for the position. -/
def Supplies (w : CacheWrite) (x : Nat) (b : UInt8) : Prop :=
  w.Covers x ∧ w.data.getD (x - w.offset) 0 = b

end CacheWrite

/-- Calls and their answers, the last one first. -/
abbrev CacheHistory := List (CacheWrite × Except IoError Unit)

namespace CacheHistory

/-- A call that succeeded covered the position. -/
def Covered (h : CacheHistory) (x : Nat) : Prop := ∃ w, (w, .ok ()) ∈ h ∧ w.Covers x

/-- Some call had this byte for the position. -/
def Supplied (h : CacheHistory) (x : Nat) (b : UInt8) : Prop := ∃ w r, (w, r) ∈ h ∧ w.Supplies x b

/-- The last successful call that covered the position had this byte for it. -/
def Latest (h : CacheHistory) (x : Nat) (b : UInt8) : Prop :=
  ∃ newer w older, h = newer ++ (w, .ok ()) :: older ∧ w.Supplies x b ∧
    ∀ p ∈ newer, p.2 = .ok () → ¬ p.1.Covers x

variable {h : CacheHistory} {x : Nat} {b : UInt8} {p : CacheWrite × Except IoError Unit}

theorem Covered.cons (hc : Covered h x) : Covered (p :: h) x := by
  obtain ⟨w, hmem, hw⟩ := hc
  exact ⟨w, List.mem_cons_of_mem _ hmem, hw⟩

theorem Supplied.cons (hs : Supplied h x b) : Supplied (p :: h) x b := by
  obtain ⟨w, r, hmem, hw⟩ := hs
  exact ⟨w, r, List.mem_cons_of_mem _ hmem, hw⟩

/-- A call that did not succeed, or has nothing for the position, leaves the last
one the last. -/
theorem Latest.cons (hl : Latest h x b) (hnot : p.2 = .ok () → ¬ p.1.Covers x) :
    Latest (p :: h) x b := by
  obtain ⟨newer, w, older, rfl, hsup, hnewer⟩ := hl
  refine ⟨p :: newer, w, older, rfl, hsup, fun q hq hok => ?_⟩
  rcases List.mem_cons.mp hq with rfl | hq
  · exact hnot hok
  · exact hnewer q hq hok

end CacheHistory

namespace SparseCache

/-- The calls so far, and the cache they leave. -/
inductive Wrote (totalSize : Nat) : CacheHistory → SparseCache → Prop
  | new : Wrote totalSize [] (.new totalSize)
  | write {h : CacheHistory} {c : SparseCache} (w : CacheWrite) :
      Wrote totalSize h c →
      Wrote totalSize ((w, (c.writeAt w.offset w.data w.fault).1) :: h)
        (c.writeAt w.offset w.data w.fault).2

variable {totalSize : Nat} {h : CacheHistory} {c : SparseCache}

theorem Wrote.size (hw : Wrote totalSize h c) :
    c.totalSize = totalSize ∧ c.file.content.length = totalSize := by
  induction hw with
  | new => exact ⟨rfl, length_resize _ _⟩
  | @write h c w _ ih =>
    obtain ⟨ht, hl⟩ := ih
    refine ⟨(totalSize_writeAt ..).trans ht, ?_⟩
    have hdoes := c.writeAt_does w.offset w.data w.fault
    generalize (c.writeAt w.offset w.data w.fault).1 = r at hdoes
    generalize (c.writeAt w.offset w.data w.fault).2 = c' at hdoes
    cases hdoes with
    | nothing => exact hl
    | refused => exact hl
    | failed n hfault hle hfile =>
      rcases hfile with hfile | hfile
      · have htake : (w.data.take n).length ≤ w.data.length := List.length_take_le' n w.data
        rw [hfile, length_patch]
        omega
      · rw [hfile, hl]
    | stored hle hmax hfile =>
      rw [hfile, length_patch]
      omega

/-- A populated offset lies in the object, was covered by a write that succeeded,
and holds a byte that some write had for it. -/
theorem Wrote.supplied (hw : Wrote totalSize h c) {x : Nat} (hx : c.ranges.Covers x) :
    x < totalSize ∧ h.Covered x ∧ h.Supplied x (c.file.content.getD x 0) := by
  induction hw with
  | new => exact absurd hx RangeSet.covers_new
  | @write h c w hw ih =>
    obtain ⟨ht, hl⟩ := hw.size
    have hdoes := c.writeAt_does w.offset w.data w.fault
    generalize (c.writeAt w.offset w.data w.fault).1 = r at hdoes ⊢
    generalize (c.writeAt w.offset w.data w.fault).2 = c' at hdoes hx ⊢
    cases hdoes with
    | nothing =>
      obtain ⟨hlt, hcov, hsup⟩ := ih hx
      exact ⟨hlt, hcov.cons, hsup.cons⟩
    | refused =>
      obtain ⟨hlt, hcov, hsup⟩ := ih hx
      exact ⟨hlt, hcov.cons, hsup.cons⟩
    | failed n hfault hle hfile =>
      obtain ⟨hlt, hcov, hsup⟩ := ih hx
      refine ⟨hlt, hcov.cons, ?_⟩
      rcases hfile with hfile | hfile
      · rcases getD_patch_take c.file.content w.data w.offset n x with hbyte | ⟨hlo, hhi, hbyte⟩
        · rw [hfile, hbyte]
          exact hsup.cons
        · rw [hfile, hbyte]
          exact ⟨w, _, List.mem_cons_self, ⟨hlo, hhi⟩, rfl⟩
      · rw [hfile]
        exact hsup.cons
    | stored hle hmax hfile =>
      rw [hfile, getD_patch]
      by_cases hin : w.offset ≤ x ∧ x < w.offset + w.data.length
      · rw [if_pos hin]
        exact ⟨by omega, ⟨w, List.mem_cons_self, hin⟩, w, _, List.mem_cons_self, hin, rfl⟩
      · rw [if_neg hin]
        obtain ⟨hlt, hcov, hsup⟩ := ih ((RangeSet.covers_insert.mp hx).resolve_right hin)
        exact ⟨hlt, hcov.cons, hsup.cons⟩

/-- When no write to the file failed, a populated offset holds the byte of the last
successful write that covered it. -/
theorem Wrote.latest (hw : Wrote totalSize h c) (hf : ∀ p ∈ h, p.1.fault = none) {x : Nat}
    (hx : c.ranges.Covers x) : h.Latest x (c.file.content.getD x 0) := by
  induction hw with
  | new => exact absurd hx RangeSet.covers_new
  | @write h c w hw ih =>
    have hf' : ∀ p ∈ h, p.1.fault = none := fun p hp => hf p (List.mem_cons_of_mem _ hp)
    have hnone : w.fault = none := hf _ List.mem_cons_self
    have hdoes := c.writeAt_does w.offset w.data w.fault
    generalize (c.writeAt w.offset w.data w.fault).1 = r at hdoes ⊢
    generalize (c.writeAt w.offset w.data w.fault).2 = c' at hdoes hx ⊢
    cases hdoes with
    | nothing hnil =>
      refine (ih hf' hx).cons fun _ hcov => ?_
      have hlt : x < w.offset + w.data.length := hcov.2
      rw [hnil, List.length_nil] at hlt
      exact absurd hcov.1 (Nat.not_le_of_lt hlt)
    | refused => exact (ih hf' hx).cons nofun
    | failed n hfault hle hfile => cases hnone.symm.trans hfault
    | stored hle hmax hfile =>
      rw [hfile, getD_patch]
      by_cases hin : w.offset ≤ x ∧ x < w.offset + w.data.length
      · rw [if_pos hin]
        exact ⟨[], w, h, rfl, ⟨hin, rfl⟩, fun _ hp => nomatch hp⟩
      · rw [if_neg hin]
        exact (ih hf' ((RangeSet.covers_insert.mp hx).resolve_right hin)).cons fun _ => hin

/-- After any calls of `write_at`: a range of which nothing is missing was covered
by writes that succeeded; a read of it succeeds unless the file cannot be read, and
gives bytes that writes had for these positions, those of the last writes when no
write to the file failed; a write that does not succeed populates nothing. -/
theorem cache_invents_nothing (ht : totalSize ≤ U64_MAX) (hw : Wrote totalSize h c) :
    (∀ offset size, c.missingRanges offset size = [] →
      (∀ x, offset ≤ x → x < min (offset + size) totalSize → h.Covered x) ∧
      (∃ data, (c.readAt offset size none).1 = .ok data) ∧
      ∀ fault data, (c.readAt offset size fault).1 = .ok data →
        data.length = min size (totalSize - offset) ∧ ∀ i < data.length,
          h.Supplied (offset + i) (data.getD i 0) ∧
          ((∀ p ∈ h, p.1.fault = none) → h.Latest (offset + i) (data.getD i 0))) ∧
    ∀ (w : CacheWrite) (e : IoError), (c.writeAt w.offset w.data w.fault).1 = .error e →
      (c.writeAt w.offset w.data w.fault).2.ranges = c.ranges := by
  obtain ⟨hsize, hlen⟩ := hw.size
  refine ⟨fun offset size hm => ?_, fun w e he => ?_⟩
  · have hcovers := (RangeSet.missing_eq_nil_iff (hsize ▸ ht)).mp hm
    -- the cache agrees with its own file
    have hagrees : c.Agrees c.file.content :=
      ⟨hlen.trans hsize.symm, fun x hx => hsize ▸ (hw.supplied hx).1, fun _ _ => rfl⟩
    refine ⟨fun x hlo hhi => ?_, readAt_works hagrees offset size, fun fault data hr => ?_⟩
    · have hx : c.ranges.Covers x := by
        rw [Nat.lt_min] at hhi
        exact hcovers x hlo hhi.1 (by rw [hsize]; exact hhi.2)
      exact (hw.supplied hx).2.1
    · obtain ⟨hdata, hbytes⟩ := covers_of_readAt hagrees (hsize ▸ ht) hm hr
      refine ⟨hsize ▸ hdata, fun i hi => ?_⟩
      obtain ⟨hcov, hbyte⟩ := hbytes i hi
      rw [hbyte]
      exact ⟨(hw.supplied hcov).2.2, fun hf => hw.latest hf hcov⟩
  · have hdoes := c.writeAt_does w.offset w.data w.fault
    rw [he] at hdoes
    generalize (c.writeAt w.offset w.data w.fault).2 = c' at hdoes ⊢
    cases hdoes with
    | refused => rfl
    | failed n hfault hle hfile => rfl

/-- A write of everything, one that is refused, and one that fails after its first byte. -/
theorem cache_invents_nothing_patched : ∃ h c, Wrote 3 h c ∧ h.length = 3 ∧
    (c.readAt 0 3 none).1 = .ok [1, 7, 3] ∧
    ∀ i < 3, h.Supplied (0 + i) ([1, 7, 3].getD i 0) := by
  have h₁ : Wrote 3 _ _ := Wrote.new.write ⟨0, [1, 2, 3], none⟩
  have hw := (h₁.write ⟨U64_MAX, [9], none⟩).write ⟨1, [7, 8], some (.write 1 ⟨"disk full"⟩)⟩
  have hread := ((cache_invents_nothing (by decide) hw).1 0 3 (by decide)).2
  obtain ⟨data, hdata⟩ := hread.1
  obtain rfl : data = [1, 7, 3] := by
    cases hdata
    rfl
  exact ⟨_, _, hw, rfl, hdata, fun i hi => ((hread.2 none _ hdata).2 i hi).1⟩

end SparseCache

end MtpMount
