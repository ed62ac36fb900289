import Mathlib.Data.List.DropRight

/-!
# Trimming

What `str::trim` takes off the ends of a string.

* `trim_padded`: blanks around a string do not count;
* `trim_of_ends`: a string that has none at its ends stays as it is.
-/

namespace MtpMount

/-- The characters of the Unicode property `White_Space`. -/
def isWhitespace (c : Char) : Bool :=
  let n := c.toNat
  (9 ≤ n && n ≤ 13) || n = 0x20 || n = 0x85 || n = 0xA0 || n = 0x1680 ||
    (0x2000 ≤ n && n ≤ 0x200A) || n = 0x2028 || n = 0x2029 || n = 0x202F || n = 0x205F || n = 0x3000

def trim (s : String) : String :=
  .ofList ((s.toList.dropWhile isWhitespace).rdropWhile isWhitespace)

theorem isDigit_iff {c : Char} : c.isDigit = true ↔ 48 ≤ c.toNat ∧ c.toNat ≤ 57 := by
  show (decide (c.val ≥ 48) && decide (c.val ≤ 57)) = true ↔ _
  rw [Bool.and_eq_true, decide_eq_true_eq, decide_eq_true_eq, ge_iff_le, UInt32.le_iff_toNat_le,
    UInt32.le_iff_toNat_le]
  exact Iff.rfl

theorem isLower_iff {c : Char} : c.isLower = true ↔ 97 ≤ c.toNat ∧ c.toNat ≤ 122 := by
  show (decide (c.val ≥ 97) && decide (c.val ≤ 122)) = true ↔ _
  rw [Bool.and_eq_true, decide_eq_true_eq, decide_eq_true_eq, ge_iff_le, UInt32.le_iff_toNat_le,
    UInt32.le_iff_toNat_le]
  exact Iff.rfl

/-- ASCII past the blank. -/
theorem isWhitespace_of_ascii {c : Char} (h : 32 < c.toNat ∧ c.toNat < 128) :
    isWhitespace c = false := by
  simp only [isWhitespace, Bool.or_eq_false_iff, Bool.and_eq_false_iff, decide_eq_false_iff_not]
  omega

/-- Blanks around a string. -/
def padded (before : List Char) (s : String) (after : List Char) : String :=
  .ofList (before ++ s.toList ++ after)

theorem rdropWhile_append_of_all {p : Char → Bool} {l after : List Char}
    (h : ∀ c ∈ after, p c = true) : (l ++ after).rdropWhile p = l.rdropWhile p := by
  have hrev : ∀ c ∈ after.reverse, p c = true := fun c hc => h c (List.mem_reverse.mp hc)
  simp only [List.rdropWhile, List.reverse_append, List.dropWhile_append_of_pos hrev]

/-- Trimming takes blanks off both ends. -/
theorem trim_padded {before after : List Char} (hb : ∀ c ∈ before, isWhitespace c = true)
    (ha : ∀ c ∈ after, isWhitespace c = true) (s : String) :
    trim (padded before s after) = trim s := by
  rw [trim, padded, String.toList_ofList, List.append_assoc, List.dropWhile_append_of_pos hb,
    List.dropWhile_append]
  split
  · -- nothing but blanks
    rename_i hnil
    rw [trim, List.isEmpty_iff.mp hnil, List.dropWhile_eq_nil_iff.mpr ha]
  · rw [trim, rdropWhile_append_of_all ha]

/-- What is left of a list after its first elements ends as the list does. -/
theorem getLast?_of_suffix {l rest : List Char} (h : rest <:+ l) :
    ∀ c ∈ rest.getLast?, c ∈ l.getLast? := by
  obtain ⟨before, rfl⟩ := h
  intro c hc
  simp [List.getLast?_append, Option.mem_def.mp hc]

theorem trim_ofList {l : List Char} (h : ∀ c ∈ l.getLast?, isWhitespace c = false) :
    trim (.ofList l) = .ofList (l.dropWhile isWhitespace) := by
  rw [trim, String.toList_ofList, List.rdropWhile_eq_self_iff.mpr]
  intro hne
  have hlast := getLast?_of_suffix (List.dropWhile_suffix isWhitespace) _
    (List.getLast?_eq_some_getLast hne)
  simp [h _ hlast]

theorem trim_of_ends {s : String} (hfirst : ∀ c ∈ s.toList.head?, isWhitespace c = false)
    (hlast : ∀ c ∈ s.toList.getLast?, isWhitespace c = false) : trim s = s := by
  have h := trim_ofList hlast
  rw [String.ofList_toList] at h
  rw [h]
  cases hs : s.toList with
  | nil =>
    rw [← String.ofList_toList (s := s), hs]
    rfl
  | cons c cs =>
    have hc := hfirst c (by rw [hs]; rfl)
    rw [List.dropWhile_cons_of_neg (by simp [hc]), ← hs, String.ofList_toList]

/-- A trimmed string does not end in a blank. -/
theorem getLast_trim (s : String) : ∀ c ∈ (trim s).toList.getLast?, isWhitespace c = false := by
  intro c hc
  rw [trim, String.toList_ofList] at hc
  by_cases hne : (s.toList.dropWhile isWhitespace).rdropWhile isWhitespace = []
  · simp [hne] at hc
  · rw [List.getLast?_eq_some_getLast hne] at hc
    cases hc
    simpa using List.rdropWhile_last_not isWhitespace _ hne

end MtpMount
