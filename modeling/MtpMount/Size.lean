import Mathlib.Algebra.Group.Nat.Defs
import MtpMount.Text

/-!
# Byte sizes

The sizes that people type on the command line, and how they are shown.

* `parseSize_iff`: what `parse_size` accepts, and what it makes of it;
* `parseSize_formatSize`: what `format_size` writes is read back.
-/

namespace MtpMount

/-- `str::to_ascii_lowercase`. -/
def toAsciiLowercase (s : String) : String := .ofList (s.toList.map Char.toLower)

/-- `str::parse::<u64>` of ASCII digits. -/
def parseU64 (digits : List Char) : Option UInt64 :=
  if Nat.ofDigitChars 10 digits 0 < 2 ^ 64 then some (.ofNat (Nat.ofDigitChars 10 digits 0)) else none

/-- `u64::checked_mul`. -/
def checkedMul (a b : UInt64) : Option UInt64 :=
  if a.toNat * b.toNat < 2 ^ 64 then some (a * b) else none

/-- What a suffix multiplies by. -/
def suffixMultiplier : String → Option UInt64
  | "" | "b" | "byte" | "bytes" => some 1
  | "k" | "kb" | "kib" => some 1024
  | "m" | "mb" | "mib" => some (1024 * 1024)
  | "g" | "gb" | "gib" => some (1024 * 1024 * 1024)
  | "t" | "tb" | "tib" => some (1024 * 1024 * 1024 * 1024)
  | _ => none

/-- Turns a size like `4G`, `512MiB`, or `1048576` into a byte count. -/
def parseSize (input : String) : Except String UInt64 :=
  let trimmed := trim input
  if trimmed = "" then .error "expected a size like 4G, 512M, or a number of bytes" else
  let number := trimmed.toList.takeWhile Char.isDigit
  let suffix := trimmed.toList.dropWhile Char.isDigit
  if number = [] then
    .error s!"'{trimmed}' doesn't start with a number; try something like 4G or 512M"
  else
  let suffix := toAsciiLowercase (trim (.ofList suffix))
  match suffixMultiplier suffix with
  | none => .error
    s!"'{suffix}' isn't a size suffix I know; use K, M, G, or T (or leave it off for bytes)"
  | some multiplier =>
    match parseU64 number with
    | none => .error s!"'{String.ofList number}' is too big to be a size in bytes"
    | some value =>
      match checkedMul value multiplier with
      | none => .error s!"'{trimmed}' is larger than a 64-bit byte count can hold"
      | some bytes => .ok bytes

def UNITS : List (UInt64 × String) :=
  [(1024 * 1024 * 1024 * 1024, "TiB"), (1024 * 1024 * 1024, "GiB"), (1024 * 1024, "MiB"),
    (1024, "KiB")]

/-- Renders a byte count the way `parseSize` would accept it back. -/
def formatSize (bytes : UInt64) : String :=
  match UNITS.find? fun u => bytes ≥ u.1 ∧ bytes % u.1 = 0 with
  | some (scale, unit) => s!"{(bytes / scale).toNat} {unit}"
  | none => s!"{bytes.toNat} bytes"

/-! ## The grammar -/

/-- A suffix in small letters, and what it stands for. -/
inductive SizeSuffix : String → Nat → Prop
  | bytes {s : String} : s ∈ ["", "b", "byte", "bytes"] → SizeSuffix s 1
  | scaled (letter tail : String) (k : Nat) {s : String} {m : Nat} :
      (letter, k) ∈ [("k", 1), ("m", 2), ("g", 3), ("t", 4)] → tail ∈ ["", "b", "ib"] →
      s = letter ++ tail → m = 1024 ^ k → SizeSuffix s m

/-- Digits, blanks and a suffix in any letters, that mean `n` bytes. -/
inductive SizeText (s : String) (n : Nat) : Prop
  | intro {digits blank suffix : List Char} {multiplier : Nat} :
      s.toList = digits ++ blank ++ suffix → digits ≠ [] → (∀ c ∈ digits, c.isDigit = true) →
      (∀ c ∈ blank, isWhitespace c = true) →
      SizeSuffix (.ofList (suffix.map Char.toLower)) multiplier →
      n = Nat.ofDigitChars 10 digits 0 * multiplier → SizeText s n

theorem suffixMultiplier_iff {s : String} {m : Nat} :
    SizeSuffix s m ↔ ∃ multiplier, suffixMultiplier s = some multiplier ∧ multiplier.toNat = m := by
  constructor
  · intro h
    cases h with
    | bytes hs =>
      simp only [List.mem_cons, List.not_mem_nil, or_false] at hs
      rcases hs with rfl | rfl | rfl | rfl <;> exact ⟨1, rfl, rfl⟩
    | scaled letter tail k hletter htail hs hm =>
      simp only [List.mem_cons, List.not_mem_nil, or_false, Prod.mk.injEq] at hletter htail
      subst hs hm
      rcases hletter with ⟨rfl, rfl⟩ | ⟨rfl, rfl⟩ | ⟨rfl, rfl⟩ | ⟨rfl, rfl⟩ <;>
        rcases htail with rfl | rfl | rfl <;> exact ⟨_, rfl, rfl⟩
  · rintro ⟨multiplier, h, rfl⟩
    have hscaled : ∀ letter tail k, (letter, k) ∈ [("k", 1), ("m", 2), ("g", 3), ("t", 4)] →
        tail ∈ ["", "b", "ib"] → SizeSuffix (letter ++ tail) (1024 ^ k) :=
      fun letter tail k hletter htail => .scaled letter tail k hletter htail rfl rfl
    unfold suffixMultiplier at h
    split at h <;> cases h
    · exact .bytes (by decide)
    · exact .bytes (by decide)
    · exact .bytes (by decide)
    · exact .bytes (by decide)
    · exact hscaled "k" "" 1 (by decide) (by decide)
    · exact hscaled "k" "b" 1 (by decide) (by decide)
    · exact hscaled "k" "ib" 1 (by decide) (by decide)
    · exact hscaled "m" "" 2 (by decide) (by decide)
    · exact hscaled "m" "b" 2 (by decide) (by decide)
    · exact hscaled "m" "ib" 2 (by decide) (by decide)
    · exact hscaled "g" "" 3 (by decide) (by decide)
    · exact hscaled "g" "b" 3 (by decide) (by decide)
    · exact hscaled "g" "ib" 3 (by decide) (by decide)
    · exact hscaled "t" "" 4 (by decide) (by decide)
    · exact hscaled "t" "b" 4 (by decide) (by decide)
    · exact hscaled "t" "ib" 4 (by decide) (by decide)

/-- A suffix in small letters has no others. -/
theorem SizeSuffix.isLower {s : String} {m : Nat} (h : SizeSuffix s m) :
    ∀ c ∈ s.toList, c.isLower = true := by
  refine List.all_eq_true.mp ?_
  cases h with
  | bytes hs =>
    simp only [List.mem_cons, List.not_mem_nil, or_false] at hs
    rcases hs with rfl | rfl | rfl | rfl <;> rfl
  | scaled letter tail k hletter htail hs hm =>
    simp only [List.mem_cons, List.not_mem_nil, or_false, Prod.mk.injEq] at hletter htail
    subst hs
    rcases hletter with ⟨rfl, -⟩ | ⟨rfl, -⟩ | ⟨rfl, -⟩ | ⟨rfl, -⟩ <;>
      rcases htail with rfl | rfl | rfl <;> rfl

theorem SizeSuffix.pos {s : String} {m : Nat} (h : SizeSuffix s m) : 0 < m := by
  cases h with
  | bytes _ => exact Nat.one_pos
  | scaled _ _ k _ _ _ hm =>
    rw [hm]
    exact Nat.pow_pos (by decide)

/-- A letter, whatever its case, is neither a digit nor a blank. -/
theorem not_digit_of_isLower_toLower {c : Char} (h : c.toLower.isLower = true) :
    c.isDigit = false ∧ isWhitespace c = false := by
  have hrange : (65 ≤ c.toNat ∧ c.toNat ≤ 90) ∨ (97 ≤ c.toNat ∧ c.toNat ≤ 122) := by
    by_cases hupper : c.val ≥ 'A'.val ∧ c.val ≤ 'Z'.val
    · left
      simpa [UInt32.le_iff_toNat_le] using hupper
    · right
      have hsame : c.toLower = c := dif_neg hupper
      rw [hsame] at h
      exact isLower_iff.mp h
  constructor
  · rw [← Bool.not_eq_true, isDigit_iff]
    omega
  · exact isWhitespace_of_ascii (by omega)

theorem not_blank_of_isDigit {c : Char} (h : c.isDigit = true) : isWhitespace c = false := by
  have hrange := isDigit_iff.mp h
  exact isWhitespace_of_ascii (by omega)

/-! ## What is accepted -/

section Parts

variable {digits blank suffix : List Char} {m : Nat}

theorem takeWhile_of_none {l : List Char} (h : ∀ c ∈ l, c.isDigit = false) :
    l.takeWhile Char.isDigit = [] ∧ l.dropWhile Char.isDigit = l := by
  cases l with
  | nil => exact ⟨rfl, rfl⟩
  | cons c l => simp [h c]

theorem SizeSuffix.letters (hs : SizeSuffix (.ofList (suffix.map Char.toLower)) m) :
    ∀ c ∈ suffix, c.isDigit = false ∧ isWhitespace c = false := by
  intro c hc
  refine not_digit_of_isLower_toLower (hs.isLower c.toLower ?_)
  rw [String.toList_ofList]
  exact List.mem_map_of_mem hc

/-- Text in the grammar falls into the parts that `parseSize` cuts. -/
theorem parts_of_sizeText (hd : ∀ c ∈ digits, c.isDigit = true)
    (hb : ∀ c ∈ blank, isWhitespace c = true)
    (hs : SizeSuffix (.ofList (suffix.map Char.toLower)) m) :
    (digits ++ blank ++ suffix).takeWhile Char.isDigit = digits ∧
      trim (.ofList ((digits ++ blank ++ suffix).dropWhile Char.isDigit)) = .ofList suffix := by
  have hletter := hs.letters
  have hrest : ∀ c ∈ blank ++ suffix, c.isDigit = false := by
    intro c hc
    rcases List.mem_append.mp hc with hc | hc
    · by_contra hdigit
      have hnot := not_blank_of_isDigit (Bool.not_eq_false _ ▸ hdigit)
      rw [hb c hc] at hnot
      cases hnot
    · exact (hletter c hc).1
  obtain ⟨htake, hdrop⟩ := takeWhile_of_none hrest
  rw [List.append_assoc, List.takeWhile_append_of_pos hd, List.dropWhile_append_of_pos hd, htake,
    hdrop, List.append_nil]
  refine ⟨rfl, ?_⟩
  have hpad : trim (padded blank (.ofList suffix) []) = trim (.ofList suffix) :=
    trim_padded hb (by simp) _
  rw [padded, List.append_nil, String.toList_ofList] at hpad
  rw [hpad]
  refine trim_of_ends (fun c hc => (hletter c ?_).2) fun c hc => (hletter c ?_).2
  · rw [String.toList_ofList] at hc
    exact List.mem_of_mem_head? hc
  · rw [String.toList_ofList] at hc
    exact List.mem_of_getLast? hc

end Parts

theorem parseU64_eq_some_iff {digits : List Char} {v : UInt64} :
    parseU64 digits = some v ↔ Nat.ofDigitChars 10 digits 0 = v.toNat := by
  unfold parseU64
  split
  · rename_i hlt
    rw [Option.some_inj, ← UInt64.toNat_inj, UInt64.toNat_ofNat_of_lt' hlt]
  · rename_i hge
    have hv := v.toNat_lt
    refine iff_of_false (by simp) ?_
    omega

theorem checkedMul_eq_some_iff {a b v : UInt64} :
    checkedMul a b = some v ↔ a.toNat * b.toNat = v.toNat := by
  unfold checkedMul
  split
  · rename_i hlt
    rw [Option.some_inj, ← UInt64.toNat_inj, UInt64.toNat_mul, Nat.mod_eq_of_lt hlt]
  · rename_i hge
    have hv := v.toNat_lt
    refine iff_of_false (by simp) ?_
    omega

/-- Text in the grammar is read as what it means. -/
theorem parseSize_of_sizeText {s : String} {v : UInt64} (h : SizeText (trim s) v.toNat) :
    parseSize s = .ok v := by
  obtain @⟨digits, blank, suffix, m, htext, hne, hd, hb, hs, hn⟩ := h
  obtain ⟨hnumber, hsuffix⟩ := parts_of_sizeText hd hb hs
  obtain ⟨multiplier, hmultiplier, hm⟩ := suffixMultiplier_iff.mp hs
  have hempty : trim s ≠ "" := by
    intro hnil
    rw [hnil] at htext
    exact hne (List.append_eq_nil_iff.mp (List.append_eq_nil_iff.mp htext.symm).1).1
  have hlt : Nat.ofDigitChars 10 digits 0 < 2 ^ 64 :=
    Nat.lt_of_le_of_lt (Nat.le_mul_of_pos_right _ hs.pos) (hn ▸ v.toNat_lt)
  have hvalue := parseU64_eq_some_iff.mpr (UInt64.toNat_ofNat_of_lt' hlt).symm
  have hmul : checkedMul (.ofNat (Nat.ofDigitChars 10 digits 0)) multiplier = some v := by
    rw [checkedMul_eq_some_iff, UInt64.toNat_ofNat_of_lt' hlt, hm, hn]
  unfold parseSize
  simp only [htext, hempty, hnumber, hne, hsuffix, toAsciiLowercase, String.toList_ofList,
    hmultiplier, hvalue, hmul, if_false]

/-- What is read is text in the grammar. -/
theorem sizeText_of_parseSize {s : String} {v : UInt64} (h : parseSize s = .ok v) :
    SizeText (trim s) v.toNat := by
  unfold parseSize at h
  dsimp only at h
  split at h
  · cases h
  split at h
  · cases h
  rename_i hne
  split at h
  · cases h
  rename_i multiplier hmultiplier
  split at h
  · cases h
  rename_i value hvalue
  split at h
  · cases h
  rename_i bytes hmul
  cases h
  have hlast : ∀ c ∈ ((trim s).toList.dropWhile Char.isDigit).getLast?, isWhitespace c = false :=
    fun c hc => getLast_trim s c (getLast?_of_suffix (List.dropWhile_suffix _) c hc)
  have htext : (trim s).toList = (trim s).toList.takeWhile Char.isDigit ++
      ((trim s).toList.dropWhile Char.isDigit).takeWhile isWhitespace ++
      ((trim s).toList.dropWhile Char.isDigit).dropWhile isWhitespace := by
    rw [List.append_assoc, List.takeWhile_append_dropWhile, List.takeWhile_append_dropWhile]
  rw [trim_ofList hlast, toAsciiLowercase, String.toList_ofList] at hmultiplier
  refine .intro htext hne (fun c hc => List.mem_takeWhile_imp hc)
    (fun c hc => List.mem_takeWhile_imp hc)
    (suffixMultiplier_iff.mpr ⟨multiplier, hmultiplier, rfl⟩) ?_
  rw [parseU64_eq_some_iff.mp hvalue, checkedMul_eq_some_iff.mp hmul]

/-- A size is read as the exact number that its text means, and anything else is refused. -/
theorem parseSize_iff (s : String) :
    (∀ v, parseSize s = .ok v ↔ SizeText (trim s) v.toNat) ∧
      ((∀ n < 2 ^ 64, ¬ SizeText (trim s) n) → ∃ msg, parseSize s = .error msg) := by
  refine ⟨fun v => ⟨sizeText_of_parseSize, parseSize_of_sizeText⟩, fun hnone => ?_⟩
  cases h : parseSize s with
  | error msg => exact ⟨msg, rfl⟩
  | ok v => exact absurd (sizeText_of_parseSize h) (hnone v.toNat v.toNat_lt)

/-- Blanks and letter case do not matter, and a product that does not fit is refused. -/
example : (parseSize " 4 gB ").toOption = some 4294967296 ∧
    (parseSize "18446744073709551615T").toOption = none := by decide

/-! ## What is shown -/

/-- A number and a suffix with a blank between them are read back. -/
theorem parseSize_of_shown {n m : Nat} {text suffix : String} {v : UInt64}
    (htext : text.toList = Nat.toDigits 10 n ++ [' '] ++ suffix.toList)
    (hs : SizeSuffix (toAsciiLowercase suffix) m) (hne : suffix.toList ≠ []) (hv : v.toNat = n * m) :
    parseSize text = .ok v := by
  have hdigits : ∀ c ∈ Nat.toDigits 10 n, c.isDigit = true := fun c hc =>
    Nat.isDigit_of_mem_toDigits (by decide) (by decide) hc
  have htrim : trim text = text := by
    refine trim_of_ends (fun c hc => ?_) fun c hc => ?_
    · rw [htext, List.append_assoc, List.head?_append_of_ne_nil _ Nat.toDigits_ne_nil] at hc
      exact not_blank_of_isDigit (hdigits c (List.mem_of_mem_head? hc))
    · rw [htext, List.getLast?_append_of_ne_nil _ hne] at hc
      exact (hs.letters c (List.mem_of_getLast? hc)).2
  refine parseSize_of_sizeText ?_
  rw [htrim]
  refine .intro htext Nat.toDigits_ne_nil hdigits ?_ hs ?_
  · intro c hc
    rw [List.mem_singleton.mp hc]
    rfl
  · rw [Nat.ofDigitChars_ten_toDigits, hv]

/-- What is shown for a byte count is read as that byte count. -/
theorem parseSize_formatSize (b : UInt64) : parseSize (formatSize b) = .ok b := by
  unfold formatSize
  split
  · rename_i scale unit hfind
    have hscale : b ≥ scale ∧ b % scale = 0 := by simpa using List.find?_some hfind
    have hmul : b.toNat = (b / scale).toNat * scale.toNat := by
      have hmod := congrArg UInt64.toNat hscale.2
      rw [UInt64.toNat_mod] at hmod
      rw [UInt64.toNat_div, Nat.div_mul_cancel (Nat.dvd_of_mod_eq_zero hmod)]
    have htext : (s!"{(b / scale).toNat} {unit}").toList =
        Nat.toDigits 10 (b / scale).toNat ++ [' '] ++ unit.toList := by simp [toString]
    have hmem := List.mem_of_find?_eq_some hfind
    simp only [UNITS, List.mem_cons, List.not_mem_nil, or_false, Prod.mk.injEq] at hmem
    rcases hmem with ⟨rfl, rfl⟩ | ⟨rfl, rfl⟩ | ⟨rfl, rfl⟩ | ⟨rfl, rfl⟩
    · exact parseSize_of_shown htext (.scaled "t" "ib" 4 (by decide) (by decide) rfl rfl)
        (by decide) hmul
    · exact parseSize_of_shown htext (.scaled "g" "ib" 3 (by decide) (by decide) rfl rfl)
        (by decide) hmul
    · exact parseSize_of_shown htext (.scaled "m" "ib" 2 (by decide) (by decide) rfl rfl)
        (by decide) hmul
    · exact parseSize_of_shown htext (.scaled "k" "ib" 1 (by decide) (by decide) rfl rfl)
        (by decide) hmul
  · have htext : (s!"{b.toNat} bytes").toList =
        Nat.toDigits 10 b.toNat ++ [' '] ++ "bytes".toList := by simp [toString]
    have hs : SizeSuffix (toAsciiLowercase "bytes") 1 := .bytes (by decide)
    exact parseSize_of_shown htext hs (by decide) (Nat.mul_one _).symm

end MtpMount
