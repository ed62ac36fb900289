import Mathlib.Data.List.AList

/-!
# Maps

A hash map is a list of bindings without duplicate keys; the order of the list
is the order an iteration meets. What is looked up after an update is said once
here, as an `if` on the key.
-/

/-- A map from `K` to `V`. -/
abbrev HashMap (K V : Type) := AList fun _ : K => V

namespace HashMap

variable {K V : Type}

/-- The values, in iteration order. -/
def values (m : HashMap K V) : List V := m.entries.map Sigma.snd

/-- Keeps the bindings that meet `keep`. -/
def retain (m : HashMap K V) (keep : K → V → Bool) : HashMap K V :=
  ⟨m.entries.filter fun b => keep b.1 b.2, m.nodupKeys.sublist List.filter_sublist⟩

/-- Changes every value, with the keys as they are. -/
def map {W : Type} (m : HashMap K V) (f : V → W) : HashMap K W :=
  ⟨m.entries.map (.map id fun _ => f), m.nodupKeys.map₂ _ _⟩

theorem values_map {W : Type} (m : HashMap K V) (f : V → W) :
    (m.map f).values = m.values.map f := by
  simp [values, map, Function.comp_def, Sigma.map]

variable [DecidableEq K]

/-- Changes the value at `k`, if there is one, in place. -/
def update (m : HashMap K V) (k : K) (f : V → V) : HashMap K V :=
  match m.lookup k with
  | some v => m.insert k (f v)
  | none => m

theorem lookup_insert (m : HashMap K V) (k k' : K) (v : V) :
    (m.insert k v).lookup k' = if k' = k then some v else m.lookup k' := by
  by_cases h : k' = k
  · rw [if_pos h, h]
    exact AList.lookup_insert m
  · rw [if_neg h]
    exact AList.lookup_insert_ne h

theorem lookup_erase (m : HashMap K V) (k k' : K) :
    (m.erase k).lookup k' = if k' = k then none else m.lookup k' := by
  by_cases h : k' = k
  · rw [if_pos h, h]
    exact AList.lookup_erase k m
  · rw [if_neg h]
    exact AList.lookup_erase_ne h

theorem erase_of_lookup {m : HashMap K V} {k : K} (h : m.lookup k = none) : m.erase k = m :=
  AList.ext (List.kerase_of_notMem_keys (AList.lookup_eq_none.mp h))

theorem lookup_update (m : HashMap K V) (k k' : K) (f : V → V) :
    (m.update k f).lookup k' = if k' = k then (m.lookup k).map f else m.lookup k' := by
  unfold update
  cases h : m.lookup k with
  | none =>
    by_cases hk : k' = k
    · rw [if_pos hk, hk, h]
      rfl
    · rw [if_neg hk]
  | some v => simpa only [Option.map_some] using lookup_insert m k k' (f v)

theorem length_keys_update (m : HashMap K V) (k : K) (f : V → V) :
    (m.update k f).keys.length = m.keys.length := by
  unfold update
  split
  · rename_i v hv
    have hk : k ∈ m.keys := AList.mem_keys.mp (AList.lookup_isSome.mp (by simp [hv]))
    have hpos := List.length_pos_of_mem hk
    rw [AList.keys_insert, List.length_cons, List.length_erase_of_mem hk]
    omega
  · rfl

/-- A default that the change keeps is as good as a binding. -/
theorem getD_lookup_update (m : HashMap K V) (k k' : K) {f : V → V} {d : V} (hf : f d = d) :
    ((m.update k f).lookup k').getD d =
      if k' = k then f ((m.lookup k').getD d) else (m.lookup k').getD d := by
  rw [lookup_update]
  by_cases hk : k' = k
  · subst hk
    cases m.lookup k' <;> simp [hf]
  · simp [hk]

@[simp] theorem lookup_empty (k : K) : (∅ : HashMap K V).lookup k = none :=
  AList.lookup_empty k

theorem lookup_eq_some_iff {m : HashMap K V} {k : K} {v : V} :
    m.lookup k = some v ↔ ⟨k, v⟩ ∈ m.entries := AList.mem_lookup_iff

theorem mem_values {m : HashMap K V} {v : V} : v ∈ m.values ↔ ∃ k, m.lookup k = some v := by
  simp only [values, List.mem_map, lookup_eq_some_iff]
  constructor
  · rintro ⟨⟨k, w⟩, hb, rfl⟩
    exact ⟨k, hb⟩
  · rintro ⟨k, hk⟩
    exact ⟨⟨k, v⟩, hk, rfl⟩

theorem lookup_map {W : Type} (m : HashMap K V) (f : V → W) (k : K) :
    (m.map f).lookup k = (m.lookup k).map f := List.dlookup_map₂ k

/-- Maps that agree on every key have one collection of values. -/
theorem values_perm {m m' : HashMap K V} (h : ∀ k, m.lookup k = m'.lookup k) :
    m.values.Perm m'.values := by
  have hperm : m.entries.Perm m'.entries := List.lookup_ext m.nodupKeys m'.nodupKeys fun k v => by
    rw [show m.entries.dlookup k = m'.entries.dlookup k from h k]
  exact hperm.map Sigma.snd

/-- The same bindings, the other way round. -/
def reverse (m : HashMap K V) : HashMap K V :=
  ⟨m.entries.reverse, (List.perm_nodupKeys m.entries.reverse_perm).mpr m.nodupKeys⟩

/-- Whatever the order, one binding may come first. -/
theorem exists_front {m : HashMap K V} {k : K} {v : V} (h : m.lookup k = some v) :
    ∃ (m' : HashMap K V) (rest : List ((_ : K) × V)), m'.entries.Perm m.entries ∧
      m'.entries = ⟨k, v⟩ :: rest := by
  obtain ⟨before, after, hm⟩ := List.append_of_mem (lookup_eq_some_iff.mp h)
  have hperm : (⟨k, v⟩ :: (before ++ after) : List ((_ : K) × V)).Perm m.entries := by
    rw [hm]
    exact List.perm_middle.symm
  exact ⟨⟨⟨k, v⟩ :: (before ++ after), (List.perm_nodupKeys hperm).mpr m.nodupKeys⟩, _, hperm, rfl⟩

/-- So may its value. -/
theorem exists_first {m : HashMap K V} {k : K} {v : V} (h : m.lookup k = some v) :
    ∃ m' : HashMap K V, m'.entries.Perm m.entries ∧ m'.values.head? = some v := by
  obtain ⟨m', rest, hperm, hfront⟩ := exists_front h
  refine ⟨m', hperm, ?_⟩
  rw [values, hfront]
  rfl

theorem lookup_of_perm {m m' : HashMap K V} (h : m.entries.Perm m'.entries) (k : K) :
    m.lookup k = m'.lookup k := AList.perm_lookup h

theorem lookup_retain_some {m : HashMap K V} {keep : K → V → Bool} {k : K} {v : V} :
    (m.retain keep).lookup k = some v ↔ m.lookup k = some v ∧ keep k v = true := by
  simp only [lookup_eq_some_iff, retain, List.mem_filter]

end HashMap
