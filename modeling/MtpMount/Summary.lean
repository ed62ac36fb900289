import MtpMount.DryRun

/-!
# The end of a dry run

A dry run ends with its totals and one of four remarks on them.

* `DryRun.unmatched_run`: the total that the remark goes by counts both kinds of
  departure that match no arrival;
* `DryRun.summary_run`: when a report prints that it found a problem;
* `DryRun.mem_openKeys_run`: the keys that it lists are those plugged in;
* `summary_problem_iff`: when the remark finds a problem just where a departure would leak.
-/

namespace MtpMount

/-! ## The summary -/

/-- The remark at the end. -/
inductive Closing where
  | problem
  | allGood
  | noDepartures
  | noDevices
  deriving DecidableEq, Repr

def Closing.text : Closing → String
  | problem => "PROBLEM: a departure didn't match its arrival, so the daemon would leak a " ++
      "mount for this device. The fields above show which one disagreed."
  | allGood => "All good: every departure matched an arrival, so the daemon takes the right " ++
      "mount down for this device."
  | noDepartures => "No departures seen. Unplug the device while this is running to check the " ++
      "half that matters."
  | noDevices => "No devices seen at all. Check the phone is unlocked and set to \"File " ++
      "Transfer\", and try RUST_LOG=debug."

def DepartureVerdict.isMatched : DepartureVerdict → Bool
  | matched _ => true
  | _ => false

namespace DryRun

/-- Keys that arrived and haven't left, sorted. -/
def openKeys (d : DryRun) : List String := d.opened.keys.insertionSort (· ≤ ·)

def closing (d : DryRun) : Closing :=
  if d.tally.unmatched > 0 then .problem
  else if d.tally.departures > 0 then .allGood
  else if d.tally.arrivals > 0 then .noDepartures
  else .noDevices

theorem Closing.text_injective : Function.Injective Closing.text := by
  intro c c' h
  cases c <;> cases c' <;> first | rfl | exact absurd h (by decide)

/-- The lines of the closing report. -/
def summary (d : DryRun) (reason : String) : List String :=
  ["",
    s!"=== Dry run over: {reason} ===",
    s!"  Arrivals:   {d.tally.arrivals}",
    s!"  Departures: {d.tally.departures}",
    s!"  Matched:    {d.tally.matched}",
    s!"  Unmatched:  {d.tally.unmatched}",
    if d.openKeys = [] then "  Would be mounted now: nothing"
    else "  Would be mounted now: " ++ ", ".intercalate d.openKeys,
    "",
    d.closing.text,
    ""]

/-- The verdicts on the departures, in order. -/
def verdictsFrom (d : DryRun) : List Plug → List DepartureVerdict
  | [] => []
  | .arrived facts :: ps => (d.arrived facts).verdictsFrom ps
  | .left facts :: ps => (d.left facts).2 :: (d.left facts).1.verdictsFrom ps

def verdicts (mountRoot : PathBuf) (ps : List Plug) : List DepartureVerdict :=
  (new mountRoot).verdictsFrom ps

/-! ## The totals and the verdicts -/

variable {d : DryRun} {mountRoot : PathBuf} {ps : List Plug} {v : DepartureVerdict}

theorem run_concat (mountRoot : PathBuf) (ps : List Plug) (p : Plug) :
    run mountRoot (ps ++ [p]) = (run mountRoot ps).handle p := List.foldl_concat ..

theorem mem_verdictsFrom : v ∈ d.verdictsFrom ps ↔
    ∃ before facts after, ps = before ++ .left facts :: after ∧
      v = (before.foldl handle d).verdict facts := by
  induction ps generalizing d with
  | nil => simp [verdictsFrom]
  | cons p ps ih =>
    cases p with
    | arrived facts =>
      rw [verdictsFrom, ih]
      constructor
      · rintro ⟨before, gone, after, rfl, rfl⟩
        exact ⟨.arrived facts :: before, gone, after, rfl, rfl⟩
      · rintro ⟨before, gone, after, hps, rfl⟩
        obtain _ | ⟨b, before⟩ := before
        · cases hps
        · cases hps
          exact ⟨before, gone, after, rfl, rfl⟩
    | left facts =>
      rw [verdictsFrom, List.mem_cons, ih]
      constructor
      · rintro (rfl | ⟨before, gone, after, rfl, rfl⟩)
        · exact ⟨[], facts, ps, rfl, rfl⟩
        · exact ⟨.left facts :: before, gone, after, rfl, rfl⟩
      · rintro ⟨before, gone, after, hps, rfl⟩
        obtain _ | ⟨b, before⟩ := before
        · cases hps
          exact .inl rfl
        · cases hps
          exact .inr ⟨before, gone, after, rfl, rfl⟩

theorem mem_verdicts : v ∈ verdicts mountRoot ps ↔
    ∃ before facts after, ps = before ++ .left facts :: after ∧
      v = (run mountRoot before).verdict facts := mem_verdictsFrom

theorem unmatched_left (t : Tally) (v : DepartureVerdict) :
    (Tally.left t v).unmatched = t.unmatched + [v].countP fun v => !v.isMatched := by
  cases v <;> rfl

/-- Every departure that matches no arrival is counted, and nothing else is. -/
theorem unmatched_verdictsFrom (d : DryRun) (ps : List Plug) :
    (ps.foldl handle d).tally.unmatched =
      d.tally.unmatched + (d.verdictsFrom ps).countP fun v => !v.isMatched := by
  induction ps generalizing d with
  | nil => rfl
  | cons p ps ih =>
    rw [List.foldl_cons, ih]
    cases p with
    | arrived facts => rfl
    | left facts =>
      rw [verdictsFrom, ← List.singleton_append, List.countP_append]
      simp only [handle, left, unmatched_left]
      omega

theorem unmatched_run (mountRoot : PathBuf) (ps : List Plug) :
    (run mountRoot ps).tally.unmatched = (verdicts mountRoot ps).countP fun v => !v.isMatched :=
  (unmatched_verdictsFrom _ ps).trans (Nat.zero_add _)

theorem closing_eq_problem : d.closing = .problem ↔ 0 < d.tally.unmatched := by
  unfold closing
  split
  · exact iff_of_true rfl ‹_›
  · refine iff_of_false ?_ ‹_›
    split
    · nofun
    · split <;> nofun

/-- The remark finds a problem in every departure that matches no arrival. -/
theorem closing_run_eq_problem : (run mountRoot ps).closing = .problem ↔
    ∃ v ∈ verdicts mountRoot ps, v.isMatched = false := by
  rw [closing_eq_problem, unmatched_run, List.countP_pos_iff]
  simp only [Bool.not_eq_true']

/-- The remark is the last line of the report but one. -/
theorem summary_remark {reason : String} {c : Closing} :
    (d.summary reason)[8]? = some c.text ↔ d.closing = c := by
  rw [← Closing.text_injective.eq_iff]
  exact Option.some_inj

/-- The report prints a problem just if some departure matched no arrival. -/
theorem summary_run (mountRoot : PathBuf) (ps : List Plug) (reason : String) :
    ((run mountRoot ps).summary reason)[8]? = some Closing.problem.text ↔
      ∃ v ∈ verdicts mountRoot ps, v.isMatched = false :=
  summary_remark.trans closing_run_eq_problem

end DryRun

/-! ## What is plugged in -/

/-- The key arrived, and has not left since. -/
def Plugged (ps : List Plug) (key : String) : Prop :=
  ∃ before facts after, ps = before ++ .arrived facts :: after ∧ facts.key = key ∧
    ∀ gone, .left gone ∈ after → gone.key ≠ key

variable {d : DryRun} {mountRoot : PathBuf} {ps : List Plug} {facts : DeviceFacts} {key : String}

theorem not_plugged_nil : ¬ Plugged [] key := by
  rintro ⟨before, facts, after, hps, -⟩
  exact absurd hps.symm (by simp)

theorem plugged_concat {p : Plug} : Plugged (ps ++ [p]) key ↔
    (∃ facts, p = .arrived facts ∧ facts.key = key) ∨
      (∀ gone, p = .left gone → gone.key ≠ key) ∧ Plugged ps key := by
  constructor
  · rintro ⟨before, facts, after, hps, hkey, hstays⟩
    obtain rfl | ⟨after, last, rfl⟩ := after.eq_nil_or_concat'
    · obtain ⟨-, hlast⟩ := List.append_inj' hps rfl
      cases hlast
      exact .inl ⟨facts, rfl, hkey⟩
    · rw [← List.cons_append, ← List.append_assoc] at hps
      obtain ⟨rfl, hlast⟩ := List.append_inj' hps rfl
      cases hlast
      refine .inr ⟨fun gone hgone => hstays gone ?_, before, facts, after, rfl, hkey,
        fun gone hgone => hstays gone (List.mem_append_left _ hgone)⟩
      rw [hgone]
      exact List.mem_append_right _ List.mem_cons_self
  · rintro (⟨facts, rfl, hkey⟩ | ⟨hp, before, facts, after, rfl, hkey, hstays⟩)
    · exact ⟨ps, facts, [], rfl, hkey, nofun⟩
    · refine ⟨before, facts, after ++ [p], ?_, hkey, fun gone hgone => ?_⟩
      · rw [List.append_assoc, List.cons_append]
      · rcases List.mem_append.mp hgone with hgone | hgone
        · exact hstays gone hgone
        · exact hp gone (List.mem_singleton.mp hgone).symm

theorem plugged_arrived : Plugged (ps ++ [.arrived facts]) key ↔ facts.key = key ∨ Plugged ps key := by
  simp [plugged_concat]

theorem plugged_left : Plugged (ps ++ [.left facts]) key ↔ facts.key ≠ key ∧ Plugged ps key := by
  simp [plugged_concat]

namespace DryRun

/-- The reporter has down as mounted what is plugged in. -/
theorem opened_run (mountRoot : PathBuf) (ps : List Plug) (key : String) :
    ((run mountRoot ps).opened.lookup key).isSome ↔ Plugged ps key := by
  induction ps using List.reverseRecOn generalizing key with
  | nil => exact iff_of_false (by simp [run, new]) not_plugged_nil
  | append_singleton ps p ih =>
    rw [run_concat]
    cases p with
    | arrived facts =>
      rw [plugged_arrived, ← ih]
      simp only [handle, arrived]
      split
      · rename_i path hp
        constructor
        · exact .inr
        · rintro (rfl | h)
          · rw [hp]
            rfl
          · exact h
      · rw [HashMap.lookup_insert]
        split
        · exact iff_of_true rfl (.inl ‹key = facts.key›.symm)
        · exact ⟨.inr, fun h => h.resolve_left fun hkey => ‹¬key = facts.key› hkey.symm⟩
    | left facts =>
      rw [plugged_left, ← ih]
      simp only [handle, left]
      rw [HashMap.lookup_erase]
      split
      · exact iff_of_false Bool.false_ne_true fun h => h.1 ‹key = facts.key›.symm
      · exact ⟨fun h => ⟨fun hkey => ‹¬key = facts.key› hkey.symm, h⟩, fun h => h.2⟩

theorem mem_openKeys : key ∈ d.openKeys ↔ (d.opened.lookup key).isSome = true := by
  rw [openKeys, List.mem_insertionSort, AList.lookup_isSome]
  exact AList.mem_keys.symm

/-- The keys that the report lists are those that are plugged in, in order. -/
theorem mem_openKeys_run (mountRoot : PathBuf) (ps : List Plug) :
    (run mountRoot ps).openKeys.Pairwise (· ≤ ·) ∧
      ∀ key, key ∈ (run mountRoot ps).openKeys ↔ Plugged ps key :=
  ⟨List.pairwise_insertionSort _ _, fun key => mem_openKeys.trans (opened_run mountRoot ps key)⟩

theorem entries_run_eq_nil : (run mountRoot ps).opened.entries = [] ↔ ∀ key, ¬ Plugged ps key := by
  simp only [← opened_run mountRoot ps]
  constructor
  · intro h key hkey
    obtain ⟨path, hpath⟩ := Option.isSome_iff_exists.mp hkey
    have hmem := HashMap.lookup_eq_some_iff.mp hpath
    rw [h] at hmem
    cases hmem
  · intro h
    refine List.eq_nil_iff_forall_not_mem.mpr fun b hb => ?_
    refine h b.1 ?_
    rw [HashMap.lookup_eq_some_iff.mpr hb]
    rfl

/-- A departure matches if its key is plugged in, and would leak if another is. -/
theorem verdict_run (mountRoot : PathBuf) (ps : List Plug) (facts : DeviceFacts) :
    (((run mountRoot ps).verdict facts).isMatched = true ↔ Plugged ps facts.key) ∧
    ((∃ leaked, (run mountRoot ps).verdict facts = .wouldLeak leaked) ↔
      ¬ Plugged ps facts.key ∧ ∃ key, Plugged ps key) := by
  have hopened := opened_run mountRoot ps facts.key
  have hentries : (run mountRoot ps).opened.entries = [] ↔ ∀ key, ¬ Plugged ps key :=
    entries_run_eq_nil
  unfold verdict
  split
  · rename_i path hp
    rw [hp] at hopened
    have hin := hopened.mp rfl
    exact ⟨iff_of_true rfl hin, iff_of_false (fun ⟨_, h⟩ => nomatch h) fun h => h.1 hin⟩
  · rename_i hnone
    rw [hnone] at hopened
    have hout : ¬ Plugged ps facts.key := fun h => nomatch hopened.mpr h
    split
    · rename_i hempty
      have hnothing := hentries.mp hempty
      exact ⟨iff_of_false nofun hout, iff_of_false (fun ⟨_, h⟩ => nomatch h)
        fun ⟨_, key, h⟩ => hnothing key h⟩
    · rename_i hsome
      refine ⟨iff_of_false nofun hout, iff_of_true ⟨_, rfl⟩ ⟨hout, ?_⟩⟩
      by_contra hno
      exact hsome (hentries.mpr (not_exists.mp hno))

end DryRun

open DryRun

/-- After any arrivals and departures the remark finds a problem just where some
departure would leak, if and only if some key left that was not plugged in while
another was, or every departure came while some key was plugged in. -/
theorem summary_problem_iff (mountRoot : PathBuf) (ps : List Plug) :
    ((run mountRoot ps).closing = .problem ↔ ∃ leaked, .wouldLeak leaked ∈ verdicts mountRoot ps) ↔
      (∃ before facts after, ps = before ++ .left facts :: after ∧
        ¬ Plugged before facts.key ∧ ∃ key, Plugged before key) ∨
      ∀ before facts after, ps = before ++ .left facts :: after → ∃ key, Plugged before key := by
  have hleak : (∃ leaked, .wouldLeak leaked ∈ verdicts mountRoot ps) ↔
      ∃ before facts after, ps = before ++ .left facts :: after ∧
        ¬ Plugged before facts.key ∧ ∃ key, Plugged before key := by
    constructor
    · rintro ⟨leaked, hmem⟩
      obtain ⟨before, facts, after, hps, hv⟩ := mem_verdicts.mp hmem
      exact ⟨before, facts, after, hps, (verdict_run mountRoot before facts).2.mp ⟨leaked, hv.symm⟩⟩
    · rintro ⟨before, facts, after, hps, hplugged⟩
      obtain ⟨leaked, hv⟩ := (verdict_run mountRoot before facts).2.mpr hplugged
      exact ⟨leaked, mem_verdicts.mpr ⟨before, facts, after, hps, hv.symm⟩⟩
  have hproblem : (run mountRoot ps).closing = .problem ↔
      ∃ before facts after, ps = before ++ .left facts :: after ∧ ¬ Plugged before facts.key := by
    rw [closing_run_eq_problem]
    constructor
    · rintro ⟨v, hmem, hv⟩
      obtain ⟨before, facts, after, hps, rfl⟩ := mem_verdicts.mp hmem
      refine ⟨before, facts, after, hps, fun h => ?_⟩
      rw [(verdict_run mountRoot before facts).1.mpr h] at hv
      cases hv
    · rintro ⟨before, facts, after, hps, hout⟩
      refine ⟨_, mem_verdicts.mpr ⟨before, facts, after, hps, rfl⟩, ?_⟩
      exact Bool.eq_false_iff.mpr fun h => hout ((verdict_run mountRoot before facts).1.mp h)
  rw [hleak, hproblem]
  constructor
  · intro h
    by_cases hsome : ∃ before facts after, ps = before ++ .left facts :: after ∧
        ¬ Plugged before facts.key
    · exact .inl (h.mp hsome)
    · refine .inr fun before facts after hps => ?_
      by_contra hno
      exact hsome ⟨before, facts, after, hps, fun hin => hno ⟨_, hin⟩⟩
  · rintro (hsome | hall)
    · obtain ⟨before, facts, after, hps, hout, hother⟩ := hsome
      exact iff_of_true ⟨before, facts, after, hps, hout⟩ ⟨before, facts, after, hps, hout, hother⟩
    · constructor
      · rintro ⟨before, facts, after, hps, hout⟩
        exact ⟨before, facts, after, hps, hout, hall before facts after hps⟩
      · rintro ⟨before, facts, after, hps, hout, -⟩
        exact ⟨before, facts, after, hps, hout⟩

/-- A departure before any arrival: nothing is mounted that could leak. -/
theorem summary_problem_unplugged : ¬ ∀ (mountRoot : PathBuf) (ps : List Plug),
    (run mountRoot ps).closing = .problem ↔
      ∃ leaked, .wouldLeak leaked ∈ verdicts mountRoot ps := by
  intro hclaim
  obtain ⟨leaked, hmem⟩ := (hclaim [.rootDir] [.left camera]).mp (by rfl)
  have hverdicts : verdicts [.rootDir] [.left camera] = [.nothingToUnmount] := by rfl
  rw [hverdicts] at hmem
  cases List.mem_singleton.mp hmem

end MtpMount
