import Mathlib.Data.List.Sort
import MtpMount.Mounts

/-!
# The dry run

The reporter that watches devices and mounts nothing, next to the loop that
mounts them.

* `dryRun_predicts`: after any arrivals and departures, the paths it has down as
  mounted, its verdict on the next departure and its totals are what the
  supervisor does when every mount succeeds and none gives up.
-/

namespace MtpMount

/-- What drives the reporter. -/
inductive Plug where
  | arrived (facts : DeviceFacts)
  | left (facts : DeviceFacts)
  deriving DecidableEq

/-- What a departure turned out to be. -/
inductive DepartureVerdict where
  /-- The right mount comes down. -/
  | matched (path : PathBuf)
  /-- The key matched nothing that arrived, and these stay mounted. -/
  | wouldLeak (leaked : List PathBuf)
  | nothingToUnmount
  deriving DecidableEq

structure Tally where
  arrivals : Nat
  departures : Nat
  matched : Nat
  unmatched : Nat
  deriving DecidableEq

structure DryRun where
  mountRoot : PathBuf
  /-- Keys that arrived and haven't left: what would be mounted right now. -/
  opened : HashMap String PathBuf
  /-- Every key seen arriving, for the no-match message. -/
  arrivedKeys : List String
  tally : Tally
  events : Nat

namespace DryRun

def new (mountRoot : PathBuf) : DryRun := ⟨mountRoot, ∅, [], ⟨0, 0, 0, 0⟩, 0⟩

def arrived (d : DryRun) (facts : DeviceFacts) : DryRun :=
  { d with
    opened := match d.opened.lookup facts.key with
      | some _ => d.opened
      | none => d.opened.insert facts.key (d.mountRoot.join facts.key)
    arrivedKeys :=
      if facts.key ∈ d.arrivedKeys then d.arrivedKeys else d.arrivedKeys ++ [facts.key]
    tally := { d.tally with arrivals := d.tally.arrivals + 1 }
    events := d.events + 1 }

def verdict (d : DryRun) (facts : DeviceFacts) : DepartureVerdict :=
  match d.opened.lookup facts.key with
  | some path => .matched path
  | none =>
    if d.opened.entries = [] then .nothingToUnmount
    else .wouldLeak (d.opened.values.insertionSort (· ≤ ·))

/-- The totals after a departure. -/
def Tally.left (t : Tally) : DepartureVerdict → Tally
  | .matched _ => { t with departures := t.departures + 1, matched := t.matched + 1 }
  | .wouldLeak _ | .nothingToUnmount =>
    { t with departures := t.departures + 1, unmatched := t.unmatched + 1 }

def left (d : DryRun) (facts : DeviceFacts) : DryRun × DepartureVerdict :=
  let verdict := d.verdict facts
  ({ d with
    opened := d.opened.erase facts.key
    tally := Tally.left d.tally verdict
    events := d.events + 1 }, verdict)

def handle (d : DryRun) : Plug → DryRun
  | .arrived facts => d.arrived facts
  | .left facts => (d.left facts).1

/-- The reporter after what was plugged in and out. -/
def run (mountRoot : PathBuf) (ps : List Plug) : DryRun := ps.foldl handle (.new mountRoot)

end DryRun

open MountTable

/-- What the supervisor is sent, when every device opens and every mount succeeds. -/
def Plug.handled : Plug → Handled DeviceFacts
  | .arrived facts => .arrived facts .spawned
  | .left facts => .left facts

/-- The supervisor after what was plugged in and out. -/
def mountedBy (mountRoot : PathBuf) (ps : List Plug) : MountTable :=
  (run DeviceFacts.ident mountRoot (ps.map Plug.handled)).1

/-- The reporter's paths are the supervisor's, and its totals add up. -/
structure Predicts (d : DryRun) (t : MountTable) : Prop where
  root : d.mountRoot = t.mountRoot
  opened : ∀ key, d.opened.lookup key = (t.mounts.lookup key).map DeviceMount.path
  total : d.tally.matched + d.tally.unmatched = d.tally.departures

namespace Predicts

variable {d : DryRun} {t : MountTable}

theorem arrived (h : Predicts d t) (facts : DeviceFacts) :
    Predicts (d.arrived facts) (t.mount facts.ident .spawned).1 := by
  have hkey := h.opened facts.key
  unfold MountTable.mount
  simp only [DeviceFacts.ident_key]
  cases hm : t.mounts.lookup facts.key with
  | some m =>
    rw [hm] at hkey
    refine ⟨h.root, fun key => ?_, h.total⟩
    simpa [DryRun.arrived, hkey] using h.opened key
  | none =>
    rw [hm] at hkey
    refine ⟨h.root, fun key => ?_, h.total⟩
    simp only [DryRun.arrived, hkey, Option.map_none]
    rw [HashMap.lookup_insert, HashMap.lookup_insert, h.opened key, h.root]
    split
    · rfl
    · rfl

theorem left (h : Predicts d t) (facts : DeviceFacts) :
    Predicts (d.left facts).1 (t.unmount facts.key).1 := by
  refine ⟨?_, fun key => ?_, ?_⟩
  · unfold MountTable.unmount
    split <;> exact h.root
  · simp only [DryRun.left]
    rw [HashMap.lookup_erase, h.opened key]
    unfold MountTable.unmount
    cases hm : t.mounts.lookup facts.key with
    | none =>
      split
      · rename_i hk
        rw [hk, hm]
        rfl
      · rfl
    | some m =>
      dsimp only
      rw [HashMap.lookup_erase]
      split
      · rfl
      · rfl
  · have htotal := h.total
    simp only [DryRun.left]
    cases d.verdict facts <;> simp only [DryRun.Tally.left] <;> omega

/-- Its verdict is what the supervisor does. -/
theorem matched_iff (h : Predicts d t) (facts : DeviceFacts) (path : PathBuf) :
    (d.left facts).2 = .matched path ↔
      ∃ session, (t.unmount facts.key).2 = .unmounted session path := by
  have hkey := h.opened facts.key
  simp only [DryRun.left, DryRun.verdict, MountTable.unmount]
  cases hm : t.mounts.lookup facts.key with
  | none =>
    rw [hm] at hkey
    simp only [hkey, Option.map_none]
    split <;> simp
  | some m =>
    rw [hm] at hkey
    simp [hkey]

theorem paths_perm (h : Predicts d t) :
    d.opened.values.Perm (t.mounts.values.map DeviceMount.path) := by
  rw [← HashMap.values_map]
  apply HashMap.values_perm
  intro key
  rw [HashMap.lookup_map, h.opened key]

/-- What it says would leak stays mounted, and nothing else does. -/
theorem wouldLeak (h : Predicts d t) (facts : DeviceFacts) {leaked : List PathBuf}
    (hl : (d.left facts).2 = .wouldLeak leaked) :
    leaked.Pairwise (· ≤ ·) ∧
      leaked.Perm ((t.unmount facts.key).1.mounts.values.map DeviceMount.path) := by
  have hkey := h.opened facts.key
  simp only [DryRun.left, DryRun.verdict] at hl
  split at hl
  · cases hl
  · rename_i hnone
    rw [hnone] at hkey
    have hm : t.mounts.lookup facts.key = none := Option.map_eq_none_iff.mp hkey.symm
    split at hl
    · cases hl
    · cases hl
      have hsame : (t.unmount facts.key).1 = t := by rw [MountTable.unmount, hm]
      rw [hsame]
      exact ⟨List.pairwise_insertionSort _ _, (List.perm_insertionSort _ _).trans h.paths_perm⟩

/-- It sees nothing to unmount exactly when nothing is mounted. -/
theorem nothing_iff (h : Predicts d t) (facts : DeviceFacts) :
    (d.left facts).2 = .nothingToUnmount ↔ t.mounts.values = [] := by
  have hlen := h.paths_perm.length_eq
  simp only [HashMap.values, List.length_map] at hlen
  have hempty : d.opened.entries = [] ↔ t.mounts.values = [] := by
    rw [← List.length_eq_zero_iff, hlen, ← List.length_eq_zero_iff, HashMap.values,
      List.length_map]
  rw [← hempty]
  simp only [DryRun.left, DryRun.verdict]
  split
  · rename_i path hp
    have hmem : _ ∈ d.opened.entries := HashMap.lookup_eq_some_iff.mp hp
    simp [List.ne_nil_of_mem hmem]
  · split
    · simpa using ‹_›
    · simpa using ‹_›

end Predicts

/-- The reporter keeps up with the supervisor. -/
theorem predicts_run (mountRoot : PathBuf) (ps : List Plug) :
    Predicts (DryRun.run mountRoot ps) (mountedBy mountRoot ps) := by
  induction ps using List.reverseRecOn with
  | nil => exact ⟨rfl, fun key => by simp [DryRun.run, DryRun.new, mountedBy, MountTable.new], rfl⟩
  | append_singleton ps p ih =>
    have hd : DryRun.run mountRoot (ps ++ [p]) = (DryRun.run mountRoot ps).handle p :=
      List.foldl_concat ..
    have ht : mountedBy mountRoot (ps ++ [p]) =
        ((mountedBy mountRoot ps).handle DeviceFacts.ident p.handled).1 := by
      rw [mountedBy, List.map_append, List.map_singleton, run_concat]
      rfl
    rw [hd, ht]
    cases p with
    | arrived facts => exact ih.arrived facts
    | left facts => exact ih.left facts

/-- After any arrivals and departures the reporter has the paths of the supervisor,
what it says of the next departure is what the supervisor does, and its totals add up. -/
theorem dryRun_predicts (mountRoot : PathBuf) (ps : List Plug) :
    (∀ key, (DryRun.run mountRoot ps).opened.lookup key =
      ((mountedBy mountRoot ps).mounts.lookup key).map DeviceMount.path) ∧
    (∀ facts path, ((DryRun.run mountRoot ps).left facts).2 = .matched path ↔
      ∃ session, ((mountedBy mountRoot ps).unmount facts.ident.key).2 = .unmounted session path) ∧
    (∀ facts leaked, ((DryRun.run mountRoot ps).left facts).2 = .wouldLeak leaked →
      leaked.Pairwise (· ≤ ·) ∧ leaked.Perm
        (((mountedBy mountRoot ps).unmount facts.ident.key).1.mounts.values.map DeviceMount.path)) ∧
    (∀ facts, ((DryRun.run mountRoot ps).left facts).2 = .nothingToUnmount ↔
      (mountedBy mountRoot ps).mounts.values = []) ∧
    (DryRun.run mountRoot ps).tally.matched + (DryRun.run mountRoot ps).tally.unmatched =
      (DryRun.run mountRoot ps).tally.departures := by
  have h := predicts_run mountRoot ps
  exact ⟨h.opened, h.matched_iff, fun facts _ hl => h.wouldLeak facts hl, h.nothing_iff, h.total⟩

def camera : DeviceFacts := ⟨none, 0x04a9, 0x3270, 5, "Camera"⟩

/-- The wrong player leaves. -/
example : ((DryRun.run [.rootDir] [.arrived camera, .arrived player]).left
    { player with serial := some "other" }).2 =
      .wouldLeak [[.rootDir, .normal "PL-7"], [.rootDir, .normal "usb-04a9-3270-5"]] := by
  rfl

end MtpMount
