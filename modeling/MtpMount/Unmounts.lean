import MtpMount.Mounts

/-!
# What the daemon leaves mounted

The loop of the supervisor next to the kernel's mounts. An unmount takes its
entry out of the map before it tries, and the check afterwards only logs: where
the mount stays, nothing in the daemon knows of it.

* `failed_unmount_iff`: in the states of a run the supervisor would unmount on
  `Stop` all that it left mounted, and mounts over none of it, exactly when every
  unmount of the run took its mount down;
* `failed_unmount_forgotten`: a mount that is left, and mounted over.
-/

namespace MtpMount

/-- The supervisor's map and the kernel's mounts. -/
structure Daemon where
  table : MountTable
  /-- Where the daemon's mounts are, the newest first. -/
  mounted : List PathBuf

/-- A command that the loop handles, or a mount that goes away by itself. -/
inductive Incident where
  | arrived (ident : DeviceIdent) (outcome : Outcome)
  /-- `gone`: the mount is taken down before the unmount returns. -/
  | left (ident : DeviceIdent) (gone : Bool)
  | giveUp (key : String) (gone : Bool)
  /-- A late detach, a session that ended, or an unmount by hand. -/
  | vanished (path : PathBuf)

/-- The command that the loop of the map sees. -/
def Incident.handled? : Incident → Option (Handled DeviceIdent)
  | .arrived ident outcome => some (.arrived ident outcome)
  | .left ident _ => some (.left ident)
  | .giveUp key _ => some (.unmount key)
  | .vanished _ => none

namespace Daemon

def new (mountRoot : PathBuf) : Daemon := ⟨.new mountRoot, []⟩

def mount (d : Daemon) (ident : DeviceIdent) (outcome : Outcome) : Daemon :=
  match d.table.mount ident outcome with
  | (t, .mounted _ path) => ⟨t, path :: d.mounted⟩
  | (t, _) => ⟨t, d.mounted⟩

/-- Takes the entry out and tries to unmount its path, which is handed back. -/
def unmount (d : Daemon) (key : String) (gone : Bool) : Option PathBuf × Daemon :=
  match d.table.unmount key with
  | (t, .unmounted _ path) => (some path, ⟨t, if gone then d.mounted.erase path else d.mounted⟩)
  | (t, _) => (none, ⟨t, d.mounted⟩)

def step (d : Daemon) : Incident → Daemon
  | .arrived ident outcome => d.mount ident outcome
  | .left ident gone => (d.unmount ident.key gone).2
  | .giveUp key gone => (d.unmount key gone).2
  | .vanished path => { d with mounted := d.mounted.erase path }

def run (mountRoot : PathBuf) (xs : List Incident) : Daemon := xs.foldl step (new mountRoot)

/-- The unmounts of some keys, one after the other; the paths that were tried. -/
def unmountKeys (gone : String → Bool) : List String → Daemon → List PathBuf × Daemon
  | [], d => ([], d)
  | key :: keys, d =>
    let (path, d) := d.unmount key (gone key)
    let (paths, d) := unmountKeys gone keys d
    (path.toList ++ paths, d)

/-- What handles `Stop`: the keys are listed, then each is unmounted. -/
def unmountAll (gone : String → Bool) (d : Daemon) : List PathBuf × Daemon :=
  unmountKeys gone d.table.mounts.keys d

/-- On `Stop` every path still mounted would be tried, and no arrival is mounted over one. -/
structure Remembers (d : Daemon) : Prop where
  stop : ∀ gone, ∀ path ∈ d.mounted, path ∈ (d.unmountAll gone).1
  arrival : ∀ ident outcome session path,
    (d.table.mount ident outcome).2 = .mounted session path → path ∉ d.mounted

/-- The unmount of the key, if there is something to unmount, takes it down. -/
def TakesDown (d : Daemon) (key : String) (gone : Bool) : Prop :=
  ∀ m, d.table.mounts.lookup key = some m → m.path ∈ d.mounted → gone = true

/-- An unmount that this is takes its mount down. -/
def Succeeds (d : Daemon) : Incident → Prop
  | .left ident gone => d.TakesDown ident.key gone
  | .giveUp key gone => d.TakesDown key gone
  | _ => True

/-! ## What the operations do -/

variable {d : Daemon} {key : String} {gone : Bool}

theorem mount_cases (d : Daemon) (ident : DeviceIdent) (outcome : Outcome) :
    (d.table.mounts.lookup ident.key = none ∧
      (d.table.mount ident outcome).2 = .mounted d.table.nextSession (d.table.mountRoot.join ident.key) ∧
      (d.mount ident outcome).mounted = d.table.mountRoot.join ident.key :: d.mounted ∧
      (d.mount ident outcome).table.mountRoot = d.table.mountRoot ∧
      (d.mount ident outcome).table.mounts = d.table.mounts.insert ident.key
        ⟨d.table.mountRoot.join ident.key, ident.label, d.table.nextSession⟩) ∨
    ((∀ session path, (d.table.mount ident outcome).2 ≠ .mounted session path) ∧
      d.mount ident outcome = d) := by
  unfold mount MountTable.mount
  cases hl : d.table.mounts.lookup ident.key with
  | some m => exact .inr ⟨fun _ _ h => (nomatch h), rfl⟩
  | none =>
    cases outcome with
    | spawned => exact .inl ⟨rfl, rfl, rfl, rfl, rfl⟩
    | noMountPoint => exact .inr ⟨fun _ _ h => (nomatch h), rfl⟩
    | notOpened => exact .inr ⟨fun _ _ h => (nomatch h), rfl⟩
    | notSpawned => exact .inr ⟨fun _ _ h => (nomatch h), rfl⟩

theorem unmount_of_none (h : d.table.mounts.lookup key = none) : d.unmount key gone = (none, d) := by
  simp [unmount, MountTable.unmount, h]

theorem unmount_of_some {m : DeviceMount} (h : d.table.mounts.lookup key = some m) :
    d.unmount key gone = (some m.path, ⟨{ d.table with mounts := d.table.mounts.erase key },
      if gone then d.mounted.erase m.path else d.mounted⟩) := by
  simp [unmount, MountTable.unmount, h]

theorem join_inj {root : PathBuf} {a b : String} (h : root.join a = root.join b) : a = b := by
  simpa [PathBuf.join] using h

/-- Every entry is at the path of its key. -/
def Placed (d : Daemon) : Prop :=
  ∀ key m, d.table.mounts.lookup key = some m → m.path = d.table.mountRoot.join key

theorem placed_new (mountRoot : PathBuf) : Placed (new mountRoot) := by
  intro key m h
  simp [new, MountTable.new] at h

theorem Placed.unmount (h : Placed d) (key : String) (gone : Bool) :
    Placed (d.unmount key gone).2 := by
  cases hl : d.table.mounts.lookup key with
  | none => rwa [unmount_of_none hl]
  | some m =>
    rw [unmount_of_some hl]
    intro key' m' hl'
    dsimp only at hl'
    rw [HashMap.lookup_erase] at hl'
    split at hl'
    · cases hl'
    · exact h key' m' hl'

theorem Placed.step (h : Placed d) (x : Incident) : Placed (d.step x) := by
  cases x with
  | arrived ident outcome =>
    show Placed (d.mount ident outcome)
    rcases d.mount_cases ident outcome with ⟨-, -, -, hroot, hmounts⟩ | ⟨-, hsame⟩
    · intro key m hl
      rw [hmounts, HashMap.lookup_insert] at hl
      rw [hroot]
      split at hl
      · rename_i hkey
        cases hl
        rw [hkey]
      · exact h key m hl
    · rwa [hsame]
  | left ident gone => exact h.unmount ident.key gone
  | giveUp key gone => exact h.unmount key gone
  | vanished path => exact h

theorem placed_run (mountRoot : PathBuf) (xs : List Incident) : Placed (run mountRoot xs) := by
  induction xs using List.reverseRecOn with
  | nil => exact placed_new mountRoot
  | append_singleton xs x ih =>
    rw [run, List.foldl_append]
    exact ih.step x

/-- The map is the one that the loop of the commands makes. -/
theorem table_step (d : Daemon) (x : Incident) :
    (d.step x).table =
      x.handled?.elim d.table fun command => (d.table.handle id command).1 := by
  have hunmount : ∀ key gone, (d.unmount key gone).2.table = (d.table.unmount key).1 := by
    intro key gone
    unfold unmount
    split <;> simp [*]
  cases x with
  | arrived ident outcome =>
    show (d.mount ident outcome).table = (d.table.mount ident outcome).1
    unfold mount
    split <;> simp [*]
  | left ident gone => exact hunmount ident.key gone
  | giveUp key gone => exact hunmount key gone
  | vanished path => rfl

theorem table_run (mountRoot : PathBuf) (xs : List Incident) :
    (run mountRoot xs).table = (MountTable.run id mountRoot (xs.filterMap Incident.handled?)).1 := by
  induction xs using List.reverseRecOn with
  | nil => rfl
  | append_singleton xs x ih =>
    rw [run, List.foldl_append]
    show ((run mountRoot xs).step x).table = _
    rw [table_step, ih, List.filterMap_append]
    cases hx : x.handled? with
    | none => simp [hx]
    | some command => simp [hx, MountTable.logged]

/-! ## The stop -/

/-- Each entry is tried, at its path. -/
theorem mem_unmountKeys {keys : List String} (hnodup : keys.Nodup) {gone : String → Bool}
    {path : PathBuf} :
    path ∈ (unmountKeys gone keys d).1 ↔
      ∃ key ∈ keys, ∃ m, d.table.mounts.lookup key = some m ∧ m.path = path := by
  induction keys generalizing d with
  | nil => simp [unmountKeys]
  | cons key keys ih =>
    obtain ⟨hkey, hrest⟩ := List.nodup_cons.mp hnodup
    have hlookup : ∀ k ∈ keys, (d.unmount key (gone key)).2.table.mounts.lookup k =
        d.table.mounts.lookup k := by
      intro k hk
      have hne : k ≠ key := by
        rintro rfl
        exact hkey hk
      cases hl : d.table.mounts.lookup key with
      | none => rw [unmount_of_none hl]
      | some m =>
        rw [unmount_of_some hl]
        exact (HashMap.lookup_erase ..).trans (if_neg hne)
    have hfirst : path ∈ (d.unmount key (gone key)).1.toList ↔
        ∃ m, d.table.mounts.lookup key = some m ∧ m.path = path := by
      cases hl : d.table.mounts.lookup key with
      | none => simp [unmount_of_none hl]
      | some m => simp [unmount_of_some hl, @eq_comm _ path]
    simp only [unmountKeys, List.mem_append, hfirst, ih hrest, List.mem_cons, exists_eq_or_imp]
    refine or_congr Iff.rfl (exists_congr fun k => and_congr_right fun hk => ?_)
    rw [hlookup k hk]

theorem mem_unmountAll {gone : String → Bool} {path : PathBuf} :
    path ∈ (d.unmountAll gone).1 ↔
      ∃ key m, d.table.mounts.lookup key = some m ∧ m.path = path := by
  unfold unmountAll
  rw [mem_unmountKeys (AList.keys_nodup d.table.mounts)]
  constructor
  · rintro ⟨key, -, m, hl, hp⟩
    exact ⟨key, m, hl, hp⟩
  · rintro ⟨key, m, hl, hp⟩
    refine ⟨key, ?_, m, hl, hp⟩
    exact AList.mem_keys.mpr (AList.lookup_isSome.mp (by rw [hl]; rfl))

/-! ## Nothing is forgotten while unmounts succeed -/

/-- What is mounted has an entry, and is mounted once. -/
structure Held (d : Daemon) : Prop where
  once : d.mounted.Nodup
  entry : ∀ path ∈ d.mounted, ∃ key m, d.table.mounts.lookup key = some m ∧ m.path = path

theorem held_new (mountRoot : PathBuf) : Held (new mountRoot) :=
  ⟨List.nodup_nil, fun _ h => nomatch h⟩

/-- No entry of another key is at the path of a key. -/
theorem Held.free (h : Held d) (hp : Placed d) (hl : d.table.mounts.lookup key = none) :
    d.table.mountRoot.join key ∉ d.mounted := by
  intro hmem
  obtain ⟨key', m, hl', hpath⟩ := h.entry _ hmem
  have hkey := join_inj ((hp key' m hl').symm.trans hpath)
  rw [hkey, hl] at hl'
  cases hl'

theorem Held.unmount (h : Held d) (hdown : d.TakesDown key gone) :
    Held (d.unmount key gone).2 := by
  cases hl : d.table.mounts.lookup key with
  | none => rwa [unmount_of_none hl]
  | some m =>
    rw [unmount_of_some hl]
    have hsub : (if gone then d.mounted.erase m.path else d.mounted).Sublist d.mounted := by
      split
      · exact List.erase_sublist
      · exact List.Sublist.refl _
    refine ⟨h.once.sublist hsub, fun path hmem => ?_⟩
    have hold := hsub.subset hmem
    obtain ⟨key', m', hl', hpath⟩ := h.entry path hold
    refine ⟨key', m', ?_, hpath⟩
    rw [HashMap.lookup_erase, if_neg, hl']
    -- what is still mounted is not what was taken down
    rintro rfl
    cases hl.symm.trans hl'
    rw [← hpath] at hmem hold
    rw [if_pos (hdown m hl hold)] at hmem
    exact h.once.not_mem_erase hmem

theorem Held.step (h : Held d) (hp : Placed d) {x : Incident} (hx : d.Succeeds x) :
    Held (d.step x) := by
  cases x with
  | arrived ident outcome =>
    show Held (d.mount ident outcome)
    rcases d.mount_cases ident outcome with ⟨hl, -, hmounted, -, hmounts⟩ | ⟨-, hsame⟩
    · refine ⟨?_, fun path hmem => ?_⟩
      · rw [hmounted]
        exact List.nodup_cons.mpr ⟨h.free hp hl, h.once⟩
      · rw [hmounts]
        rw [hmounted] at hmem
        rcases List.mem_cons.mp hmem with rfl | hmem
        · exact ⟨ident.key, _, (HashMap.lookup_insert ..).trans (if_pos rfl), rfl⟩
        · obtain ⟨key, m, hl', hpath⟩ := h.entry path hmem
          refine ⟨key, m, ?_, hpath⟩
          rw [HashMap.lookup_insert, if_neg, hl']
          rintro rfl
          rw [hl] at hl'
          cases hl'
    · rwa [hsame]
  | left ident gone => exact h.unmount hx
  | giveUp key gone => exact h.unmount hx
  | vanished path =>
    exact ⟨h.once.erase path, fun path' hmem => h.entry path' (List.mem_of_mem_erase hmem)⟩

theorem Held.remembers (h : Held d) (hp : Placed d) : Remembers d where
  stop := fun _ path hmem => mem_unmountAll.mpr (h.entry path hmem)
  arrival := fun ident outcome session path heffect => by
    rcases d.mount_cases ident outcome with ⟨hl, hmounted, -⟩ | ⟨hnone, -⟩
    · rw [hmounted] at heffect
      cases heffect
      exact h.free hp hl
    · exact absurd heffect (hnone session path)

/-- An unmount that leaves its mount makes the daemon forget it. -/
theorem Remembers.takesDown (h : Remembers (d.unmount key gone).2) (hp : Placed d) :
    d.TakesDown key gone := by
  intro m hl hmem
  by_contra hgone
  rw [unmount_of_some hl, if_neg hgone] at h
  obtain ⟨key', m', hl', hpath⟩ := mem_unmountAll.mp (h.stop (fun _ => true) m.path hmem)
  dsimp only at hl'
  rw [HashMap.lookup_erase] at hl'
  split at hl'
  · cases hl'
  · rename_i hne
    exact hne (join_inj ((hp key' m' hl').symm.trans (hpath.trans (hp key m hl))))

theorem Remembers.succeeds {x : Incident} (h : Remembers (d.step x)) (hp : Placed d) :
    d.Succeeds x := by
  cases x with
  | arrived ident outcome => trivial
  | left ident gone => exact h.takesDown hp
  | giveUp key gone => exact h.takesDown hp
  | vanished path => trivial

theorem run_take_succ (mountRoot : PathBuf) {xs : List Incident} {n : Nat} {x : Incident}
    (hx : xs[n]? = some x) :
    run mountRoot (xs.take (n + 1)) = (run mountRoot (xs.take n)).step x := by
  rw [run, List.take_add_one, hx, List.foldl_append]
  rfl

/-- At every point of a run, `Stop` would try all that is still mounted and no arrival is
mounted over any of it, exactly when every unmount of the run took its mount down. -/
theorem failed_unmount_iff (mountRoot : PathBuf) (xs : List Incident) :
    (∀ n, (run mountRoot (xs.take n)).Remembers) ↔
      ∀ n x, xs[n]? = some x → (run mountRoot (xs.take n)).Succeeds x := by
  constructor
  · intro h n x hx
    have hnext := h (n + 1)
    rw [run_take_succ mountRoot hx] at hnext
    exact hnext.succeeds (placed_run mountRoot _)
  · intro h n
    have hheld : Held (run mountRoot (xs.take n)) := by
      induction n with
      | zero => exact held_new mountRoot
      | succ n ih =>
        cases hx : xs[n]? with
        | none => rwa [List.take_add_one, hx, Option.toList_none, List.append_nil]
        | some x =>
          rw [run_take_succ mountRoot hx]
          exact ih.step (placed_run mountRoot _) (h n x hx)
    exact hheld.remembers (placed_run mountRoot _)

/-- The phone is pulled out and its unmount fails: `Stop` does not try its path again, and
when the phone comes back it is mounted over what is there. -/
theorem failed_unmount_forgotten : ∃ d : Daemon,
    d = run [.rootDir] [.arrived phone .spawned, .left phone false] ∧
      (∃ gone, ∃ path ∈ d.mounted, path ∉ (d.unmountAll gone).1) ∧
      ∃ session path, (d.table.mount phone .spawned).2 = .mounted session path ∧
        path ∈ d.mounted :=
  ⟨_, rfl, ⟨fun _ => true, [.rootDir, .normal "phone"], by decide, by decide⟩, 1,
    [.rootDir, .normal "phone"], by rfl, by decide⟩

end Daemon

end MtpMount
