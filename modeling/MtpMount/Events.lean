import MtpMount.Fs

/-!
# Device events

An event names an object by its handle. The folder it is in is looked for among
all entries, those of dead sessions and removed folders included, and in the
order in which the map happens to give them.

* `event_forgets_folder`: whatever that order, a folder is forgotten exactly
  when it was not loaded, or all entries with the handle are children of it
  (and, for a change of an object, there is one);
* `event_forgets_other`: a handle that two sessions used.
-/

namespace MtpMount

open Interaction

/-- The object that an event is about. -/
def DeviceEvent.object? : DeviceEvent → Option ObjectHandle
  | objectAdded handle | objectRemoved handle | objectInfoChanged handle => some handle
  | storageChanged | other => none

/-- Some entry has the handle, and is a child of `p`. -/
def InodeTable.Carries (t : InodeTable) (a : ObjectHandle) (p : Nat) : Prop :=
  ∃ i e, t.get i = some e ∧ e.kind.handle? = some a ∧ e.parent = p

namespace MtpFs

/-- The mount with the entries of its table in another order. -/
def withEntries (fs : MtpFs) (entries : HashMap Nat InodeEntry) : MtpFs :=
  fs.withInodes { fs.link.inodes with entries }

/-- The directory counts as loaded. -/
def Loaded (fs : MtpFs) (p : Nat) : Prop := fs.link.dirsLoaded.lookup p = some true

/-- After the event the directory is not loaded, whatever the order of the entries. -/
def Forgets (fs : MtpFs) (ev : DeviceEvent) (p : Nat) : Prop :=
  ∀ entries : HashMap Nat InodeEntry, entries.entries.Perm fs.link.inodes.entries.entries →
    ¬ ((fs.withEntries entries).handleEvent ev).Loaded p

end MtpFs

section

variable {fs : MtpFs} {p : Nat} {a : ObjectHandle} {t : InodeTable}

theorem findParentByHandle_some (h : t.findParentByHandle a = some p) : t.Carries a p := by
  obtain ⟨e, he, hp⟩ := List.exists_of_findSome?_eq_some h
  obtain ⟨i, hi⟩ := HashMap.mem_values.mp he
  split at hp
  · exact ⟨i, e, hi, ‹_›, Option.some.inj hp⟩
  · cases hp

theorem findParentByHandle_none (h : t.findParentByHandle a = none) (p : Nat) :
    ¬ t.Carries a p := by
  rintro ⟨i, e, he, ha, -⟩
  have hnone := List.findSome?_eq_none_iff.mp h e (HashMap.mem_values.mpr ⟨i, he⟩)
  rw [if_pos ha] at hnone
  cases hnone

/-- The entry that comes first decides. -/
theorem findParentByHandle_first {e : InodeEntry} (h : t.entries.values.head? = some e)
    (ha : e.kind.handle? = some a) : t.findParentByHandle a = some e.parent := by
  obtain ⟨rest, hrest⟩ := List.head?_eq_some_iff.mp h
  unfold InodeTable.findParentByHandle
  rw [hrest, List.findSome?_cons, if_pos ha]

theorem carries_of_perm {entries : HashMap Nat InodeEntry}
    (h : entries.entries.Perm t.entries.entries) (a : ObjectHandle) (p : Nat) :
    InodeTable.Carries { t with entries } a p ↔ t.Carries a p := by
  have hget : ∀ i, InodeTable.get { t with entries } i = t.get i := HashMap.lookup_of_perm h
  unfold InodeTable.Carries
  simp only [hget]

/-! ## One event -/

theorem loaded_forgetListing {q : Nat} : (fs.forgetListing q).Loaded p ↔ p ≠ q ∧ fs.Loaded p := by
  unfold MtpFs.Loaded MtpFs.forgetListing
  dsimp only
  rw [HashMap.lookup_erase]
  by_cases h : p = q <;> simp [h]

theorem loaded_invalidateAllDirs : fs.invalidateAllDirs.Loaded p ↔ p = FUSE_ROOT_INODE ∧ fs.Loaded p := by
  unfold MtpFs.Loaded MtpFs.invalidateAllDirs
  dsimp only
  rw [HashMap.lookup_retain_some, beq_iff_eq, and_comm]

/-- What is loaded after an event about an object: not the parent that was found,
and with none found nothing below the root, unless the object only changed. -/
theorem loaded_handleEvent {ev : DeviceEvent} (hev : ev.object? = some a) (hp : p ≠ FUSE_ROOT_INODE) :
    (fs.handleEvent ev).Loaded p ↔ fs.Loaded p ∧
      match fs.link.inodes.findParentByHandle a with
      | some q => p ≠ q
      | none => ev = .objectInfoChanged a := by
  cases ev with
  | objectAdded b | objectRemoved b =>
    cases hev
    unfold MtpFs.handleEvent
    dsimp only
    cases fs.link.inodes.findParentByHandle a with
    | some q => exact loaded_forgetListing.trans and_comm
    | none => simp [loaded_invalidateAllDirs, hp]
  | objectInfoChanged b =>
    cases hev
    unfold MtpFs.handleEvent MtpFs.Loaded
    dsimp only
    cases fs.link.inodes.findParentByHandle a with
    | some q => exact loaded_forgetListing.trans and_comm
    | none => simp
  | storageChanged => cases hev
  | other => cases hev

end

/-- After an event about an object, a folder is forgotten in every order of the
entries exactly when it was not loaded, or no entry with that handle is the child
of another folder and, where the object only changed, some entry has it. -/
theorem event_forgets_folder {fs : MtpFs} {ev : DeviceEvent} {a : ObjectHandle}
    (hev : ev.object? = some a) {p : Nat} (hp : p ≠ FUSE_ROOT_INODE) :
    fs.Forgets ev p ↔ ¬ fs.Loaded p ∨
      ((∀ q, fs.link.inodes.Carries a q → q = p) ∧
        (ev = .objectInfoChanged a → fs.link.inodes.Carries a p)) := by
  constructor
  · intro h
    refine or_iff_not_imp_left.mpr fun hloaded => ?_
    have hloaded : fs.Loaded p := not_not.mp hloaded
    constructor
    · rintro q ⟨i, e, he, ha, rfl⟩
      by_contra hne
      obtain ⟨entries, hperm, hfirst⟩ := HashMap.exists_first he
      refine h entries hperm ((loaded_handleEvent hev hp).mpr ⟨hloaded, ?_⟩)
      have hfind : (fs.withEntries entries).link.inodes.findParentByHandle a = some e.parent :=
        findParentByHandle_first hfirst ha
      rw [hfind]
      exact fun hpe => hne hpe.symm
    · intro hchanged
      by_contra hnone
      refine h fs.link.inodes.entries (.refl _) ((loaded_handleEvent hev hp).mpr ⟨hloaded, ?_⟩)
      have hsame : (fs.withEntries fs.link.inodes.entries).link.inodes = fs.link.inodes := rfl
      rw [hsame]
      cases hfind : fs.link.inodes.findParentByHandle a with
      | none => exact hchanged
      | some q =>
        rintro rfl
        exact hnone (findParentByHandle_some hfind)
  · intro h entries hperm hafter
    obtain ⟨hloaded, hfind⟩ := (loaded_handleEvent hev hp).mp hafter
    rcases h with h | ⟨hall, hsome⟩
    · exact h hloaded
    · cases hq : (fs.withEntries entries).link.inodes.findParentByHandle a with
      | some q =>
        rw [hq] at hfind
        exact hfind (hall q ((carries_of_perm hperm a q).mp (findParentByHandle_some hq))).symm
      | none =>
        rw [hq] at hfind
        exact findParentByHandle_none hq p ((carries_of_perm hperm a p).mpr (hsome hfind))

/-- A phone that drops out when its folder `q` is listed, and numbers its objects
anew: handle 5 was `x` in `d`, and is `y` in `q`. -/
def renumberingDevice (_ : List Event) : (c : Call) → Option (Answer c)
  | .storages _ => some (.ok [⟨⟨1⟩, "Card", 100, 50⟩])
  | .openDevice => some (.ok ⟨1, true, true⟩)
  | .listObjects storage none => some (.ok
      [⟨⟨10 * (storage.session + 1)⟩, "d", true, 0, none⟩,
        ⟨⟨10 * (storage.session + 1) + 1⟩, "q", true, 0, none⟩])
  | .listObjects _ (some ⟨10⟩) => some (.ok [⟨⟨5⟩, "x", false, 3, none⟩])
  | .listObjects _ (some ⟨11⟩) => some (.error .disconnected)
  | .listObjects _ (some ⟨21⟩) => some (.ok [⟨⟨5⟩, "y", false, 3, none⟩])
  | c => undisturbed c

/-- The listing of a folder in a session that has an object with the handle `a`. -/
def Event.lists (session : Nat) (folder a : ObjectHandle) : Event → Bool
  | ⟨.listObjects storage parent, .ok objects⟩ =>
    storage.session == session && parent == some folder && objects.any fun o => o.handle == a
  | _ => false

/-- Before that, the folder of a removed object is forgotten. -/
theorem event_forgets_folder_listed : ∃ h fs tr, MountRun AnyAnswer writableMount h fs tr ∧
    fs.Loaded 3 ∧ fs.Forgets (.objectRemoved ⟨5⟩) 3 := by
  obtain ⟨h, fs, tr, hr, ht⟩ := MountRun.of_test (anyAnswer_of_script renumberingDevice) writableMount
    [.init, .lookup 2 (some "d"), .lookup 3 (some "x")]
    (fun fs _ => decide (fs.link.dirsLoaded.lookup 3 = some true) &&
      fs.link.inodes.entries.values.all fun e => e.kind.handle? != some ⟨5⟩ || e.parent == 3)
    (by rfl)
  simp only [Bool.and_eq_true, decide_eq_true_eq] at ht
  refine ⟨h, fs, tr, hr, ht.1, (event_forgets_folder rfl (by decide)).mpr (.inr ⟨?_, nofun⟩)⟩
  rintro q ⟨i, e, he, ha, rfl⟩
  have hall := List.all_eq_true.mp ht.2 e (HashMap.mem_values.mpr ⟨i, he⟩)
  simpa [ha] using hall

/-- After it, the removal of `y` is taken for that of `x`: `q` stays loaded, though
the session lists the object there. -/
theorem event_forgets_other : ∃ h fs tr, MountRun AnyAnswer writableMount h fs tr ∧
    tr.any (Event.lists fs.link.device.session ⟨21⟩ ⟨5⟩) = true ∧
    fs.link.inodes.isFresh 4 = true ∧
    (fs.link.inodes.get 4).map InodeEntry.kind = some (.directory ⟨21⟩) ∧
    ¬ fs.Forgets (.objectRemoved ⟨5⟩) 4 := by
  obtain ⟨h, fs, tr, hr, ht⟩ := MountRun.of_test (anyAnswer_of_script renumberingDevice) writableMount
    [.init, .lookup 2 (some "d"), .lookup 3 (some "x"), .lookup 4 (some "y")]
    (fun fs tr => tr.any (Event.lists fs.link.device.session ⟨21⟩ ⟨5⟩) &&
      fs.link.inodes.isFresh 4 &&
      decide ((fs.link.inodes.get 4).map InodeEntry.kind = some (.directory ⟨21⟩)) &&
      decide (((fs.withEntries fs.link.inodes.entries.reverse).handleEvent
        (.objectRemoved ⟨5⟩)).link.dirsLoaded.lookup 4 = some true))
    (by rfl)
  simp only [Bool.and_eq_true, decide_eq_true_eq] at ht
  obtain ⟨⟨⟨hlisted, hfresh⟩, hkind⟩, hloaded⟩ := ht
  exact ⟨h, fs, tr, hr, hlisted, hfresh, hkind, fun hf =>
    hf fs.link.inodes.entries.reverse (List.reverse_perm _) hloaded⟩

end MtpMount
