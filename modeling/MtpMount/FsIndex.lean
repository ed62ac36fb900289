import MtpMount.FsRules

/-!
# The names of a mounted filesystem

A flush that cannot replace the old object leaves its bytes under the temporary
name and renames the entry in place, without its index: the old name then leads
to an entry of another name, and after an `unlink` to none, where `lookup`
panics. That is the one way the index can break.

* `lookup_live`: in every run in which no flush fails to replace the old
  object, a name that is found is the name of a live entry, and no callback
  panics;
* `lookup_panics`: a run with one such failure and an `unlink`, after which
  `lookup` panics.
-/

namespace MtpMount

open Interaction

namespace Event

/-- An upload that the device took. -/
def uploaded : Event → Bool
  | ⟨.upload .., (.ok _, _)⟩ => true
  | _ => false

/-- A delete that the device carried out. -/
def deleted : Event → Bool
  | ⟨.delete .., .ok _⟩ => true
  | _ => false

/-- Right after an upload the device refuses to delete the old object, or after
both to rename the new one. -/
def refusesReplace (tr : List Event) : Event → Bool
  | ⟨.delete .., .error _⟩ => tr.getLast?.any uploaded
  | ⟨.rename .., .error _⟩ => tr.getLast?.any deleted && tr.dropLast.getLast?.any uploaded
  | _ => false

end Event

/-- The environment that answers anything, but never refuses the delete or the
rename by which an uploaded object takes the old one's place. -/
inductive Replaces : Answers Call Answer (List Event)
  | intro {tr : List Event} {c : Call} {a : Answer c} :
      Event.refusesReplace tr ⟨c, a⟩ = false → Replaces tr c a (tr ++ [⟨c, a⟩])

theorem InodeTable.Indexed.recordUpload {t : InodeTable} (h : t.Indexed) (inode : Nat)
    (handle : ObjectHandle) (size : Nat) (now : SystemTime) :
    (t.recordUpload inode handle none size now).Indexed :=
  h.getMut inode fun _ => ⟨rfl, rfl⟩

/-- No flush can fail to replace the old object, so none renames its entry. -/
theorem Landed.name_eq_none {K : List Event → ObjectHandle → Prop} {v : Bytes} {storage : Storage}
    {h : ObjectHandle} {name : Option String} {tr : List Event}
    (hl : Landed Replaces K v storage h name tr) : name = none := by
  cases hl with
  | notDeleted hup hdel =>
    obtain ⟨parent, stream, n, -, hup⟩ := hup
    cases hup
    rcases hdel with ⟨hok⟩
    simp [Event.refusesReplace, Event.uploaded] at hok
  | notRenamed _ hup hdel hren =>
    obtain ⟨parent, stream, n, -, hup⟩ := hup
    cases hup
    cases hdel
    rcases hren with ⟨hok⟩
    simp [Event.refusesReplace, Event.uploaded, Event.deleted] at hok
  | replaced => rfl
  | afterDelete => rfl

theorem linkInvariant_indexed :
    LinkInvariant Replaces (fun _ c => c ≠ .panic) (fun l _ => l.inodes.Indexed)
      (fun _ _ => True) where
  token := fun _ _ => trivial
  aside := fun hc h => ⟨Call.ne_panic_of_isAside hc, fun _ _ _ => ⟨h, fun _ h => h⟩⟩
  query := fun _ ht h _ _ =>
    ⟨Call.ne_panic_of_target? ht, fun _ _ _ => ⟨h, fun _ h => h, fun _ _ => trivial⟩⟩
  setHandle := fun h _ => h.setHandle _ _
  syncChildren := fun h _ _ => h.syncChildren _ _
  loaded := fun h _ _ => h.syncChildren _ _
  rootLoaded := fun h => h
  forget := fun _ h => h
  giveUp := fun h => h
  invalidate := fun h => ⟨nofun, fun _ _ _ => h.bumpGeneration⟩
  reopen := fun h => ⟨nofun, fun _ _ _ => ⟨h, fun _ _ => ⟨nofun, fun _ _ _ => ⟨h, fun _ _ =>
    ⟨nofun, fun _ _ _ => ⟨nofun, fun _ _ _ => (Link.remapStorages_induction
      (fun _ ino sid h => h.setStorageId ino sid) _ h).bumpGeneration⟩⟩⟩⟩⟩⟩
  mutation := fun _ _ ht h _ _ =>
    ⟨Call.ne_panic_of_target? ht, fun _ _ _ => ⟨h, fun _ h => h, fun _ _ => trivial⟩⟩
  record := fun inode h _ _ _ hland _ => by
    rw [hland.name_eq_none]
    exact h.recordUpload inode _ _ _
  init := fun h => ⟨nofun, fun _ _ _ => h⟩
  addStorage := fun sid name now h => h.addStorageAt sid name now
  setStorages := fun _ h => h
  spawn := fun h => ⟨nofun, fun _ _ _ => h⟩
  addObject := fun parent a name isDir now h _ _ => h.addObject parent a name isDir 0 now
  remove := fun ino h _ => h.remove ino
  rename := fun ino newParent newName h _ => h.rename ino newParent newName
  panic := fun h hl hg => by
    obtain ⟨e, he, -⟩ := h.sound _ _ _ hl
    exact nomatch hg.symm.trans he

/-- In every state of a run in which each uploaded object takes the old one's
place, a name that is found is the name of the live entry found, and no callback
panics. -/
theorem lookup_live {device : MtpDevice} {describe : String} {config : MtpFsConfig}
    {h : List (Callback × Reply)} {fs : MtpFs} {tr : List Event}
    (hr : MountRun Replaces (.new device describe config) h fs tr) :
    (∀ p n i, fs.link.inodes.lookup p n = some i →
      ∃ e, fs.link.inodes.get i = some e ∧ e.parent = p ∧ e.name = n) ∧
    ∀ c tr', ¬ Prog.Makes Replaces (dispatch c fs) tr .panic tr' := by
  have h₀ : (MtpFs.new device describe config).link.inodes.Indexed := InodeTable.indexed_new
  have hs := linkInvariant_indexed.mount.served h₀ hr
  exact ⟨hs.1.sound, fun c tr' hm => hs.2 c .panic tr' hm rfl⟩

/-- A device with the file `a` on it; a faulty one refuses a delete right after an upload. -/
def fileDevice (faulty : Bool) (tr : List Event) : (c : Call) → Option (Answer c)
  | .storages _ => some (.ok [⟨⟨1⟩, "Card", 100, 50⟩])
  | .listObjects .. => some (.ok [⟨⟨7⟩, "a", false, 3, none⟩])
  | .upload .. => some (.ok ⟨8⟩, 1)
  | .delete .. => some
      (if faulty && tr.getLast?.any Event.uploaded then .error (.other "access denied") else .ok ())
  | .rename .. => some (.ok ())
  | c => undisturbed c

/-- Overwrites the file `a`, then closes it. -/
def overwriteCallbacks : List Callback :=
  [.init, .lookup 2 (some "a"), .openFile 3 .writeOnly, .write 3 1 0 [9], .release 1]

theorem replaces_of_script (tr : List Event) (c : Call) (a : Answer c) (tr' : List Event)
    (h : script (fileDevice false) tr c = some (a, tr')) : Replaces tr c a tr' := by
  obtain ⟨b, hb, hab⟩ := Option.map_eq_some_iff.mp h
  cases hab
  refine .intro ?_
  cases c with
  | delete storage handle =>
    cases hb
    rfl
  | rename storage handle name =>
    cases hb
    rfl
  | _ => rfl

theorem lookup_live_overwritten : ∃ (fs : MtpFs) (tr : List Event) (e : InodeEntry),
    fs.link.inodes.get 3 = some e ∧ e.parent = 2 ∧ e.name = "a" ∧
      ∀ c tr', ¬ Prog.Makes Replaces (dispatch c fs) tr .panic tr' := by
  obtain ⟨h, fs, tr, hr, hl⟩ := MountRun.of_test replaces_of_script writableMount
    overwriteCallbacks (fun fs _ => decide (fs.link.inodes.lookup 2 "a" = some 3))
    (by decide +kernel)
  have hlive := lookup_live hr
  obtain ⟨e, he, hp, hn⟩ := hlive.1 2 "a" 3 (of_decide_eq_true hl)
  exact ⟨fs, tr, e, he, hp, hn, hlive.2⟩

/-- After a flush that failed to delete the old object, and an `unlink`, a name
leads nowhere and `lookup` panics. -/
theorem lookup_panics : ∃ h fs tr tr', MountRun AnyAnswer writableMount h fs tr ∧
    fs.link.inodes.lookup 2 "a" = some 3 ∧ fs.link.inodes.get 3 = none ∧
    Prog.Makes AnyAnswer (dispatch (.lookup 2 (some "a")) fs) tr .panic tr' := by
  obtain ⟨h, fs, tr, hr, ht⟩ := MountRun.of_test (anyAnswer_of_script (fileDevice true))
    writableMount (overwriteCallbacks ++ [.unlink 2 (some "a")])
    (fun fs tr => decide (fs.link.inodes.lookup 2 "a" = some 3 ∧ fs.link.inodes.get 3 = none) &&
      ((dispatch (.lookup 2 (some "a")) fs).callAt (script (fileDevice true)) 0 tr).any
        fun r => r.1.isPanic)
    (by decide +kernel)
  obtain ⟨hdead, hpanic⟩ := (Bool.and_eq_true _ _).mp ht
  obtain ⟨hl, hg⟩ := of_decide_eq_true hdead
  obtain ⟨⟨c, tr'⟩, hc, hp⟩ := (Option.any_eq_true _ _).mp hpanic
  have hm := Prog.callAt_makes (anyAnswer_of_script (fileDevice true)) hc
  cases Call.eq_panic_of_isPanic hp
  exact ⟨h, fs, tr, tr', hr, hl, hg, hm⟩

end MtpMount
