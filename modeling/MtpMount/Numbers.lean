import MtpMount.FsIndex

/-!
# What an inode number stands for

The kernel keeps the numbers it was told, and every one has the generation 0. So
a number must not come to stand for something else.

* `number_kept`: from any state, whatever callbacks follow and whatever the
  device does, a number that was handed out denotes what it did, or nothing;
* `number_not_reused`: a number that was given up stays dead though another
  object takes its name.
-/

namespace MtpMount

open Interaction

namespace InodeTable

/-- Of the numbers that `t₀` had handed out, `u` has live ones of `t₀` only, and
each is still a directory or still a file. -/
structure Continues (t₀ u : InodeTable) : Prop where
  le : t₀.nextInode ≤ u.nextInode
  same : ∀ i e, i < t₀.nextInode → u.get i = some e → ∃ e₀, t₀.get i = some e₀ ∧ e₀.isDir = e.isDir

variable {t₀ t u : InodeTable}

namespace Continues

theorem refl (t : InodeTable) : Continues t t := ⟨Nat.le_refl _, fun _ e _ he => ⟨e, he, rfl⟩⟩

/-- No live entry is added. -/
theorem fewer (h : Continues t₀ t) (hn : u.nextInode = t.nextInode)
    (hg : ∀ i e, u.get i = some e → ∃ e', t.get i = some e' ∧ e'.isDir = e.isDir) :
    Continues t₀ u where
  le := hn ▸ h.le
  same := fun i e hi he => by
    obtain ⟨e', he', hd'⟩ := hg i e he
    obtain ⟨e₀, he₀, hd⟩ := h.same i e' hi he'
    exact ⟨e₀, he₀, hd.trans hd'⟩

theorem remove (h : Continues t₀ t) (i : Nat) : Continues t₀ (t.remove i) :=
  h.fewer (nextInode_remove t i) fun _ e he => ⟨e, (get_of_get_remove he).2, rfl⟩

theorem evictName (h : Continues t₀ t) (p : Nat) (n : String) (keep : Nat) :
    Continues t₀ (t.evictName p n keep) :=
  h.fewer (nextInode_evictName t p n keep) fun _ e he => ⟨e, get_of_get_evictName he, rfl⟩

theorem getMut (h : Continues t₀ t) (i : Nat) {f : InodeEntry → InodeEntry}
    (hf : ∀ e, t.get i = some e → (f e).isDir = e.isDir) : Continues t₀ (t.getMut i f) := by
  refine h.fewer rfl fun j e he => ?_
  rw [get_getMut] at he
  split at he
  · rename_i hj
    obtain ⟨e', he', rfl⟩ := Option.map_eq_some_iff.mp he
    exact ⟨e', hj ▸ he', (hf e' he').symm⟩
  · exact ⟨e, he, rfl⟩

/-- A new entry gets a number that `t₀` had not handed out. -/
theorem insert_alloc (h : Continues t₀ t) {e : InodeEntry} (hi : e.inode = t.nextInode) :
    Continues t₀ (t.allocInode.2.insert e) where
  le := by
    rw [nextInode_insert]
    exact Nat.le_succ_of_le h.le
  same := fun j e' hj he' => by
    have hle := h.le
    rw [get_insert, if_neg (by omega)] at he'
    exact h.same j e' hj (get_of_get_evictName (t := t.allocInode.2) he' : t.get j = some e')

theorem addObject (h : Continues t₀ t) (parent : Nat) (a : ObjectHandle) (name : String)
    (isDir : Bool) (size : Nat) (mtime : SystemTime) :
    Continues t₀ (t.addObject parent a name isDir size mtime).2 := h.insert_alloc rfl

theorem syncChild (h : Continues t₀ t) (p : Nat) (c : ChildInfo) :
    Continues t₀ (t.syncChild p c) := by
  unfold InodeTable.syncChild
  split
  · rename_i ino hl
    split
    · rename_i hany
      refine h.getMut ino fun e he => ?_
      rw [he, Option.any_some, beq_iff_eq] at hany
      rw [hany]
      cases c.isDir <;> rfl
    · exact (h.remove ino).addObject ..
  · exact h.addObject ..

theorem syncChildren (h : Continues t₀ t) (p : Nat) (cs : List ChildInfo) :
    Continues t₀ (t.syncChildren p cs) := by
  have hfold : Continues t₀ (cs.foldl (fun t c => t.syncChild p c) t) := by
    induction cs generalizing t with
    | nil => exact h
    | cons c cs ih => exact ih (h.syncChild p c)
  unfold InodeTable.syncChildren
  generalize cs.foldl (fun t c => t.syncChild p c) t = t' at hfold ⊢
  dsimp only
  generalize t'.gone p cs = gone
  induction gone generalizing t' with
  | nil => exact hfold
  | cons i is ih => exact ih _ (hfold.remove i)

theorem rename (h : Continues t₀ t) (i p' : Nat) (n' : String) :
    Continues t₀ (t.rename i p' n') := by
  rcases rename_cases t i p' n' with ⟨-, hr⟩ | ⟨e, he, hr⟩
  · rwa [hr]
  · refine (h.evictName p' n' i).fewer hr.nextInode fun j e' he' => ?_
    rw [hr.get] at he'
    split at he'
    · rename_i hj
      cases he'
      exact ⟨e, by rw [hj, get_evictName, he], rfl⟩
    · exact ⟨e', he', rfl⟩

theorem setHandle (h : Continues t₀ t) (i : Nat) (a : ObjectHandle) :
    Continues t₀ (t.setHandle i a) := by
  refine h.getMut i fun e _ => ?_
  unfold InodeEntry.isDir
  cases hk : e.kind <;> simp [hk]

theorem setStorageId (h : Continues t₀ t) (i : Nat) (sid : StorageId) :
    Continues t₀ (t.setStorageId i sid) := by
  refine h.getMut i fun e _ => ?_
  unfold InodeEntry.isDir
  cases hk : e.kind <;> simp [hk]

theorem bumpGeneration (h : Continues t₀ t) : Continues t₀ t.bumpGeneration := ⟨h.le, h.same⟩

end Continues

end InodeTable

theorem linkInvariant_continues {E : Type} {R : Answers Call Answer E} (t₀ : InodeTable) :
    LinkInvariant R (fun _ _ => True) (fun l _ => t₀.Continues l.inodes) (fun _ _ => True) where
  token := fun _ _ => trivial
  aside := fun _ h => ⟨trivial, fun _ _ _ => ⟨h, fun _ h => h⟩⟩
  query := fun _ _ h _ _ => ⟨trivial, fun _ _ _ => ⟨h, fun _ h => h, fun _ _ => trivial⟩⟩
  setHandle := fun h _ => h.setHandle _ _
  syncChildren := fun h _ _ => h.syncChildren _ _
  loaded := fun h _ _ => h.syncChildren _ _
  rootLoaded := fun h => h
  forget := fun _ h => h
  giveUp := fun h => h
  invalidate := fun h => ⟨trivial, fun _ _ _ => h.bumpGeneration⟩
  reopen := fun h => ⟨trivial, fun _ _ _ => ⟨h, fun _ _ => ⟨trivial, fun _ _ _ => ⟨h, fun _ _ =>
    ⟨trivial, fun _ _ _ => ⟨trivial, fun _ _ _ => (Link.remapStorages_induction
      (fun _ ino sid h => h.setStorageId ino sid) _ h).bumpGeneration⟩⟩⟩⟩⟩⟩
  mutation := fun _ _ _ h _ _ =>
    ⟨trivial, fun _ _ _ => ⟨h, fun _ h => h, fun _ _ => trivial⟩⟩
  record := fun inode h _ _ hfile _ _ => h.getMut inode fun e he => by
    -- what is recorded is an upload, to the inode of a file
    obtain ⟨e', a, he', hk⟩ := hfile
    cases he.symm.trans he'
    simp [InodeEntry.isDir, hk]
  init := fun h => ⟨trivial, fun _ _ _ => h⟩
  addStorage := fun sid name now h => h.insert_alloc rfl
  setStorages := fun _ h => h
  spawn := fun h => ⟨trivial, fun _ _ _ => h⟩
  addObject := fun parent a name isDir now h _ _ => h.addObject parent a name isDir 0 now
  remove := fun ino h _ => h.remove ino
  rename := fun ino newParent newName h _ => h.rename ino newParent newName
  panic := fun _ _ _ => trivial

/-- From any state of the mount on: a number that is live after some callbacks,
and was handed out before them, was live then, with the same type of file. -/
theorem number_kept {R : Answers Call Answer (List Event)}
    {ok : List (Callback × Reply) → MtpFs → List Event → Callback → Prop} {fs₀ fs : MtpFs}
    {tr₀ tr : List Event} {h : List (Callback × Reply)} (hr : Served R dispatch ok fs₀ tr₀ h fs tr)
    {i : Nat} {e : InodeEntry} (hi : i < fs₀.link.inodes.nextInode)
    (he : fs.link.inodes.get i = some e) :
    ∃ e₀, fs₀.link.inodes.get i = some e₀ ∧ fileTypeOf e₀ = fileTypeOf e := by
  have hc := ((linkInvariant_continues fs₀.link.inodes).mount.served (.refl _) hr).1
  obtain ⟨e₀, he₀, hd⟩ := hc.same i e hi he
  exact ⟨e₀, he₀, by rw [fileTypeOf, fileTypeOf, hd]⟩

/-- A mount that has seen the file `a`, as number 3. -/
def seenFileMount : MtpFs :=
  { writableMount with link := { writableMount.link with
      storages := [⟨⟨⟨1⟩, "Card", 100, 50⟩, 0⟩]
      inodes := ((InodeTable.new.addStorageAt ⟨1⟩ "Card" 0).2.addObject 2 ⟨7⟩ "a" false 3 0).2
      dirsLoaded := Link.rootLoaded.insert 2 true } }

/-- The file is deleted and made again: its name has the number 4 then, and 3 is
not used again. -/
theorem number_not_reused : ∃ h fs tr, MountRun AnyAnswer seenFileMount h fs tr ∧
    fs.link.inodes.lookup 2 "a" = some 4 ∧ fs.link.inodes.get 3 = none ∧
    ∃ e e₀, fs.link.inodes.get 2 = some e ∧ seenFileMount.link.inodes.get 2 = some e₀ ∧
      fileTypeOf e₀ = fileTypeOf e := by
  obtain ⟨h, fs, tr, hr, ht⟩ := MountRun.of_test (anyAnswer_of_script (fileDevice false)) seenFileMount
    [.unlink 2 (some "a"), .create 2 (some "a")]
    (fun fs _ => decide (fs.link.inodes.lookup 2 "a" = some 4 ∧ fs.link.inodes.get 3 = none ∧
      (fs.link.inodes.get 2).isSome = true))
    (by rfl)
  obtain ⟨hname, hdead, hlive⟩ := of_decide_eq_true ht
  obtain ⟨e, he⟩ := Option.isSome_iff_exists.mp hlive
  obtain ⟨e₀, he₀, htype⟩ := number_kept hr (by decide : 2 < seenFileMount.link.inodes.nextInode) he
  exact ⟨h, fs, tr, hr, hname, hdead, e, e₀, he, he₀, htype⟩

end MtpMount
