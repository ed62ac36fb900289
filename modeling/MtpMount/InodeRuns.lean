import MtpMount.InodeIndex

/-!
# Runs of the inode table

`TableRun` is what the mount may do to a table: any operation, on the
conditions `fs.rs` and the kernel check first. In every run the three maps
agree, and no number is handed out twice (`indexes_agree`).
-/

namespace MtpMount

/-- An operation of the table with its arguments. -/
inductive TableOp where
  | addStorageAt (storageId : StorageId) (name : String) (now : SystemTime)
  | addObject (parent : Nat) (handle : ObjectHandle) (name : String) (isDir : Bool)
      (size : Nat) (mtime : SystemTime)
  | syncChildren (parent : Nat) (children : List ChildInfo)
  | remove (inode : Nat)
  | rename (inode newParent : Nat) (newName : String)
  | setHandle (inode : Nat) (handle : ObjectHandle)
  | setStorageId (inode : Nat) (storageId : StorageId)
  | bumpGeneration

namespace InodeTable

/-- `i` is `ancestor` or sits somewhere below it. -/
inductive AtOrBelow (t : InodeTable) (ancestor : Nat) : Nat → Prop
  | self : AtOrBelow t ancestor ancestor
  | child {i : Nat} {e : InodeEntry} :
      t.get i = some e → AtOrBelow t ancestor e.parent → AtOrBelow t ancestor i

/-- A live directory: the root, a storage or a folder. -/
def IsLiveDir (t : InodeTable) (i : Nat) : Prop := ∃ e, t.get i = some e ∧ e.isDir = true

/-- A live file or directory entry, which carries a session token. -/
def IsObject (t : InodeTable) (i : Nat) : Prop :=
  ∃ e, t.get i = some e ∧ e.kind.handle?.isSome = true

/-- The numbers `sync_child` hands out: one when it adds an entry. -/
def childHandedOut (t : InodeTable) (parent : Nat) (child : ChildInfo) : List Nat :=
  match t.lookup parent child.name with
  | some ino =>
    if (t.get ino).any (fun e => e.isDir == child.isDir) then []
    else [(t.remove ino).allocInode.1]
  | none => [t.allocInode.1]

def syncHandedOut (t : InodeTable) (parent : Nat) : List ChildInfo → List Nat
  | [] => []
  | c :: cs => t.childHandedOut parent c ++ (t.syncChild parent c).syncHandedOut parent cs

end InodeTable

namespace TableOp

/-- The table after the operation. -/
def apply (t : InodeTable) : TableOp → InodeTable
  | addStorageAt storageId name now => (t.addStorageAt storageId name now).2
  | addObject parent handle name isDir size mtime =>
    (t.addObject parent handle name isDir size mtime).2
  | syncChildren parent children => t.syncChildren parent children
  | remove inode => t.remove inode
  | rename inode newParent newName => t.rename inode newParent newName
  | setHandle inode handle => t.setHandle inode handle
  | setStorageId inode storageId => t.setStorageId inode storageId
  | bumpGeneration => t.bumpGeneration

/-- When the mount calls the operation: objects go below a live directory, only
files and directories are removed or moved, and none is moved below itself. -/
def Allowed (t : InodeTable) : TableOp → Prop
  | addObject parent .. => t.IsLiveDir parent
  | syncChildren parent _ => t.IsLiveDir parent
  | remove inode => t.IsObject inode
  | rename inode newParent _ =>
    t.IsObject inode ∧ t.IsLiveDir newParent ∧ ¬ t.AtOrBelow inode newParent
  | _ => True

/-- The inode numbers that `alloc_inode` hands out during the operation. -/
def handedOut (t : InodeTable) : TableOp → List Nat
  | addStorageAt storageId name now => [(t.addStorageAt storageId name now).1]
  | addObject parent handle name isDir size mtime =>
    [(t.addObject parent handle name isDir size mtime).1]
  | syncChildren parent children => t.syncHandedOut parent children
  | _ => []

end TableOp

/-- A run from `InodeTable::new`: the numbers handed out so far, in order, and the table. -/
inductive TableRun : List Nat → InodeTable → Prop
  | new : TableRun [FUSE_ROOT_INODE] .new
  | step {hs : List Nat} {t : InodeTable} {o : TableOp} :
      TableRun hs t → o.Allowed t → TableRun (hs ++ o.handedOut t) (o.apply t)

namespace InodeTable

variable {t : InodeTable} {i p : Nat}

/-! ## One operation -/

/-- `next` numbers up from `t.nextInode` were handed out on the way to `u`, and
only they can be live there and not before. -/
structure HandsOut (t : InodeTable) (next : List Nat) (u : InodeTable) : Prop where
  le : t.nextInode ≤ u.nextInode
  fresh : ∀ i ∈ next, t.nextInode ≤ i ∧ i < u.nextInode
  nodup : next.Nodup
  live : ∀ i, (u.get i).isSome → (t.get i).isSome ∨ i ∈ next

theorem HandsOut.nothing {t u : InodeTable} (hn : u.nextInode = t.nextInode)
    (hl : ∀ j, (u.get j).isSome → (t.get j).isSome) : HandsOut t [] u where
  le := Nat.le_of_eq hn.symm
  fresh := fun _ hi => nomatch hi
  nodup := List.nodup_nil
  live := fun i hi => .inl (hl i hi)

theorem HandsOut.trans {u v : InodeTable} {as bs : List Nat} (h : HandsOut t as u)
    (h' : HandsOut u bs v) : HandsOut t (as ++ bs) v where
  le := Nat.le_trans h.le h'.le
  fresh := fun i hi => by
    have := h.le
    have := h'.le
    rcases List.mem_append.mp hi with hi | hi
    · have := h.fresh i hi
      omega
    · have := h'.fresh i hi
      omega
  nodup := by
    refine List.nodup_append.mpr ⟨h.nodup, h'.nodup, ?_⟩
    rintro a ha b hb rfl
    have := h.fresh a ha
    have := h'.fresh a hb
    omega
  live := fun i hi => by
    rcases h'.live i hi with hi | hi
    · rcases h.live i hi with hi | hi
      · exact .inl hi
      · exact .inr (List.mem_append_left _ hi)
    · exact .inr (List.mem_append_right _ hi)

theorem live_remove (h : ((t.remove i).get p).isSome) : (t.get p).isSome := by
  rw [get_remove] at h
  split at h
  · cases h
  · exact h

theorem live_getMut {f : InodeEntry → InodeEntry} (h : ((t.getMut i f).get p).isSome) :
    (t.get p).isSome := by
  rw [get_getMut] at h
  split at h
  · rename_i hp
    rw [hp]
    simpa using h
  · exact h

theorem live_of_evictName {n : String} {keep : Nat}
    (h : ((t.evictName p n keep).get i).isSome) : (t.get i).isSome := by
  obtain ⟨e, he⟩ := Option.isSome_iff_exists.mp h
  rw [get_of_get_evictName he]
  rfl

theorem handsOut_remove (t : InodeTable) (i : Nat) : HandsOut t [] (t.remove i) :=
  .nothing (nextInode_remove t i) fun _ => live_remove

theorem handsOut_getMut (t : InodeTable) (i : Nat) (f : InodeEntry → InodeEntry) :
    HandsOut t [] (t.getMut i f) := .nothing rfl fun _ => live_getMut

theorem handsOut_insert (t : InodeTable) {e : InodeEntry} (he : e.inode = t.nextInode) :
    HandsOut t [t.nextInode] (t.allocInode.2.insert e) where
  le := by
    rw [(placed_insert he).nextInode, he]
    exact Nat.le_succ _
  fresh := fun i hi => by
    rw [List.mem_singleton.mp hi, (placed_insert he).nextInode, he]
    exact ⟨Nat.le_refl _, Nat.lt_succ_self _⟩
  nodup := List.nodup_singleton _
  live := fun i hi => by
    rw [(placed_insert he).get] at hi
    split at hi
    · rename_i hie
      exact .inr (List.mem_singleton.mpr (hie.trans he))
    · exact .inl (live_of_evictName hi)

theorem handsOut_syncChild (t : InodeTable) (p : Nat) (c : ChildInfo) :
    HandsOut t (t.childHandedOut p c) (t.syncChild p c) := by
  unfold childHandedOut syncChild
  cases t.lookup p c.name with
  | none => exact handsOut_insert t rfl
  | some ino =>
    dsimp only
    split
    · exact handsOut_getMut ..
    · exact (handsOut_remove t ino).trans (handsOut_insert (t.remove ino) rfl)

theorem handsOut_removeAll (t : InodeTable) (is : List Nat) :
    HandsOut t [] (t.removeAll is) := by
  induction is generalizing t with
  | nil => exact .nothing rfl fun _ h => h
  | cons i is ih => exact (handsOut_remove t i).trans (ih (t.remove i))

theorem handsOut_syncChildren (t : InodeTable) (p : Nat) (cs : List ChildInfo) :
    HandsOut t (t.syncHandedOut p cs) (t.syncChildren p cs) := by
  have hf : HandsOut t (t.syncHandedOut p cs) (cs.foldl (fun t c => t.syncChild p c) t) := by
    induction cs generalizing t with
    | nil => exact .nothing rfl fun _ h => h
    | cons c cs ih => exact (handsOut_syncChild t p c).trans (ih (t.syncChild p c))
  have h := hf.trans (handsOut_removeAll (cs.foldl (fun t c => t.syncChild p c) t)
    (gone (cs.foldl (fun t c => t.syncChild p c) t) p cs))
  rwa [List.append_nil] at h

theorem handsOut_rename (t : InodeTable) (i p' : Nat) (n' : String) :
    HandsOut t [] (t.rename i p' n') := by
  rcases rename_cases t i p' n' with ⟨-, hr⟩ | ⟨e, he, hr⟩
  · rw [hr]
    exact .nothing rfl fun _ h => h
  · refine .nothing ?_ fun j hj => ?_
    · rw [hr.nextInode, nextInode_evictName]
    · rw [hr.get] at hj
      split at hj
      · rename_i hji
        rw [hji, he]
        rfl
      · exact live_of_evictName hj

/-- One operation hands out new numbers only. -/
theorem handsOut_apply (t : InodeTable) (op : TableOp) :
    HandsOut t (op.handedOut t) (op.apply t) := by
  cases op with
  | addStorageAt => exact handsOut_insert t rfl
  | addObject => exact handsOut_insert t rfl
  | syncChildren p cs => exact handsOut_syncChildren t p cs
  | remove i => exact handsOut_remove t i
  | rename i p' n' => exact handsOut_rename t i p' n'
  | setHandle i => exact handsOut_getMut t i _
  | setStorageId i => exact handsOut_getMut t i _
  | bumpGeneration => exact .nothing rfl fun _ h => h

theorem IsObject.ne_root (h : t.IsObject i) (hc : Consistent t) : i ≠ FUSE_ROOT_INODE := by
  rintro rfl
  obtain ⟨e, he, hk⟩ := h
  rw [hc.root] at he
  cases he
  cases hk

/-- One allowed operation keeps the maps in step. -/
theorem Consistent.apply (h : Consistent t) {op : TableOp} (ha : op.Allowed t) :
    Consistent (op.apply t) := by
  have live : ∀ {j}, t.IsLiveDir j → (t.get j).isSome := fun ⟨e, he, _⟩ => by rw [he]; rfl
  have bound : ∀ {j}, t.IsLiveDir j → j < t.nextInode := fun ⟨e, he, _⟩ => h.bound _ e he
  cases op with
  | addStorageAt => exact h.addStorageAt ..
  | addObject => exact h.addObject (bound ha) ..
  | syncChildren p cs => exact h.syncChildren (live ha) cs
  | remove i => exact h.remove (IsObject.ne_root ha h)
  | rename i p' n' =>
    obtain ⟨hi, hp, hb⟩ := ha
    refine h.rename (hi.ne_root h) ?_ (bound hp) n'
    rintro rfl
    exact hb .self
  | setHandle i => exact h.setHandle i _
  | setStorageId i => exact h.setStorageId i _
  | bumpGeneration => exact h.bumpGeneration

/-! ## Whole runs -/

/-- Every number handed out so far is used up, each was handed out once, and
every live entry has one of them. -/
structure Numbered (hs : List Nat) (t : InodeTable) : Prop where
  used : ∀ i ∈ hs, i < t.nextInode
  nodup : hs.Nodup
  live : ∀ i, (t.get i).isSome → i ∈ hs

theorem numbered_new : Numbered [FUSE_ROOT_INODE] new where
  used := fun i hi => by rw [List.mem_singleton.mp hi]; decide
  nodup := List.nodup_singleton _
  live := fun i hi => by
    rw [get_new] at hi
    split at hi
    · exact List.mem_singleton.mpr ‹_›
    · cases hi

theorem Numbered.handsOut {hs next : List Nat} {u : InodeTable} (h : Numbered hs t)
    (hn : HandsOut t next u) : Numbered (hs ++ next) u where
  used := fun i hi => by
    have := hn.le
    rcases List.mem_append.mp hi with hi | hi
    · have := h.used i hi
      omega
    · exact (hn.fresh i hi).2
  nodup := by
    refine List.nodup_append.mpr ⟨h.nodup, hn.nodup, ?_⟩
    rintro a ha b hb rfl
    have := h.used a ha
    have := hn.fresh a hb
    omega
  live := fun i hi => by
    rcases hn.live i hi with hi | hi
    · exact List.mem_append_left _ (h.live i hi)
    · exact List.mem_append_right _ hi

end InodeTable

namespace TableRun

open InodeTable

variable {t : InodeTable} {hs : List Nat}

theorem invariant (h : TableRun hs t) : Consistent t ∧ Numbered hs t := by
  induction h with
  | new => exact ⟨consistent_new, numbered_new⟩
  | step _ ha ih => exact ⟨ih.1.apply ha, ih.2.handsOut (handsOut_apply _ _)⟩

/-- In every run: a name is found exactly when a live entry has it, each live
directory lists exactly its live entries, each once, and no inode number is
handed out twice. -/
theorem indexes_agree (h : TableRun hs t) :
    (∀ p n i, t.lookup p n = some i ↔
      ∃ e, t.get i = some e ∧ i ≠ FUSE_ROOT_INODE ∧ e.parent = p ∧ e.name = n) ∧
    (∀ p, (t.get p).isSome →
      (t.children p).Nodup ∧ ∀ i, i ∈ t.children p ↔ t.IsChild p i) ∧
    hs.Nodup ∧ ∀ i, (t.get i).isSome → i ∈ hs := by
  obtain ⟨hc, hn⟩ := h.invariant
  refine ⟨fun p n i => ⟨fun hl => ?_, ?_⟩, fun p hp => ⟨hc.nodup p hp, hc.children p hp⟩,
    hn.nodup, hn.live⟩
  · obtain ⟨e, he, hp, hnm⟩ := hc.sound p n i hl
    exact ⟨e, he, (hc.linked.ne_parent (hc.not_isChild_self _) hl).1, hp, hnm⟩
  · rintro ⟨e, he, hi, rfl, rfl⟩
    exact hc.complete i e he hi

/-- A storage with a folder that holds a file; the listing turns the file into
a folder of the same name, and the outer folder is removed. -/
def sampleOps : List TableOp :=
  [.addStorageAt ⟨1⟩ "Internal" 0, .addObject 2 ⟨10⟩ "DCIM" true 0 0,
    .addObject 3 ⟨11⟩ "a" false 4 0, .syncChildren 3 [⟨⟨12⟩, "a", true, 0, 0⟩], .remove 3]

def sampleTable : InodeTable := sampleOps.foldl (fun t op => op.apply t) .new

theorem sample_run : TableRun [1, 2, 3, 4, 5] sampleTable := by
  have h₁ := step new (o := .addStorageAt ⟨1⟩ "Internal" 0) trivial
  have h₂ := step h₁ (o := .addObject 2 ⟨10⟩ "DCIM" true 0 0) ⟨_, rfl, rfl⟩
  have h₃ := step h₂ (o := .addObject 3 ⟨11⟩ "a" false 4 0) ⟨_, rfl, rfl⟩
  have h₄ := step h₃ (o := .syncChildren 3 [⟨⟨12⟩, "a", true, 0, 0⟩]) ⟨_, rfl, rfl⟩
  exact step h₄ (o := .remove 3) ⟨_, rfl, rfl⟩

/-- In the sample the folder `a` outlives its parent, and its number is new. -/
theorem indexes_agree_sample :
    sampleTable.lookup 3 "a" = some 5 ∧
      ∃ e, sampleTable.get 5 = some e ∧ 5 ≠ FUSE_ROOT_INODE ∧ e.parent = 3 ∧ e.name = "a" := by
  have hl : sampleTable.lookup 3 "a" = some 5 := by decide
  exact ⟨hl, ((indexes_agree sample_run).1 3 "a" 5).mp hl⟩

end TableRun

end MtpMount
