import Mathlib.Data.List.Induction
import MtpMount.FsIndex

/-!
# Loaded directories

A directory that is marked as loaded is not listed again, so its children have
to carry handles of the current generation. Every operation of the table
`Renews` it: an entry afterwards is fresh, or was there before below the same
parent. The exception is again the flush that cannot replace the old object: its
entry goes on under another name, the index does not know that, and a later
listing overlooks the entry.

* `loaded_children_fresh`: in every run in which no flush fails to replace the
  old object, the children listed below a loaded directory are fresh;
* `loaded_child_stale`: a run with one such failure, an invalidation and a
  listing, after which a loaded directory has a stale child.
-/

namespace MtpMount

open Interaction

/-- The entry's handle, if it has one, is of this generation. -/
def InodeEntry.FreshAt (e : InodeEntry) (generation : Nat) : Prop :=
  ∀ a, e.kind.handle? = some a → e.generation = generation

namespace InodeTable

variable {t u v : InodeTable} {i j p : Nat} {e : InodeEntry}

theorem isFresh_iff_freshAt (he : t.get i = some e) :
    t.isFresh i = true ↔ e.FreshAt t.generation := by
  cases ha : e.kind.handle? with
  | none =>
    refine iff_of_true ?_ fun a h => ?_
    · by_contra hstale
      obtain ⟨a, h⟩ := handle?_of_not_isFresh he hstale
      rw [ha] at h
      cases h
    · rw [ha] at h
      cases h
  | some a => exact (isFresh_iff he ha).trans ⟨fun hg _ _ => hg, fun h => h a ha⟩

/-! ## What the root holds -/

/-- The maps agree, each list of children names children only, and the entries
without a handle are those below the root. -/
structure Rooted (t : InodeTable) : Prop extends Linked t where
  listed : ∀ p i, i ∈ t.children p → t.IsChild p i
  top : ∀ i e, t.get i = some e → (e.kind.handle? = none ↔ e.parent = FUSE_ROOT_INODE)

theorem rooted_new : Rooted new where
  toLinked := linked_new
  listed := fun p i h => by simp [new, InodeTable.children] at h
  top := fun i e he => by
    rw [get_new] at he
    split at he
    · cases he
      decide
    · cases he

namespace Rooted

theorem children_nextInode (h : Rooted t) : t.children t.nextInode = [] := by
  apply List.eq_nil_iff_forall_not_mem.mpr
  intro j hj
  obtain ⟨e, he, -, hp⟩ := h.listed _ j hj
  have hlt := h.parentBound j e he
  omega

theorem getMut (h : Rooted t) (i : Nat) {f : InodeEntry → InodeEntry}
    (hf : ∀ e, (f e).parent = e.parent ∧ (f e).name = e.name)
    (hk : ∀ e, t.get i = some e → ((f e).kind.handle? = none ↔ e.kind.handle? = none))
    (hr : i = FUSE_ROOT_INODE → f rootEntry = rootEntry) : Rooted (t.getMut i f) where
  toLinked := h.toLinked.getMut i hf hr
  listed := fun p j hj => (isChild_getMut hf i p j).mpr (h.listed p j hj)
  top := fun j e he => by
    rw [get_getMut] at he
    split at he
    · obtain ⟨e', he', rfl⟩ := Option.map_eq_some_iff.mp he
      rw [hk e' he', (hf e').1]
      exact h.top i e' he'
    · exact h.top j e he

theorem setHandle (h : Rooted t) (i : Nat) (a : ObjectHandle) : Rooted (t.setHandle i a) := by
  refine h.getMut i (fun e => ?_) (fun e _ => ?_) fun _ => rfl
  · cases e.kind <;> exact ⟨rfl, rfl⟩
  · cases hk : e.kind <;> simp [hk, InodeKind.handle?]

theorem setStorageId (h : Rooted t) (i : Nat) (sid : StorageId) : Rooted (t.setStorageId i sid) := by
  refine h.getMut i (fun e => ?_) (fun e _ => ?_) fun _ => rfl
  · cases e.kind <;> exact ⟨rfl, rfl⟩
  · cases hk : e.kind <;> simp [hk, InodeKind.handle?]

theorem bumpGeneration (h : Rooted t) : Rooted t.bumpGeneration :=
  { h with toLinked := h.toLinked.bumpGeneration }

theorem remove (h : Rooted t) (hi : i ≠ FUSE_ROOT_INODE) : Rooted (t.remove i) := by
  cases hg : t.get i with
  | none => rwa [remove_of_none hg]
  | some e =>
    refine { h.toLinked.remove hi with listed := ?_, top := ?_ }
    · intro p j hj
      obtain ⟨-, hj, hji⟩ := (mem_children_remove hg (h.listed p)).mp hj
      exact (isChild_remove t i p j).mpr ⟨h.listed p j hj, hji⟩
    · intro j e he
      exact h.top j e (get_of_get_remove he).2

theorem evictName (h : Rooted t) (p : Nat) (n : String) (keep : Nat) :
    Rooted (t.evictName p n keep) := by
  rcases evictName_cases t p n keep with ⟨h', -⟩ | ⟨i, hi, -, h'⟩
  · rwa [h']
  · rw [h']
    apply h.remove
    rintro rfl
    exact h.noRoot p n hi

theorem removeAll (h : Rooted t) {is : List Nat} (hi : ∀ i ∈ is, i ≠ FUSE_ROOT_INODE) :
    Rooted (t.removeAll is) := by
  induction is generalizing t with
  | nil => exact h
  | cons i is ih =>
    exact ih (h.remove (hi i List.mem_cons_self)) fun j hj => hi j (List.mem_cons_of_mem _ hj)

theorem insert_alloc (h : Rooted t) (hi : e.inode = t.nextInode) (hp : e.parent < t.nextInode)
    (hk : e.kind.handle? = none ↔ e.parent = FUSE_ROOT_INODE) :
    Rooted (t.allocInode.2.insert e) := by
  have hev : Rooted (t.evictName e.parent e.name e.inode) := h.evictName ..
  have hf : (t.evictName e.parent e.name e.inode).get e.inode = none := by
    rw [get_evictName, hi]
    exact h.get_nextInode
  have hnew : (t.evictName e.parent e.name e.inode).children e.inode = [] := by
    have hnil := hev.children_nextInode
    rwa [nextInode_evictName, ← hi] at hnil
  have hroot := h.rootBound
  have hu := placed_insert hi
  refine { h.toLinked.insert_alloc hi hp hnew with listed := ?_, top := ?_ }
  · intro p j hj
    rw [hu.isChild hf (by omega)]
    exact ((hu.mem_children p j).mp hj).imp_left (hev.listed p j)
  · intro j e' he'
    rw [hu.get] at he'
    split at he'
    · cases he'
      exact hk
    · exact hev.top j e' he'

theorem addStorageAt (h : Rooted t) (sid : StorageId) (name : String) (now : SystemTime) :
    Rooted (t.addStorageAt sid name now).2 := by
  apply h.insert_alloc rfl h.rootBound
  exact iff_of_true rfl rfl

theorem addObject (h : Rooted t) {parent : Nat} (hp : parent < t.nextInode)
    (hr : parent ≠ FUSE_ROOT_INODE) (a : ObjectHandle) (name : String) (isDir : Bool) (size : Nat)
    (mtime : SystemTime) : Rooted (t.addObject parent a name isDir size mtime).2 := by
  apply h.insert_alloc rfl hp
  dsimp only
  rw [handle?_ofObject]
  exact iff_of_false nofun hr

theorem syncChild (h : Rooted t) (hp : p < t.nextInode) (hr : p ≠ FUSE_ROOT_INODE)
    (c : ChildInfo) : Rooted (t.syncChild p c) := by
  unfold InodeTable.syncChild
  split
  · rename_i ino hl
    have hino : ino ≠ FUSE_ROOT_INODE := by
      rintro rfl
      exact h.noRoot p c.name hl
    obtain ⟨e, he, hep, -⟩ := h.sound p c.name ino hl
    split
    · refine h.getMut ino (fun _ => ⟨rfl, rfl⟩) (fun e' he' => ?_) fun hi => absurd hi hino
      dsimp only
      rw [handle?_ofObject, h.top ino e' he']
      cases he.symm.trans he'
      exact iff_of_false nofun (hep ▸ hr)
    · exact (h.remove hino).addObject (by simpa using hp) hr ..
  · exact h.addObject hp hr ..

/-- A folder's number is in use, and is not the root's. -/
theorem folder (h : Rooted t) (he : t.get p = some e) (hk : e.kind ≠ .root) :
    p < t.nextInode ∧ p ≠ FUSE_ROOT_INODE := by
  refine ⟨h.bound p e he, ?_⟩
  rintro rfl
  rw [h.root] at he
  cases he
  exact hk rfl

/-- An entry with a handle is not the root. -/
theorem ne_root {a : ObjectHandle} (h : Rooted t) (he : t.get i = some e)
    (ha : e.kind.handle? = some a) : i ≠ FUSE_ROOT_INODE := by
  rintro rfl
  rw [h.root] at he
  cases he
  cases ha

theorem rename {a : ObjectHandle} {p' : Nat} (h : Rooted t) (he : t.get i = some e)
    (ha : e.kind.handle? = some a) (hp : p' < t.nextInode) (hr : p' ≠ FUSE_ROOT_INODE)
    (n' : String) : Rooted (t.rename i p' n') := by
  have hir : i ≠ FUSE_ROOT_INODE := h.ne_root he ha
  rcases rename_cases t i p' n' with ⟨-, hu⟩ | ⟨e', he', hu⟩
  · rwa [hu]
  · cases he.symm.trans he'
    have hev : Rooted (t.evictName p' n' i) := h.evictName ..
    have hg : (t.evictName p' n' i).get i = some e := by rw [get_evictName, he]
    refine { h.toLinked.rename hir hp n' with listed := ?_, top := ?_ }
    · intro p j hj
      rw [hu.isChild hir]
      exact ((hu.mem_children hg (hev.listed p)).mp hj).imp_left fun hm => ⟨hev.listed p j hm.1, hm.2⟩
    · intro j e' he'
      rw [hu.get] at he'
      split at he'
      · cases he'
        dsimp only
        rw [ha]
        exact iff_of_false nofun hr
      · exact hev.top j e' he'

end Rooted

/-! ## What an operation makes fresh -/

/-- Every entry of `u` is fresh, or was there before below the same parent, and
stays fresh if it was. -/
structure Renews (t u : InodeTable) : Prop where
  generation : u.generation = t.generation
  entry : ∀ i e, u.get i = some e → e.FreshAt t.generation ∨
    ∃ e', t.get i = some e' ∧ e'.parent = e.parent ∧
      (e'.FreshAt t.generation → e.FreshAt t.generation)

namespace Renews

theorem getMut (i : Nat) {f : InodeEntry → InodeEntry}
    (hf : ∀ e, t.get i = some e → (f e).FreshAt t.generation ∨
      (f e).parent = e.parent ∧ (e.FreshAt t.generation → (f e).FreshAt t.generation)) :
    Renews t (t.getMut i f) where
  generation := rfl
  entry := fun j e he => by
    rw [get_getMut] at he
    split at he
    · rename_i hj
      obtain ⟨e', he', rfl⟩ := Option.map_eq_some_iff.mp he
      rcases hf e' he' with hfresh | ⟨hp, hfresh⟩
      · exact .inl hfresh
      · exact .inr ⟨e', by rw [hj, he'], hp.symm, hfresh⟩
    · exact .inr ⟨e, he, rfl, id⟩

theorem setHandle (t : InodeTable) (i : Nat) (a : ObjectHandle) : Renews t (t.setHandle i a) := by
  refine getMut i fun e _ => ?_
  cases e.kind with
  | root => exact .inr ⟨rfl, id⟩
  | storage sid => exact .inr ⟨rfl, id⟩
  | directory b => exact .inl fun _ _ => rfl
  | file b => exact .inl fun _ _ => rfl

theorem remove (t : InodeTable) (i : Nat) : Renews t (t.remove i) where
  generation := generation_remove t i
  entry := fun _ e he => .inr ⟨e, (get_of_get_remove he).2, rfl, id⟩

theorem insert (hf : e.FreshAt t.generation) : Renews t (t.allocInode.2.insert e) where
  generation := (Fed.evictName (fun _ => True) t.allocInode.2 e.parent e.name e.inode).generation
  entry := fun j e' he => by
    rw [get_insert] at he
    split at he
    · cases he
      exact .inl hf
    · have ht : t.allocInode.2.get j = some e' := get_of_get_evictName he
      exact .inr ⟨e', ht, rfl, id⟩

theorem addStorageAt (t : InodeTable) (sid : StorageId) (name : String) (now : SystemTime) :
    Renews t (t.addStorageAt sid name now).2 := insert nofun

theorem addObject (t : InodeTable) (parent : Nat) (a : ObjectHandle) (name : String) (isDir : Bool)
    (size : Nat) (mtime : SystemTime) :
    Renews t (t.addObject parent a name isDir size mtime).2 := insert fun _ _ => rfl

/-- A rename within a directory, or of what was resolved just now. -/
theorem rename {p' : Nat} (he : t.get i = some e) (n' : String)
    (hm : e.parent = p' ∨ e.FreshAt t.generation) : Renews t (t.rename i p' n') where
  generation := (Fed.rename (fun _ => True) t i p' n').generation
  entry := fun j e' he' => by
    rcases rename_cases t i p' n' with ⟨-, hu⟩ | ⟨e₀, he₀, hu⟩
    · rw [hu] at he'
      exact .inr ⟨e', he', rfl, id⟩
    · cases he.symm.trans he₀
      rw [hu.get] at he'
      split at he'
      · rename_i hj
        cases he'
        rcases hm with rfl | hf
        · exact .inr ⟨e, by rw [hj, he], rfl, id⟩
        · exact .inl hf
      · exact .inr ⟨e', get_of_get_evictName he', rfl, id⟩

end Renews

/-! ## A listing -/

/-- Below any directory but the root, an entry is found by its name. -/
theorem Linked.lookup_of_get (h : Linked t) (he : t.get i = some e)
    (hp : e.parent ≠ FUSE_ROOT_INODE) : t.lookup e.parent e.name = some i := by
  refine h.complete i e he ?_
  rintro rfl
  rw [h.root] at he
  cases he
  exact hp rfl

/-- A new entry takes the place of whatever had its name. -/
theorem Linked.get_addChild (h : Linked t) (hr : p ≠ FUSE_ROOT_INODE) (c : ChildInfo)
    (he : (t.addChild p c).get i = some e) :
    e.parent = p ∧ e.FreshAt t.generation ∨
      t.get i = some e ∧ ¬ (e.parent = p ∧ e.name = c.name) := by
  unfold InodeTable.addChild InodeTable.addObject at he
  dsimp only at he
  rw [(placed_insert rfl).get] at he
  split at he
  · cases he
    exact .inl ⟨rfl, fun _ _ => rfl⟩
  · refine .inr ⟨get_of_get_evictName he, ?_⟩
    rintro ⟨rfl, hn⟩
    have hl := (h.evictName e.parent c.name t.nextInode).lookup_of_get he hr
    rw [hn, h.toIndexed.lookup_cleared h.get_nextInode] at hl
    cases hl

/-- After one report the entry of its name is fresh, and the others are as they were. -/
theorem Linked.get_syncChild (h : Linked t) (hr : p ≠ FUSE_ROOT_INODE) (c : ChildInfo)
    (he : (t.syncChild p c).get i = some e) :
    e.parent = p ∧ e.FreshAt t.generation ∨
      t.get i = some e ∧ ¬ (e.parent = p ∧ e.name = c.name) := by
  unfold InodeTable.syncChild at he
  split at he
  · rename_i ino hl
    obtain ⟨e₀, he₀, hp₀, hn₀⟩ := h.sound p c.name ino hl
    split at he
    · rw [get_getMut] at he
      split at he
      · rw [he₀] at he
        cases he
        exact .inl ⟨hp₀, fun _ _ => rfl⟩
      · rename_i hne
        refine .inr ⟨he, ?_⟩
        rintro ⟨rfl, hn⟩
        have hi := h.lookup_of_get he hr
        rw [hn, hl] at hi
        exact hne (Option.some.inj hi).symm
    · have hino : ino ≠ FUSE_ROOT_INODE := by
        rintro rfl
        exact h.noRoot p c.name hl
      have hadd := (h.remove hino).get_addChild hr c he
      rw [generation_remove] at hadd
      exact hadd.imp_right fun hold => ⟨(get_of_get_remove hold.1).2, hold.2⟩
  · exact h.get_addChild hr c he

theorem generation_syncChild (t : InodeTable) (p : Nat) (c : ChildInfo) :
    (t.syncChild p c).generation = t.generation :=
  (Fed.syncChild (P := fun _ => True) t p trivial).generation

theorem get_of_get_removeAll {is : List Nat} (he : (t.removeAll is).get i = some e) :
    i ∉ is ∧ t.get i = some e := by
  induction is generalizing t with
  | nil => exact ⟨List.not_mem_nil, he⟩
  | cons j is ih =>
    obtain ⟨hi, he⟩ := ih he
    obtain ⟨hij, he⟩ := get_of_get_remove he
    exact ⟨by simp [hij, hi], he⟩

/-- The directory `p` while its listing comes in: the reports so far were `seen`. -/
structure Listing (t : InodeTable) (p : Nat) (seen : List ChildInfo) (u : InodeTable) : Prop where
  rooted : Rooted u
  generation : u.generation = t.generation
  parent : u.get p = t.get p
  entry : ∀ i e, u.get i = some e → e.parent = p ∧ e.FreshAt t.generation ∨
    t.get i = some e ∧ ¬ (e.parent = p ∧ ∃ c ∈ seen, c.name = e.name)

section Listing

variable (h : Rooted t) (hp : (t.get p).isSome) (hr : p ≠ FUSE_ROOT_INODE)
  (hs : ¬ t.IsChild p p)

include h hp hr hs

theorem Listing.reports (cs : List ChildInfo) :
    Listing t p cs (cs.foldl (fun t c => t.syncChild p c) t) := by
  induction cs using List.reverseRecOn with
  | nil => exact ⟨h, rfl, rfl, fun i e he => .inr ⟨he, by simp⟩⟩
  | append_singleton cs c ih =>
    rw [List.foldl_append]
    show Listing t p (cs ++ [c]) ((cs.foldl (fun t c => t.syncChild p c) t).syncChild p c)
    generalize cs.foldl (fun t c => t.syncChild p c) t = u at ih ⊢
    have hlive : (u.get p).isSome := by rw [ih.parent]; exact hp
    have hself : ¬ u.IsChild p p := by
      rintro ⟨e, he, hne, hpar⟩
      exact hs ⟨e, by rw [← ih.parent, he], hne, hpar⟩
    obtain ⟨ep, hep⟩ := Option.isSome_iff_exists.mp hlive
    refine ⟨ih.rooted.syncChild (ih.rooted.bound p ep hep) hr c, ?_, ?_, fun i e he => ?_⟩
    · rw [generation_syncChild, ih.generation]
    · rw [ih.rooted.get_syncChild_parent hself c hlive, ih.parent]
    · rcases ih.rooted.get_syncChild hr c he with hfresh | ⟨hold, hother⟩
      · rw [ih.generation] at hfresh
        exact .inl hfresh
      · rcases ih.entry i e hold with hfresh | ⟨ht, hunseen⟩
        · exact .inl hfresh
        · refine .inr ⟨ht, ?_⟩
          rintro ⟨hpar, d, hd, hn⟩
          rcases List.mem_append.mp hd with hd | hd
          · exact hunseen ⟨hpar, d, hd, hn⟩
          · cases List.mem_singleton.mp hd
            exact hother ⟨hpar, hn.symm⟩

/-- After a listing the children of the directory are fresh, and what is
elsewhere is as it was. -/
theorem Rooted.syncChildren (cs : List ChildInfo) :
    Rooted (t.syncChildren p cs) ∧ (t.syncChildren p cs).generation = t.generation ∧
      ∀ i e, (t.syncChildren p cs).get i = some e →
        e.parent = p ∧ e.FreshAt t.generation ∨ e.parent ≠ p ∧ t.get i = some e := by
  have hl := Listing.reports h hp hr hs cs
  have hlive : ((cs.foldl (fun t c => t.syncChild p c) t).get p).isSome := by
    rw [hl.parent]
    exact hp
  unfold InodeTable.syncChildren
  dsimp only
  generalize cs.foldl (fun t c => t.syncChild p c) t = u at hl hlive ⊢
  refine ⟨hl.rooted.removeAll fun i hi => ?_, ?_, fun i e he => ?_⟩
  · obtain ⟨e, -, hne, -⟩ := hl.rooted.listed p i (List.mem_filter.mp hi).1
    exact hne
  · rw [(Fed.removeAll (fun _ => True) u _).generation, hl.generation]
  · obtain ⟨hkept, hu⟩ := get_of_get_removeAll he
    rcases hl.entry i e hu with hfresh | ⟨ht, hunseen⟩
    · exact .inl hfresh
    · refine .inr ⟨fun hpar => hkept ?_, ht⟩
      -- a child that no report named is gone
      have hi : i ≠ FUSE_ROOT_INODE := by
        rintro rfl
        rw [h.root] at ht
        cases ht
        exact hr hpar.symm
      refine List.mem_filter.mpr ⟨(hl.rooted.children p hlive i).mpr ⟨e, hu, hi, hpar⟩, ?_⟩
      rw [hu, Option.any_some, Bool.not_eq_true', List.any_eq_false]
      intro c hc hn
      exact hunseen ⟨hpar, c, hc, eq_of_beq hn⟩

end Listing

end InodeTable

/-! ## The link -/

/-- Below a directory that is marked as loaded every entry is fresh. -/
structure Link.LoadedFresh (l : Link) : Prop where
  rooted : l.inodes.Rooted
  fresh : ∀ i e, l.inodes.get i = some e → l.dirsLoaded.lookup e.parent = some true →
    e.FreshAt l.inodes.generation

/-- What can be listed is a live directory in no directory of its own. -/
theorem Lists.listable {l : Link} {p : Nat} (hl : Lists l p) (h : l.inodes.Rooted) :
    (l.inodes.get p).isSome ∧ p ≠ FUSE_ROOT_INODE ∧ ¬ l.inodes.IsChild p p := by
  obtain ⟨⟨e, he, hdir, hkind⟩, idx, hwalk⟩ := hl
  obtain ⟨-, hroot⟩ := h.folder he hkind
  refine ⟨by rw [he]; rfl, hroot, ?_⟩
  rintro ⟨e', he', -, hself⟩
  cases he.symm.trans he'
  have htop := h.top p e he
  rw [walkFuel, findStorageFrom, he] at hwalk
  cases hk : e.kind with
  | root => exact hkind hk
  | storage sid => exact hroot (hself.symm.trans (htop.mp (by rw [hk]; rfl)))
  | directory a => simp [hk, hself] at hwalk
  | file a => simp [InodeEntry.isDir, hk] at hdir

namespace Link.LoadedFresh

variable {l : Link} {u : InodeTable}

theorem renews (h : l.LoadedFresh) (hu : u.Rooted) (hr : InodeTable.Renews l.inodes u) :
    LoadedFresh { l with inodes := u } where
  rooted := hu
  fresh := fun i e he hd => by
    have hg : u.generation = l.inodes.generation := hr.generation
    show e.FreshAt u.generation
    rw [hg]
    rcases hr.entry i e he with hf | ⟨e', he', hp, hf⟩
    · exact hf
    · apply hf
      apply h.fresh i e' he'
      rw [hp]
      exact hd

/-- The root is the one directory that may be marked without a listing: what is
below it has no handle. -/
theorem marked (hu : u.Rooted) {dirs : HashMap Nat Bool}
    (hd : ∀ i e, u.get i = some e → dirs.lookup e.parent = some true →
      e.FreshAt u.generation ∨ e.parent = FUSE_ROOT_INODE) :
    LoadedFresh { l with inodes := u, dirsLoaded := dirs } where
  rooted := hu
  fresh := fun i e he hm => by
    rcases hd i e he hm with hf | hp
    · exact hf
    · intro a ha
      rw [(hu.top i e he).mpr hp] at ha
      cases ha

theorem rootLoaded (hu : u.Rooted) :
    LoadedFresh { l with inodes := u, dirsLoaded := Link.rootLoaded } := by
  refine marked hu fun i e _ hm => .inr ?_
  rw [Link.rootLoaded, HashMap.lookup_insert] at hm
  split at hm
  · assumption
  · rw [HashMap.lookup_empty] at hm
    cases hm

theorem adopted (h : l.LoadedFresh) (device : MtpDevice) (storages : List Storage) :
    (l.adopted device storages).LoadedFresh := by
  have hu : (Link.remapStorages storages l.inodes).bumpGeneration.Rooted :=
    (Link.remapStorages_induction (fun _ ino sid h => h.setStorageId ino sid) storages
      h.rooted).bumpGeneration
  exact ⟨hu, (rootLoaded (l := l) hu).fresh⟩

theorem syncChildren (h : l.LoadedFresh) {p : Nat} (hl : Lists l p) (cs : List ChildInfo) :
    LoadedFresh { l with inodes := l.inodes.syncChildren p cs } := by
  obtain ⟨hp, hr, hs⟩ := hl.listable h.rooted
  obtain ⟨hu, hg, hentry⟩ := InodeTable.Rooted.syncChildren h.rooted hp hr hs cs
  refine h.renews hu ⟨hg, fun i e he => ?_⟩
  rcases hentry i e he with ⟨-, hf⟩ | ⟨-, hold⟩
  · exact .inl hf
  · exact .inr ⟨e, hold, rfl, id⟩

theorem loaded (h : l.LoadedFresh) {p : Nat} (hl : Lists l p) (cs : List ChildInfo) :
    LoadedFresh { l with
      inodes := l.inodes.syncChildren p cs
      dirsLoaded := l.dirsLoaded.insert p true } := by
  obtain ⟨hp, hr, hs⟩ := hl.listable h.rooted
  obtain ⟨hu, hg, hentry⟩ := InodeTable.Rooted.syncChildren h.rooted hp hr hs cs
  refine marked hu fun i e he hm => .inl ?_
  rw [hg]
  rcases hentry i e he with ⟨-, hf⟩ | ⟨hne, hold⟩
  · exact hf
  · rw [HashMap.lookup_insert, if_neg hne] at hm
    exact h.fresh i e hold hm

theorem forget (h : l.LoadedFresh) {dirs : HashMap Nat Bool}
    (hd : ∀ p, dirs.lookup p = some true → l.dirsLoaded.lookup p = some true) :
    LoadedFresh { l with dirsLoaded := dirs } :=
  marked h.rooted fun i e he hm => .inl (h.fresh i e he (hd e.parent hm))

theorem markRoot (h : l.LoadedFresh) :
    LoadedFresh { l with dirsLoaded := l.dirsLoaded.insert FUSE_ROOT_INODE true } := by
  refine marked h.rooted fun i e he hm => ?_
  rw [HashMap.lookup_insert] at hm
  split at hm
  · exact .inr ‹_›
  · exact .inl (h.fresh i e he hm)

/-- A file's entry goes on with another handle, below the same parent. -/
theorem recordUpload (h : l.LoadedFresh) {inode : Nat} (hfile : IsFile l inode) (a : ObjectHandle)
    (size : Nat) (now : SystemTime) :
    LoadedFresh { l with inodes := l.inodes.recordUpload inode a none size now } := by
  obtain ⟨e, b, he, hk⟩ := hfile
  have hb : e.kind.handle? = some b := by rw [hk]; rfl
  refine h.renews ?_ (.getMut inode fun e' he' => .inr ⟨rfl, fun hf _ _ => ?_⟩)
  · refine h.rooted.getMut inode (fun _ => ⟨rfl, rfl⟩) (fun e' he' => ?_) fun hi => ?_
    · cases he.symm.trans he'
      rw [hb]
      exact iff_of_false nofun nofun
    · exact absurd hi (h.rooted.ne_root he hb)
  · cases he.symm.trans he'
    exact hf b hb

theorem addObject (h : l.LoadedFresh) {parent : Nat} (hp : IsFolder l parent) (a : ObjectHandle)
    (name : String) (isDir : Bool) (size : Nat) (now : SystemTime) :
    LoadedFresh { l with inodes := (l.inodes.addObject parent a name isDir size now).2 } := by
  obtain ⟨e, he, -, hk⟩ := hp
  obtain ⟨hlt, hr⟩ := h.rooted.folder he hk
  exact h.renews (h.rooted.addObject hlt hr a name isDir size now) (.addObject ..)

theorem remove (h : l.LoadedFresh) {ino : Nat} (htok : HasToken l ino) :
    LoadedFresh { l with inodes := l.inodes.remove ino } := by
  obtain ⟨e, a, he, ha⟩ := htok
  exact h.renews (h.rooted.remove (h.rooted.ne_root he ha)) (.remove ..)

theorem rename (h : l.LoadedFresh) {ino newParent : Nat} (hm : Movable l ino newParent)
    (newName : String) :
    LoadedFresh { l with inodes := l.inodes.rename ino newParent newName } := by
  obtain ⟨⟨e, a, he, ha⟩, hm⟩ := hm
  have hto : newParent < l.inodes.nextInode ∧ newParent ≠ FUSE_ROOT_INODE ∧
      (e.parent = newParent ∨ e.FreshAt l.inodes.generation) := by
    rcases hm with ⟨name, hl⟩ | ⟨⟨ep, hep, -, hk⟩, hf⟩
    · obtain ⟨e', he', rfl, -⟩ := h.rooted.sound _ _ _ hl
      cases he.symm.trans he'
      refine ⟨h.rooted.parentBound ino e he, fun hp => ?_, .inl rfl⟩
      rw [(h.rooted.top ino e he).mpr hp] at ha
      cases ha
    · obtain ⟨hlt, hr⟩ := h.rooted.folder hep hk
      exact ⟨hlt, hr, .inr ((InodeTable.isFresh_iff_freshAt he).mp hf)⟩
  obtain ⟨hlt, hr, hfresh⟩ := hto
  exact h.renews (h.rooted.rename he ha hlt hr newName) (.rename he newName hfresh)

end Link.LoadedFresh

/-- Nothing but a flush that cannot replace the old object makes a listing overlook an entry. -/
theorem linkInvariant_loaded :
    LinkInvariant Replaces (fun _ _ => True) (fun l _ => l.LoadedFresh) (fun _ _ => True) where
  token := fun _ _ => trivial
  aside := fun _ h => ⟨trivial, fun _ _ _ => ⟨h, fun _ h => h⟩⟩
  query := fun _ _ h _ _ => ⟨trivial, fun _ _ _ => ⟨h, fun _ h => h, fun _ _ => trivial⟩⟩
  setHandle := fun h _ => h.renews (h.rooted.setHandle ..) (.setHandle ..)
  syncChildren := fun h hl _ => h.syncChildren hl _
  loaded := fun h hl _ => h.loaded hl _
  rootLoaded := fun h => h.markRoot
  forget := fun hd h => h.forget hd
  giveUp := fun h => ⟨h.rooted, h.fresh⟩
  invalidate := fun h => ⟨trivial, fun _ _ _ => .rootLoaded h.rooted.bumpGeneration⟩
  reopen := fun h => ⟨trivial, fun _ _ _ => ⟨h, fun _ _ => ⟨trivial, fun _ _ _ => ⟨h, fun _ _ =>
    ⟨trivial, fun _ _ _ => ⟨trivial, fun _ _ _ => h.adopted _ _⟩⟩⟩⟩⟩⟩
  mutation := fun _ _ _ h _ _ =>
    ⟨trivial, fun _ _ _ => ⟨h, fun _ h => h, fun _ _ => trivial⟩⟩
  record := fun inode h _ _ hfile hland _ => by
    rw [hland.name_eq_none]
    exact h.recordUpload hfile _ _ _
  init := fun h => ⟨trivial, fun _ _ _ => h⟩
  addStorage := fun sid name now h =>
    h.renews (h.rooted.addStorageAt sid name now) (.addStorageAt ..)
  setStorages := fun _ h => ⟨h.rooted, h.fresh⟩
  spawn := fun h => ⟨trivial, fun _ _ _ => h⟩
  addObject := fun parent a name isDir now h _ hp => h.addObject hp a name isDir 0 now
  remove := fun ino h htok => h.remove htok
  rename := fun ino newParent newName h hm => h.rename hm newName
  panic := fun _ _ _ => trivial

/-- In every state of a run in which each uploaded object takes the old one's
place, the children that the table lists below a loaded directory are fresh. -/
theorem loaded_children_fresh {device : MtpDevice} {describe : String} {config : MtpFsConfig}
    {h : List (Callback × Reply)} {fs : MtpFs} {tr : List Event}
    (hr : MountRun Replaces (.new device describe config) h fs tr) {p c : Nat}
    (hp : fs.link.dirsLoaded.lookup p = some true) (hc : c ∈ fs.link.inodes.children p) :
    fs.link.inodes.isFresh c = true := by
  have h₀ : (MtpFs.new device describe config).link.LoadedFresh :=
    ⟨InodeTable.rooted_new, fun _ _ _ hd => nomatch (HashMap.lookup_empty _).symm.trans hd⟩
  have hs := (linkInvariant_loaded.mount.served h₀ hr).1
  obtain ⟨e, he, -, rfl⟩ := hs.rooted.listed p c hc
  exact (InodeTable.isFresh_iff_freshAt he).mpr (hs.fresh c e he hp)

theorem loaded_children_fresh_overwritten : ∃ fs : MtpFs,
    fs.link.dirsLoaded.lookup 2 = some true ∧ 3 ∈ fs.link.inodes.children 2 ∧
      fs.link.inodes.isFresh 3 = true := by
  obtain ⟨h, fs, tr, hr, ht⟩ := MountRun.of_test replaces_of_script writableMount
    overwriteCallbacks (fun fs _ => decide (fs.link.dirsLoaded.lookup 2 = some true ∧
      3 ∈ fs.link.inodes.children 2))
    (by rfl)
  obtain ⟨hp, hc⟩ := of_decide_eq_true ht
  exact ⟨fs, hp, hc, loaded_children_fresh hr hp hc⟩

/-- A device that does not rename: an overwritten `a` goes on under the temporary
name. It answers the request for a folder with a stale handle. -/
def tempNameDevice (tr : List Event) : (c : Call) → Option (Answer c)
  | .storages _ => some (.ok [⟨⟨1⟩, "Card", 100, 50⟩])
  | .listObjects .. => some
      (.ok [if tr.any Event.uploaded then ⟨⟨8⟩, tempUploadName "a", false, 1, none⟩
        else ⟨⟨7⟩, "a", false, 3, none⟩])
  | .upload .. => some (.ok ⟨8⟩, 1)
  | .delete .. => some (.ok ())
  | .rename .. => some (.error (.other "access denied"))
  | .createFolder .. => some (.error .staleHandle)
  | c => undisturbed c

/-- After the flush that left the object under the temporary name, and an
invalidation, the listing adds that name anew: the entry of the open file stays
below the loaded directory, stale. -/
theorem loaded_child_stale : ∃ h fs tr, MountRun AnyAnswer writableMount h fs tr ∧
    fs.link.dirsLoaded.lookup 2 = some true ∧ 3 ∈ fs.link.inodes.children 2 ∧
      fs.link.inodes.isFresh 3 = false := by
  obtain ⟨h, fs, tr, hr, ht⟩ := MountRun.of_test (anyAnswer_of_script tempNameDevice)
    writableMount (overwriteCallbacks ++ [.mkdir 2 (some "d"), .lookup 2 (some "b")])
    (fun fs _ => decide (fs.link.dirsLoaded.lookup 2 = some true ∧
      3 ∈ fs.link.inodes.children 2 ∧ fs.link.inodes.isFresh 3 = false))
    (by decide +kernel)
  exact ⟨h, fs, tr, hr, of_decide_eq_true ht⟩

end MtpMount
