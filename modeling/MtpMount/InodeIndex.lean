import MtpMount.Inode

/-!
# The indexes of the inode table

What `get`, `lookup` and `children` answer after each operation, and the two
invariants built on it:

* `Indexed`: a name that is found is the name of the live entry found. Every
  operation keeps it, whatever its arguments;
* `Consistent`: the three maps agree both ways. It needs the conditions under
  which the mount calls the operations: parents live, no entry its own parent.
-/

namespace MtpMount.InodeTable

variable {t : InodeTable} {i j p : Nat} {n : String} {e : InodeEntry}

/-! ## What each operation changes -/

@[simp] theorem get_getMut (t : InodeTable) (i : Nat) (f : InodeEntry → InodeEntry) (j : Nat) :
    (t.getMut i f).get j = if j = i then (t.get i).map f else t.get j :=
  HashMap.lookup_update ..

@[simp] theorem lookup_getMut (t : InodeTable) (i : Nat) (f : InodeEntry → InodeEntry) :
    (t.getMut i f).lookup = t.lookup := rfl

@[simp] theorem children_getMut (t : InodeTable) (i : Nat) (f : InodeEntry → InodeEntry) :
    (t.getMut i f).children = t.children := rfl

@[simp] theorem lookup_allocInode (t : InodeTable) : t.allocInode.2.lookup = t.lookup := rfl

@[simp] theorem children_allocInode (t : InodeTable) : t.allocInode.2.children = t.children := rfl

theorem remove_of_none (h : t.get i = none) : t.remove i = t := by
  have h' : t.entries.lookup i = none := h
  simp only [remove, h']

theorem get_remove (t : InodeTable) (i j : Nat) :
    (t.remove i).get j = if j = i then none else t.get j := by
  cases h : t.get i with
  | none =>
    rw [remove_of_none h]
    split
    · rename_i hj
      rw [hj, h]
    · rfl
  | some e =>
    have h' : t.entries.lookup i = some e := h
    simp only [remove, h', get]
    exact HashMap.lookup_erase ..

theorem lookup_remove (h : t.get i = some e) (p : Nat) (n : String) :
    (t.remove i).lookup p n = if p = e.parent ∧ n = e.name then none else t.lookup p n := by
  have h' : t.entries.lookup i = some e := h
  simp only [remove, h', lookup, HashMap.lookup_erase, Prod.mk.injEq]

theorem children_remove (h : t.get i = some e) (p : Nat) :
    (t.remove i).children p =
      if p = i then [] else
      if p = e.parent then (t.children p).filter (· ≠ i) else t.children p := by
  have h' : t.entries.lookup i = some e := h
  simp only [remove, h', children, HashMap.lookup_erase]
  split
  · rfl
  · exact HashMap.getD_lookup_update _ _ _ rfl

@[simp] theorem nextInode_remove (t : InodeTable) (i : Nat) :
    (t.remove i).nextInode = t.nextInode := by
  unfold remove
  split <;> rfl

@[simp] theorem generation_remove (t : InodeTable) (i : Nat) :
    (t.remove i).generation = t.generation := by
  unfold remove
  split <;> rfl

/-- Eviction removes what was found at the name, unless that is to be kept. -/
theorem evictName_cases (t : InodeTable) (p : Nat) (n : String) (keep : Nat) :
    (t.evictName p n keep = t ∧ ∀ i, t.lookup p n = some i → i = keep) ∨
      ∃ i, t.lookup p n = some i ∧ i ≠ keep ∧ t.evictName p n keep = t.remove i := by
  unfold evictName
  cases h : t.lookup p n with
  | none => exact .inl ⟨rfl, fun i hi => nomatch hi⟩
  | some old =>
    by_cases hk : old = keep
    · refine .inl ⟨by simp [hk], fun i hi => ?_⟩
      cases hi
      exact hk
    · exact .inr ⟨old, rfl, hk, by simp [hk]⟩

@[simp] theorem nextInode_evictName (t : InodeTable) (p : Nat) (n : String) (keep : Nat) :
    (t.evictName p n keep).nextInode = t.nextInode := by
  rcases evictName_cases t p n keep with ⟨h, -⟩ | ⟨i, -, -, h⟩ <;> simp [h]

theorem get_evictName (t : InodeTable) (p : Nat) (n : String) (keep : Nat) :
    (t.evictName p n keep).get keep = t.get keep := by
  rcases evictName_cases t p n keep with ⟨h, -⟩ | ⟨i, -, hk, h⟩
  · rw [h]
  · rw [h, get_remove, if_neg fun he => hk he.symm]

theorem get_of_get_evictName {keep : Nat} (h : (t.evictName p n keep).get i = some e) :
    t.get i = some e := by
  rcases evictName_cases t p n keep with ⟨h', -⟩ | ⟨j, -, -, h'⟩
  · rwa [h'] at h
  · rw [h', get_remove] at h
    split at h
    · cases h
    · exact h

theorem get_insert (t : InodeTable) (e : InodeEntry) (j : Nat) :
    (t.insert e).get j =
      if j = e.inode then some e else (t.evictName e.parent e.name e.inode).get j :=
  HashMap.lookup_insert ..

theorem lookup_insert (t : InodeTable) (e : InodeEntry) (p : Nat) (n : String) :
    (t.insert e).lookup p n =
      if p = e.parent ∧ n = e.name then some e.inode
      else (t.evictName e.parent e.name e.inode).lookup p n := by
  simp only [insert, pushChild, lookup, HashMap.lookup_insert, Prod.mk.injEq]

theorem children_insert (t : InodeTable) (e : InodeEntry) (p : Nat) :
    (t.insert e).children p =
      if p = e.parent then (t.evictName e.parent e.name e.inode).children p ++ [e.inode]
      else (t.evictName e.parent e.name e.inode).children p := by
  simp only [insert, pushChild, children, HashMap.lookup_insert]
  split
  · rename_i hp
    rw [hp]
    rfl
  · rfl

/-- The new object is live, under its own number. -/
theorem live_addObject (t : InodeTable) (parent : Nat) (handle : ObjectHandle) (name : String)
    (isDir : Bool) (size : Nat) (mtime : SystemTime) :
    ∃ e, (t.addObject parent handle name isDir size mtime).2.get
        (t.addObject parent handle name isDir size mtime).1 = some e ∧
      e.inode = (t.addObject parent handle name isDir size mtime).1 :=
  ⟨_, (get_insert ..).trans (if_pos rfl), rfl⟩

@[simp] theorem nextInode_insert (t : InodeTable) (e : InodeEntry) :
    (t.insert e).nextInode = t.nextInode := nextInode_evictName ..

/-- A rename of a live entry, after the destination was cleared. -/
structure Renamed (t' : InodeTable) (i : Nat) (e : InodeEntry) (p' : Nat) (n' : String)
    (u : InodeTable) : Prop where
  get : ∀ j, u.get j = if j = i then some { e with parent := p', name := n' } else t'.get j
  lookup : ∀ p n, u.lookup p n =
    if p = p' ∧ n = n' then some i
    else if p = e.parent ∧ n = e.name then none else t'.lookup p n
  children : ∀ p, u.children p =
    (if p = e.parent then (t'.children p).filter (· ≠ i) else t'.children p) ++
      (if p = p' then [i] else [])
  nextInode : u.nextInode = t'.nextInode

theorem rename_cases (t : InodeTable) (i p' : Nat) (n' : String) :
    (t.get i = none ∧ t.rename i p' n' = t) ∨
      ∃ e, t.get i = some e ∧
        Renamed (t.evictName p' n' i) i e p' n' (t.rename i p' n') := by
  cases h : t.get i with
  | none => exact .inl ⟨rfl, by simp [rename, h]⟩
  | some e =>
    refine .inr ⟨e, rfl, ?_⟩
    have he : (t.evictName p' n' i).get i = some e := by rw [get_evictName, h]
    have hr : t.rename i p' n' =
        ({ (t.evictName p' n' i).getMut i (fun e => { e with parent := p', name := n' }) with
          nameIndex := ((t.evictName p' n' i).nameIndex.erase (e.parent, e.name)).insert
            (p', n') i
          childrenIndex := (t.evictName p' n' i).childrenIndex.update e.parent
            fun siblings => siblings.filter (· ≠ i) } : InodeTable).pushChild p' i := by
      simp only [rename, h, he, Option.isNone_some, Bool.false_eq_true, ↓reduceIte]
      rfl
    rw [hr]
    generalize t.evictName p' n' i = t' at he
    refine ⟨fun j => ?_, fun p n => ?_, fun p => ?_, rfl⟩
    · have hj := get_getMut t' i (fun e => { e with parent := p', name := n' }) j
      rw [he] at hj
      exact hj
    · simp only [pushChild, InodeTable.lookup, HashMap.lookup_insert, HashMap.lookup_erase,
        Prod.mk.injEq]
    · have hc : ((t'.childrenIndex.update e.parent fun siblings =>
          siblings.filter (· ≠ i)).lookup p).getD [] =
            if p = e.parent then (t'.children p).filter (· ≠ i) else t'.children p :=
        HashMap.getD_lookup_update _ _ _ rfl
      rw [← hc]
      simp only [pushChild, InodeTable.children, HashMap.lookup_insert]
      by_cases hp : p = p'
      · rw [if_pos hp, if_pos hp, hp]
        rfl
      · rw [if_neg hp, if_neg hp, List.append_nil]

/-! ## A found name is the name of a live entry -/

/-- Every name that is found is the name of the live entry found. -/
structure Indexed (t : InodeTable) : Prop where
  sound : ∀ p n i, t.lookup p n = some i → ∃ e, t.get i = some e ∧ e.parent = p ∧ e.name = n
  bound : ∀ i e, t.get i = some e → i < t.nextInode

theorem indexed_new : Indexed new where
  sound := fun p n i h => by simp [new, lookup] at h
  bound := fun i e h => by
    simp only [new, get, HashMap.lookup_insert, HashMap.lookup_empty] at h
    split at h
    · rename_i hi
      subst hi
      decide
    · cases h

theorem Indexed.get_nextInode (h : Indexed t) : t.get t.nextInode = none := by
  cases hg : t.get t.nextInode with
  | none => rfl
  | some e => exact absurd (h.bound _ _ hg) (Nat.lt_irrefl _)

theorem Indexed.getMut (h : Indexed t) (i : Nat) {f : InodeEntry → InodeEntry}
    (hf : ∀ e, (f e).parent = e.parent ∧ (f e).name = e.name) : Indexed (t.getMut i f) where
  sound := fun p n j hl => by
    obtain ⟨e, he, hp, hn⟩ := h.sound p n j hl
    rw [get_getMut]
    split
    · rename_i hj
      subst hj
      exact ⟨f e, by rw [he]; rfl, (hf e).1.trans hp, (hf e).2.trans hn⟩
    · exact ⟨e, he, hp, hn⟩
  bound := fun j e he => by
    rw [get_getMut] at he
    split at he
    · rename_i hj
      subst hj
      obtain ⟨e', he', -⟩ := Option.map_eq_some_iff.mp he
      exact h.bound j e' he'
    · exact h.bound j e he

theorem Indexed.allocInode (h : Indexed t) : Indexed t.allocInode.2 where
  sound := h.sound
  bound := fun i e he => Nat.lt_succ_of_lt (h.bound i e he)

theorem Indexed.bumpGeneration (h : Indexed t) : Indexed t.bumpGeneration where
  sound := h.sound
  bound := h.bound

theorem Indexed.remove (h : Indexed t) (i : Nat) : Indexed (t.remove i) := by
  cases hi : t.get i with
  | none => rwa [remove_of_none hi]
  | some e =>
    refine ⟨fun p n j hl => ?_, fun j e' he' => ?_⟩
    · rw [lookup_remove hi] at hl
      split at hl
      · cases hl
      · rename_i hne
        obtain ⟨e', he', hp, hn⟩ := h.sound p n j hl
        refine ⟨e', ?_, hp, hn⟩
        rw [get_remove, if_neg, he']
        rintro rfl
        rw [hi] at he'
        cases he'
        exact hne ⟨hp.symm, hn.symm⟩
    · rw [get_remove] at he'
      split at he'
      · cases he'
      · simpa using h.bound j e' he'

theorem Indexed.evictName (h : Indexed t) (p : Nat) (n : String) (keep : Nat) :
    Indexed (t.evictName p n keep) := by
  rcases evictName_cases t p n keep with ⟨h', -⟩ | ⟨i, -, -, h'⟩
  · rwa [h']
  · rw [h']
    exact h.remove i

/-- Nothing but `keep` is left at an evicted name. -/
theorem Indexed.lookup_evictName (h : Indexed t) {keep : Nat}
    (hi : (t.evictName p n keep).lookup p n = some i) : i = keep := by
  rcases evictName_cases t p n keep with ⟨h', hk⟩ | ⟨j, hj, -, h'⟩
  · rw [h'] at hi
    exact hk i hi
  · obtain ⟨e, he, hp, hn⟩ := h.sound p n j hj
    rw [h', lookup_remove he, if_pos ⟨hp.symm, hn.symm⟩] at hi
    cases hi

theorem Indexed.insert (h : Indexed t) (hf : t.get e.inode = none) (hb : e.inode < t.nextInode) :
    Indexed (t.insert e) := by
  have h' : Indexed (t.evictName e.parent e.name e.inode) := h.evictName ..
  refine ⟨fun p n j hl => ?_, fun j e' he' => ?_⟩
  · rw [lookup_insert] at hl
    split at hl
    · rename_i hpn
      cases hl
      exact ⟨e, by rw [get_insert, if_pos rfl], hpn.1.symm, hpn.2.symm⟩
    · obtain ⟨e', he', hp, hn⟩ := h'.sound p n j hl
      refine ⟨e', ?_, hp, hn⟩
      rw [get_insert, if_neg, he']
      rintro rfl
      rw [get_evictName, hf] at he'
      cases he'
  · rw [nextInode_insert]
    rw [get_insert] at he'
    split at he'
    · rename_i hj
      rw [hj]
      exact hb
    · exact h.bound j e' (get_of_get_evictName he')

theorem Indexed.addStorageAt (h : Indexed t) (sid : StorageId) (name : String)
    (now : SystemTime) : Indexed (t.addStorageAt sid name now).2 :=
  h.allocInode.insert h.get_nextInode (Nat.lt_succ_self _)

theorem Indexed.addObject (h : Indexed t) (parent : Nat) (handle : ObjectHandle) (name : String)
    (isDir : Bool) (size : Nat) (mtime : SystemTime) :
    Indexed (t.addObject parent handle name isDir size mtime).2 :=
  h.allocInode.insert h.get_nextInode (Nat.lt_succ_self _)

theorem Indexed.setHandle (h : Indexed t) (i : Nat) (handle : ObjectHandle) :
    Indexed (t.setHandle i handle) := by
  refine h.getMut i fun e => ?_
  cases e.kind <;> exact ⟨rfl, rfl⟩

theorem Indexed.setStorageId (h : Indexed t) (i : Nat) (sid : StorageId) :
    Indexed (t.setStorageId i sid) := by
  refine h.getMut i fun e => ?_
  cases e.kind <;> exact ⟨rfl, rfl⟩

theorem Indexed.syncChild (h : Indexed t) (parent : Nat) (c : ChildInfo) :
    Indexed (t.syncChild parent c) := by
  unfold InodeTable.syncChild
  split
  · split
    · exact h.getMut _ fun e => ⟨rfl, rfl⟩
    · exact (h.remove _).addObject ..
  · exact h.addObject ..

theorem Indexed.removeAll (h : Indexed t) (is : List Nat) : Indexed (t.removeAll is) := by
  induction is generalizing t with
  | nil => exact h
  | cons i is ih => exact ih (h.remove i)

theorem Indexed.foldl_syncChild (h : Indexed t) (parent : Nat) (cs : List ChildInfo) :
    Indexed (cs.foldl (fun t c => t.syncChild parent c) t) := by
  induction cs generalizing t with
  | nil => exact h
  | cons c cs ih => exact ih (h.syncChild parent c)

theorem Indexed.syncChildren (h : Indexed t) (parent : Nat) (cs : List ChildInfo) :
    Indexed (t.syncChildren parent cs) := (h.foldl_syncChild parent cs).removeAll _

theorem Indexed.rename (h : Indexed t) (i p' : Nat) (n' : String) :
    Indexed (t.rename i p' n') := by
  rcases rename_cases t i p' n' with ⟨-, hr⟩ | ⟨e, he, hr⟩
  · rwa [hr]
  · have h' : Indexed (t.evictName p' n' i) := h.evictName ..
    have hi : (t.evictName p' n' i).get i = some e := by rw [get_evictName, he]
    refine ⟨fun p n j hl => ?_, fun j e' he' => ?_⟩
    · rw [hr.lookup] at hl
      split at hl
      · rename_i hpn
        cases hl
        exact ⟨_, by rw [hr.get, if_pos rfl], hpn.1.symm, hpn.2.symm⟩
      · split at hl
        · cases hl
        · rename_i hne
          obtain ⟨e', he', hp, hn⟩ := h'.sound p n j hl
          refine ⟨e', ?_, hp, hn⟩
          rw [hr.get, if_neg, he']
          rintro rfl
          rw [hi] at he'
          cases he'
          exact hne ⟨hp.symm, hn.symm⟩
    · rw [hr.nextInode]
      rw [hr.get] at he'
      split at he'
      · rename_i hj
        rw [hj]
        exact h'.bound i e hi
      · exact h'.bound j e' he'

/-! ## The three maps agree -/

/-- The entry `i` is below the directory `p`. The root is nobody's child. -/
def IsChild (t : InodeTable) (p i : Nat) : Prop :=
  ∃ e, t.get i = some e ∧ i ≠ FUSE_ROOT_INODE ∧ e.parent = p

/-- The three maps agree: each live entry is found by its name, and each live
directory lists its children once. Nothing points to a number not handed out. -/
structure Consistent (t : InodeTable) : Prop extends Indexed t where
  complete : ∀ i e, t.get i = some e → i ≠ FUSE_ROOT_INODE → t.lookup e.parent e.name = some i
  noRoot : ∀ p n, t.lookup p n ≠ some FUSE_ROOT_INODE
  noSelf : ∀ i e, t.get i = some e → i ≠ FUSE_ROOT_INODE → e.parent ≠ i
  children : ∀ p, (t.get p).isSome → ∀ i, i ∈ t.children p ↔ t.IsChild p i
  nodup : ∀ p, (t.get p).isSome → (t.children p).Nodup
  parentBound : ∀ i e, t.get i = some e → e.parent < t.nextInode
  unused : ∀ p, t.nextInode ≤ p → t.children p = []
  root : t.get FUSE_ROOT_INODE = some rootEntry

/-- The part of that which holds wherever a rename goes. -/
structure Linked (t : InodeTable) : Prop extends Indexed t where
  complete : ∀ i e, t.get i = some e → i ≠ FUSE_ROOT_INODE → t.lookup e.parent e.name = some i
  noRoot : ∀ p n, t.lookup p n ≠ some FUSE_ROOT_INODE
  children : ∀ p, (t.get p).isSome → ∀ i, i ∈ t.children p ↔ t.IsChild p i
  parentBound : ∀ i e, t.get i = some e → e.parent < t.nextInode
  root : t.get FUSE_ROOT_INODE = some rootEntry

theorem Consistent.linked (h : Consistent t) : Linked t := { h with }

theorem Linked.rootBound (h : Linked t) : FUSE_ROOT_INODE < t.nextInode :=
  h.bound _ _ h.root

theorem Consistent.rootBound (h : Consistent t) : FUSE_ROOT_INODE < t.nextInode :=
  h.linked.rootBound

theorem get_new : new.get i = if i = FUSE_ROOT_INODE then some rootEntry else none := by
  simp only [new, get, HashMap.lookup_insert, HashMap.lookup_empty]

theorem linked_new : Linked new where
  toIndexed := indexed_new
  complete := fun i e he hi => by rw [get_new, if_neg hi] at he; cases he
  noRoot := fun p n h => by simp [new, lookup] at h
  children := fun p _ i => by
    constructor
    · intro h
      simp [new, InodeTable.children] at h
    · rintro ⟨e, he, hi, -⟩
      rw [get_new, if_neg hi] at he
      cases he
  parentBound := fun i e he => by
    rw [get_new] at he
    split at he
    · cases he
      decide
    · cases he
  root := get_new

theorem consistent_new : Consistent new :=
  { linked_new with
    noSelf := fun i e he hi => by rw [get_new, if_neg hi] at he; cases he
    nodup := fun p _ => by simp [new, InodeTable.children]
    unused := fun p _ => by simp [new, InodeTable.children] }

/-! ### An edit in place -/

section GetMut

variable {f : InodeEntry → InodeEntry}

theorem get_of_get_getMut (hf : ∀ e, (f e).parent = e.parent ∧ (f e).name = e.name)
    (h : (t.getMut i f).get j = some e) :
    ∃ e', t.get j = some e' ∧ e.parent = e'.parent ∧ e.name = e'.name := by
  rw [get_getMut] at h
  split at h
  · rename_i hj
    subst hj
    obtain ⟨e', he', rfl⟩ := Option.map_eq_some_iff.mp h
    exact ⟨e', he', hf e'⟩
  · exact ⟨e, h, rfl, rfl⟩

@[simp] theorem isSome_get_getMut (i : Nat) (f : InodeEntry → InodeEntry) (j : Nat) :
    ((t.getMut i f).get j).isSome = (t.get j).isSome := by
  rw [get_getMut]
  split
  · rename_i hj
    rw [hj, Option.isSome_map]
  · rfl

theorem isChild_getMut (hf : ∀ e, (f e).parent = e.parent ∧ (f e).name = e.name) (i p j : Nat) :
    (t.getMut i f).IsChild p j ↔ t.IsChild p j := by
  constructor
  · rintro ⟨e', he', hj, rfl⟩
    obtain ⟨e, he, hp, -⟩ := get_of_get_getMut hf he'
    exact ⟨e, he, hj, hp.symm⟩
  · rintro ⟨e, he, hj, rfl⟩
    have hsome : ((t.getMut i f).get j).isSome := by
      rw [isSome_get_getMut, he]
      rfl
    obtain ⟨e', he'⟩ := Option.isSome_iff_exists.mp hsome
    obtain ⟨e'', he'', hp, -⟩ := get_of_get_getMut hf he'
    cases he.symm.trans he''
    exact ⟨e', he', hj, hp⟩

theorem Linked.getMut (h : Linked t) (i : Nat)
    (hf : ∀ e, (f e).parent = e.parent ∧ (f e).name = e.name)
    (hr : i = FUSE_ROOT_INODE → f rootEntry = rootEntry) : Linked (t.getMut i f) where
  toIndexed := h.toIndexed.getMut i hf
  complete := fun j e' he' hj => by
    obtain ⟨e, he, hp, hn⟩ := get_of_get_getMut hf he'
    rw [lookup_getMut, hp, hn]
    exact h.complete j e he hj
  noRoot := h.noRoot
  children := fun p hp j => by
    rw [isSome_get_getMut] at hp
    rw [children_getMut, isChild_getMut hf]
    exact h.children p hp j
  parentBound := fun j e' he' => by
    obtain ⟨e, he, hp, -⟩ := get_of_get_getMut hf he'
    rw [hp]
    exact h.parentBound j e he
  root := by
    rw [get_getMut]
    split
    · rename_i hi
      rw [← hi, h.root, Option.map_some, hr hi.symm]
    · exact h.root

theorem Consistent.getMut (h : Consistent t) (i : Nat)
    (hf : ∀ e, (f e).parent = e.parent ∧ (f e).name = e.name)
    (hr : i = FUSE_ROOT_INODE → f rootEntry = rootEntry) : Consistent (t.getMut i f) :=
  { h.linked.getMut i hf hr with
    noSelf := fun j e' he' hj => by
      obtain ⟨e, he, hp, -⟩ := get_of_get_getMut hf he'
      rw [hp]
      exact h.noSelf j e he hj
    nodup := fun p hp => by
      rw [isSome_get_getMut] at hp
      exact h.nodup p hp
    unused := h.unused }

end GetMut

theorem Linked.bumpGeneration (h : Linked t) : Linked t.bumpGeneration :=
  { h with toIndexed := h.toIndexed.bumpGeneration }

theorem Consistent.bumpGeneration (h : Consistent t) : Consistent t.bumpGeneration :=
  { h with toIndexed := h.toIndexed.bumpGeneration }

theorem Consistent.setHandle (h : Consistent t) (i : Nat) (handle : ObjectHandle) :
    Consistent (t.setHandle i handle) := by
  refine h.getMut i (fun e => ?_) fun _ => rfl
  cases e.kind <;> exact ⟨rfl, rfl⟩

theorem Consistent.setStorageId (h : Consistent t) (i : Nat) (sid : StorageId) :
    Consistent (t.setStorageId i sid) := by
  refine h.getMut i (fun e => ?_) fun _ => rfl
  cases e.kind <;> exact ⟨rfl, rfl⟩

/-! ### A removal -/

theorem get_of_get_remove (h : (t.remove i).get j = some e) : j ≠ i ∧ t.get j = some e := by
  rw [get_remove] at h
  split at h
  · cases h
  · exact ⟨‹_›, h⟩

theorem live_of_live_remove (h : ((t.remove i).get p).isSome) : p ≠ i ∧ (t.get p).isSome := by
  obtain ⟨e, he⟩ := Option.isSome_iff_exists.mp h
  obtain ⟨hpi, he⟩ := get_of_get_remove he
  exact ⟨hpi, by rw [he]; rfl⟩

theorem isChild_remove (t : InodeTable) (i p j : Nat) :
    (t.remove i).IsChild p j ↔ t.IsChild p j ∧ j ≠ i := by
  constructor
  · rintro ⟨e, he, hj, hp⟩
    obtain ⟨hji, he⟩ := get_of_get_remove he
    exact ⟨⟨e, he, hj, hp⟩, hji⟩
  · rintro ⟨⟨e, he, hj, hp⟩, hji⟩
    exact ⟨e, by rw [get_remove, if_neg hji, he], hj, hp⟩

theorem mem_children_remove (hg : t.get i = some e) (hc : ∀ j ∈ t.children p, t.IsChild p j) :
    j ∈ (t.remove i).children p ↔ p ≠ i ∧ j ∈ t.children p ∧ j ≠ i := by
  rw [children_remove hg]
  split
  · rename_i hpi
    simp [hpi]
  · rename_i hpi
    split
    · simp [hpi]
    · rename_i hpe
      -- `i` is not among the children of another directory
      have hne : j ∈ t.children p → j ≠ i := by
        rintro hm rfl
        obtain ⟨e', he', -, hp'⟩ := hc j hm
        rw [hg] at he'
        cases he'
        exact hpe hp'.symm
      exact ⟨fun hm => ⟨hpi, hm, hne hm⟩, fun hm => hm.2.1⟩

theorem Linked.remove (h : Linked t) (hi : i ≠ FUSE_ROOT_INODE) : Linked (t.remove i) := by
  cases hg : t.get i with
  | none => rwa [remove_of_none hg]
  | some e =>
    refine ⟨h.toIndexed.remove i, ?_, ?_, ?_, ?_, ?_⟩
    · intro j e' he' hj
      obtain ⟨hji, he⟩ := get_of_get_remove he'
      have hl := h.complete j e' he hj
      rw [lookup_remove hg, if_neg, hl]
      rintro ⟨hp, hn⟩
      rw [hp, hn, h.complete i e hg hi] at hl
      exact hji (Option.some.inj hl).symm
    · intro p n hl
      rw [lookup_remove hg] at hl
      split at hl
      · cases hl
      · exact h.noRoot p n hl
    · intro p hp j
      obtain ⟨hpi, hlive⟩ := live_of_live_remove hp
      have hc := h.children p hlive
      rw [isChild_remove, mem_children_remove hg fun j hj => (hc j).mp hj, hc j]
      exact ⟨fun hm => hm.2, fun hm => ⟨hpi, hm⟩⟩
    · intro j e' he'
      simpa using h.parentBound j e' (get_of_get_remove he').2
    · rw [get_remove, if_neg hi.symm]
      exact h.root

theorem Consistent.remove (h : Consistent t) (hi : i ≠ FUSE_ROOT_INODE) :
    Consistent (t.remove i) := by
  cases hg : t.get i with
  | none => rwa [remove_of_none hg]
  | some e =>
    refine { h.linked.remove hi with noSelf := ?_, nodup := ?_, unused := ?_ }
    · intro j e' he' hj
      exact h.noSelf j e' (get_of_get_remove he').2 hj
    · intro p hp
      obtain ⟨hpi, hlive⟩ := live_of_live_remove hp
      have hn := h.nodup p hlive
      rw [children_remove hg, if_neg hpi]
      split
      · exact hn.filter _
      · exact hn
    · intro p hp
      have hu := h.unused p (by simpa using hp)
      rw [children_remove hg, hu]
      simp

theorem Linked.evictName (h : Linked t) (p : Nat) (n : String) (keep : Nat) :
    Linked (t.evictName p n keep) := by
  rcases evictName_cases t p n keep with ⟨h', -⟩ | ⟨i, hi, -, h'⟩
  · rwa [h']
  · rw [h']
    refine h.remove ?_
    rintro rfl
    exact h.noRoot p n hi

theorem Consistent.evictName (h : Consistent t) (p : Nat) (n : String) (keep : Nat) :
    Consistent (t.evictName p n keep) := by
  rcases evictName_cases t p n keep with ⟨h', -⟩ | ⟨i, hi, -, h'⟩
  · rwa [h']
  · rw [h']
    refine h.remove ?_
    rintro rfl
    exact h.noRoot p n hi

theorem Consistent.removeAll (h : Consistent t) {is : List Nat}
    (hi : ∀ i ∈ is, i ≠ FUSE_ROOT_INODE) : Consistent (t.removeAll is) := by
  induction is generalizing t with
  | nil => exact h
  | cons i is ih =>
    exact ih (h.remove (hi i List.mem_cons_self)) fun j hj => hi j (List.mem_cons_of_mem _ hj)

/-! ### A new entry -/

/-- A new entry `e`, put where nothing was. -/
structure Placed (t' : InodeTable) (e : InodeEntry) (u : InodeTable) : Prop where
  get : ∀ j, u.get j = if j = e.inode then some e else t'.get j
  lookup : ∀ p n, u.lookup p n =
    if p = e.parent ∧ n = e.name then some e.inode else t'.lookup p n
  children : ∀ p, u.children p = t'.children p ++ if p = e.parent then [e.inode] else []
  nextInode : u.nextInode = e.inode + 1

theorem evictName_allocInode (t : InodeTable) (p : Nat) (n : String) (keep : Nat) :
    t.allocInode.2.evictName p n keep = (t.evictName p n keep).allocInode.2 := by
  have hr : ∀ i, t.allocInode.2.remove i = (t.remove i).allocInode.2 := by
    intro i
    unfold InodeTable.remove
    rw [show t.allocInode.2.entries = t.entries from rfl]
    cases t.entries.lookup i <;> rfl
  unfold InodeTable.evictName
  rw [lookup_allocInode]
  cases t.lookup p n with
  | none => rfl
  | some old =>
    by_cases hk : old = keep
    · simp [hk]
    · simp [hk, hr]

theorem placed_insert (hi : e.inode = t.nextInode) :
    Placed (t.evictName e.parent e.name e.inode) e (t.allocInode.2.insert e) where
  get := fun j => by rw [get_insert, evictName_allocInode]; rfl
  lookup := fun p n => by rw [lookup_insert, evictName_allocInode]; rfl
  children := fun p => by
    rw [children_insert, evictName_allocInode, children_allocInode]
    split
    · rfl
    · rw [List.append_nil]
  nextInode := by
    rw [nextInode_insert, hi]
    rfl

section Placed

variable {u : InodeTable}

theorem Placed.isChild (hu : Placed t e u) (hf : t.get e.inode = none)
    (hr : e.inode ≠ FUSE_ROOT_INODE) (p j : Nat) :
    u.IsChild p j ↔ t.IsChild p j ∨ p = e.parent ∧ j = e.inode := by
  constructor
  · rintro ⟨e', he', hj, rfl⟩
    rw [hu.get] at he'
    split at he'
    · cases he'
      exact .inr ⟨rfl, ‹_›⟩
    · exact .inl ⟨e', he', hj, rfl⟩
  · rintro (⟨e', he', hj, hp⟩ | ⟨rfl, rfl⟩)
    · refine ⟨e', ?_, hj, hp⟩
      rw [hu.get, if_neg, he']
      rintro rfl
      rw [hf] at he'
      cases he'
    · exact ⟨e, by rw [hu.get, if_pos rfl], hr, rfl⟩

theorem Placed.mem_children (hu : Placed t e u) (p j : Nat) :
    j ∈ u.children p ↔ j ∈ t.children p ∨ p = e.parent ∧ j = e.inode := by
  rw [hu.children, List.mem_append]
  split
  · simp [*]
  · simp [*]

theorem Linked.placed (h : Linked t) (hi : e.inode = t.nextInode)
    (hp : e.parent < t.nextInode) (hn : t.lookup e.parent e.name = none)
    (hnew : t.children e.inode = []) (hix : Indexed u) (hu : Placed t e u) : Linked u := by
  have hf : t.get e.inode = none := by rw [hi]; exact h.get_nextInode
  have hr : e.inode ≠ FUSE_ROOT_INODE := by
    have := h.rootBound
    omega
  refine ⟨hix, ?_, ?_, ?_, ?_, ?_⟩
  · intro j e' he' hj
    rw [hu.get] at he'
    rw [hu.lookup]
    split at he'
    · rename_i hji
      cases he'
      rw [if_pos ⟨rfl, rfl⟩, hji]
    · have hl := h.complete j e' he' hj
      rw [if_neg, hl]
      rintro ⟨hp', hn'⟩
      rw [hp', hn', hn] at hl
      cases hl
  · intro p n hl
    rw [hu.lookup] at hl
    split at hl
    · exact hr (Option.some.inj hl)
    · exact h.noRoot p n hl
  · intro p hpl j
    rw [hu.isChild hf hr, hu.mem_children]
    refine or_congr ?_ Iff.rfl
    rw [hu.get] at hpl
    split at hpl
    · -- nothing is below a number not handed out
      rename_i hpi
      rw [hpi, hnew]
      refine iff_of_false List.not_mem_nil ?_
      rintro ⟨e', he', -, hp'⟩
      have := h.parentBound j e' he'
      omega
    · exact h.children p hpl j
  · intro j e' he'
    rw [hu.nextInode]
    rw [hu.get] at he'
    split at he'
    · cases he'
      omega
    · have := h.parentBound j e' he'
      omega
  · rw [hu.get, if_neg hr.symm]
    exact h.root

theorem Consistent.placed (h : Consistent t) (hi : e.inode = t.nextInode)
    (hp : e.parent < t.nextInode) (hn : t.lookup e.parent e.name = none)
    (hix : Indexed u) (hu : Placed t e u) : Consistent u := by
  have hf : t.get e.inode = none := by rw [hi]; exact h.get_nextInode
  have hnew : t.children e.inode = [] := h.unused _ (Nat.le_of_eq hi.symm)
  refine { h.linked.placed hi hp hn hnew hix hu with noSelf := ?_, nodup := ?_, unused := ?_ }
  · intro j e' he' hj
    rw [hu.get] at he'
    split at he'
    · cases he'
      omega
    · exact h.noSelf j e' he' hj
  · intro p hpl
    rw [hu.children]
    rw [hu.get] at hpl
    have hnd : (t.children p).Nodup ∧ e.inode ∉ t.children p := by
      split at hpl
      · rename_i hpi
        rw [hpi, hnew]
        exact ⟨List.nodup_nil, List.not_mem_nil⟩
      · refine ⟨h.nodup p hpl, fun hm => ?_⟩
        obtain ⟨e', he', -⟩ := (h.children p hpl _).mp hm
        rw [hf] at he'
        cases he'
    split
    · refine List.nodup_append.mpr ⟨hnd.1, List.nodup_singleton _, ?_⟩
      rintro j hj _ hm rfl
      rw [List.mem_singleton.mp hm] at hj
      exact hnd.2 hj
    · rw [List.append_nil]
      exact hnd.1
  · intro p hpn
    rw [hu.nextInode] at hpn
    rw [hu.children, h.unused p (by omega), if_neg (by omega), List.nil_append]

end Placed

/-- The name of a new entry is free once it was cleared. -/
theorem Indexed.lookup_cleared (h : Indexed t) (hf : t.get i = none) (p : Nat) (n : String) :
    (t.evictName p n i).lookup p n = none := by
  cases hl : (t.evictName p n i).lookup p n with
  | none => rfl
  | some j =>
    obtain ⟨e', he', -⟩ := (h.evictName p n i).sound _ _ _ hl
    rw [h.lookup_evictName hl, get_evictName, hf] at he'
    cases he'

/-- A new entry, numbered by the allocation just before. -/
theorem Linked.insert_alloc (h : Linked t) (hi : e.inode = t.nextInode)
    (hp : e.parent < t.nextInode) (hnew : (t.evictName e.parent e.name e.inode).children e.inode = []) :
    Linked (t.allocInode.2.insert e) := by
  have hf : t.get e.inode = none := by rw [hi]; exact h.get_nextInode
  refine (h.evictName ..).placed (by rw [nextInode_evictName, hi]) (by rwa [nextInode_evictName])
    (h.toIndexed.lookup_cleared hf ..) hnew ?_ (placed_insert hi)
  exact h.toIndexed.allocInode.insert hf (by rw [hi]; exact Nat.lt_succ_self _)

theorem Consistent.insert_alloc (h : Consistent t) (hi : e.inode = t.nextInode)
    (hp : e.parent < t.nextInode) : Consistent (t.allocInode.2.insert e) := by
  have hf : t.get e.inode = none := by rw [hi]; exact h.get_nextInode
  refine (h.evictName ..).placed (by rw [nextInode_evictName, hi]) (by rwa [nextInode_evictName])
    (h.toIndexed.lookup_cleared hf ..) ?_ (placed_insert hi)
  exact h.toIndexed.allocInode.insert hf (by rw [hi]; exact Nat.lt_succ_self _)

theorem Consistent.addStorageAt (h : Consistent t) (sid : StorageId) (name : String)
    (now : SystemTime) : Consistent (t.addStorageAt sid name now).2 :=
  h.insert_alloc rfl h.rootBound

theorem Consistent.addObject (h : Consistent t) {parent : Nat} (hp : parent < t.nextInode)
    (handle : ObjectHandle) (name : String) (isDir : Bool) (size : Nat) (mtime : SystemTime) :
    Consistent (t.addObject parent handle name isDir size mtime).2 :=
  h.insert_alloc rfl hp

/-! ### A listing -/

theorem Consistent.syncChild (h : Consistent t) {parent : Nat} (hp : parent < t.nextInode)
    (c : ChildInfo) : Consistent (t.syncChild parent c) := by
  unfold InodeTable.syncChild
  split
  · rename_i ino hl
    split
    · exact h.getMut _ (fun e => ⟨rfl, rfl⟩) fun hi => absurd (hi ▸ hl) (h.noRoot _ _)
    · have hr : Consistent (t.remove ino) := by
        refine h.remove ?_
        rintro rfl
        exact h.noRoot _ _ hl
      exact hr.addObject (by simpa using hp) ..
  · exact h.addObject hp ..

/-- What is found below a directory is not the directory. -/
theorem Linked.ne_parent (h : Linked t) (hs : ¬ t.IsChild p p) (hl : t.lookup p n = some i) :
    i ≠ FUSE_ROOT_INODE ∧ i ≠ p := by
  have hi : i ≠ FUSE_ROOT_INODE := by
    rintro rfl
    exact h.noRoot p n hl
  obtain ⟨e, he, hp, -⟩ := h.sound p n i hl
  refine ⟨hi, ?_⟩
  rintro rfl
  exact hs ⟨e, he, hi, hp⟩

theorem Linked.get_evictName_parent (h : Linked t) (hs : ¬ t.IsChild p p) (n : String) (keep : Nat) :
    (t.evictName p n keep).get p = t.get p := by
  rcases evictName_cases t p n keep with ⟨h', -⟩ | ⟨i, hi, -, h'⟩
  · rw [h']
  · rw [h', get_remove, if_neg (h.ne_parent hs hi).2.symm]

theorem Linked.get_addChild_parent (h : Linked t) (hs : ¬ t.IsChild p p) (c : ChildInfo)
    (hp : (t.get p).isSome) : (t.addChild p c).get p = t.get p := by
  unfold InodeTable.addChild InodeTable.addObject
  dsimp only
  rw [(placed_insert rfl).get, if_neg]
  · exact h.get_evictName_parent hs ..
  · obtain ⟨e, he⟩ := Option.isSome_iff_exists.mp hp
    exact Nat.ne_of_lt (h.bound p e he)

/-- A listing leaves the listed directory as it is. -/
theorem Linked.get_syncChild_parent (h : Linked t) (hs : ¬ t.IsChild p p) (c : ChildInfo)
    (hp : (t.get p).isSome) : (t.syncChild p c).get p = t.get p := by
  unfold InodeTable.syncChild
  split
  · rename_i ino hl
    have hne := h.ne_parent hs hl
    split
    · rw [get_getMut, if_neg hne.2.symm]
    · have hr : (t.remove ino).get p = t.get p := by rw [get_remove, if_neg hne.2.symm]
      rw [(h.remove hne.1).get_addChild_parent ?_ c (by rw [hr]; exact hp), hr]
      rw [isChild_remove]
      exact fun hm => hs hm.1
  · exact h.get_addChild_parent hs c hp

theorem Consistent.not_isChild_self (h : Consistent t) (p : Nat) : ¬ t.IsChild p p := by
  rintro ⟨e, he, hp, hself⟩
  exact h.noSelf p e he hp hself

theorem Consistent.foldl_syncChild (h : Consistent t) (hp : (t.get p).isSome)
    (cs : List ChildInfo) :
    Consistent (cs.foldl (fun t c => t.syncChild p c) t) ∧
      ((cs.foldl (fun t c => t.syncChild p c) t).get p).isSome := by
  induction cs generalizing t with
  | nil => exact ⟨h, hp⟩
  | cons c cs ih =>
    obtain ⟨e, he⟩ := Option.isSome_iff_exists.mp hp
    refine ih (h.syncChild (h.bound p e he) c) ?_
    rw [h.linked.get_syncChild_parent (h.not_isChild_self p) c hp]
    exact hp

theorem Consistent.syncChildren (h : Consistent t) (hp : (t.get p).isSome)
    (cs : List ChildInfo) : Consistent (t.syncChildren p cs) := by
  obtain ⟨hf, hlive⟩ := h.foldl_syncChild hp cs
  refine hf.removeAll fun i hi => ?_
  obtain ⟨e, -, hne, -⟩ := (hf.children p hlive i).mp (List.mem_filter.mp hi).1
  exact hne

/-! ### A rename -/

section Renamed

variable {u : InodeTable} {p' : Nat} {n' : String}

theorem Renamed.isChild (hu : Renamed t i e p' n' u) (hir : i ≠ FUSE_ROOT_INODE) (p j : Nat) :
    u.IsChild p j ↔ t.IsChild p j ∧ j ≠ i ∨ p = p' ∧ j = i := by
  constructor
  · rintro ⟨e', he', hj, hp⟩
    rw [hu.get] at he'
    split at he'
    · cases he'
      exact .inr ⟨hp.symm, ‹_›⟩
    · exact .inl ⟨⟨e', he', hj, hp⟩, ‹_›⟩
  · rintro (⟨⟨e', he', hj, hp⟩, hji⟩ | ⟨rfl, rfl⟩)
    · exact ⟨e', by rw [hu.get, if_neg hji, he'], hj, hp⟩
    · exact ⟨_, by rw [hu.get, if_pos rfl], hir, rfl⟩

theorem Renamed.mem_children (hu : Renamed t i e p' n' u) (hi : t.get i = some e)
    (hc : ∀ j ∈ t.children p, t.IsChild p j) :
    j ∈ u.children p ↔ j ∈ t.children p ∧ j ≠ i ∨ p = p' ∧ j = i := by
  have hold : j ∈ (if p = e.parent then (t.children p).filter (· ≠ i) else t.children p) ↔
      j ∈ t.children p ∧ j ≠ i := by
    split
    · simp
    · rename_i hpe
      refine ⟨fun hm => ⟨hm, ?_⟩, fun hm => hm.1⟩
      rintro rfl
      obtain ⟨e', he', -, hp'⟩ := hc j hm
      rw [hi] at he'
      cases he'
      exact hpe hp'.symm
  rw [hu.children, List.mem_append, hold]
  refine or_congr Iff.rfl ?_
  split
  · simp [*]
  · simp [*]

theorem Renamed.live (hu : Renamed t i e p' n' u) (hi : t.get i = some e)
    (hp : (u.get p).isSome) : (t.get p).isSome := by
  rw [hu.get] at hp
  split at hp
  · rename_i hpe
    rw [hpe, hi]
    rfl
  · exact hp

theorem Linked.renamed (h : Linked t) (hi : t.get i = some e) (hir : i ≠ FUSE_ROOT_INODE)
    (hp : p' < t.nextInode) (hn : ∀ j, t.lookup p' n' = some j → j = i) (hix : Indexed u)
    (hu : Renamed t i e p' n' u) : Linked u := by
  have hli := h.complete i e hi hir
  refine ⟨hix, ?_, ?_, ?_, ?_, ?_⟩
  · intro j e' he' hj
    rw [hu.get] at he'
    rw [hu.lookup]
    split at he'
    · rename_i hji
      cases he'
      rw [if_pos ⟨rfl, rfl⟩, hji]
    · rename_i hji
      have hl := h.complete j e' he' hj
      rw [if_neg, if_neg, hl]
      · rintro ⟨hp', hn'⟩
        rw [hp', hn', hli] at hl
        exact hji (Option.some.inj hl).symm
      · rintro ⟨hp', hn'⟩
        rw [hp', hn'] at hl
        exact hji (hn j hl)
  · intro p n hl
    rw [hu.lookup] at hl
    split at hl
    · exact hir (Option.some.inj hl)
    · split at hl
      · cases hl
      · exact h.noRoot p n hl
  · intro p hpl j
    have hc := h.children p (hu.live hi hpl)
    rw [hu.isChild hir, hu.mem_children hi fun j hj => (hc j).mp hj, hc j]
  · intro j e' he'
    rw [hu.nextInode]
    rw [hu.get] at he'
    split at he'
    · cases he'
      exact hp
    · exact h.parentBound j e' he'
  · rw [hu.get, if_neg hir.symm]
    exact h.root

theorem Consistent.renamed (h : Consistent t)
    (hi : t.get i = some e) (hir : i ≠ FUSE_ROOT_INODE) (hpi : p' ≠ i) (hp : p' < t.nextInode)
    (hn : ∀ j, t.lookup p' n' = some j → j = i) (hix : Indexed u)
    (hu : Renamed t i e p' n' u) : Consistent u := by
  refine { h.linked.renamed hi hir hp hn hix hu with noSelf := ?_, nodup := ?_, unused := ?_ }
  · intro j e' he' hj
    rw [hu.get] at he'
    split at he'
    · rename_i hji
      cases he'
      rw [hji]
      exact hpi
    · exact h.noSelf j e' he' hj
  · intro p hpl
    have hlive := hu.live hi hpl
    have hnd := h.nodup p hlive
    have hi' : i ∉ (if p = e.parent then (t.children p).filter (· ≠ i) else t.children p) := by
      split
      · simp
      · rename_i hpe
        intro hm
        obtain ⟨e', he', -, hp'⟩ := (h.children p hlive i).mp hm
        rw [hi] at he'
        cases he'
        exact hpe hp'.symm
    rw [hu.children]
    refine List.nodup_append.mpr ⟨?_, ?_, ?_⟩
    · split
      · exact hnd.filter _
      · exact hnd
    · split
      · exact List.nodup_singleton _
      · exact List.nodup_nil
    · rintro j hj _ hm rfl
      split at hm
      · rw [List.mem_singleton.mp hm] at hj
        exact hi' hj
      · cases hm
  · intro p hpn
    rw [hu.nextInode] at hpn
    have := h.parentBound i e hi
    rw [hu.children, if_neg (by omega), if_neg (by omega), h.unused p hpn]
    rfl

end Renamed

theorem Linked.rename (h : Linked t) {p' : Nat} (hir : i ≠ FUSE_ROOT_INODE)
    (hp : p' < t.nextInode) (n' : String) : Linked (t.rename i p' n') := by
  rcases rename_cases t i p' n' with ⟨-, hr⟩ | ⟨e, he, hr⟩
  · rwa [hr]
  · exact (h.evictName ..).renamed (by rw [get_evictName, he]) hir (by rwa [nextInode_evictName])
      (fun j hj => h.toIndexed.lookup_evictName hj) (h.toIndexed.rename ..) hr

theorem Consistent.rename (h : Consistent t) {p' : Nat} (hir : i ≠ FUSE_ROOT_INODE)
    (hpi : p' ≠ i) (hp : p' < t.nextInode) (n' : String) : Consistent (t.rename i p' n') := by
  rcases rename_cases t i p' n' with ⟨-, hr⟩ | ⟨e, he, hr⟩
  · rwa [hr]
  · exact (h.evictName ..).renamed (by rw [get_evictName, he]) hir hpi
      (by rwa [nextInode_evictName]) (fun j hj => h.toIndexed.lookup_evictName hj)
      (h.toIndexed.rename ..) hr

end MtpMount.InodeTable
