import MtpMount.InodeRuns
import MtpMount.Lib.Walks
import MtpMount.Link

/-!
# The parents come to an end

`Grounded t i`: the way up from `i` ends, at an entry that is its own parent or
at a number that is not live. Where it does, neither `find_storage_index` nor the
first loop of `ensure_fresh` goes round for ever. A table keeps that as long as
the parents it is given are numbers in use and no rename goes below itself.

* `Parented`: the parents of a table are numbers in use (`parented_apply`);
* `Built.grounded`: in every table so built every inode is grounded, and so in
  every run of the mount's (`TableRun.grounded`);
* `Grounded.findStorageFrom`, `Grounded.chainFrom`: the fuel of the two walks is
  enough;
* `parents_end`: the way up reaches the root or a number no longer live and
  repeats nothing. A parent that was never handed out can close a circle
  (`parent_circle`).
-/

namespace MtpMount

open Walks

namespace InodeTable

variable {t u : InodeTable} {i j : Nat} {e : InodeEntry}

/-- One step up. -/
def up (t : InodeTable) (i : Nat) : Option Nat :=
  (t.get i).bind fun e => if i = e.parent then none else some e.parent

def Grounded (t : InodeTable) (i : Nat) : Prop := ∃ nodes, Walk t.up i nodes

theorem up_eq_some (h : t.up i = some j) : ∃ e, t.get i = some e ∧ i ≠ j ∧ e.parent = j := by
  obtain ⟨e, he, hup⟩ := Option.bind_eq_some_iff.mp h
  split at hup
  · cases hup
  · cases hup
    exact ⟨e, he, ‹_›, rfl⟩

theorem up_congr (h : u.get i = t.get i) : u.up i = t.up i := by
  rw [up, up, h]

theorem up_of_none (h : t.get i = none) : t.up i = none := by
  rw [up, h]
  rfl

theorem Grounded.of_up (hi : t.Grounded i) (h : u.up = t.up) : u.Grounded i := by
  obtain ⟨nodes, hw⟩ := hi
  exact ⟨nodes, h ▸ hw⟩

/-- A number handed out so far: the root's or one of `alloc_inode`. -/
def Used (t : InodeTable) (i : Nat) : Prop := FUSE_ROOT_INODE ≤ i ∧ i < t.nextInode

/-- Live are numbers in use, below numbers in use, and only the root is its own parent. -/
structure Parented (t : InodeTable) : Prop where
  rootUsed : t.Used FUSE_ROOT_INODE
  used : ∀ i e, t.get i = some e → t.Used i
  parentUsed : ∀ i e, t.get i = some e → t.Used e.parent
  ownParent : ∀ i e, t.get i = some e → e.parent = i → i = FUSE_ROOT_INODE

theorem Used.mono (h : t.Used i) (hn : t.nextInode ≤ u.nextInode) : u.Used i :=
  ⟨h.1, Nat.lt_of_lt_of_le h.2 hn⟩

theorem Used.congr (h : t.Used i) (hn : u.nextInode = t.nextInode) : u.Used i :=
  h.mono (Nat.le_of_eq hn.symm)

/-- An entry keeps its parent, or goes below a number in use that is not its own. -/
theorem Parented.of_parents (h : Parented t) (hn : t.nextInode ≤ u.nextInode)
    (hu : ∀ i e, u.get i = some e → (∃ e', t.get i = some e' ∧ e'.parent = e.parent) ∨
      u.Used i ∧ u.Used e.parent ∧ e.parent ≠ i) : Parented u where
  rootUsed := h.rootUsed.mono hn
  used := fun i e he => by
    rcases hu i e he with ⟨e', he', -⟩ | ⟨hi, -, -⟩
    · exact (h.used i e' he').mono hn
    · exact hi
  parentUsed := fun i e he => by
    rcases hu i e he with ⟨e', he', hp⟩ | ⟨-, hp, -⟩
    · exact hp ▸ (h.parentUsed i e' he').mono hn
    · exact hp
  ownParent := fun i e he hself => by
    rcases hu i e he with ⟨e', he', hp⟩ | ⟨-, -, hne⟩
    · exact h.ownParent i e' he' (hp.trans hself)
    · exact absurd hself hne

theorem used_root_new : new.Used FUSE_ROOT_INODE := ⟨Nat.le_refl _, by decide⟩

theorem of_get_new (h : new.get i = some e) : i = FUSE_ROOT_INODE ∧ e = rootEntry := by
  rw [get_new] at h
  split at h
  · exact ⟨‹_›, (Option.some.inj h).symm⟩
  · cases h

theorem parented_new : Parented new where
  rootUsed := used_root_new
  used := fun _ _ he => (of_get_new he).1 ▸ used_root_new
  parentUsed := fun _ _ he => (of_get_new he).2 ▸ used_root_new
  ownParent := fun _ _ he _ => (of_get_new he).1

/-! ## One operation -/

theorem Parented.getMut (h : Parented t) {f : InodeEntry → InodeEntry}
    (hf : ∀ e, (f e).parent = e.parent) (i : Nat) : Parented (t.getMut i f) := by
  refine h.of_parents (Nat.le_refl _) fun j e he => .inl ?_
  rw [get_getMut] at he
  split at he
  · subst j
    obtain ⟨e', he', rfl⟩ := Option.map_eq_some_iff.mp he
    exact ⟨e', he', (hf e').symm⟩
  · exact ⟨e, he, rfl⟩

theorem Parented.remove (h : Parented t) (i : Nat) : Parented (t.remove i) :=
  h.of_parents (Nat.le_of_eq (nextInode_remove t i).symm) fun _ e he =>
    .inl ⟨e, (get_of_get_remove he).2, rfl⟩

theorem Parented.removeAll (h : Parented t) (is : List Nat) : Parented (t.removeAll is) := by
  induction is generalizing t with
  | nil => exact h
  | cons i is ih => exact ih (h.remove i)

theorem Parented.insert (h : Parented t) (hi : e.inode = t.nextInode) (hp : t.Used e.parent) :
    Parented (t.allocInode.2.insert e) := by
  have hplaced := placed_insert hi
  have hn : (t.allocInode.2.insert e).nextInode = t.nextInode + 1 := hi ▸ hplaced.nextInode
  refine h.of_parents (hn ▸ Nat.le_succ _) fun j e' he' => ?_
  rw [hplaced.get] at he'
  split at he'
  · cases he'
    subst j
    have hroot := h.rootUsed.2
    refine .inr ⟨⟨?_, ?_⟩, hp.mono (hn ▸ Nat.le_succ _), ?_⟩
    · rw [hi]
      exact Nat.le_of_lt hroot
    · rw [hn, hi]
      exact Nat.lt_succ_self _
    · rw [hi]
      exact Nat.ne_of_lt hp.2
  · exact .inl ⟨e', get_of_get_evictName he', rfl⟩

theorem Parented.rename (h : Parented t) {p' : Nat} (hp : t.Used p') (hne : p' ≠ i)
    (n' : String) : Parented (t.rename i p' n') := by
  rcases rename_cases t i p' n' with ⟨-, hsame⟩ | ⟨e, he, hren⟩
  · rwa [hsame]
  · have hn : (t.rename i p' n').nextInode = t.nextInode :=
      hren.nextInode.trans (nextInode_evictName ..)
    refine h.of_parents (Nat.le_of_eq hn.symm) fun j e' he' => ?_
    rw [hren.get] at he'
    split at he'
    · cases he'
      subst j
      exact .inr ⟨(h.used i e he).congr hn, hp.congr hn, hne⟩
    · exact .inl ⟨e', get_of_get_evictName he', rfl⟩

theorem nextInode_addChild (t : InodeTable) (p : Nat) (c : ChildInfo) :
    (t.addChild p c).nextInode = t.nextInode + 1 := nextInode_insert ..

theorem nextInode_le_syncChild (t : InodeTable) (p : Nat) (c : ChildInfo) :
    t.nextInode ≤ (t.syncChild p c).nextInode := by
  unfold syncChild
  split
  · split
    · exact Nat.le_refl _
    · rw [nextInode_addChild, nextInode_remove]
      exact Nat.le_succ _
  · rw [nextInode_addChild]
    exact Nat.le_succ _

theorem Parented.syncChild (h : Parented t) {p : Nat} (hp : t.Used p) (c : ChildInfo) :
    Parented (t.syncChild p c) := by
  unfold InodeTable.syncChild
  split
  · split
    · refine h.getMut (fun e => ?_) _
      rfl
    · exact (h.remove _).insert rfl (hp.congr (nextInode_remove ..))
  · exact h.insert rfl hp

theorem Parented.syncChildren (h : Parented t) {p : Nat} (hp : t.Used p) (cs : List ChildInfo) :
    Parented (t.syncChildren p cs) := by
  suffices hfold : Parented (cs.foldl (fun t c => t.syncChild p c) t) from hfold.removeAll _
  induction cs generalizing t with
  | nil => exact h
  | cons c cs ih => exact ih (h.syncChild hp c) (hp.mono (nextInode_le_syncChild t p c))

theorem up_getMut {f : InodeEntry → InodeEntry} (hf : ∀ e, (f e).parent = e.parent)
    (t : InodeTable) (i : Nat) : (t.getMut i f).up = t.up := by
  funext j
  rw [up, up, get_getMut]
  split
  · rename_i hj
    rw [hj]
    cases t.get i with
    | none => rfl
    | some e =>
      rw [Option.map_some, Option.bind_some, Option.bind_some, hf]
  · rfl

theorem up_setHandle (t : InodeTable) (i : Nat) (handle : ObjectHandle) :
    (t.setHandle i handle).up = t.up := by
  refine up_getMut (fun e => ?_) t i
  split <;> rfl

theorem up_setStorageId (t : InodeTable) (i : Nat) (storageId : StorageId) :
    (t.setStorageId i storageId).up = t.up := by
  refine up_getMut (fun e => ?_) t i
  split <;> rfl

theorem up_remove (t : InodeTable) (i j : Nat) :
    (t.remove i).up j = t.up j ∨ (t.remove i).up j = none := by
  by_cases hj : j = i
  · refine .inr (up_of_none ?_)
    rw [get_remove, if_pos hj]
  · refine .inl (up_congr ?_)
    rw [get_remove, if_neg hj]

theorem up_evictName (t : InodeTable) (p : Nat) (n : String) (keep j : Nat) :
    (t.evictName p n keep).up j = t.up j ∨ (t.evictName p n keep).up j = none := by
  rcases evictName_cases t p n keep with ⟨h, -⟩ | ⟨i, -, -, h⟩
  · rw [h]
    exact .inl rfl
  · rw [h]
    exact up_remove t i j

theorem Grounded.remove (h : t.Grounded j) (i : Nat) : (t.remove i).Grounded j := by
  obtain ⟨nodes, hw⟩ := h
  exact hw.thinned (up_remove t i)

theorem Grounded.removeAll (h : t.Grounded j) (is : List Nat) : (t.removeAll is).Grounded j := by
  induction is generalizing t with
  | nil => exact h
  | cons i is ih => exact ih (h.remove i)

/-- A new entry below a number that is in use. -/
theorem grounded_insert (hc : Parented t) (h : ∀ i, t.Grounded i) (hi : e.inode = t.nextInode)
    (hp : t.Used e.parent) (j : Nat) : (t.allocInode.2.insert e).Grounded j := by
  have hup : ∀ k, k ≠ e.inode → (t.allocInode.2.insert e).up k = t.up k ∨
      (t.allocInode.2.insert e).up k = none := by
    intro k hk
    have hget : (t.allocInode.2.insert e).get k =
        (t.evictName e.parent e.name e.inode).get k := by
      rw [(placed_insert hi).get, if_neg hk]
    rw [up_congr hget]
    exact up_evictName ..
  obtain ⟨nodes, hw⟩ := h e.parent
  -- the way up from the parent never comes by a number that was not handed out
  have hparent : (t.allocInode.2.insert e).Grounded e.parent := by
    refine hw.within (P := t.Used) hp (fun k m _ hkm => ?_) fun k hk => hup k ?_
    · obtain ⟨e', he', -, rfl⟩ := up_eq_some hkm
      exact hc.parentUsed k e' he'
    · rw [hi]
      exact Nat.ne_of_lt hk.2
  obtain ⟨nodes', hw'⟩ := hparent
  have hself : (t.allocInode.2.insert e).up e.inode = some e.parent := by
    have hne : ¬ e.inode = e.parent := by
      rw [hi]
      exact Nat.ne_of_gt hp.2
    rw [up, (placed_insert hi).get, if_pos rfl, Option.bind_some, if_neg hne]
  obtain ⟨from_j, hj⟩ := h j
  exact hj.redirected hup ⟨_, .step hself hw'⟩

theorem grounded_rename {p' : Nat} (h : ∀ i, t.Grounded i) (hb : ¬ t.AtOrBelow i p') (n' : String)
    (j : Nat) : (t.rename i p' n').Grounded j := by
  rcases rename_cases t i p' n' with ⟨-, hsame⟩ | ⟨e, he, hren⟩
  · rw [hsame]
    exact h j
  · have hup : ∀ k, k ≠ i → (t.rename i p' n').up k = t.up k ∨ (t.rename i p' n').up k = none := by
      intro k hk
      have hget : (t.rename i p' n').get k = (t.evictName p' n' i).get k := by
        rw [hren.get, if_neg hk]
      rw [up_congr hget]
      exact up_evictName ..
    obtain ⟨nodes, hw⟩ := h p'
    have hparent : (t.rename i p' n').Grounded p' := by
      refine hw.within (P := fun k => ¬ t.AtOrBelow i k) hb (fun k m hk hkm hm => ?_)
        fun k hk => hup k ?_
      · obtain ⟨e', he', -, rfl⟩ := up_eq_some hkm
        exact hk (.child he' hm)
      · rintro rfl
        exact hk .self
    obtain ⟨nodes', hw'⟩ := hparent
    have hself : (t.rename i p' n').up i = some p' := by
      have hne : ¬ i = p' := by
        rintro rfl
        exact hb .self
      rw [up, hren.get, if_pos rfl, Option.bind_some, if_neg hne]
    obtain ⟨from_j, hj⟩ := h j
    exact hj.redirected hup ⟨_, .step hself hw'⟩

theorem grounded_syncChild (hc : Parented t) (h : ∀ i, t.Grounded i) {p : Nat}
    (hp : t.Used p) (c : ChildInfo) (j : Nat) : (t.syncChild p c).Grounded j := by
  unfold syncChild
  split
  · rename_i ino _
    split
    · refine (h j).of_up (up_getMut (fun e => ?_) t ino)
      rfl
    · exact grounded_insert (hc.remove ino) (fun i => (h i).remove ino) rfl
        (hp.congr (nextInode_remove ..)) j
  · exact grounded_insert hc h rfl hp j

theorem grounded_syncChildren (hc : Parented t) (h : ∀ i, t.Grounded i) {p : Nat}
    (hp : t.Used p) (cs : List ChildInfo) (j : Nat) : (t.syncChildren p cs).Grounded j := by
  suffices hfold : ∀ i, (cs.foldl (fun t c => t.syncChild p c) t).Grounded i from
    (hfold j).removeAll _
  induction cs generalizing t with
  | nil => exact h
  | cons c cs ih =>
    exact ih (hc.syncChild hp c) (grounded_syncChild hc h hp c)
      (hp.mono (nextInode_le_syncChild t p c))

theorem grounded_new (i : Nat) : new.Grounded i := by
  refine ⟨[], .stop ?_⟩
  rw [up, get_new]
  split
  · rename_i hi
    rw [hi]
    rfl
  · rfl

end InodeTable

/-! ## Every run -/

namespace TableOp

/-- The new parent of a rename is neither the entry nor below it. -/
def KeepsApart (t : InodeTable) : TableOp → Prop
  | rename inode newParent _ => ¬ t.AtOrBelow inode newParent
  | _ => True

/-- The parents that an operation is given are numbers in use. -/
def BelowUsed (t : InodeTable) : TableOp → Prop
  | addObject parent .. => t.Used parent
  | syncChildren parent _ => t.Used parent
  | rename _ newParent _ => t.Used newParent
  | _ => True

end TableOp

/-- A table that operations with `P`, and edits of entries that leave the parent
as it is, make of a new one. -/
inductive Built (P : InodeTable → TableOp → Prop) : InodeTable → Prop
  | new : Built P .new
  | op {t : InodeTable} {o : TableOp} : Built P t → P t o → Built P (o.apply t)
  | edit {t : InodeTable} {f : InodeEntry → InodeEntry} (i : Nat) :
      Built P t → (∀ e, (f e).parent = e.parent) → Built P (t.getMut i f)

namespace InodeTable

variable {t : InodeTable} {o : TableOp}

theorem parented_apply (hc : Parented t) (hk : o.KeepsApart t) (ho : o.BelowUsed t) :
    Parented (o.apply t) := by
  cases o with
  | addStorageAt => exact hc.insert rfl hc.rootUsed
  | addObject => exact hc.insert rfl ho
  | syncChildren p cs => exact hc.syncChildren ho cs
  | remove i => exact hc.remove i
  | rename i p' n' =>
    refine hc.rename ho ?_ n'
    rintro rfl
    exact hk .self
  | setHandle i handle =>
    refine hc.getMut (fun e => ?_) i
    split <;> rfl
  | setStorageId i storageId =>
    refine hc.getMut (fun e => ?_) i
    split <;> rfl
  | bumpGeneration => exact hc.of_parents (Nat.le_refl _) fun _ e he => .inl ⟨e, he, rfl⟩

/-- An operation leaves no inode without an end. -/
theorem grounded_apply (hc : Parented t) (h : ∀ i, t.Grounded i) (hk : o.KeepsApart t)
    (ho : o.BelowUsed t) (j : Nat) : (o.apply t).Grounded j := by
  cases o with
  | addStorageAt => exact grounded_insert hc h rfl hc.rootUsed j
  | addObject =>
    refine grounded_insert hc h rfl ?_ j
    exact ho
  | syncChildren p cs => exact grounded_syncChildren hc h ho cs j
  | remove i => exact (h j).remove i
  | rename i p' n' => exact grounded_rename h hk n' j
  | setHandle i handle => exact (h j).of_up (up_setHandle t i handle)
  | setStorageId i storageId => exact (h j).of_up (up_setStorageId t i storageId)
  | bumpGeneration => exact (h j).of_up rfl

end InodeTable

namespace Built

variable {t : InodeTable}

theorem parented (h : Built (fun t o => o.KeepsApart t ∧ o.BelowUsed t) t) : t.Parented := by
  induction h with
  | new => exact InodeTable.parented_new
  | op _ ho ih => exact InodeTable.parented_apply ih ho.1 ho.2
  | edit i _ hf ih => exact ih.getMut hf i

theorem grounded (h : Built (fun t o => o.KeepsApart t ∧ o.BelowUsed t) t) (i : Nat) :
    t.Grounded i := by
  induction h generalizing i with
  | new => exact InodeTable.grounded_new i
  | op hb ho ih => exact InodeTable.grounded_apply hb.parented ih ho.1 ho.2 i
  | edit j _ hf ih => exact (ih i).of_up (InodeTable.up_getMut hf _ j)

end Built

/-- What the mount does to a table is such a run. -/
theorem TableRun.built {hs : List Nat} {t : InodeTable} (h : TableRun hs t) :
    Built (fun t o => o.KeepsApart t ∧ o.BelowUsed t) t := by
  induction h with
  | new => exact .new
  | @step _ t o _ ha ih =>
    have hlive : ∀ {i}, t.IsLiveDir i → t.Used i := fun ⟨e, he, _⟩ => ih.parented.used _ e he
    refine .op ih ?_
    cases o with
    | addObject => exact ⟨trivial, hlive ha⟩
    | syncChildren => exact ⟨trivial, hlive ha⟩
    | rename => exact ⟨ha.2.2, hlive ha.2.1⟩
    | _ => exact ⟨trivial, trivial⟩

/-- In every run of the table the way up from every number has an end. -/
theorem TableRun.grounded {hs : List Nat} {t : InodeTable} (h : TableRun hs t) (i : Nat) :
    t.Grounded i :=
  h.built.grounded i

/-! ## The two walks -/

namespace InodeTable.Grounded

variable {t : InodeTable} {l : Link} {i : Nat}

/-- A walk up has fewer steps than the fuel of the loops. -/
theorem short (h : t.Grounded i) : ∃ nodes, Walk t.up i nodes ∧ nodes.length < walkFuel t := by
  obtain ⟨nodes, hw⟩ := h
  refine ⟨nodes, hw, Nat.lt_succ_of_le (hw.length_le fun j hj => ?_)⟩
  obtain ⟨k, hk⟩ := Option.isSome_iff_exists.mp hj
  obtain ⟨e, he, -⟩ := up_eq_some hk
  have hsome : (t.entries.lookup j).isSome = true := by
    rw [show t.entries.lookup j = some e from he]
    rfl
  exact AList.mem_keys.mp (AList.lookup_isSome.mp hsome)

theorem findStorageFrom (h : l.inodes.Grounded i) :
    findStorageFrom l (walkFuel l.inodes) i ≠ none := by
  obtain ⟨nodes, hw, hlt⟩ := h.short
  clear h
  generalize walkFuel l.inodes = fuel at hlt
  induction hw generalizing fuel with
  | stop hstop =>
    obtain _ | fuel := fuel
    · cases hlt
    · rw [MtpMount.findStorageFrom]
      split
      · nofun
      · rename_i e he
        rw [up, he, Option.bind_some] at hstop
        split
        · nofun
        · split at hstop
          · rw [if_pos ‹_›]
            nofun
          · cases hstop
  | step hup _ ih =>
    obtain _ | fuel := fuel
    · cases hlt
    · obtain ⟨e, he, hne, rfl⟩ := up_eq_some hup
      rw [MtpMount.findStorageFrom, he]
      dsimp only
      split
      · nofun
      · rw [if_neg hne]
        exact ih fuel (Nat.lt_of_succ_lt_succ hlt)

theorem chainFrom (h : t.Grounded i) (chain : List Nat) :
    chainFrom t (walkFuel t) i chain ≠ none := by
  obtain ⟨nodes, hw, hlt⟩ := h.short
  clear h
  generalize walkFuel t = fuel at hlt
  induction hw generalizing fuel chain with
  | stop hstop =>
    obtain _ | fuel := fuel
    · cases hlt
    · rw [MtpMount.chainFrom]
      split
      · nofun
      · rename_i e he
        rw [up, he, Option.bind_some] at hstop
        split
        · nofun
        · nofun
        · split at hstop
          · rw [if_pos ‹_›]
            nofun
          · cases hstop
  | step hup _ ih =>
    obtain _ | fuel := fuel
    · cases hlt
    · obtain ⟨e, he, hne, rfl⟩ := up_eq_some hup
      rw [MtpMount.chainFrom, he]
      dsimp only
      split
      · nofun
      · nofun
      · rw [if_neg hne]
        exact ih _ fuel (Nat.lt_of_succ_lt_succ hlt)

end InodeTable.Grounded

/-! ## To the root or to a removed inode -/

namespace InodeTable

/-- Each of `path` is a live inode whose parent is the next one, the last apart. -/
def Ascends (t : InodeTable) (path : List Nat) : Prop :=
  path.IsChain fun i p => ∃ e, t.get i = some e ∧ e.parent = p

/-- The parents of `i` lead to the root or to a number that was handed out and is
no longer live, and come to none twice. -/
def Ends (t : InodeTable) (i : Nat) : Prop :=
  ∃ path last, path.head? = some i ∧ path.getLast? = some last ∧ t.Ascends path ∧ path.Nodup ∧
    (last = FUSE_ROOT_INODE ∨ t.Used last ∧ t.get last = none)

/-- An ascent does not leave what the parents stay in. -/
theorem Ascends.last {t : InodeTable} {P : Nat → Prop} {path : List Nat} {i last : Nat}
    (h : t.Ascends path) (hP : ∀ i e, P i → t.get i = some e → P e.parent)
    (hi : path.head? = some i) (hl : path.getLast? = some last) (hPi : P i) : P last := by
  induction path generalizing i with
  | nil => cases hi
  | cons j path ih =>
    cases hi
    cases path with
    | nil =>
      cases hl
      exact hPi
    | cons k path =>
      obtain ⟨⟨e, he, rfl⟩, hrest⟩ := List.isChain_cons_cons.mp h
      exact ih hrest rfl (List.getLast?_cons_cons ▸ hl) (hP _ e hPi he)

theorem Grounded.ends {t : InodeTable} {i : Nat} {e : InodeEntry} (h : t.Grounded i)
    (hc : Parented t) (he : t.get i = some e) : t.Ends i := by
  obtain ⟨nodes, hw⟩ := h
  have hup : ∀ j k, t.up j = some k → t.Used k := by
    intro j k hjk
    obtain ⟨e', he', -, rfl⟩ := up_eq_some hjk
    exact hc.parentUsed j e' he'
  obtain ⟨last, hused, hlast, hhead, hnodup, hchain⟩ := hw.whole (hc.used i e he) hup
  refine ⟨nodes ++ [last], last, hhead, List.getLast?_concat, hchain.imp ?_, hnodup, ?_⟩
  · intro a b hab
    obtain ⟨e', he', -, hb⟩ := up_eq_some hab
    exact ⟨e', he', hb⟩
  · cases hg : t.get last with
    | none => exact .inr ⟨hused, rfl⟩
    | some e' =>
      rw [up, hg, Option.bind_some] at hlast
      split at hlast
      · exact .inl (hc.ownParent last e' hg (Eq.symm ‹_›))
      · cases hlast

end InodeTable

/-- Where no rename goes below itself and every parent given is a number in use,
the parents of every live inode come to an end, and with them the loops of
`find_storage_index` and of `ensure_fresh`. -/
theorem parents_end {t : InodeTable} (h : Built (fun t o => o.KeepsApart t ∧ o.BelowUsed t) t) :
    (∀ i e, t.get i = some e → t.Ends i) ∧
      (∀ i l, l.inodes = t → findStorageFrom l (walkFuel t) i ≠ none) ∧
      ∀ i chain, chainFrom t (walkFuel t) i chain ≠ none := by
  refine ⟨fun i e he => (h.grounded i).ends h.parented he, fun i l hl => ?_,
    fun i chain => (h.grounded i).chainFrom chain⟩
  subst hl
  exact (h.grounded i).findStorageFrom

/-- The folder whose parent was removed leads to the number of the parent. -/
theorem parents_end_orphan :
    (TableRun.sampleTable.get 5).isSome = true ∧ TableRun.sampleTable.Ends 5 := by
  have hlive : (TableRun.sampleTable.get 5).isSome = true := by decide
  obtain ⟨e, he⟩ := Option.isSome_iff_exists.mp hlive
  exact ⟨hlive, (parents_end TableRun.sample_run.built).1 5 e he⟩

/-- Two folders: one below 3 before 3 is handed out, and one below it that gets 3. -/
def circleTable : InodeTable :=
  ((InodeTable.new.addObject 3 ⟨10⟩ "a" true 0 0).2.addObject 2 ⟨11⟩ "b" true 0 0).2

/-- Below a number that was not handed out the folders become each other's parents. -/
theorem parent_circle :
    Built (fun t o => o.KeepsApart t) circleTable ∧ (circleTable.get 2).isSome = true ∧
      ¬ circleTable.Ends 2 ∧ ∀ fuel, chainFrom circleTable fuel 2 [] = none ∧
        ∀ l, l.inodes = circleTable → findStorageFrom l fuel 2 = none := by
  refine ⟨?_, rfl, ?_, fun fuel => ⟨?_, fun l hl => ?_⟩⟩
  · have hfirst := Built.op (P := fun t o => o.KeepsApart t)
      (o := .addObject 3 ⟨10⟩ "a" true 0 0) .new trivial
    exact .op (o := .addObject 2 ⟨11⟩ "b" true 0 0) hfirst trivial
  · rintro ⟨path, last, hhead, hlast, hascends, -, hend⟩
    have hstays : last = 2 ∨ last = 3 := by
      refine hascends.last (P := fun i => i = 2 ∨ i = 3) ?_ hhead hlast (.inl rfl)
      rintro i e (rfl | rfl) he
      · exact .inr (Option.some.inj he ▸ rfl)
      · exact .inl (Option.some.inj he ▸ rfl)
    rcases hstays with rfl | rfl
    · rcases hend with hroot | ⟨-, hgone⟩
      · cases hroot
      · cases hgone
    · rcases hend with hroot | ⟨-, hgone⟩
      · cases hroot
      · cases hgone
  · suffices h : ∀ chain, chainFrom circleTable fuel 2 chain = none ∧
        chainFrom circleTable fuel 3 chain = none from (h []).1
    induction fuel with
    | zero => exact fun _ => ⟨rfl, rfl⟩
    | succ fuel ih => exact fun chain => ⟨(ih _).2, (ih _).1⟩
  · suffices h : findStorageFrom l fuel 2 = none ∧ findStorageFrom l fuel 3 = none from h.1
    induction fuel with
    | zero => exact ⟨rfl, rfl⟩
    | succ fuel ih =>
      rw [findStorageFrom, findStorageFrom, hl]
      exact ⟨ih.2, ih.1⟩

end MtpMount
