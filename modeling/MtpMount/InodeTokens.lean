import MtpMount.InodeIndex

/-!
# The tokens of the inode table

Which handles the fresh entries carry. `Fed P t u` says that a table `u` came
from `t` with no handles but those of `P` added; every operation that is given
handles of `P` is such a step, and `Tokens.fed` carries the invariant across.

* `Tokens P t`: every fresh file or directory entry has a handle of `P`;
* `Tokens.bumpGeneration`: after a bump that holds for any `P`.
-/

namespace MtpMount.InodeTable

variable {t u v : InodeTable} {P : ObjectHandle → Prop} {i j p : Nat}

/-- No entry is newer than the table, and those of its own generation carry
handles of `P`. -/
structure Tokens (P : ObjectHandle → Prop) (t : InodeTable) : Prop where
  bound : ∀ i e, t.get i = some e → e.generation ≤ t.generation
  known : ∀ i e h, t.get i = some e → e.generation = t.generation → e.kind.handle? = some h → P h

/-- Every entry of `u` has the token of an entry of `t`, or a fresh one of `P`. -/
structure Fed (P : ObjectHandle → Prop) (t u : InodeTable) : Prop where
  generation : u.generation = t.generation
  entry : ∀ i e, u.get i = some e →
    (∃ j e', t.get j = some e' ∧ e'.generation = e.generation ∧
      e'.kind.handle? = e.kind.handle?) ∨
    (e.generation = t.generation ∧ ∀ h, e.kind.handle? = some h → P h)

theorem Fed.refl (P : ObjectHandle → Prop) (t : InodeTable) : Fed P t t where
  generation := rfl
  entry := fun i e he => .inl ⟨i, e, he, rfl, rfl⟩

theorem Fed.trans (h : Fed P t u) (h' : Fed P u v) : Fed P t v where
  generation := h'.generation.trans h.generation
  entry := fun i e he => by
    rcases h'.entry i e he with ⟨j, e', hj, hg, hk⟩ | ⟨hg, hk⟩
    · rcases h.entry j e' hj with ⟨j', e'', hj', hg', hk'⟩ | ⟨hg', hk'⟩
      · exact .inl ⟨j', e'', hj', hg'.trans hg, hk'.trans hk⟩
      · exact .inr ⟨hg.symm.trans hg', fun a ha => hk' a (hk.trans ha)⟩
    · exact .inr ⟨hg.trans h.generation, hk⟩

theorem Tokens.fed (h : Tokens P t) (hf : Fed P t u) : Tokens P u where
  bound := fun i e he => by
    rw [hf.generation]
    rcases hf.entry i e he with ⟨j, e', hj, hg, -⟩ | ⟨hg, -⟩
    · exact hg ▸ h.bound j e' hj
    · exact Nat.le_of_eq hg
  known := fun i e a he hg ha => by
    rw [hf.generation] at hg
    rcases hf.entry i e he with ⟨j, e', hj, hg', hk⟩ | ⟨-, hk⟩
    · exact h.known j e' a hj (hg'.trans hg) (hk.trans ha)
    · exact hk a ha

theorem Tokens.mono {P' : ObjectHandle → Prop} (h : Tokens P t) (hP : ∀ a, P a → P' a) :
    Tokens P' t where
  bound := h.bound
  known := fun i e a he hg ha => hP a (h.known i e a he hg ha)

theorem tokens_new (P : ObjectHandle → Prop) : Tokens P new where
  bound := fun i e he => by
    rw [get_new] at he
    split at he
    · cases he
      exact Nat.le_refl _
    · cases he
  known := fun i e a he _ ha => by
    rw [get_new] at he
    split at he
    · cases he
      cases ha
    · cases he

/-- A bump leaves no fresh token. -/
theorem Tokens.bumpGeneration {P' : ObjectHandle → Prop} (h : Tokens P t) :
    Tokens P' t.bumpGeneration where
  bound := fun i e he => Nat.le_succ_of_le (h.bound i e he)
  known := fun i e _ he hg _ => by
    have hle := h.bound i e he
    have hg' : e.generation = t.generation + 1 := hg
    omega

/-! ## One step for every operation -/

theorem Fed.getMut (i : Nat) {f : InodeEntry → InodeEntry}
    (hf : ∀ e, ((f e).generation = e.generation ∧ (f e).kind.handle? = e.kind.handle?) ∨
      ((f e).generation = t.generation ∧ ∀ h, (f e).kind.handle? = some h → P h)) :
    Fed P t (t.getMut i f) where
  generation := rfl
  entry := fun j e he => by
    rw [get_getMut] at he
    split at he
    · obtain ⟨e', he', rfl⟩ := Option.map_eq_some_iff.mp he
      rcases hf e' with ⟨hg, hk⟩ | hn
      · exact .inl ⟨i, e', he', hg.symm, hk.symm⟩
      · exact .inr hn
    · exact .inl ⟨j, e, he, rfl, rfl⟩

theorem Fed.setHandle (t : InodeTable) (i : Nat) {h : ObjectHandle} (hh : P h) :
    Fed P t (t.setHandle i h) := by
  refine .getMut i fun e => ?_
  cases hk : e.kind with
  | root => exact .inl ⟨rfl, by rw [hk]⟩
  | storage sid => exact .inl ⟨rfl, by rw [hk]⟩
  | directory a =>
    refine .inr ⟨rfl, fun b hb => ?_⟩
    cases hb
    exact hh
  | file a =>
    refine .inr ⟨rfl, fun b hb => ?_⟩
    cases hb
    exact hh

theorem Fed.setStorageId (P : ObjectHandle → Prop) (t : InodeTable) (i : Nat) (sid : StorageId) :
    Fed P t (t.setStorageId i sid) := by
  refine .getMut i fun e => .inl ?_
  cases hk : e.kind with
  | storage a => exact ⟨rfl, rfl⟩
  | root => exact ⟨rfl, by rw [hk]⟩
  | directory a => exact ⟨rfl, by rw [hk]⟩
  | file a => exact ⟨rfl, by rw [hk]⟩

theorem Fed.remove (P : ObjectHandle → Prop) (t : InodeTable) (i : Nat) : Fed P t (t.remove i) where
  generation := generation_remove t i
  entry := fun j e he => by
    rw [get_remove] at he
    split at he
    · cases he
    · exact .inl ⟨j, e, he, rfl, rfl⟩

theorem Fed.evictName (P : ObjectHandle → Prop) (t : InodeTable) (p : Nat) (n : String)
    (keep : Nat) : Fed P t (t.evictName p n keep) := by
  rcases evictName_cases t p n keep with ⟨h, -⟩ | ⟨i, -, -, h⟩
  · rw [h]
    exact .refl P t
  · rw [h]
    exact .remove P t i

theorem Fed.insert {e : InodeEntry} (hg : e.generation = t.generation)
    (hk : ∀ h, e.kind.handle? = some h → P h) : Fed P t (t.allocInode.2.insert e) where
  generation := (Fed.evictName P t.allocInode.2 e.parent e.name e.inode).generation
  entry := fun j e' he => by
    rw [get_insert] at he
    split at he
    · cases he
      exact .inr ⟨hg, hk⟩
    · have ht : t.allocInode.2.get j = some e' := get_of_get_evictName he
      exact .inl ⟨j, e', ht, rfl, rfl⟩

theorem handle?_ofObject (isDir : Bool) (a : ObjectHandle) :
    (InodeKind.ofObject isDir a).handle? = some a := by
  cases isDir <;> rfl

theorem Fed.addStorageAt (P : ObjectHandle → Prop) (t : InodeTable) (sid : StorageId)
    (name : String) (now : SystemTime) : Fed P t (t.addStorageAt sid name now).2 :=
  .insert rfl fun _ h => nomatch h

theorem Fed.addObject (t : InodeTable) (parent : Nat) {h : ObjectHandle} (hh : P h) (name : String)
    (isDir : Bool) (size : Nat) (mtime : SystemTime) :
    Fed P t (t.addObject parent h name isDir size mtime).2 := by
  refine .insert rfl fun a ha => ?_
  dsimp only at ha
  rw [handle?_ofObject] at ha
  cases ha
  exact hh

theorem Fed.syncChild (t : InodeTable) (parent : Nat) {c : ChildInfo} (hc : P c.handle) :
    Fed P t (t.syncChild parent c) := by
  unfold InodeTable.syncChild
  split
  · split
    · refine .getMut _ fun e => .inr ⟨rfl, fun a ha => ?_⟩
      dsimp only at ha
      rw [handle?_ofObject] at ha
      cases ha
      exact hc
    · exact (Fed.remove P t _).trans (.addObject _ parent hc ..)
  · exact .addObject t parent hc ..

theorem Fed.removeAll (P : ObjectHandle → Prop) (t : InodeTable) (is : List Nat) :
    Fed P t (t.removeAll is) := by
  induction is generalizing t with
  | nil => exact .refl P t
  | cons i is ih => exact (Fed.remove P t i).trans (ih (t.remove i))

theorem Fed.syncChildren (t : InodeTable) (parent : Nat) {cs : List ChildInfo}
    (hc : ∀ c ∈ cs, P c.handle) : Fed P t (t.syncChildren parent cs) := by
  have hf : Fed P t (cs.foldl (fun t c => t.syncChild parent c) t) := by
    induction cs generalizing t with
    | nil => exact .refl P t
    | cons c cs ih =>
      exact (Fed.syncChild t parent (hc c List.mem_cons_self)).trans
        (ih (t.syncChild parent c) fun c' h => hc c' (List.mem_cons_of_mem _ h))
  exact hf.trans (.removeAll P _ _)

theorem Fed.rename (P : ObjectHandle → Prop) (t : InodeTable) (i p' : Nat) (n' : String) :
    Fed P t (t.rename i p' n') := by
  rcases rename_cases t i p' n' with ⟨-, hr⟩ | ⟨e, he, hr⟩
  · rw [hr]
    exact .refl P t
  · refine ⟨?_, fun j e' he' => ?_⟩
    · unfold InodeTable.rename
      have hev := (Fed.evictName P t p' n' i).generation
      split
      · rfl
      · dsimp only
        split
        · exact hev
        · exact hev
    · rw [hr.get] at he'
      split at he'
      · cases he'
        exact .inl ⟨i, e, he, rfl, rfl⟩
      · exact .inl ⟨j, e', get_of_get_evictName he', rfl, rfl⟩

/-! ## Freshness -/

/-- A file or directory entry is fresh when it is of the table's generation. -/
theorem isFresh_iff {e : InodeEntry} {a : ObjectHandle} (he : t.get i = some e)
    (ha : e.kind.handle? = some a) : t.isFresh i = true ↔ e.generation = t.generation := by
  unfold isFresh
  rw [he]
  cases hk : e.kind with
  | root => rw [hk] at ha; cases ha
  | storage sid => rw [hk] at ha; cases ha
  | directory b => simp [hk]
  | file b => simp [hk]

/-- A live entry that is not fresh is a file or a directory. -/
theorem handle?_of_not_isFresh {e : InodeEntry} (he : t.get i = some e)
    (hf : ¬ t.isFresh i = true) : ∃ a, e.kind.handle? = some a := by
  unfold isFresh at hf
  rw [he] at hf
  cases hk : e.kind with
  | root => simp [hk] at hf
  | storage sid => simp [hk] at hf
  | directory a => exact ⟨a, rfl⟩
  | file a => exact ⟨a, rfl⟩

theorem get_setHandle (t : InodeTable) (i : Nat) (h : ObjectHandle) (j : Nat) :
    (t.setHandle i h).get j = if j = i then (t.get i).map fun e =>
      if e.kind.handle?.isSome then
        { e with kind := e.kind.withHandle h, generation := t.generation }
      else e
    else t.get j := by
  unfold setHandle
  rw [get_getMut]
  split
  · congr 1
    funext e
    cases hk : e.kind <;> simp [InodeKind.handle?, InodeKind.withHandle]
  · rfl

theorem handle?_withHandle {k : InodeKind} {a h : ObjectHandle} (ha : k.handle? = some a) :
    (k.withHandle h).handle? = some h := by
  cases k with
  | root => cases ha
  | storage sid => cases ha
  | directory b => rfl
  | file b => rfl

/-- A refreshed handle makes its entry fresh and leaves the others as they are. -/
theorem isFresh_setHandle {e : InodeEntry} {a : ObjectHandle} (he : t.get i = some e)
    (ha : e.kind.handle? = some a) (h : ObjectHandle) (j : Nat) :
    (t.setHandle i h).isFresh j = if j = i then true else t.isFresh j := by
  by_cases hj : j = i
  · subst hj
    have hg := get_setHandle t j h j
    rw [if_pos rfl, he, Option.map_some, if_pos (by rw [ha]; rfl)] at hg
    rw [if_pos rfl]
    exact (isFresh_iff hg (handle?_withHandle ha)).mpr rfl
  · rw [if_neg hj]
    have hg := get_setHandle t i h j
    rw [if_neg hj] at hg
    unfold isFresh
    rw [hg]
    rfl

end MtpMount.InodeTable

/-! ## What an entry is, but for its token -/

namespace MtpMount

/-- Where an entry is and what it is, but for its token. -/
def InodeEntry.place (e : InodeEntry) : Nat × String × InodeKind :=
  (e.parent, e.name, e.kind.withHandle ⟨0⟩)

theorem InodeEntry.file_of_place {e e' : InodeEntry} {a : ObjectHandle} (h : e'.place = e.place)
    (hk : e.kind = .file a) : ∃ b, e'.kind = .file b := by
  simp only [InodeEntry.place, Prod.mk.injEq, hk] at h
  cases hk' : e'.kind <;> simp_all [InodeKind.withHandle]

theorem InodeEntry.token_of_place {e e' : InodeEntry} {a : ObjectHandle} (h : e'.place = e.place)
    (hk : e.kind.handle? = some a) : ∃ b, e'.kind.handle? = some b := by
  simp only [InodeEntry.place, Prod.mk.injEq] at h
  cases hk' : e'.kind <;> cases hk'' : e.kind <;>
    simp_all [InodeKind.withHandle, InodeKind.handle?]

/-- A refreshed handle leaves every entry in its place. -/
theorem InodeTable.place_setHandle (t : InodeTable) (i : Nat) (a : ObjectHandle) (j : Nat) :
    ((t.setHandle i a).get j).map InodeEntry.place = (t.get j).map InodeEntry.place := by
  rw [InodeTable.get_setHandle]
  split
  · rename_i hj
    rw [hj, Option.map_map]
    congr 1
    funext e
    dsimp only [Function.comp_apply]
    split
    · unfold InodeEntry.place
      cases e.kind <;> rfl
    · rfl
  · rfl

end MtpMount
