import MtpMount.Synced

/-!
# One attempt after another

An operation is tried again after a lost session or a stale handle, and every
attempt finds the device as the last one left it.

* `OnCourse`: what holds before and after each attempt, as long as none succeeds;
* `recovery_onCourse`, `withRecovery_onCourse`: what every attempt keeps, trying again
  keeps;
* `resolved_onCourse`, `looksUp_still`: looking up handles leads off no course.
-/

namespace MtpMount

open Interaction

variable {E α : Type} {R : Answers Call Answer E}

/-- What the recovery asks changes nothing, and it hears of the device's own storages. -/
structure ComesBack (N : Naming) (stores : List Nat) (R : Answers Call Answer E) : Prop where
  still : ∀ {e e' c} {a : Answer c}, c.isRecovery = true → R e c a e' → e' = e
  tells : ∀ {e e' device infos}, R e (.storages device) (.ok infos) e' →
    N.Tells stores device.session infos

/-- The tree and its storages are as they were, and the fresh handles are right for
what has come of the device; or `K`, and they do not matter any more. -/
def OnCourse (N : Naming) (stores : List Nat) (t : InodeTable)
    (D : Nat → E → Nat → ObjectHandle → Prop) (J K : E → Prop) (l : Link) (e : E) : Prop :=
  Synced N stores t l ∧ (J e ∧ l.Denotes (D l.device.session) e ∨ K e)

section

variable {N : Naming} {stores : List Nat} {t : InodeTable} {D : Nat → E → Nat → ObjectHandle → Prop}
  {J K : E → Prop} {attempt : MtpM α} {Q : α → Link → E → Prop} {l l' : Link} {e e' : E}

/-- When every handle is stale, none is wrong. -/
theorem OnCourse.of_nothingFresh (h : OnCourse N stores t D J K l e) (hs : Synced N stores t l')
    (hn : l'.inodes.NothingFresh) : OnCourse N stores t D J K l' e :=
  ⟨hs, h.2.imp (fun hJ => ⟨hJ.1, .of_nothingFresh hn⟩) id⟩

/-- Handles were looked up, and that is all that happened. -/
theorem resolved_onCourse {F : E → E → Prop} {P : Nat → Prop} (hs : Synced N stores t l)
    (hres : Resolved F (D l.device.session) P l e l' e') :
    Synced N stores t l' ∧ l'.device = l.device ∧ l'.storages = l.storages ∧
      l'.Denotes (D l'.device.session) e' := by
  have hdev : l'.device = l.device := by rw [hres.refreshes.rest]
  refine ⟨hs.refreshes hres.refreshes, hdev, by rw [hres.refreshes.rest], ?_⟩
  rw [hdev]
  exact hres.denotes

/-- Nothing is asked of the handles. -/
theorem looksUp_still {G : E → Call → Prop} (hR : ∀ {e e' storage parent answer},
      R e (.listObjects storage parent) answer e' → e' = e) (l : Link) (hang : G e .hang)
    (hlist : ∀ storage parent, G e (.listObjects storage parent)) (inode : Nat) :
    LooksUp R G (fun e e' => e' = e) (fun _ _ _ => True) (fun _ => True) l e inode where
  refl := fun _ => rfl
  trans := fun h h' => h'.trans h
  keeps := fun _ h => h
  hang := hang
  missing := fun _ => trivial
  listing := by
    rintro nodes top idx storage below node above entry parent e₁ rfl _ _ _ _ _ _
    refine ⟨hlist _ _, fun answer e₂ hr => ⟨hR hr, ?_⟩⟩
    rcases answer with err | objects
    · trivial
    · exact ⟨fun _ => trivial, fun _ _ => trivial⟩

/-- What every attempt keeps, also when it fails, trying again keeps: the course, and
what `B` says beside the link if `V` is said of the devices that it comes back with. -/
theorem recovery_onCourse {σ : Type} [HasLink σ] {G : E → Call → Prop} {B : σ → Prop}
    {V : MtpDevice → Prop} {attempt : Attempt Call Answer σ Error α} {Q : α → σ → E → Prop} {x : σ}
    (hR : ComesBack N stores R)
    (hV : ∀ {e e' device}, R e .openDevice (.ok device) e' → V device)
    (hG : ∀ {e c}, J e ∨ K e → G e c)
    (hB : ∀ {x l}, B x → l.device = (HasLink.link x).device ∨ V l.device → B (HasLink.setLink x l))
    (hnodup : (t.children FUSE_ROOT_INODE).Nodup) (hN : N.Distinct stores)
    (hattempt : ∀ x e, OnCourse N stores t D J K (HasLink.link x) e → B x →
      Attempt.wp R G attempt Q
        (fun _ x' e' => OnCourse N stores t D J K (HasLink.link x') e' ∧ B x') x e)
    (h : OnCourse N stores t D J K (HasLink.link x) e) (hb : B x) :
    Attempt.wp R G (withRecovery attempt) Q
      (fun _ x' e' => OnCourse N stores t D J K (HasLink.link x') e' ∧ B x') x e := by
  have hany : ∀ {l e}, OnCourse N stores t D J K l e → J e ∨ K e := fun h => h.2.imp And.left id
  have hrec : Recoverable R G attempt
      (fun _ x e => OnCourse N stores t D J K (HasLink.link x) e ∧ B x) Q
      (fun _ _ x e => OnCourse N stores t D J K (HasLink.link x) e ∧ B x)
      (fun _ x e => OnCourse N stores t D J K (HasLink.link x) e ∧ B x) := by
    refine ⟨fun {n x e} h => ⟨hG (hany h.1), fun out e' hr => ?_⟩,
      fun {n x e} h => hattempt x e h.1 h.2, fun {n x e err} h _ => ?_, fun {n x e err} h _ => ?_,
      fun h _ => h, fun h => h⟩
    · rw [hR.still rfl hr]
      split
      · exact h
      · exact h
    · refine invalidateHandles_does (hG (hany h.1)) fun u e' hr => ?_
      rw [hR.still rfl hr, HasLink.link_setLink]
      exact ⟨h.1.of_nothingFresh h.1.1.invalidateHandles h.1.1.dated.nothingFresh, hB h.2 (.inl rfl)⟩
    · rw [wp_onLinkM]
      have hopen : Reopens R G (fun e' => e' = e)
          (fun device infos => V device ∧ N.Tells stores device.session infos) := by
        refine ⟨fun {e₁ c} hc he => ⟨?_, fun a e' hr => (hR.still hc hr).trans he⟩,
          fun _ hr hr' => ⟨hV hr, hR.tells hr'⟩⟩
        rw [he]
        exact hG (hany h.1)
      refine Attempt.wp_mono (reconnect_brings hopen rfl) ?_ ?_
      · rintro _ l' e' ⟨rfl, device, infos, ⟨hv, htells⟩, rfl⟩
        rw [HasLink.link_setLink]
        have hfresh := (h.1.1.dated.operated (Link.remapStorages_operated
          (device.bindStorages infos) (HasLink.link x).inodes)).nothingFresh
        exact ⟨h.1.of_nothingFresh (h.1.1.adopted hnodup hN htells) hfresh, hB h.2 (.inr hv)⟩
      · rintro err l' e' ⟨rfl, -, reason, rfl⟩
        rw [HasLink.link_setLink]
        exact ⟨⟨h.1.1.giveUp reason, h.1.2⟩, hB h.2 (.inl rfl)⟩
  exact hrec.wp ⟨h, hb⟩

/-- The same of attempts that work on the link alone. -/
theorem withRecovery_onCourse (hR : ComesBack N stores R)
    (hnodup : (t.children FUSE_ROOT_INODE).Nodup) (hN : N.Distinct stores)
    (hattempt : ∀ l e, OnCourse N stores t D J K l e →
      Attempt.wp R (fun _ _ => True) attempt Q (fun _ l' e' => OnCourse N stores t D J K l' e') l e)
    (h : OnCourse N stores t D J K l e) :
    Attempt.wp R (fun _ _ => True) (withRecovery attempt) Q
      (fun _ l' e' => OnCourse N stores t D J K l' e') l e := by
  refine Attempt.wp_mono (recovery_onCourse (B := fun _ => True) (V := fun _ => True) hR
    (fun _ => trivial) (fun _ => trivial) (fun _ _ => trivial) hnodup hN ?_ h trivial)
    (fun _ _ _ h' => h') fun _ _ _ h' => h'.1
  intro x e hx _
  exact Attempt.wp_mono (hattempt x e hx) (fun _ _ _ h' => h') fun _ _ _ h' => ⟨h', trivial⟩

/-- The storage that the source's walk finds for an inode with a path. -/
theorem Synced.storageOf_wp {G : E → Call → Prop} {Q : Storage → Link → E → Prop}
    {X : Error → Link → E → Prop} {i st : Nat} {names : List String} (h : Synced N stores t l)
    (ht : t.Rooted) (hN : N.Distinct stores) (hp : PathOf N stores t i st names) (hang : G e .hang)
    (hQ : ∀ storage, storage.session = l.device.session →
      N.store l.device.session storage.id = some st → Q storage l e) :
    Attempt.wp R G (storageOf i) Q X l e := by
  obtain ⟨idx, storage, hidx, hget, -, hses, hst⟩ := h.storageFor ht hN hp
  unfold storageOf
  rw [Attempt.wp_bind]
  refine storageIndex_wp (fun _ => hang) (fun i hi => ?_) fun hi => ?_
  · cases hidx.symm.trans hi
    exact storageAt_wp hget (hQ storage hses hst)
  · cases hidx.symm.trans hi

end

end MtpMount
