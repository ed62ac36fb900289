import MtpMount.RangedRead
import MtpMount.SafeFlush

/-!
# Reading a file in its place

* `Sized`: the size of a file in the table, which an upload alone changes;
* `FileAt.InPlace.fetchChunk`: a chunk that is fetched is one of the content.
-/

namespace MtpMount

open Interaction

variable {E : Type} {R : Answers Call Answer E} {G : E → Call → Prop}

/-! ## The size in the table -/

/-- The entry of the inode has this size. -/
def Sized (i n : Nat) (l : Link) : Prop := (l.inodes.get i).map InodeEntry.size = some n

/-- Nothing but an upload changes a size. -/
theorem resolving_sized (hG : ∀ e c, c.isMutation = false → G e c) (i n : Nat) :
    Resolving R G (fun l _ => Sized i n l) (fun _ _ => True) where
  token := fun _ _ => trivial
  aside := fun hc h => ⟨hG _ _ (Call.isMutation_of_isAside hc), fun _ _ _ => ⟨h, fun _ h => h⟩⟩
  query := fun hc _ h _ _ => ⟨hG _ _ hc, fun _ _ _ => ⟨h, fun _ h => h, fun _ _ => trivial⟩⟩
  setHandle := by
    intro l e node a h _
    unfold Sized
    dsimp only
    rw [InodeTable.get_setHandle]
    split
    · rename_i hi
      rw [← hi, Option.map_map, ← h]
      refine congrArg (Option.map · _) (funext fun entry => ?_)
      simp only [Function.comp]
      split <;> rfl
    · exact h
  giveUp := fun h => h
  invalidate := fun h => ⟨hG _ _ rfl, fun _ _ _ => h⟩
  reopen := fun {l e} h => ⟨hG _ _ rfl, fun _ _ _ => ⟨h, fun _ _ => ⟨hG _ _ rfl, fun _ _ _ => ⟨h,
    fun _ _ => ⟨hG _ _ rfl, fun _ _ _ => ⟨hG _ _ rfl, fun _ _ _ => by
      refine Link.remapStorages_induction (P := fun t => (t.get i).map InodeEntry.size = some n)
        (fun t ino sid ht => ?_) _ h
      rw [InodeTable.setStorageId, InodeTable.get_getMut]
      split
      · rename_i hi
        rw [← hi, Option.map_map, ← ht]
        refine congrArg (Option.map · _) (funext fun entry => ?_)
        simp only [Function.comp]
        split <;> rfl
      · exact ht⟩⟩⟩⟩⟩⟩

theorem flushInvariant_sized (i n : Nat) :
    FlushInvariant R (fun _ _ => True) (fun l _ => Sized i n l) (fun _ _ => True) (fun _ => True)
      (fun v inode l _ => Sized inode v.length l) where
  toResolving := resolving_sized (fun _ _ _ => trivial) i n
  mutation := fun _ _ _ h _ _ => ⟨trivial, fun _ _ _ => ⟨h, fun _ h => h, fun _ _ => trivial⟩⟩
  record := by
    intro l e e' v storage a name now inode _ _ _ hfile _ _
    obtain ⟨entry, b, he, -⟩ := hfile
    unfold Sized
    dsimp only
    rw [InodeTable.recordUpload, InodeTable.get_getMut, if_pos rfl, he]
    rfl

/-! ## A chunk of a file in its place -/

section

variable {N : Naming} {stores : List Nat} {s : Phone} {l : Link} {i st : Nat} {name : String}
  {names : List String} {folder : Option Nat} {v : Bytes}

/-- Whatever the recovery does in between, a chunk that comes in is one of the content, and
the file stays in its place. -/
theorem FileAt.InPlace.fetchChunk {cursor n : Nat}
    (h : InPlace N stores i st name names folder v l s) (hsize : Sized i v.length l) :
    Attempt.wp (N.Keeps stores) (fun _ _ => True) (fetchChunk i cursor n)
      (fun bytes l' s' => (s' = s ∧ InPlace N stores i st name names folder v l' s' ∧
        ∀ j < bytes.length, cursor + j < v.length → bytes.getD j 0 = v.getD (cursor + j) 0) ∧
          Sized i v.length l')
      (fun _ l' s' => (s' = s ∧ InPlace N stores i st name names folder v l' s') ∧
        Sized i v.length l') l s := by
  obtain ⟨hcapable, entry, o, hat, rfl, hholds⟩ := h
  have hwp : ∀ {l₁ : Link} {s₁ : Phone}, l₁.device.Capable →
      Reached.Trying N stores l s (OnChain l.inodes i) (fun s' => s' = s) l₁ s₁ →
      s₁ = s ∧ InPlace N stores i st entry.name names folder v l₁ s₁ := by
    rintro l₁ s₁ hcap ⟨hs, htrying⟩
    obtain ⟨rfl, hD⟩ := htrying.resolve_right id
    obtain ⟨entry', hat', hname⟩ := hat.again hs hD (.refl s₁) (tempUploadName_ne entry.name).symm
    exact ⟨rfl, hcap, entry', o, hat', hname, hholds⟩
  refine Attempt.wp_and ?_ (keeps_fetchChunk (resolving_sized (G := fun _ _ => True)
    (fun _ _ _ => trivial) i v.length) i cursor n l s hsize)
  unfold MtpMount.fetchChunk
  refine Attempt.wp_mono (recovery_onCourse (x := l) (B := fun l : Link => l.device.Capable)
    (V := MtpDevice.Capable) (J := fun s' => s' = s) (K := fun _ => False)
    (D := Leads N stores l.inodes s (OnChain l.inodes i))
    (Q := fun bytes l' s' => s' = s ∧ InPlace N stores i st entry.name names folder v l' s' ∧
        ∀ j < bytes.length, cursor + j < v.length → bytes.getD j 0 = v.getD (cursor + j) 0)
    N.comesBack_keeps (fun hr => hr.2 _ rfl) (fun _ => trivial)
    (fun hold hdev => hdev.elim (fun hsame => hsame ▸ hold) id) hat.reached.nodup hat.distinct
    ?_ (hat.reached.start rfl) hcapable) (fun _ _ _ h' => h') fun _ _ _ h' => hwp h'.2 h'.1
  intro l₁ s₁ ht hcap
  obtain rfl : s₁ = s := (ht.2.resolve_right id).1
  have hway := hat.untouched (.refl s₁) (tempUploadName_ne entry.name).symm
  rw [Attempt.wp_bind]
  refine Attempt.wp_mono (hat.reached.fileHandle_wp N.tellsTruth_keeps (fun _ => trivial)
    (fun _ => id) ht hway) ?_ ?_
  · rintro a l₂ s₂ ⟨rfl, ht₂, ⟨hdev₂, -⟩, x, ha, hx⟩
    cases hx
    have hcap₂ : l₂.device.Capable := by
      rw [hdev₂]
      exact hcap
    rw [Attempt.wp_bind]
    refine ht₂.1.storageOf_wp hat.synced.rooted hat.distinct hat.path trivial ?_
    intro storage hses hst
    refine wp_call.mpr ⟨trivial, fun answer s₃ hr => ?_⟩
    obtain rfl : s₃ = s₂ := hr.1
    rcases answer with err | bytes
    · exact ⟨ht₂, hcap₂⟩
    · obtain ⟨obj, hobj, -, -, hcontent⟩ := hholds
      rw [← hses] at ha
      exact ⟨rfl, (hwp hcap₂ ht₂).2, hr.2 bytes o obj v rfl ha hobj hcontent⟩
  · rintro err l₂ s₂ ⟨rfl, ht₂, hdev₂⟩
    refine ⟨ht₂, ?_⟩
    show MtpDevice.Capable l₂.device
    rw [hdev₂]
    exact hcap

end

end MtpMount
