import MtpMount.FileAt

/-!
# Flushing to a device that keeps its objects

On a device that can rename and delete what it has, a flush puts a new object in the
place of the old one or leaves the old one where it is, whatever else fails.

* `Naming.Keeps`: such a device, which also gives ranges of its objects;
* `FileAt.flushOnce_replaces`: one attempt;
* `FileAt.flushBuffer_replaces`: the whole flush, from a file in its place to a file in
  its place.
-/

namespace MtpMount

open Interaction

/-- The device can rename, and gives ranges of its objects. -/
def MtpDevice.Capable (device : MtpDevice) : Prop :=
  device.supportsRename = true ∧ device.supportsPartialDownload = true

namespace Naming

variable (N : Naming)

/-- Requests may fail, but not one to delete or rename an object that is there. A range
that comes in is one of the object, and what is written to a temp file is stored. -/
def Keeps (stores : List Nat) (s : Phone) (c : Call) (a : Answer c) (s' : Phone) : Prop :=
  N.Fails stores s c a s' ∧ match c, a with
    | .openDevice, answer => ∀ device, answer = .ok device → device.Capable
    | .readRange storage handle cursor _, answer => ∀ bytes o obj v, answer = .ok bytes →
      N.object storage.session handle = some o → s.objects o = some obj → obj.content = some v →
      ∀ j < bytes.length, cursor + j < v.length → bytes.getD j 0 = v.getD (cursor + j) 0
    | .delete storage handle, answer => ∀ err o, answer = .error err →
      N.object storage.session handle = some o → s.objects o = none
    | .rename storage handle _, answer => ∀ err o, answer = .error err →
      N.object storage.session handle = some o → s.objects o = none
    | .writeTemp, fault => fault = none
    | _, _ => True

end Naming

variable {N : Naming} {stores : List Nat} {s₀ s s' : Phone} {l₀ l : Link} {i st o x y : Nat}
  {entry : InodeEntry} {folder : Option Nat} {name : String} {names : List String} {v : Bytes}

theorem Naming.comesBack_keeps : ComesBack N stores (N.Keeps stores) where
  still := fun hc hr => N.comesBack_fails.still hc hr.1
  tells := fun hr => N.comesBack_fails.tells hr.1

theorem Naming.tellsTruth_keeps : TellsTruth N id (N.Keeps stores) where
  still := fun hr => N.tellsTruth_fails.still hr.1
  reports := fun hr => N.tellsTruth_fails.reports hr.1

/-! ## What is left beside the file -/

namespace Phone

theorem Under.of_at (h : s.At st folder name x) : s.Under st folder name x := by
  intro obj hobj
  obtain ⟨obj', hobj', hplace⟩ := h
  cases hobj.symm.trans hobj'
  exact hplace

theorem Beside.drop_under (h : s₀.Beside s st folder name) (hx : s₀.Under st folder name x) (c : Call) :
    s₀.Beside (s.drop x c) st folder name := by
  intro y
  by_cases hy : y = x
  · rw [hy]
    exact .inr ⟨hx, .of_none (if_pos rfl)⟩
  · have hsame : (s.drop x c).objects y = s.objects y := if_neg hy
    exact (h y).imp hsame.trans fun hu => ⟨hu.1, hu.2.of_same hsame⟩

/-- A new object takes the place of the one of its name. -/
theorem replaced {temp : String} {content : Option Bytes} (c c' c'' : Call) (hat : s.At st folder name o)
    (honly : ∀ y, s.At st folder name y → y = o) (hnone : s.objects x = none)
    (hs' : s' = ((s.put x ⟨st, folder, temp, content⟩ c).drop o c').put x ⟨st, folder, name, content⟩ c'') :
    s.Beside s' st folder name ∧ s'.At st folder name x ∧ ∀ y, s'.At st folder name y → y = x := by
  have hnew : s'.objects x = some ⟨st, folder, name, content⟩ := by
    rw [hs']
    exact if_pos rfl
  have hother : ∀ y, y ≠ x → s'.objects y = if y = o then none else s.objects y := by
    intro y hyx
    rw [hs']
    refine (if_neg hyx).trans ?_
    by_cases hyo : y = o
    · exact (if_pos hyo).trans (if_pos hyo).symm
    · exact (if_neg hyo).trans ((if_neg hyx).trans (if_neg hyo).symm)
  have hx : s'.At st folder name x := ⟨_, hnew, rfl, rfl, rfl⟩
  refine ⟨fun y => ?_, hx, fun y hy => ?_⟩
  · by_cases hyx : y = x
    · rw [hyx]
      exact .inr ⟨.of_none hnone, .of_at hx⟩
    · by_cases hyo : y = o
      · refine .inr ⟨hyo ▸ .of_at hat, .of_none ?_⟩
        rw [hother y hyx, if_pos hyo]
      · refine .inl ?_
        rw [hother y hyx, if_neg hyo]
  · by_contra hyx
    obtain ⟨obj, hobj, hplace⟩ := hy
    rw [hother y hyx] at hobj
    split at hobj
    · cases hobj
    · exact absurd (honly y ⟨obj, hobj, hplace⟩) ‹_›

end Phone

theorem deleteAll_beside {storage : Storage} {objects : List ObjectInfo}
    {X : Error → Link → Phone → Prop} (hb : s₀.Beside s st folder name)
    (hunder : ∀ obj ∈ objects, ∀ y, N.object storage.session obj.handle = some y →
      s₀.Under st folder name y) :
    Attempt.wp (N.Keeps stores) (fun _ _ => True) (deleteAll storage objects)
      (fun _ l' s' => l' = l ∧ s₀.Beside s' st folder name) X l s := by
  induction objects generalizing s with
  | nil => exact ⟨rfl, hb⟩
  | cons obj rest ih =>
    unfold deleteAll
    rw [Attempt.wp_bind, Attempt.wp_outcome, Attempt.wp_mk]
    refine wp_call.mpr ⟨trivial, fun r s₁ hr => ?_⟩
    have hb₁ : s₀.Beside s₁ st folder name := by
      rcases Uncertain.cases hr.1 with rfl | ⟨y, hy, -, rfl⟩
      · exact hb
      · exact hb.drop_under (hunder obj List.mem_cons_self y hy) _
    have hrest := ih hb₁ fun obj' ho => hunder obj' (List.mem_cons_of_mem _ ho)
    rcases r with err | _
    · exact hrest
    · exact hrest

theorem purgeLeftover_beside {X : Error → Link → Phone → Prop} {idx : Nat} {storage : Storage}
    {old : ObjectHandle} {p : Option ObjectHandle} (hb : s₀.Beside s st folder name)
    (haim : Aimed N st folder o l idx storage old p) :
    Attempt.wp (N.Keeps stores) (fun _ _ => True) (purgeLeftover idx p name)
      (fun _ l' s' => l' = l ∧ s₀.Beside s' st folder name) X l s := by
  unfold purgeLeftover
  rw [Attempt.wp_bind]
  refine storageAt_wp haim.get ?_
  rw [Attempt.wp_bind, Attempt.wp_outcome, Attempt.wp_mk]
  refine wp_call.mpr ⟨trivial, ?_⟩
  rintro (err | objects) s₁ hr
  · obtain rfl := N.tellsTruth_keeps.still hr
    exact ⟨rfl, hb⟩
  · obtain rfl := N.tellsTruth_keeps.still hr
    refine deleteAll_beside hb fun obj hobj y hy => ?_
    obtain ⟨hmem, hname⟩ := List.mem_filter.mp hobj
    obtain ⟨st', f', hst, hfolder, hsound, -⟩ := (N.tellsTruth_keeps.reports hr).folder
    cases haim.store.symm.trans hst
    obtain rfl := haim.folder _ _ hfolder
    obtain ⟨y', hy', hat, -⟩ := hsound obj hmem
    cases hy.symm.trans hy'
    rw [beq_iff_eq.mp hname] at hat
    exact hb.under (.of_at hat)

namespace FileAt

variable {f : Flushing} {idx : Nat} {storage : Storage} {old : ObjectHandle} {p : Option ObjectHandle}

/-- The attempts of a flush, until an upload comes through. -/
abbrev Trying (N : Naming) (stores : List Nat) (l₀ : Link) (s₀ : Phone) (i st : Nat)
    (entry : InodeEntry) (folder : Option Nat) : Link → Phone → Prop :=
  Reached.Trying N stores l₀ s₀ (OnChain l₀.inodes i)
    fun s => s₀.Beside s st folder (tempUploadName entry.name)

/-- The same of the flush, which has the new content spooled. -/
def Spooled (N : Naming) (stores : List Nat) (l₀ : Link) (s₀ : Phone) (i st : Nat)
    (entry : InodeEntry) (folder : Option Nat) (v : Bytes) (f : Flushing) (s : Phone) : Prop :=
  Trying N stores l₀ s₀ i st entry folder f.link s ∧ f.file.content = v ∧ f.link.device.Capable

/-- The file is in its place, with this content. -/
def InPlace (N : Naming) (stores : List Nat) (i st : Nat) (name : String) (names : List String)
    (folder : Option Nat) (v : Bytes) (l : Link) (s : Phone) : Prop :=
  l.device.Capable ∧ ∃ entry x, FileAt N stores l s i st entry names folder x ∧ entry.name = name ∧
    s.Holds st folder v x

theorem flushSafe_replaces (h : FileAt N stores l₀ s₀ i st entry names folder o)
    (hf : Spooled N stores l₀ s₀ i st entry folder v f s) (hc : f.file.cursor = 0)
    (haim : Aimed N st folder o f.link idx storage old p) :
    Attempt.wp (N.Keeps stores) (fun _ _ => True) (flushSafe i old idx p entry v.length)
      (fun _ f' s' => InPlace N stores i st entry.name names folder v f'.link s')
      (fun _ f' s' => Spooled N stores l₀ s₀ i st entry folder v f' s') f s := by
  obtain ⟨⟨hs, htrying⟩, hv, hcapable⟩ := hf
  obtain ⟨hb, hD⟩ := htrying.resolve_right id
  have hne : ¬ (folder = folder ∧ entry.name = tempUploadName entry.name) :=
    fun heq => tempUploadName_ne _ heq.2.symm
  have hat : s.At st folder entry.name o := (hb.at_iff hne).mpr h.there
  have honly : ∀ y, s.At st folder entry.name y → y = o := fun y hy => h.only y ((hb.at_iff hne).mp hy)
  unfold flushSafe
  rw [Attempt.wp_bind, wp_onLinkM]
  refine storageAt_wp haim.get ?_
  dsimp only
  unfold uploadFile
  simp only [Attempt.wp_bind, Attempt.wp_get, Attempt.wp_lift, Attempt.wp_modify]
  refine wp_call.mpr ⟨trivial, ?_⟩
  rintro ⟨err | a, polled⟩ s₁ ⟨hup, -⟩
  · -- no object, or a part of it
    refine ⟨⟨hs, .inl ⟨?_, hD⟩⟩, (content_pollStream f.file polled).trans hv, hcapable⟩
    rcases hup with rfl | ⟨content, a, st', f', x, hst, hfolder, hnone, -, rfl⟩
    · exact hb
    · cases haim.store.symm.trans hst
      obtain rfl := haim.folder _ _ hfolder
      exact hb.put hnone _ _
  · obtain ⟨st', f', x, hst, hfolder, hnone, ha, rfl⟩ := hup
    cases haim.store.symm.trans hst
    obtain rfl := haim.folder _ _ hfolder
    obtain ⟨obj, hobj, -⟩ := id hat
    have hxo : x ≠ o := by
      rintro rfl
      cases hnone.symm.trans hobj
    dsimp only
    rw [Attempt.wp_pure, Attempt.wp_outcome, Attempt.wp_mk]
    refine wp_call.mpr ⟨trivial, fun deleted s₂ hdel => ?_⟩
    rcases deleted with err | _
    · -- the old object is there, so it can be deleted
      have hgone := hdel.2 err o rfl haim.old
      cases ((if_neg hxo.symm).symm.trans hgone).symm.trans hobj
    · obtain ⟨o', ho', -, rfl⟩ := hdel.1
      cases haim.old.symm.trans ho'
      dsimp only
      rw [Attempt.wp_bind, Attempt.wp_outcome, Attempt.wp_mk]
      refine wp_call.mpr ⟨trivial, fun renamed s₃ hren => ?_⟩
      have hthere : ((s.put x ⟨st, f', tempUploadName entry.name, some (fileStream f.file).flatten⟩
          (.upload storage p ⟨tempUploadName entry.name, v.length⟩ (fileStream f.file))).drop o
            (.delete storage old)).objects x =
          some ⟨st, f', tempUploadName entry.name, some (fileStream f.file).flatten⟩ :=
        (if_neg hxo).trans (if_pos rfl)
      rcases renamed with err | _
      · cases hthere.symm.trans (hren.2 err x rfl ha)
      · obtain ⟨x', obj', hx', hobj', rfl⟩ := hren.1
        cases ha.symm.trans hx'
        cases hthere.symm.trans hobj'
        obtain ⟨hb', hx, hxonly⟩ := Phone.replaced _ _ _ hat honly hnone rfl
        dsimp only
        rw [wp_onLinkM]
        unfold recordUpload
        rw [Attempt.wp_bind, Attempt.wp_lift]
        refine wp_call.mpr ⟨trivial, fun now s₄ hnow => ?_⟩
        obtain rfl := hnow.1
        rw [haim.session] at ha
        obtain ⟨entry', hat', hname⟩ := h.recorded hs hD hb hb' hx hxonly ha
        refine ⟨hcapable, entry', x, hat', hname, _, if_pos rfl, rfl, rfl, ?_⟩
        rw [flatten_fileStream hc, hv]

theorem flushOnce_replaces {isRetry : Bool} (h : FileAt N stores l₀ s₀ i st entry names folder o)
    (hf : Spooled N stores l₀ s₀ i st entry folder v f s) (hc : f.file.cursor = 0) :
    Attempt.wp (N.Keeps stores) (fun _ _ => True) (flushOnce i entry v.length isRetry)
      (fun _ f' s' => InPlace N stores i st entry.name names folder v f'.link s')
      (fun _ f' s' => Spooled N stores l₀ s₀ i st entry folder v f' s') f s := by
  obtain ⟨ht, hv, hcapable⟩ := hf
  have hway := h.untouched (ht.2.resolve_right id).1 (tempUploadName_ne _).symm
  unfold flushOnce
  rw [Attempt.wp_bind, wp_onLinkM]
  refine Attempt.wp_mono (h.reached.fileHandle_wp N.tellsTruth_keeps (fun _ => trivial) (fun _ => id) ht
    hway) ?_ ?_
  · rintro old l₁ s₁ ⟨rfl, ht₁, ⟨hdev₁, -⟩, x, hold, hx⟩
    cases hx
    have hcapable₁ : l₁.device.Capable := by
      rw [hdev₁]
      exact hcapable
    obtain ⟨idx, storage, hidx, hget, -, hses, hst⟩ :=
      ht₁.1.storageFor h.synced.rooted h.distinct h.path
    rw [Attempt.wp_bind, wp_onLinkM]
    refine storageIndex_wp (fun _ => trivial) (fun idx' hidx' => ?_) fun hnone => ?_
    · cases hidx.symm.trans hidx'
      rw [Attempt.wp_bind, wp_onLinkM]
      refine Attempt.wp_mono (h.reached_folder.parentHandle_wp N.tellsTruth_keeps (fun _ => trivial)
        (fun _ => h.onChain_parent) ht₁ fun above _ _ _ hsuffix =>
          hway above _ _ _ (hsuffix.trans (List.suffix_cons _ _))) ?_ ?_
      · rintro p l₂ s₂ ⟨rfl, ht₂, ⟨hdev₂, hstorages₂⟩, hp⟩
        have hses₂ : storage.session = l₂.device.session :=
          hses.trans (congrArg MtpDevice.session hdev₂.symm)
        have hcapable₂ : l₂.device.Capable := by
          rw [hdev₂]
          exact hcapable₁
        rw [← hses] at hst hold
        rw [← hses₂] at hp
        have haim : Aimed N st folder o l₂ idx storage old p :=
          ⟨(congrArg (fun ss => ss[idx]?) hstorages₂).trans hget, hses₂, hst, hold, hp⟩
        simp only [Attempt.wp_bind, Attempt.wp_get]
        split
        · rw [Attempt.wp_bind]
          split
          · rw [wp_onLinkM]
            refine Attempt.wp_mono (purgeLeftover_beside (ht₂.2.resolve_right id).1 haim) ?_
              fun _ _ _ h' => h'
            rintro _ l₃ s₃ ⟨rfl, hb₃⟩
            exact h.flushSafe_replaces (f := HasLink.setLink _ l₃)
              ⟨⟨ht₂.1, .inl ⟨hb₃, (ht₂.2.resolve_right id).2⟩⟩, hv, hcapable₂⟩ hc haim
          · exact h.flushSafe_replaces (f := HasLink.setLink _ l₂) ⟨ht₂, hv, hcapable₂⟩ hc haim
        · exact absurd hcapable₂.1 ‹_›
      · rintro err l₂ s₂ ⟨rfl, ht₂, hdev₂⟩
        refine ⟨ht₂, hv, ?_⟩
        show MtpDevice.Capable l₂.device
        rw [hdev₂]
        exact hcapable₁
    · cases hidx.symm.trans hnone
  · rintro err l₁ s₁ ⟨rfl, ht₁, hdev₁⟩
    refine ⟨ht₁, hv, ?_⟩
    show MtpDevice.Capable l₁.device
    rw [hdev₁]
    exact hcapable

theorem flushAttempt_replaces (h : FileAt N stores l₀ s₀ i st entry names folder o)
    (hf : Spooled N stores l₀ s₀ i st entry folder v f s) :
    Attempt.wp (N.Keeps stores) (fun _ _ => True) (flushAttempt i entry v.length)
      (fun _ f' s' => InPlace N stores i st entry.name names folder v f'.link s')
      (fun _ f' s' => Spooled N stores l₀ s₀ i st entry folder v f' s') f s := by
  unfold flushAttempt
  rw [Attempt.wp_bind, Attempt.wp_lift]
  refine wp_call.mpr ⟨trivial, fun fault s₁ hr => ?_⟩
  obtain rfl : s₁ = s := hr.1
  rw [Attempt.wp_bind]
  refine spooled_wp ?_ fun _ => hf
  rw [Attempt.wp_bind, Attempt.wp_lift]
  refine wp_call.mpr ⟨trivial, fun fault s₂ hr => ?_⟩
  obtain rfl : s₂ = s₁ := hr.1
  rw [Attempt.wp_bind]
  refine spooled_wp ?_ fun _ => hf
  simp only [Attempt.wp_bind, Attempt.wp_modify, Attempt.wp_get]
  exact h.flushOnce_replaces (f := { f with file := f.file.seekStart 0, attempts := f.attempts + 1 })
    ⟨hf.1, hf.2.1, hf.2.2⟩ rfl

/-- The file is in its place with the new content, or in its place with the old object. -/
theorem flushBuffer_replaces {buf : FileBuffer} (h : FileAt N stores l₀ s₀ i st entry names folder o)
    (hi : buf.inode = i) (hdirty : buf.dirty = true) (hv : buf.file.content = v)
    (hcapable : l₀.device.Capable) :
    Attempt.wp (N.Keeps stores) (fun _ _ => True) (flushBuffer buf)
      (fun _ l' s' => InPlace N stores i st entry.name names folder v l' s')
      (fun _ l' s' => l'.device.Capable ∧ s'.objects o = s₀.objects o ∧
        ∃ entry', FileAt N stores l' s' i st entry' names folder o ∧ entry'.name = entry.name) l₀ s₀ := by
  subst hi
  have hsame : ∃ entry', FileAt N stores l₀ s₀ buf.inode st entry' names folder o ∧
      entry'.name = entry.name := ⟨entry, h, rfl⟩
  unfold flushBuffer
  simp only [hdirty, Bool.not_true, Bool.false_eq_true, if_false]
  rw [Attempt.wp_bind, Attempt.wp_lift]
  refine wp_call.mpr ⟨trivial, fun fault s₁ hr => ?_⟩
  obtain rfl : s₁ = s₀ := hr.1
  rw [Attempt.wp_bind]
  refine spooled_wp ?_ fun _ => ⟨hcapable, rfl, hsame⟩
  simp only [Attempt.wp_bind, Attempt.wp_get, h.live]
  rw [Attempt.wp_mk, Act.wp_focus, Attempt.wp_run]
  have hsize : buf.file.seekEnd.1 = v.length := congrArg List.length hv
  rw [hsize]
  have hattempts := recovery_onCourse (x := Flushing.mk l₀ buf.file.seekEnd.2 0)
    (G := fun _ _ => True) (B := fun f : Flushing => f.file.content = v ∧ f.link.device.Capable)
    (V := MtpDevice.Capable)
    (Q := fun _ f' s' => InPlace N stores buf.inode st entry.name names folder v f'.link s')
    N.comesBack_keeps (fun hr => hr.2 _ rfl) (fun _ => trivial) ?_ h.reached.nodup h.distinct
    (fun f s ht hB => h.flushAttempt_replaces ⟨ht, hB.1, hB.2⟩)
    (h.reached.start (.refl s₁)) ⟨hv, hcapable⟩
  · refine Attempt.wp_mono hattempts (fun _ _ _ h' => h') ?_
    rintro err f s ⟨⟨hs, htrying⟩, -, hcap⟩
    obtain ⟨hb, hD⟩ := htrying.resolve_right id
    refine ⟨hcap, ?_, h.again hs hD hb (tempUploadName_ne _).symm⟩
    rcases hb o with hsame | ⟨hu, -⟩
    · exact hsame
    · obtain ⟨obj, hobj, -, -, hname⟩ := h.there
      exact absurd ((hu obj hobj).2.2.symm.trans hname) (tempUploadName_ne _)
  · rintro f l ⟨hv, hold⟩ hdev
    refine ⟨hv, ?_⟩
    rcases hdev with hdev | hnew
    · show MtpDevice.Capable l.device
      rw [hdev]
      exact hold
    · exact hnew

end FileAt

end MtpMount
