import MtpMount.FlushRules
import MtpMount.Removals

/-!
# Overwriting a file

On a device that can rename, a flush uploads under a temporary name, deletes the
old object and renames the new one. Any of this may fail, with or without effect,
and an upload that fails may leave a part of an object.

* `Naming.Fails`: such a device;
* `Grown`: what there is of it before an upload has come through;
* `Overwriting.flushOnce_overwrites`: one attempt, from there to there or to the end;
* `flush_loses_nothing`: at every step there is the old object or all of the new one,
  and the outcome tells which.
-/

namespace MtpMount

open Interaction

variable {N : Naming} {stores : List Nat} {s₀ s s' : Phone} {st o : Nat} {folder : Option Nat}
  {name : String} {v : Bytes}

/-! ## The device -/

/-- A request that takes effect, or fails and has done nothing or `Left` something. -/
def Uncertain {α : Type} (Takes : α → Phone → Prop) (Left : Phone → Prop) (s : Phone) :
    Except Error α → Phone → Prop
  | .ok a, s' => Takes a s'
  | .error _, s' => s' = s ∨ Left s'

namespace Naming

variable (N : Naming)

def Renames (s : Phone) (storage : Storage) (handle : ObjectHandle) (newName : String) (_ : Unit)
    (s' : Phone) : Prop :=
  ∃ o obj, N.object storage.session handle = some o ∧ s.objects o = some obj ∧
    s' = s.put o { obj with name := newName } (.rename storage handle newName)

/-- The device can rename, and whatever is asked of it may fail. A listing that comes in
is true, and what is there changes by the requests alone. -/
def Fails (stores : List Nat) (s : Phone) (c : Call) (a : Answer c) (s' : Phone) : Prop :=
  match c, a with
  | .openDevice, answer => s' = s ∧ ∀ device, answer = .ok device → device.supportsRename = true
  | .storages device, answer =>
    s' = s ∧ ∀ infos, answer = .ok infos → N.Tells stores device.session infos
  | .listObjects storage parent, answer =>
    s' = s ∧ ∀ objects, answer = .ok objects → N.Reports s storage parent objects
  | .upload storage parent info stream, answer =>
    Uncertain (N.Creates s storage parent info.filename (some stream.flatten)
        (.upload storage parent info stream))
      (fun s' => ∃ content handle, N.Creates s storage parent info.filename (some content)
        (.upload storage parent info stream) handle s') s answer.1 s'
  | .delete storage handle, answer =>
    Uncertain (N.Deletes s storage handle) (N.Deletes s storage handle ()) s answer s'
  | .rename storage handle newName, answer =>
    Uncertain (N.Renames s storage handle newName) (N.Renames s storage handle newName ()) s answer s'
  | .createFolder .., _ | .moveObject .., _ => True
  | _, _ => s' = s

end Naming

theorem Naming.comesBack_fails : ComesBack N stores (N.Fails stores) := by
  refine ⟨fun {s s' c a} hc hr => ?_, fun hr => hr.2 _ rfl⟩
  cases c with
  | storages device | openDevice => exact hr.1
  | isUnplugged | sleep _ | invalidated | spawnEventLoop _ _ => exact hr
  | _ => cases hc

theorem Naming.tellsTruth_fails : TellsTruth N id (N.Fails stores) where
  still := fun hr => hr.1
  reports := fun hr => hr.2 _ rfl

/-! ## The folder -/

/-- The object lies in the folder and has this content. -/
def Phone.Holds (s : Phone) (st : Nat) (folder : Option Nat) (v : Bytes) (x : Nat) : Prop :=
  ∃ obj, s.objects x = some obj ∧ obj.storage = st ∧ obj.parent = folder ∧ obj.content = some v

/-- The old object is as it was, or one with the new content is there. -/
def Preserved (s₀ : Phone) (st : Nat) (folder : Option Nat) (o : Nat) (v : Bytes) (s : Phone) : Prop :=
  s.objects o = s₀.objects o ∨ ∃ x, s.Holds st folder v x

theorem tempUploadName_ne (name : String) : tempUploadName name ≠ name := by
  intro h
  have happend : (".~tmp~" ++ name : String) = name := h
  have hlen := congrArg String.length happend
  rw [String.length_append] at hlen
  exact absurd (show 6 + name.length = name.length from hlen) (by omega)

/-- Before an upload has come through there are only parts of it in the folder, beside
what was there. -/
def Grown (s₀ : Phone) (st : Nat) (folder : Option Nat) (temp : String) (s : Phone) : Prop :=
  ∀ x, s.objects x = s₀.objects x ∨ New s₀ s st folder temp x

namespace Grown

variable {temp : String} {x : Nat} {obj : DeviceObject}

theorem start : Grown s₀ st folder temp s₀ := fun _ => .inl rfl

/-- What was there is as it was. -/
theorem old (h : Grown s₀ st folder temp s) (ho : s₀.objects o = some obj) :
    s.objects o = s₀.objects o := by
  rcases h o with hsame | ⟨hnone, -⟩
  · exact hsame
  · cases ho.symm.trans hnone

/-- What is made now was not there. -/
theorem free (h : Grown s₀ st folder temp s) (hnone : s.objects x = none) :
    s₀.objects x = none := by
  rcases h x with hsame | ⟨hnew, -⟩
  · rw [← hsame, hnone]
  · exact hnew

theorem put (h : Grown s₀ st folder temp s) (hnone : s.objects x = none) (content : Option Bytes)
    (c : Call) : Grown s₀ st folder temp (s.put x ⟨st, folder, temp, content⟩ c) := by
  intro y
  by_cases hy : y = x
  · rw [hy]
    exact .inr ⟨h.free hnone, Phone.at_put.mpr (by simp)⟩
  · rcases h y with hsame | hnew
    · refine .inl ?_
      rw [← hsame]
      exact if_neg hy
    · exact .inr hnew.put

theorem drop (h : Grown s₀ st folder temp s) (hnone : s₀.objects x = none) (c : Call) :
    Grown s₀ st folder temp (s.drop x c) := by
  intro y
  by_cases hy : y = x
  · rw [hy, hnone]
    exact .inl (if_pos rfl)
  · have hsame : (s.drop x c).objects y = s.objects y := if_neg hy
    rw [hsame]
    refine (h y).imp id fun hnew => ⟨hnew.1, ?_⟩
    rw [Phone.At, hsame]
    exact hnew.2

end Grown

/-! ## One attempt -/

/-- The mount and the device as a flush finds them. The path of the inode leads to the old
object, and nothing in its folder has the temporary name. -/
structure Overwriting (N : Naming) (stores : List Nat) (l₀ : Link) (s₀ : Phone) (i st : Nat)
    (entry : InodeEntry) (names : List String) (folder : Option Nat) (o : Nat) : Prop where
  live : l₀.inodes.get i = some entry
  file : Reached N stores l₀ s₀ i st (entry.name :: names) (some o)
  above : Reached N stores l₀ s₀ entry.parent st names folder
  temp : ∀ x, ¬ s₀.At st folder (tempUploadName entry.name) x

/-- The handle of the inode is one of a whole new object in the folder. -/
def Overwritten (N : Naming) (st : Nat) (folder : Option Nat) (v : Bytes) (i : Nat) (l : Link)
    (s : Phone) : Prop :=
  ∃ e a x, l.inodes.get i = some e ∧ e.kind = .file a ∧ N.object l.device.session a = some x ∧
    s.Holds st folder v x

/-- Where the requests of an attempt go. -/
structure Aimed (N : Naming) (st : Nat) (folder : Option Nat) (o : Nat) (l : Link) (idx : Nat)
    (storage : Storage) (old : ObjectHandle) (p : Option ObjectHandle) : Prop where
  get : l.storages[idx]? = some storage
  session : storage.session = l.device.session
  store : N.store storage.session storage.id = some st
  old : N.object storage.session old = some o
  folder : ∀ s f, N.Folder s storage.session p f → f = folder

theorem Uncertain.cases {Takes : Unit → Phone → Prop} {r : Except Error Unit}
    (h : Uncertain Takes (Takes ()) s r s') : s' = s ∨ Takes () s' := by
  cases r with
  | error _ => exact h
  | ok _ => exact .inr h

namespace Phone.Holds

variable {x : Nat}

theorem drop (h : s.Holds st folder v x) (hne : x ≠ o) (c : Call) :
    (s.drop o c).Holds st folder v x := by
  obtain ⟨obj, hobj, hplace⟩ := h
  exact ⟨obj, (if_neg hne).trans hobj, hplace⟩

theorem deleted {storage : Storage} {old : ObjectHandle} {r : Except Error Unit}
    (h : s.Holds st folder v x) (hne : x ≠ o) (ho : N.object storage.session old = some o)
    (hr : N.Fails stores s (.delete storage old) r s') : s'.Holds st folder v x := by
  rcases Uncertain.cases hr with rfl | ⟨y, hy, -, rfl⟩
  · exact h
  · cases ho.symm.trans hy
    exact h.drop hne _

theorem renamed {storage : Storage} {a : ObjectHandle} {newName : String} {r : Except Error Unit}
    (h : s.Holds st folder v x) (hr : N.Fails stores s (.rename storage a newName) r s') :
    s'.Holds st folder v x := by
  rcases Uncertain.cases hr with rfl | ⟨y, obj, -, hobj, rfl⟩
  · exact h
  · obtain ⟨obj', hobj', hplace⟩ := h
    by_cases hx : x = y
    · rw [← hx, hobj'] at hobj
      cases hobj
      exact ⟨_, if_pos hx, hplace⟩
    · exact ⟨obj', (if_neg hx).trans hobj', hplace⟩

end Phone.Holds

namespace Overwriting

variable {l₀ l : Link} {i : Nat} {entry : InodeEntry} {names : List String} {f : Flushing}
  {idx : Nat} {storage : Storage} {old : ObjectHandle} {p : Option ObjectHandle}

/-- The attempts of a flush, until an upload comes through. -/
abbrev Trying (N : Naming) (stores : List Nat) (l₀ : Link) (s₀ : Phone) (i st : Nat)
    (entry : InodeEntry) (folder : Option Nat) : Link → Phone → Prop :=
  Reached.Trying N stores l₀ s₀ (fun j => OnChain l₀.inodes i j ∨ OnChain l₀.inodes entry.parent j)
    (Grown s₀ st folder (tempUploadName entry.name))

/-- The same of the flush, which has the new content spooled. -/
def Spooled (N : Naming) (stores : List Nat) (l₀ : Link) (s₀ : Phone) (i st : Nat)
    (entry : InodeEntry) (folder : Option Nat) (v : Bytes) (f : Flushing) (s : Phone) : Prop :=
  Trying N stores l₀ s₀ i st entry folder f.link s ∧ f.file.content = v ∧
    f.link.device.supportsRename = true

theorem recordUpload_overwrites {E : Type} {R : Answers Call Answer E} {G : E → Call → Prop}
    {X : Error → Link → E → Prop} {a : ObjectHandle} {newName : Option String} {size x : Nat}
    {en : InodeEntry} {e : E} (hG : G e .now) (hnow : ∀ {now e'}, R e .now now e' → e' = e)
    (hlive : l.inodes.get i = some en) (ha : N.object l.device.session a = some x)
    (hx : s.Holds st folder v x) :
    Attempt.wp R G (recordUpload i a newName size)
      (fun _ l' e' => e' = e ∧ Overwritten N st folder v i l' s) X l e := by
  unfold recordUpload
  rw [Attempt.wp_bind, Attempt.wp_lift]
  refine wp_call.mpr ⟨hG, fun now e' hr => ⟨hnow hr, ?_⟩⟩
  refine ⟨{ en with kind := .file a, name := newName.getD en.name, size, mtime := now }, a, x, ?_, rfl,
    ha, hx⟩
  show (l.inodes.recordUpload i a newName size now).get i = _
  rw [InodeTable.recordUpload, InodeTable.get_getMut, if_pos rfl, hlive]
  rfl

variable (h : Overwriting N stores l₀ s₀ i st entry names folder o)

include h

/-- The old object is there. -/
theorem present : ∃ obj, s₀.objects o = some obj := by
  cases h.file.finds with
  | child _ hat =>
    obtain ⟨obj, hobj, -⟩ := hat
    exact ⟨obj, hobj⟩

theorem preserved (hg : Grown s₀ st folder (tempUploadName entry.name) s) :
    Preserved s₀ st folder o v s := by
  obtain ⟨obj, hobj⟩ := h.present
  exact .inl (hg.old hobj)

/-- The leftovers that are purged were not there at the start. -/
theorem deleteAll_grown {X : Error → Link → Phone → Prop} {objects : List ObjectInfo}
    (hg : Grown s₀ st folder (tempUploadName entry.name) s)
    (hnew : ∀ obj ∈ objects, ∀ y, N.object storage.session obj.handle = some y → s₀.objects y = none) :
    Attempt.wp (N.Fails stores) (fun s _ => Preserved s₀ st folder o v s) (deleteAll storage objects)
      (fun _ l' s' => l' = l ∧ Grown s₀ st folder (tempUploadName entry.name) s') X l s := by
  induction objects generalizing s with
  | nil => exact ⟨rfl, hg⟩
  | cons obj rest ih =>
    unfold deleteAll
    rw [Attempt.wp_bind, Attempt.wp_outcome, Attempt.wp_mk]
    refine wp_call.mpr ⟨h.preserved hg, fun r s₁ hr => ?_⟩
    have hg₁ : Grown s₀ st folder (tempUploadName entry.name) s₁ := by
      rcases Uncertain.cases hr with rfl | ⟨y, hy, -, rfl⟩
      · exact hg
      · exact hg.drop (hnew obj List.mem_cons_self y hy) _
    have hrest := ih hg₁ fun obj' ho => hnew obj' (List.mem_cons_of_mem _ ho)
    rcases r with err | _
    · exact hrest
    · exact hrest

theorem purgeLeftover_grown {X : Error → Link → Phone → Prop}
    (hg : Grown s₀ st folder (tempUploadName entry.name) s)
    (haim : Aimed N st folder o l idx storage old p) :
    Attempt.wp (N.Fails stores) (fun s _ => Preserved s₀ st folder o v s)
      (purgeLeftover idx p (tempUploadName entry.name))
      (fun _ l' s' => l' = l ∧ Grown s₀ st folder (tempUploadName entry.name) s') X l s := by
  unfold purgeLeftover
  rw [Attempt.wp_bind]
  refine storageAt_wp haim.get ?_
  rw [Attempt.wp_bind, Attempt.wp_outcome, Attempt.wp_mk]
  refine wp_call.mpr ⟨h.preserved hg, ?_⟩
  rintro (err | objects) s₁ ⟨rfl, hreports⟩
  · exact ⟨rfl, hg⟩
  · refine h.deleteAll_grown hg fun obj hobj y hy => ?_
    obtain ⟨hmem, hname⟩ := List.mem_filter.mp hobj
    obtain ⟨st', f', hst, hfolder, hsound, -⟩ := (hreports objects rfl).folder
    cases haim.store.symm.trans hst
    obtain rfl := haim.folder _ _ hfolder
    obtain ⟨y', hy', hat, -⟩ := hsound obj hmem
    cases hy.symm.trans hy'
    rw [beq_iff_eq.mp hname] at hat
    rcases hg y with hsame | ⟨hnone, -⟩
    · rw [Phone.At, hsame] at hat
      exact absurd hat (h.temp y)
    · exact hnone

theorem flushSafe_overwrites (hf : Spooled N stores l₀ s₀ i st entry folder v f s)
    (hc : f.file.cursor = 0) (haim : Aimed N st folder o f.link idx storage old p) :
    Attempt.wp (N.Fails stores) (fun s _ => Preserved s₀ st folder o v s)
      (flushSafe i old idx p entry v.length)
      (fun _ f' s' => Overwritten N st folder v i f'.link s')
      (fun _ f' s' => Spooled N stores l₀ s₀ i st entry folder v f' s') f s := by
  obtain ⟨⟨hs, htrying⟩, hv, hrename⟩ := hf
  obtain ⟨hg, hD⟩ := htrying.resolve_right id
  unfold flushSafe
  rw [Attempt.wp_bind, wp_onLinkM]
  refine storageAt_wp haim.get ?_
  dsimp only
  unfold uploadFile
  simp only [Attempt.wp_bind, Attempt.wp_get, Attempt.wp_lift, Attempt.wp_modify]
  refine wp_call.mpr ⟨h.preserved hg, ?_⟩
  rintro ⟨err | a, polled⟩ s₁ hup
  · -- no object, or a part of it
    refine ⟨⟨hs, .inl ⟨?_, hD⟩⟩, (content_pollStream f.file polled).trans hv, hrename⟩
    rcases hup with rfl | ⟨content, a, st', f', x, hst, hfolder, hnone, -, rfl⟩
    · exact hg
    · cases haim.store.symm.trans hst
      obtain rfl := haim.folder _ _ hfolder
      exact hg.put hnone _ _
  · obtain ⟨st', f', x, hst, hfolder, hnone, ha, rfl⟩ := hup
    cases haim.store.symm.trans hst
    obtain rfl := haim.folder _ _ hfolder
    obtain ⟨obj, hobj⟩ := h.present
    have hne : x ≠ o := by
      rintro rfl
      cases hnone.symm.trans ((hg.old hobj).trans hobj)
    obtain ⟨e, he, -⟩ := hs.tree.get h.live
    rw [haim.session] at ha
    have hdone : ∀ {newName s₁ f₁}, (HasLink.link f₁).inodes.get i = some e →
        N.object (HasLink.link f₁).device.session a = some x → s₁.Holds st f' v x →
        Attempt.wp (N.Fails stores) (fun s _ => Preserved s₀ st f' o v s)
          (onLinkM (recordUpload i a newName v.length))
          (fun _ f₂ s₂ => Overwritten N st f' v i (HasLink.link f₂) s₂)
          (fun _ f₂ s₂ => Spooled N stores l₀ s₀ i st entry f' v f₂ s₂) f₁ s₁ := by
      intro newName s₁ f₁ he ha hx
      refine wp_onLinkM.mpr (Attempt.wp_mono (recordUpload_overwrites (.inr ⟨x, hx⟩) id he ha hx) ?_
        fun _ _ _ hno => hno)
      rintro _ l' s' ⟨rfl, hnew⟩
      exact hnew
    -- from here on there is all of the new object
    have hx : (s.put x ⟨st, f', tempUploadName entry.name, some (fileStream f.file).flatten⟩
        (.upload storage p ⟨tempUploadName entry.name, v.length⟩ (fileStream f.file))).Holds st f' v x := by
      refine ⟨_, if_pos rfl, rfl, rfl, ?_⟩
      rw [flatten_fileStream hc, hv]
    dsimp only
    rw [Attempt.wp_pure, Attempt.wp_outcome, Attempt.wp_mk]
    refine wp_call.mpr ⟨.inr ⟨x, hx⟩, fun deleted s₂ hdel => ?_⟩
    have hx₂ := hx.deleted hne haim.old hdel
    rcases deleted with err | _
    · exact hdone he ha hx₂
    · dsimp only
      rw [Attempt.wp_bind, Attempt.wp_outcome, Attempt.wp_mk]
      refine wp_call.mpr ⟨.inr ⟨x, hx₂⟩, fun renamed s₃ hren => ?_⟩
      have hx₃ := hx₂.renamed hren
      rcases renamed with err | _
      · exact hdone he ha hx₃
      · exact hdone he ha hx₃

/-- The parts of an upload are neither on the way to the file nor on that to its folder. -/
theorem untouched (hg : Grown s₀ st folder (tempUploadName entry.name) s) :
    Untouched s₀ s st (entry.name :: names) ∧ Untouched s₀ s st names := by
  have habove : ∀ above, tempUploadName entry.name :: above <:+ names →
      ¬ s₀.Finds st above folder := fun above hsuffix hf => hf.not_above h.above.finds hsuffix
  refine ⟨untouched_of_new hg fun above hsuffix => ?_, untouched_of_new hg habove⟩
  rcases List.suffix_cons_iff.mp hsuffix with heq | hsuffix
  · exact absurd (List.cons.inj heq).1 (tempUploadName_ne _)
  · exact habove above hsuffix

theorem flushOnce_overwrites {isRetry : Bool}
    (hf : Spooled N stores l₀ s₀ i st entry folder v f s) (hc : f.file.cursor = 0) :
    Attempt.wp (N.Fails stores) (fun s _ => Preserved s₀ st folder o v s)
      (flushOnce i entry v.length isRetry)
      (fun _ f' s' => Overwritten N st folder v i f'.link s')
      (fun _ f' s' => Spooled N stores l₀ s₀ i st entry folder v f' s') f s := by
  obtain ⟨ht, hv, hrename⟩ := hf
  have hg := (ht.2.resolve_right id).1
  obtain ⟨hfile, hfolder⟩ := h.untouched hg
  have hsafe : Preserved s₀ st folder o v s := h.preserved hg
  unfold flushOnce
  rw [Attempt.wp_bind, wp_onLinkM]
  refine Attempt.wp_mono (h.file.fileHandle_wp (G := fun s _ => Preserved s₀ st folder o v s)
    N.tellsTruth_fails (fun _ => hsafe) (fun _ hj => .inl hj) ht hfile) ?_ ?_
  · rintro old l₁ s₁ ⟨rfl, ht₁, ⟨hdev₁, -⟩, x, hold, hx⟩
    cases hx
    obtain ⟨idx, storage, hidx, hget, -, hses, hst⟩ :=
      ht₁.1.storageFor h.file.synced.rooted h.file.distinct h.file.path
    rw [Attempt.wp_bind, wp_onLinkM]
    refine storageIndex_wp (fun _ => hsafe) (fun idx' hidx' => ?_) fun hnone => ?_
    · cases hidx.symm.trans hidx'
      rw [Attempt.wp_bind, wp_onLinkM]
      refine Attempt.wp_mono (h.above.parentHandle_wp (G := fun s _ => Preserved s₀ st folder o v s)
        N.tellsTruth_fails (fun _ => hsafe) (fun _ hj => .inr hj) ht₁ hfolder) ?_ ?_
      · rintro p l₂ s₂ ⟨rfl, ht₂, ⟨hdev₂, hstorages₂⟩, hp⟩
        have hses₂ : storage.session = l₂.device.session :=
          hses.trans (congrArg MtpDevice.session hdev₂.symm)
        have hrename₂ : l₂.device.supportsRename = true :=
          (congrArg MtpDevice.supportsRename (hdev₂.trans hdev₁)).trans hrename
        rw [← hses] at hst hold
        rw [← hses₂] at hp
        have haim : Aimed N st folder o l₂ idx storage old p :=
          ⟨(congrArg (fun ss => ss[idx]?) hstorages₂).trans hget, hses₂, hst, hold, hp⟩
        simp only [Attempt.wp_bind, Attempt.wp_get]
        split
        · rw [Attempt.wp_bind]
          split
          · rw [wp_onLinkM]
            refine Attempt.wp_mono (h.purgeLeftover_grown hg haim) ?_ fun _ _ _ h' => h'
            rintro _ l₃ s₃ ⟨rfl, hg₃⟩
            exact h.flushSafe_overwrites (f := HasLink.setLink _ l₃)
              ⟨⟨ht₂.1, .inl ⟨hg₃, (ht₂.2.resolve_right id).2⟩⟩, hv, hrename₂⟩ hc haim
          · exact h.flushSafe_overwrites (f := HasLink.setLink _ l₂) ⟨ht₂, hv, hrename₂⟩ hc haim
        · exact absurd hrename₂ ‹_›
      · rintro err l₂ s₂ ⟨rfl, ht₂, hdev₂⟩
        exact ⟨ht₂, hv, (congrArg MtpDevice.supportsRename (hdev₂.trans hdev₁)).trans hrename⟩
    · cases hidx.symm.trans hnone
  · rintro err l₁ s₁ ⟨rfl, ht₁, hdev₁⟩
    exact ⟨ht₁, hv, (congrArg MtpDevice.supportsRename hdev₁).trans hrename⟩

theorem flushAttempt_overwrites (hf : Spooled N stores l₀ s₀ i st entry folder v f s) :
    Attempt.wp (N.Fails stores) (fun s _ => Preserved s₀ st folder o v s)
      (flushAttempt i entry v.length)
      (fun _ f' s' => Overwritten N st folder v i f'.link s')
      (fun _ f' s' => Spooled N stores l₀ s₀ i st entry folder v f' s') f s := by
  have hsafe : Preserved s₀ st folder o v s := h.preserved (hf.1.2.resolve_right id).1
  unfold flushAttempt
  rw [Attempt.wp_bind, Attempt.wp_lift]
  refine wp_call.mpr ⟨hsafe, fun fault s₁ hr => ?_⟩
  obtain rfl : s₁ = s := hr
  rw [Attempt.wp_bind]
  refine spooled_wp ?_ fun _ => hf
  rw [Attempt.wp_bind, Attempt.wp_lift]
  refine wp_call.mpr ⟨hsafe, fun fault s₂ hr => ?_⟩
  obtain rfl : s₂ = s₁ := hr
  rw [Attempt.wp_bind]
  refine spooled_wp ?_ fun _ => hf
  simp only [Attempt.wp_bind, Attempt.wp_modify, Attempt.wp_get]
  exact h.flushOnce_overwrites (f := { f with file := f.file.seekStart 0, attempts := f.attempts + 1 })
    ⟨hf.1, hf.2.1, hf.2.2⟩ rfl

/-! ## The whole flush -/

theorem start : Trying N stores l₀ s₀ i st entry folder l₀ s₀ := by
  refine ⟨h.file.synced, .inl ⟨.start, fun j e a he hf ha hj => ?_⟩⟩
  have hfile := (h.file.start (N := N) (J := fun _ => True) (e := s₀) trivial).2.resolve_right id
  have habove := (h.above.start (N := N) (J := fun _ => True) (e := s₀) trivial).2.resolve_right id
  rcases hj with hj | hj
  · exact hfile.2 j e a he hf ha hj
  · exact habove.2 j e a he hf ha hj

theorem flushBuffer_overwrites {buf : FileBuffer} (hi : buf.inode = i) (hdirty : buf.dirty = true)
    (hv : buf.file.content = v) (hrename : l₀.device.supportsRename = true) :
    Attempt.wp (N.Fails stores) (fun s _ => Preserved s₀ st folder o v s) (flushBuffer buf)
      (fun _ l' s' => Overwritten N st folder v i l' s')
      (fun _ _ s' => s'.objects o = s₀.objects o) l₀ s₀ := by
  obtain ⟨obj, hobj⟩ := h.present
  subst hi
  unfold flushBuffer
  simp only [hdirty, Bool.not_true, Bool.false_eq_true, if_false]
  rw [Attempt.wp_bind, Attempt.wp_lift]
  refine wp_call.mpr ⟨.inl rfl, fun fault s₁ hr => ?_⟩
  obtain rfl : s₁ = s₀ := hr
  rw [Attempt.wp_bind]
  refine spooled_wp ?_ fun _ => rfl
  simp only [Attempt.wp_bind, Attempt.wp_get, h.live]
  rw [Attempt.wp_mk, Act.wp_focus, Attempt.wp_run]
  have hsize : buf.file.seekEnd.1 = v.length := congrArg List.length hv
  rw [hsize]
  have hattempts := recovery_onCourse (x := Flushing.mk l₀ buf.file.seekEnd.2 0)
    (G := fun s _ => Preserved s₁ st folder o v s)
    (B := fun f : Flushing => f.file.content = v ∧ f.link.device.supportsRename = true)
    (V := fun device => device.supportsRename = true)
    (Q := fun _ f' s' => Overwritten N st folder v buf.inode f'.link s')
    N.comesBack_fails (fun hr => hr.2 _ rfl) (fun hJ => h.preserved (hJ.resolve_right id)) ?_
    h.file.nodup h.file.distinct (fun f s ht hB => h.flushAttempt_overwrites ⟨ht, hB.1, hB.2⟩)
    h.start ⟨hv, hrename⟩
  · refine Attempt.wp_mono hattempts (fun _ _ _ h' => h') ?_
    rintro err f s ⟨ht, -⟩
    exact (ht.2.resolve_right id).1.old hobj
  · rintro f l ⟨hv, hold⟩ hdev
    refine ⟨hv, ?_⟩
    rcases hdev with hdev | hnew
    · exact (congrArg MtpDevice.supportsRename hdev).trans hold
    · exact hnew

end Overwriting

/-! ## That phone, with an upload that is cut -/

/-- The mount with two bytes to flush to the file `a`. -/
def dirtyCard : MtpFs :=
  { cardMount with
    writeBuf := ((WriteBuffer.new.openBuffer 0 5 3 none).2.write 0 0 [7, 8] none).2 }

/-- The first upload loses the link and leaves one byte of it. -/
def cutAnswers (s : Phone) : (c : Call) → Option (Answer c × Phone)
  | .isUnplugged => some (false, s)
  | .sleep _ => some ((), s)
  | .openDevice => some (.ok ⟨0, true, true⟩, s)
  | .storages _ => some (.ok cardInfos, s)
  | .invalidated => some ((), s)
  | .spawnEventLoop .. => some ((), s)
  | .now => some (0, s)
  | .seekTemp => some (none, s)
  | .cloneTemp => some (none, s)
  | .listObjects storage none => some (.ok (cardListing s storage.id.value), s)
  | .upload storage none info stream =>
    if s.done.isEmpty ∧ (s.objects 100).isNone then
      some ((.error .disconnected, 1), s.put 100
        ⟨storage.id.value, none, info.filename, some (stream.flatten.take 1)⟩
        (.upload storage none info stream))
    else if (s.objects 101).isNone then
      some ((.ok ⟨101⟩, stream.flatten.length), s.put 101
        ⟨storage.id.value, none, info.filename, some stream.flatten⟩ (.upload storage none info stream))
    else none
  | .delete storage handle =>
    if handle ≠ .ROOT ∧ (s.objects handle.value).isSome then
      some (.ok (), s.drop handle.value (.delete storage handle))
    else none
  | .rename storage handle newName =>
    if handle ≠ .ROOT then
      (s.objects handle.value).map fun obj =>
        (.ok (), s.put handle.value { obj with name := newName } (.rename storage handle newName))
    else none
  | _ => none

theorem cutAnswers_fails {c : Call} {a : Answer c} (hc : CardOnly ⟨s, 0⟩)
    (h : cutAnswers s c = some (a, s')) : cardNames.Fails [1, 2] s c a s' ∧ CardOnly ⟨s', 0⟩ := by
  cases c with
  | isUnplugged | sleep _ | invalidated | spawnEventLoop _ _ | now | seekTemp | cloneTemp =>
    cases h
    exact ⟨rfl, hc⟩
  | openDevice =>
    cases h
    refine ⟨⟨rfl, fun device hdevice => ?_⟩, hc⟩
    cases hdevice
    rfl
  | storages device =>
    cases h
    exact ⟨⟨rfl, fun _ => cardInfos_answered⟩, hc⟩
  | listObjects storage parent =>
    cases parent with
    | none =>
      cases h
      exact ⟨⟨rfl, fun _ => hc.listing_answered⟩, hc⟩
    | some a => cases h
  | upload storage parent info stream =>
    cases parent with
    | none =>
      simp only [cutAnswers] at h
      split at h
      · rename_i hfree
        cases h
        obtain ⟨hcreates, hc'⟩ := hc.creates (by decide) hfree.2
        exact ⟨.inr ⟨_, ⟨100⟩, hcreates⟩, hc'⟩
      split at h
      · rename_i hfree
        cases h
        exact hc.creates (by decide) hfree
      · cases h
    | some a => cases h
  | delete storage handle =>
    simp only [cutAnswers] at h
    split at h
    · rename_i hthere
      cases h
      exact hc.deletes hthere
    · cases h
  | rename storage handle newName =>
    simp only [cutAnswers] at h
    split at h
    · rename_i hroot
      obtain ⟨obj, hobj, heq⟩ := Option.map_eq_some_iff.mp h
      cases heq
      exact ⟨⟨handle.value, obj, if_neg hroot, hobj, rfl⟩, hc.put (hc _ (by rw [hobj]; rfl))⟩
    · cases h
  | _ => cases h

theorem overwriting_dirtyCard : Overwriting cardNames [1, 2] dirtyCard.link cardPhone 5 1
    ⟨5, 2, "a", .file ⟨80⟩, 3, 0, 0, 0⟩ [] none 80 where
  live := cardMount_get.2.2.2
  file := reached_a
  above := reached_internal
  temp := by
    intro x hx
    rcases cardPhone_cases hx with ⟨-, hname⟩ | ⟨-, hname⟩ | ⟨-, hname⟩
    · exact absurd hname (by decide)
    · exact absurd hname (by decide)
    · exact absurd hname (by decide)

/-- A flush of a dirty buffer over an old object, on a device that can rename, whatever
fails on the way. At every step the old object is there, or one in its folder with all of
the new content. If the flush succeeds, the handle of the inode is one of such an object,
and if it fails the old object is untouched. -/
theorem flush_loses_nothing {fs : MtpFs} {fh : Nat} {buf : FileBuffer} {entry : InodeEntry}
    {names : List String} (hbuf : (fs.writeBuf.close fh).1 = some buf) (hdirty : buf.dirty = true)
    (hrename : fs.link.device.supportsRename = true)
    (h : Overwriting N stores fs.link s₀ buf.inode st entry names folder o) :
    (∀ c s, Prog.Makes (N.Fails stores) ((flushToMtp fh).run fs) s₀ c s →
      Preserved s₀ st folder o buf.file.content s) ∧
    ∀ r fs' s, Prog.Ends (N.Fails stores) ((flushToMtp fh).run fs) s₀ (.ok r, fs') s →
      Preserved s₀ st folder o buf.file.content s ∧
      (r = .ok () → Overwritten N st folder buf.file.content buf.inode fs'.link s) ∧
      ∀ err, r = .error err → s.objects o = s₀.objects o := by
  have hwp : Attempt.wp (N.Fails stores) (fun s _ => Preserved s₀ st folder o buf.file.content s)
      (flushToMtp fh)
      (fun r fs' s' => r = .ok () ∧ Overwritten N st folder buf.file.content buf.inode fs'.link s' ∨
        (∃ err, r = .error err) ∧ s'.objects o = s₀.objects o)
      (fun _ _ _ => False) fs s₀ := by
    unfold flushToMtp onWriteBuf
    rw [Attempt.wp_bind, Attempt.wp_modifyGet]
    rw [hbuf]
    unfold device
    rw [Attempt.wp_lift, wp_onLink, Attempt.wp_run]
    exact Attempt.wp_mono (h.flushBuffer_overwrites rfl hdirty rfl hrename)
      (fun _ _ _ h' => .inl ⟨rfl, h'⟩) fun err _ _ h' => .inr ⟨⟨err, rfl⟩, h'⟩
  refine ⟨fun c s hm => Prog.wp_makes
    (G := fun s _ => Preserved s₀ st folder o buf.file.content s) hwp hm, fun r fs' s hends => ?_⟩
  rcases Act.wp_ends hwp hends with ⟨rfl, hnew⟩ | ⟨⟨err, rfl⟩, hold⟩
  · obtain ⟨-, -, x, -, -, -, hx⟩ := id hnew
    refine ⟨.inr ⟨x, hx⟩, fun _ => hnew, ?_⟩
    intro err herr
    cases herr
  · refine ⟨.inl hold, ?_, fun _ _ => hold⟩
    intro hok
    cases hok

/-- The second upload comes through. -/
theorem flush_loses_nothing_cut : ∃ fs s, Prog.Ends (cardNames.Fails [1, 2])
    ((flushToMtp 0).run dirtyCard) cardPhone (.ok (.ok ()), fs) s ∧
    Overwritten cardNames 1 none [7, 8] 5 fs.link s := by
  have hbuf : ∃ buf, (dirtyCard.writeBuf.close 0).1 = some buf ∧ buf.dirty = true ∧ buf.inode = 5 ∧
      buf.file.content = [7, 8] := ⟨_, rfl, rfl, rfl, rfl⟩
  obtain ⟨buf, hbuf, hdirty, hinode, hcontent⟩ := hbuf
  obtain ⟨⟨⟨r, fs⟩, s⟩, hrun, htest⟩ : ∃ e, ((flushToMtp 0).run dirtyCard).runWith cutAnswers
      cardPhone = some e ∧ (e.1.1.toOption.bind Except.toOption).isSome = true :=
    (Option.any_eq_true _ _).mp (by rfl)
  have hends := Prog.runWith_ends_of (R := cardNames.Fails [1, 2]) (I := fun s => CardOnly ⟨s, 0⟩)
    (fun _ _ _ _ => cutAnswers_fails) cardOnly_start hrun
  obtain ⟨u, hu⟩ := Option.isSome_iff_exists.mp htest
  obtain ⟨flushed, hr, hflushed⟩ := Option.bind_eq_some_iff.mp hu
  rcases r with err | flushed'
  · cases hr
  cases hr
  rcases flushed with err | ⟨⟩
  · cases hflushed
  refine ⟨fs, s, hends, ?_⟩
  rw [← hinode, ← hcontent]
  exact ((flush_loses_nothing hbuf hdirty rfl (hinode ▸ overwriting_dirtyCard)).2 _ _ _ hends).2.1 rfl

end MtpMount
