import MtpMount.Paths
import MtpMount.Storages

/-!
# What an inode stands for, whatever the device answers

What went over the wire says which object a handle of an inode names: it is the handle
that the inode had when it was fresh, or the one that a listing of its folder, on its
storage, named first under its name, in the session that is current.

* `Link.reopened`: the storages and the storage ids after the reconnects so far;
* `HandleOf`, `OldObject`: the handle of an inode, and the storage it is sent with;
* `looksUp_handleOf`: what a walk down finds are such handles;
* `reconnect_reopens`: a reconnect does to the link what it does to the trace.
-/

namespace MtpMount

open Interaction

/-! ## Traces -/

/-- What was answered in a run was asked in it. -/
theorem Prog.made_of_ends {α : Type} {p : Prog Call Answer α} {tr tr' : List Event} {a : α}
    (h : Prog.Ends AnyAnswer p tr a tr') :
    ∃ log, tr' = tr ++ log ∧ ∀ before ev after, log = before ++ ev :: after →
      Prog.Makes AnyAnswer p tr ev.call (tr ++ before) := by
  induction h with
  | done a tr =>
    refine ⟨[], (List.append_nil tr).symm, fun before ev after hlog => ?_⟩
    exact absurd hlog.symm (by simp)
  | @call c k tr tr₁ tr' x a hr _ ih =>
    cases hr
    obtain ⟨log, rfl, hmade⟩ := ih
    refine ⟨⟨c, x⟩ :: log, List.append_assoc .., fun before ev after hlog => ?_⟩
    rcases before with _ | ⟨first, before⟩
    · cases hlog
      rw [List.append_nil]
      exact .here c k tr
    · obtain ⟨rfl, hrest⟩ := List.cons.inj hlog
      have hlater := hmade before ev after hrest
      rw [List.append_assoc] at hlater
      exact .later (.intro tr c x) hlater

/-- What is not among the later events is before them. -/
theorem before_of_append {as bs xs ys : List Event} {ev : Event} (h : as ++ bs = xs ++ ev :: ys)
    (hev : ev ∉ bs) : ∃ zs, as = xs ++ ev :: zs ∧ ys = zs ++ bs := by
  rcases List.append_eq_append_iff.mp h with ⟨mid, rfl, hbs⟩ | ⟨mid, rfl, hmid⟩
  · exact absurd (hbs ▸ List.mem_append_right mid List.mem_cons_self) hev
  · rcases mid with _ | ⟨first, mid⟩
    · rw [List.nil_append] at hmid
      exact absurd (hmid ▸ List.mem_cons_self) hev
    · obtain ⟨rfl, hys⟩ := List.cons.inj hmid
      exact ⟨mid, rfl, hys⟩

/-- The request renews the storages, or makes every handle stale. -/
def Call.isRenewal : Call → Bool
  | .storages _ | .invalidated => true
  | _ => false

/-- The handles that were known are still those of the session. -/
def SameSession (later : List Event) : Prop := ∀ ev ∈ later, ev.call.isRenewal = false

theorem SameSession.append {later later' : List Event} (h : SameSession later)
    (h' : SameSession later') : SameSession (later ++ later') := fun ev hev =>
  (List.mem_append.mp hev).elim (h ev) (h' ev)

theorem SameSession.of_append {later later' : List Event} (h : SameSession (later ++ later')) :
    SameSession later := fun ev hev => h ev (List.mem_append_left _ hev)

theorem SameSession.single {ev : Event} (h : ev.call.isRenewal = false) : SameSession [ev] :=
  fun ev' hev => by rw [List.mem_singleton.mp hev]; exact h

/-- The trace went on in one session. -/
def Continues (tr tr' : List Event) : Prop := ∃ later, tr' = tr ++ later ∧ SameSession later

theorem Continues.event {tr : List Event} {ev : Event} (h : ev.call.isRenewal = false) :
    Continues tr (tr ++ [ev]) := ⟨[ev], rfl, .single h⟩

/-- The event is a listing, whatever its answer. -/
def Event.isListing (ev : Event) : Bool :=
  match ev.call with
  | .listObjects .. => true
  | _ => false

/-- The trace went on with listings alone. -/
def Looks (tr tr' : List Event) : Prop :=
  ∃ later, tr' = tr ++ later ∧ ∀ ev ∈ later, ev.isListing = true

theorem Event.isRenewal_of_isListing {ev : Event} (h : ev.isListing = true) :
    ev.call.isRenewal = false := by
  rcases ev with ⟨c, a⟩
  cases c <;> first | rfl | cases h

namespace Looks

variable {tr tr₁ tr₂ : List Event}

theorem refl (tr : List Event) : Looks tr tr :=
  ⟨[], (List.append_nil tr).symm, fun _ h => nomatch h⟩

theorem trans (h : Looks tr tr₁) (h' : Looks tr₁ tr₂) : Looks tr tr₂ := by
  obtain ⟨later, rfl, hs⟩ := h
  obtain ⟨later', rfl, hs'⟩ := h'
  refine ⟨later ++ later', List.append_assoc .., fun ev hev => ?_⟩
  exact (List.mem_append.mp hev).elim (hs ev) (hs' ev)

theorem continues (h : Looks tr tr₁) : Continues tr tr₁ := by
  obtain ⟨later, rfl, hs⟩ := h
  exact ⟨later, rfl, fun ev hev => Event.isRenewal_of_isListing (hs ev hev)⟩

end Looks

/-! ## The storages in a trace -/

/-- A reopened device whose storages came in is taken over. -/
def Link.reopen (l : Link) : Event → Link
  | ⟨.storages device, .ok infos⟩ => l.adopted device (device.bindStorages infos)
  | _ => l

/-- What the reconnects among the events make of the link. -/
def Link.reopened (l : Link) (events : List Event) : Link := events.foldl Link.reopen l

namespace Link

variable {l l₁ l₂ : Link}

theorem reopen_of_not {ev : Event} (h : ev.call.isRenewal = false) : l.reopen ev = l := by
  rcases ev with ⟨c, a⟩
  cases c <;> first | rfl | cases h

theorem reopened_append (l : Link) (events later : List Event) :
    l.reopened (events ++ later) = (l.reopened events).reopened later := List.foldl_append ..

theorem reopened_sameSession {later : List Event} (h : SameSession later) :
    l.reopened later = l := by
  induction later with
  | nil => rfl
  | cons ev later ih =>
    rw [reopened, List.foldl_cons, reopen_of_not (h ev List.mem_cons_self)]
    exact ih fun ev' hev => h ev' (List.mem_cons_of_mem _ hev)

theorem reopened_later {events later : List Event} (h : SameSession later) :
    l.reopened (events ++ later) = l.reopened events := by
  rw [reopened_append, reopened_sameSession h]

/-- The same device with the same storages, and one tree; handles aside. -/
structure Alike (l l' : Link) : Prop where
  device : l'.device = l.device
  storages : l'.storages = l.storages
  children : l'.inodes.children = l.inodes.children
  place : ∀ i, (l'.inodes.get i).map InodeEntry.place = (l.inodes.get i).map InodeEntry.place

namespace Alike

theorem refl (l : Link) : Alike l l := ⟨rfl, rfl, rfl, fun _ => rfl⟩

theorem trans (h : Alike l l₁) (h' : Alike l₁ l₂) : Alike l l₂ :=
  ⟨h'.device.trans h.device, h'.storages.trans h.storages, h'.children.trans h.children,
    fun i => (h'.place i).trans (h.place i)⟩

theorem of_refreshes {P : Nat → Prop} (h : Refreshes P l l₁) : Alike l l₁ where
  device := by rw [h.rest]
  storages := by rw [h.rest]
  children := by rw [h.rest]; rfl
  place := h.place

theorem invalidateHandles (l : Link) : Alike l l.invalidateHandles := ⟨rfl, rfl, rfl, fun _ => rfl⟩

theorem giveUp (l : Link) (reason : String) : Alike l (l.giveUp reason) :=
  ⟨rfl, rfl, rfl, fun _ => rfl⟩

theorem storageFor (h : Alike l l₁) (i : Nat) : l₁.storageFor i = l.storageFor i := by
  have hlive : ∀ j, (l₁.inodes.get j).isSome = (l.inodes.get j).isSome := fun j => by
    simpa using congrArg Option.isSome (h.place j)
  rw [Link.storageFor, Link.storageFor, walkFuel_congr hlive,
    findStorageFrom_congr h.storages h.place, h.storages]

/-- A reconnect remaps by names and positions. -/
theorem place_remapEntry {e e' : InodeEntry} (h : e'.place = e.place) (storages : List Storage)
    (k : Nat) : (remapEntry storages k e').place = (remapEntry storages k e).place := by
  obtain ⟨hparent, hname, hkind⟩ : e'.parent = e.parent ∧ e'.name = e.name ∧
      e'.kind.withHandle ⟨0⟩ = e.kind.withHandle ⟨0⟩ := by simpa [InodeEntry.place] using h
  unfold remapEntry
  rw [hname]
  cases matchedStorage storages e.name k with
  | none => exact h
  | some storage =>
    cases hk : e.kind <;> cases hk' : e'.kind <;>
      simp_all [InodeEntry.place, InodeKind.withHandle]

theorem place_remap (storages : List Storage) (cs : List (Nat × Nat)) {t u : InodeTable}
    (h : ∀ i, (u.get i).map InodeEntry.place = (t.get i).map InodeEntry.place) (i : Nat) :
    ((cs.foldl (fun t c => remapStorage storages t c.1 c.2) u).get i).map InodeEntry.place =
      ((cs.foldl (fun t c => remapStorage storages t c.1 c.2) t).get i).map InodeEntry.place := by
  induction cs generalizing t u with
  | nil => exact h i
  | cons c cs ih =>
    refine ih fun j => ?_
    rw [get_remapStorage, get_remapStorage]
    split
    · have hc := h c.1
      cases ht : t.get c.1 with
      | none =>
        rw [ht, Option.map_none] at hc
        rw [Option.map_eq_none_iff.mp hc]
      | some e =>
        rw [ht, Option.map_some] at hc
        obtain ⟨e', he', hplace⟩ := Option.map_eq_some_iff.mp hc
        rw [he']
        exact congrArg some (place_remapEntry hplace storages c.2)
    · exact h j

theorem adopted (h : Alike l l₁) (device : MtpDevice) (storages : List Storage) :
    Alike (l.adopted device storages) (l₁.adopted device storages) where
  device := rfl
  storages := rfl
  children := by
    show (remapStorages storages l₁.inodes).children = (remapStorages storages l.inodes).children
    rw [children_remapStorages, children_remapStorages, h.children]
  place := fun i => by
    have hremap := place_remap storages (l.inodes.children FUSE_ROOT_INODE).zipIdx h.place i
    rw [← h.children] at hremap
    show ((remapStorages storages l₁.inodes).get i).map InodeEntry.place =
      ((remapStorages storages l.inodes).get i).map InodeEntry.place
    rw [remapStorages, remapStorages, hremap, h.children]

end Alike

theorem storageFor_of_index {i idx : Nat} {storage : Storage}
    (hidx : findStorageFrom l (walkFuel l.inodes) i = some (some idx))
    (hs : l.storages[idx]? = some storage) : l.storageFor i = some storage := by
  rw [Link.storageFor, hidx]
  exact hs

/-- The link went on as the trace did, by requests of the recovery. -/
def KeepsUp (l : Link) (tr : List Event) (l' : Link) (tr' : List Event) : Prop :=
  ∃ log, tr' = tr ++ log ∧ (∀ ev ∈ log, ev.call.isRecovery = true) ∧
    ∀ l₀ : Link, l₀.Alike l → (l₀.reopened log).Alike l'

namespace KeepsUp

variable {tr tr₁ tr₂ : List Event}

theorem of_alike (h : l.Alike l₁) : l.KeepsUp tr l₁ tr :=
  ⟨[], (List.append_nil tr).symm, (fun _ hev => nomatch hev), fun _ h₀ => h₀.trans h⟩

theorem trans (h : l.KeepsUp tr l₁ tr₁) (h' : l₁.KeepsUp tr₁ l₂ tr₂) : l.KeepsUp tr l₂ tr₂ := by
  obtain ⟨log, rfl, hc, ha⟩ := h
  obtain ⟨log', rfl, hc', ha'⟩ := h'
  refine ⟨log ++ log', List.append_assoc .., fun ev hev => ?_, fun l₀ h₀ => ?_⟩
  · exact (List.mem_append.mp hev).elim (hc ev) (hc' ev)
  · rw [reopened_append]
    exact ha' _ (ha l₀ h₀)

/-- A request that brings nothing new. -/
theorem event {ev : Event} (hc : ev.call.isRecovery = true) (h : ∀ l : Link, l.reopen ev = l)
    (ha : l.Alike l₁) : l.KeepsUp tr l₁ (tr ++ [ev]) := by
  refine ⟨[ev], rfl, fun ev' hev => ?_, fun l₀ h₀ => ?_⟩
  · rw [List.mem_singleton.mp hev]
    exact hc
  · show (l₀.reopen ev).Alike l₁
    rw [h]
    exact h₀.trans ha

/-- The device is taken over once its storages came in. -/
theorem taken (l : Link) (tr : List Event) (device : MtpDevice) (infos : List StorageInfo) :
    l.KeepsUp tr (l.adopted device (device.bindStorages infos))
      (tr ++ [⟨.storages device, .ok infos⟩]) := by
  refine ⟨_, rfl, fun ev hev => ?_, fun l₀ h₀ => h₀.adopted device _⟩
  rw [List.mem_singleton.mp hev]
  rfl

end KeepsUp

end Link

section Reconnect

variable {G : List Event → Call → Prop} (hG : ∀ tr c, c.isRecovery = true → G tr c) {l : Link}
  {tr : List Event}

include hG

theorem adopt_keepsUp (device : MtpDevice) :
    Attempt.wp AnyAnswer G (adopt device) (fun _ l' tr' => l.KeepsUp tr l' tr')
      (fun _ l' tr' => l.KeepsUp tr l' tr') l tr := by
  unfold adopt
  simp only [Attempt.wp_bind, Attempt.wp_mk, Attempt.wp_modify, Attempt.wp_get, Attempt.wp_lift]
  refine wp_call.mpr ⟨hG _ _ rfl, fun answer tr₁ hr => ?_⟩
  cases hr
  rcases answer with err | infos
  · exact .event rfl (fun _ => rfl) (.refl l)
  · refine wp_call.mpr ⟨hG _ _ rfl, fun u tr₂ hr => ?_⟩
    cases hr
    refine wp_call.mpr ⟨hG _ _ rfl, fun v tr₃ hr => ?_⟩
    cases hr
    have hmarked : l.KeepsUp tr (l.adopted device (device.bindStorages infos))
        (tr ++ [⟨.storages device, .ok infos⟩] ++ [⟨.invalidated, u⟩]) :=
      (Link.KeepsUp.taken l tr device infos).trans (.event rfl (fun _ => rfl) (.refl _))
    exact hmarked.trans (.event rfl (fun _ => rfl) (.refl _))

theorem reconnectAfter_keepsUp (delays : List Nat) :
    Attempt.wp AnyAnswer G (reconnectAfter delays) (fun _ l' tr' => l.KeepsUp tr l' tr')
      (fun _ l' tr' => l.KeepsUp tr l' tr') l tr := by
  induction delays generalizing l tr with
  | nil =>
    unfold reconnectAfter
    simp only [Attempt.wp_bind, Attempt.wp_modify, Attempt.wp_throw]
    exact .of_alike (.giveUp l _)
  | cons delay rest ih =>
    unfold reconnectAfter
    simp only [Attempt.wp_bind, Attempt.wp_lift]
    refine wp_call.mpr ⟨hG _ _ rfl, fun u tr₁ hr => ?_⟩
    cases hr
    refine wp_call.mpr ⟨hG _ _ rfl, fun out tr₂ hr => ?_⟩
    cases hr
    have hslept : l.KeepsUp tr l (tr ++ [⟨.sleep delay, u⟩] ++ [⟨.isUnplugged, out⟩]) :=
      Link.KeepsUp.trans (.event rfl (fun _ => rfl) (.refl l)) (.event rfl (fun _ => rfl) (.refl l))
    have hrest : ∀ {l' tr'}, l.KeepsUp tr l' tr' → Attempt.wp AnyAnswer G (reconnectAfter rest)
        (fun _ l' tr' => l.KeepsUp tr l' tr') (fun _ l' tr' => l.KeepsUp tr l' tr') l' tr' :=
      fun h => Attempt.wp_mono ih (fun _ _ _ h' => h.trans h') fun _ _ _ h' => h.trans h'
    split
    · exact hrest hslept
    · simp only [Attempt.wp_bind, Attempt.wp_outcome, Attempt.wp_mk]
      refine wp_call.mpr ⟨hG _ _ rfl, fun answer tr₃ hr => ?_⟩
      cases hr
      have hopened : l.KeepsUp tr l (tr ++ [⟨.sleep delay, u⟩] ++ [⟨.isUnplugged, out⟩] ++
          [⟨.openDevice, answer⟩]) := hslept.trans (.event rfl (fun _ => rfl) (.refl l))
      rcases answer with err | device
      · exact hrest hopened
      · exact Attempt.wp_mono (adopt_keepsUp hG device) (fun _ _ _ h' => hopened.trans h')
          fun _ _ _ h' => hrest (hopened.trans h')

/-- A reconnect does to the link what it does to the trace. -/
theorem reconnect_keepsUp :
    Attempt.wp AnyAnswer G reconnect (fun _ l' tr' => l.KeepsUp tr l' tr')
      (fun _ l' tr' => l.KeepsUp tr l' tr') l tr := by
  unfold reconnect
  simp only [Attempt.wp_bind, Attempt.wp_get]
  split
  · simp only [Attempt.wp_bind, Attempt.wp_modify, Attempt.wp_throw]
    exact .of_alike (.giveUp l _)
  · exact reconnectAfter_keepsUp hG _

end Reconnect

/-! ## The handle of an inode -/

/-- With the link `l₀` at the events `tr₀` to begin with, this handle is the one of the
inode at the end of a trace: a storage has none, and an object has the one it had, or
the one that a listing of its folder on its storage named first. -/
inductive HandleOf (l₀ : Link) (tr₀ : List Event) :
    List Event → Nat → Option ObjectHandle → Prop
  | top {tr : List Event} {i : Nat} {entry : InodeEntry} :
      l₀.inodes.get i = some entry → entry.kind.handle? = none → HandleOf l₀ tr₀ tr i none
  | held {tr later : List Event} {i : Nat} {entry : InodeEntry} {a : ObjectHandle} :
      l₀.inodes.get i = some entry → l₀.inodes.isFresh i = true → entry.kind.handle? = some a →
      tr = tr₀ ++ later → SameSession later → HandleOf l₀ tr₀ tr i (some a)
  | listed {tr before later : List Event} {i : Nat} {entry : InodeEntry} {storage : Storage}
      {folder : Option ObjectHandle} {objects : List ObjectInfo} {found : ObjectInfo} :
      l₀.inodes.get i = some entry → entry.kind.handle?.isSome = true →
      tr = tr₀ ++ before ++ ⟨.listObjects storage folder, .ok objects⟩ :: later →
      SameSession later → HandleOf l₀ tr₀ (tr₀ ++ before) entry.parent folder →
      (l₀.reopened before).storageFor i = some storage →
      objects.find? (fun obj => obj.filename == entry.name) = some found →
      HandleOf l₀ tr₀ tr i (some found.handle)

/-- The object that the inode stands for at the end of a trace, as a request names it. -/
def OldObject (l₀ : Link) (tr₀ tr : List Event) (i : Nat) (storage : Storage) (a : ObjectHandle) :
    Prop :=
  HandleOf l₀ tr₀ tr i (some a) ∧
    ∃ events, tr = tr₀ ++ events ∧ (l₀.reopened events).storageFor i = some storage

section Handles

variable {l₀ : Link} {tr₀ tr tr' : List Event} {i : Nat} {handle : Option ObjectHandle}
  {storage : Storage} {a : ObjectHandle}

theorem HandleOf.mono (h : HandleOf l₀ tr₀ tr i handle) (hc : Continues tr tr') :
    HandleOf l₀ tr₀ tr' i handle := by
  obtain ⟨later', rfl, hs'⟩ := hc
  cases h with
  | top he hk => exact .top he hk
  | held he hf ha htr hs => exact .held he hf ha (by rw [htr, List.append_assoc]) (hs.append hs')
  | listed he hk htr hs hfolder hst hfind =>
    refine .listed he hk ?_ (hs.append hs') hfolder hst hfind
    rw [htr, List.append_assoc, List.cons_append]

theorem OldObject.mono (h : OldObject l₀ tr₀ tr i storage a) (hc : Continues tr tr') :
    OldObject l₀ tr₀ tr' i storage a := by
  refine ⟨h.1.mono hc, ?_⟩
  obtain ⟨events, rfl, hst⟩ := h.2
  obtain ⟨later, rfl, hs⟩ := hc
  exact ⟨events ++ later, List.append_assoc .., by rw [Link.reopened_later hs, hst]⟩

/-- What a handle is known from lies before events that list nothing. -/
theorem HandleOf.of_append {events later : List Event}
    (h : HandleOf l₀ tr₀ (tr₀ ++ events ++ later) i handle)
    (hl : ∀ ev ∈ later, ev.isListing = false) : HandleOf l₀ tr₀ (tr₀ ++ events) i handle := by
  cases h with
  | top he hk => exact .top he hk
  | @held _ since _ _ _ he hf ha htr hs =>
    rw [List.append_assoc] at htr
    rw [← List.append_cancel_left htr] at hs
    exact .held he hf ha rfl hs.of_append
  | @listed _ before since _ entry storage folder objects found he hk htr hs hfolder hst hfind =>
    rw [List.append_assoc tr₀ before, List.append_assoc] at htr
    have hmem : (⟨.listObjects storage folder, .ok objects⟩ : Event) ∉ later := fun hmem =>
      nomatch hl _ hmem
    obtain ⟨mid, rfl, rfl⟩ := before_of_append (List.append_cancel_left htr) hmem
    exact .listed he hk (List.append_assoc ..).symm hs.of_append hfolder hst hfind

theorem OldObject.of_append {events later : List Event}
    (h : OldObject l₀ tr₀ (tr₀ ++ events ++ later) i storage a)
    (hl : ∀ ev ∈ later, ev.isListing = false) (hs : SameSession later) :
    OldObject l₀ tr₀ (tr₀ ++ events) i storage a := by
  refine ⟨h.1.of_append hl, events, rfl, ?_⟩
  obtain ⟨all, htr, hst⟩ := h.2
  rw [List.append_assoc] at htr
  rw [← List.append_cancel_left htr, Link.reopened_later hs] at hst
  exact hst

/-! ## Looking a handle up -/

variable {l : Link} {events : List Event}

theorem lasting_handleOf (l₀ : Link) (tr₀ : List Event) :
    Lasting Looks (fun tr i a => HandleOf l₀ tr₀ tr i (some a)) where
  refl := .refl
  trans := .trans
  keeps := fun hl h => h.mono hl.continues

/-- The folder that the walk down has come to is the one above the node. -/
theorem handleOf_above {node top : Nat} {above : List Nat} {entry : InodeEntry}
    {parent : Option ObjectHandle} (htree : l₀.inodes.SameTree l.inodes)
    (hc : l.inodes.Climbs node (node :: above) top) (he : l.inodes.get node = some entry)
    (ha : Above (fun tr i a => HandleOf l₀ tr₀ tr i (some a)) tr above parent) :
    HandleOf l₀ tr₀ tr entry.parent parent := by
  cases hc with
  | up he' _ hc' =>
    cases he.symm.trans he'
    cases above with
    | nil =>
      cases ha
      cases hc' with
      | top ht =>
        obtain ⟨folder, hfolder, hk⟩ := htree.symm.isTop ht
        exact .top hfolder hk
    | cons j rest =>
      obtain ⟨a, rfl, hD⟩ := ha
      cases hc' with
      | up _ _ _ => exact hD

/-- What a walk down finds by name is the handle. -/
theorem looksUp_handleOf {G : List Event → Call → Prop} (i : Nat)
    (hG : ∀ tr, G tr .hang ∧ ∀ storage folder, G tr (.listObjects storage folder))
    (htree : l₀.inodes.SameTree l.inodes) (halike : (l₀.reopened events).Alike l)
    (htr : tr = tr₀ ++ events) :
    LooksUp AnyAnswer G Looks (fun tr i a => HandleOf l₀ tr₀ tr i (some a)) (fun _ => True)
      l tr i where
  toLasting := lasting_handleOf l₀ tr₀
  hang := (hG tr).1
  missing := fun _ => trivial
  listing := by
    intro nodes top idx storage below node above entry parent tr₁ hlooks hc hidx hs hnodes he ha
    refine ⟨(hG tr₁).2 _ _, fun answer tr₂ hr => ?_⟩
    cases hr
    have hlisting : Looks tr₁ (tr₁ ++ [⟨.listObjects storage parent, answer⟩]) :=
      ⟨_, rfl, fun ev hev => by rw [List.mem_singleton.mp hev]; rfl⟩
    refine ⟨hlisting, ?_⟩
    rcases answer with err | objects
    · trivial
    · refine ⟨fun _ => trivial, fun found hfound => ?_⟩
      have hself : l.inodes.Climbs node (node :: above) top := (hnodes ▸ hc).suffix
      have hfolder := handleOf_above htree hself he ha
      obtain ⟨entry₀, he₀, hshape⟩ := htree.symm.get he
      obtain ⟨hparent, hname, hbare⟩ := InodeEntry.shape_inj hshape
      have hkind : entry₀.kind.handle?.isSome = true := by
        obtain ⟨e, a, he', hk⟩ := hself.node List.mem_cons_self
        cases he.symm.trans he'
        rw [InodeKind.isSome_handle? hbare, hk]
        rfl
      have hmem : node ∈ nodes := hnodes ▸ List.mem_append_right below List.mem_cons_self
      have hstorage := (halike.storageFor node).symm.trans (storageFor_onChain hc hidx hs hmem)
      obtain ⟨later, rfl, hlater⟩ := hlooks
      have hsame : SameSession later := fun ev hev => Event.isRenewal_of_isListing (hlater ev hev)
      rw [htr, List.append_assoc tr₀, ← hparent] at hfolder
      rw [← hname] at hfound
      have htr₂ : tr ++ later ++ [⟨.listObjects storage parent, .ok objects⟩] = tr₀ ++
          (events ++ later) ++ ⟨.listObjects storage parent, .ok objects⟩ :: [] := by
        rw [htr, List.append_assoc tr₀]
      rw [← Link.reopened_later hsame] at hstorage
      exact .listed he₀ hkind htr₂ (fun _ h => nomatch h) hfolder hstorage hfound

end Handles

end MtpMount
