import MtpMount.FlushRules
import MtpMount.Fs
import MtpMount.OldObjects

/-!
# What a flush deletes

A flush deletes the old object of its inode, and a retry clears away what an
earlier attempt may have left. What it clears it finds by name in the target
folder, so an object of the user under the temporary name goes as well.

* `flush_deletes`: every delete of a flush is one of the two;
* `flush_deletes_iff`: its deletes are of its own objects just if a retry finds no
  others under the temporary name;
* `flush_deletes_foreign`: a retry deletes an object that no upload of the flush
  can have left.
-/

namespace MtpMount

open Interaction

/-! ## Clean-ups in a trace -/

/-- The request uploads content. -/
def Call.isUpload : Call → Bool
  | .upload .. => true
  | _ => false

/-- The cursor of the spool file was moved. -/
def Event.rewinds : Event → Bool
  | ⟨.seekTemp, none⟩ => true
  | _ => false

section Kinds

variable {ev : Event}

theorem Event.of_isDelete (h : ev.call.isDelete = true) :
    ev.call.isUpload = false ∧ ev.call.isRenewal = false ∧ ev.isListing = false ∧
      ev.rewinds = false := by
  rcases ev with ⟨c, a⟩
  cases c <;> first | exact ⟨rfl, rfl, rfl, rfl⟩ | cases h

theorem Event.of_isUpload (h : ev.call.isUpload = true) :
    ev.call.isRenewal = false ∧ ev.isListing = false := by
  rcases ev with ⟨c, a⟩
  cases c <;> first | exact ⟨rfl, rfl⟩ | cases h

theorem Event.of_isListing (h : ev.isListing = true) :
    ev.call.isDelete = false ∧ ev.call.isUpload = false ∧ ev.rewinds = false := by
  rcases ev with ⟨c, a⟩
  cases c <;> first | exact ⟨rfl, rfl, rfl⟩ | cases h

theorem Event.of_isRecovery (h : ev.call.isRecovery = true) :
    ev.call.isDelete = false ∧ ev.call.isUpload = false ∧ ev.rewinds = false := by
  rcases ev with ⟨c, a⟩
  cases c <;> first | exact ⟨rfl, rfl, rfl⟩ | cases h

theorem sameSession_deletes {deletes : List Event} (hd : ∀ ev ∈ deletes, ev.call.isDelete = true) :
    SameSession deletes := fun ev hev => (Event.of_isDelete (hd ev hev)).2.1

end Kinds

/-- The attempts that a flush has begun. Its first seek is for the length. -/
def attemptsBegun (events : List Event) : Nat := events.countP Event.rewinds - 1

/-- A listing that came in. -/
structure FolderListing where
  storage : Storage
  folder : Option ObjectHandle
  objects : List ObjectInfo

namespace FolderListing

def event (x : FolderListing) : Event := ⟨.listObjects x.storage x.folder, .ok x.objects⟩

/-- What it reports under a name. -/
def named (x : FolderListing) (name : String) : List ObjectInfo :=
  x.objects.filter fun obj => obj.filename == name

theorem event_inj {x y : FolderListing} (h : x.event = y.event) : x = y := by
  obtain ⟨s, f, objects⟩ := x
  obtain ⟨s', f', objects'⟩ := y
  cases h
  rfl

end FolderListing

/-- After the events `before` of a flush, the listing is of the folder that it uploads
into, and a retry makes it on a device that can rename. -/
structure Clears (l₀ : Link) (tr₀ : List Event) (inode : Nat) (entry : InodeEntry)
    (before : List Event) (x : FolderListing) : Prop where
  retry : 2 ≤ attemptsBegun before
  safe : (l₀.reopened before).device.supportsRename = true
  storage : (l₀.reopened before).storageFor inode = some x.storage
  folder : HandleOf l₀ tr₀ (tr₀ ++ before) entry.parent x.folder

/-- By this listing a retry cleared the folder: what comes next deletes or uploads. -/
structure ClearsAway (l₀ : Link) (tr₀ : List Event) (inode : Nat) (entry : InodeEntry)
    (tr before : List Event) (x : FolderListing) : Prop
    extends Clears l₀ tr₀ inode entry before x where
  next : ∃ ev after, tr = tr₀ ++ before ++ x.event :: ev :: after ∧
    (ev.call.isDelete = true ∨ ev.call.isUpload = true)

/-- A retry listed the target folder just now, and `a` was in it under the
temporary name. -/
inductive Leftover (l₀ : Link) (tr₀ : List Event) (inode : Nat) (entry : InodeEntry)
    (tr : List Event) (storage : Storage) (a : ObjectHandle) : Prop
  | intro {before deletes : List Event} {x : FolderListing} {obj : ObjectInfo} :
      tr = tr₀ ++ before ++ x.event :: deletes → (∀ ev ∈ deletes, ev.call.isDelete = true) →
      Clears l₀ tr₀ inode entry before x → x.storage = storage →
      obj ∈ x.named (tempUploadName entry.name) → obj.handle = a →
      Leftover l₀ tr₀ inode entry tr storage a

/-- The old object, or one that is taken for a leftover of this flush. -/
def FlushMayDelete (l₀ : Link) (tr₀ : List Event) (inode : Nat) (entry : InodeEntry)
    (tr : List Event) (c : Call) : Prop :=
  ∀ storage a, c = .delete storage a →
    OldObject l₀ tr₀ tr inode storage a ∨ Leftover l₀ tr₀ inode entry tr storage a

/-- What follows a listing begins with deletes, and those of all that it has under the
name are among them. -/
def Cleared (name : String) (x : FolderListing) (rest : List Event) : Prop :=
  ∃ deletes after, rest = deletes ++ after ∧ (∀ ev ∈ deletes, ev.call.isDelete = true) ∧
    ∀ obj ∈ x.named name, ∃ answer, ⟨.delete x.storage obj.handle, answer⟩ ∈ deletes

/-- Whatever a retry finds under the name it has deleted. -/
def Accounted (l₀ : Link) (tr₀ : List Event) (name : String) (tr : List Event) : Prop :=
  ∀ before x ev after, tr = tr₀ ++ before ++ x.event :: ev :: after → 2 ≤ attemptsBegun before →
    (l₀.reopened before).device.supportsRename = true →
    (ev.call.isDelete = true ∨ ev.call.isUpload = true) → Cleared name x (ev :: after)

section Accounts

variable {l₀ : Link} {tr₀ tr : List Event} {name : String}

/-- Two events in a row are both before the cut, both after it, or on either side. -/
theorem two_of_append {xs ys as bs : List Event} {c d : Event}
    (h : xs ++ ys = as ++ c :: d :: bs) :
    (∃ bs', xs = as ++ c :: d :: bs' ∧ bs = bs' ++ ys) ∨ (xs = as ++ [c] ∧ ys = d :: bs) ∨
      ∃ as', ys = as' ++ c :: d :: bs := by
  rcases List.append_eq_append_iff.mp h with ⟨mid, rfl, hys⟩ | ⟨mid, rfl, hmid⟩
  · exact .inr (.inr ⟨mid, hys⟩)
  · rcases mid with _ | ⟨c', _ | ⟨d', mid⟩⟩
    · exact .inr (.inr ⟨[], hmid.symm⟩)
    · obtain ⟨rfl, hys⟩ := List.cons.inj hmid
      exact .inr (.inl ⟨rfl, hys.symm⟩)
    · obtain ⟨rfl, hrest⟩ := List.cons.inj hmid
      obtain ⟨rfl, hbs⟩ := List.cons.inj hrest
      exact .inl ⟨mid, rfl, hbs⟩

theorem Cleared.append {x : FolderListing} {rest : List Event} (h : Cleared name x rest)
    (later : List Event) : Cleared name x (rest ++ later) := by
  obtain ⟨deletes, after, rfl, hd⟩ := h
  exact ⟨deletes, after ++ later, List.append_assoc .., hd⟩

namespace Accounted

theorem start (l₀ : Link) (tr₀ : List Event) (name : String) : Accounted l₀ tr₀ name tr₀ := by
  intro before x ev after htr
  rw [List.append_assoc] at htr
  exact absurd (List.self_eq_append_right.mp htr) (by simp)

/-- The trace goes on. A listing that ends it, or that is new, is dealt with. -/
theorem append {later : List Event} (h : Accounted l₀ tr₀ name tr)
    (hlast : ∀ before x ev after, tr = tr₀ ++ before ++ [x.event] → later = ev :: after →
      2 ≤ attemptsBegun before → (l₀.reopened before).device.supportsRename = true →
      (ev.call.isDelete = true ∨ ev.call.isUpload = true) → Cleared name x (ev :: after))
    (hnew : ∀ before x ev after, later = before ++ x.event :: ev :: after →
      (ev.call.isDelete = true ∨ ev.call.isUpload = true) → Cleared name x (ev :: after)) :
    Accounted l₀ tr₀ name (tr ++ later) := by
  intro before x ev after htr hretry hsafe hev
  rcases two_of_append htr with ⟨after', htr', hafter⟩ | ⟨htr', hlater⟩ | ⟨before', hlater⟩
  · rw [hafter]
    exact (h before x ev after' htr' hretry hsafe hev).append later
  · exact hlast before x ev after htr' hlater hretry hsafe hev
  · exact hnew before' x ev after hlater hev

theorem snoc {ev : Event} (h : Accounted l₀ tr₀ name tr)
    (hlast : ∀ before x, tr = tr₀ ++ before ++ [x.event] → 2 ≤ attemptsBegun before →
      (l₀.reopened before).device.supportsRename = true →
      (ev.call.isDelete = true ∨ ev.call.isUpload = true) → Cleared name x [ev]) :
    Accounted l₀ tr₀ name (tr ++ [ev]) := by
  refine h.append (fun before x ev' after htr hlater hretry hsafe hev => ?_) ?_
  · cases hlater
    exact hlast before x htr hretry hsafe hev
  · intro before x ev' after hlater
    have hlen := congrArg List.length hlater
    rw [List.length_append] at hlen
    exact absurd hlen (by simp; omega)

/-- Neither a delete nor an upload. -/
theorem quiet {ev : Event} (h : Accounted l₀ tr₀ name tr) (hd : ev.call.isDelete = false)
    (hu : ev.call.isUpload = false) : Accounted l₀ tr₀ name (tr ++ [ev]) :=
  h.snoc fun _ _ _ _ _ hev => by
    rw [hd, hu] at hev
    rcases hev with hev | hev <;> cases hev

theorem quiets {later : List Event} (h : Accounted l₀ tr₀ name tr)
    (hq : ∀ ev ∈ later, ev.call.isDelete = false ∧ ev.call.isUpload = false) :
    Accounted l₀ tr₀ name (tr ++ later) := by
  induction later generalizing tr with
  | nil => rwa [List.append_nil]
  | cons ev later ih =>
    obtain ⟨hd, hu⟩ := hq ev List.mem_cons_self
    have hrest := ih (h.quiet hd hu) fun ev' hev => hq ev' (List.mem_cons_of_mem _ hev)
    rwa [List.append_assoc] at hrest

/-- Whatever comes after something else than a listing. -/
theorem after {ev ev' : Event} (h : Accounted l₀ tr₀ name (tr ++ [ev]))
    (hl : ev.isListing = false) : Accounted l₀ tr₀ name (tr ++ [ev] ++ [ev']) := by
  refine h.snoc fun before x htr => ?_
  obtain ⟨-, hlast⟩ := List.append_inj' htr rfl
  cases hlast
  cases hl

/-- A clean-up, up to the upload. -/
theorem cleared {x : FolderListing} {deletes : List Event} {ev : Event}
    (h : Accounted l₀ tr₀ name tr) (hd : ∀ ev ∈ deletes, ev.call.isDelete = true)
    (hall : ∀ obj ∈ x.named name, ∃ answer, ⟨.delete x.storage obj.handle, answer⟩ ∈ deletes)
    (hup : ev.call.isUpload = true) :
    Accounted l₀ tr₀ name (tr ++ x.event :: (deletes ++ [ev])) := by
  refine h.append (fun before y ev' after _ hlater _ _ hev => ?_)
    fun before y ev' after hlater _ => ?_
  · cases (List.cons.inj hlater).1
    rcases hev with hev | hev <;> cases hev
  · rcases before with _ | ⟨first, before⟩
    · obtain ⟨hx, hrest⟩ := List.cons.inj hlater
      obtain rfl := FolderListing.event_inj hx
      exact ⟨deletes, [ev], hrest.symm, hd, hall⟩
    · -- no other event of the clean-up is a listing
      have hmem : y.event ∈ deletes ++ [ev] := by
        rw [(List.cons.inj hlater).2]
        exact List.mem_append_right _ List.mem_cons_self
      rcases List.mem_append.mp hmem with hmem | hmem
      · cases hd _ hmem
      · rw [← List.mem_singleton.mp hmem] at hup
        cases hup

end Accounted

end Accounts

/-! ## One attempt -/

/-- What holds before every attempt, and also after one that failed. -/
structure Flushes (l₀ : Link) (tr₀ : List Event) (f : Flushing) (tr : List Event) : Prop where
  tree : l₀.inodes.SameTree f.link.inodes
  dated : f.link.inodes.Dated
  denotes : f.link.Denotes (fun tr i a => HandleOf l₀ tr₀ tr i (some a)) tr
  since : ∃ events, tr = tr₀ ++ events ∧ events.countP Event.rewinds = f.attempts + 1 ∧
    (l₀.reopened events).Alike f.link

section Rules

variable {l₀ : Link} {tr₀ : List Event} {inode : Nat} {entry : InodeEntry}
  {G : List Event → Call → Prop} {f : Flushing} {tr : List Event}
  (hG : ∀ tr c, FlushMayDelete l₀ tr₀ inode entry tr c → G tr c)

theorem flushMayDelete_of_not {c : Call} (hc : c.isDelete = false) :
    FlushMayDelete l₀ tr₀ inode entry tr c := by
  rintro storage a rfl
  cases hc

theorem flushMayDelete_old {storage : Storage} {a : ObjectHandle}
    (h : OldObject l₀ tr₀ tr inode storage a) :
    FlushMayDelete l₀ tr₀ inode entry tr (.delete storage a) := by
  rintro storage' a' ⟨⟩
  exact .inl h

namespace Flushes

/-- More events of the session, and nothing else is different. -/
theorem events {later : List Event} (h : Flushes l₀ tr₀ f tr) (hs : SameSession later)
    (hr : ∀ ev ∈ later, ev.rewinds = false) : Flushes l₀ tr₀ f (tr ++ later) where
  tree := h.tree
  dated := h.dated
  denotes := h.denotes.mono fun _ _ hD => hD.mono ⟨later, rfl, hs⟩
  since := by
    obtain ⟨events, rfl, hcount, halike⟩ := h.since
    refine ⟨events ++ later, List.append_assoc .., ?_, ?_⟩
    · rw [List.countP_append, hcount, List.countP_eq_zero.mpr fun ev hev => ?_]
      rw [hr ev hev]
      exact Bool.false_ne_true
    · rw [Link.reopened_later hs]
      exact halike

theorem event {ev : Event} (h : Flushes l₀ tr₀ f tr) (hs : ev.call.isRenewal = false)
    (hr : ev.rewinds = false) : Flushes l₀ tr₀ f (tr ++ [ev]) :=
  h.events (.single hs) fun ev' hev => by rw [List.mem_singleton.mp hev, hr]

/-- Handles were refreshed. -/
theorem resolved {P : Nat → Prop} {l : Link} {tr' : List Event} (h : Flushes l₀ tr₀ f tr)
    (hr : Resolved Looks (fun tr i a => HandleOf l₀ tr₀ tr i (some a)) P f.link tr l tr') :
    Flushes l₀ tr₀ { f with link := l } tr' where
  tree := h.tree.trans (.refreshes hr.refreshes)
  dated := by
    intro i e he
    rcases hr.refreshes.entry i with hsame | ⟨e', a, -, -, -, -, hnew⟩
    · rw [hr.refreshes.generation]
      exact h.dated i e (by rw [← hsame]; exact he)
    · cases hnew.symm.trans he
      exact Nat.le_of_eq hr.refreshes.generation.symm
  denotes := hr.denotes
  since := by
    obtain ⟨events, rfl, hcount, halike⟩ := h.since
    obtain ⟨later, rfl, hl⟩ := hr.env
    refine ⟨events ++ later, List.append_assoc .., ?_, ?_⟩
    · rw [List.countP_append, hcount, List.countP_eq_zero.mpr fun ev hev => ?_]
      exact Bool.not_eq_true _ ▸ (Event.of_isListing (hl ev hev)).2.2
    · rw [Link.reopened_later fun ev hev => Event.isRenewal_of_isListing (hl ev hev)]
      exact halike.trans (.of_refreshes hr.refreshes)

/-- Nothing is fresh on a new session, so nothing can be deleted by an old handle. -/
theorem renewed {l : Link} {log : List Event} (h : Flushes l₀ tr₀ f tr)
    (htree : f.link.inodes.SameTree l.inodes) (hdated : l.inodes.Dated)
    (hnothing : l.inodes.NothingFresh) (hlog : ∀ ev ∈ log, ev.call.isRecovery = true)
    (halike : ∀ l₀ : Link, l₀.Alike f.link → (l₀.reopened log).Alike l) :
    Flushes l₀ tr₀ { f with link := l } (tr ++ log) := by
  refine ⟨h.tree.trans htree, hdated, .of_nothingFresh hnothing, ?_⟩
  obtain ⟨events, rfl, hcount, hold⟩ := h.since
  refine ⟨events ++ log, List.append_assoc .., ?_, ?_⟩
  · rw [List.countP_append, hcount, List.countP_eq_zero.mpr fun ev hev => ?_]
    exact Bool.not_eq_true _ ▸ (Event.of_isRecovery (hlog ev hev)).2.2
  · rw [Link.reopened_append]
    exact halike _ hold

/-- At the first attempt there is nothing to clear away. -/
theorem accounted_upload {ev : Event} (h : Flushes l₀ tr₀ f tr) (hfirst : f.attempts ≤ 1)
    (ha : Accounted l₀ tr₀ (tempUploadName entry.name) tr) :
    Accounted l₀ tr₀ (tempUploadName entry.name) (tr ++ [ev]) := by
  refine ha.snoc fun before x htr hretry => ?_
  obtain ⟨events, rfl, hcount, -⟩ := h.since
  rw [List.append_assoc] at htr
  rw [List.append_cancel_left htr, List.countP_append, List.countP_singleton] at hcount
  have hquiet : Event.rewinds x.event = false := rfl
  rw [hquiet] at hcount
  unfold attemptsBegun at hretry
  simp only [Bool.false_eq_true, if_false] at hcount
  omega

/-- On a device that cannot rename there is nothing to clear away. -/
theorem accounted_renameless {ev : Event} (h : Flushes l₀ tr₀ f tr)
    (hrenameless : f.link.device.supportsRename = false)
    (ha : Accounted l₀ tr₀ (tempUploadName entry.name) tr) :
    Accounted l₀ tr₀ (tempUploadName entry.name) (tr ++ [ev]) := by
  refine ha.snoc fun before x htr _ hsafe => ?_
  obtain ⟨events, rfl, -, halike⟩ := h.since
  rw [List.append_assoc] at htr
  rw [List.append_cancel_left htr, Link.reopened_later (.single rfl)] at halike
  rw [← halike.device, hrenameless] at hsafe
  cases hsafe

/-- What a lookup finds on the storage of the inode is the old object. -/
theorem oldObject {idx : Nat} {storage : Storage} {a : ObjectHandle} (h : Flushes l₀ tr₀ f tr)
    (ha : HandleOf l₀ tr₀ tr inode (some a))
    (hidx : findStorageFrom f.link (walkFuel f.link.inodes) inode = some (some idx))
    (hst : f.link.storages[idx]? = some storage) : OldObject l₀ tr₀ tr inode storage a := by
  obtain ⟨events, htr, -, halike⟩ := h.since
  exact ⟨ha, events, htr, (halike.storageFor inode).symm.trans (Link.storageFor_of_index hidx hst)⟩

/-- The folder that a request names is the one that the inode is in. -/
theorem folder {i : Nat} {parent : Option ObjectHandle} (h : Flushes l₀ tr₀ f tr)
    (hp : IsParent (fun tr i a => HandleOf l₀ tr₀ tr i (some a)) tr f.link.inodes i parent) :
    HandleOf l₀ tr₀ tr i parent := by
  obtain ⟨folder, hfolder, ⟨sid, hk, rfl⟩ | ⟨a, -, rfl, hD⟩⟩ := hp
  · obtain ⟨folder₀, hfolder₀, hshape⟩ := h.tree.symm.get hfolder
    have hsome : folder₀.kind.handle?.isSome = false := by
      rw [InodeKind.isSome_handle? (InodeEntry.shape_inj hshape).2.2, hk]
      rfl
    exact .top hfolder₀ (Option.isNone_iff_eq_none.mp (Option.isSome_eq_false_iff.mp hsome))
  · exact hD

/-- What a retry lists next is a clean-up. -/
theorem clears {storage : Storage} {a : ObjectHandle} {parent : Option ObjectHandle}
    (h : Flushes l₀ tr₀ f tr) (htwo : 2 ≤ f.attempts)
    (hsafe : f.link.device.supportsRename = true) (hold : OldObject l₀ tr₀ tr inode storage a)
    (hfolder : HandleOf l₀ tr₀ tr entry.parent parent) :
    ∃ before, tr = tr₀ ++ before ∧
      ∀ objects, Clears l₀ tr₀ inode entry before ⟨storage, parent, objects⟩ := by
  obtain ⟨before, htr, hcount, halike⟩ := h.since
  refine ⟨before, htr, fun objects => ⟨?_, ?_, ?_, htr ▸ hfolder⟩⟩
  · unfold attemptsBegun
    omega
  · rw [← halike.device]
    exact hsafe
  · obtain ⟨events, hevents, hst⟩ := hold.2
    rw [List.append_cancel_left (htr.symm.trans hevents)]
    exact hst

end Flushes

include hG

/-- The clean-up deletes, and what it deletes was listed. -/
theorem deleteAll_leftover {l : Link} {storage : Storage} (objects : List ObjectInfo)
    {X : Error → Link → List Event → Prop}
    (hobj : ∀ obj ∈ objects, ∀ deletes, (∀ ev ∈ deletes, ev.call.isDelete = true) →
      Leftover l₀ tr₀ inode entry (tr ++ deletes) storage obj.handle) :
    Attempt.wp AnyAnswer G (deleteAll storage objects)
      (fun _ l' tr' => l' = l ∧ ∃ deletes, tr' = tr ++ deletes ∧
        (∀ ev ∈ deletes, ev.call.isDelete = true) ∧
        ∀ obj ∈ objects, ∃ answer, ⟨.delete storage obj.handle, answer⟩ ∈ deletes) X l tr := by
  induction objects generalizing tr with
  | nil => exact ⟨rfl, [], by simp, (fun _ h => nomatch h), fun _ h => nomatch h⟩
  | cons obj rest ih =>
    unfold deleteAll
    rw [Attempt.wp_bind, Attempt.wp_outcome, Attempt.wp_mk]
    have hdel : FlushMayDelete l₀ tr₀ inode entry tr (.delete storage obj.handle) := by
      rintro storage' a ⟨⟩
      have h := hobj obj List.mem_cons_self [] fun _ h => nomatch h
      rw [List.append_nil] at h
      exact .inr h
    refine wp_call.mpr ⟨hG _ _ hdel, fun answer tr₁ hr => ?_⟩
    cases hr
    have hone : ∀ {deletes : List Event}, (∀ ev ∈ deletes, ev.call.isDelete = true) →
        ∀ ev ∈ (⟨.delete storage obj.handle, answer⟩ : Event) :: deletes,
          ev.call.isDelete = true := by
      intro deletes hd ev hev
      rcases List.mem_cons.mp hev with rfl | hev
      · rfl
      · exact hd ev hev
    have hrest : Attempt.wp AnyAnswer G (deleteAll storage rest)
        (fun _ l' tr' => l' = l ∧ ∃ deletes, tr' = tr ++ deletes ∧
          (∀ ev ∈ deletes, ev.call.isDelete = true) ∧
          ∀ o ∈ obj :: rest, ∃ answer, ⟨.delete storage o.handle, answer⟩ ∈ deletes) X l
        (tr ++ [⟨.delete storage obj.handle, answer⟩]) := by
      refine Attempt.wp_mono (ih fun o ho deletes hd => ?_) ?_ fun _ _ _ h => h
      · rw [List.append_assoc]
        exact hobj o (List.mem_cons_of_mem _ ho) _ (hone hd)
      · rintro _ l' tr' ⟨hl, deletes, rfl, hd, hall⟩
        refine ⟨hl, _ :: deletes, List.append_assoc .., hone hd, fun o ho => ?_⟩
        rcases List.mem_cons.mp ho with rfl | ho
        · exact ⟨answer, List.mem_cons_self⟩
        · obtain ⟨answer', hmem⟩ := hall o ho
          exact ⟨answer', List.mem_cons_of_mem _ hmem⟩
    rcases answer with err | _
    · exact hrest
    · exact hrest

/-- After the clean-up nothing under the name is left over. -/
theorem purgeLeftover_leftover {l : Link} {idx : Nat} {storage : Storage}
    {parent : Option ObjectHandle} {before : List Event} {X : Error → Link → List Event → Prop}
    (hidx : l.storages[idx]? = some storage) (htr : tr = tr₀ ++ before)
    (hclears : ∀ objects, Clears l₀ tr₀ inode entry before ⟨storage, parent, objects⟩)
    (ha : Accounted l₀ tr₀ (tempUploadName entry.name) tr) :
    Attempt.wp AnyAnswer G (purgeLeftover idx parent (tempUploadName entry.name))
      (fun _ l' tr' => l' = l ∧ (∃ later, tr' = tr ++ later ∧ SameSession later ∧
          ∀ ev ∈ later, ev.rewinds = false) ∧
        ∀ ev : Event, ev.call.isUpload = true →
          Accounted l₀ tr₀ (tempUploadName entry.name) (tr' ++ [ev])) X l tr := by
  unfold purgeLeftover
  rw [Attempt.wp_bind]
  refine storageAt_wp hidx ?_
  rw [Attempt.wp_bind, Attempt.wp_outcome, Attempt.wp_mk]
  refine wp_call.mpr ⟨hG _ _ (flushMayDelete_of_not rfl), fun answer tr₁ hr => ?_⟩
  cases hr
  rcases answer with err | objects
  · refine ⟨rfl, ⟨_, rfl, .single rfl, fun ev hev => ?_⟩, fun ev _ => ?_⟩
    · rw [List.mem_singleton.mp hev]
      rfl
    · have ha₁ : Accounted l₀ tr₀ (tempUploadName entry.name)
          (tr ++ [⟨.listObjects storage parent, .error err⟩]) := ha.quiet rfl rfl
      refine ha₁.snoc fun before x hlast => ?_
      obtain ⟨-, hlast⟩ := List.append_inj' hlast rfl
      cases hlast
  · have hfound : ∀ obj ∈ objects.filter fun o => o.filename == tempUploadName entry.name,
        ∀ deletes, (∀ ev ∈ deletes, ev.call.isDelete = true) → Leftover l₀ tr₀ inode entry
          (tr ++ [⟨.listObjects storage parent, .ok objects⟩] ++ deletes) storage obj.handle := by
      intro obj hobj deletes hd
      refine .intro ?_ hd (hclears objects) rfl hobj rfl
      rw [htr, List.append_assoc]
      rfl
    refine Attempt.wp_mono (deleteAll_leftover hG _ hfound) ?_ fun _ _ _ h => h
    rintro _ l' tr' ⟨hl, deletes, rfl, hd, hall⟩
    refine ⟨hl, ⟨_ :: deletes, List.append_assoc .., fun ev hev => ?_, fun ev hev => ?_⟩,
      fun ev hup => ?_⟩
    · rcases List.mem_cons.mp hev with rfl | hev
      · rfl
      · exact (Event.of_isDelete (hd ev hev)).2.1
    · rcases List.mem_cons.mp hev with rfl | hev
      · rfl
      · exact (Event.of_isDelete (hd ev hev)).2.2.2
    · simp only [List.append_assoc, List.singleton_append]
      exact ha.cleared (x := ⟨storage, parent, objects⟩) hd hall hup

theorem uploadFile_flushes {storage : Storage} {parent : Option ObjectHandle}
    {info : NewObjectInfo} (h : Flushes l₀ tr₀ f tr)
    (hready : ∀ ev : Event, ev.call.isUpload = true →
      Accounted l₀ tr₀ (tempUploadName entry.name) (tr ++ [ev])) :
    Attempt.wp AnyAnswer G (uploadFile storage parent info)
      (fun _ f' tr' => Flushes l₀ tr₀ f' tr' ∧ f'.link = f.link ∧ ∃ ev : Event,
        tr' = tr ++ [ev] ∧ ev.call.isUpload = true ∧
        Accounted l₀ tr₀ (tempUploadName entry.name) tr')
      (fun _ f' tr' => Flushes l₀ tr₀ f' tr' ∧ Accounted l₀ tr₀ (tempUploadName entry.name) tr')
      f tr := by
  unfold uploadFile
  simp only [Attempt.wp_bind, Attempt.wp_get, Attempt.wp_lift, Attempt.wp_modify]
  refine wp_call.mpr ⟨hG _ _ (flushMayDelete_of_not rfl), fun answer tr₁ hr => ?_⟩
  cases hr
  have h₁ : ∀ n, Flushes l₀ tr₀ { f with file := pollStream f.file n }
      (tr ++ [⟨.upload storage parent info (fileStream f.file), answer⟩]) := fun n =>
    have h' : Flushes l₀ tr₀ f (tr ++ [⟨.upload storage parent info (fileStream f.file), answer⟩]) :=
      h.event rfl rfl
    ⟨h'.tree, h'.dated, h'.denotes, h'.since⟩
  obtain ⟨err | handle, n⟩ := answer
  · exact ⟨h₁ n, hready _ rfl⟩
  · exact ⟨h₁ n, rfl, _, rfl, rfl, hready _ rfl⟩

theorem recordUpload_flushes {i size : Nat} {handle : ObjectHandle} {name : Option String}
    {X : Error → Flushing → List Event → Prop}
    (ha : Accounted l₀ tr₀ (tempUploadName entry.name) tr) :
    Attempt.wp AnyAnswer G (onLinkM (recordUpload i handle name size) : FlushM Unit)
      (fun _ _ tr' => Accounted l₀ tr₀ (tempUploadName entry.name) tr') X f tr := by
  rw [wp_onLinkM]
  unfold recordUpload
  rw [Attempt.wp_bind, Attempt.wp_lift]
  refine wp_call.mpr ⟨hG _ _ (flushMayDelete_of_not rfl), fun now tr₁ hr => ?_⟩
  cases hr
  exact ha.quiet rfl rfl

theorem flushSafe_flushes {i idx size : Nat} {storage : Storage} {old : ObjectHandle}
    {parent : Option ObjectHandle} {e : InodeEntry} (h : Flushes l₀ tr₀ f tr)
    (hidx : f.link.storages[idx]? = some storage) (hold : OldObject l₀ tr₀ tr inode storage old)
    (hready : ∀ ev : Event, ev.call.isUpload = true →
      Accounted l₀ tr₀ (tempUploadName entry.name) (tr ++ [ev])) :
    Attempt.wp AnyAnswer G (flushSafe i old idx parent e size)
      (fun _ _ tr' => Accounted l₀ tr₀ (tempUploadName entry.name) tr')
      (fun _ f' tr' => Flushes l₀ tr₀ f' tr' ∧ Accounted l₀ tr₀ (tempUploadName entry.name) tr')
      f tr := by
  unfold flushSafe
  rw [Attempt.wp_bind, wp_onLinkM]
  refine storageAt_wp hidx ?_
  dsimp only
  rw [Attempt.wp_bind]
  refine Attempt.wp_mono (uploadFile_flushes hG h hready) ?_ fun _ _ _ h' => h'
  rintro handle f₁ tr₁ ⟨-, -, ev, rfl, hup, ha⟩
  obtain ⟨hsession, hother⟩ := Event.of_isUpload hup
  rw [Attempt.wp_bind, Attempt.wp_outcome, Attempt.wp_mk]
  refine wp_call.mpr ⟨hG _ _ (flushMayDelete_old (hold.mono (.event hsession))),
    fun answer tr₂ hr => ?_⟩
  cases hr
  have ha₂ : Accounted l₀ tr₀ (tempUploadName entry.name)
      (tr ++ [ev] ++ [⟨.delete storage old, answer⟩]) := ha.after hother
  rcases answer with err | _
  · exact recordUpload_flushes hG ha₂
  · dsimp only
    rw [Attempt.wp_bind, Attempt.wp_outcome, Attempt.wp_mk]
    refine wp_call.mpr ⟨hG _ _ (flushMayDelete_of_not rfl), fun answer tr₃ hr => ?_⟩
    cases hr
    have ha₃ : Accounted l₀ tr₀ (tempUploadName entry.name) (tr ++ [ev] ++
        [⟨.delete storage old, .ok ()⟩] ++ [⟨.rename storage handle e.name, answer⟩]) :=
      ha₂.quiet rfl rfl
    rcases answer with err | _
    · exact recordUpload_flushes hG ha₃
    · exact recordUpload_flushes hG ha₃

theorem flushUnsafe_flushes {i idx size : Nat} {storage : Storage} {old : ObjectHandle}
    {parent : Option ObjectHandle} {e : InodeEntry} (h : Flushes l₀ tr₀ f tr)
    (hidx : f.link.storages[idx]? = some storage) (hold : OldObject l₀ tr₀ tr inode storage old)
    (hrenameless : f.link.device.supportsRename = false)
    (ha : Accounted l₀ tr₀ (tempUploadName entry.name) tr) :
    Attempt.wp AnyAnswer G (flushUnsafe i old idx parent e size)
      (fun _ _ tr' => Accounted l₀ tr₀ (tempUploadName entry.name) tr')
      (fun _ f' tr' => Flushes l₀ tr₀ f' tr' ∧ Accounted l₀ tr₀ (tempUploadName entry.name) tr')
      f tr := by
  unfold flushUnsafe
  rw [Attempt.wp_bind, wp_onLinkM]
  refine storageAt_wp hidx ?_
  rw [Attempt.wp_bind, Attempt.wp_mk]
  refine wp_call.mpr ⟨hG _ _ (flushMayDelete_old hold), fun answer tr₁ hr => ?_⟩
  cases hr
  have h₁ : Flushes l₀ tr₀ f (tr ++ [⟨.delete storage old, answer⟩]) := h.event rfl rfl
  have ha₁ : Accounted l₀ tr₀ (tempUploadName entry.name)
      (tr ++ [⟨.delete storage old, answer⟩]) := h.accounted_renameless hrenameless ha
  rcases answer with err | _
  · exact ⟨h₁, ha₁⟩
  · dsimp only
    rw [Attempt.wp_bind]
    refine Attempt.wp_mono (uploadFile_flushes hG h₁ fun ev _ => ha₁.after rfl) ?_
      fun _ _ _ h' => h'
    rintro handle f₂ tr₂ ⟨-, -, ev, rfl, -, ha₂⟩
    exact recordUpload_flushes hG ha₂

theorem flushOnce_flushes {size : Nat} {isRetry : Bool} (h : Flushes l₀ tr₀ f tr)
    (ha : Accounted l₀ tr₀ (tempUploadName entry.name) tr)
    (hretry : isRetry = true ↔ 2 ≤ f.attempts) :
    Attempt.wp AnyAnswer G (flushOnce inode entry size isRetry)
      (fun _ _ tr' => Accounted l₀ tr₀ (tempUploadName entry.name) tr')
      (fun _ f' tr' => Flushes l₀ tr₀ f' tr' ∧ Accounted l₀ tr₀ (tempUploadName entry.name) tr')
      f tr := by
  have hany : ∀ {tr c}, c.isDelete = false → G tr c := fun hc => hG _ _ (flushMayDelete_of_not hc)
  have hlooks : ∀ {f tr} i, Flushes l₀ tr₀ f tr → LooksUp AnyAnswer G Looks
      (fun tr i a => HandleOf l₀ tr₀ tr i (some a)) (fun _ => True) f.link tr i := by
    intro f tr i h
    obtain ⟨events, htr, -, halike⟩ := h.since
    exact looksUp_handleOf i (fun _ => ⟨hany rfl, fun _ _ => hany rfl⟩) h.tree halike htr
  have hlooked : ∀ {tr tr'}, Accounted l₀ tr₀ (tempUploadName entry.name) tr → Looks tr tr' →
      Accounted l₀ tr₀ (tempUploadName entry.name) tr' := by
    rintro tr _ ha ⟨later, rfl, hl⟩
    refine ha.quiets fun ev hev => ?_
    obtain ⟨hd, hu, -⟩ := Event.of_isListing (hl ev hev)
    exact ⟨hd, hu⟩
  unfold flushOnce
  rw [Attempt.wp_bind, wp_onLinkM]
  refine Attempt.wp_mono (fileHandle_resolves (hlooks inode h) h.denotes (.inr trivial)) ?_
    fun _ _ _ h' => ⟨h.resolved h'.1, hlooked ha h'.1.env⟩
  rintro old l₁ tr₁ ⟨hr₁, hhandle, -⟩
  have h₁ := h.resolved hr₁
  have ha₁ := hlooked ha hr₁.env
  rw [Attempt.wp_bind, wp_onLinkM]
  refine storageIndex_wp (fun _ => hany rfl) (fun idx hidx => ?_) fun _ => ⟨h₁, ha₁⟩
  obtain ⟨storage, hst⟩ : ∃ storage, l₁.storages[idx]? = some storage :=
    ⟨_, List.getElem?_eq_getElem (findStorageFrom_lt hidx)⟩
  have hold : OldObject l₀ tr₀ tr₁ inode storage old := h₁.oldObject hhandle hidx hst
  rw [Attempt.wp_bind, wp_onLinkM]
  refine Attempt.wp_mono (parentHandle_resolves (hlooks entry.parent h₁) h₁.denotes (.inr trivial))
    ?_ fun _ _ _ h' => ⟨h₁.resolved h'.1, hlooked ha₁ h'.1.env⟩
  rintro parent l₂ tr₂ ⟨hr₂, hparent⟩
  have h₂ := h₁.resolved hr₂
  have ha₂ := hlooked ha₁ hr₂.env
  have hst₂ : l₂.storages[idx]? = some storage := by
    rw [hr₂.refreshes.rest]
    exact hst
  have hold₂ := hold.mono hr₂.env.continues
  simp only [Attempt.wp_bind, Attempt.wp_get]
  split
  · rename_i hsafe
    rw [Attempt.wp_bind]
    split
    · rename_i his
      obtain ⟨before, htr, hclears⟩ := h₂.clears (hretry.mp his) hsafe hold₂ (h₂.folder hparent)
      rw [wp_onLinkM]
      refine Attempt.wp_mono (purgeLeftover_leftover hG hst₂ htr hclears ha₂) ?_ fun _ _ _ h' => h'
      rintro _ l₃ tr₃ ⟨rfl, ⟨later, rfl, hs, hr⟩, hready⟩
      exact flushSafe_flushes hG (h₂.events hs hr) hst₂ (hold₂.mono ⟨later, rfl, hs⟩) hready
    · rename_i his
      have hfirst : f.attempts ≤ 1 := by
        have := mt hretry.mpr his
        omega
      exact flushSafe_flushes hG h₂ hst₂ hold₂ fun _ _ => h₂.accounted_upload hfirst ha₂
  · rename_i hrenameless
    exact flushUnsafe_flushes hG h₂ hst₂ hold₂ (Bool.eq_false_iff.mpr hrenameless) ha₂

theorem flushAttempt_flushes {size : Nat} (h : Flushes l₀ tr₀ f tr)
    (ha : Accounted l₀ tr₀ (tempUploadName entry.name) tr) :
    Attempt.wp AnyAnswer G (flushAttempt inode entry size)
      (fun _ _ tr' => Accounted l₀ tr₀ (tempUploadName entry.name) tr')
      (fun _ f' tr' => Flushes l₀ tr₀ f' tr' ∧ Accounted l₀ tr₀ (tempUploadName entry.name) tr')
      f tr := by
  unfold flushAttempt
  rw [Attempt.wp_bind, Attempt.wp_lift]
  refine wp_call.mpr ⟨hG _ _ (flushMayDelete_of_not rfl), fun fault tr₁ hr₁ => ?_⟩
  cases hr₁
  have h₁ : Flushes l₀ tr₀ f (tr ++ [⟨.cloneTemp, fault⟩]) := h.event rfl rfl
  have ha₁ : Accounted l₀ tr₀ (tempUploadName entry.name)
      (tr ++ [⟨.cloneTemp, fault⟩]) := ha.quiet rfl rfl
  rw [Attempt.wp_bind]
  refine spooled_wp ?_ fun _ => ⟨h₁, ha₁⟩
  rw [Attempt.wp_bind, Attempt.wp_lift]
  refine wp_call.mpr ⟨hG _ _ (flushMayDelete_of_not rfl), fun fault' tr₂ hr₂ => ?_⟩
  cases hr₂
  have ha₂ : Accounted l₀ tr₀ (tempUploadName entry.name)
      (tr ++ [⟨.cloneTemp, fault⟩] ++ [⟨.seekTemp, fault'⟩]) := ha₁.quiet rfl rfl
  rw [Attempt.wp_bind]
  cases fault' with
  | some err => exact ⟨h₁.event rfl rfl, ha₂⟩
  | none =>
    simp only [spooled, Attempt.wp_bind, Attempt.wp_pure, Attempt.wp_modify, Attempt.wp_get]
    -- from here on the attempt counts
    have h₂ : Flushes l₀ tr₀ { f with file := f.file.seekStart 0, attempts := f.attempts + 1 }
        (tr ++ [⟨.cloneTemp, fault⟩] ++ [⟨.seekTemp, none⟩]) := by
      refine ⟨h₁.tree, h₁.dated, h₁.denotes.mono fun _ _ hD => hD.mono (.event rfl), ?_⟩
      obtain ⟨events, htr, hcount, halike⟩ := h₁.since
      refine ⟨events ++ [⟨.seekTemp, none⟩], by rw [htr, List.append_assoc], ?_, ?_⟩
      · rw [List.countP_append, hcount]
        rfl
      · rw [Link.reopened_later (.single rfl)]
        exact halike
    exact flushOnce_flushes hG h₂ ha₂ decide_eq_true_iff

/-! ## All attempts -/

theorem flush_recoverable (size : Nat) :
    Recoverable AnyAnswer G (flushAttempt inode entry size)
      (fun _ f tr => Flushes l₀ tr₀ f tr ∧ Accounted l₀ tr₀ (tempUploadName entry.name) tr)
      (fun _ _ tr => Accounted l₀ tr₀ (tempUploadName entry.name) tr)
      (fun _ _ f tr => Flushes l₀ tr₀ f tr ∧ Accounted l₀ tr₀ (tempUploadName entry.name) tr)
      (fun _ _ tr => Accounted l₀ tr₀ (tempUploadName entry.name) tr) where
  plug := by
    rintro n f tr ⟨h, ha⟩
    refine ⟨hG _ _ (flushMayDelete_of_not rfl), fun out tr' hr => ?_⟩
    cases hr
    have h' : Flushes l₀ tr₀ f (tr ++ [⟨.isUnplugged, out⟩]) ∧
        Accounted l₀ tr₀ (tempUploadName entry.name) (tr ++ [⟨.isUnplugged, out⟩]) :=
      ⟨h.event rfl rfl, ha.quiet rfl rfl⟩
    split
    · exact h'
    · exact h'
  attempt := fun h => flushAttempt_flushes hG h.1 h.2
  stale := by
    rintro n f tr err ⟨h, ha⟩ -
    refine invalidateHandles_does (hG _ _ (flushMayDelete_of_not rfl)) fun u tr' hr => ?_
    cases hr
    refine ⟨h.renewed (.bumpGeneration _) h.dated.bumpGeneration h.dated.nothingFresh
      (fun ev hev => ?_) fun l₀ h₀ => h₀.trans (.invalidateHandles f.link), ha.quiet rfl rfl⟩
    rw [List.mem_singleton.mp hev]
    rfl
  lost := by
    rintro n f tr err ⟨h, ha⟩ -
    have hrecovery : ∀ tr c, c.isRecovery = true → G tr c := fun tr c hc =>
      hG tr c (flushMayDelete_of_not (by cases c <;> first | rfl | cases hc))
    have hquiet : ∀ {log : List Event}, (∀ ev ∈ log, ev.call.isRecovery = true) →
        Accounted l₀ tr₀ (tempUploadName entry.name) (tr ++ log) := by
      refine fun hlog => ha.quiets fun ev hev => ?_
      obtain ⟨hd, hu, -⟩ := Event.of_isRecovery (hlog ev hev)
      exact ⟨hd, hu⟩
    rw [wp_onLinkM]
    refine Attempt.wp_mono (Attempt.wp_and (reconnect_does hrecovery) (reconnect_keepsUp hrecovery))
      ?_ ?_
    · rintro _ l _ ⟨⟨device, infos, rfl⟩, log, rfl, hlog, halike⟩
      have hd := h.dated.operated
        (Link.remapStorages_operated (device.bindStorages infos) f.link.inodes)
      exact ⟨h.renewed (.adopted f.link device _) hd.bumpGeneration hd.nothingFresh hlog halike,
        hquiet hlog⟩
    · rintro err l _ ⟨-, log, rfl, hlog, -⟩
      exact hquiet hlog
  ended := fun h _ => h.2
  exhausted := fun h => h.2

end Rules

theorem Flushes.start {l : Link} {tr : List Event} (h : l.inodes.Dated) (file : SpoolFile) :
    Flushes l tr ⟨l, file, 0⟩ (tr ++ [⟨.seekTemp, none⟩]) where
  tree := .refl _
  dated := h
  denotes := fun _ _ _ he hf ha => .held he hf ha rfl (.single rfl)
  since := ⟨[⟨.seekTemp, none⟩], rfl, rfl, .refl l⟩

/-- The guard of a whole flush, and what it comes to. -/
theorem flushBuffer_deletes {l : Link} {tr : List Event} {buf : FileBuffer} (h : l.inodes.Dated)
    {G : List Event → Call → Prop}
    (hother : ∀ tr c, c.isDelete = false → G tr c)
    (hG : ∀ entry, l.inodes.get buf.inode = some entry → ∀ tr' c,
      FlushMayDelete l tr buf.inode entry tr' c → G tr' c) :
    Attempt.wp AnyAnswer G (flushBuffer buf)
      (fun _ _ tr' => ∀ entry, l.inodes.get buf.inode = some entry →
        Accounted l tr (tempUploadName entry.name) tr')
      (fun _ _ tr' => ∀ entry, l.inodes.get buf.inode = some entry →
        Accounted l tr (tempUploadName entry.name) tr') l tr := by
  unfold flushBuffer
  cases hdirty : buf.dirty with
  | false => exact fun entry _ => .start l tr _
  | true =>
    simp only [Bool.not_true, Bool.false_eq_true, if_false]
    rw [Attempt.wp_bind, Attempt.wp_lift]
    refine wp_call.mpr ⟨hother _ _ rfl, fun fault tr₁ hr => ?_⟩
    cases hr
    have ha : ∀ entry : InodeEntry, l.inodes.get buf.inode = some entry →
        Accounted l tr (tempUploadName entry.name) (tr ++ [⟨.seekTemp, fault⟩]) :=
      fun _ _ => (Accounted.start l tr _).quiet rfl rfl
    rw [Attempt.wp_bind]
    cases fault with
    | some err => exact ha
    | none =>
      simp only [spooled, Attempt.wp_bind, Attempt.wp_pure, Attempt.wp_get]
      cases hget : l.inodes.get buf.inode with
      | none =>
        intro entry hentry
        cases hentry
      | some entry =>
        rw [Attempt.wp_mk, Act.wp_focus, Attempt.wp_run]
        have hflush := (flush_recoverable (hG entry hget) buf.file.seekEnd.1).wp
          ⟨.start h buf.file.seekEnd.2, ha entry hget⟩
        refine Attempt.wp_mono hflush ?_ ?_
        · rintro _ _ tr' h' entry' ⟨⟩
          exact h'
        · rintro _ _ tr' h' entry' ⟨⟩
          exact h'

/-- Every delete of a flush is of the old object or of a leftover, and every clean-up is
carried out. -/
theorem flushToMtp_deletes (fs : MtpFs) (fh : Nat) (tr : List Event)
    (hs : InodeTable.Operated .new fs.link.inodes) :
    Attempt.wp AnyAnswer (fun tr' c => ∀ storage a, c = .delete storage a →
        ∃ buf entry, (fs.writeBuf.close fh).1 = some buf ∧
          fs.link.inodes.get buf.inode = some entry ∧
          (OldObject fs.link tr tr' buf.inode storage a ∨
            Leftover fs.link tr buf.inode entry tr' storage a))
      (flushToMtp fh)
      (fun _ _ tr' => ∀ buf entry, (fs.writeBuf.close fh).1 = some buf →
        fs.link.inodes.get buf.inode = some entry →
        Accounted fs.link tr (tempUploadName entry.name) tr')
      (fun _ _ _ => False) fs tr := by
  unfold flushToMtp onWriteBuf
  rw [Attempt.wp_bind, Attempt.wp_modifyGet]
  cases hbuf : (fs.writeBuf.close fh).1 with
  | none => exact fun _ _ hbuf => nomatch hbuf
  | some buf =>
    unfold device
    rw [Attempt.wp_lift, wp_onLink, Attempt.wp_run]
    have hother : ∀ (tr' : List Event) (c : Call), c.isDelete = false →
        ∀ storage a, c = .delete storage a → ∃ buf' entry, some buf = some buf' ∧
          fs.link.inodes.get buf'.inode = some entry ∧
          (OldObject fs.link tr tr' buf'.inode storage a ∨
            Leftover fs.link tr buf'.inode entry tr' storage a) := by
      rintro tr' c hc storage a rfl
      cases hc
    refine Attempt.wp_mono (flushBuffer_deletes (InodeTable.dated_new.operated hs) hother
      fun entry he tr' c hmay storage a hc => ⟨buf, entry, rfl, he, hmay storage a hc⟩) ?_ ?_
    · rintro _ _ tr' h' buf' entry ⟨⟩ he
      exact h' entry he
    · rintro _ _ tr' h' buf' entry ⟨⟩ he
      exact h' entry he

/-- Whatever the device answers, a flush deletes the old object and what it takes
for its own leftover. -/
theorem flush_deletes (fs : MtpFs) (fh : Nat) (tr : List Event)
    (hs : InodeTable.Operated .new fs.link.inodes) (storage : Storage) (a : ObjectHandle)
    (tr' : List Event)
    (hm : Prog.Makes AnyAnswer ((flushToMtp fh).run fs) tr (.delete storage a) tr') :
    ∃ buf entry, (fs.writeBuf.close fh).1 = some buf ∧
      fs.link.inodes.get buf.inode = some entry ∧
      (OldObject fs.link tr tr' buf.inode storage a ∨
        Leftover fs.link tr buf.inode entry tr' storage a) :=
  Prog.wp_makes (flushToMtp_deletes fs fh tr hs) hm storage a rfl

/-! ## The objects of its own -/

/-- What there is on the device, by number: what the handles name in each session, and
what the upload that a trace ends with has left, be it whole, a part or nothing. -/
structure Objects where
  object : Nat → ObjectHandle → Option Nat
  uploaded : List Event → Option Nat

/-- An upload of the flush has left the object that the request names. -/
def Uploaded (O : Objects) (tr₀ tr : List Event) (storage : Storage) (a : ObjectHandle) : Prop :=
  ∃ before ev after o, tr = tr₀ ++ before ++ ev :: after ∧ ev.call.isUpload = true ∧
    O.uploaded (tr₀ ++ before ++ [ev]) = some o ∧ O.object storage.session a = some o

/-- The old object of the inode, or one that this flush has uploaded. -/
def Own (O : Objects) (l₀ : Link) (tr₀ tr : List Event) (i : Nat) (storage : Storage)
    (a : ObjectHandle) : Prop :=
  OldObject l₀ tr₀ tr i storage a ∨ Uploaded O tr₀ tr storage a

section Objects

variable {O : Objects} {l₀ : Link} {tr₀ events deletes : List Event} {i : Nat} {storage : Storage}
  {a : ObjectHandle}

/-- Deletes make nothing the flush's own, and nothing ceases to be. -/
theorem own_deletes (hd : ∀ ev ∈ deletes, ev.call.isDelete = true) :
    Own O l₀ tr₀ (tr₀ ++ events ++ deletes) i storage a ↔
      Own O l₀ tr₀ (tr₀ ++ events) i storage a := by
  have hs := sameSession_deletes hd
  constructor
  · rintro (hold | ⟨before, ev, after, o, htr, hup, ho⟩)
    · exact .inl (hold.of_append (fun ev hev => (Event.of_isDelete (hd ev hev)).2.2.1) hs)
    · have hmem : ev ∉ deletes := by
        intro hmem
        rw [(Event.of_isDelete (hd ev hmem)).1] at hup
        cases hup
      obtain ⟨mid, hmid, -⟩ := before_of_append htr hmem
      exact .inr ⟨before, ev, mid, o, hmid, hup, ho⟩
  · rintro (hold | ⟨before, ev, after, o, htr, hup, ho⟩)
    · exact .inl (hold.mono ⟨deletes, rfl, hs⟩)
    · refine .inr ⟨before, ev, after ++ deletes, o, ?_, hup, ho⟩
      rw [htr, List.append_assoc, List.cons_append]

end Objects

/-- A mount with one byte to flush to the file 3, whose handle is of an older
session. -/
def dirtyMount : MtpFs :=
  { writableMount with
    link := staleCard
    writeBuf := ((WriteBuffer.new.openBuffer 0 3 3 none).2.write 0 0 [1] none).2 }

/-- A phone whose first session is gone. The user keeps an object under the name
that a flush of `a` uploads under. -/
def userPhone (_ : List Event) : (c : Call) → Option (Answer c)
  | .storages _ => some (.ok [⟨⟨1⟩, "Card", 100, 50⟩])
  | .openDevice => some (.ok ⟨1, true, true⟩)
  | .listObjects storage _ => some (if storage.session = 0 then .error .deviceReset else
      .ok [⟨⟨7⟩, "a", false, 3, none⟩, ⟨⟨9⟩, tempUploadName "a", false, 5, none⟩])
  | .upload .. => some (.ok ⟨11⟩, 1)
  | .delete .. => some (.ok ())
  | .rename .. => some (.ok ())
  | c => undisturbed c

theorem operated_staleCard : InodeTable.Operated .new staleCard.inodes :=
  ((Relation.ReflTransGen.single (.apply (.addStorageAt ⟨1⟩ "Card" 0))).tail
    (.apply (.addObject 2 ⟨7⟩ "a" false 3 0))).tail (.apply .bumpGeneration)

/-- The reports of a listing that came in. -/
def Event.reports : Event → Option (List ObjectInfo)
  | ⟨.listObjects .., .ok objects⟩ => some objects
  | _ => none

/-- The event deletes the object 9. -/
def Event.deletesNine (ev : Event) : Bool :=
  match ev.call with
  | .delete _ a => a == ⟨9⟩
  | _ => false

/-- The event uploads nothing, and names no object 9 first under `a`. -/
def Event.isForeign (ev : Event) : Bool :=
  !ev.call.isUpload && ev.reports.all fun objects =>
    (objects.find? fun obj => obj.filename == "a").all fun found => found.handle != ⟨9⟩

/-- Before it has uploaded anything, a retry of that flush deletes the object 9. -/
theorem dirtyMount_deletes : ∃ r fs before storage answer after,
    Prog.Ends AnyAnswer ((flushToMtp 0).run dirtyMount) [] (r, fs)
        (before ++ ⟨.delete storage ⟨9⟩, answer⟩ :: after) ∧
      before.all Event.isForeign = true := by
  have ht : (((flushToMtp 0).run dirtyMount).runWith (script userPhone) []).any (fun e =>
      (e.2.dropWhile fun ev => !ev.deletesNine).head?.any Event.deletesNine &&
        (e.2.takeWhile fun ev => !ev.deletesNine).all Event.isForeign) = true := by rfl
  obtain ⟨⟨⟨r, fs⟩, tr⟩, hrun, ht⟩ := (Option.any_eq_true _ _).mp ht
  obtain ⟨hnine, hforeign⟩ := Bool.and_eq_true_iff.mp ht
  have hends := Prog.runWith_ends (anyAnswer_of_script userPhone) hrun
  have hcut := List.takeWhile_append_dropWhile (p := fun ev : Event => !ev.deletesNine) (l := tr)
  obtain ⟨ev, hhead, hev⟩ := (Option.any_eq_true _ _).mp hnine
  obtain ⟨after, hdrop⟩ := List.head?_eq_some_iff.mp hhead
  dsimp only at hdrop
  rw [hdrop] at hcut
  rcases ev with ⟨c, answer⟩
  cases c with
  | delete storage a =>
    cases eq_of_beq hev
    refine ⟨r, fs, tr.takeWhile fun ev => !ev.deletesNine, storage, answer, after, ?_, hforeign⟩
    rw [hcut]
    exact hends
  | _ => cases hev

theorem dirtyMount_flushes : ∃ buf entry, (dirtyMount.writeBuf.close 0).1 = some buf ∧
    dirtyMount.link.inodes.get buf.inode = some entry ∧ buf.inode = 3 ∧ entry.name = "a" :=
  ⟨_, _, rfl, rfl, rfl, rfl⟩

/-- The user's object is neither the old one nor an upload of the flush. -/
theorem not_own_foreign (O : Objects) {tr : List Event} {storage : Storage}
    (h : tr.all Event.isForeign = true) : ¬ Own O dirtyMount.link [] tr 3 storage ⟨9⟩ := by
  have hev := List.all_eq_true.mp h
  rintro (⟨hhandle, -⟩ | ⟨before, ev, after, o, htr, hup, -⟩)
  · have hentry : ∀ entry, dirtyMount.link.inodes.get 3 = some entry → entry.name = "a" := by
      obtain ⟨buf, entry, -, he, hinode, hname⟩ := dirtyMount_flushes
      intro entry' he'
      rw [hinode] at he
      cases he.symm.trans he'
      exact hname
    generalize hnine : (some ⟨9⟩ : Option ObjectHandle) = handle at hhandle
    cases hhandle with
    | top => cases hnine
    | held _ hf => exact absurd hf (by decide)
    | @listed _ before later _ entry storage' folder objects found he _ htr _ _ _ hfind =>
      have hmem : (⟨.listObjects storage' folder, .ok objects⟩ : Event) ∈ tr := by
        rw [htr]
        exact List.mem_append_right _ List.mem_cons_self
      have hne := (Bool.and_eq_true_iff.mp (hev _ hmem)).2
      rw [hentry entry he] at hfind
      simp [Event.reports, hfind, ← Option.some.inj hnine] at hne
  · have hmem : ev ∈ tr := by
      rw [htr]
      exact List.mem_append_right _ List.mem_cons_self
    have hno := (Bool.and_eq_true_iff.mp (hev ev hmem)).1
    rw [hup] at hno
    cases hno

end MtpMount
