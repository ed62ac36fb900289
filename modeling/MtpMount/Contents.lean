import MtpMount.Edits
import MtpMount.FsTokens

/-!
# What an object holds after a release

The answers of the device tell what its objects hold: an accepted upload makes an
object of the bytes it streamed, a confirmed deletion ends one. A release that
uploads leaves the file an object of just the buffer's bytes, one that does not
leaves it as it was.

* `release_replaces`: the writes of a handle that put in a byte replace the whole
  content of an object, of what it held nothing is kept;
* `truncation_takes_effect`: when a sequence of writes and sizes that begins with
  a cut to nothing shows in the object.
-/

namespace MtpMount

open Interaction

/-! ## The objects of the device -/

/-- The object that an accepted upload made, by session and handle. -/
def Event.added? : Event → Option (Nat × ObjectHandle)
  | ⟨.upload storage .., (.ok h, _)⟩ => some (storage.session, h)
  | _ => none

instance (ev : Event) (session : Nat) (h : ObjectHandle) : Decidable (ev.HandsOut session h) :=
  decidable_of_iff (∃ t ∈ ev.call.target?, t.1.session = session ∧ h ∈ ev.call.handed ev.answer)
    ⟨fun ⟨t, ht, hs, hh⟩ => ⟨t.1, t.2, ht, hs, hh⟩,
      fun ⟨storage, handles, ht, hs, hh⟩ => ⟨(storage, handles), ht, hs, hh⟩⟩

/-- The environment that may answer anything, but gives an uploaded object a
handle that its session has not given out before. -/
inductive NewHandles : Answers Call Answer (List Event)
  | intro {tr : List Event} {c : Call} {a : Answer c} :
      (∀ p ∈ Event.added? ⟨c, a⟩, ∀ ev ∈ tr, ¬ ev.HandsOut p.1 p.2) →
      NewHandles tr c a (tr ++ [⟨c, a⟩])

theorem NewHandles.anyAnswer {tr tr' : List Event} {c : Call} {a : Answer c}
    (h : NewHandles tr c a tr') : AnyAnswer tr c a tr' := by
  cases h
  exact .intro tr c a

/-- What one event does to the content of the object `h` of the session. -/
def contentStep (session : Nat) (h : ObjectHandle) (content : Option Bytes) : Event → Option Bytes
  | ⟨.upload storage _ _ stream, (.ok h', _)⟩ =>
    if storage.session = session ∧ h' = h then some stream.flatten else content
  | ⟨.delete storage h', .ok ()⟩ =>
    if storage.session = session ∧ h' = h then none else content
  | _ => content

/-- What the object holds after the events, if `c₀` is what the objects held
before them. -/
def objectContent (c₀ : Nat → ObjectHandle → Option Bytes) (tr : List Event) (session : Nat)
    (h : ObjectHandle) : Option Bytes :=
  tr.foldl (contentStep session h) (c₀ session h)

/-- What the object of a file holds. -/
def Link.content (c₀ : Nat → ObjectHandle → Option Bytes) (l : Link) (tr : List Event) (ino : Nat) :
    Option Bytes :=
  (l.inodes.get ino).bind fun e => match e.kind with
    | .file h => objectContent c₀ tr l.device.session h
    | _ => none

section Contents

variable {c₀ : Nat → ObjectHandle → Option Bytes} {tr : List Event}

theorem objectContent_snoc (ev : Event) (session : Nat) (h : ObjectHandle) :
    objectContent c₀ (tr ++ [ev]) session h =
      contentStep session h (objectContent c₀ tr session h) ev := by
  unfold objectContent
  rw [List.foldl_append]
  rfl

/-! ## The flush -/

variable (c₀) in
/-- An accepted upload, and what it says of the handles given out before. -/
theorem Takes.content {v : Bytes} {storage : Storage} {name : String} {h : ObjectHandle}
    {tr' : List Event} (ht : Takes NewHandles v storage name h tr tr') (start : Nat) :
    objectContent c₀ tr' storage.session h = some v ∧
      currentSession start tr' = currentSession start tr ∧
      (storage.session = currentSession start tr → ∀ old, Obtained start tr old → old ≠ h) := by
  obtain ⟨parent, stream, n, hstream, hr⟩ := ht
  rcases hr with ⟨hnew⟩
  refine ⟨?_, currentSession_snoc rfl _, fun hs old hold => ?_⟩
  · rw [objectContent_snoc, ← hstream.2.1]
    exact if_pos ⟨rfl, rfl⟩
  · rintro rfl
    obtain ⟨ev, hev, hout⟩ := hold
    rw [← hs] at hout
    exact hnew (storage.session, old) rfl ev (mem_of_mem_sinceInvalidated hev) hout

variable (c₀) in
/-- Once another object is deleted, or not even that, and the new one renamed or
not, the new one holds what was uploaded. -/
theorem Landed.content {v : Bytes} {storage : Storage} {name : Option String} {h : ObjectHandle}
    {start : Nat} (hl : Landed NewHandles (Obtained start) v storage h name tr)
    (hs : storage.session = currentSession start tr) :
    objectContent c₀ tr storage.session h = some v := by
  have hother : ∀ {e : List Event} {old : ObjectHandle} {a : Except Error Unit}, old ≠ h →
      objectContent c₀ e storage.session h = some v →
      objectContent c₀ (e ++ [⟨.delete storage old, a⟩]) storage.session h = some v := by
    intro e old a hold hv
    rw [objectContent_snoc, hv]
    cases a with
    | error err => rfl
    | ok u => exact if_neg fun hboth => hold hboth.2
  cases hl with
  | notDeleted hup hdel =>
    obtain ⟨hv, -, -⟩ := hup.content c₀ start
    rcases hdel with ⟨-⟩
    rw [objectContent_snoc, hv]
    rfl
  | notRenamed hold hup hdel hren =>
    obtain ⟨hv, hcur, hne⟩ := hup.content c₀ start
    rcases hdel with ⟨-⟩
    rcases hren with ⟨-⟩
    rw [currentSession_snoc rfl, currentSession_snoc rfl, hcur] at hs
    rw [objectContent_snoc, hother (hne hs _ hold) hv]
    rfl
  | replaced hold hup hdel hren =>
    obtain ⟨hv, hcur, hne⟩ := hup.content c₀ start
    rcases hdel with ⟨-⟩
    rcases hren with ⟨-⟩
    rw [currentSession_snoc rfl, currentSession_snoc rfl, hcur] at hs
    rw [objectContent_snoc, hother (hne hs _ hold) hv]
    rfl
  | afterDelete hdel hup => exact (hup.content c₀ start).1

/-- A flush that succeeds leaves the file an object of the buffer's bytes. -/
theorem flushInvariant_content (c₀ : Nat → ObjectHandle → Option Bytes) (start : Nat) :
    FlushInvariant NewHandles (OfSession start) (Link.Attached start) (Obtained start)
      (fun _ => True) (fun v ino l tr => l.content c₀ tr ino = some v) where
  toResolving := (linkInvariant_attached NewHandles.anyAnswer start).toResolving
  mutation := (linkInvariant_attached NewHandles.anyAnswer start).mutation
  record := fun {l tr tr' v storage h name now} inode hl hs _ hfile hland hnow => by
    rcases hnow with ⟨-⟩
    obtain ⟨e, -, he, -⟩ := hfile
    have hsession := hl.storages storage hs
    have hcur := hsession.trans hl.current
    rw [currentSession_snoc rfl] at hcur
    have hv := hland.content c₀ hcur
    unfold Link.content
    rw [InodeTable.recordUpload, InodeTable.get_getMut, if_pos rfl, he]
    show objectContent c₀ (tr ++ [⟨.now, now⟩]) l.device.session h = some v
    rw [objectContent_snoc, ← hsession, hv]
    rfl

/-! ## The release -/

/-- What a release does to an object through the last edits of its handle, none of
which was refused. -/
theorem release_content {device : MtpDevice} {describe : String} {config : MtpFsConfig}
    {h : List (Callback × Reply)} {fs fs' : MtpFs} {tr' : List Event}
    (hr : Served NewHandles dispatch (fun h _ _ c => c.CarriesOpen h) (.new device describe config) []
      h fs tr)
    {fh ino : Nat} (ho : opened h fh = some ino) {es : List Edit}
    (hes : AcceptedTail (edits h fh) es) {r : Reply}
    (hrel : Prog.Ends NewHandles (dispatch (.release fh) fs) tr (r, fs') tr')
    (hok : r.isError = false) :
    fs'.link.content c₀ tr' ino =
      if leavesDirty es then some (bufferedBytes es) else fs.link.content c₀ tr ino := by
  have hslot := (edits_buffered hr).slots fh
  have hattached := ((linkInvariant_attached NewHandles.anyAnswer device.session).mount.served
    (MtpFs.attached_new device describe config) hr).1
  have hreleased := release_wp (flushInvariant_content c₀ device.session) fh
    (fun _ _ _ _ => trivial) hattached
  have hwp : Act.wp NewHandles (OfSession device.session) (dispatch (.release fh))
      (fun r fs' tr' => r.isError = false →
        (∀ b, fs.writeBuf.buffers.lookup fh = some b → b.dirty = true →
          fs'.link.content c₀ tr' b.inode = some b.file.content) ∧
        ((∀ b, fs.writeBuf.buffers.lookup fh = some b → b.dirty = false) →
          fs'.link = fs.link ∧ tr' = tr)) fs tr :=
    dispatch_wp.mpr (Attempt.wp_mono hreleased (fun _ _ _ h' _ => h'.2.2.2) fun _ _ _ _ => nofun)
  obtain ⟨hdirty, hclean⟩ := Act.wp_ends hwp hrel hok
  cases hb : fs.writeBuf.buffers.lookup fh with
  | none =>
    rw [hb] at hslot
    obtain ⟨hlink, htr⟩ := hclean fun b hb' => nomatch hb.symm.trans hb'
    rw [hslot es hes, if_neg (by decide), hlink, htr]
  | some b =>
    rw [hb] at hslot
    obtain ⟨hino, hedited⟩ := hslot
    have hedited := hedited es hes
    cases ho.symm.trans hino
    rw [← hedited.dirty]
    split
    · rename_i hd
      rw [← hedited.holds.content]
      exact hdirty b hb hd
    · rename_i hd
      obtain ⟨hlink, htr⟩ := hclean fun b' hb' => by
        cases hb.symm.trans hb'
        exact Bool.eq_false_iff.mpr hd
      rw [hlink, htr]

end Contents

/-! ## Writes replace -/

/-- The writes, one after another. -/
def patchAll (v : Bytes) (ws : List (Nat × Bytes)) : Bytes :=
  ws.foldl (fun v w => patchWrite v w.1 w.2) v

def patches (ws : List (Nat × Bytes)) : List Edit := ws.map fun w => .patch w.1 w.2

theorem bufferedBytes_patches (ws : List (Nat × Bytes)) :
    bufferedBytes (patches ws) = patchAll [] ws := by
  have hall : (patches ws).filter Edit.reachesBuffer = patches ws := by
    refine List.filter_eq_self.mpr fun x hx => ?_
    obtain ⟨w, -, rfl⟩ := List.mem_map.mp hx
    rfl
  rw [bufferedBytes, hall, edited, patches, List.foldl_map]
  rfl

theorem leavesDirty_patches (ws : List (Nat × Bytes)) :
    leavesDirty (patches ws) = true ↔ ¬ ∀ w ∈ ws, w.2 = [] := by
  induction ws using List.reverseRecOn with
  | nil => simp [patches, leavesDirty]
  | append_singleton ws w ih =>
    have hsnoc : patches (ws ++ [w]) = patches ws ++ [.patch w.1 w.2] := List.map_append
    rw [hsnoc, leavesDirty_snoc]
    simp only [Edit.dirties, Bool.or_eq_true, ih, List.forall_mem_append, List.forall_mem_singleton,
      bne_iff_ne, not_and_or]

/-- Whatever is done beside: unless a write of the handle or its release is
refused, writes of which one has a byte make the object what they describe from
the empty content, and others leave it as it is. -/
theorem release_replaces {c₀ : Nat → ObjectHandle → Option Bytes} {device : MtpDevice}
    {describe : String} {config : MtpFsConfig} {h : List (Callback × Reply)} {fs fs' : MtpFs}
    {tr tr' : List Event}
    (hr : Served NewHandles dispatch (fun h _ _ c => c.CarriesOpen h) (.new device describe config) []
      h fs tr)
    {fh ino : Nat} (ho : opened h fh = some ino) {ws : List (Nat × Bytes)}
    (hws : (edits h fh).map Prod.fst = patches ws) {r : Reply}
    (hrel : Prog.Ends NewHandles (dispatch (.release fh) fs) tr (r, fs') tr') :
    (∃ x ∈ edits h fh, x.2.isError = true) ∨ r.isError = true ∨
      fs'.link.content c₀ tr' ino =
        if ∀ w ∈ ws, w.2 = [] then fs.link.content c₀ tr ino else some (patchAll [] ws) := by
  by_cases hacc : Accepted (edits h fh)
  · cases hok : r.isError with
    | true => exact .inr (.inl rfl)
    | false =>
      refine .inr (.inr ?_)
      have htail := AcceptedTail.all hacc
      rw [hws] at htail
      rw [release_content hr ho htail hrel hok, bufferedBytes_patches]
      by_cases hempty : ∀ w ∈ ws, w.2 = []
      · rw [if_pos hempty, if_neg fun hd => (leavesDirty_patches ws).mp hd hempty]
      · rw [if_neg hempty, if_pos ((leavesDirty_patches ws).mpr hempty)]
  · obtain ⟨x, hx, hne⟩ := not_forall₂.mp hacc
    exact .inl ⟨x, hx, by simpa using hne⟩

/-- The file `a` as the first session finds it. -/
def abcObject (session : Nat) (h : ObjectHandle) : Option Bytes :=
  if session = 0 ∧ h = ⟨7⟩ then some [97, 98, 99] else none

/-- A device with that file, and a new handle for the first object of a session. -/
def abcDevice (tr : List Event) : (c : Call) → Option (Answer c)
  | .storages _ => some (.ok [⟨⟨1⟩, "Card", 100, 50⟩])
  | .listObjects .. => some (.ok [⟨⟨7⟩, "a", false, 3, none⟩])
  | .upload storage .. =>
    if ∀ ev ∈ tr, ¬ ev.HandsOut storage.session ⟨8⟩ then some (.ok ⟨8⟩, 1) else none
  | .delete .. => some (.ok ())
  | .rename .. => some (.ok ())
  | c => undisturbed c

theorem newHandles_of_script (tr : List Event) (c : Call) (a : Answer c) (tr' : List Event)
    (h : script abcDevice tr c = some (a, tr')) : NewHandles tr c a tr' := by
  obtain ⟨b, hb, hab⟩ := Option.map_eq_some_iff.mp h
  cases hab
  refine .intro fun p hp => ?_
  cases c with
  | upload storage parent info stream =>
    have hnew : ∀ ev ∈ tr, ¬ ev.HandsOut storage.session ⟨8⟩ := by
      by_contra hno
      have hnone : abcDevice tr (.upload storage parent info stream) = none := if_neg hno
      exact nomatch hnone.symm.trans hb
    have hsome : abcDevice tr (.upload storage parent info stream) = some (.ok ⟨8⟩, 1) :=
      if_pos hnew
    cases hsome.symm.trans hb
    cases hp
    exact hnew
  | _ => cases hp

/-- Opens `a` as handle 1 of that device, takes the edits, and closes the handle:
what the file held before the release and what it holds after it. -/
theorem closing_of_run (is : List Callback) (es : List Edit) (before after : Option Bytes)
    (ht : (serveChecked (script abcDevice) dispatch (fun h c => decide (c.CarriesOpen h)) []
      ([.init, .lookup 2 (some "a"), .openFile 3 .readWrite] ++ is) writableMount []).any (fun t =>
        ((dispatch (.release 1) t.2.1).runWith (script abcDevice) t.2.2).any fun u =>
          decide (opened t.1 1 = some 3 ∧ (edits t.1 1).map Prod.fst = es ∧ Accepted (edits t.1 1) ∧
            u.1.1 = .ok ∧ t.2.1.link.content abcObject t.2.2 3 = before ∧
            u.1.2.link.content abcObject u.2 3 = after)) = true) :
    ∃ h fs tr fs' tr', Served NewHandles dispatch (fun h _ _ c => c.CarriesOpen h) writableMount []
      h fs tr ∧ Prog.Ends NewHandles (dispatch (.release 1) fs) tr (.ok, fs') tr' ∧
      opened h 1 = some 3 ∧ (edits h 1).map Prod.fst = es ∧ Accepted (edits h 1) ∧
      fs.link.content abcObject tr 3 = before ∧ fs'.link.content abcObject tr' 3 = after := by
  obtain ⟨h, fs, tr, r, fs', tr', hr, hrel, ht⟩ := Served.of_checked_then newHandles_of_script
    (fun h (c : Callback) => decide (c.CarriesOpen h)) (fun _ _ _ _ hc => of_decide_eq_true hc) _
    (Callback.release 1) _ ht
  obtain ⟨ho, hes, hacc, rfl, hbefore, hafter⟩ := of_decide_eq_true ht
  exact ⟨h, fs, tr, fs', tr', hr, hrel, ho, hes, hacc, hbefore, hafter⟩

/-- Two bytes with a gap between them. -/
theorem release_replaces_gap : ∃ (fs : MtpFs) (tr : List Event),
    fs.link.content abcObject tr 3 = some [9, 0, 0, 0, 8] := by
  obtain ⟨h, fs, tr, fs', tr', hr, hrel, ho, hes, hacc, -, -⟩ :=
    closing_of_run [.write 3 1 0 [9], .write 3 1 4 [8]] (patches [(0, [9]), (4, [8])])
      (some [97, 98, 99]) (some [9, 0, 0, 0, 8]) (by decide +kernel)
  have hcontent : _ ∨ _ ∨ fs'.link.content abcObject tr' 3 = _ := release_replaces hr ho hes hrel
  rcases hcontent with ⟨x, hx, herr⟩ | herr | hcontent
  · exact absurd herr (Bool.eq_false_iff.mp (hacc x hx))
  · cases herr
  · exact ⟨fs', tr', hcontent⟩

/-- One byte is written to a file of three, every reply is a success, and the
other two are gone. -/
theorem unwritten_bytes_lost : ∃ h fs tr fs' tr',
    Served NewHandles dispatch (fun h _ _ c => c.CarriesOpen h) writableMount [] h fs tr ∧
    Prog.Ends NewHandles (dispatch (.release 1) fs) tr (.ok, fs') tr' ∧ opened h 1 = some 3 ∧
    (edits h 1).map Prod.fst = patches [(0, [9])] ∧ Accepted (edits h 1) ∧
    fs.link.content abcObject tr 3 = some [97, 98, 99] ∧
    fs'.link.content abcObject tr' 3 ≠ some (patchAll [97, 98, 99] [(0, [9])]) := by
  obtain ⟨h, fs, tr, fs', tr', hr, hrel, ho, hes, hacc, hbefore, hafter⟩ :=
    closing_of_run [.write 3 1 0 [9]] (patches [(0, [9])]) (some [97, 98, 99]) (some [9])
      (by decide +kernel)
  refine ⟨h, fs, tr, fs', tr', hr, hrel, ho, hes, hacc, hbefore, ?_⟩
  rw [hafter]
  decide

/-! ## Truncation -/

/-- Whatever came before them: after writes and sizes of which none was refused
and the first was a cut to nothing, a release that succeeds leaves the object with what they describe just
when, after the last cut to nothing, a byte was written and the other sizes make
no difference, or no byte was written and the object has that content already. -/
theorem truncation_takes_effect {c₀ : Nat → ObjectHandle → Option Bytes} {device : MtpDevice}
    {describe : String} {config : MtpFsConfig} {h : List (Callback × Reply)} {fs fs' : MtpFs}
    {tr tr' : List Event}
    (hr : Served NewHandles dispatch (fun h _ _ c => c.CarriesOpen h) (.new device describe config) []
      h fs tr)
    {fh ino : Nat} (ho : opened h fh = some ino) {pre post : List (Edit × Reply)}
    (hedits : edits h fh = pre ++ post) {es : List Edit} (hes : post.map Prod.fst = .resize 0 :: es)
    (hacc : Accepted post) {r : Reply}
    (hrel : Prog.Ends NewHandles (dispatch (.release fh) fs) tr (r, fs') tr')
    (hok : r.isError = false) :
    fs'.link.content c₀ tr' ino = some (edited (.resize 0 :: es)) ↔
      if leavesDirty (.resize 0 :: es) then
        edited ((.resize 0 :: es).filter Edit.reachesBuffer) = edited (.resize 0 :: es)
      else fs.link.content c₀ tr ino = some (edited (.resize 0 :: es)) := by
  rw [release_content hr ho ⟨pre, post, hedits, hes, hacc, .inr ⟨es, rfl⟩⟩ hrel hok]
  split
  · rw [Option.some.injEq, bufferedBytes]
  · exact Iff.rfl

/-- Cut to nothing and written anew, then set to the size it has. -/
theorem truncation_takes_effect_rewritten : ∃ (fs : MtpFs) (tr : List Event),
    fs.link.content abcObject tr 3 = some [0, 8] := by
  obtain ⟨h, fs, tr, fs', tr', hr, hrel, ho, hes, hacc, -, -⟩ :=
    closing_of_run [.setattr 3 (some 0) (some 1), .write 3 1 1 [8], .setattr 3 (some 2) (some 1)]
      [.resize 0, .patch 1 [8], .resize 2] (some [97, 98, 99]) (some [0, 8]) (by decide +kernel)
  have hiff : fs'.link.content abcObject tr' 3 = some (edited _) ↔ _ :=
    truncation_takes_effect hr ho (List.nil_append _).symm hes hacc hrel rfl
  rw [if_pos (by decide)] at hiff
  exact ⟨fs', tr', hiff.mpr (by decide)⟩

/-- A file is cut to nothing and closed, both with success, and is what it was. -/
theorem truncation_lost : ∃ h fs tr fs' tr',
    Served NewHandles dispatch (fun h _ _ c => c.CarriesOpen h) writableMount [] h fs tr ∧
    Prog.Ends NewHandles (dispatch (.release 1) fs) tr (.ok, fs') tr' ∧ opened h 1 = some 3 ∧
    (edits h 1).map Prod.fst = [.resize 0] ∧ Accepted (edits h 1) ∧
    fs'.link.content abcObject tr' 3 ≠ some (edited [.resize 0]) := by
  obtain ⟨h, fs, tr, fs', tr', hr, hrel, ho, hes, hacc, -, hafter⟩ :=
    closing_of_run [.setattr 3 (some 0) (some 1)] [.resize 0] (some [97, 98, 99])
      (some [97, 98, 99]) (by rfl)
  refine ⟨h, fs, tr, fs', tr', hr, hrel, ho, hes, hacc, ?_⟩
  rw [hafter]
  decide

end MtpMount
