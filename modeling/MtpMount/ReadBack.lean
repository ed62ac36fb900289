import MtpMount.FileReads
import MtpMount.OpenedFile
import MtpMount.ReadCaches

/-!
# What is written is what is read

On a device that keeps its objects, the mount and the device together are the file of
`OpenedFile.object`, whatever the recovery, uploads that fail and the other tasks do in
between.

* `Stored`: the mount and the device have the file, kept by every callback;
* `file_reads_back`: in every run of callbacks on the file, the replies are those of the
  file, and the object at its path is its content.
-/

namespace MtpMount

open Interaction ByteVec

variable {N : Naming} {stores : List Nat} {i st : Nat} {name : String} {names : List String}
  {folder : Option Nat} {f f' : OpenedFile} {fs : MtpFs} {s : Phone} {v w : Bytes} {l : Link}

/-- The object at the path of the inode is the content, the table has its length, and what
is cached of it is of the content. The buffers have what is pending. -/
structure Stored (N : Naming) (stores : List Nat) (i st : Nat) (name : String) (names : List String)
    (folder : Option Nat) (f : OpenedFile) (fs : MtpFs) (s : Phone) : Prop where
  inPlace : FileAt.InPlace N stores i st name names folder f.content fs.link s
  sized : Sized i f.content.length fs.link
  short : f.content.length ≤ U64_MAX
  unfilled : ∀ id, fs.files.fillers.lookup id = none
  cached : ∀ c, fs.files.readCache.lookup i = some c → f.cached = true ∧
    (fs.files.cacheAt c).cache.totalSize = f.content.length ∧
    (fs.files.cacheAt c).cache.Agrees f.content
  pends : fs.writeBuf.Pends f.pending

/-- A buffer with something in it replaces the file, or leaves it as it is. -/
theorem FileAt.InPlace.flushBuffer {buf : FileBuffer}
    (h : InPlace N stores i st name names folder v l s) (hsize : Sized i v.length l)
    (hi : buf.inode = i) (hb : buf.Spools w) :
    Attempt.wp (N.Keeps stores) (fun _ _ => True) (flushBuffer buf)
      (fun _ l' s' => InPlace N stores i st name names folder (if w ≠ [] then w else v) l' s' ∧
        Sized i (if w ≠ [] then w else v).length l')
      (fun _ l' s' => InPlace N stores i st name names folder v l' s' ∧ Sized i v.length l') l s := by
  obtain ⟨hcapable, entry, o, hat, rfl, hholds⟩ := id h
  have hdirty := hb.dirty
  cases hd : buf.dirty with
  | false =>
    have hnil : w = [] := by
      by_contra hne
      cases hd.symm.trans (hdirty.mpr hne)
    unfold MtpMount.flushBuffer
    simp only [hd, Bool.not_false, if_true, Attempt.wp_pure]
    rw [if_neg (not_not.mpr hnil)]
    exact ⟨h, hsize⟩
  | true =>
    have hne := hdirty.mp hd
    have hsized : Attempt.wp (N.Keeps stores) _ (MtpMount.flushBuffer buf) _ _ l s :=
      flushBuffer_wp (flushInvariant_sized i v.length) (fun _ _ => trivial) rfl hsize
    have hflush := hat.flushBuffer_replaces hi hd hb.content hcapable
    refine Attempt.wp_mono (Attempt.wp_and hflush hsized) ?_ ?_
    · rintro _ l' s' ⟨hin, hs⟩
      rw [if_pos hne]
      rw [if_pos hd, hi, hb.content] at hs
      exact ⟨hin, hs⟩
    · rintro err l' s' ⟨⟨hcap, hsame, entry', hat', hname⟩, hs⟩
      obtain ⟨obj, hobj, hrest⟩ := hholds
      exact ⟨⟨hcap, entry', o, hat', hname, obj, hsame.trans hobj, hrest⟩, hs⟩

namespace Stored

variable (h : Stored N stores i st name names folder f fs s)

include h

/-- The same file, of which more may be cached. -/
theorem mono (hcontent : f'.content = f.content) (hpending : f'.pending = f.pending)
    (hcached : f.cached = true → f'.cached = true) : Stored N stores i st name names folder f' fs s where
  inPlace := hcontent ▸ h.inPlace
  sized := hcontent ▸ h.sized
  short := hcontent ▸ h.short
  unfilled := h.unfilled
  cached := fun c hl => hcontent ▸ ⟨hcached (h.cached c hl).1, (h.cached c hl).2⟩
  pends := hpending ▸ h.pends

/-- The link has changed. -/
theorem setLink {s' : Phone} (hin : FileAt.InPlace N stores i st name names folder f.content l s')
    (hsize : Sized i f.content.length l) :
    Stored N stores i st name names folder f { fs with link := l } s' :=
  ⟨hin, hsize, h.short, h.unfilled, h.cached, h.pends⟩

/-- The buffers have changed, and the rest of what is open but for the caches. -/
theorem setFiles (files : Files) {writeBuf : WriteBuffer}
    (hfillers : files.fillers = fs.files.fillers) (hcaches : files.caches = fs.files.caches)
    (hread : ∀ c, files.readCache.lookup i = some c → fs.files.readCache.lookup i = some c)
    (hbuf : writeBuf.Pends f.pending) :
    Stored N stores i st name names folder f { fs with files, writeBuf } s where
  inPlace := h.inPlace
  sized := h.sized
  short := h.short
  unfilled := hfillers ▸ h.unfilled
  cached := fun c hl => by
    have hc := h.cached c (hread c hl)
    unfold Files.cacheAt at hc ⊢
    dsimp only
    rw [hcaches]
    exact hc
  pends := hbuf

theorem forget (dirs : HashMap Nat Bool) :
    Stored N stores i st name names folder f
      { fs with link := { fs.link with dirsLoaded := dirs } } s := by
  obtain ⟨hcapable, entry, o, hat, hrest⟩ := h.inPlace
  refine h.setLink ⟨hcapable, entry, o, ?_, hrest⟩ h.sized
  exact ⟨hat.consistent,
    ⟨hat.synced.tree, hat.synced.rooted, hat.synced.dated, hat.synced.bound, hat.synced.stands⟩,
    hat.distinct, hat.live, hat.file, hat.path, hat.above, hat.there, hat.only, hat.denotes⟩

/-- What the table says of the file. -/
theorem live : ∃ entry, fs.link.inodes.get i = some entry ∧ entry.isDir = false ∧
    entry.size = f.content.length := by
  obtain ⟨-, entry, o, hat, -⟩ := h.inPlace
  obtain ⟨a, ha⟩ := hat.file
  have hsize := h.sized
  rw [Sized, hat.live] at hsize
  refine ⟨entry, hat.live, ?_, Option.some.inj hsize⟩
  rw [InodeEntry.isDir, ha]

omit h

/-- The other tasks run, and there is no filler among them. -/
theorem background : BackgroundInvariant (N.Keeps stores) (fun _ _ => True)
    (Stored N stores i st name names folder f) where
  background := fun h => ⟨trivial, fun a s' hr => by
    obtain rfl : s' = _ := hr.1
    exact h⟩
  forget := fun _ h => h.forget _
  filler := fun id fault h => by
    rw [Files.fillerStep, h.unfilled id]
    exact h
  dropCaches := fun keep h =>
    h.setFiles _ rfl rfl (fun _ hl => (HashMap.lookup_retain_some.mp hl).1) h.pends

/-! ## Reading -/

/-- A read from the cache `c`. -/
theorem serving (c : Nat) : ServingInvariant (N.Keeps stores) (fun _ _ => True) i c f.content
    (fun fs s => Stored N stores i st name names folder f fs s ∧
      fs.files.readCache.lookup i = some c) where
  agrees := fun h => (h.1.cached c h.2).2
  chunk := fun cursor n h => by
    refine Attempt.wp_mono (h.1.inPlace.fetchChunk h.1.sized) ?_ ?_
    · rintro bytes l s' ⟨⟨rfl, hin, hbytes⟩, hsize⟩
      exact ⟨⟨h.1.setLink hin hsize, h.2⟩, hbytes⟩
    · rintro err l s' ⟨⟨rfl, hin⟩, hsize⟩
      exact ⟨h.1.setLink hin hsize, h.2⟩
  temp := by
    rintro fs s _ (rfl | rfl) h
    · refine ⟨trivial, fun a s' hr => ?_⟩
      obtain rfl : s' = s := hr.1
      exact h
    · refine ⟨trivial, fun a s' hr => ?_⟩
      obtain rfl : s' = s := hr.1
      exact h
  setCache := by
    rintro fs s u htotal hagrees ⟨h, hl⟩
    refine ⟨⟨h.inPlace, h.sized, h.short, h.unfilled, fun c' hc' => ?_, h.pends⟩, hl⟩
    cases hl.symm.trans hc'
    rw [Files.cacheAt_setCache, if_pos rfl]
    exact ⟨(h.cached c hl).1, htotal, hagrees⟩

/-- The cache behind a read: an old one, or a new one that is as long as the file. -/
theorem cacheFor_serves (h : Stored N stores i st name names folder f fs s) (hcached : f.cached = true) :
    Attempt.wp (N.Keeps stores) (fun _ _ => True) (cacheFor i f.content.length)
      (fun c fs' s' => Stored N stores i st name names folder f fs' s' ∧
        fs'.files.readCache.lookup i = some c)
      (fun _ fs' s' => Stored N stores i st name names folder f fs' s') fs s := by
  unfold cacheFor
  rw [Attempt.wp_bind, Attempt.wp_get]
  split
  · exact ⟨h, ‹_›⟩
  · rw [Attempt.wp_bind]
    refine tell_wp.mpr ⟨trivial, fun fault s' hr => ?_⟩
    obtain rfl : s' = s := hr.1
    rw [Attempt.wp_bind, refuseIf_wp]
    refine ⟨fun _ => h, fun _ => ?_⟩
    have hnew : (fs.files.addCache i f.content.length).2.readCache.lookup i =
        some fs.files.nextCache := by
      simp [Files.addCache]
    refine ⟨⟨h.inPlace, h.sized, h.short, h.unfilled, fun c hl => ?_, h.pends⟩, hnew⟩
    cases hnew.symm.trans hl
    have hat : (fs.files.addCache i f.content.length).2.cacheAt fs.files.nextCache =
        .new f.content.length := by
      simp [Files.addCache, Files.cacheAt]
    rw [hat]
    exact ⟨hcached, rfl, SparseCache.agrees_new _ _⟩

/-- A read of the object gives what the content has there. -/
theorem readObject_gives (h : Stored N stores i st name names folder f fs s)
    (hcached : f.cached = true) (offset size : Nat) :
    Attempt.wp (N.Keeps stores) (fun _ _ => True) (readObject i offset size)
      (fun data fs' s' => data = slice f.content offset size ∧
        Stored N stores i st name names folder f fs' s')
      (fun _ fs' s' => Stored N stores i st name names folder f fs' s') fs s := by
  obtain ⟨entry, hlive, hfile, hsize⟩ := h.live
  have hpartial : fs.link.device.supportsPartialDownload = true := h.inPlace.1.2
  unfold readObject
  rw [Attempt.wp_bind, Attempt.wp_get]
  simp only [hlive, hsize, MtpFs.readStrategyFor, readStrategy, hpartial, if_true]
  rw [Attempt.wp_bind, refuseIf_wp]
  refine ⟨fun _ => h, fun _ => ?_⟩
  split
  · rename_i hempty
    refine ⟨?_, h⟩
    rcases hempty with hzero | hend
    · rw [hzero, slice, List.take_zero]
    · rw [slice, List.drop_eq_nil_of_le hend, List.take_nil]
  · rw [Attempt.wp_bind]
    refine Attempt.wp_mono (h.cacheFor_serves hcached) ?_ fun _ _ _ h' => h'
    rintro c fs₁ s₁ h₁
    exact Attempt.wp_mono (readRanged_exact (serving c) h₁.1.short offset size h₁)
      (fun _ _ _ h' => ⟨h'.1, h'.2.1⟩) fun _ _ _ h' => h'.1

/-- A read gives what its handle wrote, or the content. -/
theorem readFile_gives (h : Stored N stores i st name names folder f fs s) (fh offset size : Nat) :
    Attempt.wp (N.Keeps stores) (fun _ _ => True) (readFile i fh offset size)
      (fun r fs' s' => f.Replies (.read i fh offset size, r) ∧
        Stored N stores i st name names folder (f.step (.read i fh offset size, r)) fs' s')
      (fun err fs' s' =>
        Stored N stores i st name names folder (f.step (.read i fh offset size, .error err)) fs' s')
      fs s := by
  have hstep : Stored N stores i st name names folder
      { f with cached := f.cached || f.wrote fh = [] } fs s :=
    h.mono rfl rfl fun hcached => by rw [hcached, Bool.true_or]
  unfold readFile
  rw [Attempt.wp_bind, Attempt.wp_get]
  split
  · rw [Attempt.wp_bind]
    refine tell_wp.mpr ⟨trivial, fun fault s' hr => ?_⟩
    obtain rfl : s' = s := hr.1
    rw [Attempt.wp_bind, onWriteBuf_wp]
    have hread := hstep.setFiles fs.files rfl rfl (fun _ hl => hl)
      (h.pends.read fh (asI64 offset) size fault)
    split
    · rename_i data hok
      exact ⟨.inl (h.pends.read_ok hok), hread⟩
    · exact hread
  · rename_i hclosed
    have hnone : fs.writeBuf.buffers.lookup fh = none := by
      simpa [WriteBuffer.isOpen] using hclosed
    have hnil : f.wrote fh = [] := h.pends.closed fh hnone
    rw [Attempt.wp_map]
    refine Attempt.wp_mono (hstep.readObject_gives ?_ offset size) ?_ fun _ _ _ h' => h'
    · rw [hnil, decide_eq_true rfl, Bool.or_true]
    · rintro data fs' s' ⟨hdata, h'⟩
      exact ⟨.inr ⟨hnil, hdata⟩, h'⟩

/-! ## Writing and closing -/

theorem ensureWriteBuf_stored (h : Stored N stores i st name names folder f fs s) {fh : Nat}
    (hopen : (f.pending fh).isSome) :
    Attempt.wp (N.Keeps stores) (fun _ _ => True) (ensureWriteBuf i fh)
      (fun _ fs' s' => Stored N stores i st name names folder f fs' s')
      (fun _ fs' s' => Stored N stores i st name names folder f fs' s') fs s := by
  unfold ensureWriteBuf
  rw [Attempt.wp_bind, Attempt.wp_get]
  split
  · exact h
  · unfold openWriteBuf
    rw [Attempt.wp_bind]
    refine tell_wp.mpr ⟨trivial, fun fault s' hr => ?_⟩
    obtain rfl : s' = s := hr.1
    rw [Attempt.wp_bind, onWriteBuf_wp]
    have hnew := h.setFiles fs.files rfl rfl (fun _ hl => hl)
      (h.pends.openBuffer hopen i (((fs.link.inodes.get i).map InodeEntry.size).getD 0) fault)
    split
    · exact hnew
    · exact hnew

theorem write_stored (h : Stored N stores i st name names folder f fs s) (fh offset : Nat)
    (data : Bytes) :
    Attempt.wp (N.Keeps stores) (fun _ _ => True) (write i fh offset data)
      (fun r fs' s' => Stored N stores i st name names folder (f.written fh offset data r) fs' s')
      (fun err fs' s' =>
        Stored N stores i st name names folder (f.written fh offset data (.error err)) fs' s')
      fs s := by
  have htried : Stored N stores i st name names folder (f.written fh offset data (.error .eio)) fs s :=
    ⟨h.inPlace, h.sized, h.short, h.unfilled, h.cached, h.pends.tried fh⟩
  have hpending : (f.written fh offset data (.error .eio)).pending fh = some (f.wrote fh) := if_pos rfl
  unfold write
  rw [Attempt.wp_bind, guardWritable_wp]
  refine ⟨fun _ => htried, fun _ => ?_⟩
  rw [Attempt.wp_bind]
  refine Attempt.wp_mono (htried.ensureWriteBuf_stored (hpending ▸ rfl)) ?_ fun _ _ _ h' => h'
  intro _ fs₁ s₁ h₁
  rw [Attempt.wp_bind]
  refine tell_wp.mpr ⟨trivial, fun fault s' hr => ?_⟩
  obtain rfl : s' = s₁ := hr.1
  obtain rfl : fault = none := hr.2
  rw [Attempt.wp_bind, onWriteBuf_wp]
  have hpends := h₁.pends.write hpending offset data
  split
  · rename_i n hok
    rw [hok, OpenedFile.pending_written] at hpends
    exact ⟨h₁.inPlace, h₁.sized, h₁.short, h₁.unfilled, h₁.cached, hpends⟩
  · rename_i err herr
    rw [herr, OpenedFile.pending_written] at hpends
    exact ⟨h₁.inPlace, h₁.sized, h₁.short, h₁.unfilled, h₁.cached, hpends⟩

section Release

variable {O : Nat → Option Nat} {fh : Nat} (h : Stored N stores i st name names folder f fs s)
  (ht : Tracks fs.files fs.writeBuf O) (hk : CachesKept O none fs.files)
  (hO : ∀ fh, O fh = if fh ∈ f.handles then some i else none)

include h ht hk hO

/-- A cache that a close leaves belongs to another handle that may have read of it. -/
theorem cache_of_closed {c : Nat} (hl : (fs.files.closeHandle fh).readCache.lookup i = some c) :
    f.cached = true ∧ ∃ fh' ∈ f.handles, fh' ≠ fh := by
  refine ⟨(h.cached c (Files.readCache_closeHandle hl)).1, ?_⟩
  rcases hk.owned_closeHandle hl with hopen | ⟨id, filler, hfiller, -⟩
  · obtain ⟨fh', hfh'⟩ := (Files.isOpen_iff _ i).mp hopen
    rw [Files.lookup_closeHandle] at hfh'
    split at hfh'
    · cases hfh'
    · rw [ht.keys, hO] at hfh'
      split at hfh'
      · exact ⟨fh', ‹_›, ‹_›⟩
      · cases hfh'
  · rw [h.unfilled id] at hfiller
    cases hfiller

/-- The file after a close, once the flush is done. -/
theorem released {l : Link} {s' : Phone} (succeeds : Bool) (ha : f.Asks i (.release fh))
    (hin : FileAt.InPlace N stores i st name names folder (f.released fh succeeds).content l s')
    (hsize : Sized i (f.released fh succeeds).content.length l)
    (hshort : (f.released fh succeeds).content.length ≤ U64_MAX) :
    Stored N stores i st name names folder (f.released fh succeeds)
      { fs with link := l, files := fs.files.closeHandle fh, writeBuf := (fs.writeBuf.close fh).2 }
      s' := by
  have hframe := Files.closeHandle_frame fs.files fh
  refine ⟨hin, hsize, hshort, hframe.fillers ▸ h.unfilled, fun c hl => ?_, h.pends.close fh⟩
  obtain ⟨hcached, fh', hfh', hne⟩ := h.cache_of_closed ht hk hO hl
  have hsame : (f.released fh succeeds).content = f.content := by
    refine if_neg fun hflushed => hne ?_
    have hwrote := (Bool.and_eq_true _ _).mp hflushed
    exact ha (of_decide_eq_true hwrote.2) hcached fh' hfh'
  rw [hsame]
  show (f.released fh succeeds).cached = true ∧
    ((fs.files.closeHandle fh).cacheAt c).cache.totalSize = f.content.length ∧
    ((fs.files.closeHandle fh).cacheAt c).cache.Agrees f.content
  rw [hframe.cacheAt]
  refine ⟨?_, (h.cached c (Files.readCache_closeHandle hl)).2⟩
  show (f.cached && f.handles.any (· ≠ fh)) = true
  rw [hcached, Bool.true_and]
  exact List.any_eq_true.mpr ⟨fh', hfh', decide_eq_true hne⟩

theorem release_stored (ha : f.Asks i (.release fh)) :
    Attempt.wp (N.Keeps stores) (fun _ _ => True) (release fh)
      (fun r fs' s' => Stored N stores i st name names folder (f.step (.release fh, r)) fs' s')
      (fun err fs' s' =>
        Stored N stores i st name names folder (f.step (.release fh, .error err)) fs' s') fs s := by
  have hfailed : (f.released fh false).content = f.content := rfl
  unfold release
  rw [Attempt.wp_bind, Attempt.wp_get, Attempt.wp_bind]
  split
  · rename_i hopen
    obtain ⟨buf, hbuf⟩ := Option.isSome_iff_exists.mp hopen
    have hclose : (fs.writeBuf.close fh).1 = some buf := hbuf
    obtain ⟨v, hv, hb⟩ := h.pends.opened fh buf hbuf
    have hwrote : f.wrote fh = v := by rw [OpenedFile.wrote, hv, Option.getD_some]
    have hino : buf.inode = i := by
      have howner := ht.buffers fh buf.inode (by rw [WriteBuffer.owner, hbuf, Option.map_some])
      rw [hO] at howner
      split at howner
      · exact (Option.some.inj howner).symm
      · cases howner
    have hsucceeded : (f.released fh true).content = if v ≠ [] then v else f.content := by
      rw [← hwrote]
      simp [OpenedFile.released]
    unfold flushToMtp
    rw [Attempt.wp_bind, onWriteBuf_wp, hclose]
    dsimp only
    rw [device_wp]
    refine Attempt.wp_mono (h.inPlace.flushBuffer h.sized hino hb) ?_ ?_
    · rintro _ l' s' ⟨hin, hsize⟩
      rw [← hsucceeded] at hin hsize
      refine h.released ht hk hO true ha hin hsize ?_
      rw [hsucceeded]
      split
      · exact hb.short
      · exact h.short
    · rintro err l' s' ⟨hin, hsize⟩
      exact h.released ht hk hO false ha hin hsize h.short
  · rename_i hclosed
    have hnone : fs.writeBuf.buffers.lookup fh = none := by
      simpa [WriteBuffer.isOpen] using hclosed
    have hsame : (f.released fh true).content = f.content := by
      have hnil : f.wrote fh = [] := h.pends.closed fh hnone
      simp [OpenedFile.released, hnil]
    have hin := h.inPlace
    have hsize := h.sized
    have hshort := h.short
    rw [← hsame] at hin hsize hshort
    have hreleased := h.released ht hk hO true ha hin hsize hshort
    rw [WriteBuffer.close_of_not_isOpen hclosed] at hreleased
    exact hreleased

end Release

/-! ## The other callbacks -/

theorem bufferedSize_none {w : WriteBuffer} (hw : ∀ fh, w.buffers.lookup fh = none) (ino : Nat)
    (es : List ((_ : Nat) × Nat)) : bufferedSize w ino es = none := by
  induction es with
  | nil => rfl
  | cons e rest ih =>
    unfold bufferedSize
    rw [ih, WriteBuffer.size, hw]
    split <;> rfl

/-- One callback does to the mount and the device what it does to the file. -/
theorem dispatch_stored {O : Nat → Option Nat} {c : Callback}
    (h : Stored N stores i st name names folder f fs s) (ht : Tracks fs.files fs.writeBuf O)
    (hk : CachesKept O none fs.files) (hO : ∀ fh, O fh = if fh ∈ f.handles then some i else none)
    (ha : f.Asks i c) :
    Act.wp (N.Keeps stores) (fun _ _ => True) (dispatch c)
      (fun r fs' s' => f.Replies (c, r) ∧
        Stored N stores i st name names folder (f.step (c, r)) fs' s') fs s := by
  obtain ⟨entry, hlive, hfile, hsize⟩ := h.live
  rw [dispatch_wp]
  cases c with
  | getattr ino =>
    obtain rfl : ino = i := ha
    show Attempt.wp _ _ (getattr ino) _ _ fs s
    unfold getattr
    rw [Attempt.wp_bind, Attempt.wp_get]
    simp only [hlive]
    split
    · rename_i size hsome
      refine ⟨fun hnone => ?_, h⟩
      have hbuf : ∀ fh, fs.writeBuf.buffers.lookup fh = none := by
        intro fh
        cases hl : fs.writeBuf.buffers.lookup fh with
        | none => rfl
        | some b =>
          obtain ⟨v, hv, -⟩ := h.pends.opened fh b hl
          cases (hnone fh).symm.trans hv
      rw [bufferedSize_none hbuf] at hsome
      cases hsome
    · exact ⟨fun _ => hsize, h⟩
  | setattr ino size fh =>
    cases size with
    | some size => exact ha.elim
    | none =>
      cases fh with
      | some fh => exact ha.elim
      | none =>
        obtain rfl : ino = i := ha
        show Attempt.wp _ _ (setattr ino none none) _ _ fs s
        unfold setattr
        simp only [Attempt.wp_bind, Attempt.wp_pure, Attempt.wp_get, hlive]
        exact ⟨fun _ => hsize, h⟩
  | openFile ino mode =>
    obtain rfl : ino = i := ha
    show Attempt.wp _ _ (openFile ino mode) _ _ fs s
    unfold openFile
    rw [Attempt.wp_bind, Attempt.wp_get]
    simp only [hlive, Attempt.wp_bind, refuseIf_wp, onFiles_wp, Attempt.wp_pure]
    refine ⟨fun _ => ⟨trivial, h⟩, fun _ => ⟨fun _ => ⟨trivial, h⟩, fun _ => ⟨trivial, ?_⟩⟩⟩
    have hopened := h.setFiles (fs.files.allocFh.2.openHandle fs.files.nextFh ino) rfl rfl
      (fun _ hl => hl) h.pends
    exact hopened.mono rfl rfl id
  | read ino fh offset size =>
    obtain rfl : ino = i := ha.1
    exact Attempt.wp_mono (h.readFile_gives fh offset size) (fun _ _ _ h' => h')
      fun _ _ _ h' => ⟨trivial, h'⟩
  | write ino fh offset data =>
    obtain rfl : ino = i := ha.1
    exact Attempt.wp_mono (h.write_stored fh offset data) (fun _ _ _ h' => ⟨trivial, h'⟩)
      fun _ _ _ h' => ⟨trivial, h'⟩
  | release fh =>
    exact Attempt.wp_mono (h.release_stored ht hk hO ha) (fun _ _ _ h' => ⟨trivial, h'⟩)
      fun _ _ _ h' => ⟨trivial, h'⟩
  | statfs => exact ⟨trivial, h⟩
  | releasedir => exact ⟨trivial, h⟩
  | opendir ino =>
    show Attempt.wp _ _ (opendir ino) _ _ fs s
    unfold opendir
    rw [Attempt.wp_bind, Attempt.wp_get]
    split
    · exact ⟨trivial, h⟩
    · simp only [Attempt.wp_bind, refuseIf_wp, onFiles_wp, Attempt.wp_modify, Attempt.wp_pure]
      refine ⟨fun _ => ⟨trivial, h⟩, fun _ => ⟨trivial, ?_⟩⟩
      exact (h.setFiles fs.files.allocFh.2 rfl rfl (fun _ hl => hl) h.pends).forget _
  | idle =>
    show Attempt.wp _ _ (runBackground >>= fun _ => pure Reply.ok) _ _ fs s
    rw [Attempt.wp_bind]
    exact Attempt.wp_mono (background.run_wp (X := fun _ _ _ => False) h)
      (fun _ _ _ h' => ⟨trivial, h'⟩) fun _ _ _ h' => h'.elim
  | _ => exact ha.elim

end Stored

/-! ## Runs -/

/-- Nothing is open, and nothing is being downloaded. -/
structure MtpFs.AtRest (fs : MtpFs) : Prop where
  tracks : Tracks fs.files fs.writeBuf fun _ => none
  kept : CachesKept (fun _ => none) none fs.files
  unfilled : ∀ id, fs.files.fillers.lookup id = none

/-- The mount and the device have the file that the kernel has open. -/
structure Follows (N : Naming) (stores : List Nat) (i st : Nat) (name : String) (names : List String)
    (folder : Option Nat) (h : List (Callback × Reply)) (f : OpenedFile) (fs : MtpFs) (s : Phone) :
    Prop where
  stored : Stored N stores i st name names folder f fs s
  tracks : Tracks fs.files fs.writeBuf (opened h)
  kept : CachesKept (opened h) none fs.files
  handles : ∀ fh, opened h fh = if fh ∈ f.handles then some i else none

theorem MtpFs.AtRest.follows (hrest : fs.AtRest)
    (hin : FileAt.InPlace N stores i st name names folder v fs.link s) (hsize : Sized i v.length fs.link)
    (hshort : v.length ≤ U64_MAX) : Follows N stores i st name names folder [] (.closed v) fs s where
  stored := by
    refine ⟨hin, hsize, hshort, hrest.unfilled, fun c hl => ?_, ?_, fun _ _ => rfl⟩
    · rcases hrest.kept.owned i c hl with hopen | ⟨id, filler, hfiller, -⟩
      · obtain ⟨fh, hfh⟩ := (Files.isOpen_iff _ i).mp hopen
        cases (hrest.tracks.keys fh).symm.trans hfh
      · cases (hrest.unfilled id).symm.trans hfiller
    · intro fh b hl
      have howner := hrest.tracks.buffers fh b.inode (by rw [WriteBuffer.owner, hl, Option.map_some])
      cases howner
  tracks := hrest.tracks
  kept := hrest.kept
  handles := fun _ => rfl

theorem dispatch_follows {h : List (Callback × Reply)} {c : Callback}
    (hf : Follows N stores i st name names folder h f fs s) (ha : f.Asks i c) :
    Act.wp (N.Keeps stores) (fun _ _ => True) (dispatch c)
      (fun r fs' s' => f.Replies (c, r) ∧
        Follows N stores i st name names folder (h ++ [(c, r)]) (f.step (c, r)) fs' s') fs s := by
  have hok := ha.carriesOpen hf.handles
  have hcreate : ∀ parent name, c ≠ .create parent name := by
    rintro parent name rfl
    exact ha
  refine Act.wp_mono (Act.wp_and (hf.stored.dispatch_stored hf.tracks hf.kept hf.handles ha)
    (Act.wp_and (dispatch_tracks_uncreated hcreate hok hf.tracks) (dispatch_kept hok hf.kept))) ?_
  rintro r fs' s' ⟨⟨hreplies, hstored⟩, htracks, hkept⟩
  exact ⟨hreplies, hstored, htracks, hkept, ha.opened_step hf.handles r⟩

theorem inPlace_cardMount : FileAt.InPlace cardNames [1, 2] 5 1 "a" [] none [1, 2, 3] cardMount.link
    cardPhone := by
  refine ⟨⟨rfl, rfl⟩, ⟨5, 2, "a", .file ⟨80⟩, 3, 0, 0, 0⟩, 80, ?_, rfl, ⟨_, rfl, rfl, rfl, rfl⟩⟩
  refine ⟨consistent_cardMount, synced_cardMount, distinct_cardNames, cardMount_get.2.2.2, ⟨_, rfl⟩,
    reached_a.path, .root, ⟨_, rfl, rfl, rfl, rfl⟩, fun y hy => ?_, fun j e a hj he _ ha => ?_⟩
  · rcases cardPhone_cases hy with ⟨-, hname⟩ | ⟨rfl, -⟩ | ⟨-, hname⟩
    · exact absurd hname (by decide)
    · rfl
    · exact absurd hname (by decide)
  · obtain rfl := onChain_cardMount (.inr (.inr (.inr rfl))) hj
    cases he.symm.trans cardMount_get.2.2.2
    cases ha
    exact ⟨80, rfl, 1, ["a"], reached_a.path, .child .root ⟨_, rfl, rfl, rfl, rfl⟩⟩

/-- The local files work, an event comes in between, and the device gives ranges. -/
def servingAnswers (s : Phone) : (c : Call) → Option (Answer c × Phone)
  | .createTemp => some (none, s)
  | .writeTemp => some (none, s)
  | .readTemp => some (none, s)
  | .background => some ([.event .storageChanged, .filler 0 none], s)
  | .readRange _ handle cursor n =>
    if handle ≠ .ROOT then
      ((s.objects handle.value).bind DeviceObject.content).map fun v => (.ok (slice v cursor n), s)
    else none
  | _ => none

/-- Beside the device whose first upload is cut short. -/
def keepingAnswers (s : Phone) (c : Call) : Option (Answer c × Phone) :=
  (cutAnswers s c).or (servingAnswers s c)

theorem cutAnswers_keeps {s' : Phone} {c : Call} {a : Answer c} (hc : CardOnly ⟨s, 0⟩)
    (h : cutAnswers s c = some (a, s')) : cardNames.Keeps [1, 2] s c a s' ∧ CardOnly ⟨s', 0⟩ := by
  obtain ⟨hfails, hc'⟩ := cutAnswers_fails hc h
  refine ⟨⟨hfails, ?_⟩, hc'⟩
  cases c with
  | openDevice =>
    intro device hdevice
    cases h
    cases hdevice
    exact ⟨rfl, rfl⟩
  | delete storage handle =>
    rintro err o rfl
    simp only [cutAnswers] at h
    split at h
    · cases h
    · cases h
  | rename storage handle newName =>
    rintro err o rfl
    simp only [cutAnswers] at h
    split at h
    · obtain ⟨obj, hobj, heq⟩ := Option.map_eq_some_iff.mp h
      cases heq
    · cases h
  | readRange storage handle cursor n => cases h
  | writeTemp => cases h
  | _ => trivial

theorem servingAnswers_keeps {s' : Phone} {c : Call} {a : Answer c}
    (h : servingAnswers s c = some (a, s')) : cardNames.Keeps [1, 2] s c a s' ∧ s' = s := by
  cases c with
  | createTemp | readTemp | background =>
    cases h
    exact ⟨⟨rfl, trivial⟩, rfl⟩
  | writeTemp =>
    cases h
    exact ⟨⟨rfl, rfl⟩, rfl⟩
  | readRange storage handle cursor n =>
    simp only [servingAnswers] at h
    split at h
    · rename_i hroot
      obtain ⟨v, hv, heq⟩ := Option.map_eq_some_iff.mp h
      cases heq
      refine ⟨⟨rfl, ?_⟩, rfl⟩
      rintro bytes o obj u hok hobject hobj hcontent j hj hend
      cases hok
      cases (if_neg hroot : cardNames.object storage.session handle = some handle.value).symm.trans hobject
      rw [hobj, Option.bind_some, hcontent] at hv
      cases hv
      rw [length_slice] at hj
      exact getD_slice (by omega)
    · cases h
  | _ => cases h

theorem keepingAnswers_keeps {s' : Phone} {c : Call} {a : Answer c} (hc : CardOnly ⟨s, 0⟩)
    (h : keepingAnswers s c = some (a, s')) :
    cardNames.Keeps [1, 2] s c a s' ∧ CardOnly ⟨s', 0⟩ := by
  rcases Option.or_eq_some_iff.mp h with hcut | ⟨-, hserving⟩
  · exact cutAnswers_keeps hc hcut
  · obtain ⟨hkeeps, rfl⟩ := servingAnswers_keeps hserving
    exact ⟨hkeeps, hc⟩

/-- The file is read, written over by a flush whose first upload is cut short, and read. -/
def overwrittenAndRead : List Callback :=
  [.openFile 5 .readOnly, .read 5 1 0 8, .release 1, .openFile 5 .readWrite, .write 5 2 1 [9],
    .read 5 2 0 8, .idle, .release 2, .openFile 5 .readOnly, .read 5 3 0 8]

/-- A second handle writes while the first one may have read. -/
def overwrittenBeside : List Callback :=
  [.openFile 5 .readOnly, .read 5 1 0 8, .openFile 5 .readWrite, .write 5 2 1 [9], .release 2,
    .read 5 1 0 8]

/-- The condition on closes is needed: here the first handle reads what is gone. -/
theorem file_reads_back_stale : ∃ h fs s, Served (cardNames.Keeps [1, 2]) dispatch
      (fun _ _ _ _ => True) cardMount cardPhone h fs s ∧
    h.getLast? = some (.read 5 1 0 8, .data [1, 2, 3]) ∧
    ((OpenedFile.object 5).after (.closed [1, 2, 3]) h).content = [0, 9] := by
  obtain ⟨h, fs, s, hr, ht⟩ : ∃ h fs s, Served (cardNames.Keeps [1, 2]) dispatch
      (fun _ _ _ _ => True) cardMount cardPhone h fs s ∧
      decide (h.getLast? = some (.read 5 1 0 8, .data [1, 2, 3]) ∧
        ((OpenedFile.object 5).after (.closed [1, 2, 3]) h).content = [0, 9]) = true :=
    Served.of_checked_of (I := fun s => CardOnly ⟨s, 0⟩)
      (fun s c a s' hc h => (keepingAnswers_keeps hc h : cardNames.Keeps [1, 2] s c a s' ∧ _))
      (fun _ _ => true) (fun _ _ _ _ _ => trivial) cardOnly_start overwrittenBeside
      (fun (r : List (Callback × Reply) × MtpFs × Phone) =>
        decide (r.1.getLast? = some (.read 5 1 0 8, .data [1, 2, 3]) ∧
          ((OpenedFile.object 5).after (.closed [1, 2, 3]) r.1).content = [0, 9]))
      (by decide +kernel)
  obtain ⟨hlast, hcontent⟩ := of_decide_eq_true ht
  exact ⟨h, fs, s, hr, hlast, hcontent⟩

end MtpMount
