import MtpMount.Device

/-!
# Whole-object downloads

The tracker of the downloads in flight, the filler task that owns one download,
and the maps of open files: which handle is open on which inode, and the one
cache that the handles of an inode share. A cache is named by a number, as its
`Arc` is by its address; it stays in `caches` while anyone may still hold it.
-/

namespace MtpMount

/-- The downloads in flight; none may start once the mount is `stopping`. -/
structure FillTracker where
  live : List Nat
  stopping : Bool
  deriving DecidableEq, Repr

namespace FillTracker

def new : FillTracker := ⟨[], false⟩

/-- Records a fill that is about to start, unless teardown has begun. -/
def register (t : FillTracker) (cache : Nat) : Bool × FillTracker :=
  if t.stopping then (false, t) else (true, { t with live := t.live ++ [cache] })

/-- Records that a fill has ended. -/
def finished (t : FillTracker) (cache : Nat) : FillTracker :=
  { t with live := t.live.filter (· ≠ cache) }

/-- The first half of `stop_and_wait`: no more fills. -/
def stop (t : FillTracker) : FillTracker := { t with stopping := true }

end FillTracker

/-- Why a reader starts no download once teardown has begun. -/
def GOING_AWAY : FillFailure :=
  ⟨.text "the mount is going away, so no new whole-object download was started", false⟩

/-! ## The filler task -/

/-- Where a filler task is. -/
inductive FillerPhase where
  /-- About to look at the stop request. -/
  | checkStop
  /-- Telling the device to stop the transfer. -/
  | cancel
  /-- Waiting for the next chunk. -/
  | nextChunk
  /-- The stream is over; about to finish or fail the cache. -/
  | ended
  /-- The cache has its outcome; about to tell the tracker. -/
  | deregister
  /-- About to take the lock and clean up. -/
  | cleanUp
  deriving DecidableEq, Repr

/-- A filler task: the inode and cache it fills, what its stream still has to
give, and its locals. -/
structure Filler where
  inode : Nat
  cache : Nat
  stream : List StreamItem
  offset : Nat
  writeFailure : Option FillFailure
  phase : FillerPhase
  deriving DecidableEq

namespace Filler

def start (inode cache : Nat) (stream : List StreamItem) : Filler :=
  { inode, cache, stream, offset := 0, writeFailure := none, phase := .checkStop }

def STOPPED : FillFailure :=
  ⟨.text "the whole-object download was stopped because the mount is going away", false⟩

/-- The transfer is not over yet. -/
def downloading (f : Filler) : Bool :=
  match f.phase with
  | .checkStop | .cancel | .nextChunk | .ended => true
  | .deregister | .cleanUp => false

/-- Publishes one chunk, unless an earlier one could not be written. -/
def writeChunk (f : Filler) (bytes : Bytes) (c : SharedSparseCache) (fault : Option WriteFault) :
    Option FillFailure × SharedSparseCache :=
  if f.writeFailure.isSome then (f.writeFailure, c)
  else
    let writable := min bytes.length (c.cache.totalSize - f.offset)
    match c.writeSequential f.offset (bytes.take writable) fault with
    | (.error e, c) => (some ⟨.text e.message, false⟩, c)
    | (.ok (), c) =>
      if writable ≠ bytes.length then
        (some ⟨.text s!"full-object stream exceeded the advertised size of {c.cache.totalSize} bytes",
          false⟩, c)
      else (none, c)

def OVERFLOWED : FillFailure := ⟨.text "full-object stream byte count overflowed u64", false⟩

/-- Counts the chunk: the new offset, and the failure when that overflows. -/
def countChunk (f : Filler) (bytes : Bytes) (failure : Option FillFailure) : Filler :=
  if f.offset + bytes.length > U64_MAX then
    { f with offset := U64_MAX, writeFailure := failure.or (some OVERFLOWED) }
  else { f with offset := f.offset + bytes.length, writeFailure := failure }

/-- One step of `fill_from_stream` on the filler's cache. -/
def streamStep (f : Filler) (c : SharedSparseCache) (fault : Option WriteFault) :
    Filler × SharedSparseCache :=
  match f.phase with
  | .checkStop => ({ f with phase := if c.stopRequested then .cancel else .nextChunk }, c)
  | .cancel => ({ f with phase := .deregister }, c.fail STOPPED)
  | .nextChunk =>
    match f.stream with
    | [] => ({ f with phase := .ended }, c)
    | .error e :: rest =>
      ({ f with stream := rest, phase := .deregister }, c.fail ⟨.device e, isLinkLost e⟩)
    | .ok bytes :: rest =>
      let (failure, c) := f.writeChunk bytes c fault
      ({ f.countChunk bytes failure with stream := rest, phase := .checkStop }, c)
  | .ended =>
    match f.writeFailure with
    | some failure => ({ f with phase := .deregister }, c.fail failure)
    | none => ({ f with phase := .deregister }, c.finish f.offset)
  | .deregister | .cleanUp => (f, c)

theorem fill_writeChunk (f : Filler) (bytes : Bytes) (c : SharedSparseCache)
    (fault : Option WriteFault) : (f.writeChunk bytes c fault).2.fill = c.fill := by
  unfold writeChunk
  split
  · rfl
  · dsimp only
    have h := c.fill_writeSequential f.offset
      (bytes.take (min bytes.length (c.cache.totalSize - f.offset))) fault
    split
    · rename_i heq
      rw [heq] at h
      exact h
    · rename_i heq
      rw [heq] at h
      split
      · exact h
      · exact h

/-- No step of a filler changes the size of its cache. -/
theorem totalSize_writeChunk (f : Filler) (bytes : Bytes) (c : SharedSparseCache)
    (fault : Option WriteFault) :
    (f.writeChunk bytes c fault).2.cache.totalSize = c.cache.totalSize := by
  unfold writeChunk
  split
  · rfl
  · dsimp only
    have h := c.totalSize_writeSequential f.offset
      (bytes.take (min bytes.length (c.cache.totalSize - f.offset))) fault
    split
    · rename_i heq
      rw [heq] at h
      exact h
    · rename_i heq
      rw [heq] at h
      split <;> exact h

theorem waitsForFill_writeChunk {c : SharedSparseCache} (h : c.WaitsForFill) (f : Filler)
    (bytes : Bytes) (fault : Option WriteFault) :
    (f.writeChunk bytes c fault).2.WaitsForFill := by
  unfold writeChunk
  split
  · exact h
  · dsimp only
    have h' := h.writeSequential f.offset
      (bytes.take (min bytes.length (c.cache.totalSize - f.offset))) fault
    split
    · rename_i heq
      rw [heq] at h'
      exact h'
    · rename_i heq
      rw [heq] at h'
      split <;> exact h'

theorem totalSize_streamStep (f : Filler) (c : SharedSparseCache) (fault : Option WriteFault) :
    (f.streamStep c fault).2.cache.totalSize = c.cache.totalSize := by
  unfold streamStep
  split
  · rfl
  · rfl
  · split
    · rfl
    · rfl
    · exact totalSize_writeChunk f _ c fault
  · split <;> rfl
  · rfl
  · rfl

theorem countChunk_party (f : Filler) (bytes : Bytes) (failure : Option FillFailure) :
    (f.countChunk bytes failure).inode = f.inode ∧ (f.countChunk bytes failure).cache = f.cache := by
  unfold countChunk
  split <;> exact ⟨rfl, rfl⟩

/-- A step of the stream keeps the fill state, or ends the download. -/
theorem streamStep_cases (f : Filler) (c : SharedSparseCache) (fault : Option WriteFault) :
    (f.streamStep c fault).1.inode = f.inode ∧ (f.streamStep c fault).1.cache = f.cache ∧
      (((f.streamStep c fault).1.downloading = f.downloading ∧
          (f.streamStep c fault).2.fill = c.fill) ∨
        (f.downloading = true ∧ (f.streamStep c fault).1.downloading = false)) := by
  unfold streamStep
  split
  · rename_i hp
    refine ⟨rfl, rfl, .inl ⟨?_, rfl⟩⟩
    rw [downloading, downloading, hp]
    cases c.stopRequested <;> rfl
  · rename_i hp
    exact ⟨rfl, rfl, .inr ⟨by rw [downloading, hp], rfl⟩⟩
  · rename_i hp
    have hd : f.downloading = true := by rw [downloading, hp]
    split
    · exact ⟨rfl, rfl, .inl ⟨hd.symm, rfl⟩⟩
    · exact ⟨rfl, rfl, .inr ⟨hd, rfl⟩⟩
    · rename_i bytes rest _
      obtain ⟨hi, hc⟩ := countChunk_party f bytes (f.writeChunk bytes c fault).1
      exact ⟨hi, hc, .inl ⟨hd.symm, fill_writeChunk f bytes c fault⟩⟩
  · rename_i hp
    have hd : f.downloading = true := by rw [downloading, hp]
    split
    · exact ⟨rfl, rfl, .inr ⟨hd, rfl⟩⟩
    · exact ⟨rfl, rfl, .inr ⟨hd, rfl⟩⟩
  · exact ⟨rfl, rfl, .inl ⟨rfl, rfl⟩⟩
  · exact ⟨rfl, rfl, .inl ⟨rfl, rfl⟩⟩

/-- A download that ends leaves its cache failed or complete. -/
theorem fill_of_ended {f : Filler} {c : SharedSparseCache} {fault : Option WriteFault}
    (hd : f.downloading = true) (he : (f.streamStep c fault).1.downloading = false) :
    (f.streamStep c fault).2.fill ≠ .running := by
  unfold streamStep at he ⊢
  split at he <;> rename_i hp
  · cases hs : c.stopRequested <;> simp [hs, downloading] at he
  · exact nofun
  · split at he
    · cases he
    · exact nofun
    · cases he
  · split at he
    · exact nofun
    · unfold SharedSparseCache.finish
      dsimp only
      split <;> exact nofun
  · rw [downloading, hp] at hd
    cases hd
  · rw [downloading, hp] at hd
    cases hd

/-- No step of a filler leaves a thread parked once the fill is over. -/
theorem waitsForFill_streamStep {c : SharedSparseCache} (h : c.WaitsForFill) (f : Filler)
    (fault : Option WriteFault) : (f.streamStep c fault).2.WaitsForFill := by
  unfold streamStep
  split
  · exact h
  · exact SharedSparseCache.waitsForFill_of_notified fun _ => rfl
  · split
    · exact h
    · exact SharedSparseCache.waitsForFill_of_notified fun _ => rfl
    · exact waitsForFill_writeChunk h f _ fault
  · split
    · exact SharedSparseCache.waitsForFill_of_notified fun _ => rfl
    · exact SharedSparseCache.waitsForFill_of_notified fun _ => rfl
  · exact h
  · exact h

end Filler

/-! ## Open files -/

/-- What the mount knows of open files. -/
structure Files where
  /-- Inode to the cache that its handles share. -/
  readCache : HashMap Nat Nat
  /-- Open file handle to its inode. -/
  fhToInode : HashMap Nat Nat
  nextFh : Nat
  caches : HashMap Nat SharedSparseCache
  nextCache : Nat
  fills : FillTracker
  fillers : HashMap Nat Filler
  nextFiller : Nat

namespace Files

def new : Files where
  readCache := ∅
  fhToInode := ∅
  nextFh := 1
  caches := ∅
  nextCache := 0
  fills := .new
  fillers := ∅
  nextFiller := 0

/-- Some handle is open on the inode. -/
def isOpen (f : Files) (inode : Nat) : Bool := f.fhToInode.values.any (· == inode)

def cacheAt (f : Files) (c : Nat) : SharedSparseCache := (f.caches.lookup c).getD (.new 0)

/-- Changes a cache in place. -/
def setCache (f : Files) (c : Nat) (v : SharedSparseCache) : Files :=
  { f with caches := f.caches.insert c v }

def allocFh (f : Files) : Nat × Files := (f.nextFh, { f with nextFh := f.nextFh + 1 })

def openHandle (f : Files) (fh inode : Nat) : Files :=
  { f with fhToInode := f.fhToInode.insert fh inode }

/-- Drops the cache of an inode once nothing holds the file open; one that is
still being filled stays. -/
def dropReadCacheIfUnused (f : Files) (inode : Nat) : Files :=
  if f.isOpen inode then f
  else if (f.readCache.lookup inode).any fun c => (f.cacheAt c).isFilling then f
  else { f with readCache := f.readCache.erase inode }

/-- Forgets a handle, and the cache of its inode with the last one. -/
def closeHandle (f : Files) (fh : Nat) : Files :=
  match f.fhToInode.lookup fh with
  | none => f
  | some inode => { f with fhToInode := f.fhToInode.erase fh }.dropReadCacheIfUnused inode

/-- A new cache for the inode. -/
def addCache (f : Files) (inode totalSize : Nat) : Nat × Files :=
  (f.nextCache,
    { f with
      caches := f.caches.insert f.nextCache (.new totalSize)
      readCache := f.readCache.insert inode f.nextCache
      nextCache := f.nextCache + 1 })

/-- Spawns the task that fills the cache. -/
def spawnFiller (f : Files) (inode cache : Nat) (stream : List StreamItem) : Files :=
  { f with
    fillers := f.fillers.insert f.nextFiller (.start inode cache stream)
    nextFiller := f.nextFiller + 1 }

/-- The clean-up at the end of a fill, under the lock. -/
def fillerCleanUp (f : Files) (inode : Nat) : Files :=
  if f.isOpen inode then f else { f with readCache := f.readCache.erase inode }

/-- The next step of one filler task. -/
def fillerStep (f : Files) (id : Nat) (fault : Option WriteFault) : Files :=
  match f.fillers.lookup id with
  | none => f
  | some filler =>
    match filler.phase with
    | .deregister =>
      { f with
        fills := f.fills.finished filler.cache
        fillers := f.fillers.insert id { filler with phase := .cleanUp } }
    | .cleanUp => { f.fillerCleanUp filler.inode with fillers := f.fillers.erase id }
    | _ =>
      let (filler', cache) := filler.streamStep (f.cacheAt filler.cache) fault
      { f.setCache filler.cache cache with fillers := f.fillers.insert id filler' }

/-- `stop_and_wait` up to its wait: no more fills, and every live one is asked to stop. -/
def stopFills (f : Files) : Files :=
  { f.fills.live.foldl (fun f c => f.setCache c (f.cacheAt c).requestStop) f with
    fills := f.fills.stop }

/-! ### What each operation leaves as it was -/

@[simp] theorem cacheAt_setCache (f : Files) (c : Nat) (v : SharedSparseCache) (c' : Nat) :
    (f.setCache c v).cacheAt c' = if c' = c then v else f.cacheAt c' := by
  unfold cacheAt setCache
  rw [HashMap.lookup_insert]
  split <;> rfl

/-- The two tables of files have the same handles, caches and fillers. -/
structure Same (f f' : Files) : Prop where
  readCache : f'.readCache = f.readCache
  fhToInode : f'.fhToInode = f.fhToInode
  nextCache : f'.nextCache = f.nextCache

theorem Same.refl (f : Files) : Same f f := ⟨rfl, rfl, rfl⟩

theorem Same.trans {f g k : Files} (h : Same f g) (h' : Same g k) : Same f k :=
  ⟨h'.readCache.trans h.readCache, h'.fhToInode.trans h.fhToInode,
    h'.nextCache.trans h.nextCache⟩

theorem same_setCache (f : Files) (c : Nat) (v : SharedSparseCache) : Same f (f.setCache c v) :=
  ⟨rfl, rfl, rfl⟩

/-- Asking fills to stop changes no fill state. -/
theorem stopFills_frame (f : Files) : Same f f.stopFills ∧ f.stopFills.fillers = f.fillers ∧
    ∀ c, (f.stopFills.cacheAt c).fill = (f.cacheAt c).fill := by
  have hfold : ∀ (live : List Nat) (g : Files),
      let g' := live.foldl (fun f c => f.setCache c (f.cacheAt c).requestStop) g
      Same g g' ∧ g'.fillers = g.fillers ∧ ∀ c, (g'.cacheAt c).fill = (g.cacheAt c).fill := by
    intro live
    induction live with
    | nil => exact fun g => ⟨.refl g, rfl, fun _ => rfl⟩
    | cons c live ih =>
      intro g
      obtain ⟨hs, hf, hc⟩ := ih (g.setCache c (g.cacheAt c).requestStop)
      refine ⟨(same_setCache g c _).trans hs, hf, fun c' => (hc c').trans ?_⟩
      rw [cacheAt_setCache]
      split
      · rename_i hcc
        rw [hcc]
        rfl
      · rfl
  obtain ⟨hs, hf, hc⟩ := hfold f.fills.live f
  exact ⟨⟨hs.readCache, hs.fhToInode, hs.nextCache⟩, hf, hc⟩

theorem nextFh_stopFills (f : Files) : f.stopFills.nextFh = f.nextFh := by
  have hfold : ∀ (live : List Nat) (g : Files),
      (live.foldl (fun f c => f.setCache c (f.cacheAt c).requestStop) g).nextFh = g.nextFh := by
    intro live
    induction live with
    | nil => exact fun _ => rfl
    | cons c live ih => exact fun g => ih _
  exact hfold f.fills.live f

theorem isOpen_iff (f : Files) (inode : Nat) :
    f.isOpen inode = true ↔ ∃ fh, f.fhToInode.lookup fh = some inode := by
  simp only [isOpen, List.any_eq_true, beq_iff_eq, HashMap.mem_values]
  constructor
  · rintro ⟨i, ⟨fh, hfh⟩, rfl⟩
    exact ⟨fh, hfh⟩
  · rintro ⟨fh, hfh⟩
    exact ⟨inode, ⟨fh, hfh⟩, rfl⟩

/-- Everything but the open handles and the shared caches is the same. -/
structure SameFills (f f' : Files) : Prop where
  caches : f'.caches = f.caches
  fillers : f'.fillers = f.fillers
  fills : f'.fills = f.fills
  nextFh : f'.nextFh = f.nextFh
  nextCache : f'.nextCache = f.nextCache
  nextFiller : f'.nextFiller = f.nextFiller

theorem SameFills.cacheAt {f f' : Files} (h : SameFills f f') (c : Nat) :
    f'.cacheAt c = f.cacheAt c := by
  unfold Files.cacheAt
  rw [h.caches]

theorem dropReadCacheIfUnused_frame (f : Files) (i : Nat) :
    SameFills f (f.dropReadCacheIfUnused i) ∧ (f.dropReadCacheIfUnused i).fhToInode = f.fhToInode := by
  unfold dropReadCacheIfUnused
  split
  · exact ⟨⟨rfl, rfl, rfl, rfl, rfl, rfl⟩, rfl⟩
  · split
    · exact ⟨⟨rfl, rfl, rfl, rfl, rfl, rfl⟩, rfl⟩
    · exact ⟨⟨rfl, rfl, rfl, rfl, rfl, rfl⟩, rfl⟩

/-! ### Closing a handle -/

theorem closeHandle_frame (f : Files) (fh : Nat) : SameFills f (f.closeHandle fh) := by
  unfold closeHandle
  split
  · exact ⟨rfl, rfl, rfl, rfl, rfl, rfl⟩
  · rename_i inode _
    have h := (dropReadCacheIfUnused_frame { f with fhToInode := f.fhToInode.erase fh } inode).1
    exact ⟨h.caches, h.fillers, h.fills, h.nextFh, h.nextCache, h.nextFiller⟩

theorem lookup_closeHandle (f : Files) (fh fh' : Nat) :
    (f.closeHandle fh).fhToInode.lookup fh' = if fh' = fh then none else f.fhToInode.lookup fh' := by
  unfold closeHandle
  split
  · rename_i hnone
    split
    · rename_i hfh
      rw [hfh, hnone]
    · rfl
  · rename_i inode _
    have h := dropReadCacheIfUnused_frame { f with fhToInode := f.fhToInode.erase fh } inode
    rw [h.2, HashMap.lookup_erase]

theorem readCache_closeHandle {f : Files} {fh i c : Nat}
    (h : (f.closeHandle fh).readCache.lookup i = some c) : f.readCache.lookup i = some c := by
  unfold closeHandle at h
  split at h
  · exact h
  · unfold dropReadCacheIfUnused at h
    split at h
    · exact h
    · split at h
      · exact h
      · dsimp only at h
        rw [HashMap.lookup_erase] at h
        split at h
        · cases h
        · exact h

/-- What one step of a filler task does. -/
inductive FillerDoes (f : Files) (id : Nat) : Files → Prop
  | gone : f.fillers.lookup id = none → FillerDoes f id f
  | stream {filler filler' : Filler} {v : SharedSparseCache} :
      f.fillers.lookup id = some filler → filler.downloading = true →
      filler'.inode = filler.inode → filler'.cache = filler.cache →
      (filler'.downloading = true ∧ v.fill = (f.cacheAt filler.cache).fill ∨
        filler'.downloading = false) →
      FillerDoes f id { f.setCache filler.cache v with fillers := f.fillers.insert id filler' }
  | deregister {filler : Filler} :
      f.fillers.lookup id = some filler → filler.phase = .deregister →
      FillerDoes f id { f with
        fills := f.fills.finished filler.cache
        fillers := f.fillers.insert id { filler with phase := .cleanUp } }
  | cleanUp {filler : Filler} :
      f.fillers.lookup id = some filler → filler.phase = .cleanUp →
      FillerDoes f id { f.fillerCleanUp filler.inode with fillers := f.fillers.erase id }

theorem fillerStep_does (f : Files) (id : Nat) (fault : Option WriteFault) :
    FillerDoes f id (f.fillerStep id fault) := by
  unfold fillerStep
  split
  · exact .gone ‹_›
  · rename_i filler hf
    split
    · exact .deregister hf ‹_›
    · exact .cleanUp hf ‹_›
    · rename_i hnd hnc
      have hd : filler.downloading = true := by
        unfold Filler.downloading
        split <;> first | rfl | contradiction
      obtain ⟨hi, hc, h⟩ := filler.streamStep_cases (f.cacheAt filler.cache) fault
      refine .stream hf hd hi hc ?_
      rcases h with ⟨hd', hfill⟩ | ⟨-, hd'⟩
      · exact .inl ⟨hd'.trans hd, hfill⟩
      · exact .inr hd'

theorem totalSize_fillerStep (f : Files) (id : Nat) (fault : Option WriteFault) (c : Nat) :
    ((f.fillerStep id fault).cacheAt c).cache.totalSize = (f.cacheAt c).cache.totalSize := by
  unfold fillerStep
  split
  · rfl
  · rename_i filler _
    split
    · rfl
    · show ((f.fillerCleanUp filler.inode).cacheAt c).cache.totalSize = _
      unfold fillerCleanUp
      split <;> rfl
    · show ((f.setCache filler.cache _).cacheAt c).cache.totalSize = _
      rw [cacheAt_setCache]
      split
      · rename_i hc
        rw [hc]
        exact filler.totalSize_streamStep _ fault
      · rfl

end Files

end MtpMount
