import MtpMount.Downloads

/-!
# One download for each file

The handles of a file share one cache through `read_cache`, and with it the one
download. The clean-up at the end of a fill removes the entry by inode, whatever
cache is in it by then: when the file was closed, opened and read again in the
meantime, it is the cache of a running download.

* `download_shared`: in every schedule in which no clean-up meets a running fill
  of a closed file, a running download is the one of the shared cache of its
  inode, and the only one of the inode;
* `download_twice`: a schedule with two downloads of one inode at once.
-/

namespace MtpMount

namespace Downloads

/-- The clean-up of a closed file does not remove a cache that is being filled. -/
def CleansUpIdle (s : Downloads) : Action → Prop
  | .filler id _ => ∀ f c, s.files.fillers.lookup id = some f → f.phase = .cleanUp →
      s.files.isOpen f.inode = false → s.files.readCache.lookup f.inode = some c →
      (s.files.cacheAt c).fill ≠ .running
  | _ => True

/-- Readers and running downloads use the shared cache of their inode. -/
structure Joined (s : Downloads) : Prop where
  handles : ∀ fh i, s.files.fhToInode.lookup fh = some i → fh < s.files.nextFh
  reading : ∀ id r, s.readers.lookup id = some r →
    s.files.fhToInode.lookup r.fh = some r.inode ∧
      s.files.readCache.lookup r.inode = some r.cache
  filling : ∀ id f, s.files.fillers.lookup id = some f → f.downloading = true →
    s.files.readCache.lookup f.inode = some f.cache

variable {s s' : Downloads}

theorem joined_new : Joined .new where
  handles := fun fh _ h => nomatch (HashMap.lookup_empty fh).symm.trans h
  reading := fun id _ h => nomatch (HashMap.lookup_empty id).symm.trans h
  filling := fun id _ h => nomatch (HashMap.lookup_empty id).symm.trans h

/-- The maps of open files and the parties are the same. -/
theorem Joined.frame (h : s.Joined) (hr : s'.readers = s.readers)
    (hs : Files.Same s.files s'.files) (hn : s'.files.nextFh = s.files.nextFh)
    (hf : ∀ id f, s'.files.fillers.lookup id = some f → f.downloading = true →
      s.files.readCache.lookup f.inode = some f.cache) : s'.Joined where
  handles := fun fh i hl => hn ▸ h.handles fh i (hs.fhToInode ▸ hl)
  reading := fun id r hl => by
    rw [hs.fhToInode, hs.readCache]
    exact h.reading id r (hr ▸ hl)
  filling := fun id f hl hd => hs.readCache ▸ hf id f hl hd

theorem Joined.openFile (h : s.Joined) (inode : Nat) :
    Joined { s with files := s.files.allocFh.2.openHandle s.files.allocFh.1 inode } where
  handles := fun fh i hl => by
    simp only [Files.openHandle, Files.allocFh, HashMap.lookup_insert] at hl ⊢
    split at hl
    · omega
    · exact Nat.lt_succ_of_lt (h.handles fh i hl)
  reading := fun id r hl => by
    have hr := h.reading id r hl
    refine ⟨?_, hr.2⟩
    show (s.files.fhToInode.insert s.files.nextFh inode).lookup r.fh = _
    rw [HashMap.lookup_insert, if_neg (Nat.ne_of_lt (h.handles r.fh r.inode hr.1))]
    exact hr.1
  filling := h.filling

theorem Joined.read (h : s.Joined) {inode fh : Nat} (hfh : s.files.fhToInode.lookup fh = some inode)
    (offset size totalSize id next : Nat) :
    Joined { s with
      files := (cacheFor s.files inode totalSize).2
      readers := s.readers.insert id
        { inode, fh, cache := (cacheFor s.files inode totalSize).1, thread := id, offset, size,
          retries := 1, phase := .startFill }
      nextReader := next } := by
  -- the inode has the new reader's cache, the others keep theirs
  have hcache : (cacheFor s.files inode totalSize).2.fhToInode = s.files.fhToInode ∧
      (cacheFor s.files inode totalSize).2.nextFh = s.files.nextFh ∧
      (cacheFor s.files inode totalSize).2.fillers = s.files.fillers ∧
      (cacheFor s.files inode totalSize).2.readCache.lookup inode =
        some (cacheFor s.files inode totalSize).1 ∧
      ∀ i c, s.files.readCache.lookup i = some c →
        (cacheFor s.files inode totalSize).2.readCache.lookup i = some c := by
    rcases cacheFor_cases s.files inode totalSize with ⟨c, hl, hc⟩ | ⟨hl, hc⟩
    · rw [hc]
      exact ⟨rfl, rfl, rfl, hl, fun _ _ h => h⟩
    · rw [hc]
      refine ⟨rfl, rfl, rfl, ?_, fun i c hi => ?_⟩
      · show (s.files.readCache.insert inode _).lookup inode = _
        rw [HashMap.lookup_insert, if_pos rfl]
        rfl
      · show (s.files.readCache.insert inode _).lookup i = _
        rw [HashMap.lookup_insert, if_neg, hi]
        rintro rfl
        rw [hl] at hi
        cases hi
  obtain ⟨hopen, hnext, hfillers, hnew, hkeep⟩ := hcache
  refine ⟨fun fh' i hl => ?_, fun id' r hl => ?_, fun id' f hl hd => ?_⟩
  · exact hnext ▸ h.handles fh' i (hopen ▸ hl)
  · dsimp only at hl ⊢
    rw [HashMap.lookup_insert] at hl
    rw [hopen]
    split at hl
    · cases hl
      exact ⟨hfh, hnew⟩
    · exact ⟨(h.reading id' r hl).1, hkeep _ _ (h.reading id' r hl).2⟩
  · exact hkeep _ _ (h.filling id' f (hfillers ▸ hl) hd)

theorem Joined.reader (h : s.Joined) {id : Nat} {r : Reader} (hr : s.readers.lookup id = some r)
    (answer : Except Error (List StreamItem)) (fault : Option IoError) :
    Joined { s with
      files := (r.step answer fault s.files).2
      readers := putReader s.readers id (r.step answer fault s.files).1 } := by
  have hdoes := r.step_does answer fault s.files
  have hsame := hdoes.same
  refine ⟨fun fh i hl => ?_, fun id' r' hl => ?_, fun id' f hl hd => ?_⟩
  · rw [hdoes.nextFh]
    exact h.handles fh i (hsame.fhToInode ▸ hl)
  · dsimp only
    rw [hsame.fhToInode, hsame.readCache]
    rw [lookup_putReader] at hl
    split at hl
    · obtain ⟨hi, hfh, hc⟩ := Reader.step_party hl
      rw [hi, hfh, hc]
      exact h.reading id r hr
    · exact h.reading id' r' hl
  · dsimp only
    rw [hsame.readCache]
    rcases hdoes.fillers hl with hl | ⟨-, hi, hc⟩
    · exact h.filling id' f hl hd
    · rw [hi, hc]
      exact (h.reading id r hr).2

theorem Joined.filler (h : s.Joined) (hs : s.Slots) {id : Nat} {fault : Option WriteFault}
    (hok : s.CleansUpIdle (.filler id fault)) :
    Joined { s with files := s.files.fillerStep id fault } := by
  have hdoes := s.files.fillerStep_does id fault
  generalize s.files.fillerStep id fault = files at hdoes ⊢
  cases hdoes with
  | gone => exact h
  | @stream filler filler' v hf hd hi hc hends =>
    refine h.frame rfl ⟨rfl, rfl, rfl⟩ rfl fun id' f hl hd' => ?_
    dsimp only at hl
    rw [HashMap.lookup_insert] at hl
    split at hl
    · cases hl
      rw [hi, hc]
      exact h.filling id filler hf hd
    · exact h.filling id' f hl hd'
  | @deregister filler hf hp =>
    refine h.frame rfl ⟨rfl, rfl, rfl⟩ rfl fun id' f hl hd' => ?_
    dsimp only at hl
    rw [HashMap.lookup_insert] at hl
    split at hl
    · cases hl
      cases hd'
    · exact h.filling id' f hl hd'
  | @cleanUp filler hf hp =>
    have hfillers : ∀ {id' f}, (s.files.fillers.erase id).lookup id' = some f →
        s.files.fillers.lookup id' = some f := by
      intro id' f hl
      rw [HashMap.lookup_erase] at hl
      split at hl
      · cases hl
      · exact hl
    cases hopen : s.files.isOpen filler.inode with
    | true =>
      rw [Files.fillerCleanUp, if_pos hopen]
      exact h.frame rfl ⟨rfl, rfl, rfl⟩ rfl fun id' f hl hd' => h.filling id' f (hfillers hl) hd'
    | false =>
      rw [Files.fillerCleanUp, if_neg (by rw [hopen]; decide)]
      -- an entry in use is the entry of another inode
      have hkeep : ∀ i c, s.files.readCache.lookup i = some c → i ≠ filler.inode →
          (s.files.readCache.erase filler.inode).lookup i = some c := by
        intro i c hl hne
        rw [HashMap.lookup_erase, if_neg hne, hl]
      refine ⟨h.handles, fun id' r hl => ?_, fun id' f hl hd' => ?_⟩
      · have hr := h.reading id' r hl
        refine ⟨hr.1, hkeep _ _ hr.2 fun hi => ?_⟩
        rw [← hi, (Files.isOpen_iff ..).mpr ⟨_, hr.1⟩] at hopen
        cases hopen
      · have hl := hfillers hl
        have hshared := h.filling id' f hl hd'
        refine hkeep _ _ hshared fun hi => ?_
        rw [hi] at hshared
        have hholds : s.Holds (.inr id') f.cache := ⟨f, hl, hd', rfl⟩
        exact hok filler f.cache hf hp hopen hshared (hs.slot _ _ _ hholds hholds).1

theorem Joined.release (h : s.Joined) (hs : s.Slots) {fh : Nat}
    (hidle : s.readers.values.any (fun r => r.fh == fh) = false) :
    Joined { s with files := s.files.closeHandle fh } := by
  have hother : ∀ {id r}, s.readers.lookup id = some r → r.fh ≠ fh := by
    rintro id r hl rfl
    have hmem : s.readers.values.any (fun r' => r'.fh == r.fh) = true :=
      List.any_eq_true.mpr ⟨r, HashMap.mem_values.mpr ⟨id, hl⟩, beq_self_eq_true r.fh⟩
    rw [hmem] at hidle
    cases hidle
  unfold Files.closeHandle
  split
  · exact h
  · rename_i inode hfh
    have hopened : ∀ {id r}, s.readers.lookup id = some r →
        (s.files.fhToInode.erase fh).lookup r.fh = some r.inode := by
      intro id r hl
      rw [HashMap.lookup_erase, if_neg (hother hl)]
      exact (h.reading id r hl).1
    have hhandles : ∀ fh' i, (s.files.fhToInode.erase fh).lookup fh' = some i →
        fh' < s.files.nextFh := by
      intro fh' i hl
      rw [HashMap.lookup_erase] at hl
      split at hl
      · cases hl
      · exact h.handles fh' i hl
    have hkept : Joined { s with files := { s.files with fhToInode := s.files.fhToInode.erase fh } } :=
      ⟨hhandles, fun id r hl => ⟨hopened hl, (h.reading id r hl).2⟩, h.filling⟩
    unfold Files.dropReadCacheIfUnused
    split
    · exact hkept
    · rename_i hclosed
      split
      · exact hkept
      · rename_i hidle'
        have hkeep : ∀ i c, s.files.readCache.lookup i = some c → i ≠ inode →
            (s.files.readCache.erase inode).lookup i = some c := by
          intro i c hl hne
          rw [HashMap.lookup_erase, if_neg hne, hl]
        refine ⟨hhandles, fun id r hl => ⟨hopened hl, hkeep _ _ (h.reading id r hl).2 ?_⟩,
          fun id f hl hd => hkeep _ _ (h.filling id f hl hd) ?_⟩
        · rintro rfl
          exact hclosed ((Files.isOpen_iff ..).mpr ⟨_, hopened hl⟩)
        · rintro rfl
          have hholds : s.Holds (.inr id) f.cache := ⟨f, hl, hd, rfl⟩
          refine hidle' ?_
          show (s.files.readCache.lookup f.inode).any (fun c => (s.files.cacheAt c).isFilling) = true
          rw [h.filling id f hl hd, Option.any_some, SharedSparseCache.isFilling,
            (hs.slot _ _ _ hholds hholds).1]
          rfl

theorem Joined.step (h : s.Joined) (hs : s.Slots) {a : Action} (hok : s.CleansUpIdle a)
    (ha : s.step a = some s') : s'.Joined := by
  cases a with
  | openFile inode =>
    cases ha
    exact h.openFile inode
  | read inode fh offset size totalSize =>
    simp only [Downloads.step] at ha
    split at ha
    · cases ha
      exact h.read ‹_› offset size totalSize s.nextReader (s.nextReader + 1)
    · cases ha
  | reader id answer fault =>
    obtain ⟨r, hr, -, rfl⟩ := step_reader ha
    exact h.reader hr answer fault
  | wakeUp id =>
    obtain ⟨r, rfl⟩ := step_wakeUp ha
    exact h.frame rfl ⟨rfl, rfl, rfl⟩ rfl fun _ _ hl hd => h.filling _ _ hl hd
  | filler id fault =>
    cases ha
    exact h.filler hs hok
  | release fh =>
    simp only [Downloads.step] at ha
    split at ha
    · cases ha
    · rename_i hidle
      cases ha
      exact h.release hs (Bool.eq_false_iff.mpr hidle)
  | stop =>
    simp only [Downloads.step] at ha
    split at ha
    · cases ha
      obtain ⟨hsame, hf, -⟩ := Files.stopFills_frame s.files
      exact h.frame rfl hsame (Files.nextFh_stopFills s.files) fun id f hl hd =>
        h.filling id f (hf ▸ hl) hd
    · cases ha
  | wake timedOut =>
    simp only [Downloads.step] at ha
    split at ha
    · split at ha
      · cases ha
        exact ⟨h.handles, h.reading, h.filling⟩
      · split at ha
        · cases ha
          exact ⟨h.handles, h.reading, h.filling⟩
        · cases ha
          exact h
    · cases ha

end Downloads

open Downloads

theorem Schedule.joined {s : Downloads} (h : Schedule CleansUpIdle s) : s.Joined :=
  h.invariant joined_new fun _ _ _ hs ih hok ha => ih.step (Schedule.slots hs) hok ha

/-- In every state of a schedule in which no clean-up meets a running fill of a
closed file, a running download fills the shared cache of its inode, which is
`Running`, and no other download of the inode runs or is about to be opened. -/
theorem download_shared {s : Downloads} (h : Schedule CleansUpIdle s) {id : Nat} {f : Filler}
    (hf : s.files.fillers.lookup id = some f) (hd : f.downloading = true) :
    s.files.readCache.lookup f.inode = some f.cache ∧
    (s.files.cacheAt f.cache).fill = .running ∧
    (∀ id' f', s.files.fillers.lookup id' = some f' → f'.downloading = true →
      f'.inode = f.inode → id' = id) ∧
    ∀ id' r, s.readers.lookup id' = some r → r.phase = .openDownload → r.inode ≠ f.inode := by
  have hshared := (Schedule.joined h).filling id f hf hd
  have hholds : s.Holds (.inr id) f.cache := ⟨f, hf, hd, rfl⟩
  refine ⟨hshared, ((Schedule.slots h).slot _ _ _ hholds hholds).1, fun id' f' hf' hd' hi => ?_,
    fun id' r hr hp hi => ?_⟩
  · have hshared' := (Schedule.joined h).filling id' f' hf' hd'
    rw [hi, hshared] at hshared'
    have hholds' : s.Holds (.inr id') f.cache := ⟨f', hf', hd', (Option.some.inj hshared').symm⟩
    exact Sum.inr.inj ((Schedule.slots h).slot _ _ _ hholds' hholds).2
  · have hshared' := ((Schedule.joined h).reading id' r hr).2
    rw [hi, hshared] at hshared'
    have hholds' : s.Holds (.inl id') f.cache :=
      ⟨r, hr, by rw [Reader.claims, hp], (Option.some.inj hshared').symm⟩
    cases ((Schedule.slots h).slot _ _ _ hholds' hholds).2

/-- A clean-up of a closed file finds no cache, or one that is not being filled. -/
def Downloads.cleansUpIdle (s : Downloads) : Action → Bool
  | .filler id _ => (s.files.fillers.lookup id).all fun f =>
    f.phase != .cleanUp || s.files.isOpen f.inode ||
      (s.files.readCache.lookup f.inode).all fun c => !(s.files.cacheAt c).isFilling
  | _ => true

theorem Downloads.cleansUpIdle_of_check {s : Downloads} {a : Action} (h : s.cleansUpIdle a = true) :
    s.CleansUpIdle a := by
  cases a with
  | filler id fault =>
    intro f c hf hp hopen hc hrun
    simp [cleansUpIdle, hf, hp, hopen, hc, SharedSparseCache.isFilling, hrun] at h
  | _ => trivial

/-- A reader opens a file, reads its first byte and starts its download. -/
def readByte (fh reader : Nat) (stream : List StreamItem) : List Action :=
  [.openFile 3, .read 3 fh 0 1 2, .reader reader (.ok []) none, .reader reader (.ok []) none,
    .reader reader (.ok stream) none]

/-- The file is closed while it is filled; the fill ends, and its filler removes the
cache before the file is opened and read again. -/
def cleanedUp : List Action :=
  readByte 1 0 [.ok [1], .ok [2]] ++ List.replicate 2 (.filler 0 none) ++
  [.reader 0 (.ok []) none, .release 1] ++ List.replicate 7 (.filler 0 none) ++
  readByte 2 1 [.ok [1], .ok [2]]

/-- The second download is the shared one, on a cache of its own. -/
theorem download_shared_second : ∃ (s : Downloads) (f : Filler),
    s.files.fillers.lookup 0 = none ∧ s.files.fillers.lookup 1 = some f ∧ f.cache = 1 ∧
    s.files.readCache.lookup f.inode = some f.cache := by
  obtain ⟨s, hs, ht⟩ := Transitions.Run.of_test Downloads.step .new cleansUpIdle
    (fun _ _ hc => cleansUpIdle_of_check hc) cleanedUp
    (fun s => (s.files.fillers.lookup 1).any fun (f : Filler) =>
      decide (s.files.fillers.lookup 0 = none ∧ f.cache = 1 ∧ f.downloading = true))
    (by decide +kernel)
  obtain ⟨f, hf, ht⟩ := (Option.any_eq_true _ _).mp ht
  obtain ⟨hgone, hc, hd⟩ := of_decide_eq_true ht
  exact ⟨s, f, hgone, hf, hc, (download_shared hs hf hd).1⟩

/-- The file is read to its end and closed before its filler cleans up; it is
opened, read and closed again, and the clean-up removes the cache of the second
download, so that a third reader starts another. -/
def lateCleanUp : List Action :=
  readByte 1 0 [.ok [1, 2]] ++ List.replicate 5 (.filler 0 none) ++
  [.reader 0 (.ok []) none, .filler 0 none, .release 1] ++
  readByte 2 1 [.ok [1], .ok [2]] ++ List.replicate 2 (.filler 1 none) ++
  [.reader 1 (.ok []) none, .release 2, .filler 0 none] ++
  readByte 3 2 [.ok [1], .ok [2]]

/-- Two downloads of one inode run, and only one of their caches is shared. -/
theorem download_twice : ∃ (s : Downloads) (f f' : Filler), Schedule (fun _ _ => True) s ∧
    s.files.fillers.lookup 1 = some f ∧ f.downloading = true ∧
    (s.files.cacheAt f.cache).fill = .running ∧ s.files.readCache.lookup f.inode ≠ some f.cache ∧
    s.files.fillers.lookup 2 = some f' ∧ f'.downloading = true ∧ f'.inode = f.inode := by
  obtain ⟨s, hs, ht⟩ := Transitions.Run.of_test Downloads.step .new
    (fun _ _ => true) (fun _ _ _ => trivial) lateCleanUp
    (fun s => (s.files.fillers.lookup 1).any fun (f : Filler) =>
      (s.files.fillers.lookup 2).any fun (f' : Filler) => decide (f.downloading = true ∧
        (s.files.cacheAt f.cache).fill = .running ∧
        s.files.readCache.lookup f.inode ≠ some f.cache ∧
        f'.downloading = true ∧ f'.inode = f.inode))
    (by decide +kernel)
  obtain ⟨f, hf, ht⟩ := (Option.any_eq_true _ _).mp ht
  obtain ⟨f', hf', ht⟩ := (Option.any_eq_true _ _).mp ht
  obtain ⟨hd, hrun, hne, hd', hi⟩ := of_decide_eq_true ht
  exact ⟨s, f, f', hs, hf, hd, hrun, hne, hf', hd', hi⟩

end MtpMount
