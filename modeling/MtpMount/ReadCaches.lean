import MtpMount.Handles

/-!
# Who drops a read cache

A read leaves a cache in `read_cache` for the handles of its inode. The last
release drops it, unless a download still fills it; then the filler drops it in
its final clean-up. In between a device event may drop it, and a read may put a
new one in its place while the old download runs on.

* `readCache_owned`: in every run every inode in `read_cache` has an open handle
  or a filler that has not cleaned up yet.
-/

namespace MtpMount

open Interaction

/-- A filler of the inode has not cleaned up yet. -/
def Files.HasFiller (f : Files) (ino : Nat) : Prop :=
  ∃ id filler, f.fillers.lookup id = some filler ∧ filler.inode = ino

/-- The inode's cache is being downloaded into. -/
def Files.Downloads (f : Files) (ino c : Nat) : Prop :=
  ∃ id filler, f.fillers.lookup id = some filler ∧ filler.downloading = true ∧
    filler.inode = ino ∧ filler.cache = c

/-- Every shared cache has someone to drop it. A running one has its filler; the
one whose fill slot is `claimed` has the running callback instead. -/
structure CachesKept (O : Nat → Option Nat) (claimed : Option Nat) (f : Files) : Prop where
  opened : ∀ fh ino, O fh = some ino → f.fhToInode.lookup fh = some ino
  handles : ∀ fh ino, f.fhToInode.lookup fh = some ino → fh < f.nextFh
  made : ∀ ino c, f.readCache.lookup ino = some c → c < f.nextCache
  apart : ∀ i j c, f.readCache.lookup i = some c → f.readCache.lookup j = some c → i = j
  spawned : ∀ id filler, f.fillers.lookup id = some filler → id < f.nextFiller
  filling : ∀ ino c, f.readCache.lookup ino = some c → (f.cacheAt c).fill = .running →
    claimed ≠ some c → f.Downloads ino c
  owned : ∀ ino c, f.readCache.lookup ino = some c → f.isOpen ino = true ∨ f.HasFiller ino

/-- The cache is shared under this inode, if under any. -/
def Files.Belongs (f : Files) (ino c : Nat) : Prop :=
  ∀ i, f.readCache.lookup i = some c → i = ino

namespace CachesKept

variable {O : Nat → Option Nat} {claimed : Option Nat} {f f' : Files} {ino c : Nat}

theorem new : CachesKept (fun _ => none) none .new where
  opened := fun _ _ h => nomatch h
  handles := fun fh _ h => nomatch (HashMap.lookup_empty fh).symm.trans h
  made := fun i _ h => nomatch (HashMap.lookup_empty i).symm.trans h
  apart := fun i _ _ h => nomatch (HashMap.lookup_empty i).symm.trans h
  spawned := fun id _ h => nomatch (HashMap.lookup_empty id).symm.trans h
  filling := fun i _ h => nomatch (HashMap.lookup_empty i).symm.trans h
  owned := fun i _ h => nomatch (HashMap.lookup_empty i).symm.trans h

/-- The handles and the fillers are the same, no cache is added and no fill is started. -/
theorem frame (h : CachesKept O claimed f) (hk : f'.fhToInode = f.fhToInode) (hn : f.nextFh ≤ f'.nextFh)
    (hf : f'.fillers = f.fillers) (hnf : f'.nextFiller = f.nextFiller)
    (hnc : f'.nextCache = f.nextCache)
    (hs : ∀ i c, f'.readCache.lookup i = some c → f.readCache.lookup i = some c)
    (hfill : ∀ c, (f'.cacheAt c).fill = .running → (f.cacheAt c).fill = .running) :
    CachesKept O claimed f' where
  opened := fun fh i ho => hk ▸ h.opened fh i ho
  handles := fun fh i hl => Nat.lt_of_lt_of_le (h.handles fh i (hk ▸ hl)) hn
  made := fun i c hl => hnc ▸ h.made i c (hs i c hl)
  apart := fun i j c hi hj => h.apart i j c (hs i c hi) (hs j c hj)
  spawned := fun id filler hl => hnf ▸ h.spawned id filler (hf ▸ hl)
  filling := fun i c hl hr hne => by
    unfold Files.Downloads
    rw [hf]
    exact h.filling i c (hs i c hl) (hfill c hr) hne
  owned := fun i c hl => by
    unfold Files.isOpen Files.HasFiller
    rw [hk, hf]
    exact h.owned i c (hs i c hl)

/-- A cache is changed in place, no fill is started. -/
theorem setCache (h : CachesKept O claimed f) {v : SharedSparseCache}
    (hv : v.fill = .running → (f.cacheAt c).fill = .running) : CachesKept O claimed (f.setCache c v) := by
  refine h.frame rfl le_rfl rfl rfl rfl (fun _ _ h => h) fun c' hr => ?_
  rw [Files.cacheAt_setCache] at hr
  split at hr
  · rename_i hc
    rw [hc]
    exact hv hr
  · exact hr

/-- The fill slot of a cache is claimed. -/
theorem claim (h : CachesKept O none f) (c : Nat) (v : SharedSparseCache) :
    CachesKept O (some c) (f.setCache c v) where
  opened := h.opened
  handles := h.handles
  made := h.made
  apart := h.apart
  spawned := h.spawned
  filling := fun i c' hl hr hne => by
    have hc : c' ≠ c := fun hc => hne (by rw [hc])
    rw [Files.cacheAt_setCache, if_neg hc] at hr
    exact h.filling i c' hl hr nofun
  owned := h.owned

/-- The claimed cache fails. -/
theorem giveUp (h : CachesKept O (some c) f) (failure : FillFailure) :
    CachesKept O none (f.setCache c ((f.cacheAt c).fail failure)) where
  opened := h.opened
  handles := h.handles
  made := h.made
  apart := h.apart
  spawned := h.spawned
  filling := fun i c' hl hr _ => by
    rw [Files.cacheAt_setCache] at hr
    split at hr
    · cases hr
    · rename_i hc
      refine h.filling i c' hl hr fun hcc => hc ?_
      exact (Option.some.inj hcc).symm
  owned := h.owned

/-- The claimed cache gets its filler. -/
theorem spawnFiller (h : CachesKept O (some c) f) (hb : f.Belongs ino c) (stream : List StreamItem) :
    CachesKept O none (f.spawnFiller ino c stream) := by
  -- the fillers from before are still there
  have hkeep : ∀ {id filler}, f.fillers.lookup id = some filler →
      (f.spawnFiller ino c stream).fillers.lookup id = some filler := by
    intro id filler hl
    have hlt := h.spawned id filler hl
    simp only [Files.spawnFiller, HashMap.lookup_insert]
    rw [if_neg (by omega), hl]
  refine ⟨h.opened, h.handles, h.made, h.apart, fun id filler hl => ?_, fun i c' hl hr _ => ?_,
    fun i c' hl => ?_⟩
  · simp only [Files.spawnFiller, HashMap.lookup_insert] at hl ⊢
    split at hl
    · omega
    · have hlt := h.spawned id filler hl
      omega
  · by_cases hc : c' = c
    · rw [hc] at hl ⊢
      refine ⟨f.nextFiller, .start ino c stream, ?_, rfl, (hb i hl).symm, rfl⟩
      simp only [Files.spawnFiller, HashMap.lookup_insert, if_true]
    · have hne : some c ≠ some c' := fun hcc => hc (Option.some.inj hcc).symm
      obtain ⟨id, filler, hl', hrest⟩ := h.filling i c' hl hr hne
      exact ⟨id, filler, hkeep hl', hrest⟩
  · rcases h.owned i c' hl with ho | ⟨id, filler, hl', hi⟩
    · exact .inl ho
    · exact .inr ⟨id, filler, hkeep hl', hi⟩

/-- A read of an open file makes its cache. -/
theorem addCache (h : CachesKept O claimed f) (hopen : f.isOpen ino = true) (size : Nat) :
    CachesKept O claimed (f.addCache ino size).2 := by
  have hcache : ∀ i c, (f.addCache ino size).2.readCache.lookup i = some c →
      (i = ino ∧ c = f.nextCache) ∨ (f.readCache.lookup i = some c ∧ c < f.nextCache) := by
    intro i c hl
    simp only [Files.addCache, HashMap.lookup_insert] at hl
    split at hl
    · cases hl
      exact .inl ⟨‹_›, rfl⟩
    · exact .inr ⟨hl, h.made i c hl⟩
  refine ⟨h.opened, h.handles, fun i c hl => ?_, fun i j c hi hj => ?_, h.spawned,
    fun i c hl hr hne => ?_, fun i c hl => ?_⟩
  · show c < f.nextCache + 1
    rcases hcache i c hl with ⟨-, rfl⟩ | ⟨-, hlt⟩ <;> omega
  · rcases hcache i c hi with ⟨rfl, rfl⟩ | ⟨hi, hlt⟩ <;>
      rcases hcache j _ hj with ⟨rfl, hc⟩ | ⟨hj, hlt'⟩
    · rfl
    · omega
    · omega
    · exact h.apart i j c hi hj
  · rcases hcache i c hl with ⟨-, rfl⟩ | ⟨hl, hlt⟩
    · -- the new cache is idle
      simp [Files.addCache, Files.cacheAt, SharedSparseCache.new] at hr
    · refine h.filling i c hl ?_ hne
      simp only [Files.addCache, Files.cacheAt, HashMap.lookup_insert] at hr
      rwa [if_neg (by omega)] at hr
  · rcases hcache i c hl with ⟨rfl, -⟩ | ⟨hl, -⟩
    · exact .inl hopen
    · exact h.owned i c hl

/-- A filler took a step that does not end its clean-up; its download may have
ended, and then its cache runs no more. -/
theorem putFiller (h : CachesKept O claimed f) {id : Nat} {filler : Filler} (filler' : Filler)
    (hl : f.fillers.lookup id = some filler) (hi : filler'.inode = filler.inode)
    (hc : filler'.cache = filler.cache) (hk : f'.fhToInode = f.fhToInode)
    (hn : f'.nextFh = f.nextFh) (hs : f'.readCache = f.readCache)
    (hnc : f'.nextCache = f.nextCache) (hnf : f'.nextFiller = f.nextFiller)
    (hf : f'.fillers = f.fillers.insert id filler')
    (hfill : ∀ c, (f'.cacheAt c).fill = .running → (f.cacheAt c).fill = .running ∧
      (c = filler.cache → filler.downloading = true → filler'.downloading = true)) :
    CachesKept O claimed f' where
  opened := fun fh i ho => hk ▸ h.opened fh i ho
  handles := fun fh i ho => hn ▸ h.handles fh i (hk ▸ ho)
  made := fun i c ho => hnc ▸ h.made i c (hs ▸ ho)
  apart := fun i j c ho ho' => h.apart i j c (hs ▸ ho) (hs ▸ ho')
  spawned := fun id' fl ho => by
    rw [hf, HashMap.lookup_insert] at ho
    rw [hnf]
    split at ho
    · rename_i hid
      exact hid ▸ h.spawned id filler hl
    · exact h.spawned id' fl ho
  filling := fun i c ho hr hne => by
    obtain ⟨hr', himp⟩ := hfill c hr
    obtain ⟨id', fl, hl', hd', hi', hc'⟩ := h.filling i c (hs ▸ ho) hr' hne
    by_cases hid : id' = id
    · rw [hid, hl] at hl'
      cases hl'
      refine ⟨id, filler', ?_, himp hc'.symm hd', hi.trans hi', hc.trans hc'⟩
      rw [hf, HashMap.lookup_insert, if_pos rfl]
    · refine ⟨id', fl, ?_, hd', hi', hc'⟩
      rw [hf, HashMap.lookup_insert, if_neg hid, hl']
  owned := fun i c ho => by
    rcases h.owned i c (hs ▸ ho) with hopen | ⟨id', fl, hl', hi'⟩
    · left
      unfold Files.isOpen at hopen ⊢
      rwa [hk]
    · right
      by_cases hid : id' = id
      · rw [hid, hl] at hl'
        cases hl'
        refine ⟨id, filler', ?_, hi.trans hi'⟩
        rw [hf, HashMap.lookup_insert, if_pos rfl]
      · refine ⟨id', fl, ?_, hi'⟩
        rw [hf, HashMap.lookup_insert, if_neg hid, hl']

/-- A filler's final clean-up drops the cache that nothing else would. -/
theorem cleanUp (h : CachesKept O claimed f) {id : Nat} {filler : Filler}
    (hl : f.fillers.lookup id = some filler) (hp : filler.phase = .cleanUp) :
    CachesKept O claimed { f.fillerCleanUp filler.inode with fillers := f.fillers.erase id } := by
  have hother : ∀ {id' fl}, f.fillers.lookup id' = some fl → id' ≠ id →
      (f.fillers.erase id).lookup id' = some fl := by
    intro id' fl hl' hne
    rw [HashMap.lookup_erase, if_neg hne, hl']
  have hcaches : ∀ {i c}, (f.fillerCleanUp filler.inode).readCache.lookup i = some c →
      f.readCache.lookup i = some c ∧ (i = filler.inode → f.isOpen i = true) := by
    intro i c ho
    unfold Files.fillerCleanUp at ho
    split at ho
    · rename_i hopen
      exact ⟨ho, fun hi => hi ▸ hopen⟩
    · dsimp only at ho
      rw [HashMap.lookup_erase] at ho
      split at ho
      · cases ho
      · exact ⟨ho, fun hi => absurd hi ‹_›⟩
  have hframe : (f.fillerCleanUp filler.inode).fhToInode = f.fhToInode ∧
      (f.fillerCleanUp filler.inode).nextFh = f.nextFh ∧
      (f.fillerCleanUp filler.inode).nextCache = f.nextCache ∧
      (f.fillerCleanUp filler.inode).nextFiller = f.nextFiller ∧
      (f.fillerCleanUp filler.inode).caches = f.caches := by
    unfold Files.fillerCleanUp
    split <;> exact ⟨rfl, rfl, rfl, rfl, rfl⟩
  obtain ⟨hk, hn, hnc, hnf, hcs⟩ := hframe
  refine ⟨fun fh i ho => ?_, fun fh i ho => ?_, fun i c ho => ?_, fun i j c ho ho' => ?_,
    fun id' fl ho => ?_, fun i c ho hr hne => ?_, fun i c ho => ?_⟩
  · exact hk ▸ h.opened fh i ho
  · exact hn ▸ h.handles fh i (hk ▸ ho)
  · exact hnc ▸ h.made i c (hcaches ho).1
  · exact h.apart i j c (hcaches ho).1 (hcaches ho').1
  · dsimp only at ho ⊢
    rw [HashMap.lookup_erase] at ho
    rw [hnf]
    split at ho
    · cases ho
    · exact h.spawned id' fl ho
  · unfold Files.cacheAt at hr
    rw [hcs] at hr
    obtain ⟨id', fl, hl', hd', hrest⟩ := h.filling i c (hcaches ho).1 hr hne
    refine ⟨id', fl, hother hl' ?_, hd', hrest⟩
    rintro rfl
    rw [hl] at hl'
    cases hl'
    rw [Filler.downloading, hp] at hd'
    cases hd'
  · obtain ⟨ho, himp⟩ := hcaches ho
    have hopen : ∀ {i}, f.isOpen i = true →
        Files.isOpen { f.fillerCleanUp filler.inode with fillers := f.fillers.erase id } i = true := by
      intro i hi
      unfold Files.isOpen at hi ⊢
      dsimp only
      rwa [hk]
    rcases h.owned i c ho with hi | ⟨id', fl, hl', hi'⟩
    · exact .inl (hopen hi)
    · by_cases hid : id' = id
      · rw [hid, hl] at hl'
        cases hl'
        exact .inl (hopen (himp hi'.symm))
      · exact .inr ⟨id', fl, hother hl' hid, hi'⟩

theorem fillerStep (h : CachesKept O claimed f) (id : Nat) (fault : Option WriteFault) :
    CachesKept O claimed (f.fillerStep id fault) := by
  unfold Files.fillerStep
  split
  · exact h
  · rename_i filler hl
    split
    · rename_i hp
      refine h.putFiller { filler with phase := .cleanUp } hl rfl rfl rfl rfl rfl rfl rfl rfl
        fun c hr => ⟨hr, fun _ hd => ?_⟩
      rw [Filler.downloading, hp] at hd
      cases hd
    · exact h.cleanUp hl ‹_›
    · obtain ⟨hi, hc, hcases⟩ := filler.streamStep_cases (f.cacheAt filler.cache) fault
      refine h.putFiller _ hl hi hc rfl rfl rfl rfl rfl rfl fun c hr => ?_
      have hr : ((f.setCache filler.cache (filler.streamStep (f.cacheAt filler.cache) fault).2).cacheAt
        c).fill = .running := hr
      rw [Files.cacheAt_setCache] at hr
      split at hr
      · rename_i hcc
        rcases hcases with ⟨hd', hfill⟩ | ⟨hd, hd'⟩
        · rw [hcc]
          exact ⟨hfill ▸ hr, fun _ hd => hd'.trans hd⟩
        · exact absurd hr (Filler.fill_of_ended hd hd')
      · rename_i hcc
        exact ⟨hr, fun hc' => absurd hc' hcc⟩

/-- A new handle opens its inode. -/
theorem openHandle (h : CachesKept O claimed f) {O' : Nat → Option Nat}
    (hO : ∀ fh i, O' fh = some i → O fh = some i ∨ (fh = f.nextFh ∧ i = ino)) :
    CachesKept O' claimed (f.allocFh.2.openHandle f.nextFh ino) := by
  have hlookup : ∀ fh, (f.allocFh.2.openHandle f.nextFh ino).fhToInode.lookup fh =
      if fh = f.nextFh then some ino else f.fhToInode.lookup fh :=
    fun fh => HashMap.lookup_insert ..
  refine ⟨fun fh i ho => ?_, fun fh i hl => ?_, h.made, h.apart, h.spawned, h.filling,
    fun i c hl => ?_⟩
  · rw [hlookup]
    rcases hO fh i ho with ho | ⟨rfl, rfl⟩
    · have hfh := h.opened fh i ho
      have hlt := h.handles fh i hfh
      rw [if_neg (by omega), hfh]
    · rw [if_pos rfl]
  · rw [hlookup] at hl
    show fh < f.nextFh + 1
    split at hl
    · omega
    · have hlt := h.handles fh i hl
      omega
  · rcases h.owned i c hl with hopen | hfiller
    · left
      obtain ⟨fh, hfh⟩ := (Files.isOpen_iff f i).mp hopen
      have hlt := h.handles fh i hfh
      refine (Files.isOpen_iff _ i).mpr ⟨fh, ?_⟩
      rw [hlookup, if_neg (by omega), hfh]
    · exact .inr hfiller

/-- The last handle of an inode drops its cache, or leaves it to the filler that
still downloads into it. -/
theorem owned_closeHandle (h : CachesKept O none f) {fh i c : Nat}
    (hl : (f.closeHandle fh).readCache.lookup i = some c) :
    (f.closeHandle fh).isOpen i = true ∨ f.HasFiller i := by
  rcases h.owned i c (Files.readCache_closeHandle hl) with hopen | hfiller
  · obtain ⟨fh', hfh'⟩ := (Files.isOpen_iff f i).mp hopen
    by_cases hne : fh' = fh
    · -- the inode loses this handle
      rw [hne] at hfh'
      unfold Files.closeHandle at hl ⊢
      rw [hfh'] at hl ⊢
      dsimp only at hl ⊢
      unfold Files.dropReadCacheIfUnused at hl ⊢
      split at hl
      · rename_i hstill
        rw [if_pos hstill]
        exact .inl hstill
      · rename_i hclosed
        rw [if_neg hclosed]
        split at hl
        · rename_i hfilling
          right
          have hl : f.readCache.lookup i = some c := hl
          have hrun : (f.cacheAt c).fill = .running := by
            simpa [hl, SharedSparseCache.isFilling, Files.cacheAt] using hfilling
          obtain ⟨id, filler, hf, -, hi, -⟩ := h.filling i c hl hrun nofun
          exact ⟨id, filler, hf, hi⟩
        · dsimp only at hl
          rw [HashMap.lookup_erase, if_pos rfl] at hl
          cases hl
    · refine .inl ((Files.isOpen_iff _ i).mpr ⟨fh', ?_⟩)
      rw [Files.lookup_closeHandle, if_neg hne, hfh']
  · exact .inr hfiller

theorem closeHandle (h : CachesKept O none f) (fh : Nat) :
    CachesKept (fun fh' => if fh = fh' then none else O fh') none (f.closeHandle fh) := by
  have hf := Files.closeHandle_frame f fh
  refine ⟨fun fh' i ho => ?_, fun fh' i hl => ?_, fun i c hl => ?_, fun i j c hi hj => ?_,
    fun id fl hl => ?_, fun i c hl hr hne => ?_, fun i c hl => ?_⟩
  · rw [Files.lookup_closeHandle]
    split at ho
    · cases ho
    · rw [if_neg (Ne.symm ‹_›)]
      exact h.opened fh' i ho
  · rw [Files.lookup_closeHandle] at hl
    rw [hf.nextFh]
    split at hl
    · cases hl
    · exact h.handles fh' i hl
  · exact hf.nextCache ▸ h.made i c (Files.readCache_closeHandle hl)
  · exact h.apart i j c (Files.readCache_closeHandle hi) (Files.readCache_closeHandle hj)
  · exact hf.nextFiller ▸ h.spawned id fl (hf.fillers ▸ hl)
  · unfold Files.Downloads
    rw [hf.fillers]
    exact h.filling i c (Files.readCache_closeHandle hl) (hf.cacheAt c ▸ hr) hne
  · unfold Files.HasFiller
    rw [hf.fillers]
    exact h.owned_closeHandle hl

end CachesKept

/-! ## The callbacks -/

section Invariants

variable {E : Type} (R : Answers Call Answer E) (O : Nat → Option Nat)

theorem belongs_fillerStep {f : Files} {ino c : Nat} (h : f.Belongs ino c) (id : Nat)
    (fault : Option WriteFault) : (f.fillerStep id fault).Belongs ino c := by
  intro i hl
  have hdoes := f.fillerStep_does id fault
  generalize f.fillerStep id fault = f' at hdoes hl
  cases hdoes with
  | gone => exact h i hl
  | stream => exact h i hl
  | deregister => exact h i hl
  | cleanUp =>
    refine h i ?_
    unfold Files.fillerCleanUp at hl
    split at hl
    · exact hl
    · dsimp only at hl
      rw [HashMap.lookup_erase] at hl
      split at hl
      · cases hl
      · exact hl

theorem CachesKept.retain {O : Nat → Option Nat} {claimed : Option Nat} {f : Files}
    (h : CachesKept O claimed f) (keep : Nat → Nat → Bool) :
    CachesKept O claimed { f with readCache := f.readCache.retain keep } :=
  h.frame rfl le_rfl rfl rfl rfl (fun _ _ hl => (HashMap.lookup_retain_some.mp hl).1) fun _ hr => hr

theorem askingInvariant_kept (claimed : Option Nat) : AskingInvariant R (fun _ _ => True)
    (fun fs _ => CachesKept O claimed fs.files) (fun _ _ => True) where
  link := fun fs => queries_const (fun _ _ _ => trivial) (CachesKept O claimed fs.files)
  filler := fun id fault h => h.fillerStep id fault
  dropCaches := fun keep h => h.retain keep

/-- The same of the cache that a read uses. -/
theorem askingInvariant_belongs (claimed : Option Nat) (ino c : Nat) :
    AskingInvariant R (fun _ _ => True)
      (fun fs _ => CachesKept O claimed fs.files ∧ fs.files.Belongs ino c) (fun _ _ => True) where
  link := fun fs => queries_const (fun _ _ _ => trivial)
    (CachesKept O claimed fs.files ∧ fs.files.Belongs ino c)
  filler := fun id fault h => ⟨h.1.fillerStep id fault, belongs_fillerStep h.2 id fault⟩
  dropCaches := fun keep h =>
    ⟨h.1.retain keep, fun i hl => h.2 i (HashMap.lookup_retain_some.mp hl).1⟩

theorem readInvariant_kept {ino fh : Nat} (hO : O fh = some ino) :
    ReadInvariant R (fun _ _ => True) ino (fun fs _ => CachesKept O none fs.files)
      (fun c fs _ => CachesKept O none fs.files ∧ fs.files.Belongs ino c)
      (fun c fs _ => CachesKept O (some c) fs.files ∧ fs.files.Belongs ino c)
      (fun _ _ => True) where
  link := (askingInvariant_kept R O none).link
  having := fun c => askingInvariant_belongs R O none ino c
  claimed := fun c => askingInvariant_belongs R O (some c) ino c
  readBuf := fun _ _ _ _ h => h
  found := fun hl h => ⟨h, fun i hi => h.apart i ino _ hi hl⟩
  addCache := fun {fs e} size hnone h => by
    have hopen := (Files.isOpen_iff fs.files ino).mpr ⟨fh, h.opened fh ino hO⟩
    refine ⟨h.addCache hopen size, fun i hl => ?_⟩
    simp only [Files.addCache, HashMap.lookup_insert] at hl
    split at hl
    · assumption
    · have hlt := h.made i _ hl
      omega
  cache := fun _ hv _ h => ⟨h.1.setCache hv, h.2⟩
  claim := fun _ h => ⟨h.1.claim _ _, h.2⟩
  register := fun h => ⟨h.1.frame rfl le_rfl rfl rfl rfl (fun _ _ h => h) fun _ h => h, h.2⟩
  giveUp := fun failure h => ⟨h.1.giveUp failure, h.2⟩
  finished := fun h => ⟨h.1.frame rfl le_rfl rfl rfl rfl (fun _ _ h => h) fun _ h => h, h.2⟩
  spawnFiller := fun stream h => ⟨h.1.spawnFiller h.2 stream, h.2⟩
  served := fun h => h.1

theorem stillInvariant_kept : StillInvariant R (fun _ _ => True)
    (fun fs _ => CachesKept O none fs.files) (fun _ _ => True) where
  toAskingInvariant := askingInvariant_kept R O none
  allocFh := fun h => h.frame rfl (Nat.le_succ _) rfl rfl rfl (fun _ _ h => h) fun _ h => h
  init := fun h => ⟨trivial, fun _ _ _ => h⟩
  addStorage := fun _ _ _ h => h
  setStorages := fun _ h => h
  spawn := fun h => ⟨trivial, fun _ _ _ => h⟩
  mutation := fun _ _ _ h _ _ => ⟨trivial, fun _ _ _ => ⟨h, fun _ h => h, fun _ _ => trivial⟩⟩
  addObject := fun _ _ _ _ _ _ h _ _ => h
  remove := fun _ _ h _ => h
  rename := fun _ _ _ _ h _ => h
  panic := fun _ _ _ => trivial

theorem writeInvariant_kept (ino fh : Nat) : WriteInvariant R (fun _ _ => True) ino fh
    (fun fs _ => CachesKept O none fs.files) (fun _ _ => True) where
  link := (askingInvariant_kept R O none).link
  openBuf := fun _ _ _ h => h
  writeBuf := fun _ _ _ _ h => h
  closeBuf := fun _ h => h

end Invariants

section Callbacks

variable {E : Type} {R : Answers Call Answer E} {O : Nat → Option Nat} {fs : MtpFs}
  {tr : E}

/-- A new handle is open: the caches were owned by the others. -/
theorem CachesKept.openedHandle (h : CachesKept O none fs.files) (ino : Nat) :
    CachesKept (fun fh => if fs.files.nextFh = fh then some ino else O fh) none
      (fs.files.allocFh.2.openHandle fs.files.nextFh ino) :=
  h.openHandle fun fh i ho => by
    split at ho
    · exact .inr ⟨Eq.symm ‹_›, (Option.some.inj ho).symm⟩
    · exact .inl ho

theorem dispatch_kept {c : Callback} {h : List (Callback × Reply)} (hok : c.CarriesOpen h)
    (hk : CachesKept (opened h) none fs.files) :
    Act.wp R (fun _ _ => True) (dispatch c)
      (fun r fs' _ => CachesKept (opened (h ++ [(c, r)])) none fs'.files) fs tr := by
  have hsnoc : ∀ r, opened (h ++ [(c, r)]) = fun fh => openedStep fh (opened h fh) (c, r) :=
    fun r => funext fun fh => opened_snoc h (c, r) fh
  simp only [hsnoc]
  rw [dispatch_wp]
  cases c with
  | openFile ino mode =>
    exact openFile_opens (P := fun O f _ => CachesKept O none f) ino mode hk (hk.openedHandle ino)
  | create parent name =>
    exact create_opens (P := fun O f _ => CachesKept O none f) (C := fun _ => True) parent name hk
      (fun n => Attempt.wp_of_forall _ (fun _ _ _ _ _ _ _ _ _ => trivial) fun _ _ _ => trivial)
      (fun ino _ _ => hk.openedHandle ino)
      fun _ _ _ _ _ => hk.openHandle fun _ _ ho => .inl ho
  | release fh => exact release_closes (P := fun f _ => CachesKept _ none f) fh (hk.closeHandle fh)
  | read ino fh offset size =>
    exact keeps_readFile (readInvariant_kept _ _ (hok (ino, fh) rfl)) fh offset size fs tr hk
  | write ino fh offset data =>
    exact keeps_write (writeInvariant_kept _ _ ino fh) offset data fs tr hk
  | setattr ino size fh =>
    exact keeps_setattr size (fun a _ => writeInvariant_kept R (opened h) ino a) fs tr hk
  | _ => exact keeps_still (stillInvariant_kept _ _) rfl fs tr hk

end Callbacks

/-- In every run in which the kernel reads through open handles only, whatever
the device, the local files, its events and the fillers do in between: an inode
in `read_cache` has an open handle, or a filler that has not cleaned up yet. -/
theorem readCache_owned {device : MtpDevice} {describe : String} {config : MtpFsConfig}
    {h : List (Callback × Reply)} {fs : MtpFs} {tr : List Event}
    (hr : Served AnyAnswer dispatch (fun h _ _ c => c.CarriesOpen h)
      (.new device describe config) [] h fs tr) {ino c : Nat}
    (hl : fs.files.readCache.lookup ino = some c) :
    (∃ fh, fs.files.fhToInode.lookup fh = some ino) ∨ fs.files.HasFiller ino := by
  have hnew : CachesKept (opened []) none (MtpFs.new device describe config).files := .new
  have hk : CachesKept (opened h) none fs.files :=
    hr.invariant (I := fun h (fs : MtpFs) _ => CachesKept (opened h) none fs.files)
      (G := fun _ _ => True) hnew fun _ _ _ _ hk hok => dispatch_kept hok hk
  rcases hk.owned ino c hl with hopen | hfiller
  · exact .inl ((Files.isOpen_iff ..).mp hopen)
  · exact .inr hfiller

/-- A device that gives whole objects only. The filler takes two steps whenever it may. -/
def streamingDevice (_ : List Event) : (c : Call) → Option (Answer c)
  | .storages _ => some (.ok [⟨⟨1⟩, "Card", 100, 50⟩])
  | .listObjects .. => some (.ok [⟨⟨7⟩, "a", false, 2, none⟩])
  | .download .. => some (.ok [.ok [1], .ok [2]])
  | .background => some [.filler 0 none, .filler 0 none]
  | c => undisturbed c

/-- The file is closed when its first byte is there: the filler has its cache. -/
theorem readCache_owned_closed : ∃ fs : MtpFs, fs.files.isOpen 3 = false ∧ fs.files.HasFiller 3 := by
  obtain ⟨h, fs, tr, hr, ht⟩ : ∃ h fs tr, Served AnyAnswer dispatch
      (fun h _ _ c => c.CarriesOpen h) (.new ⟨0, true, false⟩ "phone" ⟨false, ⟨1000⟩, 0⟩) [] h fs tr ∧
      decide (fs.files.isOpen 3 = false ∧ fs.files.readCache.lookup 3 = some 0) = true :=
    Served.of_checked (anyAnswer_of_script streamingDevice)
      (fun h c => decide (c.CarriesOpen h)) (fun _ _ _ _ hc => of_decide_eq_true hc)
      [.init, .lookup 2 (some "a"), .openFile 3 .readOnly, .read 3 1 0 1, .release 1]
      (fun (r : List (Callback × Reply) × MtpFs × List Event) =>
        decide (r.2.1.files.isOpen 3 = false ∧ r.2.1.files.readCache.lookup 3 = some 0))
      (by decide)
  obtain ⟨hclosed, hl⟩ := of_decide_eq_true ht
  rcases readCache_owned hr hl with hopen | hfiller
  · rw [(Files.isOpen_iff ..).mpr hopen] at hclosed
    cases hclosed
  · exact ⟨fs, hclosed, hfiller⟩

end MtpMount
