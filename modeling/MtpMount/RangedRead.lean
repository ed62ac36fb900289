import MtpMount.Denotes
import MtpMount.FsRules
import MtpMount.Retries

/-!
# Ranged reads

A read fetches the ranges that its cache misses in chunks, writes what comes in
to the cache, and serves the request from there. The device may answer a chunk
with any number of bytes; an answer without one ends the range early, and a last
look at the cache refuses what is still missing.

* `fetchRange_enough`: a chunk takes the loop on, so as many turns as there are
  bytes are enough;
* `readRanged_exact`: a read from a cache that agrees with the object gives the
  object's bytes or an error, and the cache still agrees;
* `readRanged_whole`: it gives the bytes when nothing fails;
* `ranged_read_exact`: the same of the callback.
-/

namespace MtpMount

open Interaction ByteVec

variable {E : Type} {R : Answers Call Answer E} {D : Bytes} {ino c : Nat}

/-- Every answer to a ranged request holds what `D` has there, as far as `D` goes. -/
def ServesContent (R : Answers Call Answer E) (D : Bytes) : Prop :=
  ∀ e storage handle cursor n bytes e',
    R e (.readRange storage handle cursor n) (.ok bytes) e' →
    ∀ i < bytes.length, cursor + i < D.length → bytes.getD i 0 = D.getD (cursor + i) 0

/-! ## The turns of a range -/

/-- More turns than bytes change nothing: the loop ends by itself before. -/
theorem fetchRange_enough {entrySize stop fuel fuel' cursor : Nat} (h : stop - cursor ≤ fuel)
    (h' : stop - cursor ≤ fuel') :
    fetchRange ino c entrySize stop fuel cursor = fetchRange ino c entrySize stop fuel' cursor := by
  induction fuel generalizing fuel' cursor with
  | zero =>
    cases fuel' with
    | zero => rfl
    | succ fuel' =>
      have hdone : cursor ≥ stop := by omega
      rw [fetchRange, fetchRange, if_pos hdone]
  | succ fuel ih =>
    cases fuel' with
    | zero =>
      have hdone : cursor ≥ stop := by omega
      rw [fetchRange, fetchRange, if_pos hdone]
    | succ fuel' =>
      rw [fetchRange, fetchRange]
      split
      · rfl
      · refine congrArg _ (funext fun bytes => ?_)
        dsimp only
        refine congrArg _ (funext fun fault => congrArg _ (funext fun r => ?_))
        rcases r with err | _
        · rfl
        · dsimp only
          split
          · rfl
          · exact ih (by omega) (by omega)

/-! ## One chunk -/

/-- The calls of a read: it never panics, and hangs on an inode at most whose
parents go round in a circle. -/
def CallsEnd (t : InodeTable) (ino : Nat) (_ : E) (call : Call) : Prop :=
  call.isPanic = false ∧ (call = .hang → ¬ t.Grounded ino)

section Chunk

variable {t : InodeTable} {l : Link} {e : E}

theorem callsEnd_of_isRecovery {call : Call} (h : call.isRecovery = true) :
    CallsEnd t ino e call := by
  constructor
  · cases call <;> first | rfl | cases h
  · rintro rfl
    cases h

/-- Every attempt and every recovery leaves the tree as it is, so whatever chunk
comes in is one that the device answered. -/
theorem fetchChunk_wp {P : Bytes → Prop} {cursor n : Nat}
    (hP : ∀ e storage handle bytes e',
      R e (.readRange storage handle cursor n) (.ok bytes) e' → P bytes)
    (hl : t.SameTree l.inodes) :
    Attempt.wp R (CallsEnd t ino) (fetchChunk ino cursor n)
      (fun bytes l' _ => t.SameTree l'.inodes ∧ P bytes) (fun _ l' _ => t.SameTree l'.inodes) l e := by
  have hstuck : ∀ {l' : Link} {e' : E}, t.SameTree l'.inodes → ¬ l'.inodes.Grounded ino →
      CallsEnd t ino e' .hang :=
    fun hl' hno => ⟨rfl, fun _ hg => hno (hl'.grounded hg)⟩
  unfold fetchChunk
  refine Recoverable.wp (I := fun _ l' _ => t.SameTree l'.inodes)
    (X := fun _ _ l' _ => t.SameTree l'.inodes)
    ⟨fun h => ⟨callsEnd_of_isRecovery rfl, fun out e' _ => ?_⟩, fun {_ l' e'} hl' => ?_,
      fun h _ => ?_, fun {_ l' _ _} h _ => ?_, fun h _ => h, fun h => h⟩ hl
  · split
    · exact h
    · exact h
  · unfold fileHandle
    simp only [Attempt.wp_bind, Attempt.wp_get]
    refine Attempt.wp_mono (ensureFresh_refreshes ino (fun _ _ _ => ⟨rfl, fun h => by cases h⟩)
      fun _ => hstuck hl') ?_ ?_
    · intro _ l₁ e₁ href
      have h₁ : t.SameTree l₁.inodes := hl'.trans (.refreshes href)
      split
      · rw [Attempt.wp_pure]
        refine storageOf_wp (hstuck h₁) (fun storage _ => ?_) h₁
        refine wp_call.mpr ⟨⟨rfl, fun h => by cases h⟩, fun answer e₂ hr => ?_⟩
        rcases answer with err | bytes
        · exact h₁
        · exact ⟨h₁, hP _ _ _ _ _ hr⟩
      · exact h₁
    · intro _ l₁ e₁ href
      exact hl'.trans (.refreshes href)
  · exact invalidateHandles_does (callsEnd_of_isRecovery rfl) fun _ _ _ =>
      h.trans (.bumpGeneration _)
  · rw [wp_onLinkM]
    refine Attempt.wp_mono (reconnect_does fun _ _ hc => callsEnd_of_isRecovery hc) ?_ ?_
    · rintro _ l'' e' ⟨device, infos, rfl⟩
      exact h.trans (.adopted _ _ _)
    · rintro err l'' e' ⟨-, reason, rfl⟩
      exact h

end Chunk

/-! ## What a read from an agreeing cache gives -/

/-- The invariant `B` survives a ranged read from the cache `c`, which agrees with `D`, and the
chunks that come in agree too. -/
structure ServingInvariant (R : Answers Call Answer E) (G : E → Call → Prop) (ino c : Nat) (D : Bytes)
    (B : MtpFs → E → Prop) : Prop where
  agrees : ∀ {fs e}, B fs e →
    (fs.files.cacheAt c).cache.totalSize = D.length ∧ (fs.files.cacheAt c).cache.Agrees D
  chunk : ∀ {fs e} cursor n, B fs e → Attempt.wp R G (fetchChunk ino cursor n)
    (fun bytes l e' => B { fs with link := l } e' ∧
      ∀ i < bytes.length, cursor + i < D.length → bytes.getD i 0 = D.getD (cursor + i) 0)
    (fun _ l e' => B { fs with link := l } e') fs.link e
  temp : ∀ {fs e c}, c = .writeTemp ∨ c = .readTemp → B fs e →
    G e c ∧ ∀ a e', R e c a e' → B fs e'
  setCache : ∀ {fs e v}, v.cache.totalSize = D.length → v.cache.Agrees D → B fs e →
    B { fs with files := fs.files.setCache c v } e

section Serving

variable {G : E → Call → Prop} {B : MtpFs → E → Prop} (hB : ServingInvariant R G ino c D B)
  {fs : MtpFs} {e : E}

include hB

/-- A chunk of the device's bytes goes into the cache, clipped at the end of the object. -/
theorem ServingInvariant.writeAt {cursor : Nat} {bytes : Bytes}
    (hbytes : ∀ i < bytes.length, cursor + i < D.length → bytes.getD i 0 = D.getD (cursor + i) 0)
    (fault : Option WriteFault) (h : B fs e) :
    B { fs with files := fs.files.setCache c ((fs.files.cacheAt c).writeAt cursor
      (bytes.take (min (D.length - cursor) bytes.length)) fault).2 } e := by
  obtain ⟨htotal, hagrees⟩ := hB.agrees h
  refine hB.setCache ((SparseCache.totalSize_writeAt _ _ _).trans htotal)
    (hagrees.writeAt (fun i hi => ?_) fault) h
  rw [List.length_take] at hi
  simp only [List.getD_eq_getElem?_getD]
  rw [List.getElem?_take_of_lt (by omega)]
  simpa only [List.getD_eq_getElem?_getD] using hbytes i (by omega) (by omega)

theorem fetchRange_keeps (stop fuel cursor : Nat) :
    Attempt.Keeps R G B (fetchRange ino c D.length stop fuel cursor) := by
  induction fuel generalizing cursor with
  | zero => exact .pure _
  | succ fuel ih =>
    unfold fetchRange
    split
    · exact .pure _
    · intro fs e h
      rw [Attempt.wp_bind, orIoError_wp]
      refine Attempt.wp_mono (hB.chunk cursor _ h) ?_ fun _ _ _ h' => h'
      rintro bytes l e₁ ⟨h₁, hbytes⟩
      dsimp only
      rw [Attempt.wp_bind]
      refine tell_wp.mpr ⟨(hB.temp (.inl rfl) h₁).1, fun fault e₂ hr => ?_⟩
      rw [Attempt.wp_bind, onCache_wp]
      have h₂ := hB.writeAt hbytes fault ((hB.temp (.inl rfl) h₁).2 fault e₂ hr)
      split
      · exact h₂
      · split
        · exact h₂
        · exact ih _ _ _ h₂

theorem fetchRanges_keeps (ranges : List ByteRange) :
    Attempt.Keeps R G B (fetchRanges ino c D.length ranges) := by
  induction ranges with
  | nil => exact .pure _
  | cons range rest ih => exact .bind (fetchRange_keeps hB _ _ _) fun _ => ih

/-- What a ranged read gives is what `D` holds there. -/
theorem readRanged_exact (hD : D.length ≤ U64_MAX) (offset size : Nat) (h : B fs e) :
    Attempt.wp R G (readRanged ino c D.length offset size)
      (fun data fs' e' => data = slice D offset size ∧ B fs' e') (fun _ fs' e' => B fs' e') fs e := by
  unfold readRanged
  simp only [Attempt.wp_bind, Attempt.wp_get]
  refine Attempt.wp_mono (fetchRanges_keeps hB _ fs e h) ?_ fun _ _ _ h' => h'
  intro _ fs₁ e₁ h₁
  rw [refuseIf_wp]
  refine ⟨fun _ => h₁, fun hmissing => ?_⟩
  refine tell_wp.mpr ⟨(hB.temp (.inr rfl) h₁).1, fun fault e₂ hr => ?_⟩
  rw [onCache_wp]
  obtain ⟨htotal, hagrees⟩ := hB.agrees h₁
  have h₂ := hB.setCache (v := ((fs₁.files.cacheAt c).readAt offset size fault).2)
    ((SparseCache.totalSize_readAt _ _ _).trans htotal) (hagrees.readAt _ _ _)
    ((hB.temp (.inr rfl) h₁).2 fault e₂ hr)
  have hdata : ∀ data, ((fs₁.files.cacheAt c).cache.readAt offset size fault).1 = .ok data →
      data = slice D offset size :=
    fun data => SparseCache.readAt_of_agrees hagrees (htotal ▸ hD) htotal.symm (not_not.mp hmissing)
  split
  · rename_i data hok
    exact ⟨hdata data hok, h₂⟩
  · exact h₂

end Serving

/-! ## The cache behind a read -/

/-- The cache `c` of the inode is as long as `D` and agrees with it, in the tree of `t`. -/
structure Backed (t : InodeTable) (ino c : Nat) (D : Bytes) (fs : MtpFs) : Prop where
  tree : t.SameTree fs.link.inodes
  found : fs.files.readCache.lookup ino = some c
  total : (fs.files.cacheAt c).cache.totalSize = D.length
  agrees : (fs.files.cacheAt c).cache.Agrees D

/-- Wherever a shared cache of the inode is, it agrees with `D`. -/
def CacheAgrees (ino : Nat) (D : Bytes) (fs : MtpFs) : Prop :=
  ∀ c, fs.files.readCache.lookup ino = some c → (fs.files.cacheAt c).cache.Agrees D

section Read

variable {t : InodeTable} {fs : MtpFs} {e : E}

theorem Backed.cacheAgrees (h : Backed t ino c D fs) : CacheAgrees ino D fs := by
  intro c' hc'
  cases h.found.symm.trans hc'
  exact h.agrees

theorem Backed.setLink (h : Backed t ino c D fs) {l : Link} (hl : t.SameTree l.inodes) :
    Backed t ino c D { fs with link := l } :=
  ⟨hl, h.found, h.total, h.agrees⟩

theorem Backed.setCache (h : Backed t ino c D fs) {v : SharedSparseCache}
    (htotal : v.cache.totalSize = (fs.files.cacheAt c).cache.totalSize) (hagrees : v.cache.Agrees D) :
    Backed t ino c D { fs with files := fs.files.setCache c v } := by
  have hat : (fs.files.setCache c v).cacheAt c = v := by
    rw [Files.cacheAt_setCache, if_pos rfl]
  refine ⟨h.tree, h.found, ?_, ?_⟩
  · rw [hat, htotal, h.total]
  · rw [hat]
    exact hagrees

theorem serving_backed (hserves : ServesContent R D) :
    ServingInvariant R (CallsEnd t ino) ino c D fun fs (_ : E) => Backed t ino c D fs where
  agrees := fun h => ⟨h.total, h.agrees⟩
  chunk := fun cursor _ h => Attempt.wp_mono (fetchChunk_wp (hserves · · · cursor _) h.tree)
    (fun _ _ _ h' => ⟨h.setLink h'.1, h'.2⟩) fun _ _ _ h' => h.setLink h'
  temp := by
    rintro fs e _ (rfl | rfl) h
    · exact ⟨⟨rfl, fun hc => by cases hc⟩, fun _ _ _ => h⟩
    · exact ⟨⟨rfl, fun hc => by cases hc⟩, fun _ _ _ => h⟩
  setCache := fun htotal hagrees h => h.setCache (htotal.trans h.total.symm) hagrees

end Read

/-! ## When nothing fails -/

/-- The cable stays in, the files of the mount work, the inode is in a storage and,
unless its handle is fresh, every folder on the way down lists what is below it;
and a ranged request before the end of the object brings a byte. -/
structure NeverFails (R : Answers Call Answer E) (D : Bytes) (ino : Nat) (l : Link) : Prop where
  plugged : ∀ {e out e'}, R e .isUnplugged out e' → out = false
  createTemp : ∀ {e fault e'}, R e .createTemp fault e' → fault = none
  writeTemp : ∀ {e fault e'}, R e .writeTemp fault e' → fault = none
  readTemp : ∀ {e fault e'}, R e .readTemp fault e' → fault = none
  storage : ∃ idx, findStorageFrom l (walkFuel l.inodes) ino = some (some idx)
  listed : l.inodes.isFresh ino = false → ∀ e,
    LooksUp R (fun _ _ => True) (fun _ _ => True) (fun _ _ _ => True) (fun _ => False) l e ino
  serves : ∀ {e storage handle cursor n answer e'},
    R e (.readRange storage handle cursor n) answer e' →
    ∃ bytes, answer = .ok bytes ∧ (0 < n → cursor < D.length → bytes ≠ [])

/-- Nothing happened to the link but that the way down to the inode was looked up. -/
structure Ready (ino : Nat) (l₀ l : Link) : Prop where
  refreshes : Refreshes (OnChain l₀.inodes ino) l₀ l
  looked : l = l₀ ∨ l.inodes.isFresh ino = true

section Whole

variable {l₀ l : Link} {e : E} {fs : MtpFs}

theorem Ready.refl (ino : Nat) (l : Link) : Ready ino l l := ⟨.refl _ l, .inl rfl⟩

variable (hn : NeverFails R D ino l₀)

include hn

theorem ensureFresh_ready (h : Ready ino l₀ l) :
    Attempt.wp R (fun _ _ => True) (ensureFresh ino) (fun _ l' _ => Ready ino l₀ l')
      (fun _ _ _ => False) l e := by
  cases hf : l.inodes.isFresh ino with
  | true =>
    unfold ensureFresh
    simp only [Attempt.wp_bind, Attempt.wp_get, hf, if_true]
    exact h
  | false =>
    have hl : l = l₀ := h.looked.resolve_right (by simp [hf])
    subst hl
    refine Attempt.wp_mono (ensureFresh_resolves (hn.listed hf e) (fun _ _ _ _ _ _ => trivial)) ?_ ?_
    · rintro _ l' e' ⟨hres, hfresh, -⟩
      exact ⟨hres.refreshes, .inr hfresh⟩
    · rintro err l' e' ⟨-, herr⟩
      exact herr

theorem storageOf_ready (h : Ready ino l₀ l) :
    Attempt.wp R (fun _ _ => True) (storageOf ino) (fun _ l' _ => Ready ino l₀ l')
      (fun _ _ _ => False) l e := by
  obtain ⟨idx, hidx⟩ := hn.storage
  rw [← h.refreshes.findStorageFrom] at hidx
  unfold storageOf
  rw [Attempt.wp_bind]
  refine storageIndex_wp (fun _ => trivial) (fun i hi => ?_) fun hno => ?_
  · exact storageAt_wp (List.getElem?_eq_getElem (findStorageFrom_lt hi)) h
  · rw [hno] at hidx
    cases hidx

theorem fetchChunk_ready {P : Bytes → Prop} {cursor n : Nat} (hfile : IsFile l₀ ino)
    (hP : ∀ e storage handle bytes e',
      R e (.readRange storage handle cursor n) (.ok bytes) e' → P bytes)
    (h : Ready ino l₀ l) :
    Attempt.wp R (fun _ _ => True) (fetchChunk ino cursor n)
      (fun bytes l' _ => Ready ino l₀ l' ∧ P bytes ∧ (0 < n → cursor < D.length → bytes ≠ []))
      (fun _ _ _ => False) l e := by
  unfold fetchChunk
  refine Recoverable.wp (I := fun rounds l' _ => 0 < rounds ∧ Ready ino l₀ l')
    (X := fun _ _ _ _ => False)
    ⟨fun h' => ⟨trivial, fun out e' hr => ?_⟩, fun {_ l' e'} h' => ?_, fun hno _ => hno.elim,
      fun hno _ => hno.elim, fun hno _ => hno, fun h' => absurd h'.1 (Nat.lt_irrefl 0)⟩
    ⟨Nat.succ_pos _, h⟩
  · rw [hn.plugged hr]
    exact h'
  · unfold fileHandle
    simp only [Attempt.wp_bind, Attempt.wp_get]
    refine Attempt.wp_mono (ensureFresh_ready hn h'.2) ?_ fun _ _ _ hno => hno
    intro _ l₁ e₁ h₁
    obtain ⟨entry, a, he, hk⟩ := hfile
    have hplace := h₁.refreshes.place ino
    rw [he, Option.map_some] at hplace
    obtain ⟨entry', he', hp⟩ := Option.map_eq_some_iff.mp hplace
    obtain ⟨b, hb⟩ := InodeEntry.file_of_place hp hk
    simp only [he', Option.map_some, hb, Attempt.wp_pure]
    refine Attempt.wp_mono (storageOf_ready hn h₁) ?_ fun _ _ _ hno => hno
    intro storage l₂ e₂ h₂
    refine wp_call.mpr ⟨trivial, fun answer e₃ hr => ?_⟩
    obtain ⟨bytes, rfl, hsome⟩ := hn.serves hr
    exact ⟨h₂, hP _ _ _ _ _ hr, hsome⟩

variable (hserves : ServesContent R D)

include hserves

/-- A range is populated to its end. -/
theorem fetchRange_fills (hfile : IsFile l₀ ino) (hD : D.length ≤ U64_MAX) {stop fuel cursor : Nat}
    (hstop : stop ≤ D.length) (hfuel : stop - cursor ≤ fuel) (h : Backed l₀.inodes ino c D fs)
    (hl : Ready ino l₀ fs.link) :
    Attempt.wp R (fun _ _ => True) (fetchRange ino c D.length stop fuel cursor)
      (fun _ fs' _ => Backed l₀.inodes ino c D fs' ∧ Ready ino l₀ fs'.link ∧
        ∀ x, (fs.files.cacheAt c).cache.ranges.Covers x ∨ (cursor ≤ x ∧ x < stop) →
          (fs'.files.cacheAt c).cache.ranges.Covers x)
      (fun _ _ _ => False) fs e := by
  induction fuel generalizing cursor fs e with
  | zero =>
    refine ⟨h, hl, fun x hx => hx.resolve_right ?_⟩
    omega
  | succ fuel ih =>
    unfold fetchRange
    split
    · refine ⟨h, hl, fun x hx => hx.resolve_right ?_⟩
      omega
    · rename_i hmore
      rw [Attempt.wp_bind, orIoError_wp]
      refine Attempt.wp_mono (fetchChunk_ready hn hfile (hserves · · · cursor _) hl) ?_
        fun _ _ _ hno => hno
      rintro bytes l e₁ ⟨hl₁, hbytes, hsome⟩
      have hlen : 0 < bytes.length :=
        List.length_pos_of_ne_nil (hsome (by simp only [READ_CHUNK]; omega) (by omega))
      dsimp only
      rw [Attempt.wp_bind]
      refine tell_wp.mpr ⟨trivial, fun fault e₂ hr => ?_⟩
      cases hn.writeTemp hr
      rw [Attempt.wp_bind, onCache_wp]
      have h₁ := h.setLink (.refreshes hl₁.refreshes)
      have h₂ := (serving_backed hserves).writeAt (e := e₂) hbytes none h₁
      have htake : (bytes.take (min (D.length - cursor) bytes.length)).length =
          min (D.length - cursor) bytes.length := by
        rw [List.length_take]
        omega
      obtain ⟨hok, hcovers⟩ := (fs.files.cacheAt c).cache.writeAt_fits cursor
        (bytes.take (min (D.length - cursor) bytes.length)) (by rw [h.total]; exact hD)
        (by rw [h.total, htake]; omega)
      have hkeep : ∀ x, (fs.files.cacheAt c).cache.ranges.Covers x →
          ((fs.files.cacheAt c).cache.writeAt cursor
            (bytes.take (min (D.length - cursor) bytes.length)) none).2.ranges.Covers x :=
        fun x => SparseCache.covers_writeAt.1
      split
      · rename_i err herr
        cases hok.symm.trans herr
      · rw [if_neg (Nat.ne_of_gt hlen)]
        refine Attempt.wp_mono (ih (by omega) h₂ hl₁) ?_ fun _ _ _ hno => hno
        rintro _ fs' e' ⟨h', hl', hc'⟩
        refine ⟨h', hl', fun x hx => hc' x ?_⟩
        rw [Files.cacheAt_setCache, if_pos rfl]
        -- what was there stays, the chunk is new, and the rest is still to come
        rcases hx with hx | ⟨hlo, hhi⟩
        · exact .inl (hkeep x hx)
        · by_cases hin : x < cursor + bytes.length
          · exact .inl (hcovers x hlo (by rw [htake]; omega))
          · exact .inr ⟨by omega, hhi⟩

theorem fetchRanges_fills (hfile : IsFile l₀ ino) (hD : D.length ≤ U64_MAX)
    {ranges : List ByteRange} (hstop : ∀ r ∈ ranges, r.stop ≤ D.length)
    (h : Backed l₀.inodes ino c D fs) (hl : Ready ino l₀ fs.link) :
    Attempt.wp R (fun _ _ => True) (fetchRanges ino c D.length ranges)
      (fun _ fs' _ => Backed l₀.inodes ino c D fs' ∧
        ∀ x, (fs.files.cacheAt c).cache.ranges.Covers x ∨ Covered ranges x →
          (fs'.files.cacheAt c).cache.ranges.Covers x)
      (fun _ _ _ => False) fs e := by
  induction ranges generalizing fs e with
  | nil => exact ⟨h, fun x hx => hx.resolve_right RangeSet.covered_nil⟩
  | cons range rest ih =>
    unfold fetchRanges
    rw [Attempt.wp_bind]
    refine Attempt.wp_mono (fetchRange_fills hn hserves hfile hD
      (hstop range List.mem_cons_self) le_rfl h hl) ?_ fun _ _ _ hno => hno
    rintro _ fs₁ e₁ ⟨h₁, hl₁, hc₁⟩
    refine Attempt.wp_mono (ih (fun r hr => hstop r (List.mem_cons_of_mem _ hr)) h₁ hl₁) ?_
      fun _ _ _ hno => hno
    rintro _ fs₂ e₂ ⟨h₂, hc₂⟩
    refine ⟨h₂, fun x hx => hc₂ x ?_⟩
    rcases hx with hx | ⟨r, hr, hin⟩
    · exact .inl (hc₁ x (.inl hx))
    · rcases List.mem_cons.mp hr with rfl | hr
      · exact .inl (hc₁ x (.inr hin))
      · exact .inr ⟨r, hr, hin⟩

/-- Nothing is missing any more when the request is served. -/
theorem readRanged_whole (hfile : IsFile l₀ ino) (hD : D.length ≤ U64_MAX) (offset size : Nat)
    (h : Backed l₀.inodes ino c D fs) (hl : Ready ino l₀ fs.link) :
    Attempt.wp R (fun _ _ => True) (readRanged ino c D.length offset size)
      (fun data _ _ => data = slice D offset size) (fun _ _ _ => False) fs e := by
  have hlimit : (fs.files.cacheAt c).cache.totalSize ≤ U64_MAX := by
    rw [h.total]
    exact hD
  unfold readRanged
  simp only [Attempt.wp_bind, Attempt.wp_get]
  refine Attempt.wp_mono (fetchRanges_fills hn hserves hfile hD ?_ h hl) ?_ fun _ _ _ hno => hno
  · intro r hr
    have hne := (RangeSet.canonical_missing _ offset size _).nonempty r hr
    have hlast := (RangeSet.covered_missing hlimit).mp
      (⟨r, hr, by omega, by omega⟩ : Covered _ (r.stop - 1))
    rw [h.total] at hlast
    omega
  · rintro _ fs₁ e₁ ⟨h₁, hc₁⟩
    have hmissing : (fs₁.files.cacheAt c).cache.missingRanges offset size = [] := by
      refine (RangeSet.missing_eq_nil_iff (by rw [h₁.total]; exact hD)).mpr fun x hlo hhi hin => ?_
      rw [h₁.total, ← h.total] at hin
      by_cases hx : (fs.files.cacheAt c).cache.ranges.Covers x
      · exact hc₁ x (.inl hx)
      · exact hc₁ x (.inr ((RangeSet.covered_missing hlimit).mpr ⟨⟨hlo, hhi, hin⟩, hx⟩))
    rw [refuseIf_wp]
    refine ⟨fun hsome => absurd hmissing hsome, fun _ => ?_⟩
    refine tell_wp.mpr ⟨trivial, fun fault e₂ hr => ?_⟩
    cases hn.readTemp hr
    rw [onCache_wp]
    obtain ⟨data, hdata⟩ := SparseCache.readAt_works h₁.agrees offset size
    have hok : ((fs₁.files.cacheAt c).readAt offset size none).1 = .ok data := hdata
    rw [hok]
    exact SparseCache.readAt_of_agrees h₁.agrees (by rw [h₁.total]; exact hD) h₁.total.symm
      hmissing hdata

end Whole

/-! ## The callback -/

/-- A handle without a write buffer on a file as long as `D`, of which the device
gives ranges. The cache that is there already is as long and agrees with `D`. -/
structure ReadsRanged (D : Bytes) (ino fh : Nat) (fs : MtpFs) : Prop where
  file : ∃ entry a, fs.link.inodes.get ino = some entry ∧ entry.kind = .file a ∧
    entry.size = D.length
  limit : D.length ≤ U64_MAX
  noBuffer : fs.writeBuf.isOpen fh = false
  partialDownload : fs.link.device.supportsPartialDownload = true
  cache : ∀ c, fs.files.readCache.lookup ino = some c →
    (fs.files.cacheAt c).cache.totalSize = D.length ∧ (fs.files.cacheAt c).cache.Agrees D

section Callback

variable {G : E → Call → Prop} {fs : MtpFs} {e : E} {fh offset size : Nat}

theorem ReadsRanged.isFile (h : ReadsRanged D ino fh fs) : IsFile fs.link ino := by
  obtain ⟨entry, a, he, hk, -⟩ := h.file
  exact ⟨entry, a, he, hk⟩

theorem cacheFor_backed {X : Errno → MtpFs → E → Prop} (h : ReadsRanged D ino fh fs)
    (hG : G e .createTemp) (hX : ∀ fault e', R e .createTemp (some fault) e' → X .eio fs e') :
    Attempt.wp R G (cacheFor ino D.length)
      (fun c fs' _ => Backed fs.link.inodes ino c D fs' ∧ fs'.link = fs.link) X fs e := by
  unfold cacheFor
  rw [Attempt.wp_bind, Attempt.wp_get]
  split
  · rename_i c hc
    exact ⟨⟨.refl _, hc, (h.cache c hc).1, (h.cache c hc).2⟩, rfl⟩
  · rw [Attempt.wp_bind]
    refine tell_wp.mpr ⟨hG, fun fault e₁ hr => ?_⟩
    rw [Attempt.wp_bind, refuseIf_wp, onFiles_wp]
    refine ⟨fun hsome => ?_, fun _ => ?_⟩
    · obtain ⟨failure, rfl⟩ := Option.isSome_iff_exists.mp hsome
      exact hX failure e₁ hr
    · have hnew : (fs.files.addCache ino D.length).2.cacheAt fs.files.nextCache =
          .new D.length := by
        simp only [Files.addCache, Files.cacheAt, HashMap.lookup_insert, if_true, Option.getD_some]
      refine ⟨⟨.refl _, ?_, ?_, ?_⟩, rfl⟩
      · simp only [Files.addCache, HashMap.lookup_insert, if_true]
      · exact congrArg (fun v => v.cache.totalSize) hnew
      · show ((fs.files.addCache ino D.length).2.cacheAt fs.files.nextCache).cache.Agrees D
        rw [hnew]
        exact SparseCache.agrees_new _ _

/-- What the read of a file does before its ranges: nothing outside the object, and
there it has a cache. -/
theorem readFile_wp {Q : Reply → MtpFs → E → Prop} {X : Errno → MtpFs → E → Prop}
    (h : ReadsRanged D ino fh fs) (hG : G e .createTemp)
    (hX : ∀ fault e', R e .createTemp (some fault) e' → X .eio fs e')
    (hnone : slice D offset size = [] → Q (.data []) fs e)
    (hread : ∀ c fs' e', Backed fs.link.inodes ino c D fs' → fs'.link = fs.link →
      Attempt.wp R G (readRanged ino c D.length offset size) (fun data => Q (.data data)) X fs' e') :
    Attempt.wp R G (readFile ino fh offset size) Q X fs e := by
  obtain ⟨entry, a, he, hk, hsize⟩ := h.file
  have hdir : entry.isDir = false := by
    rw [InodeEntry.isDir, hk]
  have hstrategy : fs.readStrategyFor entry.size = .ranged := by
    rw [MtpFs.readStrategyFor, readStrategy, if_pos h.partialDownload]
  unfold readFile readObject
  simp only [Attempt.wp_bind, Attempt.wp_get, h.noBuffer, Bool.false_eq_true, if_false,
    Attempt.wp_map, he, hdir, refuseIf_wp, not_false_eq_true, forall_const, false_implies, true_and]
  split
  · rename_i hout
    refine hnone (List.eq_nil_of_length_eq_zero ?_)
    rw [length_slice]
    omega
  · simp only [Attempt.wp_bind]
    rw [hsize]
    refine Attempt.wp_mono (cacheFor_backed h hG hX) ?_ fun _ _ _ h' => h'
    rintro c fs₁ e₁ ⟨hb, hl⟩
    rw [← hsize, hstrategy, hsize]
    exact hread c fs₁ e₁ hb hl

theorem readFile_exact (hserves : ServesContent R D) (h : ReadsRanged D ino fh fs) :
    Attempt.wp R (CallsEnd fs.link.inodes ino) (readFile ino fh offset size)
      (fun r fs' _ => r = .data (slice D offset size) ∧ CacheAgrees ino D fs')
      (fun _ fs' _ => CacheAgrees ino D fs') fs e := by
  have hcache : CacheAgrees ino D fs := fun c hc => (h.cache c hc).2
  refine readFile_wp h ⟨rfl, fun h => by cases h⟩ (fun _ _ _ => hcache) (fun hnil => ⟨by rw [hnil], hcache⟩) ?_
  intro c fs₁ e₁ hb _
  refine Attempt.wp_mono (readRanged_exact (serving_backed hserves) h.limit offset size hb) ?_ ?_
  · rintro data fs₂ e₂ ⟨rfl, hb₂⟩
    exact ⟨rfl, hb₂.cacheAgrees⟩
  · intro _ fs₂ e₂ hb₂
    exact hb₂.cacheAgrees

theorem readFile_whole (hserves : ServesContent R D) (h : ReadsRanged D ino fh fs)
    (hn : NeverFails R D ino fs.link) :
    Attempt.wp R (fun _ _ => True) (readFile ino fh offset size)
      (fun r _ _ => r = .data (slice D offset size)) (fun _ _ _ => False) fs e := by
  refine readFile_wp h trivial (fun fault e' hr => ?_) (fun hnil => by rw [hnil]) ?_
  · cases hn.createTemp hr
  · intro c fs₁ e₁ hb hl
    have hready : Ready ino fs.link fs₁.link := by
      rw [hl]
      exact .refl ino fs.link
    refine Attempt.wp_mono (readRanged_whole hn hserves h.isFile h.limit offset size hb hready) ?_
      fun _ _ _ hno => hno
    rintro data fs₂ e₂ rfl
    rfl

/-- A read of a file whose device answers ranges with its content, whatever else it
does: more turns than bytes change nothing, no call panics, and none hangs unless
the parents of the inode go round in a circle; the reply is the content or an error,
and the content when nothing fails; the cache agrees with the content after it. -/
theorem ranged_read_exact (hserves : ServesContent R D) (h : ReadsRanged D ino fh fs) :
    (∀ c stop fuel cursor, stop - cursor ≤ fuel →
      fetchRange ino c D.length stop fuel cursor =
        fetchRange ino c D.length stop (stop - cursor) cursor) ∧
    (∀ call e', Prog.Makes R (dispatch (.read ino fh offset size) fs) e call e' →
      call.isPanic = false ∧ (call = .hang → ¬ fs.link.inodes.Grounded ino)) ∧
    ∀ reply fs' e', Prog.Ends R (dispatch (.read ino fh offset size) fs) e (reply, fs') e' →
      (reply = .data (slice D offset size) ∨ ∃ err, reply = .error err) ∧
      (∀ c, fs'.files.readCache.lookup ino = some c → (fs'.files.cacheAt c).cache.Agrees D) ∧
      (NeverFails R D ino fs.link → reply = .data (slice D offset size)) := by
  have hwp : Act.wp R (CallsEnd fs.link.inodes ino) (dispatch (.read ino fh offset size))
      (fun r fs' _ => (r = .data (slice D offset size) ∨ ∃ err, r = .error err) ∧
        CacheAgrees ino D fs') fs e := by
    refine dispatch_wp.mpr (Attempt.wp_mono (readFile_exact hserves h) ?_ ?_)
    · rintro r fs' e' ⟨hr, hc⟩
      exact ⟨.inl hr, hc⟩
    · intro err fs' e' hc
      exact ⟨.inr ⟨err, rfl⟩, hc⟩
  refine ⟨fun c stop fuel cursor hle => fetchRange_enough hle le_rfl,
    fun call e' hm => Prog.wp_makes (G := CallsEnd fs.link.inodes ino) hwp hm,
    fun reply fs' e' hrun => ?_⟩
  obtain ⟨hreply, hcache⟩ := Act.wp_ends hwp hrun
  refine ⟨hreply, hcache, fun hn => ?_⟩
  have hwhole : Act.wp R (fun _ _ => True) (dispatch (.read ino fh offset size))
      (fun r _ _ => r = .data (slice D offset size)) fs e :=
    dispatch_wp.mpr (Attempt.wp_mono (readFile_whole hserves h hn) (fun _ _ _ hr => hr)
      fun _ _ _ hno => hno.elim)
  exact Act.wp_ends hwhole hrun

end Callback

/-- A phone with the file `a` on its card, freshly listed. -/
def listedCard : MtpFs :=
  { writableMount with link :=
    { cardLink with inodes := (cardLink.inodes.addObject 2 ⟨7⟩ "a" false 3 0).2 } }

/-- It answers its first and its last byte alone, and from the second on more than it has. -/
def bytewise (_ : List Event) : (c : Call) → Option (Answer c)
  | .readRange _ _ 0 _ => some (.ok [1])
  | .readRange _ _ 1 _ => some (.ok [2, 3, 9])
  | .readRange _ _ 2 _ => some (.ok [3])
  | .readRange .. => some (.ok [])
  | c => undisturbed c

/-- The environment of that phone. -/
abbrev Bytewise (tr : List Event) (c : Call) (a : Answer c) (tr' : List Event) : Prop :=
  script bytewise tr c = some (a, tr')

theorem bytewise_answers {tr : List Event} {storage : Storage} {handle : ObjectHandle}
    {cursor n : Nat} {answer : Except Error Bytes} {tr' : List Event}
    (hr : Bytewise tr (.readRange storage handle cursor n) answer tr') :
    ∃ bytes, answer = .ok bytes ∧ (cursor < 3 → bytes ≠ []) ∧ ∀ i < bytes.length,
      cursor + i < 3 → bytes.getD i 0 = [1, 2, 3].getD (cursor + i) 0 := by
  obtain ⟨answer', ha, hb⟩ := Option.map_eq_some_iff.mp hr
  cases hb
  rcases cursor with _ | _ | _ | cursor <;> cases ha
  · exact ⟨_, rfl, nofun, by decide⟩
  · exact ⟨_, rfl, nofun, by decide⟩
  · exact ⟨_, rfl, nofun, by decide⟩
  · exact ⟨_, rfl, fun h => by omega, nofun⟩

theorem bytewise_neverFails : NeverFails Bytewise [1, 2, 3] 3 listedCard.link where
  plugged := fun hr => by cases hr; rfl
  createTemp := fun hr => by cases hr; rfl
  writeTemp := fun hr => by cases hr; rfl
  readTemp := fun hr => by cases hr; rfl
  storage := ⟨0, by rfl⟩
  listed := fun hf => nomatch hf
  serves := fun hr => by
    obtain ⟨bytes, hok, hsome, -⟩ := bytewise_answers hr
    exact ⟨bytes, hok, fun _ => hsome⟩

/-- A read past the end of the file, in two chunks of which the second is too long. -/
theorem ranged_read_exact_bytewise : ∃ fs' tr',
    Prog.Ends Bytewise (dispatch (.read 3 1 0 5) listedCard) [] (.data [1, 2, 3], fs') tr' ∧
      (∃ c, fs'.files.readCache.lookup 3 = some c) ∧
      ∀ c, fs'.files.readCache.lookup 3 = some c →
        (fs'.files.cacheAt c).cache.Agrees [1, 2, 3] := by
  have ht : ((dispatch (.read 3 1 0 5) listedCard).runWith (script bytewise) []).any
      (fun r => (r.1.2.files.readCache.lookup 3).isSome) = true := by rfl
  obtain ⟨⟨⟨reply, fs'⟩, tr'⟩, hrun, hcached⟩ := (Option.any_eq_true _ _).mp ht
  have hends := Prog.runWith_ends (R := Bytewise) (fun _ _ _ _ h => h) hrun
  have hreads : ReadsRanged [1, 2, 3] 3 1 listedCard :=
    ⟨⟨_, ⟨7⟩, rfl, rfl, rfl⟩, by decide, rfl, rfl, nofun⟩
  have hserves : ServesContent Bytewise [1, 2, 3] := by
    intro tr storage handle cursor n bytes tr'' hr
    obtain ⟨bytes', hok, -, hbytes⟩ := bytewise_answers hr
    cases hok
    exact hbytes
  obtain ⟨-, hcache, hwhole⟩ := (ranged_read_exact hserves hreads).2.2 reply fs' tr' hends
  cases hwhole bytewise_neverFails
  exact ⟨fs', tr', hends, Option.isSome_iff_exists.mp hcached, hcache⟩

end MtpMount
