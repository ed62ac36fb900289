import MtpMount.Fill
import MtpMount.Lib.Transitions

/-!
# Downloads under every schedule

Readers on the whole-object path, filler tasks and teardown, each a sequence of
steps, in any interleaving. A step is what one party does under one lock, or
what the device answers it; the parties share the caches, the tracker and the
maps of open files, and use the operations of these.

* `Slots`: the fill slot of a cache has one holder while the cache is
  `Running`, and none otherwise;
* `Schedule.slots`: that holds in every state of every schedule.
-/

namespace MtpMount

/-- Where a `read` callback on the whole-object path is. -/
inductive ReaderPhase where
  /-- About to claim the fill slot. -/
  | startFill
  /-- Has the slot, about to register with the tracker. -/
  | register
  /-- Teardown has begun; about to fail the cache. -/
  | refused
  /-- Registered, waiting for the device to open the download. -/
  | openDownload
  /-- The device refused; about to fail the cache. -/
  | openFailed (e : Error)
  /-- The cache has failed; about to tell the tracker. -/
  | deregister
  /-- In `wait_and_read`, about to look. -/
  | wait
  /-- In `wait_and_read`, parked until it is woken. -/
  | parked
  /-- Recovering the session. -/
  | recover
  /-- About to make the failed cache eligible again. -/
  | reset
  deriving DecidableEq, Repr

/-- A `read` callback in flight. -/
structure Reader where
  inode : Nat
  fh : Nat
  cache : Nat
  thread : Nat
  offset : Nat
  size : Nat
  /-- `link_retries_remaining`. -/
  retries : Nat
  phase : ReaderPhase
  deriving DecidableEq, Repr

namespace Reader

/-- The reader holds the fill slot of its cache. -/
def claims (r : Reader) : Bool :=
  match r.phase with
  | .register | .refused | .openDownload | .openFailed _ => true
  | _ => false

def goTo (r : Reader) (phase : ReaderPhase) : Reader := { r with phase }

/-- Its thread is parked, and nobody has woken it. -/
def blocked (r : Reader) (f : Files) : Bool :=
  r.phase == .parked && (f.cacheAt r.cache).isParked r.thread

/-- After a pass of `wait_and_read`: parked, replied, or on to a recovery. -/
def afterWait (r : Reader) : Option (Except FillFailure Bytes) → Option Reader
  | none => some (r.goTo .parked)
  | some (.ok _) => none
  | some (.error failure) =>
    if failure.linkLost ∧ 0 < r.retries then some (r.goTo .recover) else none

/-- One step; `none` once the callback has replied. `answer` is what the device
says where the step asks it: to a download, or to a recovery. -/
def step (r : Reader) (answer : Except Error (List StreamItem)) (fault : Option IoError)
    (f : Files) : Option Reader × Files :=
  let c := f.cacheAt r.cache
  match r.phase with
  | .startFill =>
    (some (r.goTo (if c.startFill.1 then .register else .wait)), f.setCache r.cache c.startFill.2)
  | .register =>
    (some (r.goTo (if (f.fills.register r.cache).1 then .openDownload else .refused)),
      { f with fills := (f.fills.register r.cache).2 })
  | .refused => (some (r.goTo .wait), f.setCache r.cache (c.fail GOING_AWAY))
  | .openDownload =>
    match answer with
    | .error e => (some (r.goTo (.openFailed e)), f)
    | .ok stream => (some (r.goTo .wait), f.spawnFiller r.inode r.cache stream)
  | .openFailed e =>
    (some (r.goTo .deregister), f.setCache r.cache (c.fail ⟨.device e, isLinkLost e⟩))
  | .deregister => (some (r.goTo .wait), { f with fills := f.fills.finished r.cache })
  | .wait | .parked =>
    (r.afterWait (c.tryRead r.thread r.offset r.size fault).1,
      f.setCache r.cache (c.tryRead r.thread r.offset r.size fault).2)
  | .recover =>
    match answer with
    | .ok _ => (some (r.goTo .reset), f)
    | .error _ => (none, f)
  | .reset =>
    (if c.resetAfterLinkLoss.1 then some { r.goTo .startFill with retries := r.retries - 1 }
      else none,
      f.setCache r.cache c.resetAfterLinkLoss.2)

end Reader

/-- Where the one call of `stop_and_wait` is. -/
inductive Teardown where
  | working
  | waiting
  | returned (finished : Bool)
  deriving DecidableEq, Repr

structure Downloads where
  files : Files
  readers : HashMap Nat Reader
  nextReader : Nat
  teardown : Teardown

/-- What may happen next. -/
inductive Action where
  | openFile (inode : Nat)
  /-- A `read` callback finds the cache of the inode, or makes one. -/
  | read (inode fh offset size totalSize : Nat)
  | reader (id : Nat) (answer : Except Error (List StreamItem)) (fault : Option IoError)
  /-- A parked reader wakes up by itself. -/
  | wakeUp (id : Nat)
  | filler (id : Nat) (fault : Option WriteFault)
  | release (fh : Nat)
  /-- `stop_and_wait` up to its wait. -/
  | stop
  /-- One turn of the wait. -/
  | wake (timedOut : Bool)

namespace Downloads

def new : Downloads := ⟨.new, ∅, 0, .working⟩

/-- The cache that a read of the inode uses. -/
def cacheFor (f : Files) (inode totalSize : Nat) : Nat × Files :=
  match f.readCache.lookup inode with
  | some c => (c, f)
  | none => f.addCache inode totalSize

/-- A handle is read while it is open, and released when no read on it is in
flight; otherwise any party that is not blocked may go next. -/
def step (s : Downloads) : Action → Option Downloads
  | .openFile inode =>
    some { s with files := s.files.allocFh.2.openHandle s.files.allocFh.1 inode }
  | .read inode fh offset size totalSize =>
    if s.files.fhToInode.lookup fh = some inode then
      let (cache, files) := cacheFor s.files inode totalSize
      some { s with
        files
        readers := s.readers.insert s.nextReader
          { inode, fh, cache, thread := s.nextReader, offset, size, retries := 1,
            phase := .startFill }
        nextReader := s.nextReader + 1 }
    else none
  | .reader id answer fault =>
    match s.readers.lookup id with
    | none => none
    | some r =>
      if r.blocked s.files then none
      else
        match r.step answer fault s.files with
        | (some r', files) => some { s with files, readers := s.readers.insert id r' }
        | (none, files) => some { s with files, readers := s.readers.erase id }
  | .wakeUp id =>
    match s.readers.lookup id with
    | none => none
    | some r =>
      some { s with files := s.files.setCache r.cache ((s.files.cacheAt r.cache).wakeUp r.thread) }
  | .filler id fault => some { s with files := s.files.fillerStep id fault }
  | .release fh =>
    if s.readers.values.any (fun r => r.fh == fh) then none
    else some { s with files := s.files.closeHandle fh }
  | .stop =>
    if s.teardown = .working then some { s with files := s.files.stopFills, teardown := .waiting }
    else none
  | .wake timedOut =>
    if s.teardown = .waiting then
      if s.files.fills.live = [] then some { s with teardown := .returned true }
      else if timedOut then some { s with teardown := .returned false }
      else some s
    else none

end Downloads

/-- The states that a schedule reaches whose every step was `allowed`. -/
abbrev Schedule (allowed : Downloads → Action → Prop) : Downloads → Prop :=
  Transitions.Run Downloads.step allowed .new

/-! ## What a reader does -/

/-- The effect of one step of a reader. -/
inductive Reader.Does (r : Reader) (f : Files) : Option Reader → Files → Prop
  /-- Touches its cache without giving the slot away. -/
  | look {o : Option Reader} {v : SharedSparseCache} :
      ((f.cacheAt r.cache).fill = .running → v.fill = .running) →
      (∀ r', o = some r' → r'.claims = false) → r.claims = false →
      Does r f o (f.setCache r.cache v)
  | claim {v : SharedSparseCache} :
      (f.cacheAt r.cache).fill = .idle → v.fill = .running → r.claims = false →
      Does r f (some (r.goTo .register)) (f.setCache r.cache v)
  | giveUp {r' : Reader} {v : SharedSparseCache} :
      r.claims = true → r'.claims = false → Does r f (some r') (f.setCache r.cache v)
  | register :
      r.phase = .register →
      Does r f (some (r.goTo (if (f.fills.register r.cache).1 then .openDownload else .refused)))
        { f with fills := (f.fills.register r.cache).2 }
  | opened {stream : List StreamItem} :
      r.phase = .openDownload →
      Does r f (some (r.goTo .wait)) (f.spawnFiller r.inode r.cache stream)
  | moved {o : Option Reader} :
      (∀ r', o = some r' → r'.claims = true → r.claims = true) → Does r f o f
  | deregister :
      r.phase = .deregister →
      Does r f (some (r.goTo .wait)) { f with fills := f.fills.finished r.cache }

namespace Reader

variable {r r' : Reader} {answer : Except Error (List StreamItem)} {fault : Option IoError}
  {f : Files}

/-- A reader that waited parks or goes on to a recovery. -/
theorem afterWait_cases {o : Option (Except FillFailure Bytes)} (h : r.afterWait o = some r') :
    r' = r.goTo .parked ∨ r' = r.goTo .recover := by
  unfold afterWait at h
  split at h
  · exact .inl (Option.some.inj h).symm
  · cases h
  · split at h
    · exact .inr (Option.some.inj h).symm
    · cases h

theorem step_does (r : Reader) (answer : Except Error (List StreamItem))
    (fault : Option IoError) (f : Files) :
    Does r f (r.step answer fault f).1 (r.step answer fault f).2 := by
  unfold step
  split <;> rename_i hp <;> dsimp only
  · have hr : r.claims = false := by rw [claims, hp]
    cases hs : (f.cacheAt r.cache).startFill.1 with
    | true =>
      obtain ⟨hi, hv⟩ := SharedSparseCache.fill_startFill hs
      exact .claim hi hv hr
    | false =>
      refine .look (fun h => ?_) (fun r' h => ?_) hr
      · rw [SharedSparseCache.startFill_of_false hs, h]
      · cases h
        rfl
  · exact .register hp
  · exact .giveUp (by rw [claims, hp]) rfl
  · split
    · exact .moved fun _ _ _ => by rw [claims, hp]
    · exact .opened hp
  · exact .giveUp (by rw [claims, hp]) rfl
  · exact .deregister hp
  · have hr : r.claims = false := by rw [claims, hp]
    refine .look (fun h => (SharedSparseCache.fill_tryRead ..).trans h) (fun r' h => ?_) hr
    rcases afterWait_cases h with rfl | rfl <;> rfl
  · have hr : r.claims = false := by rw [claims, hp]
    refine .look (fun h => (SharedSparseCache.fill_tryRead ..).trans h) (fun r' h => ?_) hr
    rcases afterWait_cases h with rfl | rfl <;> rfl
  · split
    · refine .moved fun r' h hc => ?_
      cases h
      cases hc
    · exact .moved fun r' h _ => nomatch h
  · have hr : r.claims = false := by rw [claims, hp]
    refine .look (SharedSparseCache.fill_resetAfterLinkLoss _).mpr (fun r' h => ?_) hr
    split at h
    · cases h
      rfl
    · cases h

/-- A reader stays what it is. -/
theorem step_party (h : (r.step answer fault f).1 = some r') :
    r'.inode = r.inode ∧ r'.fh = r.fh ∧ r'.cache = r.cache := by
  unfold step at h
  split at h <;> dsimp only at h
  · cases h
    exact ⟨rfl, rfl, rfl⟩
  · cases h
    exact ⟨rfl, rfl, rfl⟩
  · cases h
    exact ⟨rfl, rfl, rfl⟩
  · split at h <;> cases h <;> exact ⟨rfl, rfl, rfl⟩
  · cases h
    exact ⟨rfl, rfl, rfl⟩
  · cases h
    exact ⟨rfl, rfl, rfl⟩
  · rcases afterWait_cases h with rfl | rfl <;> exact ⟨rfl, rfl, rfl⟩
  · rcases afterWait_cases h with rfl | rfl <;> exact ⟨rfl, rfl, rfl⟩
  · split at h <;> cases h
    exact ⟨rfl, rfl, rfl⟩
  · split at h <;> cases h
    exact ⟨rfl, rfl, rfl⟩

/-- It opens a download only once it is registered. -/
theorem phase_of_step_openDownload (h : (r.step answer fault f).1 = some r')
    (hp : r'.phase = .openDownload) :
    r.phase = .register ∧ (f.fills.register r.cache).1 = true := by
  unfold step at h
  split at h <;> rename_i hr <;> dsimp only at h
  · cases h
    simp only [goTo] at hp
    split at hp <;> cases hp
  · cases h
    simp only [goTo] at hp
    split at hp
    · exact ⟨hr, ‹_›⟩
    · cases hp
  · cases h
    cases hp
  · split at h <;> cases h <;> cases hp
  · cases h
    cases hp
  · cases h
    cases hp
  · rcases afterWait_cases h with rfl | rfl <;> cases hp
  · rcases afterWait_cases h with rfl | rfl <;> cases hp
  · split at h <;> cases h
    cases hp
  · split at h <;> cases h
    cases hp

/-- A step of a reader leaves the maps of open files alone. -/
theorem Does.same {o : Option Reader} {f' : Files} (h : Does r f o f') : Files.Same f f' := by
  cases h <;> exact ⟨rfl, rfl, rfl⟩

theorem Does.nextFh {o : Option Reader} {f' : Files} (h : Does r f o f') : f'.nextFh = f.nextFh := by
  cases h <;> rfl

/-- The only filler it spawns is on its own inode and cache. -/
theorem Does.fillers {o : Option Reader} {f' : Files} (h : Does r f o f') {id : Nat}
    {filler : Filler} (hl : f'.fillers.lookup id = some filler) :
    f.fillers.lookup id = some filler ∨
      (r.phase = .openDownload ∧ filler.inode = r.inode ∧ filler.cache = r.cache) := by
  cases h with
  | opened hp =>
    simp only [Files.spawnFiller, HashMap.lookup_insert] at hl
    split at hl
    · cases hl
      exact .inr ⟨hp, rfl, rfl⟩
    · exact .inl hl
  | look | claim | giveUp | register | moved | deregister => exact .inl hl

end Reader

/-! ## The fill slot -/

namespace Downloads

/-- The party, a reader (`inl`) or a filler (`inr`), holds the fill slot of the cache. -/
def Holds (s : Downloads) : Nat ⊕ Nat → Nat → Prop
  | .inl id, c => ∃ r, s.readers.lookup id = some r ∧ r.claims = true ∧ r.cache = c
  | .inr id, c => ∃ f, s.files.fillers.lookup id = some f ∧ f.downloading = true ∧ f.cache = c

/-- The slot of the cache has at most one holder, and one only while the cache is `Running`. -/
def Slot (s : Downloads) (c : Nat) : Prop :=
  ∀ p q, s.Holds p c → s.Holds q c → (s.files.cacheAt c).fill = .running ∧ p = q

/-- The parties and maps speak of caches that were made. -/
structure Made (s : Downloads) : Prop where
  shared : ∀ i c, s.files.readCache.lookup i = some c → c < s.files.nextCache
  read : ∀ id r, s.readers.lookup id = some r → r.cache < s.files.nextCache
  filled : ∀ id f, s.files.fillers.lookup id = some f → f.cache < s.files.nextCache

structure Slots (s : Downloads) : Prop extends Made s where
  slot : ∀ c, s.Slot c

variable {s s' : Downloads} {c : Nat}

theorem Made.holds (h : s.Made) {p : Nat ⊕ Nat} (hp : s.Holds p c) : c < s.files.nextCache := by
  cases p with
  | inl id =>
    obtain ⟨r, hr, -, rfl⟩ := hp
    exact h.read id r hr
  | inr id =>
    obtain ⟨f, hf, -, rfl⟩ := hp
    exact h.filled id f hf

/-- The holders are no more than before, and the cache runs on. -/
theorem Slot.mono (h : s.Slot c) (hh : ∀ p, s'.Holds p c → s.Holds p c)
    (hr : (s.files.cacheAt c).fill = .running → (s'.files.cacheAt c).fill = .running) :
    s'.Slot c := fun p q hp hq =>
  have ⟨hrun, hpq⟩ := h p q (hh p hp) (hh q hq)
  ⟨hr hrun, hpq⟩

/-- One party alone holds the slot. -/
theorem Slot.only (p₀ : Nat ⊕ Nat) (hh : ∀ p, s'.Holds p c → p = p₀)
    (hr : (s'.files.cacheAt c).fill = .running) : s'.Slot c :=
  fun p q hp hq => ⟨hr, (hh p hp).trans (hh q hq).symm⟩

/-- Nobody holds the slot. -/
theorem Slot.free (hh : ∀ p, ¬ s'.Holds p c) : s'.Slot c := fun p _ hp => absurd hp (hh p)

/-! ### The steps of a reader -/

/-- The reader `id` is replaced by `o`. -/
def putReader (m : HashMap Nat Reader) (id : Nat) : Option Reader → HashMap Nat Reader
  | some r => m.insert id r
  | none => m.erase id

theorem lookup_putReader (m : HashMap Nat Reader) (id : Nat) (o : Option Reader) (id' : Nat) :
    (putReader m id o).lookup id' = if id' = id then o else m.lookup id' := by
  cases o with
  | some r => exact HashMap.lookup_insert m id id' r
  | none => exact HashMap.lookup_erase m id id'

/-- A step of a reader is one of a reader that is not blocked. -/
theorem step_reader {id : Nat} {answer : Except Error (List StreamItem)} {fault : Option IoError}
    (ha : s.step (.reader id answer fault) = some s') :
    ∃ r, s.readers.lookup id = some r ∧ r.blocked s.files = false ∧ s' = { s with
      files := (r.step answer fault s.files).2
      readers := putReader s.readers id (r.step answer fault s.files).1 } := by
  simp only [step] at ha
  split at ha
  · cases ha
  · rename_i r hr
    split at ha
    · cases ha
    · rename_i hb
      refine ⟨r, hr, Bool.eq_false_iff.mpr hb, ?_⟩
      rcases h : r.step answer fault s.files with ⟨_ | r', files⟩
      · rw [h] at ha
        exact (Option.some.inj ha).symm
      · rw [h] at ha
        exact (Option.some.inj ha).symm

theorem step_wakeUp {id : Nat} (ha : s.step (.wakeUp id) = some s') : ∃ r : Reader, s' = { s with
    files := s.files.setCache r.cache ((s.files.cacheAt r.cache).wakeUp r.thread) } := by
  simp only [step] at ha
  split at ha
  · cases ha
  · exact ⟨_, (Option.some.inj ha).symm⟩

/-- Waking up does not touch a fill. -/
theorem fill_wakeUp (f : Files) (c thread c' : Nat) :
    ((f.setCache c ((f.cacheAt c).wakeUp thread)).cacheAt c').fill = (f.cacheAt c').fill := by
  rw [Files.cacheAt_setCache]
  split
  · rename_i hc
    rw [hc]
    rfl
  · rfl

/-- Who holds a slot after a step of the reader `id`. -/
theorem holds_putReader {id : Nat} {o : Option Reader} {files : Files} {p : Nat ⊕ Nat}
    (hf : files.fillers = s.files.fillers)
    (h : Holds { s with files, readers := putReader s.readers id o } p c) :
    (p ≠ .inl id ∧ s.Holds p c) ∨
      (p = .inl id ∧ ∃ r', o = some r' ∧ r'.claims = true ∧ r'.cache = c) := by
  cases p with
  | inl id' =>
    obtain ⟨r', hr', hc, hcache⟩ := h
    rw [lookup_putReader] at hr'
    split at hr'
    · rename_i hid
      exact .inr ⟨by rw [hid], r', hr', hc, hcache⟩
    · rename_i hid
      exact .inl ⟨by simpa using hid, r', hr', hc, hcache⟩
  | inr id' =>
    obtain ⟨f, hl, hd, hcache⟩ := h
    exact .inl ⟨nofun, f, hf ▸ hl, hd, hcache⟩

/-- An opened download hands the slot to its filler. -/
theorem holds_opened {id : Nat} {r : Reader} {stream : List StreamItem} {p : Nat ⊕ Nat}
    (hp : Holds { s with
      files := s.files.spawnFiller r.inode r.cache stream
      readers := putReader s.readers id (some (r.goTo .wait)) } p c) :
    (p ≠ .inl id ∧ s.Holds p c) ∨ (p = .inr s.files.nextFiller ∧ c = r.cache) := by
  cases p with
  | inl id' =>
    obtain ⟨r', hl, hc', hcache⟩ := hp
    rw [lookup_putReader] at hl
    split at hl
    · cases hl
      cases hc'
    · rename_i hid
      exact .inl ⟨by simpa using hid, r', hl, hc', hcache⟩
  | inr id' =>
    obtain ⟨f, hl, hd, hcache⟩ := hp
    simp only [Files.spawnFiller, HashMap.lookup_insert] at hl
    split at hl
    · rename_i hid
      cases hl
      exact .inr ⟨by rw [hid], hcache.symm⟩
    · exact .inl ⟨nofun, f, hl, hd, hcache⟩

theorem Slots.slot_reader (h : s.Slots) {id : Nat} {r : Reader}
    (hr : s.readers.lookup id = some r) (answer : Except Error (List StreamItem))
    (fault : Option IoError) (c : Nat) :
    Slot { s with
      files := (r.step answer fault s.files).2
      readers := putReader s.readers id (r.step answer fault s.files).1 } c := by
  have hparty : ∀ r', (r.step answer fault s.files).1 = some r' →
      r'.inode = r.inode ∧ r'.fh = r.fh ∧ r'.cache = r.cache := fun _ h => Reader.step_party h
  have hown : r.claims = true → r.cache = c → s.Holds (.inl id) c :=
    fun hc hcache => ⟨r, hr, hc, hcache⟩
  have hdoes := r.step_does answer fault s.files
  generalize hstep : r.step answer fault s.files = res at hdoes hparty ⊢
  obtain ⟨o, files⟩ := res
  -- a step that leaves the other parties' claims as they are
  have hmono : files.fillers = s.files.fillers →
      (∀ r', o = some r' → r'.claims = true → r.claims = true) →
      ((s.files.cacheAt c).fill = .running → (files.cacheAt c).fill = .running) →
      Slot { s with files, readers := putReader s.readers id o } c := by
    intro hf hclaims hrun
    refine (h.slot c).mono (fun p hp => ?_) hrun
    rcases holds_putReader hf hp with ⟨-, hp⟩ | ⟨rfl, r', ho, hc, hcache⟩
    · exact hp
    · exact hown (hclaims r' ho hc) ((hparty r' ho).2.2 ▸ hcache)
  dsimp only at hdoes hparty ⊢
  cases hdoes with
  | look hfill ho _ =>
    refine hmono rfl (fun r' h' hc => ?_) fun hrun => ?_
    · rw [ho r' h'] at hc
      cases hc
    · rw [Files.cacheAt_setCache]
      split
      · rename_i hc
        exact hfill (hc ▸ hrun)
      · exact hrun
  | claim hidle hv hclaims =>
    by_cases hc : c = r.cache
    · refine .only (.inl id) (fun p hp => ?_) (by rw [Files.cacheAt_setCache, if_pos hc, hv])
      rcases holds_putReader rfl hp with ⟨-, hp⟩ | ⟨hp, -⟩
      · have := (h.slot c p p hp hp).1
        rw [hc, hidle] at this
        cases this
      · exact hp
    · refine (h.slot c).mono (fun p hp => ?_) fun hrun => by
        rwa [Files.cacheAt_setCache, if_neg hc]
      rcases holds_putReader rfl hp with ⟨-, hp⟩ | ⟨-, r', ho, -, hcache⟩
      · exact hp
      · exact absurd (hcache.symm.trans (hparty r' ho).2.2) hc
  | giveUp hclaims hclaims' =>
    by_cases hc : c = r.cache
    · refine .free fun p hp => ?_
      rcases holds_putReader rfl hp with ⟨hne, hp⟩ | ⟨-, r', ho, hc', -⟩
      · exact hne (h.slot c p (.inl id) hp (hown hclaims hc.symm)).2
      · cases ho
        rw [hclaims'] at hc'
        cases hc'
    · exact hmono rfl (fun _ _ _ => hclaims) fun hrun => by
        rwa [Files.cacheAt_setCache, if_neg hc]
  | register hp => exact hmono rfl (fun _ _ _ => by rw [Reader.claims, hp]) fun hrun => hrun
  | opened hp =>
    have hclaims : r.claims = true := by rw [Reader.claims, hp]
    by_cases hc : c = r.cache
    · have hrun := (h.slot c _ _ (hown hclaims hc.symm) (hown hclaims hc.symm)).1
      refine .only (.inr s.files.nextFiller) (fun p hp => ?_) hrun
      rcases holds_opened hp with ⟨hne, hp⟩ | ⟨hp, -⟩
      · exact absurd (h.slot c p (.inl id) hp (hown hclaims hc.symm)).2 hne
      · exact hp
    · refine (h.slot c).mono (fun p hp => ?_) fun hrun => hrun
      rcases holds_opened hp with ⟨-, hp⟩ | ⟨-, hc'⟩
      · exact hp
      · exact absurd hc' hc
  | moved hclaims => exact hmono rfl hclaims fun hrun => hrun
  | deregister hp =>
    refine hmono rfl (fun r' h' hc => ?_) fun hrun => hrun
    cases h'
    cases hc

theorem Made.reader (h : s.Made) {id : Nat} {r : Reader} (hr : s.readers.lookup id = some r)
    (answer : Except Error (List StreamItem)) (fault : Option IoError) :
    Made { s with
      files := (r.step answer fault s.files).2
      readers := putReader s.readers id (r.step answer fault s.files).1 } := by
  have hdoes := r.step_does answer fault s.files
  have hsame := hdoes.same
  refine ⟨fun i c hl => ?_, fun id' r' hl => ?_, fun id' f hl => ?_⟩
  · rw [hsame.readCache] at hl
    rw [hsame.nextCache]
    exact h.shared i c hl
  · rw [hsame.nextCache]
    rw [lookup_putReader] at hl
    split at hl
    · rw [(Reader.step_party hl).2.2]
      exact h.read id r hr
    · exact h.read id' r' hl
  · rw [hsame.nextCache]
    rcases hdoes.fillers hl with hl | ⟨-, -, hc⟩
    · exact h.filled id' f hl
    · rw [hc]
      exact h.read id r hr

/-! ### The steps of a filler -/

/-- Who holds a slot after the filler `id` became `o`. -/
theorem holds_putFiller {id : Nat} {o : Option Filler} {files : Files} {p : Nat ⊕ Nat}
    (hl : ∀ id', files.fillers.lookup id' = if id' = id then o else s.files.fillers.lookup id')
    (h : Holds { s with files } p c) :
    (p ≠ .inr id ∧ s.Holds p c) ∨
      (p = .inr id ∧ ∃ f, o = some f ∧ f.downloading = true ∧ f.cache = c) := by
  cases p with
  | inl id' => exact .inl ⟨nofun, h⟩
  | inr id' =>
    obtain ⟨f, hf, hd, hc⟩ := h
    rw [hl] at hf
    split at hf
    · rename_i hid
      exact .inr ⟨by rw [hid], f, hf, hd, hc⟩
    · rename_i hid
      exact .inl ⟨by simpa using hid, f, hf, hd, hc⟩

/-- A filler that no longer downloads leaves the slots of the others alone. -/
theorem Slots.endFiller (h : s.Slots) {id : Nat} {o : Option Filler} {files : Files}
    (hl : ∀ id', files.fillers.lookup id' = if id' = id then o else s.files.fillers.lookup id')
    (ho : ∀ f, o = some f → f.downloading = false ∧ f.cache < s.files.nextCache)
    (hnext : files.nextCache = s.files.nextCache)
    (hshared : ∀ i c, files.readCache.lookup i = some c → s.files.readCache.lookup i = some c)
    (hfill : ∀ c, ¬ s.Holds (.inr id) c → (s.files.cacheAt c).fill = .running →
      (files.cacheAt c).fill = .running) : Slots { s with files } := by
  have hholds : ∀ {p c}, Holds { s with files } p c → p ≠ .inr id ∧ s.Holds p c := by
    intro p c hp
    rcases holds_putFiller hl hp with hp | ⟨-, f, hf, hd, -⟩
    · exact hp
    · rw [(ho f hf).1] at hd
      cases hd
  refine ⟨⟨fun i c hc => ?_, fun id' r hr => ?_, fun id' f hf => ?_⟩, fun c => ?_⟩
  · exact hnext ▸ h.shared i c (hshared i c hc)
  · exact hnext ▸ h.read id' r hr
  · rw [hl] at hf
    split at hf
    · exact hnext ▸ (ho f hf).2
    · exact hnext ▸ h.filled id' f hf
  · by_cases hc : s.Holds (.inr id) c
    · exact .free fun p hp => (hholds hp).1 (h.slot c p (.inr id) (hholds hp).2 hc).2
    · exact (h.slot c).mono (fun p hp => (hholds hp).2) (hfill c hc)

theorem Slots.filler (h : s.Slots) (id : Nat) (fault : Option WriteFault) :
    Slots { s with files := s.files.fillerStep id fault } := by
  have hdoes := s.files.fillerStep_does id fault
  generalize s.files.fillerStep id fault = files at hdoes ⊢
  cases hdoes with
  | gone => exact h
  | @stream filler filler' v hf hd hi hc hends =>
    have hfill : ∀ c, ¬ s.Holds (.inr id) c → (s.files.cacheAt c).fill = .running →
        ((s.files.setCache filler.cache v).cacheAt c).fill = .running := by
      intro c hno hrun
      rw [Files.cacheAt_setCache, if_neg]
      · exact hrun
      · rintro rfl
        exact hno ⟨filler, hf, hd, rfl⟩
    rcases hends with ⟨hd', hv⟩ | hd'
    · refine ⟨⟨h.shared, h.read, fun id' f hl => ?_⟩, fun c => ?_⟩
      · dsimp only at hl
        rw [HashMap.lookup_insert] at hl
        split at hl
        · cases hl
          exact hc ▸ h.filled id filler hf
        · exact h.filled id' f hl
      · refine (h.slot c).mono (fun p hp => ?_) fun hrun => ?_
        · rcases holds_putFiller (fun id' => HashMap.lookup_insert ..) hp with
            ⟨-, hp⟩ | ⟨rfl, f, hf', -, hcache⟩
          · exact hp
          · cases hf'
            exact ⟨filler, hf, hd, hc ▸ hcache⟩
        · by_cases hcc : c = filler.cache
          · show ((s.files.setCache filler.cache v).cacheAt c).fill = _
            rw [Files.cacheAt_setCache, if_pos hcc, hv, ← hcc, hrun]
          · show ((s.files.setCache filler.cache v).cacheAt c).fill = _
            rw [Files.cacheAt_setCache, if_neg hcc, hrun]
    · refine h.endFiller (fun id' => HashMap.lookup_insert ..) (fun f hf' => ?_) rfl
        (fun _ _ hl => hl) hfill
      cases hf'
      exact ⟨hd', hc ▸ h.filled id filler hf⟩
  | @deregister filler hf hp =>
    refine h.endFiller (fun id' => HashMap.lookup_insert ..) (fun f hf' => ?_) rfl
      (fun _ _ hl => hl) fun _ _ hrun => hrun
    cases hf'
    exact ⟨rfl, h.filled id filler hf⟩
  | @cleanUp filler hf hp =>
    have hcaches : ∀ c, (s.files.fillerCleanUp filler.inode).cacheAt c = s.files.cacheAt c := by
      intro c
      unfold Files.fillerCleanUp
      split <;> rfl
    refine h.endFiller (fun id' => HashMap.lookup_erase ..) (fun f hf' => nomatch hf') ?_ ?_ ?_
    · unfold Files.fillerCleanUp
      split <;> rfl
    · intro i c hl
      dsimp only [Files.fillerCleanUp] at hl
      split at hl
      · exact hl
      · rw [HashMap.lookup_erase] at hl
        split at hl
        · cases hl
        · exact hl
    · intro c _ hrun
      show ((s.files.fillerCleanUp filler.inode).cacheAt c).fill = _
      rw [hcaches, hrun]

/-! ### Every step -/

/-- Neither parties nor fill states change. -/
theorem Slots.frame (h : s.Slots) (hr : s'.readers = s.readers)
    (hf : s'.files.fillers = s.files.fillers) (hn : s'.files.nextCache = s.files.nextCache)
    (hs : ∀ i c, s'.files.readCache.lookup i = some c → s.files.readCache.lookup i = some c)
    (hc : ∀ c, (s'.files.cacheAt c).fill = (s.files.cacheAt c).fill) : s'.Slots := by
  refine ⟨⟨fun i c hl => hn ▸ h.shared i c (hs i c hl), fun id r hl => ?_, fun id f hl => ?_⟩,
    fun c => (h.slot c).mono (fun p hp => ?_) fun hrun => (hc c).trans hrun⟩
  · exact hn ▸ h.read id r (hr ▸ hl)
  · exact hn ▸ h.filled id f (hf ▸ hl)
  · cases p with
    | inl id =>
      obtain ⟨r, hl, hp⟩ := hp
      exact ⟨r, hr ▸ hl, hp⟩
    | inr id =>
      obtain ⟨f, hl, hp⟩ := hp
      exact ⟨f, hf ▸ hl, hp⟩

/-- The cache that a read finds or makes is the one of its inode from then on. -/
theorem cacheFor_cases (f : Files) (inode totalSize : Nat) :
    (∃ c, f.readCache.lookup inode = some c ∧ cacheFor f inode totalSize = (c, f)) ∨
      (f.readCache.lookup inode = none ∧ cacheFor f inode totalSize = f.addCache inode totalSize) := by
  unfold cacheFor
  split
  · exact .inl ⟨_, ‹_›, rfl⟩
  · exact .inr ⟨‹_›, rfl⟩

theorem cacheAt_addCache (f : Files) (inode totalSize c : Nat) (h : c < f.nextCache) :
    (f.addCache inode totalSize).2.cacheAt c = f.cacheAt c := by
  unfold Files.addCache Files.cacheAt
  rw [HashMap.lookup_insert, if_neg (Nat.ne_of_lt h)]

/-- A new reader claims nothing yet. -/
theorem Slots.addReader (h : s.Slots) {files : Files} {r : Reader} (id next : Nat)
    (hr : r.claims = false) (hb : r.cache < files.nextCache)
    (hf : files.fillers = s.files.fillers) (hn : s.files.nextCache ≤ files.nextCache)
    (hs : ∀ i c, files.readCache.lookup i = some c → c < files.nextCache)
    (hc : ∀ c < s.files.nextCache, files.cacheAt c = s.files.cacheAt c) :
    Slots { s with files, readers := s.readers.insert id r, nextReader := next } := by
  have hholds : ∀ {p c}, Holds { s with
      files, readers := s.readers.insert id r, nextReader := next } p c → s.Holds p c := by
    intro p c hp
    cases p with
    | inl id' =>
      obtain ⟨r', hl, hc', hcache⟩ := hp
      rw [HashMap.lookup_insert] at hl
      split at hl
      · cases hl
        rw [hr] at hc'
        cases hc'
      · exact ⟨r', hl, hc', hcache⟩
    | inr id' =>
      obtain ⟨f, hl, hd, hcache⟩ := hp
      exact ⟨f, hf ▸ hl, hd, hcache⟩
  refine ⟨⟨hs, fun id' r' hl => ?_, fun id' f hl => ?_⟩, fun c => ?_⟩
  · rw [HashMap.lookup_insert] at hl
    split at hl
    · cases hl
      exact hb
    · exact Nat.lt_of_lt_of_le (h.read id' r' hl) hn
  · exact Nat.lt_of_lt_of_le (h.filled id' f (hf ▸ hl)) hn
  · intro p q hp hq
    obtain ⟨hrun, hpq⟩ := h.slot c p q (hholds hp) (hholds hq)
    exact ⟨(congrArg SharedSparseCache.fill (hc c (h.holds (hholds hp)))).trans hrun, hpq⟩

theorem Slots.step (h : s.Slots) {a : Action} (ha : s.step a = some s') : s'.Slots := by
  cases a with
  | openFile inode =>
    cases ha
    exact h.frame rfl rfl rfl (fun _ _ hl => hl) fun _ => rfl
  | read inode fh offset size totalSize =>
    simp only [Downloads.step] at ha
    split at ha
    · cases ha
      rcases cacheFor_cases s.files inode totalSize with ⟨c, hl, hc⟩ | ⟨-, hc⟩
      · rw [hc]
        exact h.addReader s.nextReader _ rfl (h.shared inode c hl) rfl (Nat.le_refl _) h.shared
          fun _ _ => rfl
      · rw [hc]
        refine h.addReader s.nextReader _ rfl (Nat.lt_succ_self _) rfl (Nat.le_succ _)
          (fun i c hl => ?_) fun c hlt => cacheAt_addCache s.files inode totalSize c hlt
        simp only [Files.addCache, HashMap.lookup_insert] at hl
        split at hl
        · cases hl
          exact Nat.lt_succ_self _
        · exact Nat.lt_succ_of_lt (h.shared i c hl)
    · cases ha
  | reader id answer fault =>
    obtain ⟨r, hr, -, rfl⟩ := step_reader ha
    exact ⟨h.toMade.reader hr answer fault, h.slot_reader hr answer fault⟩
  | wakeUp id =>
    obtain ⟨r, rfl⟩ := step_wakeUp ha
    exact h.frame rfl rfl rfl (fun _ _ hl => hl) (fill_wakeUp s.files r.cache r.thread)
  | filler id fault =>
    cases ha
    exact h.filler id fault
  | release fh =>
    simp only [Downloads.step] at ha
    split at ha
    · cases ha
    · cases ha
      have hf := Files.closeHandle_frame s.files fh
      exact h.frame rfl hf.fillers hf.nextCache (fun _ _ hl => Files.readCache_closeHandle hl)
        fun c => congrArg SharedSparseCache.fill (hf.cacheAt c)
  | stop =>
    simp only [Downloads.step] at ha
    split at ha
    · cases ha
      obtain ⟨hs, hf, hc⟩ := Files.stopFills_frame s.files
      exact h.frame rfl hf hs.nextCache (fun _ _ hl => hs.readCache ▸ hl) hc
    · cases ha
  | wake timedOut =>
    simp only [Downloads.step] at ha
    split at ha
    · split at ha
      · cases ha
        exact h.frame rfl rfl rfl (fun _ _ hl => hl) fun _ => rfl
      · split at ha
        · cases ha
          exact h.frame rfl rfl rfl (fun _ _ hl => hl) fun _ => rfl
        · cases ha
          exact h
    · cases ha

theorem slots_new : Slots .new := by
  refine ⟨⟨fun i c hl => ?_, fun id r hl => ?_, fun id f hl => ?_⟩, fun c => .free ?_⟩
  · exact nomatch (HashMap.lookup_empty i).symm.trans hl
  · exact nomatch (HashMap.lookup_empty id).symm.trans hl
  · exact nomatch (HashMap.lookup_empty id).symm.trans hl
  · rintro (id | id) ⟨x, hl, -⟩
    · exact nomatch (HashMap.lookup_empty id).symm.trans hl
    · exact nomatch (HashMap.lookup_empty id).symm.trans hl

end Downloads

/-- In every state of every schedule the fill slots are in order. -/
theorem Schedule.slots {allowed : Downloads → Action → Prop} {s : Downloads}
    (h : Schedule allowed s) : s.Slots :=
  h.invariant Downloads.slots_new fun _ _ _ _ ih _ ha => ih.step ha

end MtpMount
