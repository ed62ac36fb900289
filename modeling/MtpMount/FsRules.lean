import MtpMount.FlushRules
import MtpMount.Fs

/-!
# Rules for the callbacks

`MountInvariant R G I K` collects what an invariant `I` of the mount has to
withstand, one field for each thing a callback can do; `dispatch_keeps` says
that then every callback keeps `I` and makes only calls that `G` allows. What
changes the device or a write buffer is asked for on a writable mount only.
`UnwrittenInvariant` leaves out the writes to a buffer and its close.
`LinkInvariant` is the same for an invariant of the link alone. An invariant of
the open files says what it withstands in parts: `AskingInvariant` for the
questions and the other tasks, `ReadInvariant` for a read, `StillInvariant` for
the callbacks that leave the open files alone.
-/

namespace MtpMount

open Interaction

variable {E α : Type} {R : Answers Call Answer E} {G : E → Call → Prop}

/-! ## One rule for every primitive -/

section Primitives

variable {X : Errno → MtpFs → E → Prop} {fs : MtpFs} {e : E}

theorem tell_wp {c : Call} {Q : Answer c → MtpFs → E → Prop} :
    Attempt.wp R G (tell c) Q X fs e ↔ G e c ∧ ∀ a e', R e c a e' → Q a fs e' := Iff.rfl

@[simp] theorem device_wp {x : MtpM α} {Q : Except Error α → MtpFs → E → Prop} :
    Attempt.wp R G (device x) Q X fs e ↔
      Attempt.wp R G x (fun a l e' => Q (.ok a) { fs with link := l } e')
        (fun err l e' => Q (.error err) { fs with link := l } e') fs.link e := by
  unfold device
  rw [Attempt.wp_lift, wp_onLink, Attempt.wp_run]
  exact Iff.rfl

@[simp] theorem orIoError_wp {x : MtpM α} {Q : α → MtpFs → E → Prop} :
    Attempt.wp R G (orIoError x) Q X fs e ↔
      Attempt.wp R G x (fun a l e' => Q a { fs with link := l } e')
        (fun _ l e' => X .eio { fs with link := l } e') fs.link e := by
  unfold orIoError
  rw [Attempt.wp_bind, device_wp]
  exact Iff.rfl

@[simp] theorem onFiles_wp {f : Files → α × Files} {Q : α → MtpFs → E → Prop} :
    Attempt.wp R G (onFiles f) Q X fs e ↔
      Q (f fs.files).1 { fs with files := (f fs.files).2 } e := Iff.rfl

@[simp] theorem onCache_wp {c : Nat} {f : SharedSparseCache → α × SharedSparseCache}
    {Q : α → MtpFs → E → Prop} :
    Attempt.wp R G (onCache c f) Q X fs e ↔
      Q (f (fs.files.cacheAt c)).1
        { fs with files := fs.files.setCache c (f (fs.files.cacheAt c)).2 } e := Iff.rfl

@[simp] theorem onWriteBuf_wp {f : WriteBuffer → α × WriteBuffer} {Q : α → MtpFs → E → Prop} :
    Attempt.wp R G (onWriteBuf f) Q X fs e ↔
      Q (f fs.writeBuf).1 { fs with writeBuf := (f fs.writeBuf).2 } e := Iff.rfl

@[simp] theorem refuseIf_wp {c : Prop} [Decidable c] {err : Errno} {Q : Unit → MtpFs → E → Prop} :
    Attempt.wp R G (refuseIf c err) Q X fs e ↔ (c → X err fs e) ∧ (¬ c → Q () fs e) := by
  unfold refuseIf
  by_cases h : c <;> simp [h]

@[simp] theorem guardWritable_wp {Q : Unit → MtpFs → E → Prop} :
    Attempt.wp R G guardWritable Q X fs e ↔
      (fs.readOnly = true → X .erofs fs e) ∧ (fs.readOnly = false → Q () fs e) := by
  unfold guardWritable
  simp

theorem nameOr_wp {err : Errno} {name : Option String} {Q : String → MtpFs → E → Prop}
    (hQ : ∀ n, name = some n → Q n fs e) (hX : X err fs e) :
    Attempt.wp R G (nameOr err name) Q X fs e := by
  cases name with
  | none => exact hX
  | some n => exact hQ n rfl

theorem dispatch_wp {c : Callback} {Q : Reply → MtpFs → E → Prop} :
    Act.wp R G (dispatch c) Q fs e ↔
      Attempt.wp R G (callback c) Q (fun err => Q (.error err)) fs e := by
  unfold dispatch
  rw [Act.wp_bind, Attempt.wp_run]
  exact Iff.rfl

end Primitives

/-! ## What an invariant has to withstand -/

/-- The invariant `I` survives what a callback asks of the device, and what the
other tasks do while the lock is free. -/
structure AskingInvariant (R : Answers Call Answer E) (G : E → Call → Prop)
    (I : MtpFs → E → Prop) (K : E → ObjectHandle → Prop) : Prop where
  link : QueriesOn R G I K
  filler : ∀ {fs e} id fault, I fs e → I { fs with files := fs.files.fillerStep id fault } e
  dropCaches : ∀ {fs e} keep, I fs e →
    I { fs with files := { fs.files with readCache := fs.files.readCache.retain keep } } e

/-- The part of that which the other tasks do. -/
structure BackgroundInvariant (R : Answers Call Answer E) (G : E → Call → Prop)
    (I : MtpFs → E → Prop) : Prop where
  background : ∀ {fs e}, I fs e → G e .background ∧ ∀ a e', R e .background a e' → I fs e'
  forget : ∀ {fs e dirs}, (∀ p, dirs.lookup p = some true → fs.link.dirsLoaded.lookup p = some true) →
    I fs e → I { fs with link := { fs.link with dirsLoaded := dirs } } e
  filler : ∀ {fs e} id fault, I fs e → I { fs with files := fs.files.fillerStep id fault } e
  dropCaches : ∀ {fs e} keep, I fs e →
    I { fs with files := { fs.files with readCache := fs.files.readCache.retain keep } } e

/-- The invariant `J` survives the start of a fill of the cache `c`; `C` is in its
place while the callback holds the fill slot. -/
structure FillInvariant (R : Answers Call Answer E) (G : E → Call → Prop) (ino c : Nat)
    (J C : MtpFs → E → Prop) : Prop where
  having : BackgroundInvariant R G J
  claimed : BackgroundInvariant R G C
  same : ∀ {fs e}, J fs e →
    J { fs with files := fs.files.setCache c (fs.files.cacheAt c) } e
  claim : ∀ {fs e}, (fs.files.cacheAt c).startFill.1 = true → J fs e →
    C { fs with files := fs.files.setCache c (fs.files.cacheAt c).startFill.2 } e
  register : ∀ {fs e}, C fs e →
    C { fs with files := { fs.files with fills := (fs.files.fills.register c).2 } } e
  giveUp : ∀ {fs e} failure, C fs e →
    J { fs with files := fs.files.setCache c ((fs.files.cacheAt c).fail failure) } e
  finished : ∀ {fs e}, J fs e →
    J { fs with files := { fs.files with fills := fs.files.fills.finished c } } e
  opened : ∀ {fs e}, C fs e → Attempt.wp R G (openDownload ino)
    (fun stream l e' => J { fs with link := l, files := fs.files.spawnFiller ino c stream } e')
    (fun _ l e' => C { fs with link := l } e') fs.link e

/-- The invariant `J c` survives what a read of the inode does with the cache `c`;
`C c` is in its place while the read holds the fill slot of that. -/
structure CacheInvariant (R : Answers Call Answer E) (G : E → Call → Prop) (ino : Nat)
    (J C : Nat → MtpFs → E → Prop) (K : E → ObjectHandle → Prop) : Prop where
  having : ∀ c, AskingInvariant R G (J c) K
  claimed : ∀ c, AskingInvariant R G (C c) K
  /-- The cache is used without starting a fill. -/
  cache : ∀ {fs e c} v, (v.fill = .running → (fs.files.cacheAt c).fill = .running) →
    v.cache.totalSize = (fs.files.cacheAt c).cache.totalSize → J c fs e →
    J c { fs with files := fs.files.setCache c v } e
  claim : ∀ {fs e c}, (fs.files.cacheAt c).startFill.1 = true → J c fs e →
    C c { fs with files := fs.files.setCache c (fs.files.cacheAt c).startFill.2 } e
  register : ∀ {fs e c}, C c fs e →
    C c { fs with files := { fs.files with fills := (fs.files.fills.register c).2 } } e
  giveUp : ∀ {fs e c} failure, C c fs e →
    J c { fs with files := fs.files.setCache c ((fs.files.cacheAt c).fail failure) } e
  finished : ∀ {fs e c}, J c fs e →
    J c { fs with files := { fs.files with fills := fs.files.fills.finished c } } e
  spawnFiller : ∀ {fs e c} stream, C c fs e →
    J c { fs with files := fs.files.spawnFiller ino c stream } e

/-- The invariant `I` survives a read of the inode; `J c` is in its place once the
callback has the cache `c`. -/
structure ReadInvariant (R : Answers Call Answer E) (G : E → Call → Prop) (ino : Nat)
    (I : MtpFs → E → Prop) (J C : Nat → MtpFs → E → Prop) (K : E → ObjectHandle → Prop) : Prop
    extends CacheInvariant R G ino J C K where
  link : QueriesOn R G I K
  readBuf : ∀ {fs e} fh offset size fault, I fs e →
    I { fs with writeBuf := (fs.writeBuf.read fh offset size fault).2 } e
  found : ∀ {fs e c}, fs.files.readCache.lookup ino = some c → I fs e → J c fs e
  addCache : ∀ {fs e} size, fs.files.readCache.lookup ino = none → I fs e →
    J fs.files.nextCache { fs with files := (fs.files.addCache ino size).2 } e
  served : ∀ {fs e c}, J c fs e → I fs e

/-- The invariant `I` survives what is done to the write buffer of the handle. -/
structure WriteInvariant (R : Answers Call Answer E) (G : E → Call → Prop) (ino fh : Nat)
    (I : MtpFs → E → Prop) (K : E → ObjectHandle → Prop) : Prop where
  link : QueriesOn R G I K
  openBuf : ∀ {fs e} size fault, fs.readOnly = false → I fs e →
    I { fs with writeBuf := (fs.writeBuf.openBuffer fh ino size fault).2 } e
  writeBuf : ∀ {fs e} offset data fault, fs.readOnly = false → I fs e →
    I { fs with writeBuf := (fs.writeBuf.write fh offset data fault).2 } e
  closeBuf : ∀ {fs e}, fs.readOnly = false → I fs e →
    I { fs with writeBuf := (fs.writeBuf.close fh).2 } e

/-- The object of the inode can go below `newParent` in the table: it is there
already, or the device has just moved it. -/
def Movable (l : Link) (ino newParent : Nat) : Prop :=
  HasToken l ino ∧ ((∃ name, l.inodes.lookup newParent name = some ino) ∨
    IsFolder l newParent ∧ l.inodes.isFresh ino = true)

/-- The invariant `I` survives every callback that neither opens a file nor
reads, writes or closes one. -/
structure StillInvariant (R : Answers Call Answer E) (G : E → Call → Prop)
    (I : MtpFs → E → Prop) (K : E → ObjectHandle → Prop) : Prop
    extends AskingInvariant R G I K where
  allocFh : ∀ {fs e}, I fs e → I { fs with files := fs.files.allocFh.2 } e
  init : ∀ {fs e}, I fs e → G e (.storages fs.link.device) ∧
    ∀ a e', R e (.storages fs.link.device) a e' → I fs e'
  addStorage : ∀ {fs e} sid name now, I fs e →
    I (fs.withInodes (fs.link.inodes.addStorageAt sid name now).2) e
  setStorages : ∀ {fs e} infos, I fs e →
    I { fs with link := { fs.link with storages := fs.link.device.bindStorages infos } } e
  spawn : ∀ {fs e}, I fs e → G e (.spawnEventLoop fs.link.device fs.link.eventEpoch) ∧
    ∀ a e', R e (.spawnEventLoop fs.link.device fs.link.eventEpoch) a e' → I fs e'
  mutation : ∀ {fs e c storage handles}, fs.readOnly = false → c.isMutation = true →
    c.target? = some (storage, handles) → I fs e → storage ∈ fs.link.storages →
    (∀ h ∈ handles, K e h) →
    G e c ∧ ∀ a e', R e c a e' → I fs e' ∧ (∀ h, K e h → K e' h) ∧ ∀ h ∈ c.handed a, K e' h
  addObject : ∀ {fs e} parent h name isDir now, fs.readOnly = false → I fs e → K e h →
    IsFolder fs.link parent →
    I (fs.withInodes (fs.link.inodes.addObject parent h name isDir 0 now).2) e
  remove : ∀ {fs e} ino, fs.readOnly = false → I fs e → HasToken fs.link ino →
    I (fs.withInodes (fs.link.inodes.remove ino)) e
  rename : ∀ {fs e} ino newParent newName, fs.readOnly = false → I fs e →
    Movable fs.link ino newParent →
    I (fs.withInodes (fs.link.inodes.rename ino newParent newName)) e
  panic : ∀ {fs e parent name ino}, I fs e → fs.link.inodes.lookup parent name = some ino →
    fs.link.inodes.get ino = none → G e .panic

/-- The invariant `I` survives everything a callback does but to write to a
buffer and to close one. -/
structure UnwrittenInvariant (R : Answers Call Answer E) (G : E → Call → Prop)
    (I : MtpFs → E → Prop) (K : E → ObjectHandle → Prop) : Prop where
  link : QueriesOn R G I K
  files : ∀ {fs e} files, I fs e → I { fs with files } e
  readBuf : ∀ {fs e} fh offset size fault, I fs e →
    I { fs with writeBuf := (fs.writeBuf.read fh offset size fault).2 } e
  /-- What `init` asks and sets. -/
  init : ∀ {fs e}, I fs e → G e (.storages fs.link.device) ∧
    ∀ a e', R e (.storages fs.link.device) a e' → I fs e'
  addStorage : ∀ {fs e} sid name now, I fs e →
    I (fs.withInodes (fs.link.inodes.addStorageAt sid name now).2) e
  setStorages : ∀ {fs e} infos, I fs e →
    I { fs with link := { fs.link with storages := fs.link.device.bindStorages infos } } e
  spawn : ∀ {fs e}, I fs e → G e (.spawnEventLoop fs.link.device fs.link.eventEpoch) ∧
    ∀ a e', R e (.spawnEventLoop fs.link.device fs.link.eventEpoch) a e' → I fs e'
  /-- What only a writable mount does. -/
  openBuf : ∀ {fs e} fh ino size fault, fs.readOnly = false → I fs e →
    I { fs with writeBuf := (fs.writeBuf.openBuffer fh ino size fault).2 } e
  mutation : ∀ {fs e c storage handles}, fs.readOnly = false → c.isMutation = true →
    c.target? = some (storage, handles) → I fs e → storage ∈ fs.link.storages →
    (∀ h ∈ handles, K e h) →
    G e c ∧ ∀ a e', R e c a e' → I fs e' ∧ (∀ h, K e h → K e' h) ∧ ∀ h ∈ c.handed a, K e' h
  addObject : ∀ {fs e} parent h name isDir now, fs.readOnly = false → I fs e → K e h →
    IsFolder fs.link parent →
    I (fs.withInodes (fs.link.inodes.addObject parent h name isDir 0 now).2) e
  remove : ∀ {fs e} ino, fs.readOnly = false → I fs e → HasToken fs.link ino →
    I (fs.withInodes (fs.link.inodes.remove ino)) e
  rename : ∀ {fs e} ino newParent newName, fs.readOnly = false → I fs e →
    Movable fs.link ino newParent →
    I (fs.withInodes (fs.link.inodes.rename ino newParent newName)) e
  /-- A name that is found but dead makes `lookup` panic. -/
  panic : ∀ {fs e parent name ino}, I fs e → fs.link.inodes.lookup parent name = some ino →
    fs.link.inodes.get ino = none → G e .panic

/-- The invariant `I` survives everything a callback does. -/
structure MountInvariant (R : Answers Call Answer E) (G : E → Call → Prop)
    (I : MtpFs → E → Prop) (K : E → ObjectHandle → Prop) : Prop
    extends UnwrittenInvariant R G I K where
  flush : ∀ {fs e} fh, I fs e →
    Attempt.wp R G (flushToMtp fh) (fun _ fs' e' => I fs' e') (fun _ fs' e' => I fs' e') fs e
  writeBuf : ∀ {fs e} fh offset data fault, fs.readOnly = false → I fs e →
    I { fs with writeBuf := (fs.writeBuf.write fh offset data fault).2 } e
  closeBuf : ∀ {fs e} fh, fs.readOnly = false → I fs e →
    I { fs with writeBuf := (fs.writeBuf.close fh).2 } e

section Parts

variable {I : MtpFs → E → Prop} {K : E → ObjectHandle → Prop} (hM : UnwrittenInvariant R G I K)

include hM

theorem UnwrittenInvariant.asking : AskingInvariant R G I K where
  link := hM.link
  filler := fun _ _ h => hM.files _ h
  dropCaches := fun _ h => hM.files _ h

theorem UnwrittenInvariant.reading (ino : Nat) :
    ReadInvariant R G ino I (fun _ => I) (fun _ => I) K where
  link := hM.link
  having := fun _ => hM.asking
  claimed := fun _ => hM.asking
  readBuf := hM.readBuf
  found := fun _ h => h
  addCache := fun _ _ h => hM.files _ h
  cache := fun _ _ _ h => hM.files _ h
  claim := fun _ h => hM.files _ h
  register := fun h => hM.files _ h
  giveUp := fun _ h => hM.files _ h
  finished := fun h => hM.files _ h
  spawnFiller := fun _ h => hM.files _ h
  served := fun h => h

theorem UnwrittenInvariant.still : StillInvariant R G I K :=
  { hM with toAskingInvariant := hM.asking, allocFh := fun h => hM.files _ h }

omit hM

theorem MountInvariant.writing (hM : MountInvariant R G I K) (ino fh : Nat) :
    WriteInvariant R G ino fh I K where
  link := hM.link
  openBuf := fun size fault hw h => hM.openBuf fh ino size fault hw h
  writeBuf := fun offset data fault hw h => hM.writeBuf fh offset data fault hw h
  closeBuf := fun hw h => hM.closeBuf fh hw h

end Parts

/-! ## Callbacks that change nothing -/

section Plain

variable {I : MtpFs → E → Prop} {K : E → ObjectHandle → Prop}

theorem keeps_getattr (ino : Nat) : Attempt.Keeps R G I (getattr ino) := by
  refine .get_bind fun fs e h => ?_
  split
  · exact h
  · split
    · exact h
    · exact h

theorem keeps_statfs : Attempt.Keeps R G I statfs := .bind .get fun _ => .pure _

theorem keeps_refuseIf (c : Prop) [Decidable c] (err : Errno) :
    Attempt.Keeps R G I (refuseIf c err) := fun _ _ h => refuseIf_wp.mpr ⟨fun _ => h, fun _ => h⟩

/-- Behind the guard the mount is writable, and stays so. -/
theorem keeps_guarded {x : FsM α}
    (hx : ∀ fs e, I fs e → fs.readOnly = false →
      Attempt.wp R G x (fun _ fs' e' => I fs' e') (fun _ fs' e' => I fs' e') fs e) :
    Attempt.Keeps R G I (guardWritable >>= fun _ => x) := fun fs e h => by
  rw [Attempt.wp_bind, guardWritable_wp]
  exact ⟨fun _ => h, fun hw => hx fs e h hw⟩

/-- A device operation that keeps the link's part keeps the whole. -/
theorem keeps_orIoError {x : MtpM α}
    (hx : ∀ fs : MtpFs, Attempt.Keeps R G (fun l e => I { fs with link := l } e) x) :
    Attempt.Keeps R G I (orIoError x) := fun fs e h => orIoError_wp.mpr (hx fs fs.link e h)

section Aside

variable (hl : QueriesOn R G I K)

include hl

theorem keeps_aside {c : Call} (hc : c.isAside = true) : Attempt.Keeps R G I (tell c) :=
  fun fs _ h => tell_wp.mpr
    ⟨((hl fs).aside hc h).1, fun a e' hr => (((hl fs).aside hc h).2 a e' hr).1⟩

theorem openWriteBuf_wp {fh ino size : Nat}
    (ho : ∀ {fs e} fault, fs.readOnly = false → I fs e →
      I { fs with writeBuf := (fs.writeBuf.openBuffer fh ino size fault).2 } e)
    {fs : MtpFs} {e : E} (h : I fs e) (hw : fs.readOnly = false) :
    Attempt.wp R G (openWriteBuf fh ino size)
      (fun _ fs' e' => I fs' e' ∧ fs'.readOnly = false ∧ fs'.link = fs.link)
      (fun _ fs' e' => I fs' e') fs e := by
  unfold openWriteBuf
  rw [Attempt.wp_bind]
  refine tell_wp.mpr ⟨((hl fs).aside rfl h).1, fun fault e₁ hr => ?_⟩
  have h₁ := (((hl fs).aside rfl h).2 _ _ hr).1
  rw [Attempt.wp_bind, onWriteBuf_wp]
  split
  · exact ⟨ho _ hw h₁, hw, rfl⟩
  · exact ho _ hw h₁

theorem ensureWriteBuf_wp {ino fh : Nat}
    (ho : ∀ {fs e} size fault, fs.readOnly = false → I fs e →
      I { fs with writeBuf := (fs.writeBuf.openBuffer fh ino size fault).2 } e)
    {fs : MtpFs} {e : E} (h : I fs e) (hw : fs.readOnly = false) :
    Attempt.wp R G (ensureWriteBuf ino fh)
      (fun _ fs' e' => I fs' e' ∧ fs'.readOnly = false ∧ fs'.link = fs.link)
      (fun _ fs' e' => I fs' e') fs e := by
  unfold ensureWriteBuf
  rw [Attempt.wp_bind, Attempt.wp_get]
  split
  · exact ⟨h, hw, rfl⟩
  · exact openWriteBuf_wp hl (ho _) h hw

end Aside

end Plain

/-! ## The device and the other tasks -/

section Background

variable {I : MtpFs → E → Prop} (hB : BackgroundInvariant R G I)

include hB

theorem BackgroundInvariant.handleEvent {fs : MtpFs} {e : E} (ev : DeviceEvent) (h : I fs e) :
    I (fs.handleEvent ev) e := by
  have forget : ∀ {fs : MtpFs} ino, I fs e → I (fs.forgetListing ino) e := by
    intro fs ino h
    refine hB.forget (fun p hp => ?_) h
    rw [HashMap.lookup_erase] at hp
    split at hp
    · cases hp
    · exact hp
  have all : ∀ {fs : MtpFs}, I fs e → I fs.invalidateAllDirs e :=
    fun h => hB.forget (fun _ hp => (HashMap.lookup_retain_some.mp hp).1) h
  cases ev with
  | objectAdded a =>
    unfold MtpFs.handleEvent
    dsimp only
    split
    · exact forget _ h
    · exact all h
  | objectRemoved a =>
    unfold MtpFs.handleEvent
    dsimp only
    split
    · exact forget _ h
    · exact all h
  | objectInfoChanged a =>
    refine hB.dropCaches _ ?_
    split
    · exact forget _ h
    · exact h
  | storageChanged => exact all h
  | other => exact h

theorem BackgroundInvariant.steps (steps : List BackgroundStep) {fs : MtpFs} {e : E} (h : I fs e) :
    I (steps.foldl MtpFs.backgroundStep fs) e := by
  induction steps generalizing fs with
  | nil => exact h
  | cons step rest ih =>
    apply ih
    cases step with
    | event ev => exact hB.handleEvent ev h
    | filler id fault => exact hB.filler id fault h

theorem BackgroundInvariant.run_wp {X : Errno → MtpFs → E → Prop} {fs : MtpFs} {e : E} (h : I fs e) :
    Attempt.wp R G runBackground (fun _ fs' e' => I fs' e') X fs e := by
  unfold runBackground
  rw [Attempt.wp_bind]
  refine tell_wp.mpr ⟨(hB.background h).1, fun steps e₁ hr => ?_⟩
  exact hB.steps steps ((hB.background h).2 steps e₁ hr)

theorem BackgroundInvariant.keeps : Attempt.Keeps R G I runBackground :=
  fun _ _ h => hB.run_wp h

end Background

/-- A callback that claims the fill slot of its cache opens a download, or gives the slot up. -/
theorem FillInvariant.keeps {ino c : Nat} {J C : MtpFs → E → Prop} (hF : FillInvariant R G ino c J C) :
    Attempt.Keeps R G J (ensureFullFillRunning ino c) := by
  refine .bind hF.having.keeps fun _ fs e h => ?_
  rw [Attempt.wp_bind, onCache_wp]
  split
  · rename_i hs
    have hs : (fs.files.cacheAt c).startFill.1 = false := by simpa using hs
    rw [SharedSparseCache.startFill_of_false hs]
    exact hF.same h
  · rename_i hs
    have hs : (fs.files.cacheAt c).startFill.1 = true := by simpa using hs
    -- the slot is claimed until the cache fails or a filler has it
    have h₁ := hF.claim hs h
    rw [Attempt.wp_bind]
    refine Attempt.wp_mono (hF.claimed.run_wp h₁) ?_ fun _ _ _ h' => h'
    intro _ fs₂ e₂ h₂
    rw [Attempt.wp_bind, onFiles_wp]
    have h₃ := hF.register h₂
    split
    · rw [Attempt.wp_bind]
      refine Attempt.wp_mono (hF.claimed.run_wp h₃) ?_ fun _ _ _ h' => h'
      intro _ fs₄ e₄ h₄
      rw [Attempt.wp_bind, onCache_wp]
      exact hF.giveUp GOING_AWAY h₄
    · rw [Attempt.wp_bind]
      refine Attempt.wp_mono (hF.claimed.run_wp h₃) ?_ fun _ _ _ h' => h'
      intro _ fs₄ e₄ h₄
      rw [Attempt.wp_bind, device_wp]
      refine Attempt.wp_mono (hF.opened h₄) ?_ ?_
      · intro stream l e₅ h₅
        exact h₅
      · intro err l e₅ h₅
        rw [Attempt.wp_bind]
        refine Attempt.wp_mono (hF.claimed.run_wp h₅) ?_ fun _ _ _ h' => h'
        intro _ fs₆ e₆ h₆
        rw [Attempt.wp_bind, onCache_wp]
        have h₇ := hF.giveUp ⟨.device err, isLinkLost err⟩ h₆
        rw [Attempt.wp_bind]
        refine Attempt.wp_mono (hF.having.run_wp h₇) ?_ fun _ _ _ h' => h'
        intro _ fs₈ e₈ h₈
        exact hF.finished h₈

section Asking

variable {I : MtpFs → E → Prop} {K : E → ObjectHandle → Prop} (hM : AskingInvariant R G I K)

include hM

omit hM in
theorem keeps_forgetListing {fs : MtpFs} {e : E} {ino : Nat}
    (hl : Queries R G (fun l e => I { fs with link := l } e) K) (h : I fs e) :
    I (fs.forgetListing ino) e := by
  refine hl.forget (fun p hp => ?_) h
  rw [HashMap.lookup_erase] at hp
  split at hp
  · cases hp
  · exact hp

theorem AskingInvariant.background : BackgroundInvariant R G I where
  background := fun {fs _} h =>
    ⟨((hM.link fs).aside rfl h).1, fun a e' hr => (((hM.link fs).aside rfl h).2 a e' hr).1⟩
  forget := fun {fs _ _} hdirs h => (hM.link fs).forget hdirs h
  filler := hM.filler
  dropCaches := hM.dropCaches

theorem runBackground_wp {X : Errno → MtpFs → E → Prop} {fs : MtpFs} {e : E} (h : I fs e) :
    Attempt.wp R G runBackground (fun _ fs' e' => I fs' e') X fs e := hM.background.run_wp h

theorem keeps_runBackground : Attempt.Keeps R G I runBackground :=
  fun _ _ h => runBackground_wp hM h

theorem keeps_loadListing (ino : Nat) : Attempt.Keeps R G I (loadListing ino) :=
  fun fs _ h => (Attempt.wp_lift _).mpr (wp_onLink.mpr (loadDir_wp (hM.link fs) ino h))

end Asking

/-! ## Questions about an object -/

section Queries

variable {J : Link → E → Prop} {K : E → ObjectHandle → Prop} (hJ : Resolving R G J K)

include hJ

/-- A query on the object of a file inode, across recoveries. -/
theorem keeps_fileQuery {β : Type} {ino : Nat} {c : Storage → ObjectHandle → Call}
    {x : Storage → ObjectHandle → MtpM β} (hc : ∀ st h, (c st h).isMutation = false)
    (ht : ∀ st h, (c st h).target? = some (st, [h]))
    (hx : ∀ st h l e, G e (c st h) → (∀ a e', R e (c st h) a e' → J l e') →
      Attempt.wp R G (x st h) (fun _ l' e' => J l' e') (fun _ l' e' => J l' e') l e) :
    Attempt.Keeps R G J (withRecovery (σ := Link) do
      let handle ← fileHandle ino
      let storage ← storageOf ino
      x storage handle) := fun l e h => by
  refine withRecovery_wp (fun _ => hJ) (fun l e h => ?_) h
  rw [Attempt.wp_bind]
  refine Attempt.wp_mono (fileHandle_wp hJ ino h) ?_ fun _ _ _ h' => h'
  rintro a l₁ e₁ ⟨h₁, -, ha, -⟩
  rw [Attempt.wp_bind]
  refine storageOf_wp (fun _ => hJ.hang h₁) (fun st hst => ?_) h₁
  obtain ⟨hG, hR⟩ := hJ.query (hc st a) (ht st a) h₁ hst fun b hb => by
    cases List.mem_singleton.mp hb
    exact ha
  exact hx st a l₁ e₁ hG fun b e' hr => (hR b e' hr).1

theorem keeps_openDownload (ino : Nat) : Attempt.Keeps R G J (openDownload ino) := by
  refine keeps_fileQuery hJ (c := Call.download) (fun _ _ => rfl) (fun _ _ => rfl)
    fun st a l e hG hR => ?_
  refine wp_call.mpr ⟨hG, fun r e' hr => ?_⟩
  rcases r with err | stream
  · exact hR _ _ hr
  · exact hR _ _ hr

theorem keeps_recoverFullFillLink (ino : Nat) :
    Attempt.Keeps R G J (recoverFullFillLink ino) := by
  refine keeps_fileQuery hJ (c := Call.getObjectInfo) (fun _ _ => rfl) (fun _ _ => rfl)
    fun st a l e hG hR => ?_
  rw [Attempt.wp_bind, Attempt.wp_mk]
  refine wp_call.mpr ⟨hG, fun r e' hr => ?_⟩
  rcases r with err | info
  · exact hR _ _ hr
  · exact hR _ _ hr

theorem keeps_fetchChunk (ino cursor size : Nat) :
    Attempt.Keeps R G J (fetchChunk ino cursor size) := by
  refine keeps_fileQuery hJ (c := fun st a => .readRange st a cursor size) (fun _ _ => rfl)
    (fun _ _ => rfl) fun st a l e hG hR => ?_
  refine wp_call.mpr ⟨hG, fun r e' hr => ?_⟩
  rcases r with err | bytes
  · exact hR _ _ hr
  · exact hR _ _ hr

end Queries

/-! ## Reading -/

section Reading

variable {ino : Nat} {J C : Nat → MtpFs → E → Prop} {K : E → ObjectHandle → Prop}

section Cached

variable (hM : CacheInvariant R G ino J C K) {c : Nat}

include hM

/-- A step on the cache that starts no fill. -/
theorem keeps_onCache {f : SharedSparseCache → α × SharedSparseCache}
    (hf : ∀ v, (f v).2.fill = .running → v.fill = .running)
    (hsize : ∀ v, (f v).2.cache.totalSize = v.cache.totalSize) :
    Attempt.Keeps R G (J c) (onCache c f) :=
  fun _ _ h => onCache_wp.mpr (hM.cache _ (hf _) (hsize _) h)

theorem keeps_ensureFullFillRunning : Attempt.Keeps R G (J c) (ensureFullFillRunning ino c) := by
  refine FillInvariant.keeps (C := C c) ⟨(hM.having c).background, (hM.claimed c).background,
    fun h => hM.cache _ id rfl h, hM.claim, hM.register, hM.giveUp, hM.finished, fun {fs e} h => ?_⟩
  exact Attempt.wp_mono (keeps_openDownload ((hM.claimed c).link fs).toResolving ino fs.link e h)
    (fun stream _ _ h' => hM.spawnFiller stream h') fun _ _ _ h' => h'

theorem keeps_waitAndRead (offset size : Nat) :
    Attempt.Keeps R G (J c) (waitAndRead c offset size) := by
  have bg := hM.having c
  refine .bind (keeps_runBackground bg) fun _ => .bind (keeps_aside bg.link rfl) fun fault =>
    .bind (keeps_onCache hM (fun v hv => ?_) fun v => v.totalSize_tryRead _ _ _ _) fun r => ?_
  · rwa [SharedSparseCache.fill_tryRead] at hv
  rcases r with _ | r
  · exact fun fs e h => (Attempt.wp_lift _).mpr (wp_hangs.mpr ((bg.link fs).hang h))
  · exact .pure _

theorem keeps_readFullTurn (offset size : Nat) {retry : FsM Bytes}
    (hr : Attempt.Keeps R G (J c) retry) :
    Attempt.Keeps R G (J c) (readFullTurn ino c offset size retry) := by
  refine .bind (keeps_ensureFullFillRunning hM) fun _ =>
    .bind (keeps_waitAndRead hM offset size) fun r => ?_
  rcases r with failure | data
  · dsimp only
    split
    · exact hr
    · exact .throw _
  · exact .pure _

theorem keeps_readFull (offset size retries : Nat) :
    Attempt.Keeps R G (J c) (readFull ino c offset size retries) := by
  induction retries with
  | zero => exact keeps_readFullTurn hM offset size (.throw _)
  | succ n ih =>
    refine keeps_readFullTurn hM offset size ?_
    have bg := keeps_runBackground (hM.having c)
    refine .bind bg fun _ =>
      .bind (keeps_orIoError fun fs =>
        keeps_recoverFullFillLink ((hM.having c).link fs).toResolving ino) fun _ =>
        .bind bg fun _ => .bind (keeps_onCache hM (fun v hv => ?_)
          fun v => v.totalSize_resetAfterLinkLoss) fun reset => ?_
    · exact (SharedSparseCache.fill_resetAfterLinkLoss v).mp hv
    split
    · exact ih
    · exact .throw _

theorem keeps_fetchRange (entrySize stop fuel cursor : Nat) :
    Attempt.Keeps R G (J c) (fetchRange ino c entrySize stop fuel cursor) := by
  have hJ := (hM.having c).link
  induction fuel generalizing cursor with
  | zero => exact .pure _
  | succ n ih =>
    unfold fetchRange
    split
    · exact .pure _
    · refine .bind (keeps_orIoError fun fs => keeps_fetchChunk (hJ fs).toResolving ino _ _) fun bytes =>
        .bind (keeps_aside hJ rfl) fun fault =>
        .bind (keeps_onCache hM (fun _ hv => hv) fun v => v.cache.totalSize_writeAt _ _ _) fun r => ?_
      rcases r with err | _
      · exact .throw _
      · dsimp only
        split
        · exact .pure _
        · exact ih _

theorem keeps_fetchRanges (entrySize : Nat) (ranges : List ByteRange) :
    Attempt.Keeps R G (J c) (fetchRanges ino c entrySize ranges) := by
  induction ranges with
  | nil => exact .pure _
  | cons range rest ih => exact .bind (keeps_fetchRange hM entrySize _ _ _) fun _ => ih

theorem keeps_readRanged (entrySize offset size : Nat) :
    Attempt.Keeps R G (J c) (readRanged ino c entrySize offset size) := by
  refine .bind .get fun _ => .bind (keeps_fetchRanges hM entrySize _) fun _ =>
    .bind .get fun _ => .bind (keeps_refuseIf _ _) fun _ =>
      .bind (keeps_aside (hM.having c).link rfl) fun _ =>
        .bind (keeps_onCache hM (fun _ hv => hv) fun v => v.cache.totalSize_readAt _ _ _) fun r => ?_
  rcases r with err | data
  · exact .throw _
  · exact .pure _

end Cached

variable {I : MtpFs → E → Prop} (hM : ReadInvariant R G ino I J C K)

include hM

theorem cacheFor_wp (size : Nat) {fs : MtpFs} {e : E} (h : I fs e) :
    Attempt.wp R G (cacheFor ino size) (fun c fs' e' => J c fs' e') (fun _ fs' e' => I fs' e') fs e := by
  unfold cacheFor
  rw [Attempt.wp_bind, Attempt.wp_get]
  split
  · exact hM.found ‹_› h
  · rename_i hnone
    rw [Attempt.wp_bind]
    refine tell_wp.mpr ⟨((hM.link fs).aside rfl h).1, fun fault e₁ hr => ?_⟩
    have h₁ := (((hM.link fs).aside rfl h).2 fault e₁ hr).1
    rw [Attempt.wp_bind, refuseIf_wp]
    exact ⟨fun _ => h₁, fun _ => hM.addCache size hnone h₁⟩

theorem keeps_readObject (offset size : Nat) :
    Attempt.Keeps R G I (readObject ino offset size) := by
  refine .bind .get fun fs => ?_
  split
  · exact .throw _
  · rename_i entry _
    refine .bind (keeps_refuseIf _ _) fun _ => ?_
    split
    · exact .pure _
    · intro fs e h
      rw [Attempt.wp_bind]
      refine Attempt.wp_mono (cacheFor_wp hM entry.size h) ?_ fun _ _ _ h' => h'
      intro c fs₁ e₁ h₁
      have hdone : ∀ {x : FsM Bytes}, Attempt.Keeps R G (J c) x →
          Attempt.wp R G x (fun _ fs' e' => I fs' e') (fun _ fs' e' => I fs' e') fs₁ e₁ :=
        fun hx => Attempt.wp_mono (hx fs₁ e₁ h₁) (fun _ _ _ h' => hM.served h')
          fun _ _ _ h' => hM.served h'
      split
      · exact hM.served h₁
      · exact hdone (keeps_readFull hM.toCacheInvariant offset size 1)
      · exact hdone (keeps_readRanged hM.toCacheInvariant _ offset size)

theorem keeps_readFile (fh offset size : Nat) :
    Attempt.Keeps R G I (readFile ino fh offset size) := by
  refine .bind .get fun fs => ?_
  split
  · refine .bind (keeps_aside hM.link rfl) fun fault =>
      .bind (.modifyGet fun fs e h => hM.readBuf _ _ _ _ h) fun r => ?_
    rcases r with err | data
    · exact .throw _
    · exact .pure _
  · exact (keeps_readObject hM offset size).map _

end Reading

/-! ## Leaving the open files alone -/

section Still

variable {I : MtpFs → E → Prop} {K : E → ObjectHandle → Prop} (hM : StillInvariant R G I K)

include hM

theorem keeps_addStorages (infos : List StorageInfo) : Attempt.Keeps R G I (addStorages infos) := by
  induction infos with
  | nil => exact .pure _
  | cons info rest ih =>
    exact .bind (keeps_aside hM.link rfl) fun now =>
      .bind (.modify fun fs e h => hM.addStorage _ _ _ h) fun _ => ih

theorem keeps_init : Attempt.Keeps R G I init := by
  intro fs e h
  unfold MtpMount.init
  rw [Attempt.wp_bind, Attempt.wp_get, Attempt.wp_bind, orIoError_wp, Attempt.wp_mk]
  refine wp_call.mpr ⟨(hM.init h).1, fun a e₁ hr => ?_⟩
  have h₁ := (hM.init h).2 a e₁ hr
  rcases a with err | infos
  · exact h₁
  · refine Attempt.Keeps.bind (keeps_addStorages hM infos) (fun _ => ?_) fs e₁ h₁
    refine .bind (.modify fun fs' e' h' => ?_) fun _ => ?_
    · have hd : I { fs' with link := { fs'.link with
          dirsLoaded := fs'.link.dirsLoaded.insert FUSE_ROOT_INODE true } } e' :=
        (hM.link fs').rootLoaded h'
      exact hM.setStorages infos hd
    · refine .get_bind fun fs' e' h' => ?_
      rw [Attempt.wp_bind]
      exact tell_wp.mpr (hM.spawn h')

theorem keeps_lookup (parent : Nat) (name : Option String) :
    Attempt.Keeps R G I (lookup parent name) := by
  intro fs e h
  unfold lookup
  rw [Attempt.wp_bind]
  refine nameOr_wp (fun n _ => ?_) h
  refine Attempt.Keeps.bind (keeps_loadListing hM.toAskingInvariant parent) (fun _ => ?_) fs e h
  refine .get_bind fun fs' e' h' => ?_
  split
  · exact h'
  · split
    · exact h'
    · exact (Attempt.wp_lift _).mpr (wp_panics.mpr (hM.panic h' ‹_› ‹_›))

theorem keeps_readdir (ino offset room : Nat) :
    Attempt.Keeps R G I (readdir ino offset room) :=
  .bind (keeps_loadListing hM.toAskingInvariant ino) fun _ => .bind .get fun _ => .pure _

theorem keeps_opendir (ino : Nat) : Attempt.Keeps R G I (opendir ino) := by
  refine .get_bind fun fs e h => ?_
  split
  · exact h
  · simp only [Attempt.wp_bind, refuseIf_wp, onFiles_wp, Attempt.wp_modify]
    refine ⟨fun _ => h, fun _ => ?_⟩
    have hfh := hM.allocFh h
    exact keeps_forgetListing (hM.link _) hfh

/-! ### Changing objects -/

section Mutations

variable {fs : MtpFs} (hw : fs.readOnly = false)

include hw

/-- A change of the device, asked of a known storage with known handles. -/
theorem mutation_wp {l : Link} {e : E} {c : Call} {storage : Storage} (handles : List ObjectHandle)
    {Q : Answer c → Link → E → Prop} (hc : c.isMutation = true)
    (ht : c.target? = some (storage, handles)) (h : I { fs with link := l } e)
    (hs : storage ∈ l.storages) (hk : ∀ a ∈ handles, K e a)
    (hQ : ∀ a e', I { fs with link := l } e' → (∀ h, K e h → K e' h) →
      (∀ h ∈ c.handed a, K e' h) → Q a l e') :
    Act.wp R G (call c) Q l e := by
  have hw' : ({ fs with link := l } : MtpFs).readOnly = false := hw
  have hm := hM.mutation hw' hc ht h hs hk
  exact wp_call.mpr ⟨hm.1, fun a e' hr => hQ a e' (hm.2 a e' hr).1 (hm.2 a e' hr).2.1
    (hm.2 a e' hr).2.2⟩

theorem createObject_wp {l : Link} {e : E} (parent : Nat) (name : String)
    (h : I { fs with link := l } e) :
    Attempt.wp R G (createObject parent name)
      (fun a l' e' => I { fs with link := l' } e' ∧ K e' a ∧ IsFolder l' parent)
      (fun _ l' e' => I { fs with link := l' } e') l e := by
  have hJ := (hM.link fs).toResolving
  refine withRecovery_wp (I := fun l e => I { fs with link := l } e) (fun _ => hJ)
    (fun l e h => ?_) h
  rw [Attempt.wp_bind]
  refine Attempt.wp_mono (parentHandle_wp hJ parent h) ?_ fun _ _ _ h' => h'
  rintro p l₁ e₁ ⟨h₁, -, hp, hfolder⟩
  rw [Attempt.wp_bind]
  refine storageOf_wp (fun _ => hJ.hang h₁) (fun st hst => ?_) h₁
  rw [Attempt.wp_bind, Attempt.wp_lift]
  refine mutation_wp hM hw p.toList rfl rfl h₁ hst hp
    fun r e₂ h₂ _ hnew => ?_
  obtain ⟨err | a, polled⟩ := r
  · exact h₂
  · exact ⟨h₂, hnew a List.mem_cons_self, hfolder⟩

theorem createFolder_wp {l : Link} {e : E} (parent : Nat) (name : String)
    (h : I { fs with link := l } e) :
    Attempt.wp R G (createFolder parent name)
      (fun a l' e' => I { fs with link := l' } e' ∧ K e' a ∧ IsFolder l' parent)
      (fun _ l' e' => I { fs with link := l' } e') l e := by
  have hJ := (hM.link fs).toResolving
  refine withRecovery_wp (I := fun l e => I { fs with link := l } e) (fun _ => hJ)
    (fun l e h => ?_) h
  rw [Attempt.wp_bind]
  refine Attempt.wp_mono (parentHandle_wp hJ parent h) ?_ fun _ _ _ h' => h'
  rintro p l₁ e₁ ⟨h₁, -, hp, hfolder⟩
  rw [Attempt.wp_bind]
  refine storageOf_wp (fun _ => hJ.hang h₁) (fun st hst => ?_) h₁
  rw [Attempt.wp_mk]
  refine mutation_wp hM hw p.toList rfl rfl h₁ hst hp
    fun r e₂ h₂ _ hnew => ?_
  rcases r with err | a
  · exact h₂
  · exact ⟨h₂, hnew a List.mem_cons_self, hfolder⟩

/-- A change of the object of an inode, whose handle `handleOf` gives. The names
stay what they are meanwhile. -/
theorem objectMutation_wp {handleOf : Nat → MtpM ObjectHandle} {ino : Nat}
    {c : Storage → ObjectHandle → Call} {x : Storage → ObjectHandle → MtpM Unit}
    (hh : GetsHandle R G K handleOf ino) (hc : ∀ st h, (c st h).isMutation = true)
    (ht : ∀ st h, (c st h).target? = some (st, [h]))
    (hx : ∀ (J : Link → E → Prop) st h l e, G e (c st h) →
      (∀ a e', R e (c st h) a e' → J l e') →
      Attempt.wp R G (x st h) (fun _ l' e' => J l' e' ∧ l' = l) (fun _ l' e' => J l' e') l e)
    {l : Link} {e : E} (h : I { fs with link := l } e) :
    Attempt.wp R G (withRecovery (σ := Link) do
      let handle ← handleOf ino
      let storage ← storageOf ino
      x storage handle)
      (fun _ l' e' => I { fs with link := l' } e' ∧ HasToken l' ino ∧
        l'.inodes.lookup = l.inodes.lookup)
      (fun _ l' e' => I { fs with link := l' } e') l e := by
  have hJ := (hM.link fs).toResolving.and_lookup l.inodes.lookup
  generalize hnames : l.inodes.lookup = names at hJ ⊢
  refine Attempt.wp_mono (withRecovery_wp
    (I := fun l' e => I { fs with link := l' } e ∧ l'.inodes.lookup = names)
    (Q := fun _ l' e' => I { fs with link := l' } e' ∧ HasToken l' ino ∧ l'.inodes.lookup = names)
    (fun _ => hJ) (fun l e h => ?_) ⟨h, hnames⟩) (fun _ _ _ h' => h') fun _ _ _ h' => h'.1
  rw [Attempt.wp_bind]
  refine Attempt.wp_mono (hh _ hJ l e h) ?_ fun _ _ _ h' => h'
  rintro a l₁ e₁ ⟨h₁, -, ha, htok⟩
  rw [Attempt.wp_bind]
  refine storageOf_wp (fun _ => hJ.hang h₁) (fun st hst => ?_) h₁
  have hw' : ({ fs with link := l₁ } : MtpFs).readOnly = false := hw
  have hm := hM.mutation hw' (hc st a) (ht st a) h₁.1 hst fun b hb => by
    cases List.mem_singleton.mp hb
    exact ha
  refine Attempt.wp_mono (hx (fun l' e' => I { fs with link := l' } e' ∧
    l'.inodes.lookup = names) st a l₁ e₁ hm.1 fun b e' hr => ⟨(hm.2 b e' hr).1, h₁.2⟩) ?_
    fun _ _ _ h' => h'
  rintro _ l₂ e₂ ⟨h₂, rfl⟩
  exact ⟨h₂.1, htok, h₂.2⟩

theorem deleteObject_wp {handleOf : Nat → MtpM ObjectHandle} {ino : Nat}
    (hh : GetsHandle R G K handleOf ino) {l : Link} {e : E} (h : I { fs with link := l } e) :
    Attempt.wp R G (deleteObject ino handleOf)
      (fun _ l' e' => I { fs with link := l' } e' ∧ HasToken l' ino ∧
        l'.inodes.lookup = l.inodes.lookup)
      (fun _ l' e' => I { fs with link := l' } e') l e := by
  refine objectMutation_wp hM hw hh (c := Call.delete) (fun _ _ => rfl) (fun _ _ => rfl)
    (fun J st a l e hG hR => ?_) h
  refine wp_call.mpr ⟨hG, fun r e' hr => ?_⟩
  rcases r with err | _
  · exact hR _ _ hr
  · exact ⟨hR _ _ hr, rfl⟩

theorem renameObject_wp {ino : Nat} (newName : String) {l : Link} {e : E}
    (h : I { fs with link := l } e) :
    Attempt.wp R G (renameObject ino newName)
      (fun _ l' e' => I { fs with link := l' } e' ∧ HasToken l' ino ∧
        l'.inodes.lookup = l.inodes.lookup)
      (fun _ l' e' => I { fs with link := l' } e') l e := by
  refine objectMutation_wp hM hw (getsHandle_objectHandle ino)
    (c := fun st a => .rename st a newName) (fun _ _ => rfl) (fun _ _ => rfl)
    (fun J st a l e hG hR => ?_) h
  refine wp_call.mpr ⟨hG, fun r e' hr => ?_⟩
  rcases r with err | _
  · exact hR _ _ hr
  · exact ⟨hR _ _ hr, rfl⟩

/-- A move leaves the object resolved, below a live folder. -/
theorem moveObject_wp {ino newParent : Nat} {l : Link} {e : E} (h : I { fs with link := l } e) :
    Attempt.wp R G (moveObject ino newParent)
      (fun _ l' e' => I { fs with link := l' } e' ∧ Movable l' ino newParent)
      (fun _ l' e' => I { fs with link := l' } e') l e := by
  have hJ := (hM.link fs).toResolving
  refine withRecovery_wp (I := fun l e => I { fs with link := l } e) (fun _ => hJ)
    (fun l e h => ?_) h
  rw [Attempt.wp_bind]
  refine Attempt.wp_mono (objectHandle_wp hJ ino h) ?_ fun _ _ _ h' => h'
  rintro a l₁ e₁ ⟨h₁, -, ha, htok, hfresh⟩
  rw [Attempt.wp_bind]
  refine storageIndex_wp (fun _ => hJ.hang h₁) (fun i hi => ?_) fun _ => h₁
  rw [Attempt.wp_bind]
  refine Attempt.wp_mono (parentHandle_wp hJ newParent h₁) ?_ fun _ _ _ h' => h'
  rintro p l₂ e₂ ⟨h₂, hk, hp, hfolder⟩
  have hi : i < l₂.storages.length := hk.storages ▸ findStorageFrom_lt hi
  rw [Attempt.wp_bind]
  refine storageAt_wp (List.getElem?_eq_getElem hi) ?_
  rw [Attempt.wp_mk]
  refine mutation_wp hM hw _ rfl rfl h₂ (List.getElem_mem hi) (fun b hb => ?_) fun r e₃ h₃ _ _ => ?_
  · rcases List.mem_cons.mp hb with rfl | hb
    · exact hk.known _ ha
    · cases p with
      | none => simp at hb
      | some q =>
        refine hp b ?_
        dsimp only [Option.getD_some] at hb
        split at hb
        · cases hb
        · exact hb
  · rcases r with err | _
    · exact h₃
    · exact ⟨h₃, hk.hasToken htok, .inr ⟨hfolder, hk.fresh ino hfresh⟩⟩

end Mutations

/-! ### Changing the tree -/

theorem addObject_wp {fs : MtpFs} {e : E} (parent : Nat) {a : ObjectHandle} (name : String)
    (isDir : Bool) (h : I fs e) (hw : fs.readOnly = false) (ha : K e a)
    (hp : IsFolder fs.link parent) {X : Errno → MtpFs → E → Prop} :
    Attempt.wp R G (addObject parent a name isDir)
      (fun ino fs' e' => I fs' e' ∧ fs'.readOnly = false ∧
        ∃ entry, fs'.link.inodes.get ino = some entry) X fs e := by
  unfold addObject
  rw [Attempt.wp_bind]
  refine tell_wp.mpr ⟨((hM.link fs).aside rfl h).1, fun now e₁ hr => ?_⟩
  obtain ⟨h₁, hmono⟩ := ((hM.link fs).aside rfl h).2 _ _ hr
  refine ⟨hM.addObject parent a name isDir now hw h₁ (hmono a ha) hp, hw, ?_⟩
  obtain ⟨entry, hentry, -⟩ := InodeTable.live_addObject fs.link.inodes parent a name isDir 0 now
  exact ⟨entry, hentry⟩

omit hM in
theorem entryAt_wp {fs : MtpFs} {e : E} {ino : Nat} {Q : InodeEntry → MtpFs → E → Prop}
    {X : Errno → MtpFs → E → Prop} (hl : ∃ entry, fs.link.inodes.get ino = some entry)
    (hQ : ∀ entry, Q entry fs e) : Attempt.wp R G (entryAt ino) Q X fs e := by
  obtain ⟨entry, hl⟩ := hl
  unfold entryAt
  simp only [Attempt.wp_bind, Attempt.wp_get, hl]
  exact hQ entry

theorem keeps_mkdir (parent : Nat) (name : Option String) :
    Attempt.Keeps R G I (mkdir parent name) := by
  refine keeps_guarded fun fs e h hw => ?_
  rw [Attempt.wp_bind]
  refine nameOr_wp (fun n _ => ?_) h
  unfold guardDir
  simp only [Attempt.wp_bind, Attempt.wp_get, refuseIf_wp, orIoError_wp]
  refine ⟨fun _ => h, fun _ => ?_⟩
  refine Attempt.wp_mono (createFolder_wp hM hw parent n h) ?_ fun _ _ _ h' => h'
  rintro a l e₁ ⟨h₁, ha, hp⟩
  refine Attempt.wp_mono (addObject_wp hM parent n true h₁ hw ha hp) ?_ fun _ _ _ h' => h'
  rintro ino fs₂ e₂ ⟨h₂, -, hl⟩
  exact entryAt_wp hl fun _ => h₂

omit hM in
theorem childOf_wp {fs : MtpFs} {e : E} (parent : Nat) (name : Option String)
    {Q : Nat → MtpFs → E → Prop} {X : Errno → MtpFs → E → Prop}
    (hQ : ∀ n ino, name = some n → fs.link.inodes.lookup parent n = some ino → Q ino fs e)
    (hX : X .enoent fs e) : Attempt.wp R G (childOf parent name) Q X fs e := by
  unfold childOf
  rw [Attempt.wp_bind]
  refine nameOr_wp (fun n hn => ?_) hX
  rw [Attempt.wp_bind, Attempt.wp_get]
  split
  · exact hQ n _ hn ‹_›
  · exact hX

theorem deleteChild_wp {fs : MtpFs} {e : E} {ino : Nat} {handleOf : Nat → MtpM ObjectHandle}
    (h : I fs e) (hw : fs.readOnly = false) (hh : GetsHandle R G K handleOf ino) :
    Attempt.wp R G (deleteChild ino handleOf) (fun _ fs' e' => I fs' e') (fun _ fs' e' => I fs' e')
      fs e := by
  unfold deleteChild
  simp only [Attempt.wp_bind, orIoError_wp]
  refine Attempt.wp_mono (deleteObject_wp hM hw hh h) ?_ fun _ _ _ h' => h'
  rintro _ l e₁ ⟨h₁, htok, -⟩
  have hw' : ({ fs with link := l } : MtpFs).readOnly = false := hw
  exact hM.remove ino hw' h₁ htok

theorem keeps_unlink (parent : Nat) (name : Option String) :
    Attempt.Keeps R G I (unlink parent name) := by
  refine keeps_guarded fun fs e h hw => ?_
  rw [Attempt.wp_bind]
  refine childOf_wp parent name (fun n ino _ _ => ?_) h
  simp only [Attempt.wp_bind, Attempt.wp_get, refuseIf_wp]
  exact ⟨fun _ => h, fun _ => deleteChild_wp hM h hw (getsHandle_fileHandle ino)⟩

theorem keeps_rmdir (parent : Nat) (name : Option String) :
    Attempt.Keeps R G I (rmdir parent name) := by
  refine keeps_guarded fun fs e h hw => ?_
  rw [Attempt.wp_bind]
  refine childOf_wp parent name (fun n ino _ _ => ?_) h
  rw [Attempt.wp_bind, Attempt.wp_get]
  split
  · exact deleteChild_wp hM h hw (getsHandle_objectHandle ino)
  · exact h

/-- After both halves the object may go to its new place in the table. -/
theorem renameOnDevice_wp {fs : MtpFs} {e : E} {ino parent : Nat} (newParent : Nat) {name : String}
    (newName : String) (h : I fs e) (hw : fs.readOnly = false) (htok : HasToken fs.link ino)
    (hl : fs.link.inodes.lookup parent name = some ino) :
    Attempt.wp R G (renameOnDevice ino parent newParent name newName)
      (fun _ fs' e' => I fs' e' ∧ fs'.readOnly = false ∧ Movable fs'.link ino newParent)
      (fun _ fs' e' => I fs' e') fs e := by
  have hmove : ∀ l e₁, I { fs with link := l } e₁ → HasToken l ino →
      l.inodes.lookup = fs.link.inodes.lookup → Attempt.wp R G
      (if parent = newParent then pure () else orIoError (moveObject ino newParent))
      (fun _ fs' e' => I fs' e' ∧ fs'.readOnly = false ∧ Movable fs'.link ino newParent)
      (fun _ fs' e' => I fs' e') { fs with link := l } e₁ := by
    intro l e₁ h₁ htok₁ hnames
    split
    · rename_i hparent
      refine ⟨h₁, hw, htok₁, .inl ⟨name, ?_⟩⟩
      rw [← hparent]
      show l.inodes.lookup parent name = some ino
      rw [hnames, hl]
    · rw [orIoError_wp]
      exact Attempt.wp_mono (moveObject_wp hM hw h₁) (fun _ _ _ h' => ⟨h'.1, hw, h'.2⟩)
        fun _ _ _ h' => h'
  unfold renameOnDevice
  rw [Attempt.wp_bind]
  split
  · exact hmove fs.link e h htok rfl
  · rw [orIoError_wp]
    exact Attempt.wp_mono (renameObject_wp hM hw newName h)
      (fun _ l e₁ h₁ => hmove l e₁ h₁.1 h₁.2.1 h₁.2.2) fun _ _ _ h' => h'

theorem keeps_rename (parent : Nat) (name : Option String) (newParent : Nat)
    (newName : Option String) : Attempt.Keeps R G I (rename parent name newParent newName) := by
  refine keeps_guarded fun fs e h hw => ?_
  rw [Attempt.wp_bind]
  refine nameOr_wp (fun n _ => ?_) h
  rw [Attempt.wp_bind]
  refine nameOr_wp (fun n' _ => ?_) h
  rw [Attempt.wp_bind]
  refine childOf_wp parent _ (fun m ino hm hl => ?_) h
  cases hm
  simp only [Attempt.wp_bind, Attempt.wp_get, refuseIf_wp]
  refine ⟨fun _ => h, fun hsome => ?_⟩
  obtain ⟨entry, hget, hne⟩ : ∃ entry, fs.link.inodes.get ino = some entry ∧
      ¬ entry.kind.handle? = none := by simpa using hsome
  obtain ⟨a, ha⟩ := Option.ne_none_iff_exists'.mp hne
  have hend : Attempt.wp R G (renameOnDevice ino parent newParent n n')
      (fun _ fs' e' => I (fs'.withInodes (fs'.link.inodes.rename ino newParent n')) e')
      (fun _ fs' e' => I fs' e') fs e := by
    refine Attempt.wp_mono (renameOnDevice_wp hM newParent n' h hw ⟨entry, a, hget, ha⟩ hl) ?_
      fun _ _ _ h' => h'
    rintro _ fs₁ e₁ ⟨h₁, hw₁, hmov⟩
    exact hM.rename ino newParent n' hw₁ h₁ hmov
  split
  · exact hend
  · unfold guardDir
    simp only [Attempt.wp_bind, Attempt.wp_get, refuseIf_wp]
    exact ⟨fun _ => h, fun _ => hend⟩

/-- The callback neither opens a file nor reads, writes or closes one. -/
def Callback.isStill : Callback → Bool
  | .openFile .. | .read .. | .create .. | .release _ | .write .. | .setattr .. => false
  | _ => true

theorem keeps_still {c : Callback} (hc : c.isStill = true) : Attempt.Keeps R G I (callback c) := by
  cases c with
  | init => exact keeps_init hM
  | lookup parent name => exact keeps_lookup hM parent name
  | getattr ino => exact keeps_getattr ino
  | readdir ino offset room => exact keeps_readdir hM ino offset room
  | mkdir parent name => exact keeps_mkdir hM parent name
  | unlink parent name => exact keeps_unlink hM parent name
  | rmdir parent name => exact keeps_rmdir hM parent name
  | rename parent name newParent newName => exact keeps_rename hM parent name newParent newName
  | statfs => exact keeps_statfs
  | opendir ino => exact keeps_opendir hM ino
  | releasedir => exact .pure _
  | idle => exact .bind (keeps_runBackground hM.toAskingInvariant) fun _ => .pure _
  | _ => cases hc

end Still

/-! ## Opening -/

section Unwritten

variable {I : MtpFs → E → Prop} {K : E → ObjectHandle → Prop} (hM : UnwrittenInvariant R G I K)

include hM

theorem keeps_onFiles (f : Files → α × Files) : Attempt.Keeps R G I (onFiles f) :=
  .modifyGet fun _ _ h => hM.files _ h

theorem keeps_openFile (ino : Nat) (mode : OpenAccMode) :
    Attempt.Keeps R G I (openFile ino mode) := by
  refine .get_bind fun fs e h => ?_
  split
  · exact h
  · rw [Attempt.wp_bind, refuseIf_wp]
    refine ⟨fun _ => h, fun _ => ?_⟩
    rw [Attempt.wp_bind, refuseIf_wp]
    refine ⟨fun _ => h, fun _ => ?_⟩
    exact Attempt.Keeps.bind (keeps_onFiles hM _) (fun _ =>
      .bind (keeps_onFiles hM _) fun _ => .pure _) fs e h

theorem keeps_create (parent : Nat) (name : Option String) :
    Attempt.Keeps R G I (create parent name) := by
  refine keeps_guarded fun fs e h hw => ?_
  rw [Attempt.wp_bind]
  refine nameOr_wp (fun n _ => ?_) h
  unfold guardDir
  simp only [Attempt.wp_bind, Attempt.wp_get, refuseIf_wp, orIoError_wp]
  refine ⟨fun _ => h, fun _ => ?_⟩
  refine Attempt.wp_mono (createObject_wp hM.still hw parent n h) ?_ fun _ _ _ h' => h'
  rintro a l e₁ ⟨h₁, ha, hp⟩
  refine Attempt.wp_mono (addObject_wp hM.still parent n false h₁ hw ha hp) ?_ fun _ _ _ h' => h'
  rintro ino fs₂ e₂ ⟨h₂, hw₂, hl⟩
  simp only [onFiles_wp]
  refine Attempt.wp_mono (openWriteBuf_wp hM.link (hM.openBuf _ ino 0) (hM.files _ h₂) hw₂) ?_
    fun _ _ _ h' => h'
  rintro _ fs₃ e₃ ⟨h₃, -, hlink⟩
  refine entryAt_wp ?_ fun _ => h₃
  rw [hlink]
  exact hl

/-- The callback may write to a buffer or close one. -/
def Callback.writes : Callback → Bool
  | .release _ | .write .. | .setattr .. => true
  | _ => false

theorem keeps_unwriting {c : Callback} (hc : c.writes = false) :
    Attempt.Keeps R G I (callback c) := by
  cases c with
  | openFile ino mode => exact keeps_openFile hM ino mode
  | read ino fh offset size => exact keeps_readFile (hM.reading ino) fh offset size
  | create parent name => exact keeps_create hM parent name
  | release fh => cases hc
  | write ino fh offset data => cases hc
  | setattr ino size fh => cases hc
  | _ => exact keeps_still hM.still rfl

end Unwritten

/-! ## Writing -/

section Writing

variable {I : MtpFs → E → Prop} {K : E → ObjectHandle → Prop} {ino fh : Nat}

theorem keeps_write (hM : WriteInvariant R G ino fh I K) (offset : Nat) (data : Bytes) :
    Attempt.Keeps R G I (write ino fh offset data) := by
  refine keeps_guarded fun fs e h hw => ?_
  rw [Attempt.wp_bind]
  refine Attempt.wp_mono (ensureWriteBuf_wp hM.link hM.openBuf h hw) ?_ fun _ _ _ h' => h'
  rintro _ fs₁ e₁ ⟨h₁, hw₁, -⟩
  rw [Attempt.wp_bind]
  refine tell_wp.mpr ⟨((hM.link fs₁).aside rfl h₁).1, fun fault e₂ hr => ?_⟩
  have h₂ := (((hM.link fs₁).aside rfl h₁).2 _ _ hr).1
  rw [Attempt.wp_bind, onWriteBuf_wp]
  split
  · exact hM.writeBuf _ _ _ hw₁ h₂
  · exact hM.writeBuf _ _ _ hw₁ h₂

theorem keeps_setSize (newSize : Nat) {fh : Option Nat}
    (hM : ∀ a, fh = some a → WriteInvariant R G ino a I K) :
    Attempt.Keeps R G I (setSize ino newSize fh) := by
  refine keeps_guarded fun fs e h hw => ?_
  cases fh with
  | none => exact h
  | some fh =>
    have hM := hM fh rfl
    dsimp only
    rw [Attempt.wp_bind]
    refine Attempt.wp_mono (ensureWriteBuf_wp hM.link hM.openBuf h hw) ?_ fun _ _ _ h' => h'
    rintro _ fs₁ e₁ ⟨h₁, hw₁, -⟩
    split
    · rw [Attempt.wp_bind, onWriteBuf_wp]
      refine Attempt.wp_mono (openWriteBuf_wp hM.link (hM.openBuf 0) (hM.closeBuf hw₁ h₁) hw₁) ?_
        fun _ _ _ h' => h'
      rintro _ fs₂ e₂ ⟨h₂, -, -⟩
      exact h₂
    · exact h₁

theorem keeps_setattr (size : Option Nat) {fh : Option Nat}
    (hM : ∀ a, fh = some a → WriteInvariant R G ino a I K) :
    Attempt.Keeps R G I (setattr ino size fh) := by
  refine .bind ?_ fun _ => .get_bind fun fs e h => ?_
  · cases size with
    | none => exact .pure _
    | some newSize => exact keeps_setSize newSize hM
  · split
    · exact h
    · split
      · exact h
      · exact h

end Writing

/-! ## Dispatch -/

section Dispatch

variable {I : MtpFs → E → Prop} {K : E → ObjectHandle → Prop} (hM : MountInvariant R G I K)

include hM

theorem keeps_release (fh : Nat) : Attempt.Keeps R G I (release fh) := by
  refine .bind .get fun fs => .bind ?_ fun flushed =>
    .bind (keeps_onFiles hM.toUnwrittenInvariant _) fun _ => ?_
  · split
    · exact fun fs e h => hM.flush fh h
    · exact .pure _
  · rcases flushed with err | _
    · exact .throw _
    · exact .pure _

theorem keeps_callback (c : Callback) : Attempt.Keeps R G I (callback c) := by
  cases c with
  | release fh => exact keeps_release hM fh
  | write ino fh offset data => exact keeps_write (hM.writing ino fh) offset data
  | setattr ino size fh => exact keeps_setattr size fun a _ => hM.writing ino a
  | _ => exact keeps_unwriting hM.toUnwrittenInvariant rfl

/-- Every callback keeps the invariant, and its calls meet the guard. -/
theorem dispatch_keeps (c : Callback) {fs : MtpFs} {e : E} (h : I fs e) :
    Act.wp R G (dispatch c) (fun _ fs' e' => I fs' e') fs e :=
  dispatch_wp.mpr (keeps_callback hM c fs e h)

end Dispatch

/-- A release that replies success has recorded an upload of the handle's buffer,
or there was none and nothing was asked of the device. -/
theorem release_wp {J : Link → E → Prop} {K : E → ObjectHandle → Prop} {P : Call → Prop}
    {D : Bytes → Nat → Link → E → Prop} (hF : FlushInvariant R G J K P D) (fh : Nat) {fs : MtpFs}
    {e : E} (hP : ∀ b, fs.writeBuf.buffers.lookup fh = some b → ∀ c, Call.Streams b.file.content c → P c)
    (h : J fs.link e) :
    Attempt.wp R G (release fh)
      (fun r fs' e' => r = .ok ∧ fs'.files = fs.files.closeHandle fh ∧
        fs'.writeBuf = (fs.writeBuf.close fh).2 ∧
        (∀ b, fs.writeBuf.buffers.lookup fh = some b → b.dirty = true →
          D b.file.content b.inode fs'.link e') ∧
        ((∀ b, fs.writeBuf.buffers.lookup fh = some b → b.dirty = false) →
          fs'.link = fs.link ∧ e' = e))
      (fun _ fs' _ => fs'.files = fs.files.closeHandle fh ∧
        fs'.writeBuf = (fs.writeBuf.close fh).2) fs e := by
  unfold release
  simp only [Attempt.wp_bind, Attempt.wp_get]
  split
  · rename_i hopen
    obtain ⟨buf, hbuf⟩ := Option.isSome_iff_exists.mp hopen
    have hclose : (fs.writeBuf.close fh).1 = some buf := hbuf
    unfold flushToMtp
    rw [Attempt.wp_bind, onWriteBuf_wp, hclose]
    dsimp only
    rw [device_wp]
    refine Attempt.wp_mono (flushBuffer_wp hF (hP buf hbuf) rfl h) ?_ fun _ _ _ _ => ⟨rfl, rfl⟩
    intro _ l' e' h'
    refine ⟨rfl, rfl, rfl, fun b hb hdirty => ?_, fun hclean => ?_⟩
    · cases hbuf.symm.trans hb
      rw [if_pos hdirty] at h'
      exact h'
    · rw [hclean buf hbuf, if_neg Bool.false_ne_true] at h'
      exact h'
  · rename_i hopen
    have hsame := WriteBuffer.close_of_not_isOpen hopen
    refine ⟨rfl, rfl, hsame.symm, fun b hb _ => ?_, fun _ => ⟨rfl, rfl⟩⟩
    rw [WriteBuffer.isOpen, hb] at hopen
    exact absurd rfl hopen

theorem flushToMtp_wp {J : Link → E → Prop} {K : E → ObjectHandle → Prop}
    (hF : FlushInvariant R G J K (fun _ => True) fun _ _ => J) (fh : Nat) {fs : MtpFs} {e : E}
    (h : J fs.link e) :
    Attempt.wp R G (flushToMtp fh) (fun _ fs' e' => J fs'.link e') (fun _ fs' e' => J fs'.link e')
      fs e := by
  unfold flushToMtp
  rw [Attempt.wp_bind, onWriteBuf_wp]
  split
  · exact h
  · rw [device_wp]
    exact flushBuffer_keeps hF (fun _ _ => trivial) rfl h

/-- The invariant `J` of the link survives everything a callback does. -/
structure LinkInvariant (R : Answers Call Answer E) (G : E → Call → Prop) (J : Link → E → Prop)
    (K : E → ObjectHandle → Prop) : Prop
    extends Queries R G J K, FlushInvariant R G J K (fun _ => True) (fun _ _ => J) where
  init : ∀ {l e}, J l e → G e (.storages l.device) ∧
    ∀ a e', R e (.storages l.device) a e' → J l e'
  addStorage : ∀ {l e} sid name now, J l e →
    J { l with inodes := (l.inodes.addStorageAt sid name now).2 } e
  setStorages : ∀ {l e} infos, J l e → J { l with storages := l.device.bindStorages infos } e
  spawn : ∀ {l e}, J l e → G e (.spawnEventLoop l.device l.eventEpoch) ∧
    ∀ a e', R e (.spawnEventLoop l.device l.eventEpoch) a e' → J l e'
  addObject : ∀ {l e} parent h name isDir now, J l e → K e h → IsFolder l parent →
    J { l with inodes := (l.inodes.addObject parent h name isDir 0 now).2 } e
  remove : ∀ {l e} ino, J l e → HasToken l ino → J { l with inodes := l.inodes.remove ino } e
  rename : ∀ {l e} ino newParent newName, J l e → Movable l ino newParent →
    J { l with inodes := l.inodes.rename ino newParent newName } e
  panic : ∀ {l e parent name ino}, J l e → l.inodes.lookup parent name = some ino →
    l.inodes.get ino = none → G e .panic

theorem LinkInvariant.mount {J : Link → E → Prop} {K : E → ObjectHandle → Prop}
    (hL : LinkInvariant R G J K) : MountInvariant R G (fun fs e => J fs.link e) K where
  link := fun _ => hL.toQueries
  files := fun _ h => h
  readBuf := fun _ _ _ _ h => h
  openBuf := fun _ _ _ _ _ h => h
  flush := fun fh h => flushToMtp_wp hL.toFlushInvariant fh h
  init := fun h => hL.init h
  addStorage := fun sid name now h => hL.addStorage sid name now h
  setStorages := fun infos h => hL.setStorages infos h
  spawn := fun h => hL.spawn h
  writeBuf := fun _ _ _ _ _ h => h
  closeBuf := fun _ _ h => h
  mutation := fun _ hc ht h hs hk =>
    ⟨(hL.mutation hc trivial ht h hs hk).1,
      fun a e' hr => (hL.mutation hc trivial ht h hs hk).2 a e' hr⟩
  addObject := fun parent a name isDir now _ h hk hp =>
    hL.addObject parent a name isDir now h hk hp
  remove := fun ino _ h ht => hL.remove ino h ht
  rename := fun ino newParent newName _ h hm => hL.rename ino newParent newName h hm
  panic := fun h hl hg => hL.panic h hl hg

/-- In every state that a run reaches, whatever the callbacks were, the
invariant holds, and every call that a further callback makes meets the guard. -/
theorem MountInvariant.served {I : MtpFs → E → Prop} {K : E → ObjectHandle → Prop}
    (hM : MountInvariant R G I K) {ok : List (Callback × Reply) → MtpFs → E → Callback → Prop}
    {fs₀ fs : MtpFs} {e₀ e : E} {h : List (Callback × Reply)} (h₀ : I fs₀ e₀)
    (hr : Served R dispatch ok fs₀ e₀ h fs e) :
    I fs e ∧ ∀ c call e', Prog.Makes R (dispatch c fs) e call e' → G e' call := by
  have hi : I fs e := hr.invariant (I := fun _ fs e => I fs e) (G := G) h₀
    fun _ _ _ c hi _ => dispatch_keeps hM c hi
  exact ⟨hi, fun c _ _ hm => Prog.wp_makes (dispatch_keeps hM c hi) hm⟩

end MtpMount
