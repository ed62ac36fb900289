import MtpMount.Device

/-!
# Sessions and recovery

The part of the mount that has to do with the device's sessions: `Link` holds
what a reconnect replaces. `withRecovery` runs an operation across link losses
and stale handles, `ensureFresh` resolves a handle again by path.
-/

namespace MtpMount

open Interaction

/-- The device, its storages, the inode tree on top of them, and how to get the
device back. -/
structure Link where
  policy : ReconnectPolicy
  /-- How the opener names the device. -/
  describe : String
  device : MtpDevice
  storages : List Storage
  inodes : InodeTable
  dirsLoaded : HashMap Nat Bool
  eventEpoch : Nat
  /-- Why the mount is to be taken down. -/
  shutdown : Option String

abbrev LinkM := Act Call Answer Link

/-- A device operation: it may fail with a device error. -/
abbrev MtpM := Attempt Call Answer Link Error

/-- A state that has a `Link` in it. -/
class HasLink (σ : Type) where
  link : σ → Link
  setLink : σ → Link → σ
  link_setLink : ∀ s l, link (setLink s l) = l
  setLink_setLink : ∀ s l l', setLink (setLink s l) l' = setLink s l'
  setLink_link : ∀ s, setLink s (link s) = s

instance : HasLink Link :=
  ⟨id, fun _ l => l, fun _ _ => rfl, fun _ _ _ => rfl, fun _ => rfl⟩

section

variable {σ α : Type} [HasLink σ]

/-- Runs an operation on the `Link` of a larger state. -/
def onLink (x : LinkM α) : Act Call Answer σ α := Act.focus HasLink.link HasLink.setLink x

def onLinkM (x : MtpM α) : Attempt Call Answer σ Error α := ExceptT.mk (onLink x.run)

end

/-- How many times an operation is tried across reconnects. -/
def MAX_ATTEMPTS : Nat := 3

/-- How many times an operation re-resolves its handles on one session. -/
def MAX_STALE_RETRIES : Nat := 1

namespace Link

/-- `dirs_loaded` with nothing but the root in it. -/
def rootLoaded : HashMap Nat Bool := (∅ : HashMap Nat Bool).insert FUSE_ROOT_INODE true

/-- Makes every cached handle stale and forgets the listings they came from. -/
def invalidateHandles (l : Link) : Link :=
  { l with inodes := l.inodes.bumpGeneration, dirsLoaded := rootLoaded }

/-- Records the reason to go away; the first one wins. -/
def giveUp (l : Link) (reason : String) : Link :=
  { l with shutdown := l.shutdown.or (some reason) }

/-- Re-points a storage inode at the storage of its name, else at the one in its
position. -/
def remapStorage (storages : List Storage) (t : InodeTable) (ino position : Nat) : InodeTable :=
  match t.get ino with
  | none => t
  | some entry =>
    match (storages.find? fun s => storageName s.toStorageInfo == entry.name).or storages[position]? with
    | some storage => t.setStorageId ino storage.id
    | none => t

def remapStorages (storages : List Storage) (t : InodeTable) : InodeTable :=
  (t.children FUSE_ROOT_INODE).zipIdx.foldl
    (fun t c => remapStorage storages t c.1 c.2) t

/-- The state after a freshly opened device was taken over. -/
def adopted (l : Link) (device : MtpDevice) (storages : List Storage) : Link :=
  { l with
    device
    storages
    inodes := (remapStorages storages l.inodes).bumpGeneration
    dirsLoaded := rootLoaded
    eventEpoch := l.eventEpoch + 1 }

end Link

/-! ## Walking up the tree -/

/-- More steps than a walk without repetition can take. -/
def walkFuel (t : InodeTable) : Nat := t.entries.keys.length + 1

/-- `find_storage_index` from `current`; `none` when the walk is still going. -/
def findStorageFrom (l : Link) : Nat → Nat → Option (Option Nat)
  | 0, _ => none
  | fuel + 1, current =>
    match l.inodes.get current with
    | none => some none
    | some entry =>
      match entry.kind with
      | .storage storageId => some (l.storages.findIdx? fun s => s.id == storageId)
      | _ => if current = entry.parent then some none else findStorageFrom l fuel entry.parent

/-- The file and directory inodes from below the storage down to `current`, put
in front of `chain`. -/
def chainFrom (t : InodeTable) : Nat → Nat → List Nat → Option (Except Error (List Nat))
  | 0, _, _ => none
  | fuel + 1, current, chain =>
    match t.get current with
    | none => some (.error .notFound)
    | some entry =>
      match entry.kind with
      | .root | .storage _ => some (.ok chain)
      | _ =>
        if current = entry.parent then some (.error .notFound)
        else chainFrom t fuel entry.parent (current :: chain)

/-- Find the storage that owns an inode; fails when there is none. -/
def storageIndex (inode : Nat) : MtpM Nat := do
  let l : Link ← get
  match findStorageFrom l (walkFuel l.inodes) inode with
  | none => (hangs : LinkM Nat)
  | some none => throw .notFound
  | some (some i) => pure i

/-- `inner.storages[idx]`. -/
def storageAt (idx : Nat) : MtpM Storage := do
  let l : Link ← get
  match l.storages[idx]? with
  | some storage => pure storage
  | none => (panics : LinkM Storage)

/-- The storage that an inode sits in. -/
def storageOf (inode : Nat) : MtpM Storage := do
  storageAt (← storageIndex inode)

/-! ## Resolving handles by path -/

/-- Refreshes the inodes of a chain from the top down; `parentHandle` is the
handle of the folder that the first one is in. -/
def resolveChain (storageIdx : Nat) : List Nat → Option ObjectHandle → MtpM Unit
  | [], _ => pure ()
  | node :: rest, parentHandle => do
    let l : Link ← get
    match l.inodes.get node with
    | none => throw .notFound
    | some entry =>
      if l.inodes.isFresh node then
        match entry.kind.handle? with
        | some handle => resolveChain storageIdx rest (some handle)
        | none => throw .notFound
      else
        let storage ← storageAt storageIdx
        let objects : List ObjectInfo ← ExceptT.mk (call (.listObjects storage parentHandle))
        match objects.find? fun obj => obj.filename == entry.name with
        | none => throw .notFound
        | some found =>
          modify fun l => { l with inodes := l.inodes.setHandle node found.handle }
          resolveChain storageIdx rest (some found.handle)

/-- Re-resolves the handle of an inode that came from an older session, and of
every directory on the way down to it. -/
def ensureFresh (inode : Nat) : MtpM Unit := do
  let l : Link ← get
  if l.inodes.isFresh inode then pure () else
  match chainFrom l.inodes (walkFuel l.inodes) inode [] with
  | none => (hangs : LinkM Unit)
  | some (.error e) => throw e
  | some (.ok chain) =>
    let storageIdx ← storageIndex inode
    resolveChain storageIdx chain none

/-- The current handle of a file inode. -/
def fileHandle (inode : Nat) : MtpM ObjectHandle := do
  ensureFresh inode
  let l : Link ← get
  match (l.inodes.get inode).map InodeEntry.kind with
  | some (.file handle) => pure handle
  | _ => throw .notFound

/-- The current handle of a file or directory inode. -/
def objectHandle (inode : Nat) : MtpM ObjectHandle := do
  ensureFresh inode
  let l : Link ← get
  match (l.inodes.get inode).map InodeEntry.kind with
  | some (.file handle) => pure handle
  | some (.directory handle) => pure handle
  | _ => throw .notFound

/-- The parent handle for operations inside a directory; `none` means the root
of its storage. -/
def parentHandle (inode : Nat) : MtpM (Option ObjectHandle) := do
  ensureFresh inode
  let l : Link ← get
  match (l.inodes.get inode).map InodeEntry.kind with
  | some (.storage _) => pure none
  | some (.directory handle) => pure (some handle)
  | _ => throw .notFound

/-! ## Recovery -/

def invalidateHandles : LinkM Unit := do
  call .invalidated
  modify Link.invalidateHandles

/-- Takes over a freshly opened device. -/
def adopt (device : MtpDevice) : MtpM Unit := do
  let infos : List StorageInfo ← ExceptT.mk (call (.storages device))
  (call .invalidated : LinkM Unit)
  modify fun l => l.adopted device (device.bindStorages infos)
  let epoch := (← get).eventEpoch
  (call (.spawnEventLoop device epoch) : LinkM Unit)

/-- The reopen attempts of one reconnect, after the given pauses. -/
def reconnectAfter : List Nat → MtpM Unit
  | [] => do
    modify fun l => l.giveUp s!"{l.describe} didn't come back within {l.policy.timeout / 1000}s"
    throw .disconnected
  | delay :: rest => do
    (call (.sleep delay) : LinkM Unit)
    if ← (call .isUnplugged : LinkM Bool) then reconnectAfter rest else
    match ← Attempt.outcome (ExceptT.mk (call .openDevice)) with
    | .error _ => reconnectAfter rest
    | .ok device =>
      match ← Attempt.outcome (adopt device) with
      | .ok () => pure ()
      | .error _ => reconnectAfter rest

/-- Waits for the device to come back; gives the mount up when it does not. -/
def reconnect : MtpM Unit := do
  let l : Link ← get
  if l.policy.isDisabled then
    modify fun l =>
      l.giveUp s!"{l.describe} disconnected and reconnect is off (--reconnect-timeout 0)"
    throw .disconnected
  else
    reconnectAfter l.policy.schedule

section

variable {σ α : Type} [HasLink σ]

/-- One turn of the inner loop of `with_recovery`: `none` leaves it for the
reconnect. `retry` is what follows a stale handle. -/
def recoveryTurn (attempt : Attempt Call Answer σ Error α)
    (retry : Error → Act Call Answer σ (Option (Except Error α))) :
    Act Call Answer σ (Option (Except Error α)) := do
  if ← call .isUnplugged then pure none else
  match ← attempt.run with
  | .ok value => pure (some (.ok value))
  | .error e =>
    if e.isStaleHandle then retry e
    else if !isLinkLost e then pure (some (.error e))
    else pure none

/-- The inner loop, with so many stale handles left to forgive. -/
def sessionLoop (attempt : Attempt Call Answer σ Error α) :
    Nat → Act Call Answer σ (Option (Except Error α))
  | 0 => recoveryTurn attempt fun e => pure (some (.error e))
  | staleRetries + 1 => recoveryTurn attempt fun _ => do
      onLink invalidateHandles
      sessionLoop attempt staleRetries

/-- The outer loop, with so many rounds left. -/
def recoveryRounds (attempt : Attempt Call Answer σ Error α) :
    Nat → Attempt Call Answer σ Error α
  | 0 => throw .disconnected
  | rounds + 1 => do
    match ← monadLift (sessionLoop attempt MAX_STALE_RETRIES) with
    | some (.ok value) => pure value
    | some (.error e) => throw e
    | none =>
      onLinkM reconnect
      recoveryRounds attempt rounds

/-- Runs an operation, riding out a lost session and a stale handle. -/
def withRecovery (attempt : Attempt Call Answer σ Error α) : Attempt Call Answer σ Error α :=
  recoveryRounds attempt MAX_ATTEMPTS

end

/-! ## Listings -/

def childInfo (obj : ObjectInfo) : ChildInfo where
  handle := obj.handle
  name := obj.filename
  isDir := obj.isFolder
  size := obj.size
  mtime := (obj.modified.map mtpDatetimeToSystemTime).getD UNIX_EPOCH

/-- One listing pass: ask the device, then reconcile the table. -/
def listIntoTable (parentInode : Nat) : MtpM Unit := do
  let mtpParent ← parentHandle parentInode
  let storage ← storageOf parentInode
  let objects : List ObjectInfo ← ExceptT.mk (call (.listObjects storage mtpParent))
  modify fun l => { l with inodes := l.inodes.syncChildren parentInode (objects.map childInfo) }

/-- Loads the children of a directory unless they are; a failure is only logged. -/
def loadDir (parentInode : Nat) : LinkM Unit := do
  let l : Link ← get
  let loaded : LinkM Unit :=
    modify fun l => { l with dirsLoaded := l.dirsLoaded.insert parentInode true }
  if l.dirsLoaded.lookup parentInode = some true then pure ()
  else if parentInode = FUSE_ROOT_INODE then loaded
  else
    match ← (withRecovery (listIntoTable parentInode)).run with
    | .ok () => loaded
    | .error _ => pure ()

end MtpMount
