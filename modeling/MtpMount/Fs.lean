import MtpMount.Fill
import MtpMount.Flush

/-!
# The filesystem

The mounted filesystem: its state and every callback of the kernel. `fuser` runs
one callback at a time; the event loop and the fillers run beside them and get
their turn when the lock is free (`runBackground`). A name is `none` when it is
not UTF-8.
-/

namespace MtpMount

open Interaction

structure MtpFs where
  readOnly : Bool
  /-- Ceiling on the whole-object read fallback; `0` lifts it. -/
  fullDownloadLimit : Nat
  link : Link
  writeBuf : WriteBuffer
  files : Files

instance : HasLink MtpFs :=
  ⟨MtpFs.link, fun fs l => { fs with link := l }, fun _ _ => rfl, fun _ _ _ => rfl, fun _ => rfl⟩

/-- Everything the mount needs beyond the device itself. -/
structure MtpFsConfig where
  readOnly : Bool
  reconnect : ReconnectPolicy
  fullDownloadLimit : Nat

/-- A filesystem over an already open device. -/
def MtpFs.new (device : MtpDevice) (describe : String) (config : MtpFsConfig) : MtpFs where
  readOnly := config.readOnly
  fullDownloadLimit := config.fullDownloadLimit
  link :=
    { policy := config.reconnect, describe, device, storages := [], inodes := .new,
      dirsLoaded := ∅, eventEpoch := 0, shutdown := none }
  writeBuf := .new
  files := .new

inductive Errno where
  | enoent | eio | eisdir | enotdir | erofs | einval | efbig
  deriving DecidableEq, Repr

inductive FileType where
  | directory | regularFile
  deriving DecidableEq, Repr

structure FileAttr where
  ino : Nat
  size : Nat
  blocks : Nat
  atime : SystemTime
  mtime : SystemTime
  ctime : SystemTime
  crtime : SystemTime
  kind : FileType
  perm : Nat
  nlink : Nat
  blksize : Nat
  deriving DecidableEq, Repr

/-- `n.div_ceil(512)`. -/
def blocksOf (size : Nat) : Nat := (size + 511) / 512

def fileTypeOf (entry : InodeEntry) : FileType :=
  if entry.isDir then .directory else .regularFile

def inodeToFileAttr (entry : InodeEntry) : FileAttr where
  ino := entry.inode
  size := entry.size
  blocks := blocksOf entry.size
  atime := entry.atime
  mtime := entry.mtime
  ctime := entry.mtime
  crtime := entry.mtime
  kind := fileTypeOf entry
  perm := if entry.isDir then 0o755 else 0o644
  nlink := if entry.isDir then 2 else 1
  blksize := 4096

def FileAttr.withSize (attr : FileAttr) (size : Nat) : FileAttr :=
  { attr with size, blocks := blocksOf size }

structure DirEntry where
  ino : Nat
  offset : Nat
  kind : FileType
  name : String
  deriving DecidableEq, Repr

structure StatFs where
  blocks : Nat
  bfree : Nat
  bavail : Nat
  files : Nat
  ffree : Nat
  bsize : Nat
  namelen : Nat
  frsize : Nat
  deriving DecidableEq, Repr

/-- What a callback replies to the kernel. -/
inductive Reply where
  | error (e : Errno)
  | entry (attr : FileAttr)
  | attr (attr : FileAttr)
  | opened (fh : Nat)
  | data (bytes : Bytes)
  | written (n : Nat)
  | created (attr : FileAttr) (fh : Nat)
  | directory (entries : List DirEntry)
  | statfs (st : StatFs)
  | ok
  deriving DecidableEq, Repr

def Reply.isError : Reply → Bool
  | .error _ => true
  | _ => false

inductive OpenAccMode where
  | readOnly | writeOnly | readWrite
  deriving DecidableEq, Repr

/-- A callback with the arguments it looks at. -/
inductive Callback where
  | init
  | lookup (parent : Nat) (name : Option String)
  | getattr (ino : Nat)
  /-- `room` entries fit the reply's buffer. -/
  | readdir (ino offset room : Nat)
  | openFile (ino : Nat) (mode : OpenAccMode)
  | read (ino fh offset size : Nat)
  | release (fh : Nat)
  | write (ino fh offset : Nat) (data : Bytes)
  | create (parent : Nat) (name : Option String)
  | mkdir (parent : Nat) (name : Option String)
  | unlink (parent : Nat) (name : Option String)
  | rmdir (parent : Nat) (name : Option String)
  | rename (parent : Nat) (name : Option String) (newParent : Nat) (newName : Option String)
  | setattr (ino : Nat) (size fh : Option Nat)
  | statfs
  | opendir (ino : Nat)
  | releasedir
  /-- No callback: the other tasks run. -/
  | idle
  deriving DecidableEq, Repr

/-- A callback's body; it may stop with an error reply. -/
abbrev FsM := Attempt Call Answer MtpFs Errno

/-! ## Between the callback and the rest -/

/-- A call that is always answered. -/
def tell (c : Call) : FsM (Answer c) := (call c : Act Call Answer MtpFs (Answer c))

/-- Runs a device operation and hands its outcome back. -/
def device {α : Type} (x : MtpM α) : FsM (Except Error α) :=
  (onLink x.run : Act Call Answer MtpFs (Except Error α))

/-- A device operation whose failure the callback reports as `eio`. -/
def orIoError {α : Type} (x : MtpM α) : FsM α := do
  match ← device x with
  | .ok a => pure a
  | .error _ => throw .eio

/-- A step on the open files. -/
def onFiles {α : Type} (f : Files → α × Files) : FsM α :=
  modifyGet fun fs => ((f fs.files).1, { fs with files := (f fs.files).2 })

/-- A step on the write buffers. -/
def onWriteBuf {α : Type} (f : WriteBuffer → α × WriteBuffer) : FsM α :=
  modifyGet fun fs => ((f fs.writeBuf).1, { fs with writeBuf := (f fs.writeBuf).2 })

/-- Replies an error when the condition holds. -/
def refuseIf (c : Prop) [Decidable c] (e : Errno) : FsM Unit := if c then throw e else pure ()

/-- A UTF-8 name, or the error the callback has for any other. -/
def nameOr (e : Errno) : Option String → FsM String
  | some name => pure name
  | none => throw e

namespace MtpFs

/-- The mount with another inode table. -/
def withInodes (fs : MtpFs) (t : InodeTable) : MtpFs :=
  { fs with link := { fs.link with inodes := t } }

/-- Marks all cached directories as stale. -/
def invalidateAllDirs (fs : MtpFs) : MtpFs :=
  { fs with link := { fs.link with
      dirsLoaded := fs.link.dirsLoaded.retain fun k _ => k == FUSE_ROOT_INODE } }

def forgetListing (fs : MtpFs) (ino : Nat) : MtpFs :=
  { fs with link := { fs.link with dirsLoaded := fs.link.dirsLoaded.erase ino } }

/-- The inode is a file with this handle. -/
def isFileWith (t : InodeTable) (handle : ObjectHandle) (ino : Nat) : Bool :=
  (t.get ino).any fun e => e.kind == .file handle

/-- Invalidates what an event makes stale. -/
def handleEvent (fs : MtpFs) : DeviceEvent → MtpFs
  | .objectAdded handle | .objectRemoved handle =>
    match fs.link.inodes.findParentByHandle handle with
    | some parent => fs.forgetListing parent
    | none => fs.invalidateAllDirs
  | .objectInfoChanged handle =>
    let fs := match fs.link.inodes.findParentByHandle handle with
      | some parent => fs.forgetListing parent
      | none => fs
    { fs with files := { fs.files with
        readCache := fs.files.readCache.retain fun ino _ =>
          !isFileWith fs.link.inodes handle ino } }
  | .storageChanged => fs.invalidateAllDirs
  | .other => fs

def backgroundStep (fs : MtpFs) : BackgroundStep → MtpFs
  | .event e => fs.handleEvent e
  | .filler id fault => { fs with files := fs.files.fillerStep id fault }

end MtpFs

/-- The lock is free: other tasks take some steps. -/
def runBackground : FsM Unit := do
  let steps : List BackgroundStep ← tell .background
  modify fun fs => steps.foldl MtpFs.backgroundStep fs

/-! ## Looking around -/

/-- `init` adds one storage after the other. -/
def addStorages : List StorageInfo → FsM Unit
  | [] => pure ()
  | storage :: rest => do
    let now : SystemTime ← tell .now
    modify fun fs =>
      fs.withInodes (fs.link.inodes.addStorageAt storage.id (storageName storage) now).2
    addStorages rest

def init : FsM Reply := do
  let fs : MtpFs ← get
  let infos : List StorageInfo ← orIoError (ExceptT.mk (call (.storages fs.link.device)))
  addStorages infos
  modify fun fs => { fs with link := { fs.link with
    dirsLoaded := fs.link.dirsLoaded.insert FUSE_ROOT_INODE true
    storages := fs.link.device.bindStorages infos } }
  let fs : MtpFs ← get
  let _ : Unit ← tell (.spawnEventLoop fs.link.device fs.link.eventEpoch)
  pure .ok

/-- Loads a directory unless it is loaded. -/
def loadListing (ino : Nat) : FsM Unit := (onLink (loadDir ino) : Act Call Answer MtpFs Unit)

def lookup (parent : Nat) (name : Option String) : FsM Reply := do
  let name ← nameOr .enoent name
  loadListing parent
  let fs : MtpFs ← get
  match fs.link.inodes.lookup parent name with
  | none => throw .enoent
  | some ino =>
    match fs.link.inodes.get ino with
    | some entry => pure (.entry (inodeToFileAttr entry))
    | none => (panics : Act Call Answer MtpFs Reply)

/-- The buffered size that `getattr` takes from the first handle of the inode it
meets among the open ones. -/
def bufferedSize (w : WriteBuffer) (ino : Nat) : List ((_ : Nat) × Nat) → Option Nat
  | [] => none
  | ⟨fh, inode⟩ :: rest => if inode = ino then w.size fh else bufferedSize w ino rest

def getattr (ino : Nat) : FsM Reply := do
  let fs : MtpFs ← get
  match fs.link.inodes.get ino with
  | none => throw .enoent
  | some entry =>
    match bufferedSize fs.writeBuf ino fs.files.fhToInode.entries with
    | some size => pure (.attr ((inodeToFileAttr entry).withSize size))
    | none => pure (.attr (inodeToFileAttr entry))

/-- The entries of a directory stream with their offsets. -/
def dirEntries (t : InodeTable) (ino : Nat) : List DirEntry :=
  let parent := ((t.get ino).map InodeEntry.parent).getD FUSE_ROOT_INODE
  ⟨ino, 1, .directory, "."⟩ :: ⟨parent, 2, .directory, ".."⟩ ::
    (t.children ino).zipIdx.filterMap fun c =>
      (t.get c.1).map fun child => ⟨c.1, c.2 + 3, fileTypeOf child, child.name⟩

def readdir (ino offset room : Nat) : FsM Reply := do
  loadListing ino
  let fs : MtpFs ← get
  pure (.directory (((dirEntries fs.link.inodes ino).drop offset).take room))

def saturatingSum (xs : List Nat) : Nat := xs.foldl RangeSet.saturatingAdd 0

def statfs : FsM Reply := do
  let fs : MtpFs ← get
  let blockSize := 4096
  let totalBytes := saturatingSum (fs.link.storages.map fun s => s.totalCapacity)
  let freeBytes := saturatingSum (fs.link.storages.map fun s => s.freeSpace)
  pure (.statfs ⟨totalBytes / blockSize, freeBytes / blockSize, freeBytes / blockSize, 0, 0,
    blockSize, 255, 0⟩)

def opendir (ino : Nat) : FsM Reply := do
  let fs : MtpFs ← get
  match fs.link.inodes.get ino with
  | none => throw .enoent
  | some entry =>
    refuseIf (entry.isDir = false) .enotdir
    let fh ← onFiles Files.allocFh
    modify fun fs => fs.forgetListing ino
    pure (.opened fh)

/-! ## Opening and reading -/

/-- How a read gets its bytes. -/
inductive ReadStrategy where
  | ranged | sequentialFull | tooLargeForSequentialFull
  deriving DecidableEq, Repr

def readStrategy (supportsPartialDownload : Bool) (objectSize limit : Nat) : ReadStrategy :=
  if supportsPartialDownload then .ranged
  else if limit = 0 ∨ objectSize ≤ limit then .sequentialFull
  else .tooLargeForSequentialFull

def MtpFs.readStrategyFor (fs : MtpFs) (objectSize : Nat) : ReadStrategy :=
  readStrategy fs.link.device.supportsPartialDownload objectSize fs.fullDownloadLimit

def openFile (ino : Nat) (mode : OpenAccMode) : FsM Reply := do
  let fs : MtpFs ← get
  match fs.link.inodes.get ino with
  | none => throw .enoent
  | some entry =>
    refuseIf entry.isDir .eisdir
    refuseIf (mode ≠ .writeOnly ∧ fs.readStrategyFor entry.size = .tooLargeForSequentialFull)
      .efbig
    let fh ← onFiles Files.allocFh
    onFiles fun f => ((), f.openHandle fh ino)
    pure (.opened fh)

/-- The cache of an inode, made when there is none yet. -/
def cacheFor (ino size : Nat) : FsM Nat := do
  let fs : MtpFs ← get
  match fs.files.readCache.lookup ino with
  | some c => pure c
  | none =>
    let fault : Option IoError ← tell .createTemp
    refuseIf fault.isSome .eio
    onFiles fun f => f.addCache ino size

/-- A step on one cache. -/
def onCache {α : Type} (c : Nat) (f : SharedSparseCache → α × SharedSparseCache) : FsM α :=
  onFiles fun fs => ((f (fs.cacheAt c)).1, fs.setCache c (f (fs.cacheAt c)).2)

/-- Opens the whole-object download of an inode. -/
def openDownload (ino : Nat) : MtpM (List StreamItem) := withRecovery do
  let handle ← fileHandle ino
  let storage ← storageOf ino
  ExceptT.mk (call (.download storage handle))

/-- Starts the one filler of this cache, unless it has one or had one. -/
def ensureFullFillRunning (ino c : Nat) : FsM Unit := do
  runBackground
  if !(← onCache c SharedSparseCache.startFill) then return
  runBackground
  if !(← onFiles fun f => ((f.fills.register c).1, { f with fills := (f.fills.register c).2 })) then
    runBackground
    onCache c fun cache => ((), cache.fail GOING_AWAY)
    return
  runBackground
  match ← device (openDownload ino) with
  | .error e =>
    runBackground
    onCache c fun cache => ((), cache.fail ⟨.device e, isLinkLost e⟩)
    runBackground
    onFiles fun f => ((), { f with fills := f.fills.finished c })
  | .ok stream => onFiles fun f => ((), f.spawnFiller ino c stream)

/-- The one thread that runs the callbacks. -/
def sessionThread : Nat := 0

/-- Waits until the range is there or cannot come any more. What the fillers do
up to then is one turn of theirs; a wait that this does not end is for ever. -/
def waitAndRead (c offset size : Nat) : FsM (Except FillFailure Bytes) := do
  runBackground
  let fault : Option IoError ← tell .readTemp
  match ← onCache c fun cache => cache.tryRead sessionThread offset size fault with
  | some r => pure r
  | none => (hangs : Act Call Answer MtpFs (Except FillFailure Bytes))

/-- Gets the session back after a full stream lost its link. -/
def recoverFullFillLink (ino : Nat) : MtpM Unit := withRecovery do
  let handle ← fileHandle ino
  let storage ← storageOf ino
  let _ : ObjectInfo ← ExceptT.mk (call (.getObjectInfo storage handle))
  pure ()

/-- One turn of the whole-object read; `retry` follows a recovered link loss. -/
def readFullTurn (ino c offset size : Nat) (retry : FsM Bytes) : FsM Bytes := do
  ensureFullFillRunning ino c
  match ← waitAndRead c offset size with
  | .ok data => pure data
  | .error failure =>
    if failure.linkLost then retry else throw .eio

def readFull (ino c offset size : Nat) : Nat → FsM Bytes
  | 0 => readFullTurn ino c offset size (throw .eio)
  | retries + 1 => readFullTurn ino c offset size do
      runBackground
      orIoError (recoverFullFillLink ino)
      runBackground
      if ← onCache c SharedSparseCache.resetAfterLinkLoss then readFull ino c offset size retries
      else throw .eio

/-- Each ranged transfer is capped at 1 MiB. -/
def READ_CHUNK : Nat := 1024 * 1024

def fetchChunk (ino cursor size : Nat) : MtpM Bytes := withRecovery do
  let handle ← fileHandle ino
  let storage ← storageOf ino
  ExceptT.mk (call (.readRange storage handle cursor size))

/-- Fetches from `cursor` up to `stop`. A chunk has at least one byte or ends
the loop, so `stop - cursor` turns are enough. -/
def fetchRange (ino c entrySize stop : Nat) : Nat → Nat → FsM Unit
  | 0, _ => pure ()
  | fuel + 1, cursor => do
    if cursor ≥ stop then return
    let bytes ← orIoError (fetchChunk ino cursor (min (stop - cursor) READ_CHUNK))
    -- the device may answer more than it was asked for
    let writable := min (entrySize - cursor) bytes.length
    let fault : Option WriteFault ← tell .writeTemp
    match ← onCache c fun cache => cache.writeAt cursor (bytes.take writable) fault with
    | .error _ => throw .eio
    | .ok () =>
      if bytes.length = 0 then return
      fetchRange ino c entrySize stop fuel (cursor + bytes.length)

def fetchRanges (ino c entrySize : Nat) : List ByteRange → FsM Unit
  | [] => pure ()
  | range :: rest => do
    fetchRange ino c entrySize range.stop (range.stop - range.start) range.start
    fetchRanges ino c entrySize rest

def readRanged (ino c entrySize offset size : Nat) : FsM Bytes := do
  let fs : MtpFs ← get
  fetchRanges ino c entrySize ((fs.files.cacheAt c).cache.missingRanges offset size)
  let fs : MtpFs ← get
  refuseIf ((fs.files.cacheAt c).cache.missingRanges offset size ≠ []) .eio
  let fault : Option IoError ← tell .readTemp
  match ← onCache c fun cache => cache.readAt offset size fault with
  | .ok data => pure data
  | .error _ => throw .eio

/-- A read on a handle without a write buffer. -/
def readObject (ino offset size : Nat) : FsM Bytes := do
  let fs : MtpFs ← get
  match fs.link.inodes.get ino with
  | none => throw .enoent
  | some entry =>
    refuseIf entry.isDir .eisdir
    if size = 0 ∨ offset ≥ entry.size then pure [] else
    let c ← cacheFor ino entry.size
    match fs.readStrategyFor entry.size with
    | .tooLargeForSequentialFull => throw .efbig
    | .sequentialFull => readFull ino c offset size 1
    | .ranged => readRanged ino c entry.size offset size

def readFile (ino fh offset size : Nat) : FsM Reply := do
  let fs : MtpFs ← get
  if fs.writeBuf.isOpen fh then
    let fault : Option IoError ← tell .readTemp
    match ← onWriteBuf fun w => w.read fh (asI64 offset) size fault with
    | .ok data => pure (.data data)
    | .error _ => throw .eio
  else
    .data <$> readObject ino offset size

/-! ## Writing and closing -/

/-- Opens a write buffer for the handle unless it has one. -/
def openWriteBuf (fh ino originalSize : Nat) : FsM Unit := do
  let fault : Option IoError ← tell .createTemp
  match ← onWriteBuf fun w => w.openBuffer fh ino originalSize fault with
  | .ok () => pure ()
  | .error _ => throw .eio

/-- A read-only mount refuses. -/
def guardWritable : FsM Unit := do
  let fs : MtpFs ← get
  refuseIf fs.readOnly .erofs

/-- `write` and `setattr` open the buffer of a handle on its first change. -/
def ensureWriteBuf (ino fh : Nat) : FsM Unit := do
  let fs : MtpFs ← get
  if fs.writeBuf.isOpen fh then pure ()
  else openWriteBuf fh ino (((fs.link.inodes.get ino).map InodeEntry.size).getD 0)

def write (ino fh offset : Nat) (data : Bytes) : FsM Reply := do
  guardWritable
  ensureWriteBuf ino fh
  let fault : Option WriteFault ← tell .writeTemp
  match ← onWriteBuf fun w => w.write fh (asI64 offset) data fault with
  | .ok written => pure (.written written)
  | .error _ => throw .eio

def flushToMtp (fh : Nat) : FsM (Except Error Unit) := do
  match ← onWriteBuf fun w => w.close fh with
  | none => pure (.ok ())
  | some buf => device (flushBuffer buf)

def release (fh : Nat) : FsM Reply := do
  let fs : MtpFs ← get
  let flushed ← (if fs.writeBuf.isOpen fh then flushToMtp fh else pure (.ok ()))
  onFiles fun f => ((), f.closeHandle fh)
  match flushed with
  | .ok () => pure .ok
  | .error _ => throw .eio

/-- The part of `setattr` that a new size has; only zero reaches the buffer. -/
def setSize (ino newSize : Nat) (fh : Option Nat) : FsM Unit := do
  guardWritable
  match fh with
  | none => pure ()
  | some fh =>
    ensureWriteBuf ino fh
    if newSize = 0 then
      let _ ← onWriteBuf fun w => w.close fh
      openWriteBuf fh ino 0
    else pure ()

def setattr (ino : Nat) (size fh : Option Nat) : FsM Reply := do
  (match size with
    | some newSize => setSize ino newSize fh
    | none => pure ())
  let fs : MtpFs ← get
  match fs.link.inodes.get ino with
  | none => throw .enoent
  | some entry =>
    match size with
    | some newSize => pure (.attr ((inodeToFileAttr entry).withSize newSize))
    | none => pure (.attr (inodeToFileAttr entry))

/-! ## Changing the tree -/

/-- The parent of a new object has to be a directory. -/
def guardDir (ino : Nat) : FsM Unit := do
  let fs : MtpFs ← get
  refuseIf ((fs.link.inodes.get ino).any InodeEntry.isDir = false) .enotdir

/-- Adds a new object to the table; its number and entry. -/
def addObject (parent : Nat) (handle : ObjectHandle) (name : String) (isDir : Bool) :
    FsM Nat := do
  let now : SystemTime ← tell .now
  modifyGet fun fs =>
    ((fs.link.inodes.addObject parent handle name isDir 0 now).1,
      fs.withInodes (fs.link.inodes.addObject parent handle name isDir 0 now).2)

/-- `inner.inodes.get(ino).unwrap()`. -/
def entryAt (ino : Nat) : FsM InodeEntry := do
  let fs : MtpFs ← get
  match fs.link.inodes.get ino with
  | some entry => pure entry
  | none => (panics : Act Call Answer MtpFs InodeEntry)

/-- The empty object that `create` uploads. -/
def createObject (parent : Nat) (name : String) : MtpM ObjectHandle := withRecovery do
  let mtpParent ← parentHandle parent
  let storage ← storageOf parent
  let r : Except Error ObjectHandle × Nat ←
    (call (.upload storage mtpParent ⟨name, 0⟩ (bytesStream [])) :
      LinkM (Except Error ObjectHandle × Nat))
  match r.1 with
  | .ok handle => pure handle
  | .error e => throw e

def createFolder (parent : Nat) (name : String) : MtpM ObjectHandle := withRecovery do
  let mtpParent ← parentHandle parent
  let storage ← storageOf parent
  ExceptT.mk (call (.createFolder storage mtpParent name))

def create (parent : Nat) (name : Option String) : FsM Reply := do
  guardWritable
  let name ← nameOr .einval name
  guardDir parent
  let handle ← orIoError (createObject parent name)
  let ino ← addObject parent handle name false
  let fh ← onFiles Files.allocFh
  onFiles fun f => ((), f.openHandle fh ino)
  openWriteBuf fh ino 0
  let entry ← entryAt ino
  pure (.created (inodeToFileAttr entry) fh)

def mkdir (parent : Nat) (name : Option String) : FsM Reply := do
  guardWritable
  let name ← nameOr .einval name
  guardDir parent
  let handle ← orIoError (createFolder parent name)
  let ino ← addObject parent handle name true
  let entry ← entryAt ino
  pure (.entry (inodeToFileAttr entry))

/-- The child a callback names. -/
def childOf (parent : Nat) (name : Option String) : FsM Nat := do
  let name ← nameOr .enoent name
  let fs : MtpFs ← get
  match fs.link.inodes.lookup parent name with
  | some ino => pure ino
  | none => throw .enoent

/-- Deletes the object of an inode, whose handle `handleOf` gives. -/
def deleteObject (ino : Nat) (handleOf : Nat → MtpM ObjectHandle) : MtpM Unit := withRecovery do
  let handle ← handleOf ino
  let storage ← storageOf ino
  ExceptT.mk (call (.delete storage handle))

def deleteChild (ino : Nat) (handleOf : Nat → MtpM ObjectHandle) : FsM Reply := do
  orIoError (deleteObject ino handleOf)
  modify fun fs => fs.withInodes (fs.link.inodes.remove ino)
  pure .ok

def unlink (parent : Nat) (name : Option String) : FsM Reply := do
  guardWritable
  let ino ← childOf parent name
  let fs : MtpFs ← get
  refuseIf ((fs.link.inodes.get ino).any InodeEntry.isDir) .eisdir
  deleteChild ino fileHandle

def rmdir (parent : Nat) (name : Option String) : FsM Reply := do
  guardWritable
  let ino ← childOf parent name
  let fs : MtpFs ← get
  match (fs.link.inodes.get ino).map InodeEntry.kind with
  | some (.directory _) => deleteChild ino objectHandle
  | _ => throw .enotdir

def renameObject (ino : Nat) (newName : String) : MtpM Unit := withRecovery do
  let handle ← objectHandle ino
  let storage ← storageOf ino
  ExceptT.mk (call (.rename storage handle newName))

def moveObject (ino newParent : Nat) : MtpM Unit := withRecovery do
  let handle ← objectHandle ino
  let storageIdx ← storageIndex ino
  let newMtpParent ← parentHandle newParent
  let storage ← storageAt storageIdx
  ExceptT.mk (call (.moveObject storage handle (newMtpParent.getD ObjectHandle.ROOT)))

/-- The device half of a rename: the new name, then the new folder. -/
def renameOnDevice (ino parent newParent : Nat) (name newName : String) : FsM Unit := do
  (if name = newName then pure () else orIoError (renameObject ino newName))
  (if parent = newParent then pure () else orIoError (moveObject ino newParent))

def rename (parent : Nat) (name : Option String) (newParent : Nat) (newName : Option String) :
    FsM Reply := do
  guardWritable
  let name ← nameOr .enoent name
  let newName ← nameOr .einval newName
  let ino ← childOf parent (some name)
  let fs : MtpFs ← get
  refuseIf ((fs.link.inodes.get ino).bind fun e => e.kind.handle?).isNone .einval
  (if parent = newParent then pure () else guardDir newParent)
  renameOnDevice ino parent newParent name newName
  modify fun fs => fs.withInodes (fs.link.inodes.rename ino newParent newName)
  pure .ok

/-! ## Dispatch -/

def callback : Callback → FsM Reply
  | .init => init
  | .lookup parent name => lookup parent name
  | .getattr ino => getattr ino
  | .readdir ino offset room => readdir ino offset room
  | .openFile ino mode => openFile ino mode
  | .read ino fh offset size => readFile ino fh offset size
  | .release fh => release fh
  | .write ino fh offset data => write ino fh offset data
  | .create parent name => create parent name
  | .mkdir parent name => mkdir parent name
  | .unlink parent name => unlink parent name
  | .rmdir parent name => rmdir parent name
  | .rename parent name newParent newName => rename parent name newParent newName
  | .setattr ino size fh => setattr ino size fh
  | .statfs => statfs
  | .opendir ino => opendir ino
  | .releasedir => pure .ok
  | .idle => do
    runBackground
    pure .ok

/-- Runs one callback to its reply. -/
def dispatch (c : Callback) : Act Call Answer MtpFs Reply := do
  match ← (callback c).run with
  | .ok reply => pure reply
  | .error e => pure (.error e)

/-- A run of the mount: callbacks in any order, one after another. -/
abbrev MountRun (R : Answers Call Answer (List Event)) (fs₀ : MtpFs)
    (h : List (Callback × Reply)) (fs : MtpFs) (tr : List Event) : Prop :=
  Served R dispatch (fun _ _ _ _ => True) fs₀ [] h fs tr

/-- A scripted run, with what its end was tested for. -/
theorem MountRun.of_test {R : Answers Call Answer (List Event)}
    {answer : List Event → (c : Call) → Option (Answer c)}
    (hR : ∀ tr c a tr', script answer tr c = some (a, tr') → R tr c a tr') (fs₀ : MtpFs)
    (is : List Callback) (test : MtpFs → List Event → Bool)
    (ht : (serveAll (script answer) dispatch [] is fs₀ []).any (fun r => test r.2.1 r.2.2) = true) :
    ∃ h fs tr, MountRun R fs₀ h fs tr ∧ test fs tr = true :=
  Served.of_test hR is (fun _ _ _ _ _ => trivial) (fun r => test r.2.1 r.2.2) ht

/-- A freshly opened phone, to be written to. -/
def writableMount : MtpFs := .new ⟨0, true, true⟩ "phone" ⟨false, ⟨1000⟩, 0⟩

end MtpMount
