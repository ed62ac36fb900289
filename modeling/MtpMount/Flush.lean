import MtpMount.Link

/-!
# Flushing a write buffer

What a close does with the bytes a handle wrote. The spool file outlives a
disconnect, so an upload that was cut is tried again from the first byte; once
an upload has landed the later steps only report what happened.
-/

namespace MtpMount

open Interaction

/-- What a flush works on: the link, the spool file behind the duplicated
descriptors of its attempts, and how many attempts it made. -/
structure Flushing where
  link : Link
  file : SpoolFile
  attempts : Nat

instance : HasLink Flushing :=
  ⟨Flushing.link, fun f l => { f with link := l }, fun _ _ => rfl, fun _ _ _ => rfl, fun _ => rfl⟩

abbrev FlushM := Attempt Call Answer Flushing Error

/-- A failed local operation ends a device operation, as a device error. -/
def spooled {σ : Type} (fault : Option IoError) : Attempt Call Answer σ Error Unit :=
  match fault with
  | some e => throw (ioError e)
  | none => pure ()

/-- Removes what an earlier attempt may have left under the temporary name. -/
def deleteAll (storage : Storage) : List ObjectInfo → MtpM Unit
  | [] => pure ()
  | obj :: rest => do
    let _ ← Attempt.outcome (ExceptT.mk (call (.delete storage obj.handle)))
    deleteAll storage rest

def purgeLeftover (storageIdx : Nat) (parentHandle : Option ObjectHandle) (name : String) :
    MtpM Unit := do
  let storage ← storageAt storageIdx
  let listed : Except Error (List ObjectInfo) ←
    Attempt.outcome (ExceptT.mk (call (.listObjects storage parentHandle)))
  match listed with
  | .error _ => pure ()
  | .ok objects =>
    deleteAll storage (objects.filter fun o => o.filename == name)

/-- The table with the inode pointed at an uploaded object, under `name` if that changed. -/
def InodeTable.recordUpload (t : InodeTable) (inode : Nat) (handle : ObjectHandle)
    (name : Option String) (size : Nat) (now : SystemTime) : InodeTable :=
  t.getMut inode fun e =>
    { e with kind := .file handle, name := name.getD e.name, size, mtime := now }

def recordUpload (inode : Nat) (newHandle : ObjectHandle) (name : Option String) (size : Nat) :
    MtpM Unit := do
  let now : SystemTime ← (call .now : LinkM SystemTime)
  modify fun l => { l with inodes := l.inodes.recordUpload inode newHandle name size now }

/-- Uploads the file from its cursor, which moves as far as the device polled. -/
def uploadFile (storage : Storage) (parentHandle : Option ObjectHandle) (info : NewObjectInfo) :
    FlushM ObjectHandle := do
  let f : Flushing ← get
  let r : Except Error ObjectHandle × Nat ←
    (call (.upload storage parentHandle info (fileStream f.file)) :
      Act Call Answer Flushing (Except Error ObjectHandle × Nat))
  modify fun f => { f with file := pollStream f.file r.2 }
  match r.1 with
  | .ok handle => pure handle
  | .error e => throw e

/-- Upload under a temporary name, delete the old object, rename. -/
def flushSafe (inode : Nat) (oldHandle : ObjectHandle) (storageIdx : Nat)
    (parentHandle : Option ObjectHandle) (entry : InodeEntry) (size : Nat) : FlushM Unit := do
  let storage ← onLinkM (storageAt storageIdx)
  let tempName := tempUploadName entry.name
  let newHandle ← uploadFile storage parentHandle ⟨tempName, size⟩
  match ← Attempt.outcome (ExceptT.mk (call (.delete storage oldHandle))) with
  | .error _ => onLinkM (recordUpload inode newHandle (some tempName) size)
  | .ok _ =>
    match ← Attempt.outcome (ExceptT.mk (call (.rename storage newHandle entry.name))) with
    | .error _ => onLinkM (recordUpload inode newHandle (some tempName) size)
    | .ok _ => onLinkM (recordUpload inode newHandle none size)

/-- Delete the old object, then upload. -/
def flushUnsafe (inode : Nat) (oldHandle : ObjectHandle) (storageIdx : Nat)
    (parentHandle : Option ObjectHandle) (entry : InodeEntry) (size : Nat) : FlushM Unit := do
  let storage ← onLinkM (storageAt storageIdx)
  let _ : Unit ← ExceptT.mk (call (.delete storage oldHandle))
  let newHandle ← uploadFile storage parentHandle ⟨entry.name, size⟩
  onLinkM (recordUpload inode newHandle none size)

/-- One attempt against the current session. On a retry an earlier attempt may
have left a half-written object. -/
def flushOnce (inode : Nat) (entry : InodeEntry) (size : Nat) (isRetry : Bool) : FlushM Unit := do
  let handle ← onLinkM (fileHandle inode)
  let storageIdx ← onLinkM (storageIndex inode)
  let parent ← onLinkM (parentHandle entry.parent)
  let f : Flushing ← get
  if f.link.device.supportsRename then
    (if isRetry then onLinkM (purgeLeftover storageIdx parent (tempUploadName entry.name))
      else pure ())
    flushSafe inode handle storageIdx parent entry size
  else
    flushUnsafe inode handle storageIdx parent entry size

/-- The closure that a flush gives to `with_recovery`. -/
def flushAttempt (inode : Nat) (entry : InodeEntry) (size : Nat) : FlushM Unit := do
  spooled (← (call .cloneTemp : Act Call Answer Flushing (Option IoError)))
  spooled (← (call .seekTemp : Act Call Answer Flushing (Option IoError)))
  modify fun f => { f with file := f.file.seekStart 0, attempts := f.attempts + 1 }
  let f : Flushing ← get
  flushOnce inode entry size (f.attempts > 1)

/-- Flushes a buffer that was taken out of the write buffers. -/
def flushBuffer (buf : FileBuffer) : MtpM Unit := do
  if !buf.dirty then pure () else
  spooled (← (call .seekTemp : LinkM (Option IoError)))
  let l : Link ← get
  match l.inodes.get buf.inode with
  | none => throw .notFound
  | some entry =>
    ExceptT.mk (Act.focus (fun l => Flushing.mk l buf.file.seekEnd.2 0) (fun _ f => f.link)
      (withRecovery (flushAttempt buf.inode entry buf.file.seekEnd.1)).run)

end MtpMount
