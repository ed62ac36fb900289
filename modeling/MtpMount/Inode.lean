import MtpMount.Lib.HashMap

/-!
# The inode table

`InodeTable` maps FUSE inode numbers to MTP objects. Three maps have to stay in
step: the entries, the index by parent and name, and the list of children of
each directory. Numbers and sizes are the source's `u64`s; `next_inode` counts
up from 2 and no run gets near its end.
-/

namespace MtpMount

/-- An object token. It is scoped to one session of the device. -/
structure ObjectHandle where
  value : Nat
  deriving DecidableEq, Repr

/-- The parent a move names when it means the root of a storage. -/
def ObjectHandle.ROOT : ObjectHandle := ⟨0⟩

structure StorageId where
  value : Nat
  deriving DecidableEq, Repr

/-- Time since the Unix epoch. -/
abbrev SystemTime := Nat

def UNIX_EPOCH : SystemTime := 0

/-- The FUSE root inode number. -/
def FUSE_ROOT_INODE : Nat := 1

/-- What kind of entry an inode represents. -/
inductive InodeKind where
  | root
  | storage (storageId : StorageId)
  | directory (handle : ObjectHandle)
  | file (handle : ObjectHandle)
  deriving DecidableEq, Repr

/-- Metadata cached for a single inode. `generation` is the link generation the
handle in `kind` was resolved against. -/
structure InodeEntry where
  inode : Nat
  parent : Nat
  name : String
  kind : InodeKind
  size : Nat
  mtime : SystemTime
  atime : SystemTime
  generation : Nat
  deriving DecidableEq, Repr

namespace InodeKind

/-- The session token of a file or directory. -/
def handle? : InodeKind → Option ObjectHandle
  | .directory handle => some handle
  | .file handle => some handle
  | _ => none

/-- The kind of a file or directory with another token. -/
def withHandle (handle : ObjectHandle) : InodeKind → InodeKind
  | .directory _ => .directory handle
  | .file _ => .file handle
  | kind => kind

/-- The kind of a listed object. -/
def ofObject (isDir : Bool) (handle : ObjectHandle) : InodeKind :=
  if isDir then .directory handle else .file handle

end InodeKind

def InodeEntry.isDir (e : InodeEntry) : Bool :=
  match e.kind with
  | .root | .storage _ | .directory _ => true
  | .file _ => false

/-- Bidirectional mapping between FUSE inodes and MTP objects. -/
structure InodeTable where
  entries : HashMap Nat InodeEntry
  /-- (parent inode, child name) to child inode. -/
  nameIndex : HashMap (Nat × String) Nat
  /-- Parent inode to its child inodes. -/
  childrenIndex : HashMap Nat (List Nat)
  nextInode : Nat
  generation : Nat

/-- One child as the device reports it. -/
structure ChildInfo where
  handle : ObjectHandle
  name : String
  isDir : Bool
  size : Nat
  mtime : SystemTime
  deriving DecidableEq, Repr

namespace InodeTable

def rootEntry : InodeEntry where
  inode := FUSE_ROOT_INODE
  parent := FUSE_ROOT_INODE
  name := ""
  kind := .root
  size := 0
  mtime := UNIX_EPOCH
  atime := UNIX_EPOCH
  generation := 0

/-- A table with only the root inode. -/
def new : InodeTable where
  entries := (∅ : HashMap Nat InodeEntry).insert FUSE_ROOT_INODE rootEntry
  nameIndex := ∅
  childrenIndex := ∅
  nextInode := 2
  generation := 0

def get (t : InodeTable) (inode : Nat) : Option InodeEntry := t.entries.lookup inode

/-- Edits an entry in place, as the callers of `get_mut` do. -/
def getMut (t : InodeTable) (inode : Nat) (f : InodeEntry → InodeEntry) : InodeTable :=
  { t with entries := t.entries.update inode f }

def lookup (t : InodeTable) (parent : Nat) (name : String) : Option Nat :=
  t.nameIndex.lookup (parent, name)

def children (t : InodeTable) (parent : Nat) : List Nat :=
  (t.childrenIndex.lookup parent).getD []

/-- Marks every cached handle as stale. -/
def bumpGeneration (t : InodeTable) : InodeTable := { t with generation := t.generation + 1 }

/-- Whether the handle of this inode was resolved in the current generation.
Storages and the root carry no session token and are always fresh. -/
def isFresh (t : InodeTable) (inode : Nat) : Bool :=
  match t.get inode with
  | some e => match e.kind with
    | .root | .storage _ => true
    | .directory _ | .file _ => e.generation == t.generation
  | none => false

/-- Points an inode at a freshly resolved handle. -/
def setHandle (t : InodeTable) (inode : Nat) (handle : ObjectHandle) : InodeTable :=
  t.getMut inode fun e => match e.kind with
    | .directory _ => { e with kind := .directory handle, generation := t.generation }
    | .file _ => { e with kind := .file handle, generation := t.generation }
    | _ => e

/-- Re-points a storage inode at a storage id of the current session. -/
def setStorageId (t : InodeTable) (inode : Nat) (storageId : StorageId) : InodeTable :=
  t.getMut inode fun e => match e.kind with
    | .storage _ => { e with kind := .storage storageId }
    | _ => e

/-- Removes an entry and its index entries, not its descendants. The entry that
the source hands back is the one `get` finds before. -/
def remove (t : InodeTable) (inode : Nat) : InodeTable :=
  match t.entries.lookup inode with
  | none => t
  | some entry =>
    { t with
      entries := t.entries.erase inode
      nameIndex := t.nameIndex.erase (entry.parent, entry.name)
      childrenIndex :=
        (t.childrenIndex.update entry.parent fun siblings => siblings.filter (· ≠ inode)).erase
          inode }

/-- The next number and the table after handing it out. -/
def allocInode (t : InodeTable) : Nat × InodeTable :=
  (t.nextInode, { t with nextInode := t.nextInode + 1 })

/-- Drops whatever entry other than `keep` sits at `(parent, name)`. -/
def evictName (t : InodeTable) (parent : Nat) (name : String) (keep : Nat) : InodeTable :=
  match t.lookup parent name with
  | some old => if old ≠ keep then t.remove old else t
  | none => t

/-- `children_index.entry(parent).or_default().push(inode)`. -/
def pushChild (t : InodeTable) (parent inode : Nat) : InodeTable :=
  { t with childrenIndex := t.childrenIndex.insert parent (t.children parent ++ [inode]) }

def insert (t : InodeTable) (entry : InodeEntry) : InodeTable :=
  let t := t.evictName entry.parent entry.name entry.inode
  let t := { t with
    entries := t.entries.insert entry.inode entry
    nameIndex := t.nameIndex.insert (entry.parent, entry.name) entry.inode }
  t.pushChild entry.parent entry.inode

/-- Adds a storage as a child of root; its number and the new table. -/
def addStorageAt (t : InodeTable) (storageId : StorageId) (name : String) (now : SystemTime) :
    Nat × InodeTable :=
  let (ino, t) := t.allocInode
  (ino, t.insert
    { inode := ino, parent := FUSE_ROOT_INODE, name, kind := .storage storageId, size := 0,
      mtime := now, atime := now, generation := t.generation })

/-- Adds a file or directory under a parent; its number and the new table. -/
def addObject (t : InodeTable) (parent : Nat) (handle : ObjectHandle) (name : String)
    (isDir : Bool) (size : Nat) (mtime : SystemTime) : Nat × InodeTable :=
  let (ino, t) := t.allocInode
  (ino, t.insert
    { inode := ino, parent, name, kind := .ofObject isDir handle, size,
      mtime, atime := mtime, generation := t.generation })

/-- Adds a listed child. -/
def addChild (t : InodeTable) (parent : Nat) (child : ChildInfo) : InodeTable :=
  (t.addObject parent child.handle child.name child.isDir child.size child.mtime).2

/-- One report of a listing: refresh the child of that name and kind in place,
replace one whose kind flipped, or add it. -/
def syncChild (t : InodeTable) (parent : Nat) (child : ChildInfo) : InodeTable :=
  match t.lookup parent child.name with
  | some ino =>
    if (t.get ino).any (fun e => e.isDir == child.isDir) then
      t.getMut ino fun e =>
        { e with
          kind := .ofObject child.isDir child.handle
          size := child.size
          mtime := child.mtime
          generation := t.generation }
    else
      (t.remove ino).addChild parent child
  | none => t.addChild parent child

/-- The children that a listing no longer names. -/
def gone (t : InodeTable) (parent : Nat) (children : List ChildInfo) : List Nat :=
  (t.children parent).filter fun ino =>
    (t.get ino).any fun e => !children.any fun c => c.name == e.name

def removeAll (t : InodeTable) (inodes : List Nat) : InodeTable := inodes.foldl remove t

/-- Replaces the children of a directory with what the device just reported,
reusing the inode number of every child still there under its name and kind. -/
def syncChildren (t : InodeTable) (parent : Nat) (children : List ChildInfo) : InodeTable :=
  let t := children.foldl (fun t child => t.syncChild parent child) t
  t.removeAll (t.gone parent children)

/-- Updates the parent and name of an entry; an entry already at the
destination is replaced. -/
def rename (t : InodeTable) (inode newParent : Nat) (newName : String) : InodeTable :=
  if (t.get inode).isNone then t else
  let t := t.evictName newParent newName inode
  match t.get inode with
  | none => t
  | some entry =>
    let t := t.getMut inode fun e => { e with parent := newParent, name := newName }
    let t := { t with
      nameIndex :=
        (t.nameIndex.erase (entry.parent, entry.name)).insert (newParent, newName) inode
      childrenIndex :=
        t.childrenIndex.update entry.parent fun siblings => siblings.filter (· ≠ inode) }
    t.pushChild newParent inode

/-- The parent of the first entry, in iteration order, that carries `handle`. -/
def findParentByHandle (t : InodeTable) (handle : ObjectHandle) : Option Nat :=
  t.entries.values.findSome? fun e => if e.kind.handle? = some handle then some e.parent else none

end InodeTable

end MtpMount
