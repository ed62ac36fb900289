import MtpMount.Buffer
import MtpMount.Inode
import MtpMount.Lib.Interaction
import MtpMount.Reconnect

/-!
# The device and the rest of the outside world

Everything the filesystem asks of the outside is a `Call`, and what it may be
told is the call's `Answer`: the device library, the clock, the temp files, the
tasks that run beside a callback. A handle, a storage and a device each belong
to one session of the device.
-/

namespace MtpMount

open Interaction

/-- An open device. `session` tells one opening from another. -/
structure MtpDevice where
  session : Nat
  supportsRename : Bool
  supportsPartialDownload : Bool
  deriving DecidableEq, Repr

/-- What the device says of one of its storages. -/
structure StorageInfo where
  id : StorageId
  description : String
  totalCapacity : Nat
  freeSpace : Nat
  deriving DecidableEq, Repr

/-- A storage of an open device; requests on it go to that session. -/
structure Storage extends StorageInfo where
  session : Nat
  deriving DecidableEq, Repr

def MtpDevice.bindStorages (device : MtpDevice) (infos : List StorageInfo) : List Storage :=
  infos.map fun info => { toStorageInfo := info, session := device.session }

/-- A date of the device, as the seconds since 1970 it stands for when a missing
offset counts as UTC. -/
structure DateTime where
  unixSeconds : Option Int
  deriving DecidableEq, Repr

structure ObjectInfo where
  handle : ObjectHandle
  filename : String
  isFolder : Bool
  size : Nat
  modified : Option DateTime
  deriving DecidableEq, Repr

/-- What an upload announces. -/
structure NewObjectInfo where
  filename : String
  size : Nat
  deriving DecidableEq, Repr

/-- Invalid dates and dates before 1970 clamp to the epoch. -/
def mtpDatetimeToSystemTime (dt : DateTime) : SystemTime :=
  match dt.unixSeconds with
  | some secs => if secs ≥ 0 then secs.toNat else UNIX_EPOCH
  | none => UNIX_EPOCH

/-- The name a storage shows up under. -/
def storageName (storage : StorageInfo) : String :=
  if storage.description.isEmpty then s!"Storage_{storage.id.value}" else storage.description

/-- The name a safe flush uploads under before renaming into place. -/
def tempUploadName (name : String) : String := s!".~tmp~{name}"

/-- An event the device raises on its own. -/
inductive DeviceEvent where
  | objectAdded (handle : ObjectHandle)
  | objectRemoved (handle : ObjectHandle)
  | objectInfoChanged (handle : ObjectHandle)
  | storageChanged
  | other
  deriving DecidableEq, Repr

/-- What a whole-object download gives when asked for the next chunk. -/
abbrev StreamItem := Except Error Bytes

/-- A step of a task beside the callback: the event loop handles an event, or
the filler of that number takes its next step. -/
inductive BackgroundStep where
  | event (e : DeviceEvent)
  | filler (id : Nat) (fault : Option WriteFault)

inductive Call where
  /-- Reads the pretend cable. -/
  | isUnplugged
  | sleep (delay : Nat)
  | openDevice
  | storages (device : MtpDevice)
  | spawnEventLoop (device : MtpDevice) (epoch : Nat)
  | listObjects (storage : Storage) (parent : Option ObjectHandle)
  | readRange (storage : Storage) (handle : ObjectHandle) (offset size : Nat)
  /-- Opens a whole-object download. -/
  | download (storage : Storage) (handle : ObjectHandle)
  | getObjectInfo (storage : Storage) (handle : ObjectHandle)
  /-- The stream is what the device gets when it polls to the end. -/
  | upload (storage : Storage) (parent : Option ObjectHandle) (info : NewObjectInfo)
      (stream : List Bytes)
  | delete (storage : Storage) (handle : ObjectHandle)
  | rename (storage : Storage) (handle : ObjectHandle) (newName : String)
  | moveObject (storage : Storage) (handle newParent : ObjectHandle)
  | createFolder (storage : Storage) (parent : Option ObjectHandle) (name : String)
  | now
  /-- Makes a temp file in the spool directory, of its final length. -/
  | createTemp
  | writeTemp
  | readTemp
  | seekTemp
  | cloneTemp
  /-- The lock is free: other tasks may run. -/
  | background
  /-- Not a request: marks in a trace that every cached handle became stale. -/
  | invalidated
  /-- The callback panics; nothing comes back. -/
  | panic
  /-- The callback loops or waits for ever. -/
  | hang

/-- What a call may be answered with. A download is answered with all that its
stream is going to deliver, an upload also with how often its stream was polled. -/
abbrev Answer : Call → Type
  | .isUnplugged => Bool
  | .sleep _ => Unit
  | .openDevice => Except Error MtpDevice
  | .storages _ => Except Error (List StorageInfo)
  | .spawnEventLoop .. => Unit
  | .listObjects .. => Except Error (List ObjectInfo)
  | .readRange .. => Except Error Bytes
  | .download .. => Except Error (List StreamItem)
  | .getObjectInfo .. => Except Error ObjectInfo
  | .upload .. => Except Error ObjectHandle × Nat
  | .delete .. => Except Error Unit
  | .rename .. => Except Error Unit
  | .moveObject .. => Except Error Unit
  | .createFolder .. => Except Error ObjectHandle
  | .now => SystemTime
  | .createTemp => Option IoError
  | .writeTemp => Option WriteFault
  | .readTemp => Option IoError
  | .seekTemp => Option IoError
  | .cloneTemp => Option IoError
  | .background => List BackgroundStep
  | .invalidated => Unit
  | .panic => Empty
  | .hang => Empty

namespace Call

/-- The request changes objects on the device. -/
def isMutation : Call → Bool
  | upload .. | delete .. | rename .. | moveObject .. | createFolder .. => true
  | _ => false

/-- The storage that a request goes to, with every object handle it carries. The
root of a storage has none. -/
def target? : Call → Option (Storage × List ObjectHandle)
  | listObjects storage parent => some (storage, parent.toList)
  | readRange storage handle _ _ => some (storage, [handle])
  | download storage handle => some (storage, [handle])
  | getObjectInfo storage handle => some (storage, [handle])
  | upload storage parent _ _ => some (storage, parent.toList)
  | delete storage handle => some (storage, [handle])
  | rename storage handle _ => some (storage, [handle])
  | moveObject storage handle newParent =>
    some (storage, handle :: if newParent = .ROOT then [] else [newParent])
  | createFolder storage parent _ => some (storage, parent.toList)
  | _ => none

def isPanic : Call → Bool
  | panic => true
  | _ => false

theorem eq_panic_of_isPanic {c : Call} (h : c.isPanic = true) : c = .panic := by
  cases c <;> first | rfl | cases h

def isDelete : Call → Bool
  | delete .. => true
  | _ => false

/-- Every cached handle becomes stale here. -/
def isInvalidated : Call → Bool
  | invalidated => true
  | _ => false

/-- The calls that only look at the mount's own surroundings. -/
def isAside : Call → Bool
  | isUnplugged | sleep _ | now | createTemp | writeTemp | readTemp | seekTemp | cloneTemp
  | background | hang => true
  | _ => false

theorem isMutation_of_isAside {c : Call} (h : c.isAside = true) : c.isMutation = false := by
  cases c <;> first | rfl | cases h

theorem target?_of_isAside {c : Call} (h : c.isAside = true) : c.target? = none := by
  cases c <;> first | rfl | cases h

theorem ne_panic_of_isAside {c : Call} (h : c.isAside = true) : c ≠ .panic := by
  rintro rfl
  cases h

theorem ne_panic_of_target? {c : Call} {t : Storage × List ObjectHandle}
    (h : c.target? = some t) : c ≠ .panic := by
  rintro rfl
  cases h

/-- The object handles that an answer hands out. -/
def handed : (c : Call) → Answer c → List ObjectHandle
  | listObjects .., .ok objects => objects.map ObjectInfo.handle
  | upload .., (.ok handle, _) => [handle]
  | createFolder .., .ok handle => [handle]
  | _, _ => []

end Call

section

variable {σ α : Type}

def call (c : Call) : Act Call Answer σ (Answer c) := perform c

/-- Panics: nothing comes back. -/
def panics : Act Call Answer σ α := call .panic >>= nofun

/-- Never returns. -/
def hangs : Act Call Answer σ α := call .hang >>= nofun

end

/-- One call and its answer. -/
structure Event where
  call : Call
  answer : Answer call

/-- The environment that may answer anything, and remembers what it answered. -/
inductive AnyAnswer : Answers Call Answer (List Event)
  | intro (tr : List Event) (c : Call) (a : Answer c) : AnyAnswer tr c a (tr ++ [⟨c, a⟩])

/-- The environment that answers as a script says, and remembers it. -/
def script (answer : List Event → (c : Call) → Option (Answer c)) (tr : List Event) (c : Call) :
    Option (Answer c × List Event) :=
  (answer tr c).map fun a => (a, tr ++ [⟨c, a⟩])

theorem anyAnswer_of_script (answer : List Event → (c : Call) → Option (Answer c))
    (tr : List Event) (c : Call) (a : Answer c) (tr' : List Event)
    (h : script answer tr c = some (a, tr')) : AnyAnswer tr c a tr' := by
  obtain ⟨b, -, hb⟩ := Option.map_eq_some_iff.mp h
  cases hb
  exact .intro tr c a

/-- The answers of surroundings in which nothing goes wrong and nothing happens. -/
def undisturbed : (c : Call) → Option (Answer c)
  | .isUnplugged => some false
  | .sleep _ => some ()
  | .spawnEventLoop .. => some ()
  | .now => some 0
  | .createTemp | .writeTemp | .readTemp | .seekTemp | .cloneTemp => some none
  | .background => some []
  | .invalidated => some ()
  | _ => none

end MtpMount
