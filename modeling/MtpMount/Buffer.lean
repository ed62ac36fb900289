import MtpMount.Lib.HashMap
import MtpMount.SparseCache

/-!
# Write buffers

`FileBuffer` spools what one handle writes, `WriteBuffer` has one for each
handle that wrote, and `fileStream` is how an upload reads a spool file back.

* `FileBuffer.Holds`: the buffer is the byte vector its writes describe, kept by
  `FileBuffer.Holds.writeAt`;
* `flatten_fileStream`, `fileStream_chunk`: a stream from the first byte gives
  the whole file in pieces of at most `UPLOAD_CHUNK` bytes.
-/

namespace MtpMount

open ByteVec

/-- Per-file write buffer over a temp file. -/
structure FileBuffer where
  inode : Nat
  originalSize : Nat
  file : SpoolFile
  len : Nat
  dirty : Bool
  deriving DecidableEq, Repr

/-- `offset as i64` of a `u64`. -/
def asI64 (offset : Nat) : Int :=
  if offset < 2 ^ 63 then offset else (offset % 2 ^ 64 : Nat) - 2 ^ 64

/-- A cast that is not negative is the offset. -/
theorem toNat_asI64 {offset : Nat} (h : ¬ asI64 offset < 0) : (asI64 offset).toNat = offset := by
  unfold asI64 at h ⊢
  split
  · exact Int.toNat_natCast offset
  · rename_i hlarge
    rw [if_neg hlarge] at h
    have := Nat.mod_lt offset (Nat.two_pow_pos 64)
    omega

namespace FileBuffer

def new (inode originalSize : Nat) : FileBuffer := ⟨inode, originalSize, .empty, 0, false⟩

def INVALID_OFFSET : IoError := ⟨"write offset out of range"⟩

/-- Writes `data` at `offset`, growing the file; the number of bytes written. -/
def writeAt (b : FileBuffer) (offset : Int) (data : Bytes) (fault : Option WriteFault) :
    Except IoError Nat × FileBuffer :=
  if offset < 0 then (.error INVALID_OFFSET, b)
  else if offset.toNat + data.length > U64_MAX then (.error INVALID_OFFSET, b)
  -- an empty write changes nothing, its offset is no new length
  else if data = [] then (.ok 0, b)
  else
    match b.file.seekWrite offset.toNat data fault with
    | (.error e, file) => (.error e, { b with file })
    | (.ok (), file) =>
      (.ok (data.length % 2 ^ 32),
        { b with file, len := max b.len (offset.toNat + data.length), dirty := true })

/-- Reads up to `size` bytes; none for a negative offset or one past the end. -/
def readAt (b : FileBuffer) (offset : Int) (size : Nat) (fault : Option IoError) :
    Except IoError Bytes × FileBuffer :=
  if offset < 0 then (.ok [], b)
  else if offset.toNat ≥ b.len then (.ok [], b)
  else
    let (r, file) := b.file.seekReadExact offset.toNat (min (b.len - offset.toNat) size) fault
    (r, { b with file })

/-- What a write does: it is refused, is empty, fails after storing what the fault
says, or stores all of its data. -/
inductive Writes (b : FileBuffer) (offset : Int) (data : Bytes) :
    Option WriteFault → Except IoError Nat → FileBuffer → Prop
  | refused {fault : Option WriteFault} : offset < 0 ∨ offset.toNat + data.length > U64_MAX →
      Writes b offset data fault (.error INVALID_OFFSET) b
  | empty {fault : Option WriteFault} : ¬ offset < 0 → data = [] →
      Writes b offset data fault (.ok 0) b
  | unsought {e : IoError} : ¬ offset < 0 → data ≠ [] →
      Writes b offset data (some (.seek e)) (.error e) b
  | failed {stored : Nat} {e : IoError} : ¬ offset < 0 →
      offset.toNat + data.length ≤ U64_MAX → data ≠ [] →
      Writes b offset data (some (.write stored e)) (.error e)
        { b with file := (b.file.seekStart offset.toNat).writeAll (data.take stored) }
  | stored : ¬ offset < 0 → data ≠ [] → Writes b offset data none (.ok (data.length % 2 ^ 32))
      { b with
        file := (b.file.seekStart offset.toNat).writeAll data
        len := max b.len (offset.toNat + data.length)
        dirty := true }

theorem writeAt_writes (b : FileBuffer) (offset : Int) (data : Bytes) (fault : Option WriteFault) :
    Writes b offset data fault (b.writeAt offset data fault).1 (b.writeAt offset data fault).2 := by
  unfold writeAt
  split
  · exact .refused (.inl ‹_›)
  · rename_i hneg
    split
    · exact .refused (.inr ‹_›)
    · rename_i hmax
      split
      · exact .empty hneg ‹_›
      · rename_i hdata
        rcases fault with _ | ⟨e⟩ | ⟨stored, e⟩
        · exact .stored hneg hdata
        · exact .unsought hneg hdata
        · exact .failed hneg (Nat.le_of_not_lt hmax) hdata

theorem inode_writeAt {b : FileBuffer} (offset : Int) (data : Bytes) (fault : Option WriteFault) :
    (b.writeAt offset data fault).2.inode = b.inode := by
  unfold FileBuffer.writeAt
  split
  · rfl
  · split
    · rfl
    · split
      · rfl
      · split <;> rfl

theorem inode_readAt {b : FileBuffer} (offset : Int) (size : Nat) (fault : Option IoError) :
    (b.readAt offset size fault).2.inode = b.inode := by
  unfold FileBuffer.readAt
  split
  · rfl
  · split <;> rfl

end FileBuffer

/-- The write buffers by file handle. -/
structure WriteBuffer where
  buffers : HashMap Nat FileBuffer

namespace WriteBuffer

def new : WriteBuffer := ⟨∅⟩

def isOpen (w : WriteBuffer) (fh : Nat) : Bool := (w.buffers.lookup fh).isSome

/-- Registers a buffer for the handle, unless it has one. -/
def openBuffer (w : WriteBuffer) (fh inode originalSize : Nat) (fault : Option IoError) :
    Except IoError Unit × WriteBuffer :=
  match w.buffers.lookup fh with
  | some _ => (.ok (), w)
  | none =>
    match fault with
    | some e => (.error e, w)
    | none => (.ok (), ⟨w.buffers.insert fh (.new inode originalSize)⟩)

def noBuffer (fh : Nat) : MountError := .other s!"no buffer for file handle {fh}"

def write (w : WriteBuffer) (fh : Nat) (offset : Int) (data : Bytes) (fault : Option WriteFault) :
    Except MountError Nat × WriteBuffer :=
  match w.buffers.lookup fh with
  | none => (.error (noBuffer fh), w)
  | some b =>
    let (r, b) := b.writeAt offset data fault
    (r.mapError .io, ⟨w.buffers.insert fh b⟩)

def read (w : WriteBuffer) (fh : Nat) (offset : Int) (size : Nat) (fault : Option IoError) :
    Except MountError Bytes × WriteBuffer :=
  match w.buffers.lookup fh with
  | none => (.error (noBuffer fh), w)
  | some b =>
    let (r, b) := b.readAt offset size fault
    (r.mapError .io, ⟨w.buffers.insert fh b⟩)

/-- Removes the buffer and hands it back. -/
def close (w : WriteBuffer) (fh : Nat) : Option FileBuffer × WriteBuffer :=
  (w.buffers.lookup fh, ⟨w.buffers.erase fh⟩)

/-- Current buffered size of the handle. -/
def size (w : WriteBuffer) (fh : Nat) : Option Nat := (w.buffers.lookup fh).map (·.len)

/-! ### Whose buffer it is -/

/-- The inode that the buffer of the handle was opened for. -/
def owner (w : WriteBuffer) (fh : Nat) : Option Nat := (w.buffers.lookup fh).map (·.inode)

/-- A buffer is replaced by one of the same inode. -/
theorem owner_replaced {w : WriteBuffer} {fh : Nat} {b b' : FileBuffer}
    (hl : w.buffers.lookup fh = some b) (hi : b'.inode = b.inode) (fh' : Nat) :
    (WriteBuffer.mk (w.buffers.insert fh b')).owner fh' = w.owner fh' := by
  unfold owner
  rw [HashMap.lookup_insert]
  split
  · rename_i hfh
    rw [hfh, hl, Option.map_some, Option.map_some, hi]
  · rfl

theorem owner_read (w : WriteBuffer) (fh : Nat) (offset : Int) (size : Nat)
    (fault : Option IoError) (fh' : Nat) :
    (w.read fh offset size fault).2.owner fh' = w.owner fh' := by
  unfold read
  split
  · rfl
  · rename_i b hl
    exact owner_replaced hl (FileBuffer.inode_readAt offset size fault) fh'

theorem owner_write (w : WriteBuffer) (fh : Nat) (offset : Int) (data : Bytes)
    (fault : Option WriteFault) (fh' : Nat) :
    (w.write fh offset data fault).2.owner fh' = w.owner fh' := by
  unfold write
  split
  · rfl
  · rename_i b hl
    exact owner_replaced hl (FileBuffer.inode_writeAt offset data fault) fh'

theorem owner_close (w : WriteBuffer) (fh fh' : Nat) :
    (w.close fh).2.owner fh' = if fh' = fh then none else w.owner fh' := by
  unfold owner close
  rw [HashMap.lookup_erase]
  split <;> rfl

/-- An opening gives the handle a buffer of the inode, or changes nothing. -/
theorem owner_openBuffer (w : WriteBuffer) (fh inode originalSize : Nat) (fault : Option IoError) :
    (w.openBuffer fh inode originalSize fault).2 = w ∨
      ∀ fh', (w.openBuffer fh inode originalSize fault).2.owner fh' =
        if fh' = fh then some inode else w.owner fh' := by
  unfold openBuffer
  split
  · exact .inl rfl
  · split
    · exact .inl rfl
    · refine .inr fun fh' => ?_
      unfold owner
      rw [HashMap.lookup_insert]
      split <;> rfl

theorem openBuffer_error {w : WriteBuffer} {fh inode originalSize : Nat} {fault : Option IoError}
    {e : IoError} (h : (w.openBuffer fh inode originalSize fault).1 = .error e) :
    (w.openBuffer fh inode originalSize fault).2 = w := by
  unfold openBuffer at h ⊢
  cases hb : w.buffers.lookup fh with
  | some b => rfl
  | none =>
    rw [hb] at h
    cases fault with
    | none => cases h
    | some e => rfl

theorem isOpen_openBuffer {w : WriteBuffer} {fh inode originalSize : Nat} {fault : Option IoError}
    (h : (w.openBuffer fh inode originalSize fault).1 = .ok ()) :
    (w.openBuffer fh inode originalSize fault).2.isOpen fh = true := by
  unfold openBuffer at h ⊢
  split
  · rename_i b hb
    rw [isOpen, hb]
    rfl
  · rename_i hb
    rw [hb] at h
    cases fault with
    | none => simp [isOpen]
    | some e => cases h

/-- There is nothing to close. -/
theorem close_of_not_isOpen {w : WriteBuffer} {fh : Nat} (h : ¬ w.isOpen fh = true) :
    (w.close fh).2 = w := by
  rw [isOpen, Bool.not_eq_true, Option.isSome_eq_false_iff, Option.isNone_iff_eq_none] at h
  rw [close, HashMap.erase_of_lookup h]

end WriteBuffer

/-! ## Reading a spool file back -/

/-- How much of a spool file an upload holds in memory at a time. -/
def UPLOAD_CHUNK : Nat := 65536

/-- The pieces an upload gets from the file when it polls to the end. Each poll
reads from the cursor; a read of no bytes ends the stream. -/
def fileStreamFrom : Nat → SpoolFile → List Bytes
  | 0, _ => []
  | fuel + 1, f =>
    match f.read UPLOAD_CHUNK with
    | ([], _) => []
    | (buf, f) => buf :: fileStreamFrom fuel f

/-- Every piece but the last read has at least one byte, so this many polls end it. -/
def fileStream (f : SpoolFile) : List Bytes := fileStreamFrom (f.content.length + 1) f

/-- The file after that many polls. -/
def pollStream (f : SpoolFile) : Nat → SpoolFile
  | 0 => f
  | n + 1 => pollStream (f.read UPLOAD_CHUNK).2 n

/-- A stream of the given bytes, in one piece. -/
def bytesStream (data : Bytes) : List Bytes := [data]

theorem content_pollStream (f : SpoolFile) (n : Nat) :
    (pollStream f n).content = f.content := by
  induction n generalizing f with
  | zero => rfl
  | succ n ih => exact ih _

theorem fileStreamFrom_spec (fuel : Nat) (f : SpoolFile)
    (h : f.content.length - f.cursor < fuel) :
    (fileStreamFrom fuel f).flatten = f.content.drop f.cursor ∧
      ∀ buf ∈ fileStreamFrom fuel f, buf ≠ [] ∧ buf.length ≤ UPLOAD_CHUNK := by
  induction fuel generalizing f with
  | zero => exact absurd h (Nat.not_lt_zero _)
  | succ fuel ih =>
    have hread : f.read UPLOAD_CHUNK = (slice f.content f.cursor UPLOAD_CHUNK,
      { f with cursor := f.cursor + (slice f.content f.cursor UPLOAD_CHUNK).length }) := rfl
    have hlen := length_slice f.content f.cursor UPLOAD_CHUNK
    have hchunk : UPLOAD_CHUNK = 65536 := rfl
    rw [fileStreamFrom, hread]
    cases hbuf : slice f.content f.cursor UPLOAD_CHUNK with
    | nil =>
      rw [hbuf, List.length_nil] at hlen
      refine ⟨?_, fun _ h => nomatch h⟩
      rw [List.drop_eq_nil_of_le (by omega)]
      rfl
    | cons b bs =>
      rw [hbuf, List.length_cons] at hlen
      have ih := ih { f with cursor := f.cursor + (b :: bs).length } (by
        simp only [List.length_cons]
        omega)
      dsimp only
      refine ⟨?_, fun buf hb => ?_⟩
      · rw [List.flatten_cons, ih.1]
        dsimp only
        rw [← List.drop_drop, List.length_cons, hlen]
        have htake : b :: bs = (f.content.drop f.cursor).take UPLOAD_CHUNK := hbuf.symm
        have hD : (f.content.drop f.cursor).length = f.content.length - f.cursor :=
          List.length_drop
        rw [htake, List.take_eq_take_min, hD, List.take_append_drop]
      · rcases List.mem_cons.mp hb with rfl | hb
        · refine ⟨List.cons_ne_nil _ _, ?_⟩
          rw [List.length_cons]
          omega
        · exact ih.2 buf hb

/-- From the first byte, the pieces put together are the file. -/
theorem flatten_fileStream {f : SpoolFile} (h : f.cursor = 0) :
    (fileStream f).flatten = f.content := by
  rw [fileStream, (fileStreamFrom_spec _ _ (by omega)).1, h, List.drop_zero]

theorem fileStream_chunk {f : SpoolFile} {buf : Bytes} (h : buf ∈ fileStream f) :
    buf ≠ [] ∧ buf.length ≤ UPLOAD_CHUNK :=
  (fileStreamFrom_spec _ _ (by omega)).2 buf h

/-! ## A buffer is a byte vector -/

/-- One accepted write on a byte vector. -/
def patchWrite (v : Bytes) (offset : Nat) (data : Bytes) : Bytes :=
  if data = [] then v else patch 0 v offset data

namespace FileBuffer

/-- The buffer's file is `v`, and so is its length. -/
structure Holds (b : FileBuffer) (v : Bytes) : Prop where
  content : b.file.content = v
  len : b.len = v.length

theorem holds_new (inode originalSize : Nat) : (new inode originalSize).Holds [] := ⟨rfl, rfl⟩

variable {b : FileBuffer} {v : Bytes}

/-- Without a spool failure a write is refused with nothing changed, or patches the vector. -/
theorem Holds.write (h : b.Holds v) (offset : Int) (data : Bytes) :
    (b.writeAt offset data none).2.Holds
      (match (b.writeAt offset data none).1 with
        | .ok _ => patchWrite v offset.toNat data
        | .error _ => v) := by
  have hwrites := b.writeAt_writes offset data none
  generalize (b.writeAt offset data none).1 = r at hwrites ⊢
  generalize (b.writeAt offset data none).2 = b' at hwrites ⊢
  cases hwrites with
  | refused _ => exact h
  | empty _ hdata =>
    show b.Holds (patchWrite v offset.toNat data)
    rw [patchWrite, if_pos hdata]
    exact h
  | stored _ hdata =>
    show FileBuffer.Holds _ (patchWrite v offset.toNat data)
    rw [patchWrite, if_neg hdata]
    refine ⟨?_, ?_⟩
    · dsimp only
      rw [SpoolFile.content_writeAll hdata, ← h.content]
      rfl
    · dsimp only
      rw [length_patch, h.len]

/-- The same for the offset that a callback hands on. -/
theorem Holds.writeAt (h : b.Holds v) (offset : Nat) (data : Bytes) :
    (b.writeAt (asI64 offset) data none).2.Holds
      (match (b.writeAt (asI64 offset) data none).1 with
        | .ok _ => patchWrite v offset data
        | .error _ => v) := by
  have hwrite := h.write (asI64 offset) data
  by_cases hneg : asI64 offset < 0
  · have hrefused : b.writeAt (asI64 offset) data none = (.error INVALID_OFFSET, b) := if_pos hneg
    rw [hrefused]
    exact h
  · rwa [toNat_asI64 hneg] at hwrite

theorem Holds.readAt (h : b.Holds v) (offset : Int) (size : Nat) (fault : Option IoError) :
    (b.readAt offset size fault).2.Holds v := by
  unfold FileBuffer.readAt
  split
  · exact h
  · split
    · exact h
    · cases fault <;> exact ⟨h.content, h.len⟩

end FileBuffer

end MtpMount
