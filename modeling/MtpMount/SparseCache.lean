import MtpMount.Error
import MtpMount.Lib.ByteVec
import MtpMount.Ranges

/-!
# Spool files and sparse caches

`SpoolFile` is an unlinked temp file: its bytes, and one cursor that every
duplicate of its descriptor shares. `SparseCache` is such a file with the set
of offsets written so far, `SharedSparseCache` adds the state of the one
sequential fill, and the threads that wait for it. Where the operating system may
fail, the operation takes the failure as an argument; only local failures come
that way.

* `SparseCache.Agrees`: every offset the cache counts as populated holds the
  byte that `D` has there;
* `SparseCache.readAt_of_agrees`: what such a cache serves is a slice of `D`;
* `SharedSparseCache.WaitsForFill`: a thread is parked only while the fill runs.
-/

namespace MtpMount

open ByteVec

abbrev Bytes := List UInt8

/-- A failing `seek`, or a failing `write_all` that stored `stored` bytes first. -/
inductive WriteFault where
  | seek (e : IoError)
  | write (stored : Nat) (e : IoError)
  deriving DecidableEq, Repr

def WriteFault.error : WriteFault → IoError
  | seek e => e
  | write _ e => e

structure SpoolFile where
  content : Bytes
  cursor : Nat
  deriving DecidableEq, Repr

namespace SpoolFile

def empty : SpoolFile := ⟨[], 0⟩

def setLen (f : SpoolFile) (n : Nat) : SpoolFile := { f with content := resize 0 f.content n }

/-- `seek(SeekFrom::Start(n))`. -/
def seekStart (f : SpoolFile) (n : Nat) : SpoolFile := { f with cursor := n }

/-- `seek(SeekFrom::End(0))`, which answers the length. -/
def seekEnd (f : SpoolFile) : Nat × SpoolFile :=
  (f.content.length, { f with cursor := f.content.length })

/-- One `read` into a buffer of `n` bytes. -/
def read (f : SpoolFile) (n : Nat) : Bytes × SpoolFile :=
  (slice f.content f.cursor n,
    { f with cursor := f.cursor + (slice f.content f.cursor n).length })

/-- `write_all` at the cursor; without a byte to write there is no hole before it. -/
def writeAll (f : SpoolFile) (data : Bytes) : SpoolFile :=
  if data = [] then f
  else { content := patch 0 f.content f.cursor data, cursor := f.cursor + data.length }

theorem content_writeAll {f : SpoolFile} {data : Bytes} (h : data ≠ []) :
    (f.writeAll data).content = patch 0 f.content f.cursor data := by
  rw [writeAll, if_neg h]

/-- `seek(SeekFrom::Start(offset))` and `write_all(data)`. -/
def seekWrite (f : SpoolFile) (offset : Nat) (data : Bytes) :
    Option WriteFault → Except IoError Unit × SpoolFile
  | none => (.ok (), (f.seekStart offset).writeAll data)
  | some (.seek e) => (.error e, f)
  | some (.write stored e) => (.error e, (f.seekStart offset).writeAll (data.take stored))

def UNEXPECTED_EOF : IoError := ⟨"failed to fill whole buffer"⟩

/-- `seek(SeekFrom::Start(offset))` and `read_exact` of `n` bytes. -/
def seekReadExact (f : SpoolFile) (offset n : Nat) :
    Option IoError → Except IoError Bytes × SpoolFile
  | some e => (.error e, f)
  | none =>
    let (buf, f) := (f.seekStart offset).read n
    (if buf.length = n then .ok buf else .error UNEXPECTED_EOF, f)

end SpoolFile

/-! ## Sparse caches -/

/-- A temp file that tracks which bytes of it are populated. -/
structure SparseCache where
  file : SpoolFile
  ranges : RangeSet
  totalSize : Nat

namespace SparseCache

def new (totalSize : Nat) : SparseCache :=
  ⟨SpoolFile.empty.setLen totalSize, .new, totalSize⟩

/-- The parts of `[offset, offset + size)` that are not populated yet. -/
def missingRanges (c : SparseCache) (offset size : Nat) : List ByteRange :=
  c.ranges.missing offset size c.totalSize

/-- Writes `data` at `offset` and marks its range as populated. -/
def writeAt (c : SparseCache) (offset : Nat) (data : Bytes) (fault : Option WriteFault) :
    Except IoError Unit × SparseCache :=
  if data = [] then (.ok (), c)
  else if offset + data.length > U64_MAX then (.error ⟨"cache range overflow"⟩, c)
  else if offset + data.length > c.totalSize then
    (.error ⟨s!"cache write [{offset}, {offset + data.length}) exceeds the object size {c.totalSize}"⟩,
      c)
  else
    match c.file.seekWrite offset data fault with
    | (.error e, file) => (.error e, { c with file })
    | (.ok (), file) =>
      (.ok (), { c with file, ranges := c.ranges.insert ⟨offset, offset + data.length⟩ })

/-- Reads `size` bytes at `offset`; short past the end. -/
def readAt (c : SparseCache) (offset size : Nat) (fault : Option IoError) :
    Except IoError Bytes × SparseCache :=
  if offset ≥ c.totalSize then (.ok [], c)
  else
    let (r, file) := c.file.seekReadExact offset (min size (c.totalSize - offset)) fault
    (r, { c with file })

/-- The file has its full length, and every populated offset lies inside it and
holds the byte that `D` has there. -/
structure Agrees (c : SparseCache) (D : Bytes) : Prop where
  length : c.file.content.length = c.totalSize
  bound : ∀ x, c.ranges.Covers x → x < c.totalSize
  byte : ∀ x, c.ranges.Covers x → c.file.content.getD x 0 = D.getD x 0

theorem agrees_new (totalSize : Nat) (D : Bytes) : (new totalSize).Agrees D where
  length := length_resize _ _
  bound := fun _ h => (RangeSet.covers_new h).elim
  byte := fun _ h => (RangeSet.covers_new h).elim

variable {c : SparseCache} {D : Bytes}

/-- What a write does: nothing, when it has no data or does not fit; store some
first bytes and fail; or store all of them and count them as populated. -/
inductive WriteDoes (c : SparseCache) (offset : Nat) (data : Bytes) (fault : Option WriteFault) :
    Except IoError Unit → SparseCache → Prop
  | nothing : data = [] → WriteDoes c offset data fault (.ok ()) c
  | refused (e : IoError) : WriteDoes c offset data fault (.error e) c
  | failed {f : WriteFault} {file : SpoolFile} (n : Nat) : fault = some f →
      offset + data.length ≤ c.totalSize →
      file.content = patch 0 c.file.content offset (data.take n) ∨
        file.content = c.file.content →
      WriteDoes c offset data fault (.error f.error) { c with file }
  | stored {file : SpoolFile} : offset + data.length ≤ c.totalSize →
      offset + data.length ≤ U64_MAX →
      file.content = patch 0 c.file.content offset data →
      WriteDoes c offset data fault (.ok ())
        { c with file, ranges := c.ranges.insert ⟨offset, offset + data.length⟩ }

theorem writeAt_does (c : SparseCache) (offset : Nat) (data : Bytes) (fault : Option WriteFault) :
    WriteDoes c offset data fault (c.writeAt offset data fault).1 (c.writeAt offset data fault).2 := by
  unfold writeAt
  split
  · exact .nothing ‹_›
  · rename_i hdata
    split
    · exact .refused _
    · rename_i hmax
      split
      · exact .refused _
      · rename_i hfits
        have hle : offset + data.length ≤ c.totalSize := Nat.le_of_not_lt hfits
        rcases fault with _ | ⟨e⟩ | ⟨n, e⟩
        · exact .stored hle (Nat.le_of_not_lt hmax) (SpoolFile.content_writeAll hdata)
        · exact .failed 0 rfl hle (.inr rfl)
        · refine .failed n rfl hle ?_
          unfold SpoolFile.writeAll
          split
          · exact .inr rfl
          · exact .inl rfl

@[simp] theorem totalSize_writeAt (offset : Nat) (data : Bytes) (fault : Option WriteFault) :
    (c.writeAt offset data fault).2.totalSize = c.totalSize := by
  have hdoes := c.writeAt_does offset data fault
  generalize (c.writeAt offset data fault).1 = r at hdoes
  generalize (c.writeAt offset data fault).2 = c' at hdoes ⊢
  cases hdoes <;> rfl

@[simp] theorem totalSize_readAt (offset size : Nat) (fault : Option IoError) :
    (c.readAt offset size fault).2.totalSize = c.totalSize := by
  unfold readAt
  split <;> rfl

/-- Only a read moves nothing but the cursor. -/
theorem content_readAt (offset size : Nat) (fault : Option IoError) :
    (c.readAt offset size fault).2.file.content = c.file.content ∧
      (c.readAt offset size fault).2.ranges = c.ranges := by
  unfold readAt
  split
  · exact ⟨rfl, rfl⟩
  · cases fault <;> exact ⟨rfl, rfl⟩

theorem Agrees.readAt (h : c.Agrees D) (offset size : Nat) (fault : Option IoError) :
    (c.readAt offset size fault).2.Agrees D := by
  obtain ⟨hc, hr⟩ := content_readAt (c := c) offset size fault
  refine ⟨?_, ?_, ?_⟩
  · rw [hc, totalSize_readAt, h.length]
  · intro x hx
    rw [totalSize_readAt]
    exact h.bound x (hr ▸ hx)
  · intro x hx
    rw [hc]
    exact h.byte x (hr ▸ hx)

/-- Where a byte of the file comes from after one more call. -/
theorem getD_patch_take (xs data : Bytes) (offset n x : Nat) :
    (patch 0 xs offset (data.take n)).getD x 0 = xs.getD x 0 ∨
      offset ≤ x ∧ x < offset + data.length ∧
        (patch 0 xs offset (data.take n)).getD x 0 = data.getD (x - offset) 0 := by
  rw [getD_patch]
  split
  · rename_i hin
    rw [List.length_take] at hin
    refine .inr ⟨hin.1, by omega, ?_⟩
    simp only [List.getD_eq_getElem?_getD]
    rw [List.getElem?_take_of_lt (by omega)]
  · exact .inl rfl

/-- A write of `D`'s own bytes keeps the cache in agreement with `D`, also when
it fails half way. -/
theorem Agrees.writeAt (h : c.Agrees D) {offset : Nat} {data : Bytes}
    (hd : ∀ i < data.length, data.getD i 0 = D.getD (offset + i) 0) (fault : Option WriteFault) :
    (c.writeAt offset data fault).2.Agrees D := by
  have hin : ∀ x, offset ≤ x → x < offset + data.length → data.getD (x - offset) 0 = D.getD x 0 := by
    intro x hlo hhi
    rw [hd (x - offset) (by omega), Nat.add_sub_cancel' hlo]
  have hdoes := c.writeAt_does offset data fault
  generalize (c.writeAt offset data fault).1 = r at hdoes
  generalize (c.writeAt offset data fault).2 = c' at hdoes ⊢
  cases hdoes with
  | nothing => exact h
  | refused => exact h
  | failed n hfault hle hfile =>
    rcases hfile with hfile | hfile
    · refine ⟨?_, h.bound, fun x hx => ?_⟩
      · have htake : (data.take n).length ≤ data.length := List.length_take_le' n data
        rw [hfile, length_patch, h.length]
        exact Nat.max_eq_left (by omega)
      · rw [hfile]
        rcases getD_patch_take c.file.content data offset n x with hbyte | ⟨hlo, hhi, hbyte⟩
        · rw [hbyte]
          exact h.byte x hx
        · rw [hbyte]
          exact hin x hlo hhi
    · exact ⟨hfile ▸ h.length, h.bound, fun x hx => hfile ▸ h.byte x hx⟩
  | stored hle hmax hfile =>
    refine ⟨?_, fun x hx => ?_, fun x hx => ?_⟩
    · rw [hfile, length_patch, h.length]
      exact Nat.max_eq_left hle
    · rcases RangeSet.covers_insert.mp hx with hx | ⟨-, hhi⟩
      · exact h.bound x hx
      · exact Nat.lt_of_lt_of_le hhi hle
    · rw [hfile, getD_patch]
      split
      · rename_i hx'
        exact hin x hx'.1 hx'.2
      · rename_i hx'
        exact h.byte x ((RangeSet.covers_insert.mp hx).resolve_right hx')

/-- A write populates its own range at most, and forgets nothing. -/
theorem covers_writeAt {offset : Nat} {data : Bytes} {fault : Option WriteFault} {x : Nat} :
    (c.ranges.Covers x → (c.writeAt offset data fault).2.ranges.Covers x) ∧
      ((c.writeAt offset data fault).2.ranges.Covers x → c.ranges.Covers x ∨
        (offset ≤ x ∧ x < offset + data.length ∧ offset + data.length ≤ U64_MAX)) := by
  have hdoes := c.writeAt_does offset data fault
  generalize (c.writeAt offset data fault).1 = r at hdoes
  generalize (c.writeAt offset data fault).2 = c' at hdoes ⊢
  cases hdoes with
  | nothing => exact ⟨id, .inl⟩
  | refused => exact ⟨id, .inl⟩
  | failed => exact ⟨id, .inl⟩
  | stored hle hmax hfile =>
    refine ⟨fun hx => RangeSet.covers_insert.mpr (.inl hx), fun hx => ?_⟩
    rcases RangeSet.covers_insert.mp hx with hx | ⟨hlo, hhi⟩
    · exact .inl hx
    · exact .inr ⟨hlo, hhi, hmax⟩

/-- A write that fits, to a file that works, populates its whole range. -/
theorem writeAt_fits (c : SparseCache) (offset : Nat) (data : Bytes) (hs : c.totalSize ≤ U64_MAX)
    (hfits : offset + data.length ≤ c.totalSize) :
    (c.writeAt offset data none).1 = .ok () ∧ ∀ x, offset ≤ x → x < offset + data.length →
      (c.writeAt offset data none).2.ranges.Covers x := by
  unfold writeAt
  split
  · rename_i hnil
    refine ⟨rfl, fun x hlo hhi => ?_⟩
    rw [hnil, List.length_nil] at hhi
    omega
  · rw [if_neg (by omega), if_neg (by omega)]
    exact ⟨rfl, fun x hlo hhi => RangeSet.covers_insert.mpr (.inr ⟨hlo, hhi⟩)⟩

/-- A file that works can be read. -/
theorem readAt_works (h : c.Agrees D) (offset size : Nat) :
    ∃ data, (c.readAt offset size none).1 = .ok data := by
  unfold readAt
  split
  · exact ⟨[], rfl⟩
  · have hl := h.length
    have hlen : (slice c.file.content offset (min size (c.totalSize - offset))).length =
        min size (c.totalSize - offset) := by
      rw [length_slice]
      omega
    simp only [SpoolFile.seekReadExact, SpoolFile.read, SpoolFile.seekStart, hlen, if_true]
    exact ⟨_, rfl⟩

/-- What a read gives is as long as the cache is there, or the read fails. -/
theorem length_readAt {offset size : Nat} {fault : Option IoError} {data : Bytes}
    (h : (c.readAt offset size fault).1 = .ok data) :
    data.length = min size (c.totalSize - offset) := by
  unfold readAt at h
  split at h
  · cases h
    rw [List.length_nil, Nat.sub_eq_zero_of_le ‹_›, Nat.min_zero]
  · cases fault with
    | some e => cases h
    | none =>
      simp only [SpoolFile.seekReadExact] at h
      split at h
      · cases h
        assumption
      · cases h

/-- When nothing in the range is missing, a read that succeeds gives as many bytes
as the object has there, and each is populated. -/
theorem covers_of_readAt (h : c.Agrees D) (hs : c.totalSize ≤ U64_MAX) {offset size : Nat}
    {fault : Option IoError} {data : Bytes} (hm : c.missingRanges offset size = [])
    (hr : (c.readAt offset size fault).1 = .ok data) :
    data.length = min size (c.totalSize - offset) ∧
      ∀ i < data.length, c.ranges.Covers (offset + i) ∧ data.getD i 0 = D.getD (offset + i) 0 := by
  unfold SparseCache.readAt at hr
  split at hr
  · cases hr
    exact ⟨by simp; omega, fun i hi => nomatch hi⟩
  · rename_i ho
    cases fault with
    | some e => cases hr
    | none =>
      have hl := h.length
      have hlen : (slice c.file.content offset (min size (c.totalSize - offset))).length =
          min size (c.totalSize - offset) := by
        rw [length_slice]
        omega
      have hcov := (RangeSet.missing_eq_nil_iff hs).mp hm
      simp only [SpoolFile.seekReadExact, SpoolFile.read, SpoolFile.seekStart, hlen, if_true] at hr
      cases hr
      refine ⟨hlen, fun i hi => ?_⟩
      rw [hlen] at hi
      have hx : c.ranges.Covers (offset + i) := hcov _ (by omega) (by omega) (by omega)
      rw [getD_slice hi]
      exact ⟨hx, h.byte _ hx⟩

/-- When nothing in the range is missing, a read that succeeds gives the slice of `D`. -/
theorem readAt_of_agrees (h : c.Agrees D) (hs : c.totalSize ≤ U64_MAX)
    (hD : D.length = c.totalSize) {offset size : Nat} {fault : Option IoError} {data : Bytes}
    (hm : c.missingRanges offset size = []) (hr : (c.readAt offset size fault).1 = .ok data) :
    data = slice D offset size := by
  obtain ⟨hlen, hbytes⟩ := covers_of_readAt h hs hm hr
  refine eq_of_getD 0 ?_ fun i hi => ?_
  · rw [hlen, length_slice, hD]
  · rw [(hbytes i hi).2, getD_slice (by omega)]

end SparseCache

/-! ## The shared cache of an open object -/

/-- The text of a failure: the mount's own, or what a device error displays. -/
inductive FillMessage where
  | text (s : String)
  | device (e : Error)
  deriving DecidableEq, Repr

/-- Why a sequential fill stopped before every byte arrived. -/
structure FillFailure where
  message : FillMessage
  linkLost : Bool
  deriving DecidableEq, Repr

inductive FillState where
  | idle
  | running
  | complete
  | failed (failure : FillFailure)
  deriving DecidableEq, Repr

/-- A condition variable, as the threads that are parked in it. -/
structure Condvar where
  waiting : List Nat
  deriving DecidableEq, Repr

namespace Condvar

def new : Condvar := ⟨[]⟩

def wait (c : Condvar) (thread : Nat) : Condvar := ⟨thread :: c.waiting⟩

def notifyAll (_ : Condvar) : Condvar := ⟨[]⟩

/-- A thread may also wake up without a notification. -/
def wakeUp (c : Condvar) (thread : Nat) : Condvar := ⟨c.waiting.filter (· ≠ thread)⟩

def parked (c : Condvar) (thread : Nat) : Bool := c.waiting.contains thread

@[simp] theorem parked_new (thread : Nat) : new.parked thread = false := rfl

@[simp] theorem parked_notifyAll (c : Condvar) (thread : Nat) :
    c.notifyAll.parked thread = false := rfl

theorem parked_of_wakeUp {c : Condvar} {thread thread' : Nat}
    (h : (c.wakeUp thread).parked thread' = true) : c.parked thread' = true := by
  simp only [wakeUp, parked, List.contains_iff_mem] at h ⊢
  exact (List.mem_filter.mp h).1

end Condvar

/-- One sparse cache with the state of its optional sequential filler.
`stopRequested` is set when the mount is going away. -/
structure SharedSparseCache where
  cache : SparseCache
  fill : FillState
  stopRequested : Bool
  changed : Condvar

namespace SharedSparseCache

def new (totalSize : Nat) : SharedSparseCache := ⟨.new totalSize, .idle, false, .new⟩

/-- Claims the single fill slot. -/
def startFill (c : SharedSparseCache) : Bool × SharedSparseCache :=
  if c.fill = .idle then (true, { c with fill := .running }) else (false, c)

def isFilling (c : SharedSparseCache) : Bool := c.fill == .running

def requestStop (c : SharedSparseCache) : SharedSparseCache :=
  { c with stopRequested := true, changed := c.changed.notifyAll }

/-- Makes a fill that failed by a link loss eligible for one more. -/
def resetAfterLinkLoss (c : SharedSparseCache) : Bool × SharedSparseCache :=
  match c.fill with
  | .failed failure => if failure.linkLost then (true, { c with fill := .idle }) else (false, c)
  | _ => (false, c)

/-- Writes the next chunk of the stream and wakes every waiter. -/
def writeSequential (c : SharedSparseCache) (offset : Nat) (data : Bytes)
    (fault : Option WriteFault) : Except IoError Unit × SharedSparseCache :=
  if c.fill ≠ .running then (.error ⟨"sequential fill is not running"⟩, c)
  else
    match c.cache.writeAt offset data fault with
    | (.error e, cache) => (.error e, { c with cache })
    | (.ok (), cache) => (.ok (), { c with cache, changed := c.changed.notifyAll })

def fail (c : SharedSparseCache) (failure : FillFailure) : SharedSparseCache :=
  { c with fill := .failed failure, changed := c.changed.notifyAll }

/-- Ends the fill; a stream that ended early failed. -/
def finish (c : SharedSparseCache) (received : Nat) : SharedSparseCache :=
  { c with
    fill :=
      if received = c.cache.totalSize then .complete
      else .failed ⟨.text s!"full-object stream ended after {received} bytes; expected {c.cache.totalSize}",
        false⟩
    changed := c.changed.notifyAll }

/-- One pass of the loop of `wait_and_read`; `none` where the thread parks. It comes
to its next pass when it is woken. -/
def tryRead (c : SharedSparseCache) (thread offset size : Nat) (fault : Option IoError) :
    Option (Except FillFailure Bytes) × SharedSparseCache :=
  if c.cache.missingRanges offset size = [] then
    let (r, cache) := c.cache.readAt offset size fault
    (some (r.mapError fun e => ⟨.text e.message, false⟩), { c with cache })
  else
    match c.fill with
    | .idle => (some (.error ⟨.text "sequential fill was not started", false⟩), c)
    | .running => (none, { c with changed := c.changed.wait thread })
    | .complete =>
      (some (.error ⟨.text "full-object stream completed without the requested range", false⟩), c)
    | .failed failure => (some (.error failure), c)

/-- The thread is parked in `wait_and_read`. -/
def isParked (c : SharedSparseCache) (thread : Nat) : Bool := c.changed.parked thread

/-- A parked thread wakes up by itself. -/
def wakeUp (c : SharedSparseCache) (thread : Nat) : SharedSparseCache :=
  { c with changed := c.changed.wakeUp thread }

def writeAt (c : SharedSparseCache) (offset : Nat) (data : Bytes) (fault : Option WriteFault) :
    Except IoError Unit × SharedSparseCache :=
  let (r, cache) := c.cache.writeAt offset data fault
  (r, { c with cache })

def readAt (c : SharedSparseCache) (offset size : Nat) (fault : Option IoError) :
    Except IoError Bytes × SharedSparseCache :=
  let (r, cache) := c.cache.readAt offset size fault
  (r, { c with cache })

/-! ### The fill state -/

variable {c : SharedSparseCache}

theorem fill_startFill (h : c.startFill.1 = true) :
    c.fill = .idle ∧ c.startFill.2.fill = .running := by
  unfold startFill at h ⊢
  split at h
  · rename_i hi
    rw [if_pos hi]
    exact ⟨hi, rfl⟩
  · cases h

theorem startFill_of_false (h : c.startFill.1 = false) : c.startFill.2 = c := by
  unfold startFill at h ⊢
  split at h
  · cases h
  · rename_i hi
    rw [if_neg hi]

/-- What is written is what the cache takes. -/
theorem writeSequential_running (h : c.fill = .running) (offset : Nat) (data : Bytes)
    (fault : Option WriteFault) :
    (c.writeSequential offset data fault).1 = (c.cache.writeAt offset data fault).1 ∧
      (c.writeSequential offset data fault).2.cache = (c.cache.writeAt offset data fault).2 := by
  unfold writeSequential
  rw [if_neg (not_not.mpr h)]
  split
  · rename_i heq
    rw [heq]
    exact ⟨rfl, rfl⟩
  · rename_i heq
    rw [heq]
    exact ⟨rfl, rfl⟩

theorem fill_writeSequential (c : SharedSparseCache) (offset : Nat) (data : Bytes)
    (fault : Option WriteFault) : (c.writeSequential offset data fault).2.fill = c.fill := by
  unfold writeSequential
  split
  · rfl
  · split <;> rfl

theorem totalSize_writeSequential (c : SharedSparseCache) (offset : Nat) (data : Bytes)
    (fault : Option WriteFault) :
    (c.writeSequential offset data fault).2.cache.totalSize = c.cache.totalSize := by
  by_cases h : c.fill = .running
  · rw [(writeSequential_running h offset data fault).2, SparseCache.totalSize_writeAt]
  · rw [writeSequential, if_pos h]

theorem fill_tryRead (c : SharedSparseCache) (thread offset size : Nat) (fault : Option IoError) :
    (c.tryRead thread offset size fault).2.fill = c.fill := by
  unfold tryRead
  split
  · rfl
  · split <;> rfl

theorem totalSize_tryRead (c : SharedSparseCache) (thread offset size : Nat)
    (fault : Option IoError) :
    (c.tryRead thread offset size fault).2.cache.totalSize = c.cache.totalSize := by
  unfold tryRead
  split
  · exact SparseCache.totalSize_readAt offset size fault
  · split <;> rfl

theorem totalSize_resetAfterLinkLoss (c : SharedSparseCache) :
    c.resetAfterLinkLoss.2.cache.totalSize = c.cache.totalSize := by
  unfold resetAfterLinkLoss
  split
  · split <;> rfl
  · rfl

theorem length_tryRead {c : SharedSparseCache} {thread offset size : Nat} {fault : Option IoError}
    {data : Bytes} (h : (c.tryRead thread offset size fault).1 = some (.ok data)) :
    data.length = min size (c.cache.totalSize - offset) := by
  unfold tryRead at h
  split at h
  · dsimp only at h
    cases hr : (c.cache.readAt offset size fault).1 with
    | error e =>
      rw [hr] at h
      cases h
    | ok bytes =>
      rw [hr] at h
      cases h
      exact SparseCache.length_readAt hr
  · split at h <;> cases h

/-- A reset neither ends nor starts a running fill. -/
theorem fill_resetAfterLinkLoss (c : SharedSparseCache) :
    c.resetAfterLinkLoss.2.fill = .running ↔ c.fill = .running := by
  unfold resetAfterLinkLoss
  split
  · rename_i failure hf
    split
    · simp [hf]
    · rfl
  · rfl

/-- A pass parks the thread only while the fill runs. -/
theorem running_of_tryRead {thread offset size : Nat} {fault : Option IoError}
    (h : (c.tryRead thread offset size fault).1 = none) : c.fill = .running := by
  unfold tryRead at h
  split at h
  · cases h
  · split at h
    · cases h
    · assumption
    · cases h
    · cases h

/-! ### Who is parked -/

/-- Whoever is parked waits for a fill that runs. -/
def WaitsForFill (c : SharedSparseCache) : Prop :=
  ∀ thread, c.isParked thread = true → c.fill = .running

theorem waitsForFill_new (totalSize : Nat) : (new totalSize).WaitsForFill := fun _ h => nomatch h

/-- All are woken. -/
theorem waitsForFill_of_notified (h : ∀ thread, c.isParked thread = false) : c.WaitsForFill := by
  intro thread hp
  rw [h thread] at hp
  cases hp

namespace WaitsForFill

variable (h : c.WaitsForFill)

include h

theorem startFill : c.startFill.2.WaitsForFill := by
  unfold SharedSparseCache.startFill
  split
  · exact fun _ _ => rfl
  · exact h

theorem resetAfterLinkLoss : c.resetAfterLinkLoss.2.WaitsForFill := by
  unfold SharedSparseCache.resetAfterLinkLoss
  split
  · rename_i failure hf
    split
    · intro thread hp
      cases hf.symm.trans (h thread hp)
    · exact h
  · exact h

theorem writeSequential (offset : Nat) (data : Bytes) (fault : Option WriteFault) :
    (c.writeSequential offset data fault).2.WaitsForFill := by
  unfold SharedSparseCache.writeSequential
  split
  · exact h
  · split
    · exact h
    · exact waitsForFill_of_notified fun _ => rfl

theorem tryRead (thread offset size : Nat) (fault : Option IoError) :
    (c.tryRead thread offset size fault).2.WaitsForFill := by
  unfold SharedSparseCache.tryRead
  split
  · exact h
  · split
    · exact h
    · exact fun _ _ => ‹_›
    · exact h
    · exact h

theorem wakeUp (thread : Nat) : (c.wakeUp thread).WaitsForFill :=
  fun thread' hp => h thread' (Condvar.parked_of_wakeUp hp)

end WaitsForFill

end SharedSparseCache

end MtpMount
