import MtpMount.BufferRuns
import MtpMount.Handles
import MtpMount.Lib.Specifications

/-!
# A file that programs have open

What the mount is to be for the programs that use one file: a content that every
handle reads, and for each handle that wrote the bytes it wrote, which no other handle
sees. They become the content, all of it, when the handle is closed with success.

* `OpenedFile`, `OpenedFile.object`: the file, as an object that is asked and replies;
* `OpenedFile.opened_step`: its handles are those that the kernel has;
* `WriteBuffer.Pends`: the write buffers have what the handles of the file wrote.
-/

namespace MtpMount

open Interaction ByteVec

/-- `pending` is what a handle wrote since it was opened, none if it did not try to.
`cached` says that some handle may have read of the content. -/
structure OpenedFile where
  content : Bytes
  handles : List Nat
  pending : Nat → Option Bytes
  cached : Bool

namespace OpenedFile

/-- A file that nobody has open. -/
def closed (v : Bytes) : OpenedFile := ⟨v, [], fun _ => none, false⟩

variable (f : OpenedFile)

/-- What the handle wrote. -/
def wrote (fh : Nat) : Bytes := (f.pending fh).getD []

/-- A write on the handle. One that is refused leaves a handle that tried. -/
def written (fh offset : Nat) (data : Bytes) (r : Reply) : OpenedFile :=
  { f with pending := fun x => if x = fh then some (match r with
      | .written _ => patchWrite (f.wrote fh) offset data
      | _ => f.wrote fh) else f.pending x }

/-- The handle is closed, and with success. -/
def released (fh : Nat) (succeeds : Bool) : OpenedFile where
  content := if succeeds && f.wrote fh ≠ [] then f.wrote fh else f.content
  handles := f.handles.filter (· ≠ fh)
  pending := fun x => if x = fh then none else f.pending x
  cached := f.cached && f.handles.any (· ≠ fh)

/-- What one callback and its reply do to the file. -/
def step : Callback × Reply → OpenedFile
  | (.openFile .., .opened fh) => { f with handles := fh :: f.handles }
  | (.read _ fh .., _) => { f with cached := f.cached || f.wrote fh = [] }
  | (.write _ fh offset data, r) => f.written fh offset data r
  | (.release fh, r) => f.released fh (r = .ok)
  | _ => f

/-- What is done with the file behind the inode, through open handles. A handle that
wrote is closed when no other one is open that may have read of the old content: the
mount keeps what they read. -/
def Asks (i : Nat) : Callback → Prop
  | .openFile ino _ | .getattr ino => ino = i
  | .setattr ino none none => ino = i
  | .read ino fh .. | .write ino fh .. => ino = i ∧ fh ∈ f.handles
  | .release fh => f.wrote fh ≠ [] → f.cached = true → ∀ fh' ∈ f.handles, fh' = fh
  | .statfs | .opendir _ | .releasedir | .idle => True
  | _ => False

instance (i : Nat) (c : Callback) : Decidable (f.Asks i c) := by
  unfold Asks
  split <;> infer_instance

/-- What a read on the handle gives: of what it wrote, or of the content if that is
nothing. Nothing comes of an offset that is no `i64`. -/
def Gives (fh offset size : Nat) (bytes : Bytes) : Prop :=
  (f.pending fh).isSome = true ∧
      bytes = (if asI64 offset < 0 then [] else slice (f.wrote fh) offset size) ∨
    f.wrote fh = [] ∧ bytes = slice f.content offset size

/-- What the file may reply: bytes that are there, and its length while no handle tried
to write. -/
def Replies : Callback × Reply → Prop
  | (.read _ fh offset size, .data bytes) => f.Gives fh offset size bytes
  | (.getattr _, .attr attr) | (.setattr .., .attr attr) =>
    (∀ fh, f.pending fh = none) → attr.size = f.content.length
  | _ => True

/-- The file behind the inode, as an object that is served. -/
def object (i : Nat) : Specification OpenedFile Callback Reply where
  asks := fun f c => f.Asks i c
  replies := fun f x => f.Replies x
  next := fun f x => f.step x

/-- What a write leaves pending of the other handles. -/
theorem pending_written (fh offset : Nat) (data : Bytes) (r : Reply) (v : Bytes) :
    (fun x => if x = fh then some v else (f.written fh offset data r).pending x) =
      fun x => if x = fh then some v else f.pending x := by
  funext x
  split
  · rfl
  · exact if_neg ‹_›

/-! ## Its handles -/

variable {f : OpenedFile} {i : Nat} {h : List (Callback × Reply)} {c : Callback}

/-- A handle is carried while it is open. -/
theorem Asks.carriesOpen (ha : f.Asks i c) (ho : ∀ fh, opened h fh = if fh ∈ f.handles then some i else none) :
    c.CarriesOpen h := by
  intro p hp
  have hopen : ∀ {ino fh}, ino = i ∧ fh ∈ f.handles → opened h fh = some ino := by
    rintro ino fh ⟨rfl, hfh⟩
    rw [ho, if_pos hfh]
  cases c with
  | read ino fh offset size =>
    cases hp
    exact hopen ha
  | write ino fh offset data =>
    cases hp
    exact hopen ha
  | setattr ino size fh =>
    cases size with
    | none =>
      cases fh with
      | none => cases hp
      | some fh => exact ha.elim
    | some size => exact ha.elim
  | _ => cases hp

/-- The handles of the file are those that the kernel was told of. -/
theorem Asks.opened_step (ha : f.Asks i c) (ho : ∀ fh, opened h fh = if fh ∈ f.handles then some i else none)
    (r : Reply) (fh : Nat) :
    opened (h ++ [(c, r)]) fh = if fh ∈ (f.step (c, r)).handles then some i else none := by
  rw [opened_snoc, ho]
  cases c with
  | openFile ino mode =>
    obtain rfl : ino = i := ha
    cases r with
    | opened fh' =>
      show (if fh' = fh then some ino else _) = if fh ∈ fh' :: f.handles then some ino else none
      by_cases hfh : fh' = fh
      · rw [if_pos hfh, if_pos (hfh ▸ List.mem_cons_self)]
      · simp only [if_neg hfh, List.mem_cons, Ne.symm hfh, false_or]
    | _ => rfl
  | release fh' =>
    show (if fh' = fh then none else _) = if fh ∈ f.handles.filter (· ≠ fh') then some i else none
    by_cases hfh : fh' = fh
    · rw [if_pos hfh, if_neg]
      simp [hfh]
    · simp only [if_neg hfh, List.mem_filter, decide_eq_true_eq, ne_eq, Ne.symm hfh, not_false_iff,
        and_true]
  | setattr ino size fh' =>
    cases size with
    | none => rfl
    | some size => exact ha.elim
  | create parent name => exact ha.elim
  | _ => rfl

end OpenedFile

/-! ## Its buffers -/

/-- The buffer holds what was written, and is dirty when that is something. -/
structure FileBuffer.Spools (b : FileBuffer) (v : Bytes) : Prop extends b.Holds v where
  dirty : b.dirty = true ↔ v ≠ []
  short : v.length ≤ U64_MAX

namespace FileBuffer

variable {b : FileBuffer} {v : Bytes}

theorem spools_new (inode originalSize : Nat) : (new inode originalSize).Spools [] where
  toHolds := holds_new inode originalSize
  dirty := by simp [new]
  short := Nat.zero_le _

theorem Spools.writeAt (h : b.Spools v) (offset : Nat) (data : Bytes) :
    (b.writeAt (asI64 offset) data none).2.Spools
      (match (b.writeAt (asI64 offset) data none).1 with
        | .ok _ => patchWrite v offset data
        | .error _ => v) := by
  have hholds := h.toHolds.writeAt offset data
  unfold FileBuffer.writeAt at hholds ⊢
  split
  · exact h
  · rename_i hneg
    split
    · exact h
    · rename_i hend
      rw [toNat_asI64 hneg] at hend
      split
      · rename_i hdata
        show b.Spools (patchWrite v offset data)
        rw [patchWrite, if_pos hdata]
        exact h
      · rename_i hdata
        rw [if_neg hneg, toNat_asI64 hneg, if_neg hend, if_neg hdata] at hholds
        have hlen : (patchWrite v offset data).length = max v.length (offset + data.length) := by
          rw [patchWrite, if_neg hdata, length_patch]
        rw [toNat_asI64 hneg]
        show FileBuffer.Spools _ (patchWrite v offset data)
        refine ⟨hholds, ⟨fun _ hnil => ?_, fun _ => rfl⟩, ?_⟩
        · have hpos := List.length_pos_of_ne_nil hdata
          have hzero := congrArg List.length hnil
          rw [hlen, List.length_nil] at hzero
          omega
        · rw [hlen]
          exact max_le h.short (Nat.le_of_not_lt hend)

theorem Spools.readAt (h : b.Spools v) (offset : Int) (size : Nat) (fault : Option IoError) :
    (b.readAt offset size fault).2.Spools v := by
  refine ⟨h.toHolds.readAt offset size fault, ?_, h.short⟩
  rw [← h.dirty]
  unfold FileBuffer.readAt
  split
  · rfl
  · split <;> rfl

/-- A read that succeeds gives what is there. -/
theorem Holds.readAt_ok (h : b.Holds v) {offset : Nat} {size : Nat} {fault : Option IoError}
    {bytes : Bytes} (hok : (b.readAt (asI64 offset) size fault).1 = .ok bytes) :
    bytes = if asI64 offset < 0 then [] else slice v offset size := by
  have hread := h.read (asI64 offset) size
  have hsame : (b.readAt (asI64 offset) size none).1 = .ok bytes := by
    unfold FileBuffer.readAt at hok ⊢
    split at hok
    · rw [if_pos ‹_›]
      exact hok
    · rw [if_neg ‹_›]
      split at hok
      · rw [if_pos ‹_›]
        exact hok
      · rw [if_neg ‹_›]
        cases fault with
        | none => exact hok
        | some e => cases hok
  cases hsame.symm.trans hread
  split
  · rfl
  · rw [toNat_asI64 ‹_›]

end FileBuffer

/-- The buffers have what is pending; a handle without one has nothing. -/
structure WriteBuffer.Pends (w : WriteBuffer) (P : Nat → Option Bytes) : Prop where
  opened : ∀ fh b, w.buffers.lookup fh = some b → ∃ v, P fh = some v ∧ b.Spools v
  closed : ∀ fh, w.buffers.lookup fh = none → (P fh).getD [] = []

namespace WriteBuffer.Pends

variable {w : WriteBuffer} {P : Nat → Option Bytes} {fh : Nat} {v : Bytes}

/-- One buffer and what is pending of it are replaced. -/
theorem insert (h : w.Pends P) {P' : Nat → Option Bytes} {b : FileBuffer} (hP : P' fh = some v)
    (hb : b.Spools v) (hother : ∀ fh', fh' ≠ fh → P' fh' = P fh') :
    (WriteBuffer.mk (w.buffers.insert fh b)).Pends P' where
  opened := by
    intro fh' b' hl
    rw [HashMap.lookup_insert] at hl
    split at hl
    · rename_i hfh
      cases hl
      rw [hfh]
      exact ⟨v, hP, hb⟩
    · rw [hother fh' ‹_›]
      exact h.opened fh' b' hl
  closed := by
    intro fh' hl
    rw [HashMap.lookup_insert] at hl
    split at hl
    · cases hl
    · rw [hother fh' ‹_›]
      exact h.closed fh' hl

/-- A handle that tries to write. -/
theorem tried (h : w.Pends P) (fh : Nat) :
    w.Pends fun x => if x = fh then some ((P fh).getD []) else P x where
  opened := by
    intro x b hl
    obtain ⟨v, hv, hb⟩ := h.opened x b hl
    refine ⟨v, ?_, hb⟩
    split
    · rename_i hx
      rw [← hx, hv]
      rfl
    · exact hv
  closed := by
    intro x hl
    split
    · rename_i hx
      rw [← hx]
      exact h.closed x hl
    · exact h.closed x hl

theorem openBuffer (h : w.Pends P) (hP : (P fh).isSome = true) (inode size : Nat)
    (fault : Option IoError) : (w.openBuffer fh inode size fault).2.Pends P := by
  unfold WriteBuffer.openBuffer
  split
  · exact h
  · rename_i hl
    split
    · exact h
    · obtain ⟨v, hv⟩ := Option.isSome_iff_exists.mp hP
      have hnil := h.closed fh hl
      rw [hv] at hnil
      refine h.insert hv ?_ fun _ _ => rfl
      rw [show v = [] from hnil]
      exact FileBuffer.spools_new inode size

theorem read (h : w.Pends P) (fh : Nat) (offset : Int) (size : Nat) (fault : Option IoError) :
    (w.read fh offset size fault).2.Pends P := by
  unfold WriteBuffer.read
  split
  · exact h
  · rename_i b hl
    obtain ⟨v, hv, hb⟩ := h.opened fh b hl
    exact h.insert hv (hb.readAt offset size fault) fun _ _ => rfl

theorem read_ok (h : w.Pends P) {offset size : Nat} {fault : Option IoError} {bytes : Bytes}
    (hok : (w.read fh (asI64 offset) size fault).1 = .ok bytes) : (P fh).isSome = true ∧
      bytes = if asI64 offset < 0 then [] else slice ((P fh).getD []) offset size := by
  unfold WriteBuffer.read at hok
  split at hok
  · cases hok
  · rename_i b hl
    obtain ⟨v, hv, hb⟩ := h.opened fh b hl
    rw [hv]
    refine ⟨rfl, ?_⟩
    dsimp only at hok
    cases hr : (b.readAt (asI64 offset) size fault).1 with
    | ok data =>
      rw [hr] at hok
      cases hok
      exact hb.toHolds.readAt_ok hr
    | error e =>
      rw [hr] at hok
      cases hok

/-- A write patches what its handle wrote, or is refused. -/
theorem write (h : w.Pends P) (hP : P fh = some v) (offset : Nat) (data : Bytes) :
    (w.write fh (asI64 offset) data none).2.Pends fun x => if x = fh then
      some (match (w.write fh (asI64 offset) data none).1 with
        | .ok _ => patchWrite v offset data
        | .error _ => v) else P x := by
  have hother : ∀ (u : Bytes) (x : Nat), x ≠ fh → (if x = fh then some u else P x) = P x :=
    fun u x hx => if_neg hx
  unfold WriteBuffer.write
  split
  · have hsame : (fun x => if x = fh then some v else P x) = P := by
      funext x
      split
      · rename_i hx
        rw [hx, hP]
      · rfl
    dsimp only
    rw [hsame]
    exact h
  · rename_i b hl
    obtain ⟨u, hu, hb⟩ := h.opened fh b hl
    cases hP.symm.trans hu
    have hwrite := hb.writeAt offset data
    dsimp only
    cases hr : (b.writeAt (asI64 offset) data none).1 with
    | ok n =>
      rw [hr] at hwrite
      exact h.insert (if_pos rfl) hwrite (hother _)
    | error e =>
      rw [hr] at hwrite
      exact h.insert (if_pos rfl) hwrite (hother _)

theorem close (h : w.Pends P) (fh : Nat) :
    (w.close fh).2.Pends fun x => if x = fh then none else P x where
  opened := by
    intro x b hl
    rw [WriteBuffer.close, HashMap.lookup_erase] at hl
    split at hl
    · cases hl
    · rw [if_neg ‹_›]
      exact h.opened x b hl
  closed := by
    intro x hl
    rw [WriteBuffer.close, HashMap.lookup_erase] at hl
    split at hl
    · rw [if_pos ‹_›]
      rfl
    · rw [if_neg ‹_›]
      exact h.closed x hl

end WriteBuffer.Pends

end MtpMount
