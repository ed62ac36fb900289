import MtpMount.Buffer
import MtpMount.Lib.Machines

/-!
# Calls on a write buffer

A buffer as a machine that answers calls, next to the byte vector that it stands
for. Length, dirty flag and file are kept apart in a buffer.

* `buffer_is_vector`: on a file that works the two answer alike, and stay in step;
* `failed_write_iff`: when a write that failed leaves nothing that any later call
  or the upload can show.
-/

namespace MtpMount

open ByteVec Machines

/-- A call, with the failure of the file where it has one. -/
inductive BufferCall where
  | write (offset : Int) (data : Bytes) (fault : Option WriteFault)
  | read (offset : Int) (size : Nat) (fault : Option IoError)

inductive BufferAnswer where
  | wrote (r : Except IoError Nat)
  | read (r : Except IoError Bytes)

namespace BufferCall

/-- An `i64` offset; data and sizes below `2 ^ 32`. -/
def Fits : BufferCall → Prop
  | write offset data _ => -2 ^ 63 ≤ offset ∧ offset < 2 ^ 63 ∧ data.length < 2 ^ 32
  | read offset size _ => -2 ^ 63 ≤ offset ∧ offset < 2 ^ 63 ∧ size < 2 ^ 32

/-- The file does not fail. -/
def Works : BufferCall → Prop
  | write _ _ fault => fault = none
  | read _ _ fault => fault = none

/-- The call is a non-empty write that was accepted. -/
def Stores : BufferCall → BufferAnswer → Prop
  | write _ data _, .wrote (.ok _) => data ≠ []
  | _, _ => False

end BufferCall

namespace FileBuffer

def answer (b : FileBuffer) : BufferCall → BufferAnswer × FileBuffer
  | .write offset data fault =>
    (.wrote (b.writeAt offset data fault).1, (b.writeAt offset data fault).2)
  | .read offset size fault => (.read (b.readAt offset size fault).1, (b.readAt offset size fault).2)

/-- Consumes the buffer and returns its file. -/
def intoFile (b : FileBuffer) : SpoolFile := b.file

end FileBuffer

/-- The vector as a machine: every offset below zero is refused, every other write
patches, and a read gives what is there. -/
def vectorAnswer (v : Bytes) : BufferCall → BufferAnswer × Bytes
  | .write offset data _ =>
    if offset < 0 then (.wrote (.error FileBuffer.INVALID_OFFSET), v)
    else (.wrote (.ok data.length), patchWrite v offset.toNat data)
  | .read offset size _ =>
    (.read (.ok (if offset < 0 then [] else slice v offset.toNat size)), v)

/-! ## A file that works -/

section Works

variable {b : FileBuffer} {v : Bytes}

/-- An offset in range is not refused for its end. -/
theorem not_overflows {offset : Int} {data : Bytes} (ho : offset < 2 ^ 63)
    (hd : data.length < 2 ^ 32) : ¬ offset.toNat + data.length > U64_MAX := by
  have hmax : U64_MAX = 2 ^ 64 - 1 := rfl
  omega

theorem FileBuffer.Holds.wrote (h : b.Holds v) {offset : Int} {data : Bytes} (ho : offset < 2 ^ 63)
    (hd : data.length < 2 ^ 32) :
    (b.writeAt offset data none).1 =
        (if offset < 0 then .error FileBuffer.INVALID_OFFSET else .ok data.length) ∧
      (b.writeAt offset data none).2.Holds
        (if offset < 0 then v else patchWrite v offset.toNat data) := by
  have hwrite := h.write offset data
  have hwrites := b.writeAt_writes offset data none
  generalize (b.writeAt offset data none).1 = r at hwrites hwrite ⊢
  generalize (b.writeAt offset data none).2 = b' at hwrites hwrite ⊢
  cases hwrites with
  | refused hout =>
    have hneg : offset < 0 := hout.resolve_right (not_overflows ho hd)
    rw [if_pos hneg, if_pos hneg]
    exact ⟨rfl, hwrite⟩
  | empty hpos hdata =>
    rw [if_neg hpos, if_neg hpos, hdata]
    exact ⟨rfl, hdata ▸ hwrite⟩
  | stored hpos _ =>
    rw [if_neg hpos, if_neg hpos, Nat.mod_eq_of_lt hd]
    exact ⟨rfl, hwrite⟩

theorem FileBuffer.Holds.read (h : b.Holds v) (offset : Int) (size : Nat) :
    (b.readAt offset size none).1 = .ok (if offset < 0 then [] else slice v offset.toNat size) := by
  unfold FileBuffer.readAt
  split
  · rfl
  · split
    · rename_i hend
      rw [h.len] at hend
      rw [slice, List.drop_eq_nil_of_le hend, List.take_nil]
    · rename_i hend
      have hslice : slice b.file.content offset.toNat (min (b.len - offset.toNat) size) =
          slice v offset.toNat size := by
        rw [h.content, h.len, slice, slice, List.take_eq_take_min, List.length_drop]
        conv => rhs; rw [List.take_eq_take_min, List.length_drop]
        congr 1
        omega
      have hlen : (slice v offset.toNat size).length = min (b.len - offset.toNat) size := by
        rw [length_slice, h.len]
        exact Nat.min_comm _ _
      simp only [SpoolFile.seekReadExact, SpoolFile.read, SpoolFile.seekStart, hslice, hlen, if_true]

/-- The buffer answers as the vector does. -/
theorem buffer_simulates_vector : Simulates FileBuffer.answer vectorAnswer
    (fun c => c.Fits ∧ c.Works) FileBuffer.Holds := by
  rintro b v (⟨offset, data, fault⟩ | ⟨offset, size, fault⟩) h ⟨hfits, hworks⟩
  · cases hworks
    obtain ⟨hanswer, hnext⟩ := h.wrote hfits.2.1 hfits.2.2
    unfold FileBuffer.answer vectorAnswer
    dsimp only
    rw [hanswer]
    split at hnext
    · rename_i hneg
      rw [if_pos hneg, if_pos hneg]
      exact ⟨rfl, hnext⟩
    · rename_i hneg
      rw [if_neg hneg, if_neg hneg]
      exact ⟨rfl, hnext⟩
  · cases hworks
    exact ⟨congrArg BufferAnswer.read (h.read offset size), h.readAt offset size none⟩

/-- The dirty flag says whether something was stored. -/
theorem dirty_answer (b : FileBuffer) (c : BufferCall) :
    (b.answer c).2.dirty = true ↔ b.dirty = true ∨ c.Stores (b.answer c).1 := by
  cases c with
  | write offset data fault =>
    have hwrites := b.writeAt_writes offset data fault
    unfold FileBuffer.answer
    dsimp only
    generalize (b.writeAt offset data fault).1 = r at hwrites ⊢
    generalize (b.writeAt offset data fault).2 = b' at hwrites ⊢
    cases hwrites with
    | refused _ => exact ⟨.inl, fun h => h.resolve_right id⟩
    | empty _ hdata => exact ⟨.inl, fun h => h.resolve_right fun hne => hne hdata⟩
    | unsought _ _ => exact ⟨.inl, fun h => h.resolve_right id⟩
    | failed _ _ _ => exact ⟨.inl, fun h => h.resolve_right id⟩
    | stored _ hdata => exact ⟨fun _ => .inr hdata, fun _ => rfl⟩
  | read offset size fault =>
    have hdirty : (b.answer (.read offset size fault)).2.dirty = b.dirty := by
      unfold FileBuffer.answer FileBuffer.readAt
      dsimp only
      split
      · rfl
      · split <;> rfl
    rw [hdirty]
    exact ⟨.inl, fun h => h.resolve_right id⟩

theorem dirty_run (b : FileBuffer) (calls : List BufferCall) :
    (run FileBuffer.answer b calls).2.dirty = true ↔
      b.dirty = true ∨ ∃ p ∈ calls.zip (run FileBuffer.answer b calls).1, p.1.Stores p.2 := by
  induction calls generalizing b with
  | nil => simp [run]
  | cons c calls ih =>
    rw [run, ih, dirty_answer]
    simp only [List.zip_cons_cons, List.mem_cons, exists_eq_or_imp, or_assoc]

/-- A write that is refused or empty leaves the buffer as it is. -/
theorem writeAt_unchanged {offset : Int} {data : Bytes}
    (h : (∃ e, (b.writeAt offset data none).1 = .error e) ∨ data = []) :
    (b.writeAt offset data none).2 = b := by
  have hwrites := b.writeAt_writes offset data none
  generalize (b.writeAt offset data none).1 = r at hwrites h
  generalize (b.writeAt offset data none).2 = b' at hwrites ⊢
  cases hwrites with
  | refused _ => rfl
  | empty _ _ => rfl
  | stored _ hdata =>
    rcases h with ⟨e, he⟩ | hnil
    · cases he
    · exact absurd hnil hdata

/-- A buffer on a file that works is a byte vector. -/
theorem buffer_is_vector (inode originalSize : Nat) {calls : List BufferCall}
    (hfits : ∀ c ∈ calls, c.Fits) (hworks : ∀ c ∈ calls, c.Works) :
    let b := run FileBuffer.answer (.new inode originalSize) calls
    let v := run vectorAnswer [] calls
    b.1 = v.1 ∧ b.2.len = v.2.length ∧ b.2.intoFile.content = v.2 ∧
      (b.2.dirty = true ↔ ∃ p ∈ calls.zip b.1, p.1.Stores p.2) ∧
      ∀ offset data, ((∃ e, (b.2.writeAt offset data none).1 = .error e) ∨ data = []) →
        (b.2.writeAt offset data none).2 = b.2 := by
  obtain ⟨hanswers, hholds⟩ := buffer_simulates_vector.run (FileBuffer.holds_new inode originalSize)
    fun c hc => ⟨hfits c hc, hworks c hc⟩
  refine ⟨hanswers, hholds.len, hholds.content, ?_, fun _ _ => writeAt_unchanged⟩
  rw [dirty_run]
  exact or_iff_right Bool.false_ne_true

/-- A hole, an overlap, an empty write, a refused one, and a read over all of it. -/
def mixedCalls : List BufferCall :=
  [.write 2 [7, 8] none, .write 3 [9] none, .write 9 [] none, .write (-1) [5] none, .read 0 10 none]

theorem buffer_is_vector_mixed :
    (run FileBuffer.answer (.new 3 0) mixedCalls).2.intoFile.content = [0, 0, 7, 9] := by
  have hfits : ∀ c ∈ mixedCalls, c.Fits := by
    simp [mixedCalls, BufferCall.Fits]
  have hworks : ∀ c ∈ mixedCalls, c.Works := by
    simp [mixedCalls, BufferCall.Works]
  exact (buffer_is_vector 3 0 hfits hworks).2.2.1.trans (by decide)

end Works

/-! ## A file that fails -/

section Failed

variable {b b' : FileBuffer} {calls : List BufferCall}

/-- What a flush takes from a buffer: how long the file is, by seeking to its end, and
the bytes of it that are uploaded. It takes nothing from a buffer that is not dirty. -/
def FileBuffer.upload (b : FileBuffer) : Option (Nat × Bytes) :=
  if b.dirty then some (b.file.seekEnd.1, (fileStream (b.file.seekEnd.2.seekStart 0)).flatten)
  else none

theorem FileBuffer.upload_eq (b : FileBuffer) : b.upload =
    if b.dirty then some (b.file.content.length, b.file.content) else none := by
  unfold upload
  rw [flatten_fileStream rfl]
  rfl

/-- Nothing tells the two buffers apart: not length or flag, no later call, no upload. -/
structure Alike (b b' : FileBuffer) : Prop where
  len : b'.len = b.len
  dirty : b'.dirty = b.dirty
  later : ∀ calls : List BufferCall, (∀ c ∈ calls, c.Fits) →
    (run FileBuffer.answer b' calls).1 = (run FileBuffer.answer b calls).1 ∧
      (run FileBuffer.answer b' calls).2.upload = (run FileBuffer.answer b calls).2.upload

/-- Files that no write brings apart: those of one content, and a single zero byte
next to no byte at all, while nothing else is there. -/
def SameFile (b b' : FileBuffer) : Prop :=
  b'.file.content = b.file.content ∨
    (b.dirty = false ∧ b.len = 0 ∧ b.file.content = [] ∧ b'.file.content = [0])

/-- The buffers differ in nothing but the cursor, or as `SameFile` says. -/
structure Twins (b b' : FileBuffer) : Prop where
  len : b'.len = b.len
  dirty : b'.dirty = b.dirty
  file : SameFile b b'

/-- A write covers the one zero byte. -/
theorem patch_zero {data : Bytes} (offset : Nat) (h : data ≠ []) :
    patch 0 [0] offset data = patch 0 [] offset data := by
  have hpos := List.length_pos_iff.mpr h
  refine eq_of_getD 0 ?_ fun i _ => ?_
  · rw [length_patch, length_patch, List.length_singleton, List.length_nil]
    omega
  · rw [getD_patch, getD_patch]
    split
    · rfl
    · cases i <;> rfl

/-- The same data stored in both files. -/
theorem Twins.content_writeAll (h : Twins b b') {offset : Nat} {data : Bytes} (hd : data ≠ []) :
    ((b'.file.seekStart offset).writeAll data).content =
      ((b.file.seekStart offset).writeAll data).content := by
  rw [SpoolFile.content_writeAll hd, SpoolFile.content_writeAll hd]
  show patch 0 b'.file.content offset data = patch 0 b.file.content offset data
  rcases h.file with hsame | ⟨-, -, hnil, hzero⟩
  · rw [hsame]
  · rw [hnil, hzero, patch_zero offset hd]

theorem Twins.writeAt (h : Twins b b') (offset : Int) (data : Bytes) (fault : Option WriteFault) :
    (b'.writeAt offset data fault).1 = (b.writeAt offset data fault).1 ∧
      Twins (b.writeAt offset data fault).2 (b'.writeAt offset data fault).2 := by
  unfold FileBuffer.writeAt
  split
  · exact ⟨rfl, h⟩
  · split
    · exact ⟨rfl, h⟩
    · split
      · exact ⟨rfl, h⟩
      · rename_i hdata
        rcases fault with _ | ⟨e⟩ | ⟨stored, e⟩
        · refine ⟨rfl, ?_, rfl, .inl (h.content_writeAll hdata)⟩
          show max b'.len _ = max b.len _
          rw [h.len]
        · exact ⟨rfl, h⟩
        · refine ⟨rfl, h.len, h.dirty, ?_⟩
          by_cases hstored : data.take stored = []
          · show SameFile { b with file := (b.file.seekStart offset.toNat).writeAll (data.take stored) }
              { b' with file := (b'.file.seekStart offset.toNat).writeAll (data.take stored) }
            rw [hstored]
            exact h.file
          · exact .inl (h.content_writeAll hstored)

theorem Twins.readAt (h : Twins b b') (offset : Int) (size : Nat) (fault : Option IoError) :
    (b'.readAt offset size fault).1 = (b.readAt offset size fault).1 ∧
      Twins (b.readAt offset size fault).2 (b'.readAt offset size fault).2 := by
  unfold FileBuffer.readAt
  rw [h.len]
  split
  · exact ⟨rfl, h⟩
  · split
    · exact ⟨rfl, h⟩
    · rename_i hend
      cases fault with
      | some e => exact ⟨rfl, rfl, h.dirty, h.file⟩
      | none =>
        rcases h.file with hsame | ⟨-, hlen, -, -⟩
        · simp only [SpoolFile.seekReadExact, SpoolFile.read, SpoolFile.seekStart, hsame]
          exact ⟨rfl, rfl, h.dirty, .inl rfl⟩
        · exact absurd (hlen ▸ Nat.zero_le _) hend

theorem twins_simulates : Simulates FileBuffer.answer FileBuffer.answer (fun _ => True)
    (fun b' b => Twins b b') := by
  rintro b' b (⟨offset, data, fault⟩ | ⟨offset, size, fault⟩) h -
  · obtain ⟨hanswer, hnext⟩ := h.writeAt offset data fault
    exact ⟨congrArg BufferAnswer.wrote hanswer, hnext⟩
  · obtain ⟨hanswer, hnext⟩ := h.readAt offset size fault
    exact ⟨congrArg BufferAnswer.read hanswer, hnext⟩

theorem Twins.upload (h : Twins b b') : b'.upload = b.upload := by
  rw [FileBuffer.upload_eq, FileBuffer.upload_eq, h.dirty]
  rcases h.file with hsame | ⟨hclean, -⟩
  · rw [hsame]
  · rw [hclean]
    rfl

theorem Twins.alike (h : Twins b b') : Alike b b' where
  len := h.len
  dirty := h.dirty
  later := fun _ _ =>
    have ⟨hanswers, hend⟩ := twins_simulates.run h fun _ _ => trivial
    ⟨hanswers, hend.upload⟩

/-- A later write of one byte at a place shows both files everywhere else. -/
theorem Alike.rewritten (h : Alike b b') (offset : Nat) (ho : offset < 2 ^ 63) :
    patch 0 b'.file.content offset [1] = patch 0 b.file.content offset [1] := by
  have hfits : ∀ c ∈ [BufferCall.write offset [1] none], c.Fits := by
    intro c hc
    cases List.mem_singleton.mp hc
    refine ⟨?_, ?_, by decide⟩ <;> omega
  have hstored : ∀ b : FileBuffer, (b.answer (.write offset [1] none)).2.upload =
      some ((patch 0 b.file.content offset [1]).length, patch 0 b.file.content offset [1]) := by
    intro b
    have hmax : U64_MAX = 2 ^ 64 - 1 := rfl
    unfold FileBuffer.answer FileBuffer.writeAt
    dsimp only
    rw [if_neg (by omega), if_neg (by simp only [Int.toNat_natCast, List.length_singleton]; omega),
      if_neg (List.cons_ne_nil _ _), FileBuffer.upload_eq]
    rfl
  have hupload := (h.later _ hfits).2
  unfold run at hupload
  rw [run, run, hstored, hstored] at hupload
  exact congrArg Prod.snd (Option.some.inj hupload)

/-- Where nothing can tell them apart, the files are the same but for one zero byte. -/
theorem Alike.sameFile (h : Alike b b') (hclean : b.dirty = false → b.len = 0)
    (hle : b.file.content.length ≤ b'.file.content.length) : SameFile b b' := by
  cases hdirty : b.dirty with
  | true =>
    have hupload := (h.later [] nofun).2
    unfold run at hupload
    rw [FileBuffer.upload_eq, FileBuffer.upload_eq, h.dirty, hdirty] at hupload
    exact .inl (congrArg Prod.snd (Option.some.inj hupload))
  | false =>
    have h₀ := h.rewritten 0 (by decide)
    have h₁ := h.rewritten 1 (by decide)
    have hget : ∀ i, b'.file.content.getD i 0 = b.file.content.getD i 0 := by
      intro i
      rcases Nat.eq_zero_or_pos i with rfl | hi
      · have heq := congrArg (fun v : Bytes => v.getD 0 0) h₁
        rwa [getD_patch, getD_patch, if_neg (by simp), if_neg (by simp)] at heq
      · have heq := congrArg (fun v : Bytes => v.getD i 0) h₀
        rwa [getD_patch, getD_patch, if_neg (by simp; omega), if_neg (by simp; omega)] at heq
    have hlen := congrArg List.length h₀
    rw [length_patch, length_patch, List.length_singleton] at hlen
    by_cases hsame : b'.file.content.length = b.file.content.length
    · exact .inl (eq_of_getD 0 hsame fun i _ => hget i)
    · have hnil : b.file.content = [] := List.length_eq_zero_iff.mp (by omega)
      have hone : b'.file.content.length = 1 := by
        rw [hnil, List.length_nil] at hlen hsame
        omega
      refine .inr ⟨hdirty, hclean hdirty, hnil, eq_of_getD 0 hone fun i hi => ?_⟩
      rw [hget i, hnil]
      have hi₀ : i = 0 := by omega
      rw [hi₀]
      rfl

/-- Nothing was written to a buffer that is not dirty. -/
theorem len_of_clean (inode originalSize : Nat) (calls : List BufferCall) :
    (run FileBuffer.answer (.new inode originalSize) calls).2.dirty = false →
      (run FileBuffer.answer (.new inode originalSize) calls).2.len = 0 := by
  refine run_invariant (P := fun b : FileBuffer => b.dirty = false → b.len = 0)
    ?_ (fun _ => rfl) (show ∀ i ∈ calls, True from fun _ _ => trivial)
  rintro b (⟨offset, data, fault⟩ | ⟨offset, size, fault⟩) h -
  · have hwrites := b.writeAt_writes offset data fault
    unfold FileBuffer.answer
    dsimp only
    generalize (b.writeAt offset data fault).1 = r at hwrites
    generalize (b.writeAt offset data fault).2 = b' at hwrites ⊢
    cases hwrites with
    | stored _ _ => exact nofun
    | _ => exact h
  · unfold FileBuffer.answer FileBuffer.readAt
    dsimp only
    split
    · exact h
    · split <;> exact h

/-- What a failing write stored is nothing; or it is in the file already; or it is one
zero byte at the start of an empty file, before anything was written. -/
def Unseen (b : FileBuffer) (offset : Nat) (stored : Bytes) : Prop :=
  stored = [] ∨
    (offset + stored.length ≤ b.file.content.length ∧
      slice b.file.content offset stored.length = stored) ∨
    (b.dirty = false ∧ b.file.content = [] ∧ offset = 0 ∧ stored = [0])

/-- When a failed write leaves no trace. One that was refused, or that failed before
it wrote, never leaves one. -/
theorem failed_write_iff (inode originalSize : Nat) (calls : List BufferCall) {offset : Int}
    {data : Bytes} {fault : Option WriteFault} {e : IoError}
    (herr : ((run FileBuffer.answer (.new inode originalSize) calls).2.writeAt offset data fault).1 =
      .error e) :
    let b := (run FileBuffer.answer (.new inode originalSize) calls).2
    Alike b (b.writeAt offset data fault).2 ↔
      ∀ stored err, fault = some (.write stored err) → 0 ≤ offset →
        offset.toNat + data.length ≤ U64_MAX → Unseen b offset.toNat (data.take stored) := by
  intro b
  have hclean : b.dirty = false → b.len = 0 := len_of_clean inode originalSize calls
  have hwrites := b.writeAt_writes offset data fault
  generalize (b.writeAt offset data fault).1 = r at hwrites herr
  generalize (b.writeAt offset data fault).2 = b' at hwrites ⊢
  have hself : Alike b b := Twins.alike ⟨rfl, rfl, .inl rfl⟩
  cases hwrites with
  | refused hout =>
    refine ⟨fun _ stored err _ hpos hle => ?_, fun _ => hself⟩
    omega
  | empty _ _ => cases herr
  | unsought _ _ =>
    refine ⟨fun _ stored err hf => ?_, fun _ => hself⟩
    cases hf
  | stored _ _ => cases herr
  | @failed stored err hpos hle hdata =>
    by_cases hstored : data.take stored = []
    · have hsame : SameFile b { b with
          file := (b.file.seekStart offset.toNat).writeAll (data.take stored) } := by
        refine .inl ?_
        dsimp only
        rw [SpoolFile.writeAll, if_pos hstored]
        rfl
      refine ⟨fun _ stored' err' hf _ _ => ?_, fun _ => Twins.alike ⟨rfl, rfl, hsame⟩⟩
      cases hf
      exact .inl hstored
    · have hcontent := SpoolFile.content_writeAll (f := b.file.seekStart offset.toNat) hstored
      constructor
      · intro halike stored' err' hf _ _
        cases hf
        have hsame := halike.sameFile hclean (by
          dsimp only
          rw [hcontent, length_patch]
          exact Nat.le_max_left _ _)
        rcases hsame with hsame | ⟨hdirty, -, hnil, hzero⟩
        · exact .inr (.inl (patch_eq_self_iff.mp (hcontent.symm.trans hsame)))
        · refine .inr (.inr ⟨hdirty, hnil, ?_⟩)
          have heq : patch 0 b.file.content offset.toNat (data.take stored) = [0] :=
            hcontent.symm.trans hzero
          have hlen := congrArg List.length heq
          have hpos' := List.length_pos_iff.mpr hstored
          rw [length_patch, List.length_singleton, hnil, List.length_nil] at hlen
          have ho : offset.toNat = 0 := by omega
          have hslice := slice_patch 0 b.file.content offset.toNat (data.take stored)
          rw [heq, ho, show (data.take stored).length = 1 by omega] at hslice
          exact ⟨ho, hslice.symm⟩
      · intro hunseen
        refine Twins.alike ⟨rfl, rfl, ?_⟩
        rcases hunseen stored err rfl (by omega) hle with hnil | ⟨hin, hslice⟩ | ⟨hdirty, hnil, ho, hzero⟩
        · exact absurd hnil hstored
        · exact .inl (hcontent.trans (patch_eq_self_iff.mpr ⟨hin, hslice⟩))
        · refine .inr ⟨hdirty, hclean hdirty, hnil, hcontent.trans ?_⟩
          show patch 0 b.file.content offset.toNat (data.take stored) = [0]
          rw [hnil, ho, hzero]
          rfl

/-- Three bytes are written; a disk that is full then stores one byte more. -/
def threeBytes : List BufferCall := [.write 0 [1, 2, 3] none]

def diskFull (stored : Nat) : Option WriteFault := some (.write stored ⟨"No space left on device"⟩)

/-- The byte it stores is the one that is there. -/
theorem failed_write_iff_same :
    let b := (run FileBuffer.answer (.new 3 0) threeBytes).2
    Alike b (b.writeAt 1 [2, 9] (diskFull 1)).2 := by
  refine (failed_write_iff 3 0 threeBytes (e := ⟨"No space left on device"⟩) (by rfl)).mpr ?_
  intro stored err hf _ _
  cases hf
  exact .inr (.inl (by decide))

/-- The byte it stores is another one: the upload has it. -/
theorem failed_write_seen :
    let b := (run FileBuffer.answer (.new 3 0) threeBytes).2
    (∀ c ∈ threeBytes, c.Fits) ∧
      (b.writeAt 1 [9, 9] (diskFull 1)).1 = .error ⟨"No space left on device"⟩ ∧
      ¬ Alike b (b.writeAt 1 [9, 9] (diskFull 1)).2 := by
  refine ⟨?_, rfl, fun halike => ?_⟩
  · intro c hc
    cases List.mem_singleton.mp hc
    exact ⟨by decide, by decide, by decide⟩
  · have hupload := (halike.later [] nofun).2
    rw [FileBuffer.upload_eq, FileBuffer.upload_eq] at hupload
    have hcontent := congrArg Prod.snd (Option.some.inj hupload)
    revert hcontent
    decide

end Failed

end MtpMount
