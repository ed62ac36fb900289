import MtpMount.Handles

/-!
# Edits through a handle

The callbacks on an open handle ask for edits of its file: bytes patched in at an
offset, or a new size. The buffer of the handle takes the patches, and of the
sizes it takes zero only, by starting over as a buffer that has nothing to
upload.

* `edits_buffered`: in any run, the buffer of a handle is what its patches and its
  cuts to nothing describe, as long as none was refused or one was cut off since.
-/

namespace MtpMount

open Interaction

/-! ## What is asked for -/

/-- A change of a file's bytes. -/
inductive Edit where
  | patch (offset : Nat) (data : Bytes)
  | resize (size : Nat)
  deriving DecidableEq, Repr

namespace Edit

/-- A smaller size cuts, a larger one adds zeros. -/
def apply (v : Bytes) : Edit → Bytes
  | patch offset data => patchWrite v offset data
  | resize size => ByteVec.resize 0 v size

/-- `setattr` does nothing to a buffer for a size other than zero. -/
def reachesBuffer : Edit → Bool
  | patch .. => true
  | resize size => size == 0

/-- What becomes of the flag that decides whether a release uploads. -/
def dirties (dirty : Bool) : Edit → Bool
  | patch _ data => dirty || data != []
  | resize size => dirty && size != 0

end Edit

/-- The bytes that the edits describe, from the empty content. -/
def edited (es : List Edit) : Bytes := es.foldl Edit.apply []

/-- The bytes that the edits leave in a buffer. -/
def bufferedBytes (es : List Edit) : Bytes := edited (es.filter Edit.reachesBuffer)

/-- A byte was patched in after the last cut to nothing. -/
def leavesDirty (es : List Edit) : Bool := es.foldl Edit.dirties false

theorem edited_snoc (es : List Edit) (x : Edit) : edited (es ++ [x]) = x.apply (edited es) := by
  rw [edited, List.foldl_append]
  rfl

theorem bufferedBytes_snoc (es : List Edit) (x : Edit) :
    bufferedBytes (es ++ [x]) =
      if x.reachesBuffer then x.apply (bufferedBytes es) else bufferedBytes es := by
  unfold bufferedBytes
  rw [List.filter_append]
  cases hx : x.reachesBuffer with
  | false => simp [hx]
  | true =>
    rw [List.filter_cons_of_pos hx, List.filter_nil, edited_snoc]
    rfl

theorem leavesDirty_snoc (es : List Edit) (x : Edit) :
    leavesDirty (es ++ [x]) = x.dirties (leavesDirty es) := by
  rw [leavesDirty, List.foldl_append]
  rfl

/-- What one callback and its reply add to the edits of a handle. -/
def editsStep (fh : Nat) (es : List (Edit × Reply)) : Callback × Reply → List (Edit × Reply)
  | (.write _ fh' offset data, r) => if fh' = fh then es ++ [(.patch offset data, r)] else es
  | (.setattr _ (some size) (some fh'), r) => if fh' = fh then es ++ [(.resize size, r)] else es
  | (.release fh', _) => if fh' = fh then [] else es
  | _ => es

/-- The edits that the handle asked for since its last release, with their replies. -/
def edits (h : List (Callback × Reply)) (fh : Nat) : List (Edit × Reply) :=
  h.foldl (editsStep fh) []

theorem edits_snoc (h : List (Callback × Reply)) (s : Callback × Reply) (fh : Nat) :
    edits (h ++ [s]) fh = editsStep fh (edits h fh) s := by
  rw [edits, List.foldl_append]
  rfl

/-- No edit was refused. -/
def Accepted (es : List (Edit × Reply)) : Prop := ∀ x ∈ es, x.2.isError = false

instance (es : List (Edit × Reply)) : Decidable (Accepted es) :=
  inferInstanceAs (Decidable (∀ x ∈ es, x.2.isError = false))

/-- The last edits of a handle, none of which was refused: all since its last
release, or those from a cut to nothing on. -/
def AcceptedTail (es : List (Edit × Reply)) (xs : List Edit) : Prop :=
  ∃ pre post, es = pre ++ post ∧ post.map Prod.fst = xs ∧ Accepted post ∧
    (pre = [] ∨ ∃ rest, xs = .resize 0 :: rest)

namespace AcceptedTail

variable {es : List (Edit × Reply)} {xs : List Edit} {x : Edit × Reply}

theorem all (h : Accepted es) : AcceptedTail es (es.map Prod.fst) :=
  ⟨[], es, rfl, rfl, h, .inl rfl⟩

theorem eq_nil (h : AcceptedTail [] xs) : xs = [] := by
  obtain ⟨pre, post, hes, rfl, -, -⟩ := h
  rw [(List.append_eq_nil_iff.mp hes.symm).2, List.map_nil]

/-- With one more edit it goes on or begins. -/
theorem of_snoc (h : AcceptedTail (es ++ [x]) xs) :
    x.2.isError = false ∧
      ((∃ xs', xs = xs' ++ [x.1] ∧ AcceptedTail es xs') ∨ x.1 = .resize 0 ∧ xs = [.resize 0]) := by
  obtain ⟨pre, post, hes, rfl, hacc, hpre⟩ := h
  rcases List.eq_nil_or_concat post with rfl | ⟨post, y, rfl⟩
  · rcases hpre with rfl | ⟨rest, hrest⟩
    · rw [List.append_nil] at hes
      exact absurd hes (List.append_ne_nil_of_right_ne_nil es (List.cons_ne_nil x []))
    · cases hrest
  · rw [List.concat_eq_append, ← List.append_assoc] at hes
    obtain ⟨rfl, hy⟩ := List.append_inj' hes rfl
    cases hy
    rw [List.concat_eq_append] at hacc hpre ⊢
    refine ⟨hacc x (List.mem_append_right _ List.mem_cons_self), ?_⟩
    rw [List.map_append] at hpre ⊢
    have hacc' : Accepted post := fun y hy => hacc y (List.mem_append_left _ hy)
    rcases hpre with rfl | ⟨rest, hrest⟩
    · exact .inl ⟨_, rfl, [], post, rfl, rfl, hacc', .inl rfl⟩
    · cases post with
      | nil =>
        obtain ⟨hx, rfl⟩ := List.cons.inj hrest
        exact .inr ⟨hx, hrest⟩
      | cons y post =>
        obtain ⟨hy, -⟩ := List.cons.inj hrest
        refine .inl ⟨_, rfl, pre, y :: post, rfl, rfl, hacc', .inr ⟨post.map Prod.fst, ?_⟩⟩
        rw [List.map_cons, hy]

/-- A refused edit ends it. -/
theorem not_refused {e : Edit} {err : Errno} : ¬ AcceptedTail (es ++ [(e, .error err)]) xs :=
  fun h => nomatch h.of_snoc.1

end AcceptedTail

/-! ## One buffer -/

namespace FileBuffer

variable {b : FileBuffer} {offset : Int} {data : Bytes} {fault : Option WriteFault} {n : Nat}

/-- A write that succeeds met no failure. -/
theorem writeAt_ok (h : (b.writeAt offset data fault).1 = .ok n) :
    b.writeAt offset data fault = b.writeAt offset data none := by
  cases fault with
  | none => rfl
  | some fault =>
    unfold writeAt at h ⊢
    split
    · rfl
    · split
      · rfl
      · split
        · rfl
        · rename_i hneg hrange hdata
          rw [if_neg hneg, if_neg hrange, if_neg hdata] at h
          cases fault <;> cases h

theorem dirty_writeAt (h : (b.writeAt offset data none).1 = .ok n) :
    (b.writeAt offset data none).2.dirty = (b.dirty || data != []) := by
  unfold writeAt at h ⊢
  split
  · rw [if_pos ‹_›] at h
    cases h
  · split
    · rw [if_neg ‹_›, if_pos ‹_›] at h
      cases h
    · split
      · simp [*]
      · simp [SpoolFile.seekWrite, *]

end FileBuffer

/-- The buffer is as the edits leave it. -/
structure FileBuffer.Edited (b : FileBuffer) (es : List Edit) : Prop where
  holds : b.Holds (bufferedBytes es)
  dirty : b.dirty = leavesDirty es

namespace FileBuffer.Edited

variable {b : FileBuffer} {es : List Edit}

theorem new (inode size : Nat) : (FileBuffer.new inode size).Edited [] :=
  ⟨FileBuffer.holds_new inode size, rfl⟩

/-- A new buffer stands for a cut to nothing. -/
theorem cleared (inode size : Nat) (es : List Edit) :
    (FileBuffer.new inode size).Edited (es ++ [.resize 0]) where
  holds := by
    have hbytes : bufferedBytes (es ++ [.resize 0]) = [] := by
      rw [bufferedBytes_snoc]
      simp [Edit.reachesBuffer, Edit.apply, ByteVec.resize]
    rw [hbytes]
    exact FileBuffer.holds_new inode size
  dirty := by
    rw [leavesDirty_snoc]
    simp [FileBuffer.new, Edit.dirties]

/-- Another size is passed over. -/
theorem ignored (h : b.Edited es) {size : Nat} (hs : size ≠ 0) : b.Edited (es ++ [.resize size]) where
  holds := by
    rw [bufferedBytes_snoc, Edit.reachesBuffer, if_neg (by simpa using hs)]
    exact h.holds
  dirty := by
    rw [leavesDirty_snoc, h.dirty]
    simp [Edit.dirties, hs]

theorem readAt (h : b.Edited es) (offset : Int) (size : Nat) (fault : Option IoError) :
    (b.readAt offset size fault).2.Edited es where
  holds := h.holds.readAt offset size fault
  dirty := by
    rw [← h.dirty]
    unfold FileBuffer.readAt
    split
    · rfl
    · split
      · rfl
      · rfl

/-- An accepted write is a patch, whatever the spool file could have done to it. -/
theorem writeAt (h : b.Edited es) {offset : Nat} {data : Bytes} {fault : Option WriteFault} {n : Nat}
    (hok : (b.writeAt (asI64 offset) data fault).1 = .ok n) :
    (b.writeAt (asI64 offset) data fault).2.Edited (es ++ [.patch offset data]) := by
  have hnone := FileBuffer.writeAt_ok hok
  rw [hnone] at hok ⊢
  have hw := h.holds.writeAt offset data
  rw [hok] at hw
  refine ⟨?_, ?_⟩
  · rw [bufferedBytes_snoc]
    exact hw
  · rw [leavesDirty_snoc, ← h.dirty]
    exact FileBuffer.dirty_writeAt hok

end FileBuffer.Edited

/-! ## All the buffers -/

/-- What the buffer of a handle has to be, if it has one: that of the inode the
handle is open on, as the edits leave it. -/
def Slot (o : Option Nat) (es : List (Edit × Reply)) : Option FileBuffer → Prop
  | none => ∀ xs, AcceptedTail es xs → xs = []
  | some b => o = some b.inode ∧ ∀ xs, AcceptedTail es xs → b.Edited xs

/-- Every handle has its slot, and those from `n` on are not open. -/
structure Edits (n : Nat) (w : WriteBuffer) (O : Nat → Option Nat)
    (V : Nat → List (Edit × Reply)) : Prop where
  slots : ∀ fh, Slot (O fh) (V fh) (w.buffers.lookup fh)
  next : ∀ fh ino, O fh = some ino → fh < n

/-- One more edit of the handle. -/
def addEdit (V : Nat → List (Edit × Reply)) (fh : Nat) (x : Edit × Reply) (fh' : Nat) :
    List (Edit × Reply) :=
  if fh = fh' then V fh' ++ [x] else V fh'

namespace Edits

variable {n n' : Nat} {w w' : WriteBuffer} {O O' : Nat → Option Nat}
  {V V' : Nat → List (Edit × Reply)}

theorem new : Edits 1 .new (fun _ => none) fun _ => [] where
  slots := fun fh => by
    rw [WriteBuffer.new, HashMap.lookup_empty]
    exact fun _ => AcceptedTail.eq_nil
  next := nofun

/-- One handle and its buffer change. -/
theorem update (h : Edits n w O V) (fh : Nat) (hn : n ≤ n')
    (hw : ∀ fh', fh' ≠ fh → w'.buffers.lookup fh' = w.buffers.lookup fh')
    (hO : ∀ fh', fh' ≠ fh → O' fh' = O fh') (hV : ∀ fh', fh' ≠ fh → V' fh' = V fh')
    (hs : Slot (O' fh) (V' fh) (w'.buffers.lookup fh)) (hlt : ∀ ino, O' fh = some ino → fh < n') :
    Edits n' w' O' V' where
  slots := fun fh' => by
    by_cases hfh : fh' = fh
    · rw [hfh]
      exact hs
    · rw [hw fh' hfh, hO fh' hfh, hV fh' hfh]
      exact h.slots fh'
  next := fun fh' ino ho => by
    by_cases hfh : fh' = fh
    · rw [hfh] at ho ⊢
      exact hlt ino ho
    · rw [hO fh' hfh] at ho
      exact Nat.lt_of_lt_of_le (h.next fh' ino ho) hn

/-- The buffer of one handle is replaced, or made, and the handle gets an edit. -/
theorem insert (h : Edits n w O V) {fh : Nat} {b : FileBuffer} {x : Edit × Reply}
    (hs : Slot (O fh) (V fh ++ [x]) (some b)) :
    Edits n ⟨w.buffers.insert fh b⟩ O (addEdit V fh x) := by
  refine h.update fh le_rfl (fun fh' hfh => ?_) (fun _ _ => rfl) (fun fh' hfh => if_neg hfh.symm) ?_
    fun ino ho => h.next fh ino ho
  · rw [HashMap.lookup_insert, if_neg hfh]
  · rw [HashMap.lookup_insert, if_pos rfl, addEdit, if_pos rfl]
    exact hs

/-- An edit is refused before it reaches a buffer. -/
theorem refused (h : Edits n w O V) (fh : Nat) (x : Edit) (err : Errno) :
    Edits n w O (addEdit V fh (x, .error err)) := by
  refine h.update fh le_rfl (fun _ _ => rfl) (fun _ _ => rfl) (fun fh' hfh => if_neg hfh.symm) ?_
    fun ino ho => h.next fh ino ho
  rw [addEdit, if_pos rfl]
  have hs := h.slots fh
  cases hb : w.buffers.lookup fh with
  | none => exact fun _ hacc => absurd hacc AcceptedTail.not_refused
  | some b =>
    rw [hb] at hs
    exact ⟨hs.1, fun _ hacc => absurd hacc AcceptedTail.not_refused⟩

/-- A handle is opened. -/
theorem openHandle (h : Edits n w O V) (ino : Nat) :
    Edits (n + 1) w (fun fh => if n = fh then some ino else O fh) V := by
  refine h.update n (Nat.le_succ n) (fun _ _ => rfl) (fun fh' hfh => if_neg hfh.symm)
    (fun _ _ => rfl) ?_ fun _ _ => Nat.lt_succ_self n
  have hs := h.slots n
  cases hb : w.buffers.lookup n with
  | none =>
    rw [hb] at hs
    exact hs
  | some b =>
    rw [hb] at hs
    exact absurd (h.next n _ hs.1) (Nat.lt_irrefl n)

/-- A handle and its buffer are closed. -/
theorem closeHandle (h : Edits n w O V) (fh : Nat) :
    Edits n (w.close fh).2 (fun fh' => if fh = fh' then none else O fh')
      (fun fh' => if fh = fh' then [] else V fh') := by
  refine h.update fh le_rfl (fun fh' hfh => ?_) (fun fh' hfh => if_neg hfh.symm)
    (fun fh' hfh => if_neg hfh.symm) ?_ fun ino ho => ?_
  · rw [WriteBuffer.close, HashMap.lookup_erase, if_neg hfh]
  · rw [WriteBuffer.close, HashMap.lookup_erase]
    simp only [if_true]
    exact fun _ => AcceptedTail.eq_nil
  · rw [if_pos rfl] at ho
    cases ho

/-- An open handle gets a buffer, unless it has one. -/
theorem openBuffer (h : Edits n w O V) {fh ino : Nat} (hO : O fh = some ino) (size : Nat)
    (fault : Option IoError) : Edits n (w.openBuffer fh ino size fault).2 O V := by
  unfold WriteBuffer.openBuffer
  split
  · exact h
  · rename_i hl
    split
    · exact h
    · refine h.update fh le_rfl (fun fh' hfh => ?_) (fun _ _ => rfl) (fun _ _ => rfl) ?_
        fun i ho => h.next fh i ho
      · rw [HashMap.lookup_insert, if_neg hfh]
      · rw [HashMap.lookup_insert, if_pos rfl]
        have hs := h.slots fh
        rw [hl] at hs
        refine ⟨hO, fun xs hxs => ?_⟩
        rw [hs xs hxs]
        exact FileBuffer.Edited.new ino size

theorem read (h : Edits n w O V) (fh : Nat) (offset : Int) (size : Nat) (fault : Option IoError) :
    Edits n (w.read fh offset size fault).2 O V := by
  unfold WriteBuffer.read
  split
  · exact h
  · rename_i b hl
    have hs := h.slots fh
    rw [hl] at hs
    refine h.update fh le_rfl (fun fh' hfh => ?_) (fun _ _ => rfl) (fun _ _ => rfl) ?_
      fun i ho => h.next fh i ho
    · rw [HashMap.lookup_insert, if_neg hfh]
    · rw [HashMap.lookup_insert, if_pos rfl]
      refine ⟨?_, fun xs hxs => (hs.2 xs hxs).readAt offset size fault⟩
      rw [hs.1, FileBuffer.inode_readAt]

/-- A write is an edit, accepted or refused. -/
theorem write (h : Edits n w O V) (fh offset : Nat) (data : Bytes) (fault : Option WriteFault) :
    Edits n (w.write fh (asI64 offset) data fault).2 O (addEdit V fh (.patch offset data,
      match (w.write fh (asI64 offset) data fault).1 with
      | .ok written => .written written
      | .error _ => .error .eio)) := by
  unfold WriteBuffer.write
  split
  · exact h.refused fh _ _
  · rename_i b hl
    have hs := h.slots fh
    rw [hl] at hs
    have hino : O fh = some (b.writeAt (asI64 offset) data fault).2.inode := by
      rw [hs.1, FileBuffer.inode_writeAt]
    dsimp only
    cases hok : (b.writeAt (asI64 offset) data fault).1 with
    | error err => exact h.insert ⟨hino, fun _ hacc => absurd hacc AcceptedTail.not_refused⟩
    | ok written =>
      refine h.insert ⟨hino, fun xs hxs => ?_⟩
      rcases hxs.of_snoc.2 with ⟨xs, rfl, hinit⟩ | ⟨hcut, -⟩
      · exact (hs.2 xs hinit).writeAt hok
      · cases hcut

/-- A size of zero replaces the buffer. -/
theorem clear (h : Edits n w O V) {fh ino : Nat} (hO : O fh = some ino) (r : Reply) :
    Edits n ((w.close fh).2.openBuffer fh ino 0 none).2 O (addEdit V fh (.resize 0, r)) := by
  have hopen : ((w.close fh).2.openBuffer fh ino 0 none).2 =
      ⟨(w.buffers.erase fh).insert fh (.new ino 0)⟩ := by
    rw [WriteBuffer.openBuffer, WriteBuffer.close, HashMap.lookup_erase, if_pos rfl]
  rw [hopen]
  refine h.update fh le_rfl (fun fh' hfh => ?_) (fun _ _ => rfl)
    (fun fh' hfh => if_neg hfh.symm) ?_ fun i ho => h.next fh i ho
  · rw [HashMap.lookup_insert, if_neg hfh, HashMap.lookup_erase, if_neg hfh]
  · rw [HashMap.lookup_insert, if_pos rfl, addEdit, if_pos rfl]
    refine ⟨hO, fun xs hxs => ?_⟩
    rcases hxs.of_snoc.2 with ⟨xs, rfl, -⟩ | ⟨-, rfl⟩
    · exact .cleared ino 0 xs
    · exact .cleared ino 0 []

/-- The buffer is gone, but no new one could be made. -/
theorem clearRefused (h : Edits n w O V) (fh : Nat) (x : Edit) (err : Errno) :
    Edits n (w.close fh).2 O (addEdit V fh (x, .error err)) := by
  refine h.update fh le_rfl (fun fh' hfh => ?_) (fun _ _ => rfl)
    (fun fh' hfh => if_neg hfh.symm) ?_ fun i ho => h.next fh i ho
  · rw [WriteBuffer.close, HashMap.lookup_erase, if_neg hfh]
  · rw [WriteBuffer.close, HashMap.lookup_erase, if_pos rfl, addEdit, if_pos rfl]
    exact fun _ hacc => absurd hacc AcceptedTail.not_refused

/-- Another size leaves the buffer as it is. -/
theorem ignore (h : Edits n w O V) {fh size : Nat} (hopen : w.isOpen fh = true) (hs : size ≠ 0)
    (r : Reply) : Edits n w O (addEdit V fh (.resize size, r)) := by
  refine h.update fh le_rfl (fun _ _ => rfl) (fun _ _ => rfl)
    (fun fh' hfh => if_neg hfh.symm) ?_ fun i ho => h.next fh i ho
  obtain ⟨b, hb⟩ := Option.isSome_iff_exists.mp hopen
  have hslot := h.slots fh
  rw [hb] at hslot ⊢
  rw [addEdit, if_pos rfl]
  refine ⟨hslot.1, fun xs hxs => ?_⟩
  rcases hxs.of_snoc.2 with ⟨xs, rfl, hinit⟩ | ⟨hcut, -⟩
  · exact (hslot.2 xs hinit).ignored hs
  · exact absurd (Edit.resize.inj hcut) hs

end Edits

theorem handleInvariant_edits (O : Nat → Option Nat) (V : Nat → List (Edit × Reply)) :
    HandleInvariant fun f w => Edits f.nextFh w O V where
  frame := fun h _ hn => ⟨h.slots, fun fh ino ho => Nat.lt_of_lt_of_le (h.next fh ino ho) hn⟩
  read := fun fh offset size fault h => h.read fh offset size fault

/-! ## The callbacks -/

section Callbacks

variable {R : Answers Call Answer (List Event)} {O : Nat → Option Nat}
  {V : Nat → List (Edit × Reply)} {fs : MtpFs} {tr : List Event} {ino fh : Nat}

/-- The handle has a buffer now, unless there is no spool file for it. -/
theorem ensureWriteBuf_edits (hO : O fh = some ino) (h : Edits fs.files.nextFh fs.writeBuf O V) :
    Attempt.wp R (fun _ _ => True) (ensureWriteBuf ino fh)
      (fun _ fs' _ => Edits fs'.files.nextFh fs'.writeBuf O V ∧ fs'.writeBuf.isOpen fh = true)
      (fun _ fs' _ => Edits fs'.files.nextFh fs'.writeBuf O V) fs tr := by
  unfold ensureWriteBuf
  rw [Attempt.wp_bind, Attempt.wp_get]
  split
  · exact ⟨h, ‹_›⟩
  · unfold openWriteBuf
    rw [Attempt.wp_bind]
    refine tell_wp.mpr ⟨trivial, fun fault tr₁ _ => ?_⟩
    rw [Attempt.wp_bind, onWriteBuf_wp]
    have h₁ := h.openBuffer hO (((fs.link.inodes.get ino).map InodeEntry.size).getD 0) fault
    split
    · rename_i hok
      exact ⟨h₁, WriteBuffer.isOpen_openBuffer hok⟩
    · exact h₁

theorem write_edits (hO : O fh = some ino) (offset : Nat) (data : Bytes)
    (h : Edits fs.files.nextFh fs.writeBuf O V) :
    Attempt.wp R (fun _ _ => True) (write ino fh offset data)
      (fun r fs' _ => Edits fs'.files.nextFh fs'.writeBuf O (addEdit V fh (.patch offset data, r)))
      (fun err fs' _ => Edits fs'.files.nextFh fs'.writeBuf O
        (addEdit V fh (.patch offset data, .error err))) fs tr := by
  unfold write
  rw [Attempt.wp_bind, guardWritable_wp]
  refine ⟨fun _ => h.refused fh _ _, fun _ => ?_⟩
  rw [Attempt.wp_bind]
  refine Attempt.wp_mono (ensureWriteBuf_edits hO h) ?_ fun err _ _ h' => h'.refused fh _ err
  rintro _ fs₁ tr₁ ⟨h₁, -⟩
  rw [Attempt.wp_bind]
  refine tell_wp.mpr ⟨trivial, fun fault tr₂ _ => ?_⟩
  rw [Attempt.wp_bind, onWriteBuf_wp]
  have h₂ := h₁.write fh offset data fault
  split
  · rename_i hn
    rw [hn] at h₂
    exact h₂
  · rename_i hn
    rw [hn] at h₂
    exact h₂

theorem setSize_edits (hO : O fh = some ino) (newSize : Nat)
    (h : Edits fs.files.nextFh fs.writeBuf O V) :
    Attempt.wp R (fun _ _ => True) (setSize ino newSize (some fh))
      (fun _ fs' _ => ∀ r, Edits fs'.files.nextFh fs'.writeBuf O (addEdit V fh (.resize newSize, r)))
      (fun err fs' _ => Edits fs'.files.nextFh fs'.writeBuf O
        (addEdit V fh (.resize newSize, .error err))) fs tr := by
  unfold setSize
  rw [Attempt.wp_bind, guardWritable_wp]
  refine ⟨fun _ => h.refused fh _ _, fun _ => ?_⟩
  dsimp only
  rw [Attempt.wp_bind]
  refine Attempt.wp_mono (ensureWriteBuf_edits hO h) ?_ fun err _ _ h' => h'.refused fh _ err
  rintro _ fs₁ tr₁ ⟨h₁, hopen⟩
  split
  · rename_i hzero
    rw [hzero, Attempt.wp_bind, onWriteBuf_wp]
    unfold openWriteBuf
    rw [Attempt.wp_bind]
    refine tell_wp.mpr ⟨trivial, fun fault tr₂ _ => ?_⟩
    rw [Attempt.wp_bind, onWriteBuf_wp]
    have hnone : ((fs₁.writeBuf.close fh).2).buffers.lookup fh = none := by
      rw [WriteBuffer.close, HashMap.lookup_erase, if_pos rfl]
    cases fault with
    | none =>
      have hclear := h₁.clear hO
      unfold WriteBuffer.openBuffer at hclear ⊢
      rw [hnone] at hclear ⊢
      exact hclear
    | some err =>
      unfold WriteBuffer.openBuffer
      rw [hnone]
      exact h₁.clearRefused fh _ _
  · rename_i hsize
    exact fun r => h₁.ignore hopen hsize r

theorem setattr_edits (hO : O fh = some ino) (newSize : Nat)
    (h : Edits fs.files.nextFh fs.writeBuf O V) :
    Attempt.wp R (fun _ _ => True) (setattr ino (some newSize) (some fh))
      (fun r fs' _ => Edits fs'.files.nextFh fs'.writeBuf O (addEdit V fh (.resize newSize, r)))
      (fun err fs' _ => Edits fs'.files.nextFh fs'.writeBuf O
        (addEdit V fh (.resize newSize, .error err))) fs tr := by
  unfold setattr
  rw [Attempt.wp_bind]
  refine Attempt.wp_mono (setSize_edits hO newSize h) ?_ fun _ _ _ h' => h'
  intro _ fs₁ tr₁ h₁
  simp only [Attempt.wp_bind, Attempt.wp_get]
  split
  · exact h₁ _
  · exact h₁ _

/-- A `setattr` that sets no size, or carries no handle, edits nothing. -/
theorem setattr_unedited (size fh : Option Nat) (hnone : size = none ∨ fh = none)
    (h : Edits fs.files.nextFh fs.writeBuf O V) :
    Attempt.wp R (fun _ _ => True) (setattr ino size fh)
      (fun _ fs' _ => Edits fs'.files.nextFh fs'.writeBuf O V)
      (fun _ fs' _ => Edits fs'.files.nextFh fs'.writeBuf O V) fs tr := by
  unfold setattr setSize
  rcases hnone with rfl | rfl
  · simp only [Attempt.wp_bind, Attempt.wp_pure, Attempt.wp_get]
    split
    · exact h
    · exact h
  · cases size with
    | none =>
      simp only [Attempt.wp_bind, Attempt.wp_pure, Attempt.wp_get]
      split
      · exact h
      · exact h
    | some newSize =>
      simp only [Attempt.wp_bind, Attempt.wp_pure, Attempt.wp_get, guardWritable_wp]
      refine ⟨fun _ => h, fun _ => ?_⟩
      split
      · exact h
      · exact h

theorem create_edits (parent : Nat) (name : Option String)
    (h : Edits fs.files.nextFh fs.writeBuf O V) :
    Attempt.wp R (fun _ _ => True) (create parent name)
      (fun r fs' _ => Edits fs'.files.nextFh fs'.writeBuf
        (fun fh => openedStep fh (O fh) (.create parent name, r)) V)
      (fun _ fs' _ => Edits fs'.files.nextFh fs'.writeBuf O V) fs tr := by
  refine create_opens (P := fun O f w => Edits f.nextFh w O V) (C := fun _ => True) parent name h
    (fun n => Attempt.wp_of_forall _ (fun _ _ _ _ _ _ _ _ _ => trivial) fun _ _ _ => trivial) ?_ ?_
  · exact fun ino fault _ => (h.openHandle ino).openBuffer (if_pos rfl) 0 fault
  · exact fun _ _ _ _ _ => ⟨h.slots, fun fh i ho => Nat.lt_succ_of_lt (h.next fh i ho)⟩

/-- One callback does to the buffers what it adds to the edits. -/
theorem dispatch_edits {c : Callback} {h : List (Callback × Reply)} (hok : c.CarriesOpen h)
    (he : Edits fs.files.nextFh fs.writeBuf (opened h) (edits h)) :
    Act.wp R (fun _ _ => True) (dispatch c)
      (fun r fs' _ => Edits fs'.files.nextFh fs'.writeBuf (opened (h ++ [(c, r)]))
        (edits (h ++ [(c, r)]))) fs tr := by
  have hopened : ∀ r, opened (h ++ [(c, r)]) = fun fh => openedStep fh (opened h fh) (c, r) :=
    fun r => funext fun fh => opened_snoc h (c, r) fh
  have hedits : ∀ r, edits (h ++ [(c, r)]) = fun fh => editsStep fh (edits h fh) (c, r) :=
    fun r => funext fun fh => edits_snoc h (c, r) fh
  simp only [hopened, hedits]
  rw [dispatch_wp]
  have hI := handleInvariant_edits (opened h) (edits h)
  cases c with
  | openFile ino mode =>
    exact openFile_opens (P := fun O f w => Edits f.nextFh w O (edits h)) ino mode he
      (he.openHandle ino)
  | create parent name => exact create_edits parent name he
  | release fh =>
    have hclosed := he.closeHandle fh
    rw [← (Files.closeHandle_frame fs.files fh).nextFh] at hclosed
    exact release_closes (P := fun f w => Edits f.nextFh w _ _) fh hclosed
  | read ino fh offset size => exact keeps_readFile (hI.reading R ino) fh offset size fs tr he
  | write ino fh offset data => exact write_edits (hok (ino, fh) rfl) offset data he
  | setattr ino size fh =>
    cases size with
    | none => exact setattr_unedited none fh (.inl rfl) he
    | some newSize =>
      cases fh with
      | none => exact setattr_unedited (some newSize) none (.inr rfl) he
      | some fh => exact setattr_edits (hok (ino, fh) rfl) newSize he
  | _ => exact keeps_still (hI.still R) rfl fs tr he

end Callbacks

/-- In every run, whatever is answered: the buffer of a handle belongs to the
inode that the handle is open on, and is as the handle's last edits leave it, back
to one that was refused. -/
theorem edits_buffered {R : Answers Call Answer (List Event)} {device : MtpDevice}
    {describe : String} {config : MtpFsConfig} {h : List (Callback × Reply)} {fs : MtpFs}
    {tr : List Event}
    (hr : Served R dispatch (fun h _ _ c => c.CarriesOpen h) (.new device describe config) []
      h fs tr) :
    Edits fs.files.nextFh fs.writeBuf (opened h) (edits h) :=
  hr.invariant (I := fun h fs _ => Edits fs.files.nextFh fs.writeBuf (opened h) (edits h))
    (G := fun _ _ => True) .new fun _ _ _ _ he hok => dispatch_edits hok he

end MtpMount
