import MtpMount.FsRules

/-!
# What is written is what is uploaded

The writes that a handle's callbacks made describe a byte vector. While local
files do not fail, the buffer of the handle is that vector, and a close uploads
it: the whole of it, from the first byte on every attempt, and nothing else.

* `upload_streams_written`: in any run without a `setattr` of a size, every
  upload that the release of a handle asks for announces and streams the vector
  of that handle's own writes.
-/

namespace MtpMount

open Interaction

/-- A local file operation failed. -/
def Event.spoolFails : Event → Bool
  | ⟨.createTemp, some _⟩ | ⟨.writeTemp, some _⟩ | ⟨.readTemp, some _⟩ | ⟨.seekTemp, some _⟩
  | ⟨.cloneTemp, some _⟩ => true
  | _ => false

/-- The environment that answers anything, but whose local files do not fail. -/
inductive SpoolWorks : Answers Call Answer (List Event)
  | intro {tr : List Event} {c : Call} {a : Answer c} :
      Event.spoolFails ⟨c, a⟩ = false → SpoolWorks tr c a (tr ++ [⟨c, a⟩])

/-- What one callback and its reply do to the vector of a handle: an accepted
write patches it, a release ends it. -/
def writtenStep (fh : Nat) (v : Bytes) : Callback × Reply → Bytes
  | (.write _ fh' offset data, .written _) => if fh' = fh then patchWrite v offset data else v
  | (.release fh', _) => if fh' = fh then [] else v
  | _ => v

/-- The byte vector that the writes on the handle describe, since its last release. -/
def written (h : List (Callback × Reply)) (fh : Nat) : Bytes := h.foldl (writtenStep fh) []

/-- The callback sets the size of a file. -/
def Callback.setsSize : Callback → Bool
  | .setattr _ (some _) _ => true
  | _ => false

/-! ## The buffers -/

/-- Every buffer is the vector of its handle; a handle without a buffer has none. -/
structure WriteBuffer.Hold (w : WriteBuffer) (V : Nat → Bytes) : Prop where
  opened : ∀ fh b, w.buffers.lookup fh = some b → b.Holds (V fh)
  closed : ∀ fh, w.buffers.lookup fh = none → V fh = []

namespace WriteBuffer.Hold

variable {w : WriteBuffer} {V : Nat → Bytes}

theorem new : WriteBuffer.new.Hold fun _ => [] where
  opened := fun fh _ h => nomatch (HashMap.lookup_empty fh).symm.trans h
  closed := fun _ _ => rfl

/-- One buffer and its vector are replaced. -/
theorem insert (h : w.Hold V) {V' : Nat → Bytes} {fh : Nat} {b : FileBuffer} (hb : b.Holds (V' fh))
    (hV : ∀ fh', fh' ≠ fh → V' fh' = V fh') :
    (WriteBuffer.mk (w.buffers.insert fh b)).Hold V' where
  opened := fun fh' b' hl => by
    rw [HashMap.lookup_insert] at hl
    split at hl
    · rename_i hfh
      cases hl
      rw [hfh]
      exact hb
    · rw [hV fh' ‹_›]
      exact h.opened fh' b' hl
  closed := fun fh' hl => by
    rw [HashMap.lookup_insert] at hl
    split at hl
    · cases hl
    · rw [hV fh' ‹_›]
      exact h.closed fh' hl

theorem openBuffer (h : w.Hold V) (fh inode size : Nat) (fault : Option IoError) :
    (w.openBuffer fh inode size fault).2.Hold V := by
  unfold WriteBuffer.openBuffer
  split
  · exact h
  · rename_i hl
    split
    · exact h
    · refine h.insert ?_ fun _ _ => rfl
      rw [h.closed fh hl]
      exact FileBuffer.holds_new inode size

theorem read (h : w.Hold V) (fh : Nat) (offset : Int) (size : Nat) (fault : Option IoError) :
    (w.read fh offset size fault).2.Hold V := by
  unfold WriteBuffer.read
  split
  · exact h
  · rename_i b hl
    exact h.insert ((h.opened fh b hl).readAt offset size fault) fun _ _ => rfl

/-- A write patches the vector of its handle, or is refused. -/
theorem write (h : w.Hold V) (fh offset : Nat) (data : Bytes) :
    (w.write fh (asI64 offset) data none).2.Hold fun fh' =>
      match (w.write fh (asI64 offset) data none).1 with
      | .ok _ => if fh = fh' then patchWrite (V fh') offset data else V fh'
      | .error _ => V fh' := by
  unfold WriteBuffer.write
  split
  · exact h
  · rename_i b hl
    have hb := (h.opened fh b hl).writeAt offset data
    dsimp only
    split at hb
    · rename_i n hn
      rw [hn]
      refine h.insert ?_ fun fh' hne => if_neg (Ne.symm hne)
      show FileBuffer.Holds _ (if fh = fh then _ else _)
      rw [if_pos rfl]
      exact hb
    · rename_i err hn
      rw [hn]
      exact h.insert hb fun _ _ => rfl

theorem close (h : w.Hold V) (fh : Nat) :
    (w.close fh).2.Hold fun fh' => if fh = fh' then [] else V fh' where
  opened := fun fh' b hl => by
    rw [WriteBuffer.close, HashMap.lookup_erase] at hl
    split at hl
    · cases hl
    · rw [if_neg (Ne.symm ‹_›)]
      exact h.opened fh' b hl
  closed := fun fh' hl => by
    rw [WriteBuffer.close, HashMap.lookup_erase] at hl
    split at hl
    · rw [if_pos (Eq.symm ‹_›)]
    · rw [if_neg (Ne.symm ‹_›)]
      exact h.closed fh' hl

end WriteBuffer.Hold

/-! ## The callbacks -/

theorem written_snoc (h : List (Callback × Reply)) (s : Callback × Reply) (fh : Nat) :
    written (h ++ [s]) fh = writtenStep fh (written h fh) s := by
  rw [written, List.foldl_append]
  rfl

theorem writtenStep_of_not_writes {c : Callback} (hc : c.writes = false) (fh : Nat) (v : Bytes)
    (r : Reply) : writtenStep fh v (c, r) = v := by
  cases c <;> first | rfl | cases hc

theorem unwrittenInvariant_hold (R : Answers Call Answer (List Event)) (V : Nat → Bytes) :
    UnwrittenInvariant R (fun _ _ => True) (fun fs _ => fs.writeBuf.Hold V) (fun _ _ => True) where
  link := fun fs => queries_const (fun _ _ _ => trivial) (fs.writeBuf.Hold V)
  files := fun _ h => h
  readBuf := fun fh offset size fault h => h.read fh offset size fault
  openBuf := fun fh ino size fault _ h => h.openBuffer fh ino size fault
  init := fun h => ⟨trivial, fun _ _ _ => h⟩
  addStorage := fun _ _ _ h => h
  setStorages := fun _ h => h
  spawn := fun h => ⟨trivial, fun _ _ _ => h⟩
  mutation := fun _ _ _ h _ _ => ⟨trivial, fun _ _ _ => ⟨h, fun _ h => h, fun _ _ => trivial⟩⟩
  addObject := fun _ _ _ _ _ _ h _ _ => h
  remove := fun _ _ h _ => h
  rename := fun _ _ _ _ h _ => h
  panic := fun _ _ _ => trivial

theorem Call.streams_of_not_isMutation {c : Call} (h : c.isMutation = false) (v : Bytes) :
    c.Streams v := by
  cases c <;> trivial

theorem flushInvariant_streams (v : Bytes) :
    FlushInvariant SpoolWorks (fun _ c => c.Streams v) (fun _ _ => True) (fun _ _ => True)
      (Call.Streams v) (fun _ _ _ _ => True) where
  toResolving :=
    (queries_const (fun _ _ hc => Call.streams_of_not_isMutation hc v) True).toResolving
  mutation := fun _ hv _ _ _ _ =>
    ⟨hv, fun _ _ _ => ⟨trivial, fun _ h => h, fun _ _ => trivial⟩⟩
  record := fun _ _ _ _ _ _ _ => trivial

section Callbacks

variable {V : Nat → Bytes} {fs : MtpFs} {tr : List Event}

theorem write_hold (ino fh offset : Nat) (data : Bytes) (hw : fs.writeBuf.Hold V) :
    Attempt.wp SpoolWorks (fun _ _ => True) (write ino fh offset data)
      (fun r fs' _ => fs'.writeBuf.Hold
        fun fh' => writtenStep fh' (V fh') (.write ino fh offset data, r))
      (fun _ fs' _ => fs'.writeBuf.Hold V) fs tr := by
  have hU := unwrittenInvariant_hold SpoolWorks V
  unfold write
  rw [Attempt.wp_bind, guardWritable_wp]
  refine ⟨fun _ => hw, fun hro => ?_⟩
  rw [Attempt.wp_bind]
  refine Attempt.wp_mono (ensureWriteBuf_wp hU.link
    (fun size fault hro h => hU.openBuf (e := tr) fh ino size fault hro h) hw hro) ?_ fun _ _ _ h' => h'
  rintro _ fs₁ tr₁ ⟨h₁, -, -⟩
  rw [Attempt.wp_bind]
  refine tell_wp.mpr ⟨trivial, ?_⟩
  rintro fault _ ⟨hok⟩
  cases fault with
  | some fault => cases hok
  | none =>
    have h₂ := WriteBuffer.Hold.write h₁ fh offset data
    rw [Attempt.wp_bind, onWriteBuf_wp]
    split
    · rename_i n hn
      rw [hn] at h₂
      exact h₂
    · rename_i err hn
      rw [hn] at h₂
      exact h₂

theorem release_hold (fh : Nat) (hw : fs.writeBuf.Hold V) :
    Attempt.wp SpoolWorks (fun _ c => c.Streams (V fh)) (release fh)
      (fun _ fs' _ => fs'.writeBuf.Hold fun fh' => if fh = fh' then [] else V fh')
      (fun _ fs' _ => fs'.writeBuf.Hold fun fh' => if fh = fh' then [] else V fh') fs tr := by
  have hclosed := hw.close fh
  have hstreams : ∀ b, fs.writeBuf.buffers.lookup fh = some b → ∀ c,
      Call.Streams b.file.content c → c.Streams (V fh) := by
    intro b hb c hc
    rwa [(hw.opened fh b hb).content] at hc
  refine Attempt.wp_mono (release_wp (flushInvariant_streams (V fh)) fh hstreams trivial) ?_ ?_
  · rintro _ fs' _ ⟨-, -, hbuf, -⟩
    rw [hbuf]
    exact hclosed
  · rintro _ fs' _ ⟨-, hbuf⟩
    rw [hbuf]
    exact hclosed

theorem setattr_hold (ino : Nat) (fh : Option Nat) (hw : fs.writeBuf.Hold V) :
    Attempt.wp SpoolWorks (fun _ _ => True) (setattr ino none fh)
      (fun _ fs' _ => fs'.writeBuf.Hold V) (fun _ fs' _ => fs'.writeBuf.Hold V) fs tr := by
  unfold setattr
  simp only [Attempt.wp_bind, Attempt.wp_pure, Attempt.wp_get]
  split
  · exact hw
  · exact hw

end Callbacks

/-- One callback does to the buffers what it does to the vectors. -/
theorem dispatch_hold {c : Callback} (hc : c.setsSize = false) {h : List (Callback × Reply)}
    {fs : MtpFs} {tr : List Event} (hw : fs.writeBuf.Hold (written h)) :
    Act.wp SpoolWorks (fun _ _ => True) (dispatch c)
      (fun r fs' _ => fs'.writeBuf.Hold (written (h ++ [(c, r)]))) fs tr := by
  have hsnoc : ∀ r, written (h ++ [(c, r)]) = fun fh => writtenStep fh (written h fh) (c, r) :=
    fun r => funext fun fh => written_snoc h (c, r) fh
  simp only [hsnoc]
  rw [dispatch_wp]
  by_cases hwrites : c.writes = false
  · simp only [writtenStep_of_not_writes hwrites]
    exact keeps_unwriting (unwrittenInvariant_hold SpoolWorks (written h)) hwrites fs tr hw
  · cases c with
    | write ino fh offset data => exact write_hold ino fh offset data hw
    | release fh =>
      refine Prog.wp_mono (release_hold fh hw) (fun _ _ _ => trivial) ?_
      rintro ⟨err | r, fs'⟩ tr' h'
      · exact h'
      · exact h'
    | setattr ino size fh =>
      cases size with
      | some newSize => cases hc
      | none => exact setattr_hold ino fh hw
    | _ => exact absurd rfl hwrites

/-- In every run in which no local file fails and no size is set, an upload that
the release of a handle asks for announces the length of what that handle wrote
and streams just that, from the first byte, in chunks that are not empty and not
larger than `UPLOAD_CHUNK`. -/
theorem upload_streams_written {device : MtpDevice} {describe : String} {config : MtpFsConfig}
    {h : List (Callback × Reply)} {fs : MtpFs} {tr : List Event}
    (hr : Served SpoolWorks dispatch (fun _ _ _ c => c.setsSize = false)
      (.new device describe config) [] h fs tr)
    {fh : Nat} {c : Call} {tr' : List Event}
    (hm : Prog.Makes SpoolWorks (dispatch (.release fh) fs) tr c tr') :
    c.Streams (written h fh) := by
  have hw : fs.writeBuf.Hold (written h) :=
    hr.invariant (I := fun h fs _ => fs.writeBuf.Hold (written h)) (G := fun _ _ => True) .new
      fun _ _ _ _ hw hc => dispatch_hold hc hw
  have hwp : Act.wp SpoolWorks (fun _ c => c.Streams (written h fh)) (dispatch (.release fh))
      (fun _ _ _ => True) fs tr :=
    dispatch_wp.mpr (Attempt.wp_mono (release_hold fh hw) (fun _ _ _ _ => trivial)
      fun _ _ _ _ => trivial)
  exact Prog.wp_makes (G := fun _ c => Call.Streams (written h fh) c) hwp hm

/-- A device that loses the link in the first upload with bytes in it. -/
def losingDevice (tr : List Event) : (c : Call) → Option (Answer c)
  | .storages _ => some (.ok [⟨⟨1⟩, "Card", 100, 50⟩])
  | .openDevice => some (.ok ⟨1, true, true⟩)
  | .listObjects .. => some (.ok [⟨⟨7⟩, "a", false, 0, none⟩, ⟨⟨8⟩, "b", false, 0, none⟩])
  | .upload storage _ info _ => some
      (if storage.session = 0 ∧ info.size ≠ 0 then .error .disconnected else .ok ⟨tr.length⟩, 1)
  | .delete .. => some (.ok ())
  | .rename .. => some (.ok ())
  | c => undisturbed c

/-- Two handles written in turn. -/
def interleavedWrites : List Callback :=
  [.init, .create 2 (some "a"), .create 2 (some "b"), .write 3 1 0 [1], .write 4 2 0 [9, 9],
    .write 3 1 3 [2], .write 4 2 1 [8]]

theorem spoolWorks_of_script (tr : List Event) (c : Call) (a : Answer c) (tr' : List Event)
    (h : script losingDevice tr c = some (a, tr')) : SpoolWorks tr c a tr' := by
  obtain ⟨b, hb, hab⟩ := Option.map_eq_some_iff.mp h
  cases hab
  refine .intro ?_
  cases c <;> first | rfl | (cases hb; rfl)

/-- An upload to the session. -/
def Call.uploadsTo (session : Nat) : Call → Bool
  | .upload storage .. => storage.session == session
  | _ => false

/-- The attempt after the link loss streams the first handle's vector, with its
hole, and nothing of the second's. -/
theorem upload_streams_written_retried : ∃ fs tr storage parent info stream tr',
    Prog.Makes SpoolWorks (dispatch (.release 1) fs) tr (.upload storage parent info stream) tr' ∧
      storage.session = 1 ∧ info.size = 4 ∧ stream.flatten = [1, 0, 0, 2] := by
  have hsizes : ∀ c ∈ interleavedWrites, c.setsSize = false := by decide
  obtain ⟨h, fs, tr, hr, ht⟩ : ∃ h fs tr, Served SpoolWorks dispatch
      (fun _ _ _ c => c.setsSize = false) (.new ⟨0, true, true⟩ "phone" ⟨false, ⟨1000⟩, 0⟩) []
      h fs tr ∧ (decide (written h 1 = [1, 0, 0, 2]) &&
        ((dispatch (.release 1) fs).callAt (script losingDevice) 16 tr).any
          fun (c : Call × List Event) => c.1.uploadsTo 1) = true :=
    Served.of_test spoolWorks_of_script interleavedWrites (fun c hc _ _ _ => hsizes c hc)
      (fun r => decide (written r.1 1 = [1, 0, 0, 2]) &&
        ((dispatch (.release 1) r.2.1).callAt (script losingDevice) 16 r.2.2).any
          fun (c : Call × List Event) => c.1.uploadsTo 1)
      (by decide +kernel)
  obtain ⟨hv, hup⟩ := (Bool.and_eq_true _ _).mp ht
  obtain ⟨⟨c, tr'⟩, hc, hs⟩ := (Option.any_eq_true _ _).mp hup
  have hm := Prog.callAt_makes spoolWorks_of_script hc
  have hstreams := upload_streams_written hr hm
  rw [of_decide_eq_true hv] at hstreams
  cases c with
  | upload storage parent info stream =>
    exact ⟨fs, tr, storage, parent, info, stream, tr', hm, eq_of_beq hs, hstreams.1, hstreams.2.1⟩
  | _ => cases hs

end MtpMount
