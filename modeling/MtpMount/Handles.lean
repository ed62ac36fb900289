import MtpMount.FsRules

/-!
# Open handles

The mount tells the kernel which handle is open on which file, and the kernel
says when it is done with one. `fh_to_inode` is to be what was told, and every
write buffer is to belong to a handle in it. A `create` breaks that when it
cannot make the spool file of the object that the device has just taken: it has
the handle in the map by then, and replies an error.

* `handles_tracked`: in every run in which no `create` does so, the map is what
  the kernel was told, and every write buffer has the inode of its handle;
* `handles_leaked`: a run with one such failure.
-/

namespace MtpMount

open Interaction

/-! ## What the kernel was told -/

/-- What one callback and its reply do to the inode that a handle is open on. -/
def openedStep (fh : Nat) (o : Option Nat) : Callback × Reply → Option Nat
  | (.openFile ino _, .opened fh') => if fh' = fh then some ino else o
  | (.create .., .created attr fh') => if fh' = fh then some attr.ino else o
  | (.release fh', _) => if fh' = fh then none else o
  | _ => o

/-- The inode that the handle is open on: an open or a create replied with the
handle, and it has not been released. -/
def opened (h : List (Callback × Reply)) (fh : Nat) : Option Nat := h.foldl (openedStep fh) none

theorem opened_snoc (h : List (Callback × Reply)) (s : Callback × Reply) (fh : Nat) :
    opened (h ++ [s]) fh = openedStep fh (opened h fh) s := by
  rw [opened, List.foldl_append]
  rfl

/-- The inode and the handle of a callback on an open file. -/
def Callback.carried? : Callback → Option (Nat × Nat)
  | .read ino fh .. | .write ino fh .. | .setattr ino _ (some fh) => some (ino, fh)
  | _ => none

/-- The kernel's part: a handle is carried only while it is open, with the inode
it is open on. -/
def Callback.CarriesOpen (h : List (Callback × Reply)) (c : Callback) : Prop :=
  ∀ p ∈ c.carried?, opened h p.2 = some p.1

instance (h : List (Callback × Reply)) (c : Callback) : Decidable (c.CarriesOpen h) :=
  inferInstanceAs (Decidable (∀ p ∈ c.carried?, opened h p.2 = some p.1))

namespace Event

/-- The device took an empty object. -/
def tookEmpty : Event → Bool
  | ⟨.upload _ _ info _, (.ok _, _)⟩ => info.size == 0
  | _ => false

def isNow : Event → Bool
  | ⟨.now, _⟩ => true
  | _ => false

/-- No spool file for an object that the device has just taken. A flush never
uploads an empty object, so it is a `create` that asks for this one. -/
def refusesSpool (tr : List Event) : Event → Bool
  | ⟨.createTemp, some _⟩ => tr.getLast?.any isNow && tr.dropLast.getLast?.any tookEmpty
  | _ => false

end Event

/-- The environment that answers anything, but lets every `create` that got its
object onto the device have its spool file. -/
inductive SpoolsCreated : Answers Call Answer (List Event)
  | intro {tr : List Event} {c : Call} {a : Answer c} :
      Event.refusesSpool tr ⟨c, a⟩ = false → SpoolsCreated tr c a (tr ++ [⟨c, a⟩])

/-! ## The maps of open files -/

/-- A filler opens and closes nothing. -/
theorem Files.handles_fillerStep (f : Files) (id : Nat) (fault : Option WriteFault) :
    (f.fillerStep id fault).fhToInode = f.fhToInode ∧ (f.fillerStep id fault).nextFh = f.nextFh := by
  have hdoes := f.fillerStep_does id fault
  generalize f.fillerStep id fault = f' at hdoes ⊢
  cases hdoes with
  | gone => exact ⟨rfl, rfl⟩
  | stream => exact ⟨rfl, rfl⟩
  | deregister => exact ⟨rfl, rfl⟩
  | cleanUp =>
    unfold Files.fillerCleanUp
    split <;> exact ⟨rfl, rfl⟩

/-! ## The invariant -/

/-- The open handles are those of `O`, and every write buffer belongs to one of them. -/
structure Tracks (f : Files) (w : WriteBuffer) (O : Nat → Option Nat) : Prop where
  keys : ∀ fh, f.fhToInode.lookup fh = O fh
  buffers : ∀ fh ino, w.owner fh = some ino → O fh = some ino
  next : ∀ fh ino, O fh = some ino → fh < f.nextFh

namespace Tracks

variable {f f' : Files} {w w' : WriteBuffer} {O : Nat → Option Nat}

theorem new : Tracks .new .new fun _ => none where
  keys := fun fh => HashMap.lookup_empty fh
  buffers := fun fh _ h => by
    rw [WriteBuffer.owner, WriteBuffer.new, HashMap.lookup_empty] at h
    cases h
  next := fun _ _ h => nomatch h

/-- The handles and the owners of the buffers are the same. -/
theorem frame (h : Tracks f w O) (hk : f'.fhToInode = f.fhToInode) (hn : f.nextFh ≤ f'.nextFh)
    (hb : ∀ fh, w'.owner fh = w.owner fh) : Tracks f' w' O where
  keys := fun fh => hk ▸ h.keys fh
  buffers := fun fh ino ho => h.buffers fh ino (hb fh ▸ ho)
  next := fun fh ino ho => Nat.lt_of_lt_of_le (h.next fh ino ho) hn

/-- A new handle is opened. -/
theorem openHandle (h : Tracks f w O) (ino : Nat) :
    Tracks (f.allocFh.2.openHandle f.nextFh ino) w
      (fun fh => if f.nextFh = fh then some ino else O fh) where
  keys := fun fh => by
    simp only [Files.openHandle, Files.allocFh, HashMap.lookup_insert, h.keys fh, eq_comm]
  buffers := fun fh i ho => by
    have hO := h.buffers fh i ho
    have hlt := h.next fh i hO
    rw [if_neg (by omega)]
    exact hO
  next := fun fh i ho => by
    show fh < f.nextFh + 1
    split at ho
    · omega
    · have hlt := h.next fh i ho
      omega

/-- A handle and its buffer are closed. -/
theorem closeHandle (h : Tracks f w O) (fh : Nat)
    (hw : ∀ fh', w'.owner fh' = if fh' = fh then none else w.owner fh') :
    Tracks (f.closeHandle fh) w' (fun fh' => if fh = fh' then none else O fh') where
  keys := fun fh' => by
    simp only [Files.lookup_closeHandle, h.keys fh', eq_comm]
  buffers := fun fh' ino ho => by
    rw [hw] at ho
    split at ho
    · cases ho
    · rw [if_neg (Ne.symm ‹_›)]
      exact h.buffers fh' ino ho
  next := fun fh' ino ho => by
    rw [(Files.closeHandle_frame f fh).nextFh]
    split at ho
    · cases ho
    · exact h.next fh' ino ho

/-- A buffer is opened for an open handle. -/
theorem openBuffer (h : Tracks f w O) {fh ino : Nat} (hO : O fh = some ino) (size : Nat)
    (fault : Option IoError) : Tracks f (w.openBuffer fh ino size fault).2 O := by
  rcases w.owner_openBuffer fh ino size fault with hw | hw
  · rw [hw]
    exact h
  · refine ⟨h.keys, fun fh' i ho => ?_, h.next⟩
    rw [hw] at ho
    split at ho
    · rename_i hfh
      cases ho
      rw [hfh]
      exact hO
    · exact h.buffers fh' i ho

/-- A buffer is closed, its handle is not. -/
theorem closeBuffer (h : Tracks f w O) (fh : Nat) : Tracks f (w.close fh).2 O where
  keys := h.keys
  buffers := fun fh' i ho => by
    rw [WriteBuffer.owner_close] at ho
    split at ho
    · cases ho
    · exact h.buffers fh' i ho
  next := h.next

end Tracks

/-! ## The callbacks -/

/-- What is said of the open handles and the write buffers survives everything
but to open a handle, to write and to close. -/
structure HandleInvariant (P : Files → WriteBuffer → Prop) : Prop where
  frame : ∀ {f f' w}, P f w → f'.fhToInode = f.fhToInode → f.nextFh ≤ f'.nextFh → P f' w
  read : ∀ {f w} fh offset size fault, P f w → P f (w.read fh offset size fault).2

section Invariants

variable {E : Type} (R : Answers Call Answer E) {P : Files → WriteBuffer → Prop}
  (hP : HandleInvariant P)

include hP

theorem HandleInvariant.asking : AskingInvariant R (fun _ _ => True)
    (fun fs _ => P fs.files fs.writeBuf) (fun _ _ => True) where
  link := fun fs => queries_const (fun _ _ _ => trivial) (P fs.files fs.writeBuf)
  filler := fun id fault h => by
    obtain ⟨hk, hn⟩ := Files.handles_fillerStep _ id fault
    exact hP.frame h hk (le_of_eq hn.symm)
  dropCaches := fun _ h => hP.frame h rfl le_rfl

theorem HandleInvariant.reading (ino : Nat) : ReadInvariant R (fun _ _ => True) ino
    (fun fs _ => P fs.files fs.writeBuf) (fun _ fs _ => P fs.files fs.writeBuf)
    (fun _ fs _ => P fs.files fs.writeBuf) (fun _ _ => True) where
  link := (hP.asking R).link
  having := fun _ => hP.asking R
  claimed := fun _ => hP.asking R
  readBuf := fun fh offset size fault h => hP.read fh offset size fault h
  found := fun _ h => h
  addCache := fun _ _ h => hP.frame h rfl le_rfl
  cache := fun _ _ _ h => hP.frame h rfl le_rfl
  claim := fun _ h => hP.frame h rfl le_rfl
  register := fun h => hP.frame h rfl le_rfl
  giveUp := fun _ h => hP.frame h rfl le_rfl
  finished := fun h => hP.frame h rfl le_rfl
  spawnFiller := fun _ h => hP.frame h rfl le_rfl
  served := fun h => h

theorem HandleInvariant.still : StillInvariant R (fun _ _ => True)
    (fun fs _ => P fs.files fs.writeBuf) (fun _ _ => True) where
  toAskingInvariant := hP.asking R
  allocFh := fun h => hP.frame h rfl (Nat.le_succ _)
  init := fun h => ⟨trivial, fun _ _ _ => h⟩
  addStorage := fun _ _ _ h => h
  setStorages := fun _ h => h
  spawn := fun h => ⟨trivial, fun _ _ _ => h⟩
  mutation := fun _ _ _ h _ _ => ⟨trivial, fun _ _ _ => ⟨h, fun _ h => h, fun _ _ => trivial⟩⟩
  addObject := fun _ _ _ _ _ _ h _ _ => h
  remove := fun _ _ h _ => h
  rename := fun _ _ _ _ h _ => h
  panic := fun _ _ _ => trivial

end Invariants

theorem handleInvariant_tracks (O : Nat → Option Nat) : HandleInvariant fun f w => Tracks f w O where
  frame := fun h hk hn => h.frame hk hn fun _ => rfl
  read := fun fh offset size fault h =>
    h.frame rfl le_rfl fun fh' => WriteBuffer.owner_read _ fh offset size fault fh'

/-- Only a handle that is open gets a buffer. -/
theorem writeInvariant_tracks {E : Type} (R : Answers Call Answer E) {O : Nat → Option Nat}
    {ino fh : Nat} (hO : O fh = some ino) :
    WriteInvariant R (fun _ _ => True) ino fh (fun fs _ => Tracks fs.files fs.writeBuf O)
      (fun _ _ => True) where
  link := ((handleInvariant_tracks O).asking R).link
  openBuf := fun size fault _ h => h.openBuffer hO size fault
  writeBuf := fun offset data fault _ h =>
    h.frame rfl le_rfl fun fh' => WriteBuffer.owner_write _ fh offset data fault fh'
  closeBuf := fun _ h => h.closeBuffer fh

/-! ## What is said of the handles, through the callbacks that open and close one -/

section Opening

variable {E : Type} {R : Answers Call Answer E} {P : (Nat → Option Nat) → Files → WriteBuffer → Prop}
  {O : Nat → Option Nat} {fs : MtpFs} {tr : E}

theorem openFile_opens (ino : Nat) (mode : OpenAccMode) (h : P O fs.files fs.writeBuf)
    (hopen : P (fun fh => if fs.files.nextFh = fh then some ino else O fh)
      (fs.files.allocFh.2.openHandle fs.files.nextFh ino) fs.writeBuf) :
    Attempt.wp R (fun _ _ => True) (openFile ino mode)
      (fun r fs' _ => P (fun fh => openedStep fh (O fh) (.openFile ino mode, r)) fs'.files
        fs'.writeBuf)
      (fun _ fs' _ => P O fs'.files fs'.writeBuf) fs tr := by
  unfold openFile
  rw [Attempt.wp_bind, Attempt.wp_get]
  split
  · exact h
  · simp only [Attempt.wp_bind, refuseIf_wp, onFiles_wp, Attempt.wp_pure]
    exact ⟨fun _ => h, fun _ => ⟨fun _ => h, fun _ => hopen⟩⟩

/-- However the flush ends, the handle and its buffer are closed. -/
theorem release_closes {P : Files → WriteBuffer → Prop} (fh : Nat)
    (h : P (fs.files.closeHandle fh) (fs.writeBuf.close fh).2) :
    Attempt.wp R (fun _ _ => True) (release fh) (fun _ fs' _ => P fs'.files fs'.writeBuf)
      (fun _ fs' _ => P fs'.files fs'.writeBuf) fs tr := by
  refine Attempt.wp_mono (release_wp (flushInvariant_true R) fh (fun _ _ _ _ => trivial) trivial) ?_ ?_
  · rintro _ fs' _ ⟨-, hfiles, hbuf, -⟩
    rw [hfiles, hbuf]
    exact h
  · rintro _ fs' _ ⟨hfiles, hbuf⟩
    rw [hfiles, hbuf]
    exact h

/-- A new object is in the table under its own number, and nothing else changes. -/
theorem addObject_does {parent : Nat} {handle : ObjectHandle} {name : String}
    {X : Errno → MtpFs → E → Prop} :
    Attempt.wp R (fun _ _ => True) (addObject parent handle name false)
      (fun ino fs' tr' => fs'.files = fs.files ∧ fs'.writeBuf = fs.writeBuf ∧
        (∃ entry, fs'.link.inodes.get ino = some entry ∧ entry.inode = ino) ∧
        ∃ now, R tr .now now tr') X fs tr := by
  unfold addObject
  rw [Attempt.wp_bind]
  refine tell_wp.mpr ⟨trivial, fun now tr₁ hr => ?_⟩
  rw [Attempt.wp_modifyGet]
  exact ⟨rfl, rfl, InodeTable.live_addObject .., now, hr⟩

/-- `C` is what may be answered when the spool file is asked for. A handle whose
file was not made is open all the same; the kernel does not hear of it. -/
theorem create_opens {C : Option IoError → Prop} (parent : Nat) (name : Option String)
    (h : P O fs.files fs.writeBuf)
    (hC : ∀ n, Attempt.wp R (fun _ _ => True) (createObject parent n)
      (fun _ _ tr' => ∀ now tr₁, R tr' .now now tr₁ → ∀ fault tr₂, R tr₁ .createTemp fault tr₂ → C fault)
      (fun _ _ _ => True) fs.link tr)
    (hopen : ∀ ino fault, C fault →
      P (fun fh => if fs.files.nextFh = fh then some ino else O fh)
        (fs.files.allocFh.2.openHandle fs.files.nextFh ino)
        (fs.writeBuf.openBuffer fs.files.nextFh ino 0 fault).2)
    (hfailed : ∀ ino fault err, C fault →
      (fs.writeBuf.openBuffer fs.files.nextFh ino 0 fault).1 = .error err →
      P O (fs.files.allocFh.2.openHandle fs.files.nextFh ino) fs.writeBuf) :
    Attempt.wp R (fun _ _ => True) (create parent name)
      (fun r fs' _ => P (fun fh => openedStep fh (O fh) (.create parent name, r)) fs'.files
        fs'.writeBuf)
      (fun _ fs' _ => P O fs'.files fs'.writeBuf) fs tr := by
  unfold create
  rw [Attempt.wp_bind, guardWritable_wp]
  refine ⟨fun _ => h, fun _ => ?_⟩
  rw [Attempt.wp_bind]
  refine nameOr_wp (fun n _ => ?_) h
  unfold guardDir
  simp only [Attempt.wp_bind, Attempt.wp_get, refuseIf_wp, orIoError_wp, onFiles_wp]
  refine ⟨fun _ => h, fun _ => ?_⟩
  refine Attempt.wp_mono (hC n) ?_ fun _ _ _ _ => h
  intro handle l tr₁ hanswer
  refine Attempt.wp_mono (addObject_does (X := fun _ _ _ => False)) ?_ fun _ _ _ h' => h'.elim
  rintro ino fs₂ tr₂ ⟨hfiles, hbuf, ⟨entry, hentry, hino⟩, now, hnow⟩
  rw [hfiles]
  unfold openWriteBuf
  rw [Attempt.wp_bind]
  refine tell_wp.mpr ⟨trivial, fun fault tr₃ hfault => ?_⟩
  have hc := hanswer now tr₂ hnow fault tr₃ hfault
  rw [Attempt.wp_bind, onWriteBuf_wp]
  dsimp only
  rw [hbuf]
  split
  · unfold entryAt
    simp only [Attempt.wp_bind, Attempt.wp_get, hentry, Attempt.wp_pure]
    show P (fun fh => if fs.files.nextFh = fh then some entry.inode else O fh) _ _
    rw [hino]
    exact hopen ino fault hc
  · rename_i err herr
    have herr : (fs.writeBuf.openBuffer fs.files.nextFh ino 0 fault).1 = .error err := herr
    show P O (fs.files.allocFh.2.openHandle fs.files.nextFh ino)
      (fs.writeBuf.openBuffer fs.files.nextFh ino 0 fault).2
    rw [WriteBuffer.openBuffer_error herr]
    exact hfailed ino fault err hc herr

end Opening

section Callbacks

variable {R : Answers Call Answer (List Event)} {O : Nat → Option Nat} {fs : MtpFs}
  {tr : List Event}

/-- The spool file of an object that the device has just taken is made. -/
theorem createObject_spools (parent : Nat) (name : String) (l : Link) (tr : List Event) :
    Attempt.wp SpoolsCreated (fun _ _ => True) (createObject parent name)
      (fun _ _ tr' => ∀ now tr₁, SpoolsCreated tr' .now now tr₁ →
        ∀ fault tr₂, SpoolsCreated tr₁ .createTemp fault tr₂ → fault = none)
      (fun _ _ _ => True) l tr := by
  have hq := (queries_const (R := SpoolsCreated) (G := fun _ _ => True) (fun _ _ _ => trivial)
    True).toResolving
  refine withRecovery_wp (I := fun _ _ => True) (fun _ => hq) (fun l tr _ => ?_) trivial
  rw [Attempt.wp_bind]
  refine Attempt.wp_mono (parentHandle_wp hq parent trivial) ?_ fun _ _ _ _ => trivial
  intro p l₁ tr₁ _
  rw [Attempt.wp_bind]
  refine storageOf_wp (fun _ => trivial) (fun st _ => ?_) trivial
  rw [Attempt.wp_bind, Attempt.wp_lift]
  refine wp_call.mpr ⟨trivial, ?_⟩
  rintro ⟨err | handle, polled⟩ _ ⟨-⟩
  · trivial
  · -- the last two events are the object taken and the time
    rintro now _ ⟨-⟩ fault _ ⟨hok⟩
    cases fault with
    | none => rfl
    | some fault =>
      rw [Event.refusesSpool, List.getLast?_concat, List.dropLast_concat, List.getLast?_concat] at hok
      cases hok

theorem create_tracks (parent : Nat) (name : Option String) (h : Tracks fs.files fs.writeBuf O) :
    Attempt.wp SpoolsCreated (fun _ _ => True) (create parent name)
      (fun r fs' _ => Tracks fs'.files fs'.writeBuf
        fun fh => openedStep fh (O fh) (.create parent name, r))
      (fun _ fs' _ => Tracks fs'.files fs'.writeBuf O) fs tr := by
  refine create_opens (P := fun O f w => Tracks f w O) (C := fun fault => fault = none) parent name h
    (fun n => createObject_spools parent n fs.link tr) ?_ ?_
  · exact fun ino fault _ => (h.openHandle ino).openBuffer (if_pos rfl) 0 fault
  · rintro ino _ err rfl herr
    rw [WriteBuffer.openBuffer] at herr
    split at herr <;> cases herr

/-- One callback that is no `create` does to the handles what it tells the kernel. -/
theorem dispatch_tracks_uncreated {E : Type} {R : Answers Call Answer E} {e : E} {c : Callback}
    {h : List (Callback × Reply)} (hc : ∀ parent name, c ≠ .create parent name)
    (hok : c.CarriesOpen h) (ht : Tracks fs.files fs.writeBuf (opened h)) :
    Act.wp R (fun _ _ => True) (dispatch c)
      (fun r fs' _ => Tracks fs'.files fs'.writeBuf (opened (h ++ [(c, r)]))) fs e := by
  have hsnoc : ∀ r, opened (h ++ [(c, r)]) = fun fh => openedStep fh (opened h fh) (c, r) :=
    fun r => funext fun fh => opened_snoc h (c, r) fh
  simp only [hsnoc]
  rw [dispatch_wp]
  cases c with
  | openFile ino mode =>
    exact openFile_opens (P := fun O f w => Tracks f w O) ino mode ht (ht.openHandle ino)
  | create parent name => exact absurd rfl (hc parent name)
  | release fh =>
    have hclosed := ht.closeHandle fh (WriteBuffer.owner_close fs.writeBuf fh)
    exact release_closes (P := fun f w => Tracks f w _) fh hclosed
  | read ino fh offset size =>
    exact keeps_readFile ((handleInvariant_tracks _).reading _ ino) fh offset size fs e ht
  | write ino fh offset data =>
    exact keeps_write (writeInvariant_tracks _ (hok (ino, fh) rfl)) offset data fs e ht
  | setattr ino size fh =>
    have hw : ∀ a, fh = some a → WriteInvariant R (fun _ _ => True) ino a
        (fun fs _ => Tracks fs.files fs.writeBuf (opened h)) (fun _ _ => True) := by
      rintro a rfl
      exact writeInvariant_tracks _ (hok (ino, a) rfl)
    exact keeps_setattr size hw fs e ht
  | _ => exact keeps_still ((handleInvariant_tracks _).still _) rfl fs e ht

/-- So does every callback whose objects get their spool files. -/
theorem dispatch_tracks {c : Callback} {h : List (Callback × Reply)} (hok : c.CarriesOpen h)
    (ht : Tracks fs.files fs.writeBuf (opened h)) :
    Act.wp SpoolsCreated (fun _ _ => True) (dispatch c)
      (fun r fs' _ => Tracks fs'.files fs'.writeBuf (opened (h ++ [(c, r)]))) fs tr := by
  cases c with
  | create parent name =>
    have hsnoc : ∀ r, opened (h ++ [(.create parent name, r)]) =
        fun fh => openedStep fh (opened h fh) (.create parent name, r) :=
      fun r => funext fun fh => opened_snoc h (.create parent name, r) fh
    simp only [hsnoc]
    rw [dispatch_wp]
    exact create_tracks parent name ht
  | _ => exact dispatch_tracks_uncreated (fun _ _ hc => by cases hc) hok ht

end Callbacks

/-- In every run in which each `create` that got its object onto the device has
its spool file, whatever else fails: the open handles are those that an open or
a create replied with and that were not released, with their inodes, and every
write buffer has the inode of such a handle. -/
theorem handles_tracked {device : MtpDevice} {describe : String} {config : MtpFsConfig}
    {h : List (Callback × Reply)} {fs : MtpFs} {tr : List Event}
    (hr : Served SpoolsCreated dispatch (fun h _ _ c => c.CarriesOpen h)
      (.new device describe config) [] h fs tr) :
    (∀ fh, fs.files.fhToInode.lookup fh = opened h fh) ∧
      ∀ fh b, fs.writeBuf.buffers.lookup fh = some b → opened h fh = some b.inode := by
  have ht : Tracks fs.files fs.writeBuf (opened h) :=
    hr.invariant (I := fun h fs _ => Tracks fs.files fs.writeBuf (opened h)) (G := fun _ _ => True)
      .new fun _ _ _ _ ht hok => dispatch_tracks hok ht
  refine ⟨ht.keys, fun fh b hb => ht.buffers fh b.inode ?_⟩
  rw [WriteBuffer.owner, hb]
  rfl

/-- A device that takes every upload. -/
def takingDevice (_ : List Event) : (c : Call) → Option (Answer c)
  | .storages _ => some (.ok [⟨⟨1⟩, "Card", 100, 50⟩])
  | .upload .. => some (.ok ⟨8⟩, 1)
  | c => undisturbed c

/-- The same, but there is no room for a spool file. -/
def fullSpool (tr : List Event) : (c : Call) → Option (Answer c)
  | .createTemp => some (some ⟨"no space left on device"⟩)
  | c => takingDevice tr c

theorem spoolsCreated_of_script (tr : List Event) (c : Call) (a : Answer c) (tr' : List Event)
    (h : script takingDevice tr c = some (a, tr')) : SpoolsCreated tr c a tr' := by
  obtain ⟨b, hb, hab⟩ := Option.map_eq_some_iff.mp h
  cases hab
  refine .intro ?_
  cases c <;> first | rfl | (cases hb; rfl)

/-- A file is created and written to, and another one is opened. -/
def createCallbacks : List Callback :=
  [.init, .create 2 (some "a"), .write 3 1 0 [7], .openFile 3 .readWrite]

theorem handles_tracked_created : ∃ (h : List (Callback × Reply)) (fs : MtpFs) (b : FileBuffer),
    fs.files.fhToInode.lookup 2 = some 3 ∧ fs.writeBuf.buffers.lookup 1 = some b ∧
      opened h 1 = some b.inode := by
  obtain ⟨h, fs, tr, hr, ht⟩ : ∃ h fs tr, Served SpoolsCreated dispatch
      (fun h _ _ c => c.CarriesOpen h) writableMount [] h fs tr ∧
      (decide (opened h 2 = some 3) && (fs.writeBuf.buffers.lookup 1).isSome) = true :=
    Served.of_checked spoolsCreated_of_script (fun h c => decide (c.CarriesOpen h))
      (fun _ _ _ _ hc => of_decide_eq_true hc) createCallbacks
      (fun (r : List (Callback × Reply) × MtpFs × List Event) =>
        decide (opened r.1 2 = some 3) && (r.2.1.writeBuf.buffers.lookup 1).isSome)
      (by rfl)
  obtain ⟨ho, hb⟩ := (Bool.and_eq_true _ _).mp ht
  obtain ⟨b, hb⟩ := Option.isSome_iff_exists.mp hb
  have htracked := handles_tracked hr
  exact ⟨h, fs, b, (htracked.1 2).trans (of_decide_eq_true ho), hb, htracked.2 1 b hb⟩

/-- The device has the new object, but there is no spool file for it: the kernel
hears of an error and the handle stays open. -/
theorem handles_leaked : ∃ h fs tr, Served AnyAnswer dispatch
    (fun h _ _ c => c.CarriesOpen h) writableMount [] h fs tr ∧
    opened h 1 = none ∧ fs.files.fhToInode.lookup 1 = some 3 := by
  obtain ⟨h, fs, tr, hr, ht⟩ : ∃ h fs tr, Served AnyAnswer dispatch
      (fun h _ _ c => c.CarriesOpen h) writableMount [] h fs tr ∧
      decide (opened h 1 = none ∧ fs.files.fhToInode.lookup 1 = some 3) = true :=
    Served.of_checked (anyAnswer_of_script fullSpool) (fun h c => decide (c.CarriesOpen h))
      (fun _ _ _ _ hc => of_decide_eq_true hc) [.init, .create 2 (some "a")]
      (fun (r : List (Callback × Reply) × MtpFs × List Event) =>
        decide (opened r.1 1 = none ∧ r.2.1.files.fhToInode.lookup 1 = some 3))
      (by rfl)
  exact ⟨h, fs, tr, hr, of_decide_eq_true ht⟩

end MtpMount
