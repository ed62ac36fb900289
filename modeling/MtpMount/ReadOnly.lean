import MtpMount.FsRules

/-!
# Read-only mounts

A mount with `read_only` set never changes the device. The callbacks that open
a write buffer refuse, so no buffer is ever open, and a close has nothing to
flush; what is left only asks.

* `readOnly_never_mutates`: no callback of any run makes a mutating request.
-/

namespace MtpMount

open Interaction

/-- What holds of a read-only mount in every state. -/
structure ReadOnlyMount (fs : MtpFs) : Prop where
  readOnly : fs.readOnly = true
  noBuffers : ∀ fh, fs.writeBuf.buffers.lookup fh = none

theorem readOnlyMount_new (device : MtpDevice) (describe : String) {config : MtpFsConfig}
    (h : config.readOnly = true) : ReadOnlyMount (.new device describe config) where
  readOnly := h
  noBuffers := fun _ => HashMap.lookup_empty _

theorem queries_readOnly (fs : MtpFs) :
    Queries AnyAnswer (fun _ c => c.isMutation = false)
      (fun l _ => ReadOnlyMount { fs with link := l }) (fun _ _ => True) where
  token := fun _ _ => trivial
  aside := fun hc h => ⟨Call.isMutation_of_isAside hc, fun _ _ _ => ⟨h, fun _ h => h⟩⟩
  query := fun hc _ h _ _ => ⟨hc, fun _ _ _ => ⟨h, fun _ h => h, fun _ _ => trivial⟩⟩
  setHandle := fun h _ => ⟨h.readOnly, h.noBuffers⟩
  syncChildren := fun h _ _ => ⟨h.readOnly, h.noBuffers⟩
  loaded := fun h _ _ => ⟨h.readOnly, h.noBuffers⟩
  rootLoaded := fun h => ⟨h.readOnly, h.noBuffers⟩
  forget := fun _ h => ⟨h.readOnly, h.noBuffers⟩
  giveUp := fun h => ⟨h.readOnly, h.noBuffers⟩
  invalidate := fun h => ⟨rfl, fun _ _ _ => ⟨h.readOnly, h.noBuffers⟩⟩
  reopen := fun h => ⟨rfl, fun _ _ _ => ⟨h, fun _ _ => ⟨rfl, fun _ _ _ => ⟨h, fun _ _ =>
    ⟨rfl, fun _ _ _ => ⟨rfl, fun _ _ _ => ⟨h.readOnly, h.noBuffers⟩⟩⟩⟩⟩⟩⟩

theorem mountInvariant_readOnly :
    MountInvariant AnyAnswer (fun _ c => c.isMutation = false) (fun fs _ => ReadOnlyMount fs)
      (fun _ _ => True) where
  link := queries_readOnly
  files := fun _ h => ⟨h.readOnly, h.noBuffers⟩
  readBuf := fun {fs e} fh offset size fault h => by
    refine ⟨h.readOnly, fun fh' => ?_⟩
    simp only [WriteBuffer.read, h.noBuffers fh]
    exact h.noBuffers fh'
  flush := fun {fs e} fh h => by
    unfold flushToMtp
    rw [Attempt.wp_bind, onWriteBuf_wp]
    simp only [WriteBuffer.close, h.noBuffers fh]
    refine ⟨h.readOnly, fun fh' => ?_⟩
    rw [HashMap.lookup_erase, h.noBuffers fh', ite_self]
  init := fun h => ⟨rfl, fun _ _ _ => h⟩
  addStorage := fun _ _ _ h => ⟨h.readOnly, h.noBuffers⟩
  setStorages := fun _ h => ⟨h.readOnly, h.noBuffers⟩
  spawn := fun h => ⟨rfl, fun _ _ _ => h⟩
  openBuf := fun _ _ _ _ hw h => absurd h.readOnly (by rw [hw]; decide)
  writeBuf := fun _ _ _ _ hw h => absurd h.readOnly (by rw [hw]; decide)
  closeBuf := fun _ hw h => absurd h.readOnly (by rw [hw]; decide)
  mutation := fun hw _ _ h _ _ => absurd h.readOnly (by rw [hw]; decide)
  addObject := fun _ _ _ _ _ hw h _ _ => absurd h.readOnly (by rw [hw]; decide)
  remove := fun _ hw h _ => absurd h.readOnly (by rw [hw]; decide)
  rename := fun _ _ _ hw h _ => absurd h.readOnly (by rw [hw]; decide)
  panic := fun _ _ _ => rfl

/-- On a read-only mount, whatever callbacks ran before and whatever the device
answered, no callback requests an upload, a delete, a rename, a move or a new
folder. -/
theorem readOnly_never_mutates {device : MtpDevice} {describe : String} {config : MtpFsConfig}
    (hro : config.readOnly = true) {h : List (Callback × Reply)} {fs : MtpFs} {tr : List Event}
    (hr : MountRun AnyAnswer (.new device describe config) h fs tr)
    {c : Callback} {call : Call} {tr' : List Event}
    (hm : Prog.Makes AnyAnswer (dispatch c fs) tr call tr') : call.isMutation = false :=
  (mountInvariant_readOnly.served (readOnlyMount_new device describe hro) hr).2 c call tr' hm

/-- A device with one storage, one file on it, and a failing link now and then. -/
def shownFile (tr : List Event) : (c : Call) → Option (Answer c)
  | .storages _ => some (.ok [⟨⟨1⟩, "Card", 100, 50⟩])
  | .listObjects .. => some (.ok [⟨⟨7⟩, "a", false, 3, none⟩])
  | .openDevice => some (.ok ⟨tr.length, true, true⟩)
  | .readRange .. => some (if tr.length < 20 then .error .disconnected else .ok [1, 2, 3])
  | c => undisturbed c

/-- A run with a refused write and a read across a link loss. -/
def readOnlyCallbacks : List Callback :=
  [.init, .lookup 2 (some "a"), .openFile 3 .readOnly, .write 3 1 0 [9], .read 3 1 0 3]

/-- In that run, reading on still only asks. -/
theorem readOnly_never_mutates_shown : ∃ fs tr call tr',
    Prog.Makes AnyAnswer (dispatch (.read 3 1 0 3) fs) tr call tr' ∧ call.isMutation = false := by
  obtain ⟨h, fs, tr, hr, hc⟩ := MountRun.of_test (anyAnswer_of_script shownFile)
    (.new ⟨0, true, true⟩ "phone" ⟨true, ⟨1000⟩, 0⟩) readOnlyCallbacks
    (fun fs tr => ((dispatch (.read 3 1 0 3) fs).callAt (script shownFile) 0 tr).isSome)
    (by decide +kernel)
  obtain ⟨⟨call, tr'⟩, hc⟩ := Option.isSome_iff_exists.mp hc
  have hm := Prog.callAt_makes (anyAnswer_of_script shownFile) hc
  exact ⟨fs, tr, call, tr', hm, readOnly_never_mutates rfl hr hm⟩

end MtpMount
