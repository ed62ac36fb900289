import Mathlib.Data.List.Induction
import MtpMount.FsRules

/-!
# No token crosses a session

An object handle means something in the session that gave it out only, and there
until the mount invalidates its handles. The generations of the inode table see
to it that no other handle is sent.

* `sent_handles_obtained`: every request of every run goes to the session taken
  over last, and each handle it carries was handed out there since the last
  invalidation.
-/

namespace MtpMount

open Interaction

/-- The session of the device taken over last; `start` before the first. -/
def currentSession (start : Nat) (tr : List Event) : Nat :=
  tr.foldl (fun session ev => match ev.call with
    | .spawnEventLoop device _ => device.session
    | _ => session) start

/-- What happened since the handles were last invalidated. -/
def sinceInvalidated (tr : List Event) : List Event :=
  tr.foldl (fun since ev => match ev.call with
    | .invalidated => []
    | _ => since ++ [ev]) []

/-- The event is a request to the session, and its answer hands out `h`. -/
def Event.HandsOut (ev : Event) (session : Nat) (h : ObjectHandle) : Prop :=
  ∃ storage handles, ev.call.target? = some (storage, handles) ∧ storage.session = session ∧
    h ∈ ev.call.handed ev.answer

/-- The current session handed `h` out since the last invalidation. -/
def Obtained (start : Nat) (tr : List Event) (h : ObjectHandle) : Prop :=
  ∃ ev ∈ sinceInvalidated tr, ev.HandsOut (currentSession start tr) h

/-- The request goes to the current session, with handles of that session only. -/
def OfSession (start : Nat) (tr : List Event) (c : Call) : Prop :=
  ∀ storage handles, c.target? = some (storage, handles) →
    storage.session = currentSession start tr ∧ ∀ h ∈ handles, Obtained start tr h

theorem mem_of_mem_sinceInvalidated {tr : List Event} {ev : Event} (h : ev ∈ sinceInvalidated tr) :
    ev ∈ tr := by
  induction tr using List.reverseRecOn with
  | nil => exact h
  | append_singleton tr x ih =>
    unfold sinceInvalidated at h ih
    rw [List.foldl_append] at h
    rw [List.mem_append]
    simp only [List.foldl_cons, List.foldl_nil] at h
    split at h
    · cases h
    · exact (List.mem_append.mp h).imp_left ih

/-! ## One more event -/

/-- The call starts no session and ends the life of no handle. -/
def Call.keepsTokens : Call → Bool
  | .spawnEventLoop .. | .invalidated => false
  | _ => true

theorem Call.keepsTokens_of_isAside {c : Call} (h : c.isAside = true) : c.keepsTokens = true := by
  cases c <;> first | rfl | cases h

theorem Call.keepsTokens_of_target? {c : Call} {t : Storage × List ObjectHandle}
    (h : c.target? = some t) : c.keepsTokens = true := by
  cases c <;> first | rfl | cases h

section Snoc

variable {start : Nat} {tr : List Event} {c : Call}

theorem currentSession_snoc (hc : c.keepsTokens = true) (a : Answer c) :
    currentSession start (tr ++ [⟨c, a⟩]) = currentSession start tr := by
  unfold currentSession
  rw [List.foldl_append]
  cases c <;> first | rfl | cases hc

theorem sinceInvalidated_snoc (hc : c.keepsTokens = true) (a : Answer c) :
    sinceInvalidated (tr ++ [⟨c, a⟩]) = sinceInvalidated tr ++ [⟨c, a⟩] := by
  unfold sinceInvalidated
  rw [List.foldl_append]
  cases c <;> first | rfl | cases hc

theorem currentSession_spawned (device : MtpDevice) (epoch : Nat) (a : Unit) :
    currentSession start (tr ++ [⟨.spawnEventLoop device epoch, a⟩]) = device.session := by
  unfold currentSession
  rw [List.foldl_append]
  rfl

theorem currentSession_invalidated (a : Unit) :
    currentSession start (tr ++ [⟨.invalidated, a⟩]) = currentSession start tr := by
  unfold currentSession
  rw [List.foldl_append]
  rfl

theorem sinceInvalidated_spawned (device : MtpDevice) (epoch : Nat) (a : Unit) :
    sinceInvalidated (tr ++ [⟨.spawnEventLoop device epoch, a⟩]) =
      sinceInvalidated tr ++ [⟨.spawnEventLoop device epoch, a⟩] := by
  unfold sinceInvalidated
  rw [List.foldl_append]
  rfl

theorem Obtained.snoc {h : ObjectHandle} (ho : Obtained start tr h) (hc : c.keepsTokens = true)
    (a : Answer c) : Obtained start (tr ++ [⟨c, a⟩]) h := by
  obtain ⟨ev, hev, hh⟩ := ho
  refine ⟨ev, ?_, ?_⟩
  · rw [sinceInvalidated_snoc hc]
    exact List.mem_append_left _ hev
  · rwa [currentSession_snoc hc]

/-- A request hands its handles out. -/
theorem obtained_of_handed {storage : Storage} {handles : List ObjectHandle} {h : ObjectHandle}
    (ht : c.target? = some (storage, handles)) (hs : storage.session = currentSession start tr)
    {a : Answer c} (hh : h ∈ c.handed a) : Obtained start (tr ++ [⟨c, a⟩]) h := by
  have hc := Call.keepsTokens_of_target? ht
  refine ⟨⟨c, a⟩, ?_, storage, handles, ht, ?_, hh⟩
  · rw [sinceInvalidated_snoc hc]
    exact List.mem_append_right _ List.mem_cons_self
  · rwa [currentSession_snoc hc]

end Snoc

/-! ## The invariant -/

/-- The fresh handles of the table were obtained in the current session, which
is that of the device and of all its storages. -/
structure Link.Attached (start : Nat) (l : Link) (tr : List Event) : Prop where
  tokens : l.inodes.Tokens (Obtained start tr)
  storages : ∀ storage ∈ l.storages, storage.session = l.device.session
  current : l.device.session = currentSession start tr

namespace Link.Attached

variable {start : Nat} {l : Link} {tr : List Event} {c : Call}

theorem snoc (h : l.Attached start tr) (hc : c.keepsTokens = true) (a : Answer c) :
    l.Attached start (tr ++ [⟨c, a⟩]) where
  tokens := h.tokens.mono fun _ ho => ho.snoc hc a
  storages := h.storages
  current := h.current.trans (currentSession_snoc hc a).symm

/-- Another table fed from obtained handles. -/
theorem fed {u : InodeTable} (h : l.Attached start tr)
    (hu : InodeTable.Fed (Obtained start tr) l.inodes u) :
    Attached start { l with inodes := u } tr where
  tokens := h.tokens.fed hu
  storages := h.storages
  current := h.current

theorem obtained (h : l.Attached start tr) {a : ObjectHandle} (ha : l.Token a) :
    Obtained start tr a := by
  obtain ⟨i, e, he, hf, hk⟩ := ha
  exact h.tokens.known i e a he ((InodeTable.isFresh_iff he hk).mp hf) hk

theorem ofSession (h : l.Attached start tr) {storage : Storage} {handles : List ObjectHandle}
    (ht : c.target? = some (storage, handles)) (hs : storage ∈ l.storages)
    (hk : ∀ a ∈ handles, Obtained start tr a) : OfSession start tr c := by
  intro storage' handles' ht'
  cases ht.symm.trans ht'
  exact ⟨(h.storages storage hs).trans h.current, hk⟩

/-- A request through a storage: what it hands out was obtained. -/
theorem asked {R : Answers Call Answer (List Event)}
    (hR : ∀ {tr c a tr'}, R tr c a tr' → AnyAnswer tr c a tr') (h : l.Attached start tr)
    {storage : Storage} {handles : List ObjectHandle} (ht : c.target? = some (storage, handles))
    (hs : storage ∈ l.storages) (hk : ∀ a ∈ handles, Obtained start tr a) :
    OfSession start tr c ∧ ∀ a tr', R tr c a tr' → l.Attached start tr' ∧
      (∀ b, Obtained start tr b → Obtained start tr' b) ∧ ∀ b ∈ c.handed a, Obtained start tr' b := by
  have hc := Call.keepsTokens_of_target? ht
  refine ⟨h.ofSession ht hs hk, ?_⟩
  intro a _ hr
  cases hR hr
  exact ⟨h.snoc hc a, fun _ ho => ho.snoc hc a,
    fun _ hh => obtained_of_handed ht ((h.storages storage hs).trans h.current) hh⟩

/-- An event loop for the device that is there is no new session. -/
theorem spawned (h : l.Attached start tr) (epoch : Nat) (a : Answer (.spawnEventLoop l.device epoch)) :
    l.Attached start (tr ++ [⟨.spawnEventLoop l.device epoch, a⟩]) where
  tokens := h.tokens.mono fun b ho => by
    obtain ⟨ev, hev, hh⟩ := ho
    refine ⟨ev, ?_, ?_⟩
    · rw [sinceInvalidated_spawned]
      exact List.mem_append_left _ hev
    · rw [currentSession_spawned, h.current]
      exact hh
  storages := h.storages
  current := (currentSession_spawned ..).symm

end Link.Attached

theorem session_bindStorages {device : MtpDevice} {infos : List StorageInfo} {storage : Storage}
    (h : storage ∈ device.bindStorages infos) : storage.session = device.session := by
  obtain ⟨info, -, rfl⟩ := List.mem_map.mp h
  rfl

/-- An uploaded object's handle was handed out, whatever the generation of its entry. -/
theorem InodeTable.Tokens.recordUpload {P : ObjectHandle → Prop} {t : InodeTable} (h : t.Tokens P)
    (inode : Nat) {handle : ObjectHandle} (hP : P handle) (name : Option String) (size : Nat)
    (now : SystemTime) : (t.recordUpload inode handle name size now).Tokens P where
  bound := fun i e he => by
    rw [InodeTable.recordUpload, get_getMut] at he
    split at he
    · obtain ⟨e', he', rfl⟩ := Option.map_eq_some_iff.mp he
      exact h.bound inode e' he'
    · exact h.bound i e he
  known := fun i e a he hg ha => by
    rw [InodeTable.recordUpload, get_getMut] at he
    split at he
    · obtain ⟨e', -, rfl⟩ := Option.map_eq_some_iff.mp he
      cases ha
      exact hP
    · exact h.known i e a he hg ha

/-- However the answers are chosen, if they are remembered. -/
theorem linkInvariant_attached {R : Answers Call Answer (List Event)}
    (hR : ∀ {tr c a tr'}, R tr c a tr' → AnyAnswer tr c a tr') (start : Nat) :
    LinkInvariant R (OfSession start) (Link.Attached start) (Obtained start) where
  token := fun h ha => h.obtained ha
  aside := fun {l tr c} hc h => by
    have hk := Call.keepsTokens_of_isAside hc
    refine ⟨fun storage handles ht => ?_, ?_⟩
    · exact nomatch (Call.target?_of_isAside hc).symm.trans ht
    · intro a _ hr
      cases hR hr
      exact ⟨h.snoc hk a, fun _ ho => ho.snoc hk a⟩
  query := fun _ ht h hs hk => h.asked hR ht hs hk
  setHandle := fun h hk => h.fed (.setHandle _ _ hk)
  syncChildren := fun h _ hk => h.fed (.syncChildren _ _ hk)
  loaded := fun h _ hk => ⟨h.tokens.fed (.syncChildren _ _ hk), h.storages, h.current⟩
  rootLoaded := fun h => ⟨h.tokens, h.storages, h.current⟩
  forget := fun _ h => ⟨h.tokens, h.storages, h.current⟩
  giveUp := fun h => ⟨h.tokens, h.storages, h.current⟩
  invalidate := fun {l tr} h => by
    refine ⟨nofun, ?_⟩
    intro a _ hr
    cases hR hr
    exact ⟨h.tokens.bumpGeneration, h.storages, h.current.trans (currentSession_invalidated a).symm⟩
  reopen := fun {l tr} h => by
    refine ⟨nofun, ?_⟩
    intro a _ hr
    cases hR hr
    have h₁ := h.snoc (c := .openDevice) rfl a
    refine ⟨h₁, fun device _ => ⟨nofun, ?_⟩⟩
    intro b _ hr
    cases hR hr
    have h₂ := h₁.snoc (c := .storages device) rfl b
    refine ⟨h₂, fun infos _ => ⟨nofun, ?_⟩⟩
    intro u _ hr
    cases hR hr
    refine ⟨nofun, ?_⟩
    intro v _ hr
    cases hR hr
    refine ⟨?_, fun storage hs => session_bindStorages hs, (currentSession_spawned ..).symm⟩
    exact (Link.remapStorages_induction (P := InodeTable.Tokens (Obtained start tr))
      (fun t ino sid ht => ht.fed (.setStorageId _ t ino sid)) _ h.tokens).bumpGeneration
  mutation := fun _ _ ht h hs hk => h.asked hR ht hs hk
  record := fun inode h _ hk _ _ _ =>
    ⟨h.tokens.recordUpload inode hk _ _ _, h.storages, h.current⟩
  init := fun {l tr} h => by
    refine ⟨nofun, ?_⟩
    intro a _ hr
    cases hR hr
    exact h.snoc (c := .storages l.device) rfl a
  addStorage := fun sid name now h => h.fed (.addStorageAt _ _ sid name now)
  setStorages := fun infos h => ⟨h.tokens, fun storage hs => session_bindStorages hs, h.current⟩
  spawn := fun {l tr} h => by
    refine ⟨nofun, ?_⟩
    intro a _ hr
    cases hR hr
    exact h.spawned l.eventEpoch a
  addObject := fun parent a name isDir now h hk _ => h.fed (.addObject _ parent hk name isDir 0 now)
  remove := fun ino h _ => h.fed (.remove _ _ ino)
  rename := fun ino newParent newName h _ => h.fed (.rename _ _ ino newParent newName)
  panic := fun _ _ _ => nofun

theorem MtpFs.attached_new (device : MtpDevice) (describe : String) (config : MtpFsConfig) :
    (MtpFs.new device describe config).link.Attached device.session [] :=
  ⟨InodeTable.tokens_new _, nofun, rfl⟩

/-- Every request that a callback makes, in any run, goes to the current
session, and every handle it carries was handed out there since the last
invalidation. -/
theorem sent_handles_obtained {device : MtpDevice} {describe : String} {config : MtpFsConfig}
    {h : List (Callback × Reply)} {fs : MtpFs} {tr : List Event}
    (hr : MountRun AnyAnswer (.new device describe config) h fs tr) {c : Callback} {call : Call}
    {tr' : List Event} (hm : Prog.Makes AnyAnswer (dispatch c fs) tr call tr') :
    OfSession device.session tr' call := by
  have h₀ := MtpFs.attached_new device describe config
  exact ((linkInvariant_attached (fun h => h) device.session).mount.served h₀ hr).2 c call tr' hm

/-- A device whose first session drops out of a read; the file `a` has another
handle in each session. -/
def droppingDevice (_ : List Event) : (c : Call) → Option (Answer c)
  | .storages _ => some (.ok [⟨⟨1⟩, "Card", 100, 50⟩])
  | .listObjects storage _ => some (.ok [⟨⟨7 + storage.session⟩, "a", false, 3, none⟩])
  | .openDevice => some (.ok ⟨1, true, true⟩)
  | .readRange storage .. =>
    some (if storage.session = 0 then .error .disconnected else .ok [1, 2, 3])
  | c => undisturbed c

/-- The storage as the second session knows it. -/
def reopenedStorage : Storage :=
  { id := ⟨1⟩, description := "Card", totalCapacity := 100, freeSpace := 50, session := 1 }

/-- The read across that loss goes to the second session, with the handle listed there. -/
theorem sent_handles_obtained_dropped :
    ∃ tr, currentSession 0 tr = 1 ∧ Obtained 0 tr ⟨8⟩ := by
  obtain ⟨h, fs, tr, hr, ht⟩ := MountRun.of_test (anyAnswer_of_script droppingDevice)
    (.new ⟨0, true, true⟩ "phone" ⟨false, ⟨1000⟩, 0⟩)
    [.init, .lookup 2 (some "a"), .openFile 3 .readOnly]
    (fun fs tr => ((dispatch (.read 3 1 0 3) fs).callAt (script droppingDevice) 11 tr).any
      fun (r : Call × List Event) => decide (r.1.target? = some (reopenedStorage, [(⟨8⟩ : ObjectHandle)])))
    (by rfl)
  obtain ⟨⟨c, tr'⟩, hc, hs⟩ := (Option.any_eq_true _ _).mp ht
  have hm := Prog.callAt_makes (anyAnswer_of_script droppingDevice) hc
  have hsent := sent_handles_obtained hr hm _ _ (of_decide_eq_true hs)
  exact ⟨tr', hsent.1.symm, hsent.2 _ List.mem_cons_self⟩

end MtpMount
