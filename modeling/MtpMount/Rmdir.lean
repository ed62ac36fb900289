import MtpMount.Chains
import MtpMount.FsRules

/-!
# Removing a directory

`rmdir` finds the name, sees that it is a directory and deletes the object,
whatever is in it.

* `rmdir_spares_iff`: a run of it refuses and touches nothing exactly on a
  read-only mount, or when the directory is in no storage of the session and a
  lost session is not waited for;
* `rmdir_full`: a directory with a child is deleted.
-/

namespace MtpMount

open Interaction

/-- Every run of `rmdir` replies an error, sends no delete and leaves the table as it is. -/
def Spares (fs : MtpFs) (parent : Nat) (name : String) : Prop :=
  ∀ tr, Attempt.wp AnyAnswer (fun _ c => c.isDelete = false) (rmdir parent (some name))
    (fun _ _ _ => False) (fun _ fs' _ => fs'.link.inodes = fs.link.inodes) fs tr

/-- The position of the storage an inode is in, if the session has it. -/
def Link.storage? (l : Link) (ino : Nat) : Option Nat :=
  (findStorageFrom l (walkFuel l.inodes) ino).join

/-! ## Refusals -/

section Refusals

variable {G : List Event → Call → Prop} {l : Link} {ino : Nat} {tr : List Event}

theorem storageIndex_unknown (h : l.storage? ino = none) (hang : G tr .hang) :
    Attempt.wp AnyAnswer G (storageIndex ino) (fun _ _ _ => False)
      (fun err l' _ => err = .notFound ∧ l' = l) l tr := by
  apply storageIndex_wp (fun _ => hang)
  · intro i hi
    simp [Link.storage?, hi] at h
  · exact fun _ => ⟨rfl, rfl⟩

theorem objectHandle_unknown (h : l.storage? ino = none) (hang : G tr .hang) :
    Attempt.wp AnyAnswer G (objectHandle ino) (fun _ l' tr' => l' = l ∧ tr' = tr)
      (fun err l' _ => err = .notFound ∧ l' = l) l tr := by
  unfold objectHandle ensureFresh
  simp only [Attempt.wp_bind, Attempt.wp_get]
  split
  · rw [Attempt.wp_pure]
    split <;> simp
  · split
    · simpa using hang
    · rename_i err hchain
      exact ⟨chainFrom_error hchain, rfl⟩
    · rw [Attempt.wp_bind]
      exact Attempt.wp_mono (storageIndex_unknown h hang) (fun _ _ _ h' => h'.elim)
        fun _ _ _ h' => h'

section

variable {attempt : MtpM Unit} (hG : ∀ tr c, c.isDelete = false → G tr c)
  (hattempt : ∀ tr, Attempt.wp AnyAnswer G attempt (fun _ _ _ => False)
    (fun err l' _ => err = .notFound ∧ l' = l) l tr)

include hG hattempt

theorem sessionLoop_refused (staleRetries : Nat) :
    Act.wp AnyAnswer G (sessionLoop attempt staleRetries)
      (fun r l' _ => l' = l ∧ (r = none ∨ r = some (.error .notFound))) l tr := by
  have hturn : ∀ retry, Act.wp AnyAnswer G (recoveryTurn attempt retry)
      (fun r l' _ => l' = l ∧ (r = none ∨ r = some (.error .notFound))) l tr := by
    intro retry
    unfold recoveryTurn
    rw [Act.wp_bind]
    apply wp_call.mpr
    refine ⟨hG tr _ rfl, fun out tr₁ _ => ?_⟩
    cases out with
    | true => exact ⟨rfl, .inl rfl⟩
    | false =>
      simp only [Bool.false_eq_true, if_false, Act.wp_bind, Attempt.wp_run]
      apply Attempt.wp_mono (hattempt tr₁)
      · intro _ _ _ h
        exact h.elim
      · rintro err l' tr' ⟨rfl, rfl⟩
        exact ⟨rfl, .inr rfl⟩
  cases staleRetries with
  | zero => exact hturn _
  | succ n => exact hturn _

/-- With reconnect off, an attempt that does not reach the device is not made again. -/
theorem withRecovery_refused (hoff : l.policy.isDisabled = true) :
    Attempt.wp AnyAnswer G (withRecovery attempt) (fun _ _ _ => False)
      (fun _ l' _ => l'.inodes = l.inodes) l tr := by
  unfold withRecovery
  rw [MAX_ATTEMPTS, recoveryRounds, Attempt.wp_bind, Attempt.wp_lift]
  apply Act.wp_mono (sessionLoop_refused hG hattempt MAX_STALE_RETRIES)
  rintro r l' tr' ⟨rfl, rfl | rfl⟩
  · rw [Attempt.wp_bind, wp_onLinkM]
    unfold reconnect
    simp only [Attempt.wp_bind, Attempt.wp_get]
    rw [if_pos (show (HasLink.link l').policy.isDisabled = true from hoff)]
    simp only [Attempt.wp_bind, Attempt.wp_modify, Attempt.wp_throw]
    rfl
  · rfl

end

/-- The directory is in no storage: the device is not asked. -/
theorem deleteObject_unknown (h : l.storage? ino = none) (hoff : l.policy.isDisabled = true)
    (hG : ∀ tr c, c.isDelete = false → G tr c) :
    Attempt.wp AnyAnswer G (deleteObject ino objectHandle) (fun _ _ _ => False)
      (fun _ l' _ => l'.inodes = l.inodes) l tr := by
  apply withRecovery_refused hG _ hoff
  intro tr
  rw [Attempt.wp_bind]
  apply Attempt.wp_mono (objectHandle_unknown h (hG tr _ rfl))
  · rintro a l' tr' ⟨rfl, rfl⟩
    unfold storageOf
    simp only [Attempt.wp_bind]
    exact Attempt.wp_mono (storageIndex_unknown h (hG tr' _ rfl)) (fun _ _ _ h' => h'.elim)
      fun _ _ _ h' => h'
  · intro _ _ _ h'
    exact h'

end Refusals

/-! ## Deletions -/

section Deletions

variable {G : List Event → Call → Prop} {l : Link} {ino idx : Nat} {storage : Storage}
  {tr : List Event}

/-- The tables have one tree; tokens may differ. -/
structure SameTree (l l' : Link) : Prop where
  storages : l'.storages = l.storages
  fuel : walkFuel l'.inodes = walkFuel l.inodes
  place : ∀ i, (l'.inodes.get i).map InodeEntry.place = (l.inodes.get i).map InodeEntry.place

theorem SameTree.refl (l : Link) : SameTree l l := ⟨rfl, rfl, fun _ => rfl⟩

theorem SameTree.trans {l₁ l₂ l₃ : Link} (h : SameTree l₁ l₂) (h' : SameTree l₂ l₃) :
    SameTree l₁ l₃ :=
  ⟨h'.storages.trans h.storages, h'.fuel.trans h.fuel, fun i => (h'.place i).trans (h.place i)⟩

theorem sameTree_setHandle (l : Link) (i : Nat) (a : ObjectHandle) :
    SameTree l { l with inodes := l.inodes.setHandle i a } := by
  refine ⟨rfl, ?_, fun j => l.inodes.place_setHandle i a j⟩
  exact congrArg (· + 1) (HashMap.length_keys_update ..)

variable {l' : Link}

theorem SameTree.get (h : SameTree l l') {i : Nat} {e : InodeEntry}
    (he : l.inodes.get i = some e) :
    ∃ e', l'.inodes.get i = some e' ∧ e'.parent = e.parent ∧
      e'.kind.withHandle ⟨0⟩ = e.kind.withHandle ⟨0⟩ := by
  have hp := h.place i
  rw [he, Option.map_some] at hp
  obtain ⟨e', he', hp⟩ := Option.map_eq_some_iff.mp hp
  simp only [InodeEntry.place, Prod.mk.injEq] at hp
  exact ⟨e', he', hp.1, hp.2.2⟩

theorem SameTree.findStorageFrom (h : SameTree l l') (fuel i : Nat) :
    findStorageFrom l' fuel i = findStorageFrom l fuel i :=
  findStorageFrom_congr h.storages h.place fuel i

theorem SameTree.storage? (h : SameTree l l') (i : Nat) : l'.storage? i = l.storage? i := by
  rw [Link.storage?, Link.storage?, h.fuel, h.findStorageFrom]

theorem SameTree.hasToken (h : SameTree l l') {i : Nat} (hi : HasToken l i) : HasToken l' i := by
  obtain ⟨e, a, he, ha⟩ := hi
  obtain ⟨e', he', -, hkind⟩ := h.get he
  refine ⟨e', ?_⟩
  cases hk : e.kind <;> cases hk' : e'.kind <;>
    simp_all [InodeKind.withHandle, InodeKind.handle?]

/-- The walk to a storage gives the chain that `ensureFresh` resolves. -/
theorem chainFrom_of_storage {fuel i : Nat} {below : List Nat}
    (h : findStorageFrom l fuel i = some (some idx)) (hb : ∀ n ∈ below, HasToken l n) :
    ∃ chain, chainFrom l.inodes fuel i below = some (.ok chain) ∧ ∀ n ∈ chain, HasToken l n := by
  induction fuel generalizing i below with
  | zero => cases h
  | succ fuel ih =>
    rw [MtpMount.findStorageFrom] at h
    rw [chainFrom]
    split at h
    · cases h
    · rename_i e he
      -- below a file or a directory the walk goes on to its parent
      have hup : ∀ a, e.kind.handle? = some a →
          (if i = e.parent then some none else MtpMount.findStorageFrom l fuel e.parent) =
            some (some idx) →
          ∃ chain, (if i = e.parent then some (.error .notFound)
              else chainFrom l.inodes fuel e.parent (i :: below)) = some (.ok chain) ∧
            ∀ n ∈ chain, HasToken l n := by
        intro a ha hf
        split at hf
        · cases hf
        · rw [if_neg ‹_›]
          apply ih hf
          intro n hn
          rcases List.mem_cons.mp hn with rfl | hn
          · exact ⟨e, a, he, ha⟩
          · exact hb n hn
      cases hk : e.kind with
      | root => exact ⟨below, rfl, hb⟩
      | storage sid => exact ⟨below, rfl, hb⟩
      | directory a => exact hup a (by rw [hk]; rfl) (by simpa only [hk] using h)
      | file a => exact hup a (by rw [hk]; rfl) (by simpa only [hk] using h)

/-- Some run resolves the chain: every listing has the name it is asked for. -/
theorem resolveChain_reaches {chain : List Nat} {parent : Option ObjectHandle}
    {Q : Unit → Link → List Event → Prop} {X : Error → Link → List Event → Prop}
    (hs : l.storages[idx]? = some storage) (hc : ∀ n ∈ chain, HasToken l n)
    (h : Attempt.wp AnyAnswer G (resolveChain idx chain parent) Q X l tr) :
    ∃ l' tr', SameTree l l' ∧ Q () l' tr' := by
  induction chain generalizing l parent tr with
  | nil => exact ⟨l, tr, .refl l, h⟩
  | cons node rest ih =>
    obtain ⟨e, a, he, ha⟩ := hc node List.mem_cons_self
    have hrest : ∀ n ∈ rest, HasToken l n := fun n hn => hc n (List.mem_cons_of_mem _ hn)
    unfold resolveChain at h
    simp only [Attempt.wp_bind, Attempt.wp_get, he, ha] at h
    split at h
    · exact ih hs hrest h
    · simp only [storageAt, Attempt.wp_bind, Attempt.wp_get, hs, Attempt.wp_pure, Attempt.wp_mk]
        at h
      have hlist := (wp_call.mp h).2 (.ok [⟨⟨0⟩, e.name, true, 0, none⟩]) _ (.intro ..)
      simp only [List.find?_cons, beq_self_eq_true, Attempt.wp_bind, Attempt.wp_modify] at hlist
      have hsame := sameTree_setHandle l node ⟨0⟩
      obtain ⟨l', tr', hl', hQ⟩ := ih (by rw [hsame.storages]; exact hs)
        (fun n hn => hsame.hasToken (hrest n hn)) hlist
      exact ⟨l', tr', hsame.trans hl', hQ⟩

theorem storage?_eq_some {i : Nat} (h : l.storage? ino = some i) :
    findStorageFrom l (walkFuel l.inodes) ino = some (some i) ∧
      ∃ storage, l.storages[i]? = some storage := by
  have hf : findStorageFrom l (walkFuel l.inodes) ino = some (some i) := by
    simpa [Link.storage?, Option.join_eq_some_iff] using h
  exact ⟨hf, _, List.getElem?_eq_getElem (findStorageFrom_lt hf)⟩

/-- The end of `object_handle`, where the handle of the inode is read. -/
def heldHandle (inode : Nat) : MtpM ObjectHandle := do
  let l : Link ← get
  match (l.inodes.get inode).map InodeEntry.kind with
  | some (.file handle) => pure handle
  | some (.directory handle) => pure handle
  | _ => throw .notFound

theorem objectHandle_eq (inode : Nat) :
    objectHandle inode = (ensureFresh inode >>= fun _ => heldHandle inode) := rfl

/-- Some run finds the handle of an object in a storage that the session has. -/
theorem objectHandle_reaches {Q : ObjectHandle → Link → List Event → Prop}
    {X : Error → Link → List Event → Prop} (hs : l.storage? ino = some idx) (ho : HasToken l ino)
    (h : Attempt.wp AnyAnswer G (objectHandle ino) Q X l tr) :
    ∃ a l' tr', SameTree l l' ∧ Q a l' tr' := by
  -- once the inode is resolved, its handle is there
  have hend : ∀ l' tr', SameTree l l' → Attempt.wp AnyAnswer G (heldHandle ino) Q X l' tr' →
      ∃ a l' tr', SameTree l l' ∧ Q a l' tr' := by
    intro l' tr' hl' hwp
    obtain ⟨e, a, he, ha⟩ := hl'.hasToken ho
    unfold heldHandle at hwp
    simp only [Attempt.wp_bind, Attempt.wp_get, he, Option.map_some] at hwp
    cases hk : e.kind with
    | root => simp [hk, InodeKind.handle?] at ha
    | storage sid => simp [hk, InodeKind.handle?] at ha
    | directory b =>
      simp only [hk, Attempt.wp_pure] at hwp
      exact ⟨b, l', tr', hl', hwp⟩
    | file b =>
      simp only [hk, Attempt.wp_pure] at hwp
      exact ⟨b, l', tr', hl', hwp⟩
  obtain ⟨hf, storage, hst⟩ := storage?_eq_some hs
  have hnone : ∀ n ∈ ([] : List Nat), HasToken l n := by
    intro n hn
    cases hn
  obtain ⟨chain, hchain, hobjects⟩ := chainFrom_of_storage hf hnone
  rw [objectHandle_eq] at h
  unfold ensureFresh at h
  simp only [Attempt.wp_bind, Attempt.wp_get] at h
  split at h
  · exact hend l tr (.refl l) h
  · simp only [hchain, Attempt.wp_bind, storageIndex, Attempt.wp_get, hf, Attempt.wp_pure] at h
    obtain ⟨l', tr', hl', hQ⟩ := resolveChain_reaches hst hobjects h
    exact hend l' tr' hl' hQ

/-- A run that finds the device present makes the attempt. -/
theorem withRecovery_attempts {attempt : MtpM Unit} {Q : Unit → Link → List Event → Prop}
    {X : Error → Link → List Event → Prop}
    (h : Attempt.wp AnyAnswer G (withRecovery attempt) Q X l tr) :
    ∃ (Q' : Unit → Link → List Event → Prop) (X' : Error → Link → List Event → Prop)
      (tr' : List Event), Attempt.wp AnyAnswer G attempt Q' X' l tr' := by
  unfold withRecovery at h
  rw [MAX_ATTEMPTS, recoveryRounds, Attempt.wp_bind, Attempt.wp_lift, MAX_STALE_RETRIES,
    sessionLoop, recoveryTurn, Act.wp_bind] at h
  have hrun := (wp_call.mp h).2 false _ (.intro ..)
  simp only [Bool.false_eq_true, if_false, Act.wp_bind, Attempt.wp_run] at hrun
  exact ⟨_, _, _, hrun⟩

/-- Some run of the deletion sends it. -/
theorem deleteObject_deletes {Q : Unit → Link → List Event → Prop}
    {X : Error → Link → List Event → Prop} (hs : l.storage? ino = some idx) (ho : HasToken l ino)
    (h : Attempt.wp AnyAnswer (fun _ c => c.isDelete = false) (deleteObject ino objectHandle) Q X
      l tr) : False := by
  obtain ⟨Q', X', tr₁, h⟩ := withRecovery_attempts h
  rw [Attempt.wp_bind] at h
  obtain ⟨a, l', tr₂, hl', h⟩ := objectHandle_reaches hs ho h
  obtain ⟨hf, storage, hst⟩ := storage?_eq_some ((hl'.storage? ino).trans hs)
  simp only [storageOf, storageIndex, storageAt, Attempt.wp_bind, Attempt.wp_get, hf,
    Attempt.wp_pure, hst, Attempt.wp_mk] at h
  exact absurd (wp_call.mp h).1 (by simp [Call.isDelete])

end Deletions

/-! ## A lost session -/

section Lost

variable {G : List Event → Call → Prop} {l : Link} {tr : List Event}
  {Q : Unit → Link → List Event → Prop} {X : Error → Link → List Event → Prop}

/-- In some run the device stays away. -/
theorem reconnectAfter_fails {delays : List Nat}
    (h : Attempt.wp AnyAnswer G (reconnectAfter delays) Q X l tr) :
    ∃ l' tr', l'.inodes = l.inodes ∧ X .disconnected l' tr' := by
  induction delays generalizing tr with
  | nil =>
    simp only [reconnectAfter, Attempt.wp_bind, Attempt.wp_modify, Attempt.wp_throw] at h
    exact ⟨l.giveUp _, tr, rfl, h⟩
  | cons delay rest ih =>
    simp only [reconnectAfter, Attempt.wp_bind, Attempt.wp_lift] at h
    have hslept := (wp_call.mp h).2 () _ (.intro ..)
    have haway := (wp_call.mp hslept).2 true _ (.intro ..)
    exact ih haway

/-- In some run it comes back at once. -/
theorem reconnectAfter_returns {delay : Nat} {rest : List Nat}
    (h : Attempt.wp AnyAnswer G (reconnectAfter (delay :: rest)) Q X l tr) :
    ∃ tr', Q () (l.adopted l.device []) tr' := by
  simp only [reconnectAfter, Attempt.wp_bind, Attempt.wp_lift] at h
  have hslept := (wp_call.mp h).2 () _ (.intro ..)
  have hthere := (wp_call.mp hslept).2 false _ (.intro ..)
  simp only [Bool.false_eq_true, if_false, Attempt.wp_bind, Attempt.wp_outcome, Attempt.wp_mk]
    at hthere
  have hopened := (wp_call.mp hthere).2 (.ok l.device) _ (.intro ..)
  simp only [adopt, Attempt.wp_bind, Attempt.wp_mk, Attempt.wp_lift,
    Attempt.wp_modify, Attempt.wp_get, Attempt.wp_pure] at hopened
  have hstorages := (wp_call.mp hopened).2 (.ok []) _ (.intro ..)
  have hmarked := (wp_call.mp hstorages).2 () _ (.intro ..)
  have hspawned := (wp_call.mp hmarked).2 () _ (.intro ..)
  exact ⟨_, hspawned⟩

theorem schedule_ne_nil {p : ReconnectPolicy} (h : p.isDisabled = false) :
    ∃ delay rest, p.schedule = delay :: rest := by
  have hpos : p.timeout ≠ 0 := by simpa [ReconnectPolicy.isDisabled] using h
  obtain ⟨n, hn⟩ := Nat.exists_eq_succ_of_ne_zero hpos
  rw [ReconnectPolicy.schedule, hn, Backoff.delays, Backoff.advance, if_neg (by simp)]
  exact ⟨_, _, rfl⟩

/-- A round in which the device is away goes on with a reconnect. -/
theorem recoveryRounds_lost {attempt : MtpM Unit} {rounds : Nat}
    (hon : l.policy.isDisabled = false)
    (h : Attempt.wp AnyAnswer G (recoveryRounds attempt (rounds + 1)) Q X l tr) :
    ∃ tr', Attempt.wp AnyAnswer G (reconnectAfter l.policy.schedule)
      (fun _ l' e' => Attempt.wp AnyAnswer G (recoveryRounds attempt rounds) Q X l' e') X l tr' := by
  rw [recoveryRounds, Attempt.wp_bind, Attempt.wp_lift, MAX_STALE_RETRIES, sessionLoop,
    recoveryTurn, Act.wp_bind] at h
  have haway := (wp_call.mp h).2 true _ (.intro ..)
  simp only [if_true, Act.wp_pure, Attempt.wp_bind, wp_onLinkM, reconnect, Attempt.wp_get] at haway
  rw [if_neg (show ¬ (HasLink.link l : Link).policy.isDisabled = true by
    simpa [HasLink.link] using hon)] at haway
  exact ⟨_, haway⟩

/-- Where reconnect is on, in some run the device is lost, comes back and is lost
again for good. -/
theorem withRecovery_reconnects {attempt : MtpM Unit} (hon : l.policy.isDisabled = false)
    (h : Attempt.wp AnyAnswer G (withRecovery attempt) Q X l tr) :
    ∃ err l' tr', l'.inodes.generation = l.inodes.generation + 1 ∧ X err l' tr' := by
  obtain ⟨tr₁, hlost⟩ := recoveryRounds_lost hon h
  obtain ⟨delay, rest, hschedule⟩ := schedule_ne_nil hon
  rw [hschedule] at hlost
  obtain ⟨tr₂, hback⟩ := reconnectAfter_returns hlost
  obtain ⟨tr₃, hlost'⟩ := recoveryRounds_lost (show (l.adopted l.device []).policy.isDisabled = false
    from hon) hback
  obtain ⟨l', tr₄, hl', hX⟩ := reconnectAfter_fails hlost'
  refine ⟨.disconnected, l', tr₄, ?_, hX⟩
  have hremap : (Link.remapStorages [] l.inodes).generation = l.inodes.generation :=
    Link.remapStorages_induction (P := fun t => t.generation = l.inodes.generation)
      (fun _ _ _ h => h) [] rfl
  rw [hl']
  exact congrArg (· + 1) hremap

end Lost

/-! ## The callback -/

section Callback

variable {fs : MtpFs} {parent ino : Nat} {name : String} {handle : ObjectHandle}
  (hl : fs.link.inodes.lookup parent name = some ino)
  (hd : (fs.link.inodes.get ino).map InodeEntry.kind = some (.directory handle))

include hl hd

/-- On a writable mount it is all up to the deletion. -/
theorem spares_iff : Spares fs parent name ↔ (fs.readOnly = false →
    ∀ tr, Attempt.wp AnyAnswer (fun _ c => c.isDelete = false) (deleteObject ino objectHandle)
      (fun _ _ _ => False) (fun _ l' _ => l'.inodes = fs.link.inodes) fs.link tr) := by
  have hwp : ∀ tr, Attempt.wp AnyAnswer (fun _ c => c.isDelete = false) (rmdir parent (some name))
      (fun _ _ _ => False) (fun _ fs' _ => fs'.link.inodes = fs.link.inodes) fs tr ↔
      (fs.readOnly = false → Attempt.wp AnyAnswer (fun _ c => c.isDelete = false)
        (deleteObject ino objectHandle) (fun _ _ _ => False)
        (fun _ l' _ => l'.inodes = fs.link.inodes) fs.link tr) := by
    intro tr
    simp only [rmdir, childOf, nameOr, deleteChild, Attempt.wp_bind, guardWritable_wp,
      Attempt.wp_get, Attempt.wp_pure, hl, hd, orIoError_wp, Attempt.wp_modify, implies_true,
      true_and]
  constructor
  · intro h hw tr
    exact (hwp tr).mp (h tr) hw
  · intro h tr
    exact (hwp tr).mpr fun hw => h hw tr

/-- A run of `rmdir` on a directory refuses and touches nothing, whatever is in
the directory, exactly when the mount is read-only, or when the walk up from the
directory meets no storage of the session and a lost session is not waited for. -/
theorem rmdir_spares_iff : Spares fs parent name ↔
    fs.readOnly = true ∨ (fs.link.policy.isDisabled = true ∧ fs.link.storage? ino = none) := by
  rw [spares_iff hl hd]
  obtain ⟨e, he, hk⟩ := Option.map_eq_some_iff.mp hd
  constructor
  · intro h
    cases hw : fs.readOnly with
    | true => exact .inl rfl
    | false =>
      have hdelete := h hw []
      cases hoff : fs.link.policy.isDisabled with
      | false =>
        obtain ⟨err, l', tr', hgen, hsame⟩ := withRecovery_reconnects hoff hdelete
        rw [hsame] at hgen
        omega
      | true =>
        refine .inr ⟨rfl, ?_⟩
        cases hs : fs.link.storage? ino with
        | none => rfl
        | some idx =>
          have ho : HasToken fs.link ino := ⟨e, handle, he, by rw [hk]; rfl⟩
          exact (deleteObject_deletes hs ho hdelete).elim
  · rintro (hro | ⟨hoff, hs⟩) hw tr
    · rw [hro] at hw
      cases hw
    · exact deleteObject_unknown hs hoff fun _ _ hc => hc

end Callback

/-- A device with a folder `d` that holds a file `x`. -/
def folderDevice (_ : List Event) : (c : Call) → Option (Answer c)
  | .storages _ => some (.ok [⟨⟨1⟩, "Card", 100, 50⟩])
  | .listObjects _ none => some (.ok [⟨⟨7⟩, "d", true, 0, none⟩])
  | .listObjects _ (some _) => some (.ok [⟨⟨8⟩, "x", false, 2, none⟩])
  | .delete .. => some (.ok ())
  | c => undisturbed c

/-- The folder is looked up, and the file in it. -/
def folderCallbacks : List Callback := [.init, .lookup 2 (some "d"), .lookup 3 (some "x")]

theorem rmdir_spares_iff_folder : ∃ h fs tr, MountRun AnyAnswer writableMount h fs tr ∧
    fs.link.inodes.children 3 = [4] ∧ ¬ Spares fs 2 "d" := by
  obtain ⟨h, fs, tr, hr, ht⟩ := MountRun.of_test (anyAnswer_of_script folderDevice) writableMount
    folderCallbacks (fun fs _ => decide (fs.link.inodes.children 3 = [4] ∧
      fs.link.inodes.lookup 2 "d" = some 3 ∧
      (fs.link.inodes.get 3).map InodeEntry.kind = some (.directory ⟨7⟩) ∧
      fs.readOnly = false ∧ fs.link.storage? 3 = some 0))
    (by rfl)
  obtain ⟨hc, hl, hd, hw, hs⟩ := of_decide_eq_true ht
  refine ⟨h, fs, tr, hr, hc, fun hspares => ?_⟩
  rcases (rmdir_spares_iff hl hd).mp hspares with hro | ⟨-, hnone⟩
  · rw [hw] at hro
    cases hro
  · rw [hs] at hnone
    cases hnone

/-- The folder goes, with the file in it. -/
theorem rmdir_full : ∃ h fs tr fs' tr', MountRun AnyAnswer writableMount h fs tr ∧
    fs.link.inodes.lookup 2 "d" = some 3 ∧ fs.link.inodes.children 3 = [4] ∧
    Prog.Ends AnyAnswer (dispatch (.rmdir 2 (some "d")) fs) tr (.ok, fs') tr' ∧
    (∃ e ∈ tr', e.call.isDelete = true) ∧ fs'.link.inodes.get 3 = none := by
  obtain ⟨h, fs, tr, hr, ht⟩ := MountRun.of_test (anyAnswer_of_script folderDevice) writableMount
    folderCallbacks (fun fs tr => decide (fs.link.inodes.lookup 2 "d" = some 3 ∧
        fs.link.inodes.children 3 = [4]) &&
      ((dispatch (.rmdir 2 (some "d")) fs).runWith (script folderDevice) tr).any
        fun (r : (Reply × MtpFs) × List Event) =>
          decide (r.1.1 = .ok ∧ r.1.2.link.inodes.get 3 = none) &&
            r.2.any fun e => e.call.isDelete)
    (by rfl)
  obtain ⟨hdir, hrun⟩ := (Bool.and_eq_true _ _).mp ht
  obtain ⟨hl, hc⟩ := of_decide_eq_true hdir
  obtain ⟨⟨⟨reply, fs'⟩, tr'⟩, he, hend⟩ := (Option.any_eq_true _ _).mp hrun
  obtain ⟨hok, hdel⟩ := (Bool.and_eq_true _ _).mp hend
  obtain ⟨rfl, hgone⟩ := of_decide_eq_true hok
  exact ⟨h, fs, tr, fs', tr', hr, hl, hc,
    Prog.runWith_ends (anyAnswer_of_script folderDevice) he, List.any_eq_true.mp hdel, hgone⟩

end MtpMount
