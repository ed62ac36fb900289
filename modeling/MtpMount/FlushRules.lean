import MtpMount.Flush
import MtpMount.LinkRules

/-!
# Rules for the flush

`FlushInvariant R G J K P D` is what an invariant `J` of the link has to
withstand when a buffer is flushed; `P` is what it wants to know of the changes
asked for, and `D` holds once an uploaded object was recorded, on whichever way
it `Landed`. `flushBuffer_wp` is the rule for the whole flush, over all its
attempts: every upload of it streams the buffer from the first byte.
-/

namespace MtpMount

open Interaction

variable {E : Type} {R : Answers Call Answer E} {G : E → Call → Prop}

/-- An upload announces and streams exactly the bytes `v`, in pieces that are
not empty and not larger than `UPLOAD_CHUNK`. -/
def Call.Streams (v : Bytes) : Call → Prop
  | .upload _ _ info stream => info.size = v.length ∧ stream.flatten = v ∧
      ∀ chunk ∈ stream, chunk ≠ [] ∧ chunk.length ≤ UPLOAD_CHUNK
  | _ => True

/-- The device takes the bytes `v` as the object `h`. -/
def Takes (R : Answers Call Answer E) (v : Bytes) (storage : Storage) (name : String)
    (h : ObjectHandle) (e e' : E) : Prop :=
  ∃ parent stream n, (Call.upload storage parent ⟨name, v.length⟩ stream).Streams v ∧
    R e (.upload storage parent ⟨name, v.length⟩ stream) (.ok h, n) e'

/-- How the object `h` got into the place of an old one whose handle was known,
up to `e`. When that failed the entry has to take the temporary name. -/
inductive Landed (R : Answers Call Answer E) (K : E → ObjectHandle → Prop) (v : Bytes)
    (storage : Storage) (h : ObjectHandle) : Option String → E → Prop
  | notDeleted {e₀ e₁ e : E} {name : String} {old : ObjectHandle} {err : Error} :
      Takes R v storage name h e₀ e₁ → R e₁ (.delete storage old) (.error err) e →
      Landed R K v storage h (some name) e
  | notRenamed {e₀ e₁ e₂ e : E} {name newName : String} {old : ObjectHandle} {err : Error} :
      K e₀ old → Takes R v storage name h e₀ e₁ → R e₁ (.delete storage old) (.ok ()) e₂ →
      R e₂ (.rename storage h newName) (.error err) e → Landed R K v storage h (some name) e
  | replaced {e₀ e₁ e₂ e : E} {name newName : String} {old : ObjectHandle} :
      K e₀ old → Takes R v storage name h e₀ e₁ → R e₁ (.delete storage old) (.ok ()) e₂ →
      R e₂ (.rename storage h newName) (.ok ()) e → Landed R K v storage h none e
  | afterDelete {e₀ e₁ e : E} {name : String} {old : ObjectHandle} :
      R e₀ (.delete storage old) (.ok ()) e₁ → Takes R v storage name h e₁ e →
      Landed R K v storage h none e

/-- The invariant `J` survives a flush whose requests meet `P`, and its success
leads to `D`. -/
structure FlushInvariant (R : Answers Call Answer E) (G : E → Call → Prop)
    (J : Link → E → Prop) (K : E → ObjectHandle → Prop) (P : Call → Prop)
    (D : Bytes → Nat → Link → E → Prop) : Prop
    extends Resolving R G J K where
  mutation : ∀ {l e c storage handles}, c.isMutation = true → P c →
    c.target? = some (storage, handles) → J l e → storage ∈ l.storages →
    (∀ h ∈ handles, K e h) →
    G e c ∧ ∀ a e', R e c a e' → J l e' ∧ (∀ h, K e h → K e' h) ∧ ∀ h ∈ c.handed a, K e' h
  record : ∀ {l e e' v storage h name now} inode, J l e' → storage ∈ l.storages → K e' h →
    IsFile l inode → Landed R K v storage h name e → R e .now now e' →
    D v inode { l with inodes := l.inodes.recordUpload inode h name v.length now } e'

theorem flushInvariant_true (R : Answers Call Answer E) :
    FlushInvariant R (fun _ _ => True) (fun _ _ => True) (fun _ _ => True) (fun _ => True)
      (fun _ _ _ _ => True) where
  toResolving := (queries_const (fun _ _ _ => trivial) True).toResolving
  mutation := fun _ _ _ _ _ _ => ⟨trivial, fun _ _ _ => ⟨trivial, fun _ h => h, fun _ _ => trivial⟩⟩
  record := fun _ _ _ _ _ _ _ => trivial

section Rules

variable {J : Link → E → Prop} {K : E → ObjectHandle → Prop} {P : Call → Prop}
  {D : Bytes → Nat → Link → E → Prop} {v : Bytes} (hF : FlushInvariant R G J K P D)
  (hP : ∀ c, Call.Streams v c → P c) {l : Link} {e : E}

include hF

/-! ## One step -/

theorem FlushInvariant.mutation_wp {c : Call} {storage : Storage} (handles : List ObjectHandle)
    {σ : Type} {Q : Answer c → σ → E → Prop} {s : σ} (hc : c.isMutation = true)
    (hp : P c) (ht : c.target? = some (storage, handles)) (h : J l e) (hs : storage ∈ l.storages)
    (hk : ∀ a ∈ handles, K e a)
    (hQ : ∀ a e', R e c a e' → J l e' → (∀ h, K e h → K e' h) → (∀ h ∈ c.handed a, K e' h) →
      Q a s e') :
    Act.wp R G (call c) Q s e := by
  have hm := hF.mutation hc hp ht h hs hk
  exact wp_call.mpr ⟨hm.1, fun a e' hr => hQ a e' hr (hm.2 a e' hr).1 (hm.2 a e' hr).2.1
    (hm.2 a e' hr).2.2⟩

theorem recordUpload_wp {X : Error → Link → E → Prop} {storage : Storage} {inode : Nat}
    {h : ObjectHandle} {name : Option String} (hj : J l e) (hs : storage ∈ l.storages) (hk : K e h)
    (hfile : IsFile l inode) (hland : Landed R K v storage h name e) :
    Attempt.wp R G (recordUpload inode h name v.length) (fun _ l' e' => D v inode l' e') X l e := by
  unfold recordUpload
  rw [Attempt.wp_bind, Attempt.wp_lift]
  refine wp_call.mpr ⟨(hF.aside rfl hj).1, fun now e₁ hr => ?_⟩
  obtain ⟨h₁, hmono⟩ := (hF.aside rfl hj).2 now e₁ hr
  exact hF.record inode h₁ hs (hmono h hk) hfile hland hr

include hP

theorem deleteAll_wp {storage : Storage} (objects : List ObjectInfo)
    {X : Error → Link → E → Prop} (hj : J l e) (hs : storage ∈ l.storages)
    (hk : ∀ obj ∈ objects, K e obj.handle) :
    Attempt.wp R G (deleteAll storage objects)
      (fun _ l' e' => l' = l ∧ J l' e' ∧ ∀ h, K e h → K e' h) X l e := by
  induction objects generalizing e with
  | nil => exact ⟨rfl, hj, fun _ h => h⟩
  | cons obj rest ih =>
    unfold deleteAll
    rw [Attempt.wp_bind, Attempt.wp_outcome, Attempt.wp_mk]
    refine hF.mutation_wp [obj.handle] rfl (hP _ trivial) rfl hj hs (fun a ha => ?_)
      fun a e₁ _ h₁ hmono _ => ?_
    · cases List.mem_singleton.mp ha
      exact hk obj List.mem_cons_self
    · have hrest : Attempt.wp R G (deleteAll storage rest)
          (fun _ l' e' => l' = l ∧ J l' e' ∧ ∀ h, K e h → K e' h) X l e₁ :=
        Attempt.wp_mono (ih h₁ fun o ho => hmono _ (hk o (List.mem_cons_of_mem _ ho)))
          (fun _ l' e' h' => ⟨h'.1, h'.2.1, fun b hb => h'.2.2 b (hmono b hb)⟩)
          fun _ _ _ h' => h'
      rcases a with err | _
      · exact hrest
      · exact hrest

theorem purgeLeftover_wp {idx : Nat} {storage : Storage} (parent : Option ObjectHandle)
    (name : String) {X : Error → Link → E → Prop} (hj : J l e)
    (hs : l.storages[idx]? = some storage) (hp : ∀ a ∈ parent.toList, K e a) :
    Attempt.wp R G (purgeLeftover idx parent name)
      (fun _ l' e' => l' = l ∧ J l' e' ∧ ∀ h, K e h → K e' h) X l e := by
  unfold purgeLeftover
  rw [Attempt.wp_bind]
  refine storageAt_wp hs ?_
  rw [Attempt.wp_bind, Attempt.wp_outcome, Attempt.wp_mk]
  obtain ⟨hG, hR⟩ := hF.query (c := .listObjects storage parent) rfl rfl hj
    (List.mem_of_getElem? hs) hp
  refine wp_call.mpr ⟨hG, fun a e₁ hr => ?_⟩
  obtain ⟨h₁, hmono, hnew⟩ := hR a e₁ hr
  rcases a with err | objects
  · exact ⟨rfl, h₁, hmono⟩
  · refine Attempt.wp_mono (deleteAll_wp hF hP _ h₁ (List.mem_of_getElem? hs) fun obj ho => ?_)
      (fun _ l' e' h' => ⟨h'.1, h'.2.1, fun b hb => h'.2.2 b (hmono b hb)⟩) fun _ _ _ h' => h'
    exact hnew _ (List.mem_map_of_mem (List.mem_of_mem_filter ho))

/-! ## One attempt -/

/-- The flush works on a spool file of the bytes `v`. -/
def Flushing.Spools (v : Bytes) (J : Link → E → Prop) (f : Flushing) (e : E) : Prop :=
  J f.link e ∧ f.file.content = v

variable {f : Flushing}

omit hF hP in
/-- A stream from the first byte. -/
theorem streams_fileStream {file : SpoolFile} (hv : file.content = v) (hc : file.cursor = 0)
    (storage : Storage) (parent : Option ObjectHandle) (name : String) :
    (Call.upload storage parent ⟨name, v.length⟩ (fileStream file)).Streams v :=
  ⟨rfl, (flatten_fileStream hc).trans hv, fun _ h => fileStream_chunk h⟩

theorem uploadFile_wp {storage : Storage} {parent : Option ObjectHandle} {name : String}
    {Q : ObjectHandle → Flushing → E → Prop} (hj : f.Spools v J e) (hc : f.file.cursor = 0)
    (hs : storage ∈ f.link.storages) (hp : ∀ a ∈ parent.toList, K e a)
    (hQ : ∀ h n e', Takes R v storage name h e e' →
      Flushing.Spools v J { f with file := pollStream f.file n } e' → (∀ a, K e a → K e' a) →
      K e' h → Q h { f with file := pollStream f.file n } e') :
    Attempt.wp R G (uploadFile storage parent ⟨name, v.length⟩) Q
      (fun _ f' e' => f'.Spools v J e') f e := by
  have hstreams := streams_fileStream hj.2 hc storage parent name
  unfold uploadFile
  simp only [Attempt.wp_bind, Attempt.wp_get, Attempt.wp_lift, Attempt.wp_modify]
  refine hF.mutation_wp parent.toList rfl (hP _ hstreams) rfl hj.1 hs hp
    fun r e₁ hr h₁ hmono hnew => ?_
  have hpoll : ∀ n, Flushing.Spools v J { f with file := pollStream f.file n } e₁ :=
    fun n => ⟨h₁, (content_pollStream f.file n).trans hj.2⟩
  obtain ⟨err | h, n⟩ := r
  · exact hpoll n
  · exact hQ h n e₁ ⟨parent, _, n, hstreams, hr⟩ (hpoll n) hmono (hnew h List.mem_cons_self)

omit hP in
/-- The link's part is recorded. -/
theorem recordUpload_done {X : Error → Flushing → E → Prop} {storage : Storage} {inode : Nat}
    {h : ObjectHandle} {name : Option String} (hj : J f.link e) (hs : storage ∈ f.link.storages)
    (hk : K e h) (hfile : IsFile f.link inode) (hland : Landed R K v storage h name e) :
    Attempt.wp R G (onLinkM (recordUpload inode h name v.length))
      (fun _ (f' : Flushing) e' => D v inode f'.link e') X f e :=
  wp_onLinkM.mpr (recordUpload_wp hF hj hs hk hfile hland)

theorem flushSafe_wp {inode idx : Nat} {old : ObjectHandle} {parent : Option ObjectHandle}
    {entry : InodeEntry} (hj : f.Spools v J e) (hc : f.file.cursor = 0)
    (hi : idx < f.link.storages.length) (hfile : IsFile f.link inode) (ho : K e old)
    (hp : ∀ a ∈ parent.toList, K e a) :
    Attempt.wp R G (flushSafe inode old idx parent entry v.length)
      (fun _ f' e' => D v inode f'.link e') (fun _ f' e' => f'.Spools v J e') f e := by
  unfold flushSafe
  rw [Attempt.wp_bind, wp_onLinkM]
  refine storageAt_wp (List.getElem?_eq_getElem hi) ?_
  have hs := List.getElem_mem hi
  dsimp only
  rw [Attempt.wp_bind]
  refine uploadFile_wp hF hP hj hc hs hp fun h n e₁ hup h₁ hmono hk => ?_
  rw [Attempt.wp_bind, Attempt.wp_outcome, Attempt.wp_mk]
  refine hF.mutation_wp [old] rfl (hP _ trivial) rfl h₁.1 hs (fun a ha => ?_)
    fun r e₂ hdel h₂ hmono₂ _ => ?_
  · cases List.mem_singleton.mp ha
    exact hmono old ho
  · rcases r with err | _
    · exact recordUpload_done hF h₂ hs (hmono₂ h hk) hfile (.notDeleted hup hdel)
    · dsimp only
      rw [Attempt.wp_bind, Attempt.wp_outcome, Attempt.wp_mk]
      refine hF.mutation_wp [h] rfl (hP _ trivial) rfl h₂ hs (fun a ha => ?_)
        fun r e₃ hren h₃ hmono₃ _ => ?_
      · cases List.mem_singleton.mp ha
        exact hmono₂ h hk
      · have hk₃ := hmono₃ h (hmono₂ h hk)
        rcases r with err | _
        · exact recordUpload_done hF h₃ hs hk₃ hfile (.notRenamed ho hup hdel hren)
        · exact recordUpload_done hF h₃ hs hk₃ hfile (.replaced ho hup hdel hren)

theorem flushUnsafe_wp {inode idx : Nat} {old : ObjectHandle} {parent : Option ObjectHandle}
    {entry : InodeEntry} (hj : f.Spools v J e) (hc : f.file.cursor = 0)
    (hi : idx < f.link.storages.length) (hfile : IsFile f.link inode) (ho : K e old)
    (hp : ∀ a ∈ parent.toList, K e a) :
    Attempt.wp R G (flushUnsafe inode old idx parent entry v.length)
      (fun _ f' e' => D v inode f'.link e') (fun _ f' e' => f'.Spools v J e') f e := by
  unfold flushUnsafe
  rw [Attempt.wp_bind, wp_onLinkM]
  refine storageAt_wp (List.getElem?_eq_getElem hi) ?_
  have hs := List.getElem_mem hi
  rw [Attempt.wp_bind, Attempt.wp_mk]
  refine hF.mutation_wp [old] rfl (hP _ trivial) rfl hj.1 hs (fun a ha => ?_)
    fun r e₁ hdel h₁ hmono _ => ?_
  · cases List.mem_singleton.mp ha
    exact ho
  · rcases r with err | _
    · exact ⟨h₁, hj.2⟩
    · dsimp only
      rw [Attempt.wp_bind]
      refine uploadFile_wp hF hP (f := f) ⟨h₁, hj.2⟩ hc hs (fun a ha => hmono a (hp a ha))
        fun h n e₂ hup h₂ _ hk => ?_
      exact recordUpload_done hF h₂.1 hs hk hfile (.afterDelete hdel hup)

theorem flushOnce_wp {inode : Nat} {entry : InodeEntry} {isRetry : Bool}
    (hj : f.Spools v J e) (hc : f.file.cursor = 0) :
    Attempt.wp R G (flushOnce inode entry v.length isRetry) (fun _ f' e' => D v inode f'.link e')
      (fun _ f' e' => f'.Spools v J e') f e := by
  have hQ := hF.toResolving
  obtain ⟨hj, hv⟩ := hj
  unfold flushOnce
  rw [Attempt.wp_bind, wp_onLinkM]
  refine Attempt.wp_mono (fileHandle_wp hQ inode hj) ?_ fun _ _ _ h' => ⟨h', hv⟩
  rintro old l₁ e₁ ⟨h₁, -, ho, hfile⟩
  rw [Attempt.wp_bind, wp_onLinkM]
  refine storageIndex_wp (fun _ => hQ.hang h₁) (fun idx hidx => ?_) fun _ => ⟨h₁, hv⟩
  have hi := findStorageFrom_lt hidx
  rw [Attempt.wp_bind, wp_onLinkM]
  refine Attempt.wp_mono (parentHandle_wp hQ entry.parent h₁) ?_ fun _ _ _ h' => ⟨h', hv⟩
  rintro parent l₂ e₂ ⟨h₂, hkept, hp, -⟩
  have hi₂ : idx < l₂.storages.length := hkept.storages ▸ hi
  have hfile₂ : IsFile l₂ inode := hkept.isFile hfile
  have ho₂ := hkept.known old ho
  simp only [Attempt.wp_bind, Attempt.wp_get]
  split
  · rw [Attempt.wp_bind]
    split
    · rw [wp_onLinkM]
      refine Attempt.wp_mono (purgeLeftover_wp hF hP parent _ h₂ (List.getElem?_eq_getElem hi₂) hp) ?_
        fun _ _ _ h' => h'
      rintro _ l₃ e₃ ⟨rfl, h₃, hmono⟩
      exact flushSafe_wp hF hP (f := HasLink.setLink _ l₃) ⟨h₃, hv⟩ hc hi₂ hfile₂ (hmono old ho₂)
        fun a ha => hmono a (hp a ha)
    · exact flushSafe_wp hF hP (f := HasLink.setLink _ l₂) ⟨h₂, hv⟩ hc hi₂ hfile₂ ho₂ hp
  · exact flushUnsafe_wp hF hP (f := HasLink.setLink _ l₂) ⟨h₂, hv⟩ hc hi₂ hfile₂ ho₂ hp

omit hF hP in
theorem spooled_wp {σ : Type} {s : σ} {fault : Option IoError} {Q : Unit → σ → E → Prop}
    {X : Error → σ → E → Prop} (hQ : Q () s e) (hX : ∀ err, X err s e) :
    Attempt.wp R G (spooled fault) Q X s e := by
  cases fault with
  | none => exact hQ
  | some err => exact hX _

theorem flushAttempt_wp {inode : Nat} {entry : InodeEntry} (hj : f.Spools v J e) :
    Attempt.wp R G (flushAttempt inode entry v.length) (fun _ f' e' => D v inode f'.link e')
      (fun _ f' e' => f'.Spools v J e') f e := by
  unfold flushAttempt
  obtain ⟨hj, hv⟩ := hj
  rw [Attempt.wp_bind, Attempt.wp_lift]
  refine wp_call.mpr ⟨(hF.aside rfl hj).1, fun fault e₁ hr₁ => ?_⟩
  have h₁ := ((hF.aside rfl hj).2 _ _ hr₁).1
  rw [Attempt.wp_bind]
  refine spooled_wp ?_ fun _ => ⟨h₁, hv⟩
  rw [Attempt.wp_bind, Attempt.wp_lift]
  refine wp_call.mpr ⟨(hF.aside rfl h₁).1, fun fault e₂ hr₂ => ?_⟩
  have h₂ := ((hF.aside rfl h₁).2 _ _ hr₂).1
  rw [Attempt.wp_bind]
  refine spooled_wp ?_ fun _ => ⟨h₂, hv⟩
  simp only [Attempt.wp_bind, Attempt.wp_modify, Attempt.wp_get]
  exact flushOnce_wp hF hP ⟨h₂, hv⟩ rfl

/-! ## The whole flush -/

/-- A buffer that nothing was written to is not flushed. -/
theorem flushBuffer_wp {buf : FileBuffer} (hv : buf.file.content = v) (hj : J l e) :
    Attempt.wp R G (flushBuffer buf)
      (fun _ l' e' => if buf.dirty then D v buf.inode l' e' else l' = l ∧ e' = e)
      (fun _ l' e' => J l' e') l e := by
  unfold flushBuffer
  cases hdirty : buf.dirty with
  | false => exact ⟨rfl, rfl⟩
  | true =>
    simp only [Bool.not_true, Bool.false_eq_true, if_false, if_true]
    rw [Attempt.wp_bind, Attempt.wp_lift]
    refine wp_call.mpr ⟨(hF.aside rfl hj).1, fun fault e₁ hr₁ => ?_⟩
    have h₁ := ((hF.aside rfl hj).2 _ _ hr₁).1
    rw [Attempt.wp_bind]
    refine spooled_wp ?_ fun _ => h₁
    simp only [Attempt.wp_bind, Attempt.wp_get]
    split
    · exact h₁
    · rw [Attempt.wp_mk, Act.wp_focus, Attempt.wp_run]
      have hsize : buf.file.seekEnd.1 = v.length := congrArg List.length hv
      rw [hsize]
      refine Attempt.wp_mono (withRecovery_wp (I := fun f e => f.Spools v J e)
        (fun f => hF.toResolving.and_const (f.file.content = v))
        (fun f e h => flushAttempt_wp hF hP h) ⟨h₁, hv⟩) ?_ ?_
      · exact fun _ f' e' h' => h'
      · exact fun _ f' e' h' => h'.1

omit hF hP in
/-- What a flush keeps in either case. -/
theorem flushBuffer_keeps {K : E → ObjectHandle → Prop} (hF : FlushInvariant R G J K P fun _ _ => J)
    (hP : ∀ c, Call.Streams v c → P c) {buf : FileBuffer} (hv : buf.file.content = v) (hj : J l e) :
    Attempt.wp R G (flushBuffer buf) (fun _ l' e' => J l' e') (fun _ l' e' => J l' e') l e := by
  refine Attempt.wp_mono (flushBuffer_wp hF hP hv hj) ?_ fun _ _ _ h' => h'
  intro _ l' e' h'
  split at h'
  · exact h'
  · rw [h'.1, h'.2]
    exact hj

end Rules

end MtpMount
