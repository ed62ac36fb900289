import MtpMount.Losses
import MtpMount.Renames

/-!
# New objects over a lossy link

`create` and `mkdir` ask the device for a new object, and ask again after a lost
link. The device does not mind a second object of the name.

* `created_once_iff`: a callback that succeeds has made one object if and only if
  no request before the one that was answered had taken effect;
* `created_twice`: a run in which one had.
-/

namespace MtpMount

open Interaction

variable {N : Naming} {stores : List Nat} {fates : Nat → Fate} {s₀ s : Phone} {st : Nat}
  {folder : Option Nat} {name : String} {w w' : Wire} {α : Type}

/-! ## The objects so far -/

/-- One more object is in the folder under the name. -/
def Adds (st : Nat) (folder : Option Nat) (name : String) (s s' : Phone) : Prop :=
  ∃ o content c, s.objects o = none ∧ s' = s.put o ⟨st, folder, name, content⟩ c

theorem Naming.Creates.adds {storage : Storage} {parent : Option ObjectHandle} {content : Option Bytes}
    {c : Call} {a : ObjectHandle} {s' : Phone} (h : N.Creates s storage parent name content c a s')
    (hst : N.store storage.session storage.id = some st)
    (hfolder : ∀ f, N.Folder s storage.session parent f → f = folder) : Adds st folder name s s' := by
  obtain ⟨st', f, o, hst', hf, hnone, -, rfl⟩ := h
  cases hst.symm.trans hst'
  obtain rfl := hfolder f hf
  exact ⟨o, content, c, hnone, rfl⟩

theorem Phone.at_put {o x : Nat} {obj : DeviceObject} {c : Call} :
    (s.put o obj c).At st folder name x ↔
      if x = o then obj.storage = st ∧ obj.parent = folder ∧ obj.name = name
      else s.At st folder name x := by
  by_cases hx : x = o
  · simp [Phone.At, Phone.put, hx]
  · simp [Phone.At, Phone.put, hx]

/-- A new object in the folder under the name. -/
def New (s₀ s : Phone) (st : Nat) (folder : Option Nat) (name : String) (x : Nat) : Prop :=
  s₀.objects x = none ∧ s.At st folder name x

/-- No attempt has succeeded yet. What there is beyond the start are new objects of
the name, of requests whose link was lost after they took effect. -/
structure Growing (s₀ : Phone) (st : Nat) (folder : Option Nat) (name : String)
    (fates : Nat → Fate) (w : Wire) : Prop where
  grown : ∀ x, w.phone.objects x = s₀.objects x ∨ New s₀ w.phone st folder name x
  unanswered : ∀ i < w.sent, fates i ≠ .answered
  lost : (∃ i < w.sent, fates i = .lostAfter) ↔ ∃ x, New s₀ w.phone st folder name x

/-- There is one new object of the name if and only if no request before the one
that was answered had taken effect. -/
def OnceIff (s₀ : Phone) (st : Nat) (folder : Option Nat) (name : String) (fates : Nat → Fate)
    (s : Phone) : Prop :=
  (∃! x, New s₀ s st folder name x) ↔
    ∀ i, (∀ j ≤ i, fates j ≠ .answered) → fates i ≠ .lostAfter

theorem New.put {o x : Nat} {content : Option Bytes} {c : Call}
    (h : New s₀ s st folder name x) :
    New s₀ (s.put o ⟨st, folder, name, content⟩ c) st folder name x := by
  refine ⟨h.1, Phone.at_put.mpr ?_⟩
  split
  · exact ⟨rfl, rfl, rfl⟩
  · exact h.2

/-- No part of a path to the folder leads there before its end. -/
theorem Phone.Finds.not_above {names above : List String} (hf : s₀.Finds st above folder)
    (hfinds : s₀.Finds st names folder) (hsuffix : name :: above <:+ names) : False := by
  have hlen : above.length < names.length := hsuffix.length_le
  cases folder with
  | none =>
    rw [hfinds.eq_none_iff.mp rfl] at hlen
    exact Nat.not_lt_zero _ hlen
  | some x =>
    rw [(hf.path hfinds (Option.some_ne_none x)).2] at hlen
    exact Nat.lt_irrefl _ hlen

/-- New objects are not on a path that does not come by their name in their folder. -/
theorem untouched_of_new (h : ∀ x, s.objects x = s₀.objects x ∨ New s₀ s st folder name x)
    {names : List String} (hno : ∀ above, name :: above <:+ names → ¬ s₀.Finds st above folder) :
    Untouched s₀ s st names := by
  intro above folder' name' y hsuffix hf hat
  rcases h y with hsame | ⟨-, hnew⟩
  · rwa [Phone.At, ← hsame]
  · obtain ⟨obj, hobj, -, rfl, rfl⟩ := hat
    obtain ⟨obj', hobj', -, rfl, rfl⟩ := hnew
    cases hobj.symm.trans hobj'
    exact absurd hf (hno above hsuffix)

namespace Growing

theorem start : Growing s₀ st folder name fates ⟨s₀, 0⟩ where
  grown := fun _ => .inl rfl
  unanswered := fun _ hi => absurd hi (Nat.not_lt_zero _)
  lost := by
    constructor
    · rintro ⟨i, hi, -⟩
      exact absurd hi (Nat.not_lt_zero _)
    · rintro ⟨x, hnone, obj, hobj, -⟩
      cases hnone.symm.trans hobj

/-- A new object lies in the folder itself, so it is not on the way to it. -/
theorem untouched (h : Growing s₀ st folder name fates w) {names : List String}
    (hfinds : s₀.Finds st names folder) : Untouched s₀ w.phone st names :=
  untouched_of_new h.grown fun _ hsuffix hf => hf.not_above hfinds hsuffix

/-- A request that did not take effect. -/
theorem idle (h : Growing s₀ st folder name fates w) (ha : fates w.sent ≠ .answered)
    (hl : fates w.sent ≠ .lostAfter) : Growing s₀ st folder name fates ⟨w.phone, w.sent + 1⟩ where
  grown := h.grown
  unanswered := Nat.forall_lt_succ_right.mpr ⟨h.unanswered, ha⟩
  lost := by
    rw [Nat.exists_lt_succ_right, or_iff_left hl]
    exact h.lost

/-- An object that is made now is new. -/
theorem new_put {o : Nat} (h : Growing s₀ st folder name fates w) (hnone : w.phone.objects o = none)
    (content : Option Bytes) (c : Call) :
    New s₀ (w.phone.put o ⟨st, folder, name, content⟩ c) st folder name o := by
  refine ⟨?_, Phone.at_put.mpr ?_⟩
  · rcases h.grown o with hsame | ⟨hnew, -⟩
    · rw [← hsame, hnone]
    · exact hnew
  · rw [if_pos rfl]
    exact ⟨rfl, rfl, rfl⟩

/-- A request that took effect, and then the link was lost. -/
theorem unheard (h : Growing s₀ st folder name fates w) (hl : fates w.sent = .lostAfter)
    (hadds : Adds st folder name w.phone s) :
    Growing s₀ st folder name fates ⟨s, w.sent + 1⟩ := by
  obtain ⟨o, content, c, hnone, rfl⟩ := hadds
  have hnew := h.new_put hnone content c
  refine ⟨fun x => ?_, Nat.forall_lt_succ_right.mpr ⟨h.unanswered, by rw [hl]; nofun⟩,
    iff_of_true ⟨w.sent, Nat.lt_succ_self _, hl⟩ ⟨o, hnew⟩⟩
  by_cases hx : x = o
  · rw [hx]
    exact .inr hnew
  · rcases h.grown x with hsame | hx'
    · refine .inl ?_
      rw [← hsame]
      exact if_neg hx
    · exact .inr hx'.put

/-- A request that was answered. -/
theorem answered (h : Growing s₀ st folder name fates w) (ha : fates w.sent = .answered)
    (hadds : Adds st folder name w.phone s) : OnceIff s₀ st folder name fates s := by
  obtain ⟨o, content, c, hnone, rfl⟩ := hadds
  have hnew := h.new_put hnone content c
  constructor
  · rintro ⟨x, -, honly⟩ i hi hlost
    have hlt : i < w.sent := by
      by_contra hle
      exact hi w.sent (Nat.le_of_not_lt hle) ha
    obtain ⟨y, hy⟩ := h.lost.mp ⟨i, hlt, hlost⟩
    have hyo : y = o := (honly y hy.put).trans (honly o hnew).symm
    obtain ⟨-, obj, hobj, -⟩ := hy
    rw [hyo, hnone] at hobj
    cases hobj
  · intro hno
    refine ⟨o, hnew, fun y hy => ?_⟩
    by_contra hyo
    have hat := Phone.at_put.mp hy.2
    rw [if_neg hyo] at hat
    obtain ⟨i, hi, hlost⟩ := h.lost.mpr ⟨y, hy.1, hat⟩
    exact hno i (fun j hj => h.unanswered j (Nat.lt_of_le_of_lt hj hi)) hlost

/-- What an error tells of the request. -/
theorem failed {Takes : α → Phone → Prop} {err : Error} (h : Growing s₀ st folder name fates w)
    (hadds : ∀ a s, Takes a s → Adds st folder name w.phone s)
    (hf : Fated fates Takes w (.error err) w') : Growing s₀ st folder name fates w' := by
  cases hf with
  | refused hfate _ => exact h.idle (by rw [hfate]; nofun) (by rw [hfate]; nofun)
  | lostBefore hfate _ => exact h.idle (by rw [hfate]; nofun) (by rw [hfate]; nofun)
  | lostAfter hfate htakes _ => exact h.unheard hfate (hadds _ _ htakes)

/-- What a success tells of it. -/
theorem made {Takes : α → Phone → Prop} {a : α} (h : Growing s₀ st folder name fates w)
    (hadds : ∀ a s, Takes a s → Adds st folder name w.phone s)
    (hf : Fated fates Takes w (.ok a) w') : OnceIff s₀ st folder name fates w'.phone := by
  cases hf with
  | answered hfate htakes => exact h.answered hfate (hadds _ _ htakes)

end Growing

/-! ## The callbacks -/

section Callbacks

variable {l₀ l : Link} {parent : Nat} {names : List String}
  (h : Reached N stores l₀ s₀ parent st names folder)

include h

/-- The attempts to make an object. -/
theorem creates_wp {request : Option ObjectHandle → Storage → MtpM ObjectHandle}
    (hrequest : ∀ (p : Option ObjectHandle) (storage : Storage) (l : Link) (w : Wire),
      Growing s₀ st folder name fates w → N.store storage.session storage.id = some st →
      (∀ f, N.Folder w.phone storage.session p f → f = folder) →
      Attempt.wp (N.Loses stores fates) (fun _ _ => True) (request p storage)
        (fun _ _ w' => OnceIff s₀ st folder name fates w'.phone)
        (fun _ l' w' => l' = l ∧ Growing s₀ st folder name fates w') l w)
    (ht : Reached.Trying N stores l₀ s₀ (OnChain l₀.inodes parent) (Growing s₀ st folder name fates) l w) :
    Attempt.wp (N.Loses stores fates) (fun _ _ => True)
      (withRecovery do
        let mtpParent ← parentHandle parent
        let storage ← storageOf parent
        request mtpParent storage)
      (fun _ _ w' => OnceIff s₀ st folder name fates w'.phone) (fun _ _ _ => True) l w := by
  refine Attempt.wp_mono (withRecovery_onCourse N.comesBack_loses h.nodup h.distinct ?_ ht)
    (fun _ _ _ h' => h') fun _ _ _ _ => trivial
  intro l w ht
  have hgrowing : Growing s₀ st folder name fates w := (ht.2.resolve_right id).1
  rw [Attempt.wp_bind]
  refine Attempt.wp_mono (h.parentHandle_wp N.tellsTruth_loses (fun _ => trivial) (fun _ hj => hj) ht
    (hgrowing.untouched h.finds)) ?_ ?_
  · rintro p l' w' ⟨rfl, ht', -, hfolder⟩
    obtain ⟨hs', ⟨-, hD'⟩ | hno⟩ := ht'
    · rw [Attempt.wp_bind]
      refine hs'.storageOf_wp h.synced.rooted h.distinct h.path trivial fun storage hses hst => ?_
      rw [← hses] at hst hfolder
      refine Attempt.wp_mono (hrequest p storage l' w' hgrowing hst (hfolder _)) (fun _ _ _ h' => h') ?_
      rintro err l'' w'' ⟨rfl, hgrowing'⟩
      exact ⟨hs', .inl ⟨hgrowing', hD'⟩⟩
    · exact hno.elim
  · rintro err l' w' ⟨rfl, ht', -⟩
    exact ht'

theorem createObject_makes
    (ht : Reached.Trying N stores l₀ s₀ (OnChain l₀.inodes parent) (Growing s₀ st folder name fates) l w) :
    Attempt.wp (N.Loses stores fates) (fun _ _ => True) (createObject parent name)
      (fun _ _ w' => OnceIff s₀ st folder name fates w'.phone) (fun _ _ _ => True) l w := by
  refine creates_wp h (fun p storage l w hgrowing hst hfolder => ?_) ht
  rw [Attempt.wp_bind, Attempt.wp_lift]
  refine wp_call.mpr ⟨trivial, ?_⟩
  rintro ⟨err | a, polled⟩ w' hf
  · exact ⟨rfl, hgrowing.failed (fun _ _ hc => hc.adds hst hfolder) hf⟩
  · exact hgrowing.made (fun _ _ hc => hc.adds hst hfolder) hf

theorem createFolder_makes
    (ht : Reached.Trying N stores l₀ s₀ (OnChain l₀.inodes parent) (Growing s₀ st folder name fates) l w) :
    Attempt.wp (N.Loses stores fates) (fun _ _ => True) (createFolder parent name)
      (fun _ _ w' => OnceIff s₀ st folder name fates w'.phone) (fun _ _ _ => True) l w := by
  refine creates_wp h (fun p storage l w hgrowing hst hfolder => ?_) ht
  rw [Attempt.wp_mk]
  refine wp_call.mpr ⟨trivial, ?_⟩
  rintro (err | a) w' hf
  · exact ⟨rfl, hgrowing.failed (fun _ _ hc => hc.adds hst hfolder) hf⟩
  · exact hgrowing.made (fun _ _ hc => hc.adds hst hfolder) hf

omit h in
/-- The entry of a new object. -/
theorem addObject_added {fs : MtpFs} {a : ObjectHandle} {isDir : Bool} :
    Attempt.wp (N.Loses stores fates) (fun _ _ => True) (addObject parent a name isDir)
      (fun ino fs' w' => w' = w ∧ ∃ entry, fs'.link.inodes.get ino = some entry)
      (fun _ _ _ => True) fs w := by
  unfold addObject
  rw [Attempt.wp_bind]
  refine tell_wp.mpr ⟨trivial, fun now w₁ hr => ⟨hr, ?_⟩⟩
  obtain ⟨entry, hentry, -⟩ := InodeTable.live_addObject fs.link.inodes parent a name isDir 0 now
  exact ⟨entry, hentry⟩

omit h in
/-- Its write buffer. -/
theorem openWriteBuf_opened {fs : MtpFs} {fh ino size : Nat} :
    Attempt.wp (N.Loses stores fates) (fun _ _ => True) (openWriteBuf fh ino size)
      (fun _ fs' w' => w' = w ∧ fs'.link = fs.link) (fun _ _ _ => True) fs w := by
  unfold openWriteBuf
  rw [Attempt.wp_bind]
  refine tell_wp.mpr ⟨trivial, fun fault w₁ hr => ?_⟩
  rw [Attempt.wp_bind, onWriteBuf_wp]
  split
  · exact ⟨hr, rfl⟩
  · trivial

theorem create_makes {fs : MtpFs} (hl : fs.link = l₀) :
    Attempt.wp (N.Loses stores fates) (fun _ _ => True) (create parent (some name))
      (fun _ _ w' => OnceIff s₀ st folder name fates w'.phone) (fun _ _ _ => True) fs ⟨s₀, 0⟩ := by
  unfold create guardDir
  simp only [Attempt.wp_bind, guardWritable_wp]
  refine ⟨fun _ => trivial, fun _ => nameOr_wp (fun n hn => ?_) trivial⟩
  cases hn
  simp only [Attempt.wp_get, refuseIf_wp, orIoError_wp]
  refine ⟨fun _ => trivial, fun _ => ?_⟩
  have ht := h.start (N := N) (J := Growing s₀ st folder name fates) .start
  rw [← hl] at h ht
  refine Attempt.wp_mono (createObject_makes h ht) ?_ fun _ _ _ _ => trivial
  -- from here on nothing is asked of the device
  intro handle l w honce
  refine Attempt.wp_mono addObject_added ?_ fun _ _ _ _ => trivial
  rintro ino fs₁ w₁ ⟨rfl, hentry⟩
  simp only [onFiles_wp]
  refine Attempt.wp_mono openWriteBuf_opened ?_ fun _ _ _ _ => trivial
  rintro _ fs₂ w₂ ⟨rfl, hlink⟩
  refine entryAt_wp ?_ fun _ => honce
  rw [hlink]
  exact hentry

theorem mkdir_makes {fs : MtpFs} (hl : fs.link = l₀) :
    Attempt.wp (N.Loses stores fates) (fun _ _ => True) (mkdir parent (some name))
      (fun _ _ w' => OnceIff s₀ st folder name fates w'.phone) (fun _ _ _ => True) fs ⟨s₀, 0⟩ := by
  unfold mkdir guardDir
  simp only [Attempt.wp_bind, guardWritable_wp]
  refine ⟨fun _ => trivial, fun _ => nameOr_wp (fun n hn => ?_) trivial⟩
  cases hn
  simp only [Attempt.wp_get, refuseIf_wp, orIoError_wp]
  refine ⟨fun _ => trivial, fun _ => ?_⟩
  have ht := h.start (N := N) (J := Growing s₀ st folder name fates) .start
  rw [← hl] at h ht
  refine Attempt.wp_mono (createFolder_makes h ht) ?_ fun _ _ _ _ => trivial
  intro handle l w honce
  refine Attempt.wp_mono addObject_added ?_ fun _ _ _ _ => trivial
  rintro ino fs₁ w₁ ⟨rfl, hentry⟩
  exact entryAt_wp hentry fun _ => honce

end Callbacks

/-! ## That phone at the end of a lossy link -/

/-- What the card's phone ever has for an object: what was there, and what up to
three requests make. -/
def cardObjects : List Nat := [70, 80, 90, 100, 101, 102]

/-- The listing of the root of one of its storages. -/
def cardListing (s : Phone) (st : Nat) : List ObjectInfo :=
  cardObjects.filterMap fun o => (s.objects o).bind fun obj =>
    if obj.storage = st ∧ obj.parent = none then
      some ⟨⟨o⟩, obj.name, obj.content.isNone, (obj.content.map List.length).getD 0, none⟩
    else none

def cardInfos : List StorageInfo := [⟨⟨1⟩, "Internal", 100, 50⟩, ⟨⟨2⟩, "Card", 100, 50⟩]

/-- The answer to a request that would take effect like this. -/
def fatedAnswer {α : Type} (fates : Nat → Fate) (w : Wire) (takes : Option (α × Phone)) :
    Option (Except Error α × Wire) :=
  match fates w.sent with
  | .answered => takes.map fun r => (.ok r.1, ⟨r.2, w.sent + 1⟩)
  | .refused => some (.error (.other "refused"), ⟨w.phone, w.sent + 1⟩)
  | .lostBefore => some (.error .disconnected, ⟨w.phone, w.sent + 1⟩)
  | .lostAfter => takes.map fun r => (.error .disconnected, ⟨r.2, w.sent + 1⟩)

/-- A device that lists and changes the roots of its storages, and comes back
when it is asked to. -/
def lossyAnswers (fates : Nat → Fate) (w : Wire) : (c : Call) → Option (Answer c × Wire)
  | .isUnplugged => some (false, w)
  | .sleep _ => some ((), w)
  | .openDevice => some (.ok ⟨0, true, true⟩, w)
  | .storages _ => some (.ok cardInfos, w)
  | .invalidated => some ((), w)
  | .spawnEventLoop .. => some ((), w)
  | .now => some (0, w)
  | .createTemp => some (none, w)
  | .listObjects storage none => some (.ok (cardListing w.phone storage.id.value), w)
  | .upload storage none info stream =>
    if w.sent < 3 ∧ (w.phone.objects (100 + w.sent)).isNone then
      (fatedAnswer fates w (some ((⟨100 + w.sent⟩ : ObjectHandle), w.phone.put (100 + w.sent)
        ⟨storage.id.value, none, info.filename, some stream.flatten⟩
        (.upload storage none info stream)))).map fun r => ((r.1, 0), r.2)
    else none
  | .delete storage handle =>
    if handle ≠ .ROOT ∧ (w.phone.objects handle.value).isSome then
      fatedAnswer fates w (some ((), w.phone.drop handle.value (.delete storage handle)))
    else none
  | _ => none

/-- The phone has no other objects than those. -/
def CardOnly (w : Wire) : Prop := ∀ o, (w.phone.objects o).isSome = true → o ∈ cardObjects

theorem cardOnly_start : CardOnly ⟨cardPhone, 0⟩ := by
  intro o ho
  simp only [cardPhone] at ho
  repeat' split at ho
  · rename_i h
    simp [cardObjects, h]
  · rename_i h
    simp [cardObjects, h]
  · rename_i h
    simp [cardObjects, h]
  · cases ho

theorem fatedAnswer_fated (Takes : α → Phone → Prop) {takes : α × Phone} {r : Except Error α}
    (htakes : Takes takes.1 takes.2) (h : fatedAnswer fates w (some takes) = some (r, w')) :
    Fated fates Takes w r w' ∧ (w'.phone = w.phone ∨ w'.phone = takes.2) := by
  unfold fatedAnswer at h
  split at h
  · cases h
    exact ⟨.answered ‹_› htakes, .inr rfl⟩
  · cases h
    exact ⟨.refused ‹_› rfl, .inl rfl⟩
  · cases h
    exact ⟨.lostBefore ‹_› rfl, .inl rfl⟩
  · cases h
    exact ⟨.lostAfter ‹_› htakes rfl, .inr rfl⟩

theorem cardNames_object {session o : Nat} (ho : o ∈ cardObjects) :
    cardNames.object session ⟨o⟩ = some o := by
  have hne : (⟨o⟩ : ObjectHandle) ≠ .ROOT := by
    rintro h
    have ho' : o = 0 := congrArg ObjectHandle.value h
    rw [ho'] at ho
    exact absurd ho (by decide)
  exact if_neg hne

theorem cardListing_reports (hc : CardOnly w) (storage : Storage) :
    cardNames.Reports w.phone storage none (cardListing w.phone storage.id.value) := by
  refine ⟨storage.id.value, none, rfl, .inl ⟨rfl, rfl⟩, ?_, ?_⟩
  · intro info hinfo
    obtain ⟨o, ho, hinfo⟩ := List.mem_filterMap.mp hinfo
    obtain ⟨obj, hobj, hinfo⟩ := Option.bind_eq_some_iff.mp hinfo
    split at hinfo
    · rename_i hplace
      cases hinfo
      exact ⟨o, cardNames_object ho, ⟨obj, hobj, hplace.1, hplace.2, rfl⟩, obj, hobj, rfl⟩
    · cases hinfo
  · rintro name o ⟨obj, hobj, hst, hparent, rfl⟩
    have ho : o ∈ cardObjects := hc o (by rw [hobj]; rfl)
    refine ⟨⟨⟨o⟩, obj.name, obj.content.isNone, (obj.content.map List.length).getD 0, none⟩,
      List.mem_filterMap.mpr ⟨o, ho, ?_⟩, rfl, cardNames_object ho⟩
    rw [hobj, Option.bind_some, if_pos ⟨hst, hparent⟩]

theorem cardInfos_tell (session : Nat) : cardNames.Tells [1, 2] session cardInfos := by
  refine ⟨fun info hinfo => ?_, fun st hst => ?_⟩
  · simp only [cardInfos, List.mem_cons, List.not_mem_nil, or_false] at hinfo
    rcases hinfo with rfl | rfl
    · exact ⟨1, by simp, rfl, rfl⟩
    · exact ⟨2, by simp, rfl, rfl⟩
  · simp only [List.mem_cons, List.not_mem_nil, or_false] at hst
    rcases hst with rfl | rfl
    · exact ⟨_, List.mem_cons_self, rfl⟩
    · exact ⟨_, List.mem_cons_of_mem _ List.mem_cons_self, rfl⟩

theorem CardOnly.put {o : Nat} {obj : DeviceObject} {c : Call} (h : CardOnly ⟨s, 0⟩)
    (ho : o ∈ cardObjects) : CardOnly ⟨s.put o obj c, 0⟩ := by
  intro x hx
  by_cases heq : x = o
  · rw [heq]
    exact ho
  · have hsame : (s.put o obj c).objects x = s.objects x := if_neg heq
    rw [hsame] at hx
    exact h x hx

theorem CardOnly.drop {c : Call} (h : CardOnly ⟨s, 0⟩) : CardOnly ⟨s.drop o c, 0⟩ := by
  intro x hx
  by_cases heq : x = o
  · rw [show (s.drop o c).objects x = none from if_pos heq] at hx
    cases hx
  · rw [show (s.drop o c).objects x = s.objects x from if_neg heq] at hx
    exact h x hx

/-- A request that took effect, or did not. -/
theorem CardOnly.of_phone (hc : CardOnly w) (hc' : CardOnly ⟨s, 0⟩)
    (h : w'.phone = w.phone ∨ w'.phone = s) : CardOnly w' := by
  intro o ho
  rcases h with h | h
  · exact hc o (h ▸ ho)
  · exact hc' o (h ▸ ho)

/-! What the scripts answer, with the phone they have. -/

theorem cardInfos_answered {session : Nat} {infos : List StorageInfo}
    (h : (.ok cardInfos : Except Error (List StorageInfo)) = .ok infos) :
    cardNames.Tells [1, 2] session infos := by
  cases h
  exact cardInfos_tell session

theorem CardOnly.listing_answered {storage : Storage} {objects : List ObjectInfo} (hc : CardOnly w)
    (h : (.ok (cardListing w.phone storage.id.value) : Except Error (List ObjectInfo)) =
      .ok objects) : cardNames.Reports w.phone storage none objects := by
  cases h
  exact cardListing_reports hc storage

/-- A new object in the root of a storage. -/
theorem CardOnly.creates {storage : Storage} {o : Nat} {n : String} {content : Option Bytes}
    {c : Call} (hc : CardOnly ⟨s, 0⟩) (ho : o ∈ cardObjects) (hfree : (s.objects o).isNone = true) :
    cardNames.Creates s storage none n content c ⟨o⟩
        (s.put o ⟨storage.id.value, none, n, content⟩ c) ∧
      CardOnly ⟨s.put o ⟨storage.id.value, none, n, content⟩ c, 0⟩ :=
  ⟨⟨storage.id.value, none, o, rfl, .inl ⟨rfl, rfl⟩, Option.isNone_iff_eq_none.mp hfree,
    cardNames_object ho, rfl⟩, hc.put ho⟩

theorem CardOnly.deletes {storage : Storage} {handle : ObjectHandle} (hc : CardOnly ⟨s, 0⟩)
    (h : handle ≠ .ROOT ∧ (s.objects handle.value).isSome = true) :
    cardNames.Deletes s storage handle () (s.drop handle.value (.delete storage handle)) ∧
      CardOnly ⟨s.drop handle.value (.delete storage handle), 0⟩ :=
  ⟨⟨handle.value, if_neg h.1, h.2, rfl⟩, hc.drop⟩

theorem lossyAnswers_loses {c : Call} {a : Answer c} (hc : CardOnly w)
    (h : lossyAnswers fates w c = some (a, w')) :
    cardNames.Loses [1, 2] fates w c a w' ∧ CardOnly w' := by
  cases c with
  | isUnplugged | sleep _ | openDevice | invalidated | spawnEventLoop _ _ | now | createTemp =>
    cases h
    exact ⟨rfl, hc⟩
  | storages device =>
    cases h
    exact ⟨⟨rfl, fun _ => cardInfos_answered⟩, hc⟩
  | listObjects storage parent =>
    cases parent with
    | none =>
      cases h
      exact ⟨⟨rfl, fun _ => hc.listing_answered⟩, hc⟩
    | some a => cases h
  | upload storage parent info stream =>
    cases parent with
    | none =>
      simp only [lossyAnswers] at h
      split at h
      · rename_i hfree
        obtain ⟨⟨r, w₁⟩, hr, hra⟩ := Option.map_eq_some_iff.mp h
        cases hra
        have hmem : 100 + w.sent ∈ cardObjects := by
          have hlt := hfree.1
          simp only [cardObjects, List.mem_cons, List.not_mem_nil, or_false]
          omega
        obtain ⟨hcreates, hc'⟩ := CardOnly.creates hc hmem hfree.2
        obtain ⟨hf, hphone⟩ := fatedAnswer_fated (cardNames.Creates w.phone storage none
          info.filename (some stream.flatten) (.upload storage none info stream)) hcreates hr
        exact ⟨hf, hc.of_phone hc' hphone⟩
      · cases h
    | some a => cases h
  | delete storage handle =>
    simp only [lossyAnswers] at h
    split at h
    · rename_i hthere
      obtain ⟨hdeletes, hc'⟩ := CardOnly.deletes hc hthere
      obtain ⟨hf, hphone⟩ := fatedAnswer_fated (cardNames.Deletes w.phone storage handle) hdeletes h
      exact ⟨hf, hc.of_phone hc' hphone⟩
    · cases h
  | _ => cases h

/-- A callback on that mount, with what its end was tested for. -/
theorem lossyRun_of_test (fates : Nat → Fate) (c : Callback)
    (test : (Reply × MtpFs) × Wire → Bool)
    (ht : ((dispatch c cardMount).runWith (lossyAnswers fates) ⟨cardPhone, 0⟩).any test = true) :
    ∃ reply fs w, Prog.Ends (cardNames.Loses [1, 2] fates) (dispatch c cardMount) ⟨cardPhone, 0⟩
      (reply, fs) w ∧ test ((reply, fs), w) = true := by
  obtain ⟨⟨⟨reply, fs⟩, w⟩, hrun, htest⟩ := (Option.any_eq_true _ _).mp ht
  refine ⟨reply, fs, w, Prog.runWith_ends_of (I := CardOnly) ?_ cardOnly_start hrun, htest⟩
  exact fun _ _ _ _ hc h => lossyAnswers_loses hc h

/-- The internal storage of that mount, as the folder of a new object. -/
theorem reached_internal :
    Reached cardNames [1, 2] cardMount.link cardPhone 2 1 [] none where
  consistent := consistent_cardMount
  synced := synced_cardMount
  distinct := distinct_cardNames
  path := ⟨[], 2, climbs_cardMount.1, stands_cardMount.1.isStorageOf synced_cardMount.bound, rfl⟩
  finds := .root
  only := fun _ h => h.eq_none_iff.mpr rfl
  denotes := by
    intro j entry a hj he _ ha
    obtain rfl := onChain_cardMount (.inl rfl) hj
    cases he.symm.trans cardMount_get.1
    cases ha

/-! ## Once -/

/-- A `create` or `mkdir` that succeeds has left one new object of the name in the
folder if and only if no request before the first one that was answered took effect. -/
theorem created_once_iff {fs fs' : MtpFs} {parent : Nat} {names : List String} {c : Callback}
    {reply : Reply} (h : Reached N stores fs.link s₀ parent st names folder)
    (hc : c = .create parent (some name) ∨ c = .mkdir parent (some name))
    (hends : Prog.Ends (N.Loses stores fates) (dispatch c fs) ⟨s₀, 0⟩ (reply, fs') w')
    (hok : ∀ err, reply ≠ .error err) :
    (∃! x, s₀.objects x = none ∧ w'.phone.At st folder name x) ↔
      ∀ i, (∀ j ≤ i, fates j ≠ .answered) → fates i ≠ .lostAfter := by
  have hwp : Act.wp (N.Loses stores fates) (fun _ _ => True) (dispatch c)
      (fun reply _ w' => (∀ err, reply ≠ .error err) → OnceIff s₀ st folder name fates w'.phone) fs
      ⟨s₀, 0⟩ := by
    refine dispatch_wp.mpr ?_
    rcases hc with rfl | rfl
    · exact Attempt.wp_mono (create_makes h rfl) (fun _ _ _ h' _ => h') fun err _ _ _ hno =>
        absurd rfl (hno err)
    · exact Attempt.wp_mono (mkdir_makes h rfl) (fun _ _ _ h' _ => h') fun err _ _ _ hno =>
        absurd rfl (hno err)
  exact Act.wp_ends hwp hends hok

/-- The first request is lost on its way to the device. -/
theorem created_once_lost : ∃ reply fs w, Prog.Ends (cardNames.Loses [1, 2] fun i =>
    if i = 0 then .lostBefore else .answered) (dispatch (.create 2 (some "n")) cardMount)
      ⟨cardPhone, 0⟩ (reply, fs) w ∧
    ∃! x, cardPhone.objects x = none ∧ w.phone.At 1 none "n" x := by
  obtain ⟨reply, fs, w, hends, htest⟩ := lossyRun_of_test
    (fun i => if i = 0 then .lostBefore else .answered) (.create 2 (some "n"))
    (fun r => !r.1.1.isError) (by rfl)
  refine ⟨reply, fs, w, hends, (created_once_iff reached_internal (.inl rfl) hends ?_).mpr ?_⟩
  · rintro err rfl
    cases htest
  · intro i hi
    split
    · exact Fate.noConfusion
    · exact Fate.noConfusion

/-- The first request takes effect, and its answer is lost: the file is there twice. -/
theorem created_twice : ¬ ∀ (N : Naming) (stores : List Nat) (fates : Nat → Fate) (s₀ : Phone)
    (fs fs' : MtpFs) (parent st : Nat) (names : List String) (folder : Option Nat) (name : String)
    (reply : Reply) (w : Wire), Reached N stores fs.link s₀ parent st names folder →
      Prog.Ends (N.Loses stores fates) (dispatch (.create parent (some name)) fs) ⟨s₀, 0⟩
        (reply, fs') w → (∀ err, reply ≠ .error err) →
      ∃! x, s₀.objects x = none ∧ w.phone.At st folder name x := by
  intro hclaim
  obtain ⟨reply, fs, w, hends, htest⟩ := lossyRun_of_test
    (fun i => if i = 0 then .lostAfter else .answered) (.create 2 (some "n"))
    (fun r => !r.1.1.isError && [100, 101].all fun o =>
      (r.2.phone.objects o).any fun obj => obj.storage == 1 && obj.parent == none && obj.name == "n")
    (by rfl)
  rw [Bool.and_eq_true, List.all_eq_true] at htest
  obtain ⟨hok, hthere⟩ := htest
  have hnew : ∀ o ∈ [100, 101], cardPhone.objects o = none ∧ w.phone.At 1 none "n" o := by
    intro o ho
    obtain ⟨obj, hobj, hplace⟩ := (Option.any_eq_true _ _).mp (hthere o ho)
    simp only [Bool.and_eq_true, beq_iff_eq] at hplace
    refine ⟨?_, obj, hobj, hplace.1.1, hplace.1.2, hplace.2⟩
    simp only [List.mem_cons, List.not_mem_nil, or_false] at ho
    rcases ho with rfl | rfl
    · rfl
    · rfl
  obtain ⟨x, -, honly⟩ := hclaim _ _ _ _ _ _ _ _ _ _ _ _ _ reached_internal hends (by
    rintro err rfl
    cases hok)
  have h₁ := honly 100 (hnew 100 List.mem_cons_self)
  have h₂ := honly 101 (hnew 101 (List.mem_cons_of_mem _ List.mem_cons_self))
  exact absurd (h₁.trans h₂.symm) (by decide)

end MtpMount
