import MtpMount.Overwrites

/-!
# Uploads that are cut

A device that cannot rename gets the new object under the name of the old one, which is
deleted first. After a lost link the flush begins again, with whatever has the name then.

* `Naming.Severs`: such a device, where nothing fails but the link;
* `Replacing.flushOnce_replaces`: one attempt, from a place that something has the name in;
* `flush_uncut_iff`: the flush succeeds if and only if no loss of the link has left the
  folder without the name;
* `flush_cut_short`: a run in which one has.
-/

namespace MtpMount

open Interaction

variable {N : Naming} {stores : List Nat} {s₀ s s' : Phone} {st i : Nat} {folder : Option Nat}
  {name : String} {names : List String} {v : Bytes}

/-! ## The device -/

/-- The device, and what was on it each time the mount took it over again. -/
structure Cable where
  phone : Phone
  returns : List Phone

/-- The device cannot rename, and nothing fails but the link. What is sent when it is lost
may have taken effect, and an upload may have left a part of its object. -/
def Naming.Severs (N : Naming) (stores : List Nat) (w : Cable) (c : Call) (a : Answer c) (w' : Cable) :
    Prop :=
  match c, a with
  | .openDevice, answer => w' = w ∧ ∀ device, answer = .ok device → device.supportsRename = false
  | .storages device, answer =>
    w' = w ∧ ∀ infos, answer = .ok infos → N.Tells stores device.session infos
  | .spawnEventLoop .., _ => w' = ⟨w.phone, w.returns ++ [w.phone]⟩
  | .listObjects storage parent, answer =>
    w' = w ∧ (∀ err, answer = .error err → isLinkLost err = true) ∧
      ∀ objects, answer = .ok objects → N.Reports w.phone storage parent objects
  | .upload storage parent info stream, answer =>
    w'.returns = w.returns ∧ (∀ err, answer.1 = .error err → isLinkLost err = true) ∧
      Uncertain (N.Creates w.phone storage parent info.filename (some stream.flatten)
          (.upload storage parent info stream))
        (fun s' => ∃ content handle, N.Creates w.phone storage parent info.filename (some content)
          (.upload storage parent info stream) handle s') w.phone answer.1 w'.phone
  | .delete storage handle, answer =>
    w'.returns = w.returns ∧ (∀ err, answer = .error err → isLinkLost err = true) ∧
      Uncertain (N.Deletes w.phone storage handle) (N.Deletes w.phone storage handle ()) w.phone answer
        w'.phone
  | .seekTemp, answer => w' = w ∧ answer = none
  | .cloneTemp, answer => w' = w ∧ answer = none
  | .rename .., _ | .createFolder .., _ | .moveObject .., _ => True
  | _, _ => w' = w

theorem Naming.tellsTruth_severs : TellsTruth N Cable.phone (N.Severs stores) where
  still := fun hr => hr.1
  reports := fun hr => hr.2.2 _ rfl

/-! ## The folder -/

/-- What it is, if it is there, lies in the folder under the name. -/
def Phone.Under (s : Phone) (st : Nat) (folder : Option Nat) (name : String) (x : Nat) : Prop :=
  ∀ obj, s.objects x = some obj → obj.storage = st ∧ obj.parent = folder ∧ obj.name = name

/-- Nothing is different but what lies in the folder under the name. -/
def Phone.Beside (s₀ s : Phone) (st : Nat) (folder : Option Nat) (name : String) : Prop :=
  ∀ x, s.objects x = s₀.objects x ∨ s₀.Under st folder name x ∧ s.Under st folder name x

/-- Each time the device came back, something had the name. -/
def Cable.Kept (st : Nat) (folder : Option Nat) (name : String) (w : Cable) : Prop :=
  ∀ s ∈ w.returns, ∃ x, s.At st folder name x

namespace Phone

variable {x : Nat}

theorem Under.of_none (h : s.objects x = none) : s.Under st folder name x := by
  intro obj hobj
  cases h.symm.trans hobj

theorem Under.of_same (h : s.Under st folder name x) (hsame : s'.objects x = s.objects x) :
    s'.Under st folder name x := fun obj hobj => h obj (hsame.symm.trans hobj)

namespace Beside

theorem refl (s : Phone) : Beside s s st folder name := fun _ => .inl rfl

theorem under (h : Beside s₀ s st folder name) (hx : s.Under st folder name x) :
    s₀.Under st folder name x := by
  rcases h x with hsame | ⟨h₀, -⟩
  · intro obj hobj
    exact hx obj (hsame.trans hobj)
  · exact h₀

theorem put (h : Beside s₀ s st folder name) (hnone : s.objects x = none) (content : Option Bytes)
    (c : Call) : Beside s₀ (s.put x ⟨st, folder, name, content⟩ c) st folder name := by
  intro y
  by_cases hy : y = x
  · rw [hy]
    refine .inr ⟨h.under (.of_none hnone), fun obj hobj => ?_⟩
    cases (show (s.put x ⟨st, folder, name, content⟩ c).objects x = _ from if_pos rfl).symm.trans hobj
    exact ⟨rfl, rfl, rfl⟩
  · have hsame : (s.put x ⟨st, folder, name, content⟩ c).objects y = s.objects y := if_neg hy
    exact (h y).imp hsame.trans fun hu => ⟨hu.1, hu.2.of_same hsame⟩

theorem drop (h : Beside s₀ s st folder name) (hat : s.At st folder name x) (c : Call) :
    Beside s₀ (s.drop x c) st folder name := by
  intro y
  by_cases hy : y = x
  · rw [hy]
    refine .inr ⟨h.under fun obj hobj => ?_, .of_none (if_pos rfl)⟩
    obtain ⟨obj', hobj', hplace⟩ := hat
    cases hobj.symm.trans hobj'
    exact hplace
  · have hsame : (s.drop x c).objects y = s.objects y := if_neg hy
    exact (h y).imp hsame.trans fun hu => ⟨hu.1, hu.2.of_same hsame⟩

/-- Elsewhere there is what there was. -/
theorem at_iff {st' : Nat} {folder' : Option Nat} {name' : String} (h : Beside s₀ s st folder name)
    (hne : ¬ (folder' = folder ∧ name' = name)) :
    s.At st' folder' name' x ↔ s₀.At st' folder' name' x := by
  rcases h x with hsame | ⟨h₀, h₁⟩
  · rw [At, At, hsame]
  · constructor
    · rintro ⟨obj, hobj, -, rfl, rfl⟩
      exact absurd (h₁ obj hobj).2 hne
    · rintro ⟨obj, hobj, -, rfl, rfl⟩
      exact absurd (h₀ obj hobj).2 hne

/-- The way to the folder is as it was. -/
theorem findsOnly {above : List String} {r : Option Nat} (h : Beside s₀ s st folder name)
    (hfolder : s₀.Finds st names folder) (hsuffix : above <:+ names) (hf : s₀.FindsOnly st above r) :
    s.FindsOnly st above r := by
  induction hf with
  | root => exact .root
  | @child above folder' name' x hf hat honly ih =>
    have hne : ¬ (folder' = folder ∧ name' = name) := by
      rintro ⟨rfl, -⟩
      exact hf.finds.not_above hfolder hsuffix
    exact .child (ih ((List.suffix_cons _ _).trans hsuffix)) ((h.at_iff hne).mpr hat)
      fun y hy => honly y ((h.at_iff hne).mp hy)

end Beside

/-- Along the way to a folder, nothing is missing. -/
theorem FindsOnly.way {above : List String} {r folder' : Option Nat} (h : s.FindsOnly st names r)
    (hsuffix : name :: above <:+ names) (hf : s.Finds st above folder') :
    ∃ y, s.At st folder' name y := by
  obtain ⟨below, rfl⟩ := hsuffix
  obtain ⟨r', h'⟩ := h.suffix
  obtain ⟨folder, o, -, hfolder, hat, -⟩ := h'.last
  rw [hfolder.unique hf]
  exact ⟨o, hat⟩

end Phone

/-! ## One attempt -/

/-- An upload is one of all the bytes, under the name, and no loss of the link has left the
folder without it. -/
def Cable.Resends (st : Nat) (folder : Option Nat) (name : String) (v : Bytes) (w : Cable) : Call → Prop
  | .upload storage parent info stream => w.Kept st folder name ∧ info.filename = name ∧
      (Call.upload storage parent info stream).Streams v
  | _ => True

/-- The mount and the device as a flush finds them: a file in a folder that one path leads to. -/
structure Replacing (N : Naming) (stores : List Nat) (l₀ : Link) (s₀ : Phone) (i st : Nat)
    (entry : InodeEntry) (names : List String) (folder : Option Nat) : Prop where
  consistent : l₀.inodes.Consistent
  synced : Synced N stores l₀.inodes l₀
  distinct : N.Distinct stores
  live : l₀.inodes.get i = some entry
  file : ∃ a, entry.kind = .file a
  dir : ∃ e, l₀.inodes.get entry.parent = some e ∧ e.isDir = true ∧ e.kind ≠ .root
  path : PathOf N stores l₀.inodes entry.parent st names
  only : s₀.FindsOnly st names folder
  there : ∃ x, s₀.At st folder entry.name x
  denotes : ∀ j e a, OnChain l₀.inodes i j → l₀.inodes.get j = some e →
    l₀.inodes.isFresh j = true → e.kind.handle? = some a → Denoting N l₀ s₀ j a

/-- Before an attempt, with so many rounds to go. -/
structure Standing (s₀ : Phone) (st : Nat) (folder : Option Nat) (name : String) (n : Nat)
    (w : Cable) : Prop where
  beside : s₀.Beside w.phone st folder name
  kept : w.Kept st folder name ↔ ∃ x, w.phone.At st folder name x
  rounds : w.returns.length + n = MAX_ATTEMPTS

/-- After one that failed. -/
structure Broken (s₀ : Phone) (st : Nat) (folder : Option Nat) (name : String) (n : Nat)
    (err : Error) (w : Cable) : Prop where
  beside : s₀.Beside w.phone st folder name
  rounds : w.returns.length + (n + 1) = MAX_ATTEMPTS
  cause : isLinkLost err = true ∧ ((∃ x, w.phone.At st folder name x) → w.Kept st folder name) ∨
    err = .notFound ∧ ¬ w.Kept st folder name

theorem Standing.broken {n : Nat} {err : Error} {w : Cable} (h : Standing s₀ st folder name (n + 1) w)
    (herr : isLinkLost err = true ∨ err = .notFound ∧ ¬ ∃ x, w.phone.At st folder name x) :
    Broken s₀ st folder name n err w :=
  ⟨h.beside, h.rounds, herr.imp (fun hlost => ⟨hlost, h.kept.mpr⟩) fun hno =>
    ⟨hno.1, fun hk => hno.2 (h.kept.mp hk)⟩⟩

/-- The mount is back, and finds what the last attempt left. -/
theorem Broken.returned {n : Nat} {err : Error} {w : Cable} (h : Broken s₀ st folder name n err w)
    (hlost : isLinkLost err = true) :
    Standing s₀ st folder name n ⟨w.phone, w.returns ++ [w.phone]⟩ := by
  rcases h.cause with ⟨-, hkept⟩ | ⟨rfl, -⟩
  · refine ⟨h.beside, ?_, ?_⟩
    · constructor
      · intro hk
        exact hk w.phone (List.mem_append_right _ List.mem_cons_self)
      · intro hat s hs
        rcases List.mem_append.mp hs with hs | hs
        · exact hkept hat s hs
        · rw [List.mem_singleton.mp hs]
          exact hat
    · rw [List.length_append, List.length_singleton, Nat.add_assoc, Nat.add_comm 1]
      exact h.rounds
  · cases hlost

/-- The link was lost, and until then something had the name each time. -/
theorem Standing.cut {n : Nat} {err : Error} {w w' : Cable}
    (h : Standing s₀ st folder name (n + 1) w) (hkept : w.Kept st folder name)
    (hb : s₀.Beside w'.phone st folder name) (hreturns : w'.returns = w.returns)
    (hlost : isLinkLost err = true) : Broken s₀ st folder name n err w' := by
  refine ⟨hb, ?_, .inl ⟨hlost, fun _ => ?_⟩⟩
  · rw [hreturns]
    exact h.rounds
  · rw [Cable.Kept, hreturns]
    exact hkept

namespace Replacing

variable {l₀ l : Link} {entry : InodeEntry} {f : Flushing} {w w' : Cable} {n : Nat}

/-- The attempts of a flush. -/
abbrev Trying (N : Naming) (stores : List Nat) (l₀ : Link) (s₀ : Phone) (i st : Nat)
    (entry : InodeEntry) (folder : Option Nat) (n : Nat) : Link → Cable → Prop :=
  OnCourse N stores l₀.inodes
    (fun session w => Leads N stores l₀.inodes w.phone (OnChain l₀.inodes i) session w)
    (Standing s₀ st folder entry.name n) fun _ => False

/-- The flush has the new content spooled, and the device cannot rename. -/
def Spooled (v : Bytes) (f : Flushing) : Prop :=
  f.file.content = v ∧ f.link.device.supportsRename = false

/-- How an attempt fails. -/
def Failed (N : Naming) (stores : List Nat) (l₀ : Link) (s₀ : Phone) (st : Nat) (entry : InodeEntry)
    (folder : Option Nat) (v : Bytes) (n : Nat) (err : Error) (f : Flushing) (w : Cable) : Prop :=
  Synced N stores l₀.inodes f.link ∧ Broken s₀ st folder entry.name n err w ∧ Spooled v f

/-- How an attempt succeeds. -/
def Replaced (N : Naming) (st : Nat) (folder : Option Nat) (name : String) (v : Bytes) (i : Nat)
    (l : Link) (w : Cable) : Prop :=
  w.Kept st folder name ∧ Overwritten N st folder v i l w.phone

variable (h : Replacing N stores l₀ s₀ i st entry names folder)

include h

theorem pathOf : PathOf N stores l₀.inodes i st (entry.name :: names) := by
  obtain ⟨a, ha⟩ := h.file
  obtain ⟨nodes, top, hc, hs, rfl⟩ := h.path
  exact ⟨i :: nodes, top, .up h.live (by rw [ha]; rfl) hc, hs, (InodeTable.names_cons h.live).symm⟩

theorem onChain_parent {j : Nat} (hj : OnChain l₀.inodes entry.parent j) : OnChain l₀.inodes i j := by
  obtain ⟨a, ha⟩ := h.file
  obtain ⟨nodes, top, hc, hj⟩ := hj
  exact ⟨i :: nodes, top, .up h.live (by rw [ha]; rfl) hc, List.mem_cons_of_mem _ hj⟩

theorem findsOnly (hb : s₀.Beside s st folder entry.name) : s.FindsOnly st names folder :=
  hb.findsOnly h.only.finds (List.suffix_refl _) h.only

/-- The path of the inode leads to what has the name. -/
theorem at_of_leadsTo (hb : s₀.Beside s st folder entry.name) {x : Nat}
    (hx : LeadsTo N stores l₀.inodes s i (some x)) : s.At st folder entry.name x := by
  obtain ⟨st', names', hp, hf⟩ := hx
  obtain ⟨rfl, rfl⟩ := hp.unique h.distinct h.pathOf
  cases hf with
  | child hfolder hat =>
    rw [(h.findsOnly hb).unique hfolder] at hat
    exact hat

theorem folder_of_leadsTo (hb : s₀.Beside s st folder entry.name) {r : Option Nat}
    (hr : LeadsTo N stores l₀.inodes s entry.parent r) : r = folder := by
  obtain ⟨st', names', hp, hf⟩ := hr
  obtain ⟨rfl, rfl⟩ := hp.unique h.distinct h.path
  exact (h.findsOnly hb).unique hf

theorem fileHandle_replaces (ht : Trying N stores l₀ s₀ i st entry folder n l w) :
    Attempt.wp (N.Severs stores) (Cable.Resends st folder entry.name v) (fileHandle i)
      (fun a l' w' => w' = w ∧ Trying N stores l₀ s₀ i st entry folder n l' w ∧
        (l'.device = l.device ∧ l'.storages = l.storages) ∧
        ∃ x, N.object l'.device.session a = some x ∧ w.phone.At st folder entry.name x)
      (fun err l' w' => w' = w ∧ Trying N stores l₀ s₀ i st entry folder n l' w ∧
        l'.device = l.device ∧
        (isLinkLost err = true ∨ err = .notFound ∧ ¬ ∃ x, w.phone.At st folder entry.name x)) l w := by
  obtain ⟨hstand, hD⟩ := ht.2.resolve_right id
  obtain ⟨a₀, ha₀⟩ := h.file
  have hkind : ∃ e a, l.inodes.get i = some e ∧ e.kind = .file a := by
    obtain ⟨e, he, hshape⟩ := ht.1.tree.get h.live
    obtain ⟨-, -, hb⟩ := InodeEntry.shape_inj hshape
    rw [ha₀] at hb
    cases hk : e.kind with
    | file a => exact ⟨e, a, he, hk⟩
    | _ => rw [hk] at hb; cases hb
  have hway : (isLinkLost .notFound = true ∨ Error.notFound = .notFound ∧
        ¬ ∃ x, w.phone.At st folder entry.name x) ∨
      ∀ above folder' name', name' :: above <:+ entry.name :: names →
        w.phone.Finds st above folder' → ∃ y, w.phone.At st folder' name' y := by
    by_cases hthere : ∃ x, w.phone.At st folder entry.name x
    · refine .inr fun above folder' name' hsuffix hf => ?_
      have honly := h.findsOnly hstand.beside
      rcases List.suffix_cons_iff.mp hsuffix with heq | hsuffix
      · cases heq
        rw [honly.unique hf]
        exact hthere
      · exact honly.way hsuffix hf
    · exact .inl (.inr ⟨rfl, hthere⟩)
  refine Attempt.wp_mono (lookedUp ht id (fun _ _ => id)
    (fileHandle_resolves (looksUp_still N.tellsTruth_severs.still l trivial (fun _ _ => trivial) i)
      (fun _ _ _ _ _ _ => trivial) (.inr trivial))
    (fileHandle_resolves (looksUp_leads N.tellsTruth_severs (fun hr => .inl (hr.2.1 _ rfl)) ht.1 h.synced.rooted
      h.distinct h.pathOf (fun _ => id) (fun _ _ _ _ _ _ => id) hway) hD (.inl hkind))) ?_
    fun _ _ _ h' => h'
  rintro a l' w' ⟨rfl, ht', ⟨hdev, hstorages⟩, ha, e, he, hk⟩
  have ha' : e.kind.handle? = some a := by rw [hk]; rfl
  obtain ⟨x, hx, hlead⟩ := ha (h.pathOf.onChain_self ht'.1 he ha')
  rw [← hdev] at hx
  exact ⟨rfl, ht', ⟨hdev, hstorages⟩, x, hx, h.at_of_leadsTo hstand.beside hlead⟩

theorem parentHandle_replaces (ht : Trying N stores l₀ s₀ i st entry folder n l w) :
    Attempt.wp (N.Severs stores) (Cable.Resends st folder entry.name v) (parentHandle entry.parent)
      (fun p l' w' => w' = w ∧ Trying N stores l₀ s₀ i st entry folder n l' w ∧
        (l'.device = l.device ∧ l'.storages = l.storages) ∧
        ∀ s r, N.Folder s l'.device.session p r → r = folder)
      (fun err l' w' => w' = w ∧ Trying N stores l₀ s₀ i st entry folder n l' w ∧
        l'.device = l.device ∧ isLinkLost err = true) l w := by
  obtain ⟨hstand, hD⟩ := ht.2.resolve_right id
  have hkind : ∃ e, l.inodes.get entry.parent = some e ∧ e.isDir = true ∧ e.kind ≠ .root := by
    obtain ⟨e₀, he₀, hdir, hroot⟩ := h.dir
    obtain ⟨e, he, hshape⟩ := ht.1.tree.get he₀
    obtain ⟨-, -, hb⟩ := InodeEntry.shape_inj hshape
    refine ⟨e, he, ?_⟩
    cases hk₀ : e₀.kind <;> cases hk : e.kind <;>
      simp_all [InodeKind.bare, InodeEntry.isDir]
  refine Attempt.wp_mono (lookedUp ht id (fun _ _ => id)
    (parentHandle_resolves (looksUp_still N.tellsTruth_severs.still l trivial (fun _ _ => trivial) _)
      (fun _ _ _ _ _ _ => trivial) (.inr trivial))
    (parentHandle_resolves (looksUp_leads N.tellsTruth_severs (fun hr => hr.2.1 _ rfl) ht.1
      h.synced.rooted h.distinct h.path (fun _ => h.onChain_parent) (fun _ _ _ _ _ _ => id)
      (.inr fun _ _ _ => (h.findsOnly hstand.beside).way)) hD (.inl hkind))) ?_ fun _ _ _ h' => h'
  rintro p l' w' ⟨rfl, ht', ⟨hdev, hstorages⟩, hp⟩
  rw [← hdev] at hp
  exact ⟨rfl, ht', ⟨hdev, hstorages⟩, fun s r hr => h.folder_of_leadsTo hstand.beside
    (hp.leadsTo h.path ht'.1 (fun _ => h.onChain_parent) hr)⟩

theorem flushUnsafe_replaces {idx x : Nat} {storage : Storage} {old : ObjectHandle}
    {p : Option ObjectHandle} (ht : Trying N stores l₀ s₀ i st entry folder (n + 1) f.link w)
    (hf : Spooled v f) (hc : f.file.cursor = 0) (haim : Aimed N st folder x f.link idx storage old p)
    (hat : w.phone.At st folder entry.name x) :
    Attempt.wp (N.Severs stores) (Cable.Resends st folder entry.name v)
      (flushUnsafe i old idx p entry v.length)
      (fun _ f' w' => Replaced N st folder entry.name v i f'.link w')
      (Failed N stores l₀ s₀ st entry folder v n) f w := by
  obtain ⟨hstand, -⟩ := ht.2.resolve_right id
  have hkept := hstand.kept.mpr ⟨x, hat⟩
  unfold flushUnsafe
  rw [Attempt.wp_bind, wp_onLinkM]
  refine storageAt_wp haim.get ?_
  rw [Attempt.wp_bind, Attempt.wp_mk]
  refine wp_call.mpr ⟨trivial, fun deleted w₁ hdel => ?_⟩
  obtain ⟨hreturns₁, hlost₁, hdel⟩ := hdel
  have hbeside₁ : s₀.Beside w₁.phone st folder entry.name := by
    rcases hdel.cases with hsame | ⟨y, hy, -, hdrop⟩
    · rw [hsame]
      exact hstand.beside
    · cases haim.old.symm.trans hy
      rw [hdrop]
      exact hstand.beside.drop hat _
  rcases deleted with err | _
  · exact ⟨ht.1, hstand.cut hkept hbeside₁ hreturns₁ (hlost₁ err rfl), hf⟩
  · dsimp only
    rw [Attempt.wp_bind]
    unfold uploadFile
    simp only [Attempt.wp_bind, Attempt.wp_get, Attempt.wp_lift, Attempt.wp_modify]
    have hkept₁ : w₁.Kept st folder entry.name := by
      rw [Cable.Kept, hreturns₁]
      exact hkept
    refine wp_call.mpr ⟨⟨hkept₁, rfl, streams_fileStream hf.1 hc storage p entry.name⟩, ?_⟩
    rintro ⟨err | a, polled⟩ w₂ ⟨hreturns₂, hlost₂, hup⟩
    · -- nothing has the name now, or a part of the upload
      refine ⟨ht.1, hstand.cut hkept ?_ (hreturns₂.trans hreturns₁) (hlost₂ err rfl),
        (content_pollStream f.file polled).trans hf.1, hf.2⟩
      rcases hup with hsame | ⟨content, a, st', f', y, hst, hfolder, hnone, -, hput⟩
      · rw [hsame]
        exact hbeside₁
      · cases haim.store.symm.trans hst
        obtain rfl := haim.folder _ _ hfolder
        rw [hput]
        exact hbeside₁.put hnone _ _
    · obtain ⟨st', f', y, hst, hfolder, hnone, ha, hput⟩ := hup
      cases haim.store.symm.trans hst
      obtain rfl := haim.folder _ _ hfolder
      rw [haim.session] at ha
      have hholds : w₂.phone.Holds st f' v y := by
        rw [hput]
        exact ⟨_, if_pos rfl, rfl, rfl, congrArg some ((flatten_fileStream hc).trans hf.1)⟩
      obtain ⟨e, he, -⟩ := ht.1.tree.get h.live
      dsimp only
      rw [Attempt.wp_pure, wp_onLinkM]
      refine Attempt.wp_mono (Overwriting.recordUpload_overwrites trivial id he ha hholds) ?_
        fun _ _ _ hno => hno
      rintro _ l' w' ⟨rfl, hnew⟩
      refine ⟨?_, hnew⟩
      rw [Cable.Kept, hreturns₂]
      exact hkept₁

theorem flushOnce_replaces {isRetry : Bool}
    (ht : Trying N stores l₀ s₀ i st entry folder (n + 1) f.link w) (hf : Spooled v f)
    (hc : f.file.cursor = 0) :
    Attempt.wp (N.Severs stores) (Cable.Resends st folder entry.name v)
      (flushOnce i entry v.length isRetry)
      (fun _ f' w' => Replaced N st folder entry.name v i f'.link w')
      (Failed N stores l₀ s₀ st entry folder v n) f w := by
  unfold flushOnce
  rw [Attempt.wp_bind, wp_onLinkM]
  refine Attempt.wp_mono (h.fileHandle_replaces ht) ?_ ?_
  · rintro old l₁ w₁ ⟨rfl, ht₁, ⟨hdev₁, -⟩, x, hold, hat⟩
    obtain ⟨idx, storage, hidx, hget, -, hses, hst⟩ :=
      ht₁.1.storageFor h.synced.rooted h.distinct h.pathOf
    rw [Attempt.wp_bind, wp_onLinkM]
    refine storageIndex_wp (fun _ => trivial) (fun idx' hidx' => ?_) fun hnone => ?_
    · cases hidx.symm.trans hidx'
      rw [Attempt.wp_bind, wp_onLinkM]
      refine Attempt.wp_mono (h.parentHandle_replaces ht₁) ?_ ?_
      · rintro p l₂ w₂ ⟨rfl, ht₂, ⟨hdev₂, hstorages₂⟩, hp⟩
        have hses₂ : storage.session = l₂.device.session :=
          hses.trans (congrArg MtpDevice.session hdev₂.symm)
        have hrename₂ : l₂.device.supportsRename = false :=
          (congrArg MtpDevice.supportsRename (hdev₂.trans hdev₁)).trans hf.2
        rw [← hses] at hst hold
        rw [← hses₂] at hp
        have haim : Aimed N st folder x l₂ idx storage old p :=
          ⟨(congrArg (fun ss => ss[idx]?) hstorages₂).trans hget, hses₂, hst, hold, hp⟩
        simp only [Attempt.wp_bind, Attempt.wp_get]
        split
        · rename_i hyes
          exact absurd (hrename₂.symm.trans hyes) Bool.false_ne_true
        · exact h.flushUnsafe_replaces (f := HasLink.setLink _ l₂) ht₂ ⟨hf.1, hrename₂⟩ hc haim hat
      · rintro err l₂ w₂ ⟨rfl, ht₂, hdev₂, hlost⟩
        exact ⟨ht₂.1, (ht₂.2.resolve_right id).1.broken (.inl hlost), hf.1,
          (congrArg MtpDevice.supportsRename (hdev₂.trans hdev₁)).trans hf.2⟩
    · cases hidx.symm.trans hnone
  · rintro err l₁ w₁ ⟨rfl, ht₁, hdev₁, herr⟩
    exact ⟨ht₁.1, (ht₁.2.resolve_right id).1.broken herr, hf.1,
      (congrArg MtpDevice.supportsRename hdev₁).trans hf.2⟩

theorem flushAttempt_replaces (ht : Trying N stores l₀ s₀ i st entry folder (n + 1) f.link w)
    (hf : Spooled v f) :
    Attempt.wp (N.Severs stores) (Cable.Resends st folder entry.name v)
      (flushAttempt i entry v.length)
      (fun _ f' w' => Replaced N st folder entry.name v i f'.link w')
      (Failed N stores l₀ s₀ st entry folder v n) f w := by
  unfold flushAttempt
  rw [Attempt.wp_bind, Attempt.wp_lift]
  refine wp_call.mpr ⟨trivial, fun fault w₁ hr => ?_⟩
  obtain ⟨rfl, rfl⟩ : w₁ = w ∧ fault = none := hr
  simp only [spooled, Attempt.wp_bind, Attempt.wp_pure, Attempt.wp_lift]
  refine wp_call.mpr ⟨trivial, fun fault w₂ hr => ?_⟩
  obtain ⟨rfl, rfl⟩ : w₂ = w₁ ∧ fault = none := hr
  simp only [Attempt.wp_pure, Attempt.wp_modify, Attempt.wp_get]
  exact h.flushOnce_replaces
    (f := { f with file := f.file.seekStart 0, attempts := f.attempts + 1 }) ht hf rfl

/-! ### The whole flush -/

/-- An error for which no reconnect is to blame, nor a third lost link: a loss of the link
has left the folder without the name. -/
def Lost (st : Nat) (folder : Option Nat) (name : String) (f : Link) (w : Cable) : Prop :=
  f.shutdown = none → w.returns.length < MAX_ATTEMPTS → ¬ w.Kept st folder name

theorem start : Trying N stores l₀ s₀ i st entry folder MAX_ATTEMPTS l₀ ⟨s₀, []⟩ := by
  refine ⟨h.synced, .inl ⟨⟨.refl s₀, ?_, Nat.zero_add _⟩, fun j e a he hf ha hj => ?_⟩⟩
  · exact iff_of_true (fun s hs => absurd hs List.not_mem_nil) h.there
  · obtain ⟨storage, x, hat, hx⟩ := h.denotes j e a hj he hf ha
    have hses : storage.session = l₀.device.session := by
      obtain ⟨nodes, top, st', -, hs, -⟩ := hat
      exact h.synced.bound.session_of hs
    rw [hses] at hx
    exact ⟨x, hx, (h.synced.atPath_iff h.synced.rooted h.distinct).mp ⟨storage, hat⟩⟩

theorem recovery_replaces (ht : Trying N stores l₀ s₀ i st entry folder MAX_ATTEMPTS f.link w)
    (hf : Spooled v f) :
    Attempt.wp (N.Severs stores) (Cable.Resends st folder entry.name v)
      (withRecovery (flushAttempt i entry v.length))
      (fun _ f' w' => Replaced N st folder entry.name v i f'.link w')
      (fun _ f' w' => Lost st folder entry.name f'.link w') f w := by
  have hnodup : (l₀.inodes.children FUSE_ROOT_INODE).Nodup :=
    h.consistent.nodup FUSE_ROOT_INODE (by rw [h.consistent.root]; rfl)
  refine Recoverable.wp (I := fun n f w => Trying N stores l₀ s₀ i st entry folder n f.link w ∧
    Spooled v f) (X := Failed N stores l₀ s₀ st entry folder v) ?_ ⟨ht, hf⟩
  refine ⟨fun {n f w} h' => ⟨trivial, fun out w' hr => ?_⟩, fun h' => h.flushAttempt_replaces h'.1 h'.2,
    fun {n f w err} h' hstale => ?_, fun {n f w err} h' hlost => ?_, fun {n f w err} h' hno => ?_,
    fun {f w} h' => ?_⟩
  · obtain rfl : w' = w := hr
    split
    · exact ⟨h'.1.1, (h'.1.2.resolve_right id).1.broken (.inl rfl), h'.2⟩
    · exact h'
  · rcases h'.2.1.cause with ⟨hlost, -⟩ | ⟨rfl, -⟩
    · rw [isLinkLost_of_stale hstale] at hlost
      cases hlost
    · cases hstale
  · have hadopts : Readopts (N.Severs stores) (Cable.Resends st folder entry.name v)
        (fun w' => w' = w) (fun w' => w' = ⟨w.phone, w.returns ++ [w.phone]⟩)
        (fun device infos => device.supportsRename = false ∧ N.Tells stores device.session infos) := by
      refine ⟨fun {w₁ c} hc hw => ?_, fun _ hr hr' => ⟨hr.2 _ rfl, hr'.2 _ rfl⟩,
        fun {w₁} device epoch hw => ⟨trivial, fun _ w₂ hr => ?_⟩⟩
      · cases c with
        | isUnplugged | sleep _ | invalidated => exact ⟨trivial, fun _ _ hr => hr.trans hw⟩
        | openDevice | storages _ => exact ⟨trivial, fun _ _ hr => hr.1.trans hw⟩
        | _ => cases hc
      · rw [← hw]
        exact hr
    rw [wp_onLinkM]
    refine Attempt.wp_mono (reconnect_adopts hadopts rfl) ?_ ?_
    · rintro _ l' w' ⟨rfl, device, infos, ⟨hrename, htells⟩, rfl⟩
      have hfresh := (h'.1.dated.operated (Link.remapStorages_operated
        (device.bindStorages infos) f.link.inodes)).nothingFresh
      exact ⟨⟨h'.1.adopted hnodup h.distinct htells, .inl ⟨h'.2.1.returned hlost,
        .of_nothingFresh hfresh⟩⟩, h'.2.2.1, hrename⟩
    · rintro err' l' w' ⟨rfl, -, reason, rfl⟩ hup
      have hsome : (HasLink.link f).shutdown.or (some reason) = none := hup
      rw [Option.or_eq_none_iff] at hsome
      cases hsome.2
  · rcases h'.2.1.cause with ⟨hlost, -⟩ | ⟨-, hkept⟩
    · rw [hno] at hlost
      cases hlost
    · exact fun _ _ => hkept
  · intro _ hlt
    have hrounds := (h'.1.2.resolve_right id).1.rounds
    exact absurd hrounds (Nat.ne_of_lt hlt)

theorem flushBuffer_replaces {buf : FileBuffer} (hi : buf.inode = i) (hdirty : buf.dirty = true)
    (hv : buf.file.content = v) (hrename : l₀.device.supportsRename = false) :
    Attempt.wp (N.Severs stores) (Cable.Resends st folder entry.name v) (flushBuffer buf)
      (fun _ l' w' => Replaced N st folder entry.name v i l' w')
      (fun _ l' w' => Lost st folder entry.name l' w') l₀ ⟨s₀, []⟩ := by
  subst hi
  unfold flushBuffer
  simp only [hdirty, Bool.not_true, Bool.false_eq_true, if_false]
  rw [Attempt.wp_bind, Attempt.wp_lift]
  refine wp_call.mpr ⟨trivial, fun fault w₁ hr => ?_⟩
  obtain ⟨rfl, rfl⟩ : w₁ = ⟨s₀, []⟩ ∧ fault = none := hr
  simp only [spooled, Attempt.wp_bind, Attempt.wp_pure, Attempt.wp_get, h.live]
  rw [Attempt.wp_mk, Act.wp_focus, Attempt.wp_run]
  have hsize : buf.file.seekEnd.1 = v.length := congrArg List.length hv
  rw [hsize]
  exact h.recovery_replaces (f := ⟨l₀, buf.file.seekEnd.2, 0⟩) h.start ⟨hv, hrename⟩

end Replacing

/-! ## That phone, without a rename -/

/-- The mount with two bytes to flush to the file `a`, on a device that cannot rename. -/
def plainCard : MtpFs :=
  { dirtyCard with link := { dirtyCard.link with device := ⟨0, false, true⟩ } }

/-- The first upload loses the link. It leaves one byte, or nothing. -/
def severedAnswers (leaves : Bool) (w : Cable) : (c : Call) → Option (Answer c × Cable)
  | .isUnplugged => some (false, w)
  | .sleep _ => some ((), w)
  | .openDevice => some (.ok ⟨0, false, true⟩, w)
  | .storages _ => some (.ok cardInfos, w)
  | .invalidated => some ((), w)
  | .spawnEventLoop .. => some ((), ⟨w.phone, w.returns ++ [w.phone]⟩)
  | .now => some (0, w)
  | .seekTemp => some (none, w)
  | .cloneTemp => some (none, w)
  | .listObjects storage none => some (.ok (cardListing w.phone storage.id.value), w)
  | .upload storage none info stream =>
    if w.returns.isEmpty ∧ (w.phone.objects 100).isNone then
      some ((.error .disconnected, 1), ⟨if leaves then w.phone.put 100
        ⟨storage.id.value, none, info.filename, some (stream.flatten.take 1)⟩
        (.upload storage none info stream) else w.phone, w.returns⟩)
    else if (w.phone.objects 101).isNone then
      some ((.ok ⟨101⟩, stream.flatten.length), ⟨w.phone.put 101
        ⟨storage.id.value, none, info.filename, some stream.flatten⟩
        (.upload storage none info stream), w.returns⟩)
    else none
  | .delete storage handle =>
    if handle ≠ .ROOT ∧ (w.phone.objects handle.value).isSome then
      some (.ok (), ⟨w.phone.drop handle.value (.delete storage handle), w.returns⟩)
    else none
  | _ => none

theorem severedAnswers_severs {leaves : Bool} {w w' : Cable} {c : Call} {a : Answer c}
    (hc : CardOnly ⟨w.phone, 0⟩) (h : severedAnswers leaves w c = some (a, w')) :
    cardNames.Severs [1, 2] w c a w' ∧ CardOnly ⟨w'.phone, 0⟩ := by
  cases c with
  | isUnplugged | sleep _ | invalidated | now | spawnEventLoop _ _ =>
    cases h
    exact ⟨rfl, hc⟩
  | seekTemp | cloneTemp =>
    cases h
    exact ⟨⟨rfl, rfl⟩, hc⟩
  | openDevice =>
    cases h
    refine ⟨⟨rfl, fun device hdevice => ?_⟩, hc⟩
    cases hdevice
    rfl
  | storages device =>
    cases h
    exact ⟨⟨rfl, fun _ => cardInfos_answered⟩, hc⟩
  | listObjects storage parent =>
    cases parent with
    | none =>
      cases h
      exact ⟨⟨rfl, nofun, fun _ => hc.listing_answered⟩, hc⟩
    | some a => cases h
  | upload storage parent info stream =>
    cases parent with
    | none =>
      simp only [severedAnswers] at h
      split at h
      · rename_i hfree
        cases h
        cases leaves with
        | true =>
          obtain ⟨hcreates, hc'⟩ := hc.creates (by decide) hfree.2
          refine ⟨⟨rfl, fun err herr => ?_, .inr ⟨_, ⟨100⟩, hcreates⟩⟩, hc'⟩
          cases herr
          rfl
        | false =>
          refine ⟨⟨rfl, fun err herr => ?_, .inl rfl⟩, hc⟩
          cases herr
          rfl
      split at h
      · rename_i hfree
        cases h
        obtain ⟨hcreates, hc'⟩ := hc.creates (by decide) hfree
        exact ⟨⟨rfl, nofun, hcreates⟩, hc'⟩
      · cases h
    | some a => cases h
  | delete storage handle =>
    simp only [severedAnswers] at h
    split at h
    · rename_i hthere
      cases h
      obtain ⟨hdeletes, hc'⟩ := hc.deletes hthere
      exact ⟨⟨rfl, nofun, hdeletes⟩, hc'⟩
    · cases h
  | _ => cases h

theorem replacing_plainCard : Replacing cardNames [1, 2] plainCard.link cardPhone 5 1
    ⟨5, 2, "a", .file ⟨80⟩, 3, 0, 0, 0⟩ [] none where
  consistent := consistent_cardMount
  synced :=
    { tree := .refl _
      rooted := rooted_cardMount
      dated := synced_cardMount.dated
      bound := synced_cardMount.bound
      stands := synced_cardMount.stands }
  distinct := distinct_cardNames
  live := cardMount_get.2.2.2
  file := ⟨_, rfl⟩
  dir := ⟨_, cardMount_get.1, rfl, by simp⟩
  path := reached_internal.path
  only := .root
  there := ⟨80, _, rfl, rfl, rfl, rfl⟩
  denotes := reached_a.denotes

theorem close_plainCard : ∃ buf, (plainCard.writeBuf.close 0).1 = some buf ∧ buf.dirty = true ∧
    buf.inode = 5 ∧ buf.file.content = [7, 8] :=
  ⟨_, rfl, rfl, rfl, rfl⟩

/-- That flush, with what its end was tested for. -/
theorem severedRun_of_test (leaves : Bool) (test : Except Error Unit → MtpFs → Cable → Bool)
    (ht : (((flushToMtp 0).run plainCard).runWith (severedAnswers leaves) ⟨cardPhone, []⟩).any
      (fun x => x.1.1.toOption.any fun r => test r x.1.2 x.2) = true) :
    ∃ r fs w, Prog.Ends (cardNames.Severs [1, 2]) ((flushToMtp 0).run plainCard) ⟨cardPhone, []⟩
      (.ok r, fs) w ∧ test r fs w = true := by
  obtain ⟨⟨⟨r, fs⟩, w⟩, hrun, htest⟩ := (Option.any_eq_true _ _).mp ht
  obtain ⟨flushed, hr, htest⟩ := (Option.any_eq_true _ _).mp htest
  rcases r with err | r
  · cases hr
  cases hr
  exact ⟨_, fs, w, Prog.runWith_ends_of (R := cardNames.Severs [1, 2])
    (I := fun w => CardOnly ⟨w.phone, 0⟩) (fun _ _ _ _ => severedAnswers_severs) cardOnly_start hrun,
    htest⟩

end MtpMount
