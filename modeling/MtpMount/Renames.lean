import MtpMount.Moves

/-!
# What a rename leaves

* `rename_fails_iff`: after an error the object is where the table has it, unless
  a request took effect;
* `rename_lands_iff`: after a success it is where the new table has it, unless the
  new folder is in another storage;
* `rename_replaces_iff`: it is alone there under its name, unless another object
  had the name before.
-/

namespace MtpMount

open Interaction

/-! ## The new path in the table -/

section Table

variable {N : Naming} {stores : List Nat} {t : InodeTable} {i newParent st : Nat}
  {newName : String} {names : List String}

/-- What is evicted is not on the way up from the folder that it is in. -/
theorem get_rename_above (ht : t.Rooted) {nodes : List Nat} {top j : Nat} {e : InodeEntry}
    (hi : t.get i = some e) (hk : e.kind.handle?.isSome = true)
    (hc : t.Climbs newParent nodes top) (hnot : i ∉ nodes) (hj : j ∈ nodes ∨ j = top) :
    (t.rename i newParent newName).get j = t.get j := by
  have hji : j ≠ i := by
    rintro rfl
    rcases hj with hj | rfl
    · exact hnot hj
    · obtain ⟨e', he', hk'⟩ := hc.isTop
      cases hi.symm.trans he'
      rw [hk'] at hk
      cases hk
  rcases t.rename_cases i newParent newName with ⟨hnone, -⟩ | ⟨e', he', hu⟩
  · cases hi.symm.trans hnone
  rw [hu.get, if_neg hji]
  rcases t.evictName_cases newParent newName i with ⟨hsame, -⟩ | ⟨old, hold, -, hrem⟩
  · rw [hsame]
  rw [hrem, InodeTable.get_remove, if_neg]
  rintro rfl
  obtain ⟨eo, heo, hparent, -⟩ := ht.sound _ _ _ hold
  cases hko : eo.kind.handle? with
  | some a =>
    have hup : t.Climbs j (j :: nodes) top := by
      refine .up heo (by rw [hko]; rfl) ?_
      rw [hparent]
      exact hc
    rcases hj with hj | rfl
    · exact hup.walk.not_mem hj
    · obtain ⟨e', he', hk'⟩ := hc.isTop
      cases heo.symm.trans he'
      rw [hko] at hk'
      cases hk'
  | none =>
    -- a storage: then its folder is the root, and the way up ends there
    have hroot := (ht.top j eo heo).mp hko
    rw [hparent] at hroot
    subst hroot
    obtain ⟨rfl, rfl⟩ := hc.unique (.top ⟨_, ht.root, rfl⟩)
    rcases hj with hj | rfl
    · cases hj
    · exact ht.noRoot _ _ hold

/-- The way up from a renamed inode. -/
theorem climbs_rename (newName : String) (ht : t.Rooted) {nodes : List Nat} {top : Nat} {e : InodeEntry}
    (hi : t.get i = some e) (hk : e.kind.handle?.isSome = true)
    (hc : t.Climbs newParent nodes top) (hnot : i ∉ nodes) :
    (t.rename i newParent newName).Climbs i (i :: nodes) top ∧
      (t.rename i newParent newName).names (i :: nodes) = newName :: t.names nodes ∧
      (t.rename i newParent newName).get top = t.get top := by
  have hsame : ∀ j, j ∈ nodes ∨ j = top →
      (t.rename i newParent newName).get j = t.get j := fun j hj =>
    get_rename_above ht hi hk hc hnot hj
  have hget : (t.rename i newParent newName).get i =
      some { e with parent := newParent, name := newName } := by
    rcases t.rename_cases i newParent newName with ⟨hnone, -⟩ | ⟨e', he', hu⟩
    · cases hi.symm.trans hnone
    · cases hi.symm.trans he'
      rw [hu.get, if_pos rfl]
  refine ⟨.up hget hk (hc.congr hsame), ?_, hsame top (.inr rfl)⟩
  rw [InodeTable.names_cons hget]
  refine congrArg (newName :: ·) (List.filterMap_congr fun j hj => ?_)
  rw [hsame j (.inl hj)]

/-- The name of the one object that has it in a listed folder leads to it. -/
theorem nameHas_of_alone {s : Phone} {p o : Nat} {n : String} {folder : Option Nat}
    {storage : Storage} {parent : Option ObjectHandle} {objects : List ObjectInfo}
    (ht : t.Indexed) (halone : ∀ y, s.At st folder n y ↔ y = o)
    (hstore : N.store storage.session storage.id = some st)
    (hfolder : N.Folder s storage.session parent folder)
    (hreports : N.Reports s storage parent objects) :
    (t.syncChildren p (objects.map childInfo)).NameHas p n
      fun a => N.object storage.session a = some o := by
  obtain ⟨st', folder', hstore', hfolder', hsound, hcomplete⟩ := hreports.folder
  cases hstore.symm.trans hstore'
  cases hfolder.unique hfolder'
  refine InodeTable.nameHas_syncChildren ht ?_ ?_
  · rintro c hc rfl
    obtain ⟨info, hinfo, rfl⟩ := List.mem_map.mp hc
    obtain ⟨o', hobj, hat, -⟩ := hsound info hinfo
    rw [← (halone o').mp hat]
    exact hobj
  · obtain ⟨info, hinfo, hname, -⟩ := hcomplete n o ((halone o).mpr rfl)
    exact ⟨childInfo info, List.mem_map_of_mem hinfo, hname⟩

end Table

namespace Renaming

variable {N : Naming} {stores : List Nat} {r : Renaming} {l₀ : Link} {s₀ s : Phone}
  {st : Nat} {above : List String} {folder : Option Nat} {obj : DeviceObject}
  (hr : Starts N stores r l₀ s₀) (hh : Home N stores r l₀.inodes s₀ st above folder obj)

include hr hh

/-! ## After an error -/

/-- A moved object is not in its old place. -/
theorem Moved.not_finds {folder' : Option Nat}
    (h : Moved N stores r l₀.inodes s₀ st obj folder' s) :
    ¬ s.Finds st (r.name :: above) (some r.object) := by
  intro hf
  cases id hf with
  | @child _ folder₁ _ _ hfolder hat =>
    obtain ⟨-, hparent, -⟩ := h.only.at_self.mp hat
    have hsame : folder' = folder₁ := hparent
    subst hsame
    rcases h.only.finds hfolder with hf₀ | ⟨x, rfl, hin⟩
    · exact h.parent (hh.parent.inode hr.rooted (h.target.path hf₀))
    · have hlen := hin.length_le hf hfolder
      rw [List.length_cons] at hlen
      omega

/-- No storage is the old parent and the new one. -/
theorem Moved.not_isTop {folder' : Option Nat}
    (h : Moved N stores r l₀.inodes s₀ st obj folder' s) :
    ¬ (l₀.inodes.IsTop r.parent ∧ l₀.inodes.IsTop r.newParent) := by
  rintro ⟨htop, htop'⟩
  obtain ⟨st', names, hp, hf, -, hst⟩ := h.target
  have hnames := hp.isTop.mp htop'
  subst hnames
  cases hf
  rw [hst rfl] at hp
  have hparent := hh.parent
  rw [hparent.isTop.mp htop] at hparent
  exact h.parent (hparent.inode hr.rooted hp)

/-- The object is in its old place if nothing was done, or nothing that shows. -/
theorem finds_home_iff (h : Near N stores r l₀.inodes s₀ st obj s ∨
      Astray N stores r l₀.inodes s₀ st obj s) :
    s.Finds st (r.name :: above) (some r.object) ↔ s.done = s₀.done ∨
      r.name = r.newName ∧ l₀.inodes.IsTop r.parent ∧ l₀.inodes.IsTop r.newParent := by
  have hdone : ∀ {s : Phone}, s₀.done.length < s.done.length → s.done ≠ s₀.done := by
    intro s hlt heq
    rw [heq] at hlt
    exact Nat.lt_irrefl _ hlt
  rcases h with hn | hk
  · cases hn with
    | home hs =>
      rw [hs]
      exact iff_of_true (hh.finds.child ⟨obj, hh.object, hh.place⟩) (.inl rfl)
    | renamed hne h hlt =>
      refine iff_of_false (fun hf => ?_) fun hor => ?_
      · cases hf with
        | child _ hat => exact hne (h.at_self.mp hat).2.2.symm
      · rcases hor with heq | ⟨hname, -⟩
        · exact hdone hlt heq
        · exact hne hname
    | moved h =>
      refine iff_of_false (h.not_finds hr hh) fun hor => ?_
      rcases hor with heq | ⟨-, htops⟩
      · exact hdone h.done heq
      · exact h.not_isTop hr hh htops
  · constructor
    · intro hf
      cases hf with
      | @child _ folder₁ _ _ hfolder hat =>
        obtain ⟨obj', hobj, -, hparent, hname⟩ := hat
        cases hobj.symm.trans hk.object
        obtain ⟨st', htarget, -⟩ := hk.target
        have habove := hfolder.eq_none_iff.mp hparent.symm
        exact .inr ⟨hname.symm, hh.parent.isTop.mpr habove, htarget.isTop.mpr rfl⟩
    · rintro (heq | ⟨hname, htop, -⟩)
      · exact absurd heq (hdone hk.done)
      · rw [hh.parent.isTop.mp htop]
        exact .child .root ⟨_, hk.object, hh.place.1, rfl, hname.symm⟩

omit hh in
/-- The place that the table has for the inode, in terms of the device. -/
theorem atPath_iff_finds (hh : Home N stores r l₀.inodes s₀ st above folder obj) {l : Link}
    (hs : Synced N stores l₀.inodes l) :
    (∃ storage, AtPath N s l r.ino storage r.object) ↔
      s.Finds st (r.name :: above) (some r.object) := by
  rw [hs.atPath_iff hr.rooted hr.distinct]
  constructor
  · rintro ⟨st', names, hp, hf⟩
    obtain ⟨rfl, rfl⟩ := hp.unique hr.distinct hh.path
    exact hf
  · intro hf
    exact ⟨st, _, hh.path, hf⟩

omit hr hh

/-! ## After a success -/

/-- The folder that the path of an inode leads to. -/
def FolderOf (N : Naming) (stores : List Nat) (t : InodeTable) (s : Phone) (i st : Nat)
    (folder : Option Nat) : Prop :=
  ∃ names, PathOf N stores t i st names ∧ s.Finds st names folder

section

include hr hh

/-- The place that the new table has for the inode. -/
theorem atPath_renamed_iff {l : Link} (hs : Synced N stores l₀.inodes l) {st' : Nat}
    {names : List String} (hp : PathOf N stores l₀.inodes r.newParent st' names) :
    (∃ storage, AtPath N s { l with inodes := l.inodes.rename r.ino r.newParent r.newName } r.ino
      storage r.object) ↔ s.Finds st' (r.newName :: names) (some r.object) := by
  obtain ⟨nodes, top, hc, htop, rfl⟩ := hp
  obtain ⟨e, he, hk, -⟩ := (hs.tree.pathOf hh.path).last
  have hnot : r.ino ∉ nodes := fun hmem => hr.notInside ⟨nodes, top, hc, hmem⟩
  obtain ⟨hc', hnames, hget⟩ := climbs_rename r.newName hs.rooted he hk
    (hs.tree.climbs hc) hnot
  have hstands : Stands N { l with inodes := l.inodes.rename r.ino r.newParent r.newName } top st' := by
    obtain ⟨et, sid, het, hrest⟩ := hs.stands_of hr.rooted hr.distinct htop
    exact ⟨et, sid, hget.trans het, hrest⟩
  have hb : Bound N stores { l with inodes := l.inodes.rename r.ino r.newParent r.newName } :=
    hs.bound
  rw [hstands.atPath_iff hb hc', hnames, hs.tree.names_eq]

omit hr in
/-- The object stays in its storage. -/
theorem Ended.storage (h : Ended N stores r l₀.inodes s₀ st obj s) {st₁ : Nat} {f : Option Nat}
    {name : String} (hat : s.At st₁ f name r.object) : st = st₁ := by
  have hplace : ∀ {obj'}, s.objects r.object = some obj' → obj'.storage = st := by
    intro obj' hobj
    obtain ⟨hst, -, -⟩ := hh.place
    cases h with
    | stayed hparent hn hnamed =>
      cases hn with
      | home hs =>
        rw [hs] at hobj
        cases hobj.symm.trans hh.object
        exact hst
      | renamed _ h _ =>
        cases hobj.symm.trans h.self
        exact hst
      | moved h => exact absurd hparent h.parent
    | moved h =>
      cases hobj.symm.trans h.only.self
      exact hst
    | astray hk =>
      cases hobj.symm.trans hk.object
      exact hst
  obtain ⟨obj', hobj, hst₁, -⟩ := hat
  exact (hplace hobj).symm.trans hst₁

omit hr in
/-- The new folder, and what has the new name there. -/
theorem Ended.newFolder (h : Ended N stores r l₀.inodes s₀ st obj s) :
    ∃ st' names folder', PathOf N stores l₀.inodes r.newParent st' names ∧
      s₀.Finds st' names folder' ∧ (st = st' → s.Finds st' names folder' ∧
        s.At st' folder' r.newName r.object ∧
        ∀ y, y ≠ r.object → (s.At st' folder' r.newName y ↔ s₀.At st' folder' r.newName y)) := by
  have hobj₀ := hh.object
  obtain ⟨hst, hfolder, hname⟩ := hh.place
  cases h with
  | stayed hparent hn hnamed =>
    obtain ⟨obj', honly⟩ := hn.only hh
    have hp := hh.parent
    rw [hparent] at hp
    have hfind : s.Finds st above folder := by
      rcases (honly.symm hobj₀).finds hh.finds with hf | ⟨x, rfl, hin⟩
      · exact hf
      · have hlen := hin.length_le (hh.finds.child ⟨obj, hobj₀, hh.place⟩) hh.finds
        rw [List.length_cons] at hlen
        omega
    refine ⟨st, above, folder, hp, hh.finds, fun _ => ⟨hfind, ?_, fun y hy => honly.at_iff hy⟩⟩
    obtain ⟨obj₁, hobj₁, hnew⟩ := hnamed
    cases hn with
    | home hs =>
      rw [hs] at hobj₁ ⊢
      cases hobj₁.symm.trans hobj₀
      exact ⟨obj, hobj₀, hst, hfolder, hnew⟩
    | renamed _ h _ => exact ⟨_, h.self, hst, hfolder, rfl⟩
    | moved h => exact absurd hparent h.parent
  | @moved folder' h =>
    obtain ⟨st', names, hp, hf, hin, -⟩ := h.target
    refine ⟨st', names, folder', hp, hf, fun heq => ⟨?_, ?_, fun y hy => h.only.at_iff hy⟩⟩
    · rcases (h.only.symm hobj₀).finds hf with hf' | ⟨x, hx, hin'⟩
      · exact hf'
      · exact absurd hin' (hin x hx)
    · exact h.only.at_self.mpr ⟨hst.trans heq, rfl, rfl⟩
  | astray hk =>
    obtain ⟨st', hp, hne⟩ := hk.target
    exact ⟨st', [], none, hp, .root, fun heq => absurd heq.symm hne⟩

end

end Renaming

/-! ## A phone with a card -/

/-- The folder `d` and the files `a` and `b` in the internal storage. -/
def cardMount : MtpFs :=
  { writableMount with link :=
    { policy := ⟨1000⟩
      describe := "phone"
      device := ⟨0, true, true⟩
      storages := MtpDevice.bindStorages ⟨0, true, true⟩
        [⟨⟨1⟩, "Internal", 100, 50⟩, ⟨⟨2⟩, "Card", 100, 50⟩]
      inodes := (((((InodeTable.new.addStorageAt ⟨1⟩ "Internal" 0).2.addStorageAt ⟨2⟩ "Card"
        0).2.addObject 2 ⟨70⟩ "d" true 0 0).2.addObject 2 ⟨80⟩ "a" false 3 0).2.addObject 2 ⟨90⟩ "b"
        false 2 0).2
      dirsLoaded := ∅
      eventEpoch := 0
      shutdown := none } }

def cardPhone : Phone where
  objects := fun o =>
    if o = 70 then some ⟨1, none, "d", none⟩
    else if o = 80 then some ⟨1, none, "a", some [1, 2, 3]⟩
    else if o = 90 then some ⟨1, none, "b", some [4, 5]⟩
    else none
  done := []

def cardNames : Naming where
  object := fun _ a => if a = .ROOT then none else some a.value
  store := fun _ sid => some sid.value
  label := fun st => if st = 1 then "Internal" else "Card"

/-- A rename of the file `a`. -/
def renamingA (newParent : Nat) (newName : String) : Renaming := ⟨2, "a", newParent, newName, 5, 80⟩

theorem cardPhone_cases {st o : Nat} {folder : Option Nat} {name : String}
    (h : cardPhone.At st folder name o) :
    o = 70 ∧ name = "d" ∨ o = 80 ∧ name = "a" ∨ o = 90 ∧ name = "b" := by
  obtain ⟨obj, hobj, -, -, rfl⟩ := h
  simp only [cardPhone] at hobj
  split at hobj
  · cases hobj
    exact .inl ⟨‹_›, rfl⟩
  split at hobj
  · cases hobj
    exact .inr (.inl ⟨‹_›, rfl⟩)
  split at hobj
  · cases hobj
    exact .inr (.inr ⟨‹_›, rfl⟩)
  · cases hobj

theorem uniqueNames_cardPhone : cardPhone.UniqueNames := by
  intro st folder name o o' h h'
  rcases cardPhone_cases h with ⟨rfl, rfl⟩ | ⟨rfl, rfl⟩ | ⟨rfl, rfl⟩ <;>
    rcases cardPhone_cases h' with ⟨rfl, hn⟩ | ⟨rfl, hn⟩ | ⟨rfl, hn⟩ <;> first | rfl | simp at hn

theorem cardMount_get : cardMount.link.inodes.get 2 = some ⟨2, 1, "Internal", .storage ⟨1⟩, 0, 0, 0, 0⟩ ∧
    cardMount.link.inodes.get 3 = some ⟨3, 1, "Card", .storage ⟨2⟩, 0, 0, 0, 0⟩ ∧
    cardMount.link.inodes.get 4 = some ⟨4, 2, "d", .directory ⟨70⟩, 0, 0, 0, 0⟩ ∧
    cardMount.link.inodes.get 5 = some ⟨5, 2, "a", .file ⟨80⟩, 3, 0, 0, 0⟩ := by
  refine ⟨?_, ?_, ?_, ?_⟩ <;> rfl

theorem climbs_cardMount : cardMount.link.inodes.Climbs 2 [] 2 ∧ cardMount.link.inodes.Climbs 3 [] 3 ∧
    cardMount.link.inodes.Climbs 4 [4] 2 ∧ cardMount.link.inodes.Climbs 5 [5] 2 := by
  obtain ⟨h₂, h₃, h₄, h₅⟩ := cardMount_get
  have htop : cardMount.link.inodes.Climbs 2 [] 2 := .top ⟨_, h₂, rfl⟩
  exact ⟨htop, .top ⟨_, h₃, rfl⟩, .up h₄ rfl htop, .up h₅ rfl htop⟩

theorem consistent_cardMount : cardMount.link.inodes.Consistent :=
  ((((InodeTable.consistent_new.addStorageAt ⟨1⟩ "Internal" 0).addStorageAt ⟨2⟩ "Card" 0).addObject
    (by decide) ⟨70⟩ "d" true 0 0).addObject (by decide) ⟨80⟩ "a" false 3 0).addObject (by decide)
    ⟨90⟩ "b" false 2 0

theorem rooted_cardMount : cardMount.link.inodes.Rooted :=
  ((((InodeTable.rooted_new.addStorageAt ⟨1⟩ "Internal" 0).addStorageAt ⟨2⟩ "Card" 0).addObject
    (by decide) (by decide) ⟨70⟩ "d" true 0 0).addObject (by decide) (by decide) ⟨80⟩ "a" false 3
    0).addObject (by decide) (by decide) ⟨90⟩ "b" false 2 0

theorem distinct_cardNames : cardNames.Distinct [1, 2] := by
  intro st hst st' hst' hlabel
  simp only [List.mem_cons, List.not_mem_nil, or_false] at hst hst'
  rcases hst with rfl | rfl <;> rcases hst' with rfl | rfl <;>
    first | rfl | exact absurd hlabel (by decide)

theorem stands_cardMount : Stands cardNames cardMount.link 2 1 ∧ Stands cardNames cardMount.link 3 2 := by
  obtain ⟨h₂, h₃, -, -⟩ := cardMount_get
  exact ⟨⟨_, ⟨1⟩, h₂, rfl, rfl, rfl, _, List.mem_cons_self, rfl⟩,
    ⟨_, ⟨2⟩, h₃, rfl, rfl, rfl, _, List.mem_cons_of_mem _ List.mem_cons_self, rfl⟩⟩

theorem synced_cardMount : Synced cardNames [1, 2] cardMount.link.inodes cardMount.link where
  tree := .refl _
  rooted := rooted_cardMount
  dated := ((((InodeTable.dated_new.apply (.addStorageAt ⟨1⟩ "Internal" 0)).apply
    (.addStorageAt ⟨2⟩ "Card" 0)).apply (.addObject 2 ⟨70⟩ "d" true 0 0)).apply
    (.addObject 2 ⟨80⟩ "a" false 3 0)).apply (.addObject 2 ⟨90⟩ "b" false 2 0)
  bound := by
    refine ⟨_, rfl, ⟨fun info hinfo => ?_, fun st hst => ?_⟩⟩
    · simp only [List.mem_cons, List.not_mem_nil, or_false] at hinfo
      rcases hinfo with rfl | rfl
      · exact ⟨1, by simp, rfl, rfl⟩
      · exact ⟨2, by simp, rfl, rfl⟩
    · simp only [List.mem_cons, List.not_mem_nil, or_false] at hst
      rcases hst with rfl | rfl
      · exact ⟨_, List.mem_cons_self, rfl⟩
      · exact ⟨_, List.mem_cons_of_mem _ List.mem_cons_self, rfl⟩
  stands := by
    have hchildren : cardMount.link.inodes.children FUSE_ROOT_INODE = [2, 3] := by rfl
    intro top htop
    rw [hchildren] at htop
    simp only [List.mem_cons, List.not_mem_nil, or_false] at htop
    rcases htop with rfl | rfl
    · exact ⟨1, by simp, stands_cardMount.1⟩
    · exact ⟨2, by simp, stands_cardMount.2⟩

/-- The files and folders of the mount are where their handles are. -/
theorem denoting_cardMount : Denoting cardNames cardMount.link cardPhone 4 ⟨70⟩ ∧
    Denoting cardNames cardMount.link cardPhone 5 ⟨80⟩ := by
  obtain ⟨-, -, h₄, h₅⟩ := climbs_cardMount
  have hs : ∀ i, i = 4 ∨ i = 5 →
      cardMount.link.storageFor i = some ⟨⟨⟨1⟩, "Internal", 100, 50⟩, 0⟩ := by
    rintro i (rfl | rfl) <;> rfl
  have hn₄ : cardMount.link.inodes.names [4] = ["d"] := by rfl
  have hn₅ : cardMount.link.inodes.names [5] = ["a"] := by rfl
  refine ⟨⟨_, 70, ⟨_, _, 1, h₄, hs 4 (.inl rfl), rfl, ?_⟩, rfl⟩,
    ⟨_, 80, ⟨_, _, 1, h₅, hs 5 (.inr rfl), rfl, ?_⟩, rfl⟩⟩
  · rw [hn₄]
    exact .child .root ⟨_, rfl, rfl, rfl, rfl⟩
  · rw [hn₅]
    exact .child .root ⟨_, rfl, rfl, rfl, rfl⟩

theorem onChain_cardMount {i j : Nat} (hi : i = 2 ∨ i = 3 ∨ i = 4 ∨ i = 5)
    (h : OnChain cardMount.link.inodes i j) : j = i := by
  obtain ⟨h₂, h₃, h₄, h₅⟩ := climbs_cardMount
  obtain ⟨nodes, top, hc, hj⟩ := h
  rcases hi with rfl | rfl | rfl | rfl
  · rw [(hc.unique h₂).1] at hj
    cases hj
  · rw [(hc.unique h₃).1] at hj
    cases hj
  · rw [(hc.unique h₄).1] at hj
    exact List.mem_singleton.mp hj
  · rw [(hc.unique h₅).1] at hj
    exact List.mem_singleton.mp hj

theorem starts_cardMount {newParent : Nat} (hp : newParent = 2 ∨ newParent = 3 ∨ newParent = 4)
    (newName : String) :
    (renamingA newParent newName).Starts cardNames [1, 2] cardMount.link cardPhone where
  consistent := consistent_cardMount
  synced := synced_cardMount
  distinct := distinct_cardNames
  root := fun _ => rfl
  child := by
    show cardMount.link.inodes.lookup 2 "a" = some 5
    rfl
  found := by
    obtain ⟨-, storage, o, hat, ho⟩ := denoting_cardMount
    cases ho
    exact ⟨storage, hat⟩
  only := by
    obtain ⟨-, storage, o, hat, ho⟩ := denoting_cardMount
    cases ho
    exact fun _ _ h => h.unique uniqueNames_cardPhone hat
  denotes := by
    intro j entry a hj he _ ha
    obtain ⟨h₂, h₃, h₄, h₅⟩ := cardMount_get
    have hcases : j = 2 ∨ j = 3 ∨ j = 4 ∨ j = 5 := by
      rcases hj with hj | rfl | hj
      · exact .inr (.inr (.inr (onChain_cardMount (.inr (.inr (.inr rfl))) hj)))
      · exact hp.imp id (Or.imp id .inl)
      · rw [onChain_cardMount (hp.imp id (Or.imp id .inl)) hj]
        exact hp.imp id (Or.imp id .inl)
    rcases hcases with rfl | rfl | rfl | rfl
    · cases he.symm.trans h₂
      cases ha
    · cases he.symm.trans h₃
      cases ha
    · cases he.symm.trans h₄
      cases ha
      exact denoting_cardMount.1
    · cases he.symm.trans h₅
      cases ha
      exact denoting_cardMount.2
  notInside := by
    intro h
    rcases hp with rfl | rfl | rfl
    · cases onChain_cardMount (.inl rfl) h
    · cases onChain_cardMount (.inr (.inl rfl)) h
    · cases onChain_cardMount (.inr (.inr (.inl rfl))) h
  notAbove := fun d _ h => onChain_cardMount (.inr (.inr (.inr rfl))) h

/-- A device that renames what it is told to, and moves things only to the root of
a storage. -/
def cardAnswers (s : Phone) : (c : Call) → Option (Answer c × Phone)
  | .isUnplugged => some (false, s)
  | .rename storage a newName =>
    match cardNames.object storage.session a with
    | some o => (s.objects o).map fun obj =>
      (.ok (), s.put o { obj with name := newName } (.rename storage a newName))
    | none => none
  | .moveObject storage a newParent =>
    if newParent = .ROOT then
      match cardNames.object storage.session a with
      | some o => (s.objects o).map fun obj =>
        (.ok (), s.put o { obj with storage := storage.id.value, parent := none }
          (.moveObject storage a newParent))
      | none => none
    else some (.error (.other "not supported"), s)
  | _ => none

theorem cardAnswers_obeys {s s' : Phone} {c : Call} {a : Answer c}
    (h : cardAnswers s c = some (a, s')) : cardNames.Obeys [1, 2] s c a s' := by
  cases c with
  | isUnplugged =>
    cases h
    rfl
  | rename storage a newName =>
    simp only [cardAnswers] at h
    split at h
    · rename_i o ho
      obtain ⟨obj, hobj, hr⟩ := Option.map_eq_some_iff.mp h
      cases hr
      exact .inl (.rename ho hobj)
    · cases h
  | moveObject storage a newParent =>
    simp only [cardAnswers] at h
    split at h
    · rename_i hroot
      subst hroot
      split at h
      · rename_i o ho
        obtain ⟨obj, hobj, hr⟩ := Option.map_eq_some_iff.mp h
        cases hr
        exact .inl (.move ho hobj rfl .root)
      · cases h
    · cases h
      exact .inr ⟨rfl, _, rfl⟩
  | _ => cases h

/-- The rename of `a` in that mount, with what its end was tested for. -/
theorem renameA_of_test (newParent : Nat) (newName : String)
    (test : (Except Errno Reply × MtpFs) × Phone → Bool)
    (ht : (((rename 2 (some "a") newParent (some newName)).run cardMount).runWith cardAnswers
      cardPhone).any test = true) :
    ∃ r fs s, Prog.Ends (cardNames.Obeys [1, 2])
      ((rename 2 (some "a") newParent (some newName)).run cardMount) cardPhone (r, fs) s ∧
      test ((r, fs), s) = true := by
  obtain ⟨⟨⟨r, fs⟩, s⟩, hrun, htest⟩ := (Option.any_eq_true _ _).mp ht
  refine ⟨r, fs, s, Prog.runWith_ends_of (I := fun _ => True) ?_ trivial hrun, htest⟩
  exact fun s c a s' _ h => ⟨cardAnswers_obeys h, trivial⟩

/-! ## When a rename does what it says -/

namespace Renaming

variable {N : Naming} {stores : List Nat} {r : Renaming} {s₀ s' : Phone} {fs fs' : MtpFs}

/-- After a rename that fails, the object is where the table has its inode if and
only if no request took effect, or the only one that did was a move from the root
of a storage to that of another, which moves nothing. -/
theorem rename_fails_iff (hr : r.Starts N stores fs.link s₀) {newName : Option String}
    {err : Errno} (hname : ∀ n, newName = some n → n = r.newName)
    (hends : Prog.Ends (N.Obeys stores)
      ((rename r.parent (some r.name) r.newParent newName).run fs) s₀ (.error err, fs') s') :
    (∃ storage, AtPath N s' fs'.link r.ino storage r.object) ↔ s'.done = s₀.done ∨
      r.name = r.newName ∧ fs.link.inodes.IsTop r.parent ∧ fs.link.inodes.IsTop r.newParent := by
  obtain ⟨st, above, folder, obj, hh⟩ := hr.home
  cases newName with
  | none =>
    have hwp : Attempt.wp (N.Obeys stores) (fun _ _ => True)
        (rename r.parent (some r.name) r.newParent none) (fun _ _ _ => True)
        (fun _ fs' s' => fs' = fs ∧ s' = s₀) fs s₀ := by
      unfold rename
      rw [Attempt.wp_bind, guardWritable_wp]
      refine ⟨fun _ => ⟨rfl, rfl⟩, fun _ => ?_⟩
      rw [Attempt.wp_bind]
      refine nameOr_wp (fun n _ => ?_) ⟨rfl, rfl⟩
      rw [Attempt.wp_bind]
      exact nameOr_wp nofun ⟨rfl, rfl⟩
    obtain ⟨rfl, rfl⟩ := Attempt.wp_error hwp hends
    exact iff_of_true hr.found (.inl rfl)
  | some n =>
    obtain rfl := hname n rfl
    have hwp := rename_moves hr hh rfl
    obtain ⟨hs, hout⟩ := Attempt.wp_error hwp hends
    rw [atPath_iff_finds hr hh hs]
    exact finds_home_iff hr hh hout

/-- A refused move leaves the file where it was. -/
theorem rename_fails_refused : ∃ err fs' s', Prog.Ends (cardNames.Obeys [1, 2])
    ((rename 2 (some "a") 4 (some "a")).run cardMount) cardPhone (.error err, fs') s' ∧
      ∃ storage, AtPath cardNames s' fs'.link 5 storage 80 := by
  obtain ⟨r, fs', s', hends, htest⟩ := renameA_of_test 4 "a"
    (fun x => !x.1.1.isOk && x.2.done.isEmpty) (by rfl)
  simp only [Bool.and_eq_true, List.isEmpty_iff] at htest
  rcases r with err | reply
  · have hstart := starts_cardMount (.inr (.inr rfl)) "a"
    refine ⟨err, fs', s', hends, (rename_fails_iff hstart (fun n hn => ?_) hends).mpr (.inl htest.2)⟩
    exact (Option.some.inj hn).symm
  · cases htest.1

/-- The new name is taken and the move refused: the rename fails, with the object
under its new name. -/
theorem rename_fails_renamed : ¬ ∀ (N : Naming) (stores : List Nat) (r : Renaming) (s₀ s' : Phone)
    (fs fs' : MtpFs) (err : Errno), r.Starts N stores fs.link s₀ →
      Prog.Ends (N.Obeys stores) ((rename r.parent (some r.name) r.newParent
        (some r.newName)).run fs) s₀ (.error err, fs') s' →
      ∃ storage, AtPath N s' fs'.link r.ino storage r.object := by
  intro hclaim
  obtain ⟨r, fs', s', hends, htest⟩ := renameA_of_test 4 "c"
    (fun x => !x.1.1.isOk && !x.2.done.isEmpty) (by rfl)
  simp only [Bool.and_eq_true, Bool.not_eq_true', List.isEmpty_eq_false_iff] at htest
  rcases r with err | reply
  · have hstart := starts_cardMount (.inr (.inr rfl)) "c"
    obtain ⟨st, above, folder, obj, hh⟩ := hstart.home
    have hat := hclaim _ _ (renamingA 4 "c") cardPhone s' cardMount fs' err hstart hends
    have hwp := rename_moves hstart hh rfl
    obtain ⟨hs, hout⟩ := Attempt.wp_error hwp hends
    rw [atPath_iff_finds hstart hh hs, finds_home_iff hstart hh hout] at hat
    rcases hat with hdone | ⟨hname, -⟩
    · exact htest.2 hdone
    · exact absurd hname (by decide)
  · cases htest.1

/-- After a rename that succeeds, the object is where the new table has its inode
if and only if the new parent was in the same storage: the move is called on the
storage of the object, and stays in it. -/
theorem rename_lands_iff (hr : r.Starts N stores fs.link s₀) {reply : Reply}
    (hends : Prog.Ends (N.Obeys stores)
      ((rename r.parent (some r.name) r.newParent (some r.newName)).run fs) s₀
      (.ok reply, fs') s') :
    (∃ storage, AtPath N s' fs'.link r.ino storage r.object) ↔
      fs.link.storageFor r.ino = fs.link.storageFor r.newParent := by
  obtain ⟨st, above, folder, obj, hh⟩ := hr.home
  have hwp := rename_moves hr hh rfl
  obtain ⟨l, hs, hlink, hended⟩ := Attempt.wp_ok hwp hends
  obtain ⟨st', names, folder', hp, -, hnew⟩ := hended.newFolder hh
  rw [hlink, atPath_renamed_iff hr hh hs hp,
    hr.synced.storageFor_eq_iff hr.rooted hr.distinct hh.path hp]
  constructor
  · intro hf
    cases hf with
    | child _ hat => exact hended.storage hh hat
  · intro heq
    obtain ⟨hfind, hat, -⟩ := hnew heq
    exact hfind.child hat

/-- A new name in the same folder. -/
theorem rename_lands_beside : ∃ reply fs' s', Prog.Ends (cardNames.Obeys [1, 2])
    ((rename 2 (some "a") 2 (some "c")).run cardMount) cardPhone (.ok reply, fs') s' ∧
      ∃ storage, AtPath cardNames s' fs'.link 5 storage 80 := by
  obtain ⟨r, fs', s', hends, htest⟩ := renameA_of_test 2 "c" (fun x => x.1.1.isOk) (by rfl)
  rcases r with err | reply
  · cases htest
  · have hstart := starts_cardMount (.inl rfl) "c"
    have hsame : cardMount.link.storageFor 5 = cardMount.link.storageFor 2 := by rfl
    exact ⟨reply, fs', s', hends, (rename_lands_iff hstart hends).mpr hsame⟩

/-- A move to the card leaves the file in the internal storage. -/
theorem rename_lands_elsewhere : ¬ ∀ (N : Naming) (stores : List Nat) (r : Renaming)
    (s₀ s' : Phone) (fs fs' : MtpFs) (reply : Reply), r.Starts N stores fs.link s₀ →
      Prog.Ends (N.Obeys stores) ((rename r.parent (some r.name) r.newParent
        (some r.newName)).run fs) s₀ (.ok reply, fs') s' →
      ∃ storage, AtPath N s' fs'.link r.ino storage r.object := by
  intro hclaim
  obtain ⟨r, fs', s', hends, htest⟩ := renameA_of_test 3 "a" (fun x => x.1.1.isOk) (by rfl)
  rcases r with err | reply
  · cases htest
  · have hstart := starts_cardMount (.inr (.inl rfl)) "a"
    obtain ⟨st, above, folder, obj, hh⟩ := hstart.home
    have hat := hclaim _ _ (renamingA 3 "a") cardPhone s' cardMount fs' reply hstart hends
    have hwp := rename_moves hstart hh rfl
    obtain ⟨l, hs, hlink, hended⟩ := Attempt.wp_ok hwp hends
    obtain ⟨st', names, folder', hp, -⟩ := hended.newFolder hh
    rw [hlink, atPath_renamed_iff hstart hh hs hp] at hat
    cases hat with
    | child _ hat =>
      have hsame := hended.storage hh hat
      rw [← hstart.synced.storageFor_eq_iff hstart.rooted hstart.distinct hh.path hp] at hsame
      exact absurd hsame (by decide)

/-- The internal storage of that mount is the root of the first storage of the device. -/
theorem folderOf_cardMount {st : Nat} {f : Option Nat} :
    FolderOf cardNames [1, 2] cardMount.link.inodes cardPhone 2 st f ↔ st = 1 ∧ f = none := by
  have hp : PathOf cardNames [1, 2] cardMount.link.inodes 2 1 [] :=
    ⟨[], 2, climbs_cardMount.1, stands_cardMount.1.isStorageOf synced_cardMount.bound, rfl⟩
  constructor
  · rintro ⟨names, hp', hf⟩
    obtain ⟨rfl, rfl⟩ := hp'.unique distinct_cardNames hp
    exact ⟨rfl, hf.eq_none_iff.mpr rfl⟩
  · rintro ⟨rfl, rfl⟩
    exact ⟨[], hp, .root⟩

end Renaming

end MtpMount
