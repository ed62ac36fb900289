import MtpMount.Cuts

/-!
# Where a file is, from one callback to the next

The file behind an inode is the one object at its path. That stays so when the
recovery takes a new session, when uploads that failed left parts of a file beside it,
and when a flush puts a new object in its place.

* `FileAt`: the inode, its path, and the object there;
* `FileAt.moved`: the same of a later state, by what may have changed;
* `FileAt.again`: so after attempts that failed;
* `FileAt.recorded`: so after a flush, with the new object.
-/

namespace MtpMount

open Interaction

namespace InodeTable

variable {t u : InodeTable}

theorem SameTree.consistent (h : t.SameTree u) (ht : t.Consistent) (hu : u.Rooted) : u.Consistent := by
  have hchildren : u.children = t.children := by rw [h.rest]; rfl
  have hnext : u.nextInode = t.nextInode := by rw [h.rest]
  refine { hu.toLinked with noSelf := ?_, nodup := ?_, unused := ?_ }
  · intro i e he hi
    obtain ⟨e', he', hs⟩ := h.symm.get he
    rw [← (InodeEntry.shape_inj hs).1]
    exact ht.noSelf i e' he' hi
  · intro p hp
    obtain ⟨e, he⟩ := Option.isSome_iff_exists.mp hp
    obtain ⟨e', he', -⟩ := h.symm.get he
    rw [hchildren]
    exact ht.nodup p (by rw [he']; rfl)
  · intro p hp
    rw [hnext] at hp
    rw [hchildren]
    exact ht.unused p hp

/-- An upload that keeps the name leaves the tree as it is. -/
theorem SameTree.recordUpload {i size now : Nat} {a b : ObjectHandle} {e : InodeEntry}
    (he : t.get i = some e) (hk : e.kind = .file b) :
    t.SameTree (t.recordUpload i a none size now) where
  rest := rfl
  shape := by
    intro j
    rw [InodeTable.recordUpload, get_getMut]
    split
    · rename_i hj
      rw [hj, he, Option.map_some, Option.map_some, Option.map_some]
      simp only [InodeEntry.shape, hk, Option.getD_none]
      rfl
    · rfl

theorem get_recordUpload {i j size now : Nat} {a : ObjectHandle} {name : Option String} (h : j ≠ i) :
    (t.recordUpload i a name size now).get j = t.get j := by
  rw [InodeTable.recordUpload, get_getMut, if_neg h]

theorem isFresh_recordUpload {i j size now : Nat} {a : ObjectHandle} {name : Option String} (h : j ≠ i) :
    (t.recordUpload i a name size now).isFresh j = t.isFresh j := by
  unfold isFresh
  rw [get_recordUpload h]
  rfl

end InodeTable

/-- An upload that keeps the name does not touch the storages either. -/
theorem Synced.recordUpload {N : Naming} {stores : List Nat} {t : InodeTable} {l : Link} {i size now : Nat}
    {a b : ObjectHandle} {e : InodeEntry} (h : Synced N stores t l) (he : l.inodes.get i = some e)
    (hk : e.kind = .file b) :
    Synced N stores t { l with inodes := l.inodes.recordUpload i a none size now } where
  tree := h.tree.trans (.recordUpload he hk)
  rooted := by
    refine (InodeTable.SameTree.recordUpload he hk).rooted h.rooted (InodeTable.get_recordUpload ?_)
    rintro rfl
    cases h.rooted.root.symm.trans he
    cases hk
  dated := by
    intro j e' he'
    by_cases hj : j = i
    · subst hj
      rw [InodeTable.recordUpload, InodeTable.get_getMut, if_pos rfl, he] at he'
      cases he'
      exact h.dated j e he
    · rw [InodeTable.get_recordUpload hj] at he'
      exact h.dated j e' he'
  bound := h.bound
  stands := by
    intro top htop
    obtain ⟨st, hst, entry, sid, hentry, hsid, hrest⟩ := h.stands top htop
    refine ⟨st, hst, entry, sid, ?_, hsid, hrest⟩
    rw [← hentry]
    refine InodeTable.get_recordUpload ?_
    rintro rfl
    cases he.symm.trans hentry
    cases hk.symm.trans hsid

variable {N : Naming} {stores : List Nat} {s₀ s : Phone} {l₀ l : Link} {i st o x : Nat}
  {entry : InodeEntry} {folder : Option Nat} {names : List String}

/-- The inode is one of a file. Its path leads to the one object of its name in the folder,
and what is fresh on the way is up to date. -/
structure FileAt (N : Naming) (stores : List Nat) (l : Link) (s : Phone) (i st : Nat)
    (entry : InodeEntry) (names : List String) (folder : Option Nat) (o : Nat) : Prop where
  consistent : l.inodes.Consistent
  synced : Synced N stores l.inodes l
  distinct : N.Distinct stores
  live : l.inodes.get i = some entry
  file : ∃ a, entry.kind = .file a
  path : PathOf N stores l.inodes i st (entry.name :: names)
  above : s.FindsOnly st names folder
  there : s.At st folder entry.name o
  only : ∀ y, s.At st folder entry.name y → y = o
  denotes : ∀ j e a, OnChain l.inodes i j → l.inodes.get j = some e → l.inodes.isFresh j = true →
    e.kind.handle? = some a →
      ∃ y, N.object l.device.session a = some y ∧ LeadsTo N stores l.inodes s j (some y)

namespace FileAt

section

variable (h : FileAt N stores l₀ s₀ i st entry names folder o)

include h

theorem finds : s₀.FindsOnly st (entry.name :: names) (some o) := .child h.above h.there h.only

theorem folderPath : PathOf N stores l₀.inodes entry.parent st names := by
  obtain ⟨e, he, -, -, hp⟩ := h.path.last
  cases h.live.symm.trans he
  exact hp

theorem onChain_parent {j : Nat} (hj : OnChain l₀.inodes entry.parent j) : OnChain l₀.inodes i j := by
  obtain ⟨a, ha⟩ := h.file
  obtain ⟨nodes, top, hc, hj⟩ := hj
  exact ⟨i :: nodes, top, .up h.live (by rw [ha]; rfl) hc, List.mem_cons_of_mem _ hj⟩

theorem denoting {j : Nat} {e : InodeEntry} {a : ObjectHandle} (hj : OnChain l₀.inodes i j)
    (he : l₀.inodes.get j = some e) (hf : l₀.inodes.isFresh j = true) (ha : e.kind.handle? = some a) :
    Denoting N l₀ s₀ j a := by
  obtain ⟨y, hy, hlead⟩ := h.denotes j e a hj he hf ha
  obtain ⟨storage, hat⟩ := (h.synced.atPath_iff h.synced.rooted h.distinct).mpr hlead
  refine ⟨storage, y, hat, ?_⟩
  obtain ⟨nodes, top, st', -, hs, -⟩ := hat
  rw [h.synced.bound.session_of hs]
  exact hy

/-- As the attempts of an operation on the file find it. -/
theorem reached : Reached N stores l₀ s₀ i st (entry.name :: names) (some o) where
  consistent := h.consistent
  synced := h.synced
  distinct := h.distinct
  path := h.path
  finds := h.finds.finds
  only := fun _ => h.finds.unique
  denotes := fun _ _ _ => h.denoting

theorem reached_folder : Reached N stores l₀ s₀ entry.parent st names folder where
  consistent := h.consistent
  synced := h.synced
  distinct := h.distinct
  path := h.folderPath
  finds := h.above.finds
  only := fun _ => h.above.unique
  denotes := fun _ _ _ hj => h.denoting (h.onChain_parent hj)

/-- A later state with the same tree. The way to the folder is what it was, the object in
it is `x`, and a fresh handle of the file is one of `x`. -/
theorem moved (hs : Synced N stores l₀.inodes l)
    (hway : ∀ above r, above <:+ names → s₀.FindsOnly st above r → s.FindsOnly st above r)
    (hthere : s.At st folder entry.name x) (honly : ∀ y, s.At st folder entry.name y → y = x)
    (hself : ∀ e a, l.inodes.get i = some e → l.inodes.isFresh i = true → e.kind.handle? = some a →
      N.object l.device.session a = some x)
    (hother : ∀ j e a, j ≠ i → OnChain l₀.inodes i j → l.inodes.get j = some e →
      l.inodes.isFresh j = true → e.kind.handle? = some a →
        ∃ y, N.object l.device.session a = some y ∧ LeadsTo N stores l₀.inodes s₀ j (some y)) :
    ∃ entry', FileAt N stores l s i st entry' names folder x ∧ entry'.name = entry.name := by
  obtain ⟨entry', hlive, hshape⟩ := hs.tree.get h.live
  obtain ⟨-, hname, hbare⟩ := InodeEntry.shape_inj hshape
  have hpath := hs.tree.pathOf h.path
  have habove := hway names folder List.suffix_rfl h.above
  refine ⟨entry', ⟨hs.tree.consistent h.consistent hs.rooted, ?_, h.distinct, hlive, ?_, ?_, habove,
    ?_, ?_, ?_⟩, hname⟩
  · refine ⟨.refl _, hs.rooted, hs.dated, hs.bound, fun top htop => hs.stands top ?_⟩
    rw [hs.tree.rest] at htop
    exact htop
  · obtain ⟨a, ha⟩ := h.file
    rw [ha] at hbare
    cases hk : entry'.kind with
    | file b => exact ⟨b, rfl⟩
    | _ => rw [hk] at hbare; cases hbare
  · rw [hname]
    exact hpath
  · rw [hname]
    exact hthere
  · rw [hname]
    exact honly
  · intro j e a hj he hf ha
    by_cases hji : j = i
    · subst hji
      exact ⟨x, hself e a he hf ha, st, _, hpath, .child habove.finds hthere⟩
    · obtain ⟨nodes, top, hc, hmem⟩ := hj
      have hj₀ : OnChain l₀.inodes i j := ⟨nodes, top, hs.tree.symm.climbs hc, hmem⟩
      obtain ⟨y, hy, st', names', hp, hfind⟩ := hother j e a hji hj₀ he hf ha
      refine ⟨y, hy, st', names', hs.tree.pathOf hp, ?_⟩
      -- the path of a folder above is the rest of the path to the folder
      obtain ⟨rfl, hsuffix⟩ := h.path.suffix h.distinct hj₀ hp
      obtain ⟨names'', hp', hlen⟩ := h.path.onChain hj₀ hji
      obtain ⟨-, rfl⟩ := hp.unique h.distinct hp'
      have hsuffix : names' <:+ names := by
        rcases List.suffix_cons_iff.mp hsuffix with rfl | hsuffix
        · exact absurd hlen (Nat.lt_irrefl _)
        · exact hsuffix
      obtain ⟨below, rfl⟩ := id hsuffix
      obtain ⟨r, hr⟩ := h.above.suffix
      rw [hr.unique hfind]
      exact (hway _ _ hsuffix hr).finds

variable {temp : String} {e : Phone}
  (hs : Synced N stores l₀.inodes l)
  (hD : l.Denotes (Leads N stores l₀.inodes s₀ (OnChain l₀.inodes i) l.device.session) e)
  (hb : s₀.Beside s st folder temp) (hne : entry.name ≠ temp)

include hs hD hb hne

/-- After attempts that failed, the old object is there, whatever lies beside it. -/
theorem again : ∃ entry', FileAt N stores l s i st entry' names folder o ∧ entry'.name = entry.name := by
  have hat : ∀ {y}, s.At st folder entry.name y ↔ s₀.At st folder entry.name y :=
    hb.at_iff fun hname => hne hname.2
  refine h.moved hs (fun above r => hb.findsOnly h.above.finds) (hat.mpr h.there)
    (fun y hy => h.only y (hat.mp hy)) (fun e a he hf ha => ?_) fun j e a _ hj he hf ha =>
      hD j e a he hf ha hj
  obtain ⟨y, hy, hlead⟩ := hD i e a he hf ha (h.path.onChain_self hs he ha)
  cases h.reached.eq_of_leadsTo hlead
  exact hy

omit hs hD in
/-- What is found on the way was there at the start. -/
theorem untouched : Untouched s₀ s st (entry.name :: names) := by
  intro above folder' name y hsuffix hf hat
  refine (hb.at_iff ?_).mp hat
  rintro ⟨rfl, rfl⟩
  rcases List.suffix_cons_iff.mp hsuffix with heq | hsuffix
  · exact hne (List.cons.inj heq).1.symm
  · exact hf.not_above h.above.finds hsuffix

omit hne in
/-- A flush that came through put a new object in the place of the old one. -/
theorem recorded {s' : Phone} {a : ObjectHandle} {size now : Nat}
    (hb' : s.Beside s' st folder entry.name) (hthere : s'.At st folder entry.name x)
    (honly : ∀ y, s'.At st folder entry.name y → y = x)
    (ha : N.object l.device.session a = some x) :
    ∃ entry', FileAt N stores { l with inodes := l.inodes.recordUpload i a none size now } s' i st
      entry' names folder x ∧ entry'.name = entry.name := by
  obtain ⟨en, hen, hshape⟩ := hs.tree.get h.live
  obtain ⟨b, hb₀⟩ := h.file
  obtain ⟨-, -, hbare⟩ := InodeEntry.shape_inj hshape
  rw [hb₀] at hbare
  obtain ⟨c, hc⟩ : ∃ c, en.kind = .file c := by
    cases hk : en.kind with
    | file c => exact ⟨c, rfl⟩
    | _ => rw [hk] at hbare; cases hbare
  refine h.moved (hs.recordUpload hen hc) (fun above r hsuffix hf => ?_) hthere honly
    (fun e a' he _ ha' => ?_) fun j e a' hj hon he hf ha' => ?_
  · have hfolder := hb.findsOnly h.above.finds List.suffix_rfl h.above
    exact hb'.findsOnly hfolder.finds hsuffix (hb.findsOnly h.above.finds hsuffix hf)
  · dsimp only at he
    rw [InodeTable.recordUpload, InodeTable.get_getMut, if_pos rfl, hen] at he
    cases he
    cases ha'
    exact ha
  · dsimp only at he hf
    rw [InodeTable.get_recordUpload hj] at he
    rw [InodeTable.isFresh_recordUpload hj] at hf
    exact hD j e a' he hf ha' hon

end

end FileAt

end MtpMount
