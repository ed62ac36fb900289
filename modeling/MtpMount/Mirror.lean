import MtpMount.Relist
import MtpMount.Loaded

/-!
# What a re-listing makes of a directory

`sync_children` looks each report up in the indexes it is changing, and removes
what no report named at the end.

* `syncChildren_mirrors`: the children are the reported names, each once and as
  its last report says, and every other entry is as it was;
* `keeps_number_iff`: a child whose last report has its kind keeps its number
  when the earlier reports of its name have that kind as well.
-/

namespace MtpMount.InodeTable

variable {t u : InodeTable} {i p : Nat} {n : String} {e : InodeEntry} {c : ChildInfo}
  {cs : List ChildInfo}

/-- The entry is as the report says. -/
structure Shows (e : InodeEntry) (c : ChildInfo) : Prop where
  kind : e.kind = .ofObject c.isDir c.handle
  size : e.size = c.size
  mtime : e.mtime = c.mtime

theorem Shows.isDir (h : Shows e c) : e.isDir = c.isDir := by
  unfold InodeEntry.isDir
  rw [h.kind]
  unfold InodeKind.ofObject
  cases c.isDir <;> rfl

theorem shows_refreshChild (g : Nat) (e : InodeEntry) (c : ChildInfo) :
    Shows (refreshChild g e c) c := ⟨rfl, rfl, rfl⟩

/-- The report of a name that counts in the end. -/
def lastReport (n : String) (cs : List ChildInfo) : Option ChildInfo := (reportsOf n cs).getLast?

theorem lastReport_append (n : String) (cs : List ChildInfo) (c : ChildInfo) :
    lastReport n (cs ++ [c]) = if c.name = n then some c else lastReport n cs := by
  unfold lastReport reportsOf
  rw [List.filter_append]
  split <;> simp [*]

theorem lastReport_mem (h : lastReport n cs = some c) : c ∈ cs ∧ c.name = n := by
  obtain ⟨hmem, hname⟩ := List.mem_filter.mp (List.mem_of_getLast? h)
  exact ⟨hmem, eq_of_beq hname⟩

theorem exists_lastReport (h : ∃ c ∈ cs, c.name = n) : ∃ c, lastReport n cs = some c := by
  obtain ⟨c, hc, hn⟩ := h
  have hmem : c ∈ reportsOf n cs := List.mem_filter.mpr ⟨hc, beq_iff_eq.mpr hn⟩
  exact ⟨_, List.getLast?_eq_some_getLast (List.ne_nil_of_mem hmem)⟩

/-- A name leads to the child that has it. -/
theorem Consistent.lookup_eq_some_iff (h : Consistent t) : t.lookup p n = some i ↔
    ∃ e, t.get i = some e ∧ i ≠ FUSE_ROOT_INODE ∧ e.parent = p ∧ e.name = n := by
  constructor
  · intro hl
    obtain ⟨e, he, hp, hn⟩ := h.sound p n i hl
    refine ⟨e, he, ?_, hp, hn⟩
    rintro rfl
    exact h.noRoot p n hl
  · rintro ⟨e, he, hi, rfl, rfl⟩
    exact h.complete i e he hi

/-! ## One report -/

/-- The entry that a report adds. -/
def newChild (t : InodeTable) (p : Nat) (c : ChildInfo) : InodeEntry where
  inode := t.nextInode
  parent := p
  name := c.name
  kind := .ofObject c.isDir c.handle
  size := c.size
  mtime := c.mtime
  atime := c.mtime
  generation := t.generation

/-- Entries that are not below `p` under the name `n` are the same in both tables. -/
def SameBut (p : Nat) (n : String) (t u : InodeTable) : Prop :=
  ∀ j e, e.parent ≠ p ∨ j = FUSE_ROOT_INODE ∨ e.name ≠ n → (u.get j = some e ↔ t.get j = some e)

theorem evictName_of_none (h : t.lookup p n = none) (keep : Nat) : t.evictName p n keep = t := by
  unfold evictName
  rw [h]

theorem placed_addChild_of_none (h : t.lookup p c.name = none) :
    Placed t (newChild t p c) (t.addChild p c) := by
  have hplaced := placed_insert (t := t) (e := newChild t p c) rfl
  rw [show t.evictName (newChild t p c).parent (newChild t p c).name (newChild t p c).inode = t from
    evictName_of_none h _] at hplaced
  exact hplaced

theorem Consistent.sameBut_remove (h : Consistent t) (hl : t.lookup p n = some i) :
    SameBut p n t (t.remove i) := by
  intro j e hother
  rw [get_remove]
  split
  · rename_i hj
    obtain ⟨e', he', hp, hn⟩ := h.sound p n i hl
    refine iff_of_false (by simp) fun he => ?_
    rw [hj, he'] at he
    cases he
    rcases hother with hp' | hroot | hn'
    · exact hp' hp
    · exact h.noRoot p n (by rw [← hroot, hj]; exact hl)
    · exact hn' hn
  · exact Iff.rfl

theorem Consistent.sameBut_placed (h : Consistent t) (hi : e.inode = t.nextInode)
    (hu : Placed t e u) : SameBut e.parent e.name t u := by
  intro j e' hother
  rw [hu.get]
  split
  · rename_i hj
    refine iff_of_false ?_ ?_
    · intro he
      cases he
      have hbound := h.rootBound
      rcases hother with hp | hroot | hn
      · exact hp rfl
      · omega
      · exact hn rfl
    · rw [hj, hi, h.get_nextInode]
      simp
  · exact Iff.rfl

theorem SameBut.trans {v : InodeTable} (h : SameBut p n t u) (h' : SameBut p n u v) :
    SameBut p n t v :=
  fun j e hother => (h' j e hother).trans (h j e hother)

/-- A report refreshes the child of its name and kind, or puts a new one where no
other is left. -/
theorem Consistent.syncChild_cases (h : Consistent t) (p : Nat) (c : ChildInfo) :
    (∃ i e, t.lookup p c.name = some i ∧ t.get i = some e ∧
      t.syncChild p c = t.getMut i fun e => refreshChild t.generation e c) ∨
    ∃ t', Consistent t' ∧ SameBut p c.name t t' ∧ t'.generation = t.generation ∧
      Placed t' (newChild t' p c) (t.syncChild p c) := by
  unfold InodeTable.syncChild
  cases hl : t.lookup p c.name with
  | none => exact .inr ⟨t, h, fun _ _ _ => Iff.rfl, rfl, placed_addChild_of_none hl⟩
  | some i =>
    obtain ⟨e, he, hp, hn⟩ := h.sound p c.name i hl
    dsimp only
    rw [he, Option.any_some]
    by_cases hd : (e.isDir == c.isDir) = true
    · rw [if_pos hd]
      exact .inl ⟨i, e, rfl, he, rfl⟩
    · rw [if_neg hd]
      have hi : i ≠ FUSE_ROOT_INODE := by
        rintro rfl
        exact h.noRoot p c.name hl
      refine .inr ⟨t.remove i, h.remove hi, h.sameBut_remove hl, generation_remove t i,
        placed_addChild_of_none ?_⟩
      rw [lookup_remove he, if_pos ⟨hp.symm, hn.symm⟩]

/-- After a report its name leads to an entry as it says, and the others are as they were. -/
theorem Consistent.syncChild_spec (h : Consistent t) (p : Nat) (c : ChildInfo) :
    (∃ i e, (t.syncChild p c).lookup p c.name = some i ∧ (t.syncChild p c).get i = some e ∧
      Shows e c ∧ e.generation = t.generation) ∧ SameBut p c.name t (t.syncChild p c) := by
  rcases h.syncChild_cases p c with ⟨i, e, hl, he, hsync⟩ | ⟨t', h', hsame, hg, hplaced⟩
  · rw [hsync]
    refine ⟨⟨i, refreshChild t.generation e c, hl, ?_, shows_refreshChild .., rfl⟩, fun j e' hother => ?_⟩
    · rw [get_getMut, if_pos rfl, he]
      rfl
    · rw [get_getMut]
      split
      · rename_i hj
        obtain ⟨e₀, he₀, hp, hn⟩ := h.sound p c.name i hl
        cases he.symm.trans he₀
        have hnot : ∀ g : InodeEntry, g.parent = p → g.name = c.name → some g ≠ some e' := by
          rintro g hgp hgn heq
          cases heq
          rcases hother with hp' | hroot | hn'
          · exact hp' hgp
          · exact h.noRoot p c.name (by rw [← hroot, hj]; exact hl)
          · exact hn' hgn
        rw [hj, he]
        exact iff_of_false (hnot _ hp hn) (hnot _ hp hn)
      · exact Iff.rfl
  · refine ⟨⟨(newChild t' p c).inode, newChild t' p c, ?_, ?_, ⟨rfl, rfl, rfl⟩, hg⟩,
      hsame.trans (h'.sameBut_placed rfl hplaced)⟩
    · rw [hplaced.lookup, if_pos ⟨rfl, rfl⟩]
    · rw [hplaced.get, if_pos rfl]

/-! ## All reports -/

/-- The directory `p` after the reports `seen`, before the others are removed. -/
structure Reported (t : InodeTable) (p : Nat) (seen : List ChildInfo) (u : InodeTable) : Prop where
  consistent : Consistent u
  live : (u.get p).isSome
  generation : u.generation = t.generation
  last : ∀ n c, lastReport n seen = some c → ∃ i e, u.lookup p n = some i ∧ u.get i = some e ∧
    Shows e c ∧ e.generation = t.generation
  other : ∀ j e, e.parent ≠ p ∨ j = FUSE_ROOT_INODE ∨ (∀ c ∈ seen, c.name ≠ e.name) →
    (u.get j = some e ↔ t.get j = some e)

theorem Consistent.reported (h : Consistent t) (hp : (t.get p).isSome) (cs : List ChildInfo) :
    Reported t p cs (cs.foldl (fun t c => t.syncChild p c) t) := by
  induction cs using List.reverseRecOn with
  | nil => exact ⟨h, hp, rfl, fun n c hc => (nomatch hc), fun _ _ _ => Iff.rfl⟩
  | append_singleton cs c ih =>
    rw [List.foldl_append]
    show Reported t p (cs ++ [c]) ((cs.foldl (fun t c => t.syncChild p c) t).syncChild p c)
    generalize cs.foldl (fun t c => t.syncChild p c) t = u at ih ⊢
    obtain ⟨ep, hep⟩ := Option.isSome_iff_exists.mp ih.live
    obtain ⟨hlast, hsame⟩ := ih.consistent.syncChild_spec p c
    have hcon := ih.consistent.syncChild (ih.consistent.bound p ep hep) c
    refine ⟨hcon, ?_, ?_, fun n c' hc' => ?_, fun j e hother => ?_⟩
    · rw [ih.consistent.linked.get_syncChild_parent (ih.consistent.not_isChild_self p) c ih.live]
      exact ih.live
    · rw [generation_syncChild, ih.generation]
    · rw [lastReport_append] at hc'
      split at hc'
      · rename_i hn
        cases hc'
        rw [← hn, ← ih.generation]
        exact hlast
      · -- what an earlier report left under another name is still there
        rename_i hn
        obtain ⟨i, e, hl, he, hshows, hg⟩ := ih.last n c' hc'
        obtain ⟨e₀, he₀, hi, hpar, hname⟩ := ih.consistent.lookup_eq_some_iff.mp hl
        cases he.symm.trans he₀
        have he' : (u.syncChild p c).get i = some e :=
          (hsame i e (.inr (.inr fun heq => hn (heq.symm.trans hname)))).mpr he
        exact ⟨i, e, hcon.lookup_eq_some_iff.mpr ⟨e, he', hi, hpar, hname⟩, he', hshows, hg⟩
    · refine (hsame j e ?_).trans (ih.other j e ?_)
      · exact hother.imp_right (Or.imp_right fun hall heq =>
          hall c (List.mem_append_right cs List.mem_cons_self) heq.symm)
      · exact hother.imp_right (Or.imp_right fun hall d hd => hall d (List.mem_append_left [c] hd))

/-! ## The whole listing -/

theorem mem_gone (h : Consistent t) (hp : (t.get p).isSome) : i ∈ t.gone p cs ↔
    ∃ e, t.get i = some e ∧ i ≠ FUSE_ROOT_INODE ∧ e.parent = p ∧ ∀ c ∈ cs, c.name ≠ e.name := by
  unfold gone
  rw [List.mem_filter, h.children p hp]
  constructor
  · rintro ⟨⟨e, he, hi, hpar⟩, hany⟩
    rw [he, Option.any_some, Bool.not_eq_true', List.any_eq_false] at hany
    exact ⟨e, he, hi, hpar, fun c hc hn => hany c hc (beq_iff_eq.mpr hn)⟩
  · rintro ⟨e, he, hi, hpar, hall⟩
    refine ⟨⟨e, he, hi, hpar⟩, ?_⟩
    rw [he, Option.any_some, Bool.not_eq_true', List.any_eq_false]
    exact fun c hc hn => hall c hc (eq_of_beq hn)

/-- The directory `p` after the listing `cs`. -/
structure Synced (t : InodeTable) (p : Nat) (cs : List ChildInfo) (u : InodeTable) : Prop where
  consistent : Consistent u
  live : (u.get p).isSome
  generation : u.generation = t.generation
  last : ∀ n c, lastReport n cs = some c → ∃ i e, u.lookup p n = some i ∧ u.get i = some e ∧
    Shows e c ∧ e.generation = t.generation
  named : ∀ i, u.IsChild p i → ∃ e, u.get i = some e ∧ ∃ c ∈ cs, c.name = e.name
  other : ∀ j e, e.parent ≠ p ∨ j = FUSE_ROOT_INODE → (u.get j = some e ↔ t.get j = some e)

theorem Consistent.synced (h : Consistent t) (hp : (t.get p).isSome) (cs : List ChildInfo) :
    Synced t p cs (t.syncChildren p cs) := by
  have hr := h.reported hp cs
  have hcon := h.syncChildren hp cs
  unfold InodeTable.syncChildren at hcon ⊢
  dsimp only at hcon ⊢
  generalize cs.foldl (fun t c => t.syncChild p c) t = u at hr hcon ⊢
  have hget : ∀ j, (∀ e, u.get j = some e → j = FUSE_ROOT_INODE ∨ e.parent ≠ p ∨
      ∃ c ∈ cs, c.name = e.name) → (u.removeAll (u.gone p cs)).get j = u.get j := by
    intro j hj
    rw [get_removeAll, if_neg]
    intro hmem
    obtain ⟨e, he, hi, hpar, hall⟩ := (mem_gone hr.consistent hr.live).mp hmem
    rcases hj e he with hroot | hpar' | ⟨c, hc, hn⟩
    · exact hi hroot
    · exact hpar' hpar
    · exact hall c hc hn
  refine ⟨hcon, ?_, ?_, fun n c hc => ?_, fun i hi => ?_, fun j e hother => ?_⟩
  · rw [hget p]
    · exact hr.live
    · intro e he
      by_cases hroot : p = FUSE_ROOT_INODE
      · exact .inl hroot
      · exact .inr (.inl (hr.consistent.noSelf p e he hroot))
  · rw [(Fed.removeAll (fun _ => True) u _).generation, hr.generation]
  · obtain ⟨i, e, hl, he, hshows, hg⟩ := hr.last n c hc
    obtain ⟨e₀, he₀, hi, hpar, hname⟩ := hr.consistent.lookup_eq_some_iff.mp hl
    cases he.symm.trans he₀
    obtain ⟨hmem, hcn⟩ := lastReport_mem hc
    have he' : (u.removeAll (u.gone p cs)).get i = some e := by
      rw [hget i, he]
      intro e' he'
      cases he.symm.trans he'
      exact .inr (.inr ⟨c, hmem, hcn.trans hname.symm⟩)
    exact ⟨i, e, hcon.lookup_eq_some_iff.mpr ⟨e, he', hi, hpar, hname⟩, he', hshows, hg⟩
  · obtain ⟨e, he, hne, hpar⟩ := hi
    refine ⟨e, he, Classical.byContradiction fun hnone => ?_⟩
    obtain ⟨hgone, hu⟩ := get_of_get_removeAll he
    exact hgone ((mem_gone hr.consistent hr.live).mpr
      ⟨e, hu, hne, hpar, fun c hc hn => hnone ⟨c, hc, hn⟩⟩)
  · rw [← hr.other j e (hother.imp_right .inl)]
    constructor
    · exact fun he => (get_of_get_removeAll he).2
    · intro he
      rw [hget j, he]
      intro e' he'
      cases he.symm.trans he'
      exact hother.elim (fun hpar => .inr (.inl hpar)) .inl

/-! ## The children mirror the listing -/

/-- The children of `p` are what the listing reports: each name once, as its last report
says. -/
structure Mirrors (u : InodeTable) (p : Nat) (cs : List ChildInfo) : Prop where
  once : (u.children p).Nodup
  reported : ∀ c ∈ cs, ∃! i, i ∈ u.children p ∧ (u.get i).map InodeEntry.name = some c.name
  last : ∀ i ∈ u.children p, ∃ e c, u.get i = some e ∧ e.parent = p ∧
    lastReport e.name cs = some c ∧ Shows e c ∧ u.isFresh i = true

theorem Synced.mirrors (h : Synced t p cs u) : Mirrors u p cs := by
  have hchild := h.consistent.children p h.live
  refine ⟨h.consistent.nodup p h.live, fun c hc => ?_, fun i hi => ?_⟩
  · obtain ⟨d, hd⟩ := exists_lastReport ⟨c, hc, rfl⟩
    obtain ⟨i, e, hl, he, -⟩ := h.last c.name d hd
    obtain ⟨e₀, he₀, hi, hpar, hname⟩ := h.consistent.lookup_eq_some_iff.mp hl
    cases he.symm.trans he₀
    refine ⟨i, ⟨(hchild i).mpr ⟨e, he, hi, hpar⟩, by rw [he, Option.map_some, hname]⟩, ?_⟩
    rintro j ⟨hj, hjn⟩
    obtain ⟨e', he', hj₀, hpar'⟩ := (hchild j).mp hj
    rw [he', Option.map_some, Option.some_inj] at hjn
    have hl' := h.consistent.lookup_eq_some_iff.mpr ⟨e', he', hj₀, hpar', hjn⟩
    exact Option.some.inj (hl'.symm.trans hl)
  · obtain ⟨e, he, hi₀, hpar⟩ := (hchild i).mp hi
    obtain ⟨e₀, he₀, hreported⟩ := h.named i ⟨e, he, hi₀, hpar⟩
    cases he.symm.trans he₀
    obtain ⟨c, hc⟩ := exists_lastReport hreported
    obtain ⟨j, e', hl, he', hshows, hg⟩ := h.last e.name c hc
    have hij := hl.symm.trans (h.consistent.lookup_eq_some_iff.mpr ⟨e, he, hi₀, hpar, rfl⟩)
    cases hij
    cases he.symm.trans he'
    refine ⟨e, c, he, hpar, hc, hshows, (isFresh_iff_freshAt he).mpr fun _ _ => ?_⟩
    rw [hg, h.generation]

/-- A listing gives the directory the children that it reports, and changes nothing else. -/
theorem syncChildren_mirrors (h : Consistent t) (hp : (t.get p).isSome) (cs : List ChildInfo) :
    Mirrors (t.syncChildren p cs) p cs ∧
      ∀ i e, e.parent ≠ p ∨ i = FUSE_ROOT_INODE →
        ((t.syncChildren p cs).get i = some e ↔ t.get i = some e) :=
  ⟨(h.synced hp cs).mirrors, (h.synced hp cs).other⟩

/-- A card with a file of three bytes. -/
def cardTable : InodeTable :=
  (new.addStorageAt ⟨1⟩ "Card" UNIX_EPOCH).2.syncChildren 2 [⟨⟨7⟩, "a", false, 3, UNIX_EPOCH⟩]

theorem consistent_cardTable : Consistent cardTable :=
  (consistent_new.addStorageAt ⟨1⟩ "Card" UNIX_EPOCH).syncChildren (by rfl) _

/-- The file next to a folder of its name, the file last. -/
def bothKinds : List ChildInfo :=
  [⟨⟨8⟩, "a", true, 0, UNIX_EPOCH⟩, ⟨⟨9⟩, "a", false, 3, UNIX_EPOCH⟩]

theorem syncChildren_mirrors_card : Mirrors (cardTable.syncChildren 2 bothKinds) 2 bothKinds ∧
    ∀ i e, e.parent ≠ 2 ∨ i = FUSE_ROOT_INODE →
      ((cardTable.syncChildren 2 bothKinds).get i = some e ↔ cardTable.get i = some e) :=
  syncChildren_mirrors consistent_cardTable (by rfl) bothKinds

/-! ## Numbers that are kept -/

/-- A number leads to an entry of the same name after the reports. -/
theorem name_of_reports (h : Indexed t) (hl : t.lookup p n = some i)
    (he : (cs.foldl (fun t c => t.syncChild p c) t).get i = some e) : e.name = n := by
  obtain ⟨e₀, he₀, -, hn⟩ := h.sound p n i hl
  rw [get_reports h hl he₀ cs] at he
  split at he
  · cases he
    rcases List.eq_nil_or_concat (reportsOf n cs) with hnil | ⟨init, c, hinit⟩
    · rw [hnil]
      exact hn
    · rw [hinit, List.concat_eq_append, (refreshChild_foldl ..).2]
      exact hn
  · cases he

/-- A child that the listing names keeps its number when all its reports have its kind. -/
theorem Consistent.lookup_syncChildren (h : Consistent t) (hp : (t.get p).isSome)
    (hl : t.lookup p n = some i) (he : t.get i = some e) (hlast : lastReport n cs = some c) :
    (t.syncChildren p cs).lookup p n = some i ↔
      ∀ d ∈ cs, d.name = n → d.isDir = e.isDir := by
  have hs := h.synced hp cs
  have hkind := get_syncChildren h.toIndexed hl he hlast
  have hall : (reportsOf n cs).all (fun d => d.isDir == e.isDir) = true ↔
      ∀ d ∈ cs, d.name = n → d.isDir = e.isDir := by
    simp [reportsOf, or_iff_not_imp_left]
  rw [← hall]
  constructor
  · intro hl'
    obtain ⟨e', he', -⟩ := hs.consistent.sound p n i hl'
    rw [he'] at hkind
    by_contra hnot
    rw [if_neg hnot] at hkind
    cases hkind
  · intro hyes
    rw [if_pos hyes] at hkind
    obtain ⟨e', he', -⟩ := Option.map_eq_some_iff.mp hkind
    obtain ⟨e₀, he₀, hi, hpar, hname⟩ := h.lookup_eq_some_iff.mp hl
    refine hs.consistent.lookup_eq_some_iff.mpr ⟨e', he', hi, ?_, ?_⟩
    · by_contra hpar'
      have hold := (hs.other i e' (.inl hpar')).mp he'
      cases he₀.symm.trans hold
      exact hpar' hpar
    · exact name_of_reports h.toIndexed hl (get_of_get_removeAll he').2

theorem Synced.lookup_other (h : Synced t p cs u) (ht : Consistent t) {q : Nat} (hq : q ≠ p)
    (n : String) : u.lookup q n = t.lookup q n := by
  refine Option.ext fun i => ?_
  rw [h.consistent.lookup_eq_some_iff, ht.lookup_eq_some_iff]
  constructor
  · rintro ⟨e, he, hi, rfl, hn⟩
    exact ⟨e, (h.other i e (.inl hq)).mp he, hi, rfl, hn⟩
  · rintro ⟨e, he, hi, rfl, hn⟩
    exact ⟨e, (h.other i e (.inl hq)).mpr he, hi, rfl, hn⟩

theorem Synced.lookup_unreported (h : Synced t p cs u) (hn : ∀ c ∈ cs, c.name ≠ n) :
    u.lookup p n = none := by
  cases hl : u.lookup p n with
  | none => rfl
  | some i =>
    obtain ⟨e, he, hi, hpar, hname⟩ := h.consistent.lookup_eq_some_iff.mp hl
    obtain ⟨e', he', c, hc, hcn⟩ := h.named i ⟨e, he, hi, hpar⟩
    cases he.symm.trans he'
    exact absurd (hcn.trans hname) (hn c hc)

/-- The second time the listing comes, every name that it has in one kind keeps its number. -/
theorem Synced.lookup_again (h : Synced t p cs u) (n : String)
    (hone : ∀ c ∈ cs, ∀ d ∈ cs, c.name = n → d.name = n → c.isDir = d.isDir) :
    (u.syncChildren p cs).lookup p n = u.lookup p n := by
  have hs := h.consistent.synced h.live cs
  by_cases hn : ∃ c ∈ cs, c.name = n
  · obtain ⟨c, hc⟩ := exists_lastReport hn
    obtain ⟨i, e, hl, he, hshows, -⟩ := h.last n c hc
    rw [hl, h.consistent.lookup_syncChildren h.live hl he hc, hshows.isDir]
    obtain ⟨hmem, hcn⟩ := lastReport_mem hc
    exact fun d hd hdn => hone d hd c hmem hdn hcn
  · have hnone : ∀ c ∈ cs, c.name ≠ n := fun c hc hcn => hn ⟨c, hc, hcn⟩
    rw [h.lookup_unreported hnone, hs.lookup_unreported hnone]

/-- A child whose last report has its kind keeps its number exactly when all reports of
its name do, and a second run of the listing keeps every number exactly when it has no
name in both kinds. -/
theorem keeps_number_iff (h : Consistent t) (hp : (t.get p).isSome) (cs : List ChildInfo) :
    (∀ i e c, t.IsChild p i → t.get i = some e → lastReport e.name cs = some c →
      c.isDir = e.isDir → ((t.syncChildren p cs).lookup p e.name = some i ↔
        ∀ d ∈ cs, d.name = e.name → d.isDir = e.isDir)) ∧
    ((∀ q n, ((t.syncChildren p cs).syncChildren p cs).lookup q n =
        (t.syncChildren p cs).lookup q n) ↔
      ∀ c ∈ cs, ∀ d ∈ cs, c.name = d.name → c.isDir = d.isDir) := by
  have hs := h.synced hp cs
  constructor
  · rintro i e c ⟨e₀, he₀, hi, hpar⟩ he hlast -
    cases he.symm.trans he₀
    exact h.lookup_syncChildren hp (h.lookup_eq_some_iff.mpr ⟨e, he, hi, hpar, rfl⟩) he hlast
  · constructor
    · intro hsame c hc d hd hcd
      obtain ⟨r, hr⟩ := exists_lastReport ⟨c, hc, rfl⟩
      obtain ⟨i, e, hl, he, -⟩ := hs.last c.name r hr
      have hall := (hs.consistent.lookup_syncChildren hs.live hl he hr).mp
        ((hsame p c.name).trans hl)
      rw [hall c hc rfl, hall d hd hcd.symm]
    · intro hone q n
      by_cases hq : q = p
      · rw [hq]
        exact hs.lookup_again n fun c hc d hd hcn hdn => hone c hc d hd (hcn.trans hdn.symm)
      · exact (hs.consistent.synced hs.live cs).lookup_other hs.consistent hq n

theorem keeps_number_iff_card :
    (∀ i e c, cardTable.IsChild 2 i → cardTable.get i = some e →
      lastReport e.name bothKinds = some c → c.isDir = e.isDir →
        ((cardTable.syncChildren 2 bothKinds).lookup 2 e.name = some i ↔
          ∀ d ∈ bothKinds, d.name = e.name → d.isDir = e.isDir)) ∧
    ((∀ q n, ((cardTable.syncChildren 2 bothKinds).syncChildren 2 bothKinds).lookup q n =
        (cardTable.syncChildren 2 bothKinds).lookup q n) ↔
      ∀ c ∈ bothKinds, ∀ d ∈ bothKinds, c.name = d.name → c.isDir = d.isDir) :=
  keeps_number_iff consistent_cardTable (by rfl) bothKinds

/-- A folder of the file's name is reported before the file: the file gets a new number,
and another one when the same listing comes again. -/
theorem number_dropped : ∃ t p cs, Consistent t ∧ (t.get p).isSome ∧
    (∃ i e c, t.IsChild p i ∧ t.get i = some e ∧ lastReport e.name cs = some c ∧
      c.isDir = e.isDir ∧ (t.syncChildren p cs).lookup p e.name ≠ some i) ∧
    ∃ n, ((t.syncChildren p cs).syncChildren p cs).lookup p n ≠ (t.syncChildren p cs).lookup p n := by
  refine ⟨cardTable, 2, bothKinds, consistent_cardTable, by rfl,
    ⟨3, ⟨3, 2, "a", .file ⟨7⟩, 3, 0, 0, 0⟩, ⟨⟨9⟩, "a", false, 3, UNIX_EPOCH⟩, ?_⟩, "a", ?_⟩
  · refine ⟨⟨_, rfl, by decide, rfl⟩, rfl, rfl, rfl, ?_⟩
    rw [show (cardTable.syncChildren 2 bothKinds).lookup 2 "a" = some 5 from rfl]
    decide
  · rw [show (cardTable.syncChildren 2 bothKinds).lookup 2 "a" = some 5 from rfl,
      show ((cardTable.syncChildren 2 bothKinds).syncChildren 2 bothKinds).lookup 2 "a" = some 7
        from rfl]
    decide

end MtpMount.InodeTable
