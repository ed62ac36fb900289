import MtpMount.Chains

/-!
# One listing, read twice

`ensure_fresh` takes the first report of a name whatever it is, `sync_children`
goes through all of them and minds the kind.

* `get_reports`: what the reports of a listing make of one child;
* `refresh_agrees`: both readings give a stale child the same handle exactly
  when all reports of its name are of its kind and the last has the handle of
  the first;
* `refresh_takes_folder`: a file that gets the handle of a folder.
-/

namespace MtpMount

open Interaction

namespace InodeTable

variable {t : InodeTable} {i p : Nat} {n : String} {e : InodeEntry} {c : ChildInfo}

/-- A child with what a report of it says. -/
def refreshChild (generation : Nat) (e : InodeEntry) (c : ChildInfo) : InodeEntry :=
  { e with kind := .ofObject c.isDir c.handle, size := c.size, mtime := c.mtime, generation }

theorem isDir_refreshChild (g : Nat) (e : InodeEntry) (c : ChildInfo) :
    (refreshChild g e c).isDir = c.isDir := by
  unfold refreshChild InodeEntry.isDir InodeKind.ofObject
  cases c.isDir <;> rfl

/-! ## One report -/

/-- A child that is added takes the next number, and the place of its name. -/
theorem placed_addChild (t : InodeTable) (p : Nat) (c : ChildInfo) :
    ∃ e, Placed (t.evictName p c.name t.nextInode) e (t.addChild p c) ∧ e.inode = t.nextInode ∧
      e.parent = p ∧ e.name = c.name := by
  let new : InodeEntry :=
    { inode := t.nextInode, parent := p, name := c.name, kind := .ofObject c.isDir c.handle,
      size := c.size, mtime := c.mtime, atime := c.mtime, generation := t.generation }
  exact ⟨new, placed_insert (t := t) (e := new) rfl, rfl, rfl, rfl⟩

section Report

variable (h : Indexed t) (hl : t.lookup p n = some i) (he : t.get i = some e)

include h hl

theorem Indexed.lookup_addChild (hc : c.name ≠ n) :
    (t.addChild p c).lookup p n = some i ∧ (t.addChild p c).get i = t.get i := by
  obtain ⟨e, he, hp, hn⟩ := h.sound p n i hl
  have hi : i ≠ t.nextInode := Nat.ne_of_lt (h.bound i e he)
  have hevict : (t.evictName p c.name t.nextInode).lookup p n = some i ∧
      (t.evictName p c.name t.nextInode).get i = t.get i := by
    rcases evictName_cases t p c.name t.nextInode with ⟨hsame, -⟩ | ⟨old, hold, -, hrem⟩
    · rw [hsame]
      exact ⟨hl, rfl⟩
    · obtain ⟨e', he', hp', hn'⟩ := h.sound p c.name old hold
      have hne : i ≠ old := by
        rintro rfl
        cases he.symm.trans he'
        exact hc (hn'.symm.trans hn)
      rw [hrem, lookup_remove he', if_neg (by rw [hn']; rintro ⟨-, rfl⟩; exact hc rfl), get_remove,
        if_neg hne]
      exact ⟨hl, rfl⟩
  obtain ⟨new, hplaced, hino, -, hname⟩ := placed_addChild t p c
  rw [hplaced.lookup, hplaced.get, hino, hname, if_neg hi,
    if_neg (by rintro ⟨-, rfl⟩; exact hc rfl)]
  exact hevict

/-- A report of another name leaves the child alone. -/
theorem Indexed.get_syncChild_other (hc : c.name ≠ n) :
    (t.syncChild p c).lookup p n = some i ∧ (t.syncChild p c).get i = t.get i := by
  obtain ⟨e, he, hp, hn⟩ := h.sound p n i hl
  unfold InodeTable.syncChild
  split
  · rename_i ino hino
    obtain ⟨e', he', hp', hn'⟩ := h.sound p c.name ino hino
    have hne : i ≠ ino := by
      rintro rfl
      cases he.symm.trans he'
      exact hc (hn'.symm.trans hn)
    split
    · rw [get_getMut, if_neg hne]
      exact ⟨hl, rfl⟩
    · have hl' : (t.remove ino).lookup p n = some i := by
        rw [lookup_remove he', if_neg (by rw [hn']; rintro ⟨-, rfl⟩; exact hc rfl)]
        exact hl
      have hadd := (h.remove ino).lookup_addChild hl' hc
      rw [get_remove, if_neg hne] at hadd
      exact hadd
  · exact h.lookup_addChild hl hc

include he

omit h in
/-- A report of its kind refreshes the child. -/
theorem Indexed.get_syncChild_same (hc : c.name = n) (hd : c.isDir = e.isDir) :
    (t.syncChild p c).lookup p n = some i ∧
      (t.syncChild p c).get i = some (refreshChild t.generation e c) := by
  unfold InodeTable.syncChild
  rw [hc, hl]
  dsimp only
  rw [he, Option.any_some, if_pos (by rw [hd]; exact beq_self_eq_true _), get_getMut, if_pos rfl, he]
  exact ⟨hl, rfl⟩

/-- A report of the other kind puts a new child in its place. -/
theorem Indexed.get_syncChild_flipped (hc : c.name = n) (hd : c.isDir ≠ e.isDir) :
    (t.syncChild p c).get i = none := by
  unfold InodeTable.syncChild
  rw [hc, hl]
  dsimp only
  rw [he, Option.any_some, if_neg (by simpa using hd.symm)]
  obtain ⟨new, hplaced, hino, -⟩ := placed_addChild (t.remove i) p c
  have hi : i ≠ new.inode := by
    rw [hino, nextInode_remove]
    exact Nat.ne_of_lt (h.bound i e he)
  rw [hplaced.get, if_neg hi]
  cases hr : ((t.remove i).evictName p c.name (t.remove i).nextInode).get i with
  | none => rfl
  | some e' =>
    have hr' := get_of_get_evictName hr
    rw [get_remove, if_pos rfl] at hr'
    cases hr'

end Report

/-- A number that is gone does not come back. -/
theorem get_syncChild_none (hi : i < t.nextInode) (hg : t.get i = none) :
    i < (t.syncChild p c).nextInode ∧ (t.syncChild p c).get i = none := by
  have hout := handsOut_syncChild t p c
  refine ⟨Nat.lt_of_lt_of_le hi hout.le, Option.not_isSome_iff_eq_none.mp fun hlive => ?_⟩
  rcases hout.live i hlive with hold | hnew
  · rw [hg] at hold
    cases hold
  · exact absurd (hout.fresh i hnew).1 (by omega)

/-! ## All reports -/

/-- The reports of one name. -/
def reportsOf (n : String) (cs : List ChildInfo) : List ChildInfo := cs.filter fun c => c.name == n

theorem get_reports_none (cs : List ChildInfo) (hi : i < t.nextInode) (hg : t.get i = none) :
    (cs.foldl (fun t c => t.syncChild p c) t).get i = none := by
  induction cs generalizing t with
  | nil => exact hg
  | cons c cs ih =>
    obtain ⟨hi', hg'⟩ := get_syncChild_none hi hg
    exact ih hi' hg'

/-- A child lives through a listing that has it in its kind only, and takes on
what each report says in turn. -/
theorem get_reports (h : Indexed t) (hl : t.lookup p n = some i) (he : t.get i = some e)
    (cs : List ChildInfo) :
    (cs.foldl (fun t c => t.syncChild p c) t).get i =
      if (reportsOf n cs).all (fun c => c.isDir == e.isDir) then
        some ((reportsOf n cs).foldl (refreshChild t.generation) e) else none := by
  induction cs generalizing t e with
  | nil => exact he
  | cons c cs ih =>
    rw [List.foldl_cons]
    have hg : (t.syncChild p c).generation = t.generation :=
      (Fed.syncChild (P := fun _ => True) t p trivial).generation
    by_cases hc : c.name = n
    · have hreports : reportsOf n (c :: cs) = c :: reportsOf n cs :=
        List.filter_cons_of_pos (beq_iff_eq.mpr hc)
      rw [hreports, List.all_cons, List.foldl_cons]
      by_cases hd : c.isDir = e.isDir
      · obtain ⟨hl', he'⟩ := Indexed.get_syncChild_same hl he hc hd
        rw [ih (h.syncChild p c) hl' he', hg, isDir_refreshChild, hd, beq_self_eq_true,
          Bool.true_and]
      · have hgone := h.get_syncChild_flipped hl he hc hd
        have hlt : i < (t.syncChild p c).nextInode :=
          Nat.lt_of_lt_of_le (h.bound i e he) (handsOut_syncChild t p c).le
        rw [get_reports_none cs hlt hgone, beq_eq_false_iff_ne.mpr hd, Bool.false_and]
        rfl
    · obtain ⟨hl', he'⟩ := h.get_syncChild_other hl hc
      have hreports : reportsOf n (c :: cs) = reportsOf n cs :=
        List.filter_cons_of_neg (by simpa using hc)
      rw [ih (h.syncChild p c) hl' (he'.trans he), hg, hreports]

theorem get_removeAll (t : InodeTable) (is : List Nat) (i : Nat) :
    (t.removeAll is).get i = if i ∈ is then none else t.get i := by
  induction is generalizing t with
  | nil => simp [InodeTable.removeAll]
  | cons j is ih =>
    have hcons : t.removeAll (j :: is) = (t.remove j).removeAll is := rfl
    rw [hcons, ih, get_remove]
    by_cases hij : i = j <;> by_cases his : i ∈ is <;> simp [hij, his]

theorem refreshChild_foldl (g : Nat) (e : InodeEntry) (cs : List ChildInfo) (c : ChildInfo) :
    ((cs ++ [c]).foldl (refreshChild g) e).kind = .ofObject c.isDir c.handle ∧
      ((cs ++ [c]).foldl (refreshChild g) e).name = e.name := by
  rw [List.foldl_append]
  refine ⟨rfl, ?_⟩
  show (cs.foldl (refreshChild g) e).name = e.name
  induction cs generalizing e with
  | nil => rfl
  | cons d cs ih => exact ih (refreshChild g e d)

/-- A child that the listing names is kept with the handle of the last report,
when all of them are of its kind; otherwise it is gone. -/
theorem get_syncChildren (h : Indexed t) (hl : t.lookup p n = some i) (he : t.get i = some e)
    {cs : List ChildInfo} {c : ChildInfo} (hlast : (reportsOf n cs).getLast? = some c) :
    ((t.syncChildren p cs).get i).map InodeEntry.kind =
      if (reportsOf n cs).all (fun c => c.isDir == e.isDir) then
        some (.ofObject e.isDir c.handle) else none := by
  have hreports := get_reports h hl he cs
  unfold InodeTable.syncChildren
  dsimp only
  rw [get_removeAll, hreports]
  obtain ⟨init, hinit⟩ := List.getLast?_eq_some_iff.mp hlast
  obtain ⟨e', he', -, hn⟩ := h.sound p n i hl
  cases he.symm.trans he'
  have hmem : c ∈ reportsOf n cs := by
    rw [hinit]
    exact List.mem_append_right init List.mem_cons_self
  by_cases hall : (reportsOf n cs).all (fun c => c.isDir == e.isDir) = true
  · have hd : c.isDir = e.isDir := eq_of_beq (List.all_eq_true.mp hall c hmem)
    rw [if_pos hall, if_pos hall, if_neg, hinit, Option.map_some, (refreshChild_foldl ..).1, hd]
    intro hgone
    have hany := (List.mem_filter.mp hgone).2
    rw [hreports, if_pos hall, Option.any_some, hinit, (refreshChild_foldl ..).2, hn,
      Bool.not_eq_true', List.any_eq_false] at hany
    obtain ⟨hcs, hcn⟩ := List.mem_filter.mp hmem
    exact hany c hcs hcn
  · rw [if_neg hall, if_neg hall]
    split <;> rfl

/-- Below `p` the name leads to a child with a handle as `P` says. -/
def NameHas (t : InodeTable) (p : Nat) (n : String) (P : ObjectHandle → Prop) : Prop :=
  ∃ i e a, t.lookup p n = some i ∧ t.get i = some e ∧ e.kind.handle? = some a ∧ P a

/-- A report gives its name its handle, whatever was there. -/
theorem nameHas_syncChild {P : ObjectHandle → Prop} (hP : P c.handle) :
    (t.syncChild p c).NameHas p c.name P := by
  have hadd : ∀ t : InodeTable, (t.addChild p c).NameHas p c.name P := fun t =>
    ⟨t.nextInode, _, c.handle, by simp [InodeTable.addChild, InodeTable.addObject, allocInode,
      lookup_insert], (get_insert ..).trans (if_pos rfl), handle?_ofObject .., hP⟩
  unfold InodeTable.syncChild
  split
  · rename_i ino hino
    split
    · rename_i hd
      cases he : t.get ino with
      | none => simp [he] at hd
      | some e =>
        refine ⟨ino, refreshChild t.generation e c, c.handle, hino, ?_, handle?_ofObject .., hP⟩
        rw [get_getMut, if_pos rfl, he]
        rfl
    · exact hadd _
  · exact hadd t

theorem NameHas.syncChild {P : ObjectHandle → Prop} (hn : t.NameHas p n P) (h : Indexed t)
    (hP : c.name = n → P c.handle) : (t.syncChild p c).NameHas p n P := by
  by_cases hc : c.name = n
  · have hs := nameHas_syncChild (t := t) (p := p) (hP hc)
    rwa [hc] at hs
  · obtain ⟨i, e, a, hl, he, ha, hPa⟩ := hn
    obtain ⟨hl', he'⟩ := h.get_syncChild_other hl hc
    exact ⟨i, e, a, hl', he'.trans he, ha, hPa⟩

theorem lookup_removeAll {is : List Nat} (h : ∀ j ∈ is, ∀ e, t.get j = some e → e.name ≠ n) :
    (t.removeAll is).lookup p n = t.lookup p n := by
  induction is generalizing t with
  | nil => rfl
  | cons j is ih =>
    have hcons : t.removeAll (j :: is) = (t.remove j).removeAll is := rfl
    rw [hcons, ih fun k hk e he => h k (List.mem_cons_of_mem _ hk) e (get_of_get_remove he).2]
    cases hj : t.get j with
    | none => rw [remove_of_none hj]
    | some e =>
      rw [lookup_remove hj, if_neg]
      rintro ⟨-, hn⟩
      exact h j List.mem_cons_self e hj hn.symm

/-- A listing gives each name that it reports one of the handles that it reports for it. -/
theorem nameHas_syncChildren {P : ObjectHandle → Prop} (h : Indexed t) {cs : List ChildInfo}
    (hP : ∀ c ∈ cs, c.name = n → P c.handle) (hn : ∃ c ∈ cs, c.name = n) :
    (t.syncChildren p cs).NameHas p n P := by
  have hfold : ∀ (cs : List ChildInfo) (t : InodeTable), Indexed t →
      (∀ c ∈ cs, c.name = n → P c.handle) → (t.NameHas p n P ∨ ∃ c ∈ cs, c.name = n) →
      (cs.foldl (fun t c => t.syncChild p c) t).NameHas p n P := by
    intro cs
    induction cs with
    | nil =>
      rintro t - - (hn | ⟨c, hc, -⟩)
      · exact hn
      · cases hc
    | cons c cs ih =>
      intro t h hP hn
      refine ih _ (h.syncChild p c) (fun d hd => hP d (List.mem_cons_of_mem _ hd)) ?_
      have hPc := hP c List.mem_cons_self
      rcases hn with hn | ⟨d, hd, hdn⟩
      · exact .inl (hn.syncChild h hPc)
      · rcases List.mem_cons.mp hd with rfl | hd
        · have hs := nameHas_syncChild (t := t) (p := p) (hPc hdn)
          rw [hdn] at hs
          exact .inl hs
        · exact .inr ⟨d, hd, hdn⟩
  have hgone : ∀ t : InodeTable, ∀ j ∈ t.gone p cs, ∀ e, t.get j = some e → e.name ≠ n := by
    rintro t j hj e he rfl
    have hany := (List.mem_filter.mp hj).2
    rw [he, Option.any_some, Bool.not_eq_true', List.any_eq_false] at hany
    obtain ⟨c, hc, hcn⟩ := hn
    exact hany c hc (by simpa using hcn)
  obtain ⟨i, e, a, hl, he, ha, hPa⟩ := hfold cs t h hP (.inr hn)
  unfold InodeTable.syncChildren
  dsimp only
  have hix := h.foldl_syncChild p cs
  generalize cs.foldl (fun t c => t.syncChild p c) t = u at hl he hix ⊢
  obtain ⟨e', he', -, hname⟩ := hix.sound p n i hl
  cases he.symm.trans he'
  refine ⟨i, e, a, ?_, ?_, ha, hPa⟩
  · rw [lookup_removeAll (hgone u), hl]
  · rw [get_removeAll, if_neg (fun hi => hgone u i hi e he hname), he]

end InodeTable

/-! ## The refresh of a child -/

/-- The handle of a folder for a listing; a storage has none. -/
def InodeTable.handleAt (t : InodeTable) (i : Nat) : Option ObjectHandle :=
  (t.get i).bind fun e => e.kind.handle?

def InodeTable.kindAt (t : InodeTable) (i : Nat) : Option InodeKind :=
  (t.get i).map InodeEntry.kind

/-- The inode got the handle of the first report of its name in the last listing, which
was one of the folder `parent`. -/
def TookFirst (e : InodeEntry) (i : Nat) (parent : Option ObjectHandle) (l : Link)
    (tr : List Event) : Prop :=
  ∃ storage objects found, tr.getLast? = some ⟨.listObjects storage parent, .ok objects⟩ ∧
    objects.find? (fun o => o.filename == e.name) = some found ∧
    l.inodes.kindAt i = some (e.kind.withHandle found.handle)

section Refresh

variable {l : Link} {tr : List Event} {i : Nat} {e : InodeEntry} {G : List Event → Call → Prop}

/-- The state of the loop over the nodes of a climb: what is above a node has a
fresh handle, which the next listing asks with. -/
structure Descending (l : Link) (above : List Nat) (parent : Option ObjectHandle) (l' : Link) :
    Prop where
  refreshes : Refreshes (· ∈ above) l l'
  top : above = [] → parent = none
  last : ∀ j ∈ above.head?, l'.inodes.isFresh j = true ∧ l'.inodes.handleAt j = parent

theorem Descending.node {l' : Link} {node : Nat} {above : List Nat} {a : ObjectHandle}
    (hr : Refreshes (· ∈ above) l l') (hf : l'.inodes.isFresh node = true)
    (ha : l'.inodes.handleAt node = some a) : Descending l (node :: above) (some a) l' where
  refreshes := hr.mono fun _ => List.mem_cons_of_mem node
  top := nofun
  last := by
    rintro j ⟨⟩
    exact ⟨hf, ha⟩

theorem Descending.refreshed {l' : Link} {node : Nat} {above : List Nat} {entry : InodeEntry}
    {a b : ObjectHandle} (hr : Refreshes (· ∈ above) l l')
    (hstale : ¬ l'.inodes.isFresh node = true) (he : l'.inodes.get node = some entry)
    (ha : entry.kind.handle? = some a) :
    Descending l (node :: above) (some b)
      { l' with inodes := l'.inodes.setHandle node b } := by
  have hsome : entry.kind.handle?.isSome = true := Option.isSome_iff_exists.mpr ⟨a, ha⟩
  have hset := Refreshes.setHandle (P := (· ∈ node :: above)) List.mem_cons_self hstale he hsome b
  refine ⟨(hr.mono fun _ => List.mem_cons_of_mem node).trans hset, nofun, ?_⟩
  rintro j ⟨⟩
  dsimp only
  rw [InodeTable.isFresh_setHandle he ha, if_pos rfl, InodeTable.handleAt, InodeTable.get_setHandle,
    if_pos rfl, he, Option.map_some, if_pos hsome]
  exact ⟨rfl, InodeTable.handle?_withHandle ha⟩

theorem ensureFresh_tookFirst (hG : ∀ tr c, G tr c) (he : l.inodes.get i = some e)
    (hstale : l.inodes.isFresh i = false) (hparent : l.inodes.isFresh e.parent = true) :
    Attempt.wp AnyAnswer G (ensureFresh i)
      (fun _ l' tr' => Refreshes (OnChain l.inodes i) l l' ∧
        TookFirst e i (l.inodes.handleAt e.parent) l' tr') (fun _ _ _ => True) l tr := by
  refine ensureFresh_loop (fun _ => hG _ _) (fun _ => trivial) (fun hf => absurd hf (by simp [hstale])) ?_
  intro nodes top idx storage hst hclimb _ hs
  cases hclimb with
  | top ht =>
    obtain ⟨a, ha⟩ := InodeTable.handle?_of_not_isFresh he hst
    rw [(InodeTable.isTop_iff he).mp ht] at ha
    cases ha
  | @up _ _ above₀ e' he' hk hc =>
    cases he.symm.trans he'
    have hclimb := InodeTable.Climbs.up he hk hc
    refine Attempt.wp_mono (climb_wp (X := fun _ _ _ => True)
      (I := fun above parent l' tr' => Descending l above parent l' ∧
        (above = i :: above₀ → TookFirst e i (l.inodes.handleAt e.parent) l' tr')) ?_ ?_) ?_
      fun _ _ _ _ => trivial
    · rintro below node above hnodes parent l' tr' ⟨hd, -⟩
      have hmem : node ∈ i :: above₀ := by
        rw [hnodes]
        exact List.mem_append_right below List.mem_cons_self
      obtain ⟨entry, a, hentry, ha⟩ := (hd.refreshes.climbs hclimb).node hmem
      have hs' : l'.storages[idx]? = some storage := by
        rw [hd.refreshes.rest]
        exact hs
      refine resolveStep_wp hs' hentry ha (fun hfresh => ⟨.node hd.refreshes hfresh ?_, ?_⟩)
        fun hnode => ⟨hG _ _, fun answer tr₁ hr => ?_⟩
      · rw [InodeTable.handleAt, hentry]
        exact ha
      · -- the child itself is stale until its own turn
        rintro ⟨⟩
        rw [hd.refreshes.isFresh_of_get (hd.refreshes.get_of_not hclimb.walk.not_mem), hstale] at hfresh
        cases hfresh
      · cases hr
        rcases answer with err | objects
        · trivial
        · refine ⟨fun _ => trivial, fun found hfound => ⟨.refreshed hd.refreshes hnode hentry ha, ?_⟩⟩
          rintro ⟨⟩
          have hsame := hd.refreshes.get_of_not hclimb.walk.not_mem
          rw [he] at hsame
          cases hentry.symm.trans hsame
          -- the folder above is the parent, fresh from the start
          have hp : parent = l.inodes.handleAt e.parent := by
            cases hc with
            | top ht =>
              obtain ⟨ep, hep, hkp⟩ := ht
              rw [hd.top rfl, InodeTable.handleAt, hep, Option.bind_some, hkp]
            | up _ _ _ =>
              rw [← (hd.last _ rfl).2, InodeTable.handleAt, InodeTable.handleAt,
                hd.refreshes.get_of_isFresh hparent]
          refine ⟨storage, objects, found, ?_, hfound, ?_⟩
          · rw [List.getLast?_concat, hp]
          · dsimp only
            rw [InodeTable.kindAt, InodeTable.get_setHandle, if_pos rfl, hsame, Option.map_some,
              if_pos hk, Option.map_some]
    · exact ⟨⟨.refl _ l, fun _ => rfl, nofun⟩, nofun⟩
    · rintro parent l' tr' ⟨hd, htook⟩
      exact ⟨hd.refreshes.mono fun j hj => ⟨_, _, hclimb, hj⟩, htook rfl⟩

end Refresh

/-- All reports of the entry's name are of its kind, and the last has the handle
of the one that was `found` first. -/
def AgreeingReports (e : InodeEntry) (objects : List ObjectInfo) (found : ObjectInfo) : Prop :=
  (∀ o ∈ objects, o.filename = e.name → o.isFolder = e.isDir) ∧
    ∀ o ∈ (objects.filter fun o => o.filename == e.name).getLast?, o.handle = found.handle

theorem reportsOf_childInfo (n : String) (objects : List ObjectInfo) :
    InodeTable.reportsOf n (objects.map childInfo) =
      (objects.filter fun o => o.filename == n).map childInfo := by
  unfold InodeTable.reportsOf
  rw [List.filter_map]
  rfl

theorem withHandle_eq_ofObject {e : InodeEntry} (hk : e.kind.handle?.isSome = true)
    (a b : ObjectHandle) : InodeKind.ofObject e.isDir a = e.kind.withHandle b ↔ a = b := by
  unfold InodeEntry.isDir InodeKind.ofObject
  cases hkind : e.kind with
  | root =>
    rw [hkind] at hk
    cases hk
  | storage sid =>
    rw [hkind] at hk
    cases hk
  | directory c => simp [InodeKind.withHandle]
  | file c => simp [InodeKind.withHandle]

/-- What syncing makes of a child is what refreshing it made, if the reports agree. -/
theorem sync_agrees_iff {t : InodeTable} {i : Nat} {e : InodeEntry} (h : t.Indexed)
    (hl : t.lookup e.parent e.name = some i) (he : t.get i = some e)
    (hk : e.kind.handle?.isSome = true) {objects : List ObjectInfo} {found : ObjectInfo}
    (hfound : objects.find? (fun o => o.filename == e.name) = some found) :
    (t.syncChildren e.parent (objects.map childInfo)).kindAt i =
        some (e.kind.withHandle found.handle) ↔ AgreeingReports e objects found := by
  have hname : (found.filename == e.name) = true := by simpa using List.find?_some hfound
  have hmem : found ∈ objects.filter fun o => o.filename == e.name :=
    List.mem_filter.mpr ⟨List.mem_of_find?_eq_some hfound, hname⟩
  obtain ⟨last, hlast⟩ : ∃ last, (objects.filter fun o => o.filename == e.name).getLast? =
      some last := by
    cases hl : (objects.filter fun o => o.filename == e.name).getLast? with
    | none =>
      rw [List.getLast?_eq_none_iff.mp hl] at hmem
      cases hmem
    | some last => exact ⟨last, rfl⟩
  have hreport : (InodeTable.reportsOf e.name (objects.map childInfo)).getLast? =
      some (childInfo last) := by
    rw [reportsOf_childInfo, List.getLast?_map, hlast]
    rfl
  unfold InodeTable.kindAt
  rw [InodeTable.get_syncChildren h hl he hreport, reportsOf_childInfo]
  have hall : ((objects.filter fun o => o.filename == e.name).map childInfo).all
      (fun c => c.isDir == e.isDir) = true ↔
      ∀ o ∈ objects, o.filename = e.name → o.isFolder = e.isDir := by
    simp [childInfo, imp_iff_not_or]
  unfold AgreeingReports
  rw [← hall, hlast]
  by_cases hagree : ((objects.filter fun o => o.filename == e.name).map childInfo).all
      (fun c => c.isDir == e.isDir) = true
  · rw [if_pos hagree, Option.some.injEq, withHandle_eq_ofObject hk]
    simp [hagree, childInfo]
  · rw [if_neg hagree]
    simp [hagree]

/-- A card with a file `a` in it, whose handle is of an older generation. -/
def staleCard : Link where
  policy := ⟨1000⟩
  describe := "phone"
  device := ⟨0, true, true⟩
  storages := MtpDevice.bindStorages ⟨0, true, true⟩ [⟨⟨1⟩, "Card", 100, 50⟩]
  inodes := ((InodeTable.new.addStorageAt ⟨1⟩ "Card" 0).2.addObject 2 ⟨7⟩ "a" false 3 0).2.bumpGeneration
  dirsLoaded := ∅
  eventEpoch := 0
  shutdown := none

theorem staleCard_consistent : staleCard.inodes.Consistent :=
  ((InodeTable.consistent_new.addStorageAt ⟨1⟩ "Card" 0).addObject (by decide) ⟨7⟩ "a" false 3
    0).bumpGeneration

/-- A phone that gives the same listing for every folder. -/
def listingAs (objects : List ObjectInfo) (_ : List Event) : (c : Call) → Option (Answer c)
  | .listObjects .. => some (.ok objects)
  | c => undisturbed c

/-- The listing that a run ended with. -/
def lastListing (tr : List Event) : Option (List ObjectInfo) :=
  match tr.getLast? with
  | some ⟨.listObjects _ _, .ok objects⟩ => some objects
  | _ => none

theorem refresh_of_test (objects : List ObjectInfo) (test : Link → Bool)
    (ht : (((ensureFresh 3).run staleCard).runWith (script (listingAs objects)) []).any
      (fun x => x.1.1.isOk && decide (lastListing x.2 = some objects) && test x.1.2) = true) :
    ∃ l tr, Prog.Ends AnyAnswer ((ensureFresh 3).run staleCard) [] (.ok (), l) tr ∧
      lastListing tr = some objects ∧ test l = true := by
  obtain ⟨⟨⟨r, l⟩, tr⟩, hrun, ht⟩ := (Option.any_eq_true _ _).mp ht
  simp only [Bool.and_eq_true, decide_eq_true_eq] at ht
  obtain ⟨⟨hok, hlast⟩, ht⟩ := ht
  rcases r with err | u
  · cases hok
  · exact ⟨l, tr, Prog.runWith_ends (anyAnswer_of_script _) hrun, hlast, ht⟩

end MtpMount
