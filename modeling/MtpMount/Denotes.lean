import MtpMount.Chains
import MtpMount.Retries

/-!
# What fresh handles stand for

`D e i a` says that the handle `a` stands for the inode `i`; the caller chooses
what that means. `Link.Denotes` says it of every fresh handle, and `LooksUp` is
what `D` asks of the listings on the way down to an inode.

* `SameTree`: what no refresh and no reconnect changes;
* `ensureFresh_resolves`: a walk down keeps `Denotes` and refreshes its chain;
* `fileHandle_resolves`, `objectHandle_resolves`, `parentHandle_resolves`: so the
  handles that a request is sent with stand for their inodes.
-/

namespace MtpMount

open Interaction

/-! ## One tree in every session -/

/-- The kind without what only one session knows. -/
def InodeKind.bare : InodeKind → InodeKind
  | .root => .root
  | .storage _ => .storage ⟨0⟩
  | .directory _ => .directory ⟨0⟩
  | .file _ => .file ⟨0⟩

/-- Where an entry is and what it is, in any session. -/
def InodeEntry.shape (e : InodeEntry) : Nat × String × InodeKind := (e.parent, e.name, e.kind.bare)

theorem InodeEntry.shape_inj {e e' : InodeEntry} (h : e'.shape = e.shape) :
    e'.parent = e.parent ∧ e'.name = e.name ∧ e'.kind.bare = e.kind.bare := by
  simpa [InodeEntry.shape] using h

@[simp] theorem InodeKind.bare_withHandle (k : InodeKind) (a : ObjectHandle) :
    (k.withHandle a).bare = k.bare := by
  cases k <;> rfl

theorem InodeKind.isSome_handle? {k k' : InodeKind} (h : k'.bare = k.bare) :
    k'.handle?.isSome = k.handle?.isSome := by
  cases k <;> cases k' <;> simp_all [InodeKind.bare, InodeKind.handle?]

/-- The same inodes with the same names in the same places. -/
structure InodeTable.SameTree (t u : InodeTable) : Prop where
  rest : u = { t with entries := u.entries, generation := u.generation }
  shape : ∀ i, (u.get i).map InodeEntry.shape = (t.get i).map InodeEntry.shape

namespace InodeTable.SameTree

variable {t u v : InodeTable} {i : Nat} {e : InodeEntry}

theorem refl (t : InodeTable) : SameTree t t := ⟨rfl, fun _ => rfl⟩

theorem trans (h : SameTree t u) (h' : SameTree u v) : SameTree t v where
  rest := by
    rw [h'.rest, h.rest]
  shape := fun i => (h'.shape i).trans (h.shape i)

theorem symm (h : SameTree t u) : SameTree u t where
  rest := by
    rw [h.rest]
  shape := fun i => (h.shape i).symm

theorem get (h : SameTree t u) (he : t.get i = some e) :
    ∃ e', u.get i = some e' ∧ e'.shape = e.shape := by
  have hs := h.shape i
  rw [he] at hs
  exact Option.map_eq_some_iff.mp hs

theorem isTop (h : SameTree t u) (ht : t.IsTop i) : u.IsTop i := by
  obtain ⟨e, he, hk⟩ := ht
  obtain ⟨e', he', hs⟩ := h.get he
  refine ⟨e', he', ?_⟩
  have hsome := InodeKind.isSome_handle? (InodeEntry.shape_inj hs).2.2
  rw [hk] at hsome
  exact Option.isSome_eq_false_iff.mp hsome |> Option.isNone_iff_eq_none.mp

theorem climbs (h : SameTree t u) {nodes : List Nat} {top : Nat} (hc : t.Climbs i nodes top) :
    u.Climbs i nodes top := by
  induction hc with
  | top ht => exact .top (h.isTop ht)
  | up he hk _ ih =>
    obtain ⟨e', he', hs⟩ := h.get he
    obtain ⟨hp, -, hb⟩ := InodeEntry.shape_inj hs
    rw [← hp] at ih
    exact .up he' ((InodeKind.isSome_handle? hb).trans hk) ih

theorem grounded (h : SameTree t u) (hi : t.Grounded i) : u.Grounded i := by
  refine hi.of_up (funext fun j => ?_)
  have hs := h.shape j
  rw [up, up]
  cases ht : t.get j with
  | none =>
    rw [ht] at hs
    rw [Option.map_eq_none_iff.mp hs]
  | some e =>
    obtain ⟨e', he', hshape⟩ := h.get ht
    rw [he', Option.bind_some, Option.bind_some, (InodeEntry.shape_inj hshape).1]

theorem of_edit {f : InodeEntry → InodeEntry} (hf : ∀ e, (f e).shape = e.shape) (t : InodeTable)
    (i : Nat) : SameTree t (t.getMut i f) where
  rest := rfl
  shape := by
    intro j
    rw [get_getMut]
    split
    · rename_i hj
      rw [hj]
      cases t.get i with
      | none => rfl
      | some e => exact congrArg some (hf e)
    · rfl

theorem setStorageId (t : InodeTable) (i : Nat) (sid : StorageId) :
    SameTree t (t.setStorageId i sid) := by
  refine .of_edit (fun e => ?_) t i
  split <;> simp_all [InodeEntry.shape, InodeKind.bare]

theorem bumpGeneration (t : InodeTable) : SameTree t t.bumpGeneration := ⟨rfl, fun _ => rfl⟩

theorem remapStorages (storages : List Storage) (t : InodeTable) :
    SameTree t (Link.remapStorages storages t) :=
  Link.remapStorages_induction (P := fun u => SameTree t u)
    (fun u i sid h => h.trans (.setStorageId u i sid)) storages (.refl t)

theorem adopted (l : Link) (device : MtpDevice) (storages : List Storage) :
    SameTree l.inodes (l.adopted device storages).inodes :=
  (remapStorages storages l.inodes).trans (bumpGeneration _)

theorem refreshes {P : Nat → Prop} {l l' : Link} (h : Refreshes P l l') :
    SameTree l.inodes l'.inodes where
  rest := by
    rw [h.rest]
  shape := by
    intro j
    rcases h.entry j with hsame | ⟨e, a, -, -, he, -, hnew⟩
    · rw [hsame]
    · rw [he, hnew]
      simp [InodeEntry.shape]

end InodeTable.SameTree

/-! ## Handles and what they stand for -/

section Denotes

variable {E : Type} {D : E → Nat → ObjectHandle → Prop} {F : E → E → Prop} {P : Nat → Prop}
  {l l₁ l₂ : Link} {e e₁ e₂ : E}

/-- Every fresh handle stands for its inode. -/
def Link.Denotes (D : E → Nat → ObjectHandle → Prop) (l : Link) (e : E) : Prop :=
  ∀ i entry a, l.inodes.get i = some entry → l.inodes.isFresh i = true →
    entry.kind.handle? = some a → D e i a

theorem Link.Denotes.of_nothingFresh (h : l.inodes.NothingFresh) : l.Denotes D e := by
  intro i entry a he hf ha
  rw [h i entry a he ha] at hf
  cases hf

theorem Link.Denotes.mono (h : l.Denotes D e) (hD : ∀ i a, D e i a → D e₁ i a) : l.Denotes D e₁ :=
  fun i entry a he hf ha => hD i a (h i entry a he hf ha)

/-- A handle that was just found. -/
theorem Link.Denotes.setHandle {node : Nat} {a : ObjectHandle} (h : l.Denotes D e)
    (hD : D e node a) :
    Link.Denotes D { l with inodes := l.inodes.setHandle node a } e := by
  intro i entry b he hf hb
  dsimp only at he hf
  rw [InodeTable.get_setHandle] at he
  by_cases hi : i = node
  · subst hi
    rw [if_pos rfl] at he
    obtain ⟨e₀, he₀, rfl⟩ := Option.map_eq_some_iff.mp he
    split at hb
    · rename_i hk
      obtain ⟨c, hc⟩ := Option.isSome_iff_exists.mp hk
      rw [InodeTable.handle?_withHandle hc] at hb
      cases hb
      exact hD
    · rename_i hk
      rw [hb] at hk
      exact absurd rfl hk
  · rw [if_neg hi] at he
    have hf₀ : l.inodes.isFresh i = true := by
      unfold InodeTable.isFresh at hf ⊢
      rw [InodeTable.get_setHandle, if_neg hi] at hf
      exact hf
    exact h i entry b he hf₀ hb

/-- What resolving leaves: refreshed handles that stand for their inodes, and
surroundings that are still related. -/
structure Resolved (F : E → E → Prop) (D : E → Nat → ObjectHandle → Prop) (P : Nat → Prop)
    (l : Link) (e : E) (l' : Link) (e' : E) : Prop where
  refreshes : Refreshes P l l'
  env : F e e'
  denotes : l'.Denotes D e'

/-- The surroundings may go on, as long as handles stand for what they stood for. -/
structure Lasting (F : E → E → Prop) (D : E → Nat → ObjectHandle → Prop) : Prop where
  refl : ∀ e, F e e
  trans : ∀ {e e₁ e₂}, F e e₁ → F e₁ e₂ → F e e₂
  keeps : ∀ {e e' i a}, F e e' → D e i a → D e' i a

/-- The handle of the folder above, if there is one on the way. -/
def Above (D : E → Nat → ObjectHandle → Prop) (e : E) : List Nat → Option ObjectHandle → Prop
  | [], parent => parent = none
  | j :: _, parent => ∃ a, parent = some a ∧ D e j a

variable {R : Answers Call Answer E} {G : E → Call → Prop}

/-- What `D` asks of the listings on the way down to an inode, from `e₀` on. Errors
that `Err` does not allow do not come. -/
structure LooksUp (R : Answers Call Answer E) (G : E → Call → Prop) (F : E → E → Prop)
    (D : E → Nat → ObjectHandle → Prop) (Err : Error → Prop) (l : Link) (e₀ : E) (inode : Nat) :
    Prop extends Lasting F D where
  hang : G e₀ .hang
  missing : (∀ nodes top idx, l.inodes.Climbs inode nodes top →
    findStorageFrom l (walkFuel l.inodes) inode ≠ some (some idx)) → Err .notFound
  listing : ∀ {nodes top idx storage below node above entry parent e}, F e₀ e →
    l.inodes.Climbs inode nodes top →
    findStorageFrom l (walkFuel l.inodes) inode = some (some idx) →
    l.storages[idx]? = some storage → nodes = below ++ node :: above →
    l.inodes.get node = some entry → Above D e above parent →
    G e (.listObjects storage parent) ∧
      ∀ (answer : Except Error (List ObjectInfo)) e', R e (.listObjects storage parent) answer e' →
        F e e' ∧ match answer with
          | .error err => Err err
          | .ok objects =>
            (objects.find? (fun obj => obj.filename == entry.name) = none → Err .notFound) ∧
            ∀ found, objects.find? (fun obj => obj.filename == entry.name) = some found →
              D e' node found.handle

/-! ## The walk down -/

variable {Err : Error → Prop} {inode : Nat}

/-- One turn of the loop finds a handle for its node. -/
theorem LooksUp.step (hL : LooksUp R G F D Err l e inode) {nodes above below : List Nat}
    {top idx node : Nat} {storage : Storage} {parent : Option ObjectHandle} {l' : Link} {e' : E}
    (hc : l.inodes.Climbs inode nodes top)
    (hidx : findStorageFrom l (walkFuel l.inodes) inode = some (some idx))
    (hs : l.storages[idx]? = some storage) (hnodes : nodes = below ++ node :: above)
    (h : Resolved F D (OnChain l.inodes inode) l e l' e') (ha : Above D e' above parent)
    (hfresh : ∀ j ∈ above, l'.inodes.isFresh j = true) :
    Attempt.wp R G (resolveStep idx parent node)
      (fun handle l'' e'' => Resolved F D (OnChain l.inodes inode) l e l'' e'' ∧
        Above D e'' (node :: above) handle ∧ ∀ j ∈ node :: above, l''.inodes.isFresh j = true)
      (fun err l'' e'' => Resolved F D (OnChain l.inodes inode) l e l'' e'' ∧ Err err) l' e' := by
  have hmem : node ∈ nodes := by
    rw [hnodes]
    exact List.mem_append_right below List.mem_cons_self
  obtain ⟨entry₀, a₀, he₀, -⟩ := hc.node hmem
  obtain ⟨entry, a, he, hk⟩ := (h.refreshes.climbs hc).node hmem
  have hname : entry.name = entry₀.name := by
    obtain ⟨entry', he', hshape⟩ := (InodeTable.SameTree.refreshes h.refreshes).get he₀
    cases he.symm.trans he'
    exact (InodeEntry.shape_inj hshape).2.1
  have hs' : l'.storages[idx]? = some storage := by
    rw [h.refreshes.rest]
    exact hs
  refine resolveStep_wp hs' he hk (fun hf => ⟨h, ⟨a, rfl, h.denotes node entry a he hf hk⟩, ?_⟩) ?_
  · intro j hj
    rcases List.mem_cons.mp hj with rfl | hj
    · exact hf
    · exact hfresh j hj
  · intro hstale
    obtain ⟨hG, hans⟩ := hL.listing h.env hc hidx hs hnodes he₀ ha
    refine ⟨hG, fun answer e₁ hr => ?_⟩
    obtain ⟨hF, hans⟩ := hans answer e₁ hr
    have h₁ : Resolved F D (OnChain l.inodes inode) l e l' e₁ :=
      ⟨h.refreshes, hL.trans h.env hF, h.denotes.mono fun _ _ => hL.keeps hF⟩
    rcases answer with err | objects
    · exact ⟨h₁, hans⟩
    · rw [hname]
      refine ⟨fun hnone => ⟨h₁, hans.1 hnone⟩, fun found hfound => ?_⟩
      have hD := hans.2 found hfound
      have hset : Resolved F D (OnChain l.inodes inode) l e
          { l' with inodes := l'.inodes.setHandle node found.handle } e₁ :=
        ⟨h.refreshes.trans (.setHandle ⟨nodes, top, hc, hmem⟩ hstale he
          (Option.isSome_iff_exists.mpr ⟨a, hk⟩) found.handle), h₁.env, h₁.denotes.setHandle hD⟩
      refine ⟨hset, ⟨found.handle, rfl, hD⟩, fun j hj => ?_⟩
      dsimp only
      rw [InodeTable.isFresh_setHandle he hk]
      rcases List.mem_cons.mp hj with rfl | hj
      · rw [if_pos rfl]
      · rw [hfresh j hj]
        split <;> rfl

/-- After a success the inode is fresh. If it was not before, so is its whole chain. -/
theorem ensureFresh_resolves (hL : LooksUp R G F D Err l e inode) (h : l.Denotes D e) :
    Attempt.wp R G (ensureFresh inode)
      (fun _ l' e' => Resolved F D (OnChain l.inodes inode) l e l' e' ∧
        l'.inodes.isFresh inode = true ∧
        (¬ l.inodes.isFresh inode = true → ∀ j, OnChain l.inodes inode j →
          l'.inodes.isFresh j = true) ∧
        (l.inodes.isFresh inode = true → l' = l))
      (fun err l' e' => Resolved F D (OnChain l.inodes inode) l e l' e' ∧ Err err) l e := by
  have h₀ : Resolved F D (OnChain l.inodes inode) l e l e := ⟨.refl _ l, hL.refl e, h⟩
  refine ensureFresh_loop (fun _ => hL.hang) (fun hno => ⟨h₀, hL.missing hno⟩)
    (fun hf => ⟨h₀, hf, fun hstale => absurd hf hstale, fun _ => rfl⟩) ?_
  intro nodes top idx storage hstale hc hidx hs
  have hloop : Attempt.wp R G (nodes.reverse.foldlM (resolveStep idx) none)
      (fun handle l' e' => Resolved F D (OnChain l.inodes inode) l e l' e' ∧
        Above D e' nodes handle ∧ ∀ j ∈ nodes, l'.inodes.isFresh j = true)
      (fun err l' e' => Resolved F D (OnChain l.inodes inode) l e l' e' ∧ Err err) l e :=
    climb_wp (I := fun above handle l' e' => Resolved F D (OnChain l.inodes inode) l e l' e' ∧
        Above D e' above handle ∧ ∀ j ∈ above, l'.inodes.isFresh j = true)
      (fun below node above hnodes parent l' e' h' =>
        hL.step hc hidx hs hnodes h'.1 h'.2.1 h'.2.2)
      ⟨h₀, rfl, fun _ hj => nomatch hj⟩
  refine Attempt.wp_mono hloop ?_ fun _ _ _ h' => h'
  rintro _ l' e' ⟨h', -, hfresh⟩
  have hin : inode ∈ nodes := by
    cases hc with
    | top ht =>
      obtain ⟨entry, he, hk⟩ := ht
      obtain ⟨a, ha⟩ := InodeTable.handle?_of_not_isFresh he hstale
      rw [hk] at ha
      cases ha
    | up _ _ _ => exact List.mem_cons_self
  refine ⟨h', hfresh inode hin, fun _ j hj => ?_, fun hf => absurd hf hstale⟩
  obtain ⟨nodes', top', hc', hj'⟩ := hj
  rw [(hc.unique hc').1] at hfresh
  exact hfresh j hj'

/-! ## The getters -/

/-- The entry of the inode before, in the shape it has after. -/
theorem Resolved.get (h : Resolved F D P l e l₁ e₁) {i : Nat} {entry : InodeEntry}
    (he : l.inodes.get i = some entry) :
    ∃ entry', l₁.inodes.get i = some entry' ∧ entry'.shape = entry.shape :=
  (InodeTable.SameTree.refreshes h.refreshes).get he

theorem fileHandle_resolves (hL : LooksUp R G F D Err l e inode) (h : l.Denotes D e)
    (hkind : (∃ entry a, l.inodes.get inode = some entry ∧ entry.kind = .file a) ∨ Err .notFound) :
    Attempt.wp R G (fileHandle inode)
      (fun a l' e' => Resolved F D (OnChain l.inodes inode) l e l' e' ∧ D e' inode a ∧
        ∃ entry, l'.inodes.get inode = some entry ∧ entry.kind = .file a)
      (fun err l' e' => Resolved F D (OnChain l.inodes inode) l e l' e' ∧ Err err) l e := by
  unfold fileHandle
  rw [Attempt.wp_bind]
  refine Attempt.wp_mono (ensureFresh_resolves hL h) ?_ fun _ _ _ h' => h'
  rintro _ l' e' ⟨h', hf, -⟩
  simp only [Attempt.wp_bind, Attempt.wp_get]
  split
  · rename_i a ha
    obtain ⟨entry, he, hk⟩ := Option.map_eq_some_iff.mp ha
    exact ⟨h', h'.denotes inode entry a he hf (by rw [hk]; rfl), entry, he, hk⟩
  · rename_i hno
    refine ⟨h', hkind.resolve_left ?_⟩
    rintro ⟨entry, a, he, hk⟩
    obtain ⟨entry', he', hshape⟩ := h'.get he
    have hb := (InodeEntry.shape_inj hshape).2.2
    rw [hk] at hb
    cases hk' : entry'.kind with
    | root => rw [hk'] at hb; cases hb
    | storage sid => rw [hk'] at hb; cases hb
    | directory b => rw [hk'] at hb; cases hb
    | file b => exact hno b (by rw [he', Option.map_some, hk'])

theorem objectHandle_resolves (hL : LooksUp R G F D Err l e inode) (h : l.Denotes D e)
    (herr : Err .notFound) :
    Attempt.wp R G (objectHandle inode)
      (fun a l' e' => Resolved F D (OnChain l.inodes inode) l e l' e' ∧ D e' inode a ∧
        l'.inodes.isFresh inode = true ∧
        ∃ entry, l'.inodes.get inode = some entry ∧ entry.kind.handle? = some a)
      (fun err l' e' => Resolved F D (OnChain l.inodes inode) l e l' e' ∧ Err err) l e := by
  unfold objectHandle
  rw [Attempt.wp_bind]
  refine Attempt.wp_mono (ensureFresh_resolves hL h) ?_ fun _ _ _ h' => h'
  rintro _ l' e' ⟨h', hf, -⟩
  have hgot : ∀ {k a}, (l'.inodes.get inode).map InodeEntry.kind = some k → k.handle? = some a →
      D e' inode a ∧ l'.inodes.isFresh inode = true ∧
        ∃ entry, l'.inodes.get inode = some entry ∧ entry.kind.handle? = some a := by
    intro k a hk ha
    obtain ⟨entry, he, rfl⟩ := Option.map_eq_some_iff.mp hk
    exact ⟨h'.denotes inode entry a he hf ha, hf, entry, he, ha⟩
  simp only [Attempt.wp_bind, Attempt.wp_get]
  split
  · exact ⟨h', hgot ‹_› rfl⟩
  · exact ⟨h', hgot ‹_› rfl⟩
  · exact ⟨h', herr⟩

/-- The folder that an inode stands for, as requests name it. -/
def IsParent (D : E → Nat → ObjectHandle → Prop) (e : E) (t : InodeTable) (i : Nat)
    (parent : Option ObjectHandle) : Prop :=
  ∃ entry, t.get i = some entry ∧
    ((∃ sid, entry.kind = .storage sid ∧ parent = none) ∨
      ∃ a, entry.kind = .directory a ∧ parent = some a ∧ D e i a)

theorem parentHandle_resolves (hL : LooksUp R G F D Err l e inode) (h : l.Denotes D e)
    (hkind : (∃ entry, l.inodes.get inode = some entry ∧ entry.isDir = true ∧
      entry.kind ≠ .root) ∨ Err .notFound) :
    Attempt.wp R G (parentHandle inode)
      (fun p l' e' => Resolved F D (OnChain l.inodes inode) l e l' e' ∧ IsParent D e' l'.inodes inode p)
      (fun err l' e' => Resolved F D (OnChain l.inodes inode) l e l' e' ∧ Err err) l e := by
  unfold parentHandle
  rw [Attempt.wp_bind]
  refine Attempt.wp_mono (ensureFresh_resolves hL h) ?_ fun _ _ _ h' => h'
  rintro _ l' e' ⟨h', hf, -⟩
  simp only [Attempt.wp_bind, Attempt.wp_get]
  split
  · rename_i sid hsid
    obtain ⟨entry, he, hk⟩ := Option.map_eq_some_iff.mp hsid
    exact ⟨h', entry, he, .inl ⟨sid, hk, rfl⟩⟩
  · rename_i a ha
    obtain ⟨entry, he, hk⟩ := Option.map_eq_some_iff.mp ha
    exact ⟨h', entry, he, .inr ⟨a, hk, rfl, h'.denotes inode entry a he hf (by rw [hk]; rfl)⟩⟩
  · rename_i hstorage hdir
    refine ⟨h', hkind.resolve_left ?_⟩
    rintro ⟨entry, he, hd, hroot⟩
    obtain ⟨entry', he', hshape⟩ := h'.get he
    have hb := (InodeEntry.shape_inj hshape).2.2
    cases hk' : entry'.kind with
    | storage sid => exact hstorage sid (by rw [he', Option.map_some, hk'])
    | directory b => exact hdir b (by rw [he', Option.map_some, hk'])
    | root =>
      rw [hk'] at hb
      cases hk : entry.kind <;> rw [hk] at hb <;> simp_all [InodeKind.bare]
    | file b =>
      rw [hk'] at hb
      cases hk : entry.kind <;> simp_all [InodeKind.bare, InodeEntry.isDir]

end Denotes

end MtpMount
