import MtpMount.InodeRuns
import MtpMount.Lib.Walks
import MtpMount.LinkRules

/-!
# The way up from an inode

`Climbs t i nodes top`: from the file or directory `i` the parents lead over
`nodes`, deepest first, to the storage or root `top`. The walks of the source
are read as such climbs, and `resolveChain` as a loop over the nodes of one.

* `chainFrom_climbs`, `findStorageFrom_top`: what the two walks find;
* `resolveChain_eq`: the loop with the handle of the folder carried along;
* `ensureFresh_refreshes`: whatever the device answers, nothing changes but the
  handles of stale nodes.
-/

namespace MtpMount

open Interaction Walks

namespace InodeTable

variable {t : InodeTable}

/-- One step of a climb. -/
def folderOf (t : InodeTable) (i : Nat) : Option Nat :=
  (t.get i).bind fun e => if e.kind.handle?.isSome then some e.parent else none

/-- The root or a storage. -/
def IsTop (t : InodeTable) (i : Nat) : Prop :=
  ∃ e, t.get i = some e ∧ e.kind.handle? = none

inductive Climbs (t : InodeTable) : Nat → List Nat → Nat → Prop
  | top {i : Nat} : t.IsTop i → Climbs t i [] i
  | up {i top : Nat} {nodes : List Nat} {e : InodeEntry} :
      t.get i = some e → e.kind.handle?.isSome = true → Climbs t e.parent nodes top →
      Climbs t i (i :: nodes) top

namespace Climbs

variable {i j top top' : Nat} {nodes nodes' below : List Nat}

theorem walk (h : Climbs t i nodes top) : Walk t.folderOf i nodes := by
  induction h with
  | top ht =>
    obtain ⟨e, he, hk⟩ := ht
    refine .stop ?_
    rw [folderOf, he, Option.bind_some, hk]
    rfl
  | up he hk _ ih =>
    refine .step ?_ ih
    rw [folderOf, he, Option.bind_some, if_pos hk]

theorem unique (h : Climbs t i nodes top) (h' : Climbs t i nodes' top') :
    nodes = nodes' ∧ top = top' := by
  obtain rfl := h.walk.unique h'.walk
  refine ⟨rfl, ?_⟩
  induction h with
  | top _ =>
    cases h' with
    | top _ => rfl
  | up he _ _ ih =>
    cases h' with
    | up he' _ h' =>
      cases he.symm.trans he'
      exact ih h'

/-- Every node climbs by itself. -/
theorem suffix (h : Climbs t i (below ++ j :: nodes) top) : Climbs t j (j :: nodes) top := by
  induction below generalizing i with
  | nil =>
    cases h with
    | up he hk h => exact .up he hk h
  | cons b below ih =>
    cases h with
    | up _ _ h => exact ih h

/-- The parent is further up. -/
theorem ne_parent {e : InodeEntry} (h : Climbs t i (i :: nodes) top) (he : t.get i = some e) :
    i ≠ e.parent := by
  intro hp
  have hself := h
  cases hself with
  | up he' _ hup =>
    cases he.symm.trans he'
    rw [← hp] at hup
    have hlen := congrArg List.length (hup.unique h).1
    simp at hlen

theorem node (h : Climbs t i nodes top) (hj : j ∈ nodes) :
    ∃ e a, t.get j = some e ∧ e.kind.handle? = some a := by
  induction h with
  | top _ => cases hj
  | up he hk _ ih =>
    rcases List.mem_cons.mp hj with rfl | hj
    · obtain ⟨a, ha⟩ := Option.isSome_iff_exists.mp hk
      exact ⟨_, a, he, ha⟩
    · exact ih hj

/-- The fuel of a walk is enough. -/
theorem length_lt (h : Climbs t i nodes top) : nodes.length < walkFuel t := by
  refine Nat.lt_succ_of_le (h.walk.length_le fun j hj => ?_)
  have hsome : (t.get j).isSome = true := by
    rw [folderOf, Option.isSome_bind] at hj
    exact Option.isSome_of_any hj
  exact AList.mem_keys.mp (AList.lookup_isSome.mp hsome)

theorem isTop (h : Climbs t i nodes top) : t.IsTop top := by
  induction h with
  | top ht => exact ht
  | up _ _ _ ih => exact ih

/-- The climb looks at its nodes and its top only. -/
theorem congr {u : InodeTable} (h : Climbs t i nodes top)
    (hsame : ∀ k, k ∈ nodes ∨ k = top → u.get k = t.get k) : Climbs u i nodes top := by
  induction h with
  | top ht =>
    obtain ⟨e, he, hk⟩ := ht
    exact .top ⟨e, (hsame _ (.inr rfl)).trans he, hk⟩
  | up he hk _ ih =>
    refine .up ((hsame _ (.inl List.mem_cons_self)).trans he) hk (ih fun k hk => hsame k ?_)
    exact hk.imp (List.mem_cons_of_mem _) id

end Climbs

theorem isTop_iff {i : Nat} {e : InodeEntry} (he : t.get i = some e) :
    t.IsTop i ↔ e.kind.handle? = none := by
  constructor
  · rintro ⟨e', he', hk⟩
    cases he.symm.trans he'
    exact hk
  · intro hk
    exact ⟨e, he, hk⟩

end InodeTable

/-- The walk of `ensure_fresh` collects the nodes of a climb. -/
theorem chainFrom_climbs {t : InodeTable} {fuel i : Nat} {below chain : List Nat}
    (h : chainFrom t fuel i below = some (.ok chain)) :
    ∃ nodes top, t.Climbs i nodes top ∧ chain = nodes.reverse ++ below := by
  induction fuel generalizing i below with
  | zero => cases h
  | succ fuel ih =>
    rw [chainFrom] at h
    split at h
    · cases h
    · rename_i e he
      have htop : e.kind.handle? = none → below = chain →
          ∃ nodes top, t.Climbs i nodes top ∧ chain = nodes.reverse ++ below := by
        rintro hk rfl
        exact ⟨[], i, .top ⟨e, he, hk⟩, rfl⟩
      split at h
      · rename_i hk
        exact htop (by rw [hk]; rfl) (Except.ok.inj (Option.some.inj h))
      · rename_i hk
        exact htop (by rw [hk]; rfl) (Except.ok.inj (Option.some.inj h))
      · rename_i hroot hstorage
        split at h
        · cases h
        · obtain ⟨nodes, top, hclimb, rfl⟩ := ih h
          refine ⟨i :: nodes, top, .up he ?_ hclimb, by simp⟩
          cases hk : e.kind with
          | root => exact absurd hk hroot
          | storage sid => exact absurd hk (hstorage sid)
          | directory a => rfl
          | file a => rfl

theorem chainFrom_of_climbs {t : InodeTable} {fuel i top : Nat} {nodes below : List Nat}
    (h : t.Climbs i nodes top) (hfuel : nodes.length < fuel) :
    chainFrom t fuel i below = some (.ok (nodes.reverse ++ below)) := by
  induction h generalizing fuel below with
  | top ht =>
    obtain ⟨e, he, hk⟩ := ht
    cases fuel with
    | zero => cases hfuel
    | succ fuel =>
      rw [chainFrom, he]
      cases hkind : e.kind with
      | root => simp [hkind]
      | storage sid => simp [hkind]
      | directory a =>
        rw [hkind] at hk
        cases hk
      | file a =>
        rw [hkind] at hk
        cases hk
  | @up i top nodes e he hk hup ih =>
    cases fuel with
    | zero => cases hfuel
    | succ fuel =>
      have hne := (InodeTable.Climbs.up he hk hup).ne_parent he
      have hrec := @ih fuel (i :: below) (Nat.lt_of_succ_lt_succ hfuel)
      rw [List.reverse_cons, List.append_assoc, List.singleton_append, ← hrec, chainFrom, he]
      cases hkind : e.kind with
      | root =>
        rw [hkind] at hk
        cases hk
      | storage sid =>
        rw [hkind] at hk
        cases hk
      | directory a => simp [hkind, hne]
      | file a => simp [hkind, hne]

theorem chainFrom_error {t : InodeTable} {fuel i : Nat} {below : List Nat} {err : Error}
    (h : chainFrom t fuel i below = some (.error err)) : err = .notFound := by
  induction fuel generalizing i below with
  | zero => cases h
  | succ fuel ih =>
    rw [chainFrom] at h
    split at h
    · cases h
      rfl
    · split at h
      · cases h
      · cases h
      · split at h
        · cases h
          rfl
        · exact ih h

/-- More fuel does not change what a walk finds. -/
theorem findStorageFrom_mono {l : Link} {fuel fuel' i : Nat} {r : Option Nat}
    (h : findStorageFrom l fuel i = some r) (hle : fuel ≤ fuel') :
    findStorageFrom l fuel' i = some r := by
  induction fuel generalizing fuel' i with
  | zero => cases h
  | succ fuel ih =>
    cases fuel' with
    | zero => cases hle
    | succ fuel' =>
      rw [findStorageFrom] at h ⊢
      split
      · rename_i hnone
        rw [hnone] at h
        exact h
      · rename_i e he
        rw [he] at h
        dsimp only at h
        split
        · rename_i sid hk
          rw [hk] at h
          exact h
        · rename_i hk
          split at h
          · rename_i sid hk'
            exact absurd hk' (hk sid)
          · split at h
            · rename_i hp
              rw [if_pos hp]
              exact h
            · rename_i hp
              rw [if_neg hp]
              exact ih h (Nat.le_of_succ_le_succ hle)

/-- A file or directory is in the storage that its parent is in. -/
theorem findStorageFrom_parent {l : Link} {fuel i top : Nat} {nodes : List Nat} {e : InodeEntry}
    {r : Option Nat} (hc : l.inodes.Climbs i (i :: nodes) top) (he : l.inodes.get i = some e)
    (h : findStorageFrom l fuel i = some r) : findStorageFrom l fuel e.parent = some r := by
  cases fuel with
  | zero => cases h
  | succ fuel =>
    rw [findStorageFrom, he] at h
    dsimp only at h
    split at h
    · rename_i sid hk
      obtain ⟨e', a, he', ha⟩ := hc.node List.mem_cons_self
      cases he.symm.trans he'
      rw [hk] at ha
      cases ha
    · rw [if_neg (hc.ne_parent he)] at h
      exact findStorageFrom_mono h (Nat.le_succ fuel)

/-- So is everything on the way up. -/
theorem findStorageFrom_onChain {l : Link} {fuel i j top : Nat} {nodes : List Nat} {r : Option Nat}
    (hc : l.inodes.Climbs i nodes top) (hj : j ∈ nodes)
    (h : findStorageFrom l fuel i = some r) : findStorageFrom l fuel j = some r := by
  induction hc with
  | top _ => cases hj
  | up he hk hup ih =>
    rcases List.mem_cons.mp hj with rfl | hj
    · exact h
    · exact ih hj (findStorageFrom_parent (.up he hk hup) he h)

/-- And the top of it. -/
theorem findStorageFrom_onTop {l : Link} {fuel i top : Nat} {nodes : List Nat} {r : Option Nat}
    (hc : l.inodes.Climbs i nodes top) (h : findStorageFrom l fuel i = some r) :
    findStorageFrom l fuel top = some r := by
  induction hc with
  | top _ => exact h
  | up he hk hup ih => exact ih (findStorageFrom_parent (.up he hk hup) he h)

theorem findStorageFrom_top {l : Link} {fuel i top : Nat} {nodes : List Nat} {e : InodeEntry}
    {sid : StorageId} (hc : l.inodes.Climbs i nodes top) (he : l.inodes.get top = some e)
    (hk : e.kind = .storage sid) (hfuel : nodes.length < fuel) :
    findStorageFrom l fuel i = some (l.storages.findIdx? fun s => s.id == sid) := by
  induction hc generalizing fuel with
  | top ht =>
    cases fuel with
    | zero => cases hfuel
    | succ fuel => simp [findStorageFrom, he, hk]
  | @up i top nodes e' he' hk' hup ih =>
    cases fuel with
    | zero => cases hfuel
    | succ fuel =>
      have hne := (InodeTable.Climbs.up he' hk' hup).ne_parent he'
      rw [findStorageFrom, he', ← ih he (Nat.lt_of_succ_lt_succ hfuel)]
      cases hkind : e'.kind with
      | root =>
        rw [hkind] at hk'
        cases hk'
      | storage sid =>
        rw [hkind] at hk'
        cases hk'
      | directory a => simp [hkind, hne]
      | file a => simp [hkind, hne]

/-- Tables with the same live inodes have fuel for walks as long. -/
theorem walkFuel_congr {t u : InodeTable} (h : ∀ i, (u.get i).isSome = (t.get i).isSome) :
    walkFuel u = walkFuel t := by
  have hmem : ∀ i, i ∈ u.entries.keys ↔ i ∈ t.entries.keys := by
    intro i
    rw [← AList.mem_keys, ← AList.mem_keys, ← AList.lookup_isSome, ← AList.lookup_isSome]
    exact Bool.eq_iff_iff.mp (h i)
  have hperm := (List.perm_ext_iff_of_nodup u.entries.keys_nodup t.entries.keys_nodup).mpr hmem
  rw [walkFuel, walkFuel, hperm.length_eq]

/-- The walk to a storage looks at places and not at handles. -/
theorem findStorageFrom_congr {l l' : Link} (hs : l'.storages = l.storages)
    (hp : ∀ i, (l'.inodes.get i).map InodeEntry.place = (l.inodes.get i).map InodeEntry.place)
    (fuel i : Nat) : findStorageFrom l' fuel i = findStorageFrom l fuel i := by
  induction fuel generalizing i with
  | zero => rfl
  | succ fuel ih =>
    rw [findStorageFrom, findStorageFrom]
    have hi := hp i
    cases he : l.inodes.get i with
    | none =>
      rw [he, Option.map_none] at hi
      rw [Option.map_eq_none_iff.mp hi]
    | some e =>
      rw [he, Option.map_some] at hi
      obtain ⟨e', he', hplace⟩ := Option.map_eq_some_iff.mp hi
      simp only [InodeEntry.place, Prod.mk.injEq] at hplace
      obtain ⟨hparent, -, hkind⟩ := hplace
      rw [he']
      cases hk : e.kind <;> cases hk' : e'.kind <;>
        simp_all [InodeKind.withHandle]

/-! ## The loop over the chain -/

/-- One turn of the loop: the handle of the node, refreshed if it is stale. -/
def resolveStep (storageIdx : Nat) (parentHandle : Option ObjectHandle) (node : Nat) :
    MtpM (Option ObjectHandle) := do
  let l : Link ← get
  match l.inodes.get node with
  | none => throw .notFound
  | some entry =>
    if l.inodes.isFresh node then
      match entry.kind.handle? with
      | some handle => pure (some handle)
      | none => throw .notFound
    else
      let storage ← storageAt storageIdx
      let objects : List ObjectInfo ← ExceptT.mk (call (.listObjects storage parentHandle))
      match objects.find? fun obj => obj.filename == entry.name with
      | none => throw .notFound
      | some found =>
        modify fun l => { l with inodes := l.inodes.setHandle node found.handle }
        pure (some found.handle)

theorem resolveChain_cons (idx node : Nat) (rest : List Nat) (parent : Option ObjectHandle) :
    resolveChain idx (node :: rest) parent =
      resolveStep idx parent node >>= resolveChain idx rest := by
  rw [resolveChain, resolveStep, bind_assoc]
  refine congrArg _ (funext fun l => ?_)
  cases hget : l.inodes.get node with
  | none => rfl
  | some entry =>
    dsimp only
    by_cases hfresh : l.inodes.isFresh node = true
    · rw [if_pos hfresh, if_pos hfresh]
      cases hkind : entry.kind.handle? with
      | none => rfl
      | some handle => rfl
    · rw [if_neg hfresh, if_neg hfresh]
      simp only [bind_assoc]
      refine congrArg _ (funext fun storage => congrArg _ (funext fun objects => ?_))
      cases hfind : objects.find? fun obj => obj.filename == entry.name with
      | none => rfl
      | some found => simp only [bind_assoc, pure_bind]

/-- The loop of the source is the loop that carries the handle along. -/
theorem resolveChain_eq (idx : Nat) (chain : List Nat) (parent : Option ObjectHandle) :
    resolveChain idx chain parent = (fun _ => ()) <$> chain.foldlM (resolveStep idx) parent := by
  induction chain generalizing parent with
  | nil => simp [resolveChain]
  | cons node rest ih =>
    rw [resolveChain_cons, List.foldlM_cons, map_bind]
    exact congrArg _ (funext ih)

/-! ## What a refresh changes -/

/-- Some stale nodes of `P` got a new handle, and nothing else happened. -/
structure Refreshes (P : Nat → Prop) (l l' : Link) : Prop where
  rest : l' = { l with inodes := { l.inodes with entries := l'.inodes.entries } }
  entry : ∀ j, l'.inodes.get j = l.inodes.get j ∨ ∃ e h, P j ∧ l.inodes.isFresh j = false ∧
    l.inodes.get j = some e ∧ e.kind.handle?.isSome = true ∧
    l'.inodes.get j = some { e with kind := e.kind.withHandle h, generation := l.inodes.generation }

namespace Refreshes

variable {P : Nat → Prop} {l l₁ l₂ : Link} {j : Nat}

theorem refl (P : Nat → Prop) (l : Link) : Refreshes P l l := ⟨rfl, fun _ => .inl rfl⟩

theorem generation (h : Refreshes P l l₁) : l₁.inodes.generation = l.inodes.generation := by
  rw [h.rest]

theorem isFresh_of_get (h : Refreshes P l l₁) (hj : l₁.inodes.get j = l.inodes.get j) :
    l₁.inodes.isFresh j = l.inodes.isFresh j := by
  unfold InodeTable.isFresh
  rw [hj, h.generation]

/-- A node with a new handle is fresh. -/
theorem isFresh_new (h : Refreshes P l l₁) {e : InodeEntry} {a : ObjectHandle}
    (he : e.kind.handle?.isSome = true) (hj : l₁.inodes.get j =
      some { e with kind := e.kind.withHandle a, generation := l.inodes.generation }) :
    l₁.inodes.isFresh j = true := by
  obtain ⟨b, hb⟩ := Option.isSome_iff_exists.mp he
  refine (InodeTable.isFresh_iff hj (InodeTable.handle?_withHandle hb)).mpr ?_
  exact h.generation.symm

theorem trans (h : Refreshes P l l₁) (h' : Refreshes P l₁ l₂) : Refreshes P l l₂ where
  rest := by
    rw [h'.rest, h.rest]
  entry := by
    intro j
    rcases h'.entry j with hsame | ⟨e, a, hP, hstale, he, hk, hnew⟩
    · rw [hsame]
      exact h.entry j
    · rcases h.entry j with hsame | ⟨e₀, b, -, -, he₀, hk₀, hnew₀⟩
      · rw [h.isFresh_of_get hsame] at hstale
        rw [hsame] at he
        rw [h.generation] at hnew
        exact .inr ⟨e, a, hP, hstale, he, hk, hnew⟩
      · rw [h.isFresh_new hk₀ hnew₀] at hstale
        cases hstale

theorem setHandle {node : Nat} {e : InodeEntry} (hP : P node)
    (hstale : ¬ l.inodes.isFresh node = true) (he : l.inodes.get node = some e)
    (hk : e.kind.handle?.isSome = true) (a : ObjectHandle) :
    Refreshes P l { l with inodes := l.inodes.setHandle node a } where
  rest := rfl
  entry := by
    intro j
    dsimp only
    rw [InodeTable.get_setHandle]
    split
    · rename_i hj
      subst hj
      refine .inr ⟨e, a, hP, Bool.eq_false_iff.mpr hstale, he, hk, ?_⟩
      rw [he, Option.map_some, if_pos hk]
    · exact .inl rfl

/-- What was fresh is as it was. -/
theorem get_of_isFresh (h : Refreshes P l l₁) (hj : l.inodes.isFresh j = true) :
    l₁.inodes.get j = l.inodes.get j := by
  rcases h.entry j with hsame | ⟨e, a, -, hstale, -⟩
  · exact hsame
  · rw [hj] at hstale
    cases hstale

theorem get_of_not (h : Refreshes P l l₁) (hj : ¬ P j) : l₁.inodes.get j = l.inodes.get j := by
  rcases h.entry j with hsame | ⟨e, a, hP, -⟩
  · exact hsame
  · exact absurd hP hj

/-- An entry is what it was, but for its handle. -/
theorem get (h : Refreshes P l l₁) {e : InodeEntry} (he : l.inodes.get j = some e) :
    ∃ k g, l₁.inodes.get j = some { e with kind := k, generation := g } ∧
      k.handle?.isSome = e.kind.handle?.isSome ∧
      (e.kind.handle? = none → k = e.kind) ∧ ∀ a, k.withHandle a = e.kind.withHandle a := by
  rcases h.entry j with hsame | ⟨e', a, -, -, he', hk, hnew⟩
  · exact ⟨e.kind, e.generation, by rw [hsame, he], rfl, fun _ => rfl, fun _ => rfl⟩
  · cases he.symm.trans he'
    refine ⟨_, _, hnew, ?_, ?_, ?_⟩
    · cases hk' : e.kind <;> rfl
    · intro hnone
      rw [hnone] at hk
      cases hk
    · intro b
      cases hk' : e.kind <;> rfl

theorem place (h : Refreshes P l l₁) (j : Nat) :
    (l₁.inodes.get j).map InodeEntry.place = (l.inodes.get j).map InodeEntry.place := by
  rcases h.entry j with hsame | ⟨e, a, -, -, he, -, hnew⟩
  · rw [hsame]
  · rw [he, hnew]
    cases hk : e.kind <;> simp [InodeEntry.place, InodeKind.withHandle, hk]

/-- A refresh changes no inode's storage. -/
theorem findStorageFrom (h : Refreshes P l l₁) (i : Nat) :
    findStorageFrom l₁ (walkFuel l₁.inodes) i = findStorageFrom l (walkFuel l.inodes) i := by
  have hlive : ∀ j, (l₁.inodes.get j).isSome = (l.inodes.get j).isSome := fun j => by
    simpa using congrArg Option.isSome (h.place j)
  rw [walkFuel_congr hlive]
  exact findStorageFrom_congr (by rw [h.rest]) h.place _ i

theorem mono {P' : Nat → Prop} (h : Refreshes P l l₁) (hP : ∀ j, P j → P' j) :
    Refreshes P' l l₁ where
  rest := h.rest
  entry := fun j => (h.entry j).imp_right fun ⟨e, a, hj, hrest⟩ => ⟨e, a, hP j hj, hrest⟩

theorem indexed (h : Refreshes P l l₁) (hl : l.inodes.Indexed) : l₁.inodes.Indexed where
  sound := by
    intro p n i hi
    have hi' : l.inodes.lookup p n = some i := by
      rw [h.rest] at hi
      exact hi
    obtain ⟨e, he, hp, hn⟩ := hl.sound p n i hi'
    obtain ⟨k, g, he₁, -⟩ := h.get he
    exact ⟨_, he₁, hp, hn⟩
  bound := by
    intro i e he
    have hnext : l₁.inodes.nextInode = l.inodes.nextInode := by rw [h.rest]
    rw [hnext]
    rcases h.entry i with hsame | ⟨e₀, a, -, -, he₀, -⟩
    · exact hl.bound i e (by rw [← hsame, he])
    · exact hl.bound i e₀ he₀

theorem climbs (h : Refreshes P l l₁) {i top : Nat} {nodes : List Nat}
    (hc : l.inodes.Climbs i nodes top) : l₁.inodes.Climbs i nodes top := by
  induction hc with
  | top ht =>
    obtain ⟨e, he, hk⟩ := ht
    obtain ⟨k, g, he₁, -, hsame, -⟩ := h.get he
    exact .top ⟨_, he₁, by rw [hsame hk]; exact hk⟩
  | up he hk _ ih =>
    obtain ⟨k, g, he₁, hsome, -⟩ := h.get he
    exact .up he₁ (hsome.trans hk) ih

end Refreshes

/-- The file or directory `j` is `i`, or one of the folders on the way up from it. -/
def OnChain (t : InodeTable) (i j : Nat) : Prop :=
  ∃ nodes top, t.Climbs i nodes top ∧ j ∈ nodes

/-- What is above a node of the chain is further up on it. -/
theorem OnChain.above {t : InodeTable} {i j k top : Nat} {nodes : List Nat} (h : OnChain t i j)
    (hc : t.Climbs j (j :: nodes) top) (hk : k ∈ nodes) : OnChain t i k ∧ k ≠ i := by
  obtain ⟨all, top', hall, hj⟩ := h
  obtain ⟨below, rest, rfl⟩ := List.append_of_mem hj
  obtain ⟨hrest, -⟩ := hall.suffix.unique hc
  cases hrest
  refine ⟨⟨_, _, hall, List.mem_append_right _ (List.mem_cons_of_mem _ hk)⟩, ?_⟩
  rintro rfl
  have hnodup := hall.walk.nodup
  have hhead : ∃ rest', below ++ j :: nodes = k :: rest' ∧ k ∈ rest' := by
    cases below with
    | nil =>
      cases hall
      exact ⟨_, rfl, hk⟩
    | cons b below =>
      cases hall
      exact ⟨_, rfl, List.mem_append_right _ (List.mem_cons_of_mem _ hk)⟩
  obtain ⟨rest', heq, hmem⟩ := hhead
  rw [heq] at hnodup
  exact (List.nodup_cons.mp hnodup).1 hmem

section Rules

variable {E : Type} {R : Answers Call Answer E} {G : E → Call → Prop} {X : Error → Link → E → Prop}
  {l : Link} {e : E}

/-- A node is fresh, or the listing of the folder above it is searched for its name. -/
theorem resolveStep_wp {idx node : Nat} {storage : Storage} {parent : Option ObjectHandle}
    {entry : InodeEntry} {a : ObjectHandle} {Q : Option ObjectHandle → Link → E → Prop}
    (hs : l.storages[idx]? = some storage) (he : l.inodes.get node = some entry)
    (ha : entry.kind.handle? = some a) (hfresh : l.inodes.isFresh node = true → Q (some a) l e)
    (hstale : ¬ l.inodes.isFresh node = true → G e (.listObjects storage parent) ∧
      ∀ (answer : Except Error (List ObjectInfo)) e', R e (.listObjects storage parent) answer e' →
        match answer with
        | .error err => X err l e'
        | .ok objects =>
          (objects.find? (fun obj => obj.filename == entry.name) = none → X .notFound l e') ∧
          ∀ found, objects.find? (fun obj => obj.filename == entry.name) = some found →
            Q (some found.handle)
              { l with inodes := l.inodes.setHandle node found.handle } e') :
    Attempt.wp R G (resolveStep idx parent node) Q X l e := by
  unfold resolveStep
  simp only [Attempt.wp_bind, Attempt.wp_get, he]
  split
  · rw [ha]
    exact hfresh ‹_›
  · obtain ⟨hG, hR⟩ := hstale ‹_›
    rw [Attempt.wp_bind]
    refine storageAt_wp hs ?_
    rw [Attempt.wp_bind, Attempt.wp_mk]
    refine wp_call.mpr ⟨hG, fun answer e₁ hr => ?_⟩
    have hans := hR answer e₁ hr
    rcases answer with err | objects
    · exact hans
    · dsimp only
      cases hfind : objects.find? fun obj => obj.filename == entry.name with
      | none => exact hans.1 hfind
      | some found => exact hans.2 found hfind

/-- The loop over the nodes of a climb, from the top down. -/
theorem climb_wp {idx : Nat} {nodes : List Nat} {I : List Nat → Option ObjectHandle → Link → E → Prop}
    (hstep : ∀ below node above, nodes = below ++ node :: above → ∀ parent l e, I above parent l e →
      Attempt.wp R G (resolveStep idx parent node) (I (node :: above)) X l e)
    (h : I [] none l e) :
    Attempt.wp R G (nodes.reverse.foldlM (resolveStep idx) none) (I nodes) X l e := by
  suffices hloop : Attempt.wp R G (nodes.reverse.foldlM (resolveStep idx) none)
      (I nodes.reverse.reverse) X l e by rwa [List.reverse_reverse] at hloop
  refine Attempt.wp_foldlM (I := fun done => I done.reverse) ?_ h
  intro done node rest hnodes parent l e h
  have hsplit : nodes = rest.reverse ++ node :: done.reverse := by
    rw [← List.reverse_reverse nodes, hnodes]
    simp
  have hs := hstep _ _ _ hsplit parent l e h
  rwa [List.reverse_append]

/-- What `ensure_fresh` comes down to: nothing, or the loop over a climb. -/
theorem ensureFresh_loop {inode : Nat} {Q : Link → E → Prop}
    (hang : ¬ l.inodes.Grounded inode → G e .hang)
    (hX : (∀ nodes top idx, l.inodes.Climbs inode nodes top →
      findStorageFrom l (walkFuel l.inodes) inode ≠ some (some idx)) → X .notFound l e)
    (hfresh : l.inodes.isFresh inode = true → Q l e)
    (hloop : ∀ nodes top idx storage, ¬ l.inodes.isFresh inode = true →
      l.inodes.Climbs inode nodes top →
      findStorageFrom l (walkFuel l.inodes) inode = some (some idx) →
      l.storages[idx]? = some storage →
      Attempt.wp R G (nodes.reverse.foldlM (resolveStep idx) none) (fun _ => Q) X l e) :
    Attempt.wp R G (ensureFresh inode) (fun _ => Q) X l e := by
  unfold ensureFresh
  simp only [Attempt.wp_bind, Attempt.wp_get]
  split
  · exact hfresh ‹_›
  · rename_i hstale
    split
    · rename_i hnone
      simpa using hang fun h => h.chainFrom [] hnone
    · rename_i err herr
      cases chainFrom_error herr
      refine hX fun nodes top idx hclimb _ => ?_
      rw [chainFrom_of_climbs hclimb hclimb.length_lt] at herr
      cases herr
    · rename_i chain hok
      obtain ⟨nodes, top, hclimb, rfl⟩ := chainFrom_climbs hok
      rw [Attempt.wp_bind]
      refine storageIndex_wp hang (fun idx hidx => ?_) fun hnone => hX fun _ _ idx _ hidx => ?_
      rotate_left
      · rw [hnone] at hidx
        cases hidx
      have hlt := findStorageFrom_lt hidx
      rw [resolveChain_eq, Attempt.wp_map, List.append_nil]
      exact hloop nodes top idx _ hstale hclimb hidx (List.getElem?_eq_getElem hlt)

/-- Whatever the device answers, a refresh changes handles of stale nodes only. -/
theorem ensureFresh_refreshes (inode : Nat) (hlist : ∀ e storage parent, G e (.listObjects storage parent))
    (hang : ∀ e, ¬ l.inodes.Grounded inode → G e .hang) :
    Attempt.wp R G (ensureFresh inode) (fun _ l' _ => Refreshes (OnChain l.inodes inode) l l')
      (fun _ l' _ => Refreshes (OnChain l.inodes inode) l l') l e := by
  refine ensureFresh_loop (hang e) (fun _ => .refl _ l) (fun _ => .refl _ l) ?_
  intro nodes top idx storage _ hclimb _ hs
  refine Attempt.wp_mono (climb_wp (I := fun _ _ l' _ => Refreshes (OnChain l.inodes inode) l l') ?_
    (.refl _ l)) (fun _ _ _ h => h) fun _ _ _ h => h
  intro below node above hnodes parent l' e' h
  have hmem : node ∈ nodes := by
    rw [hnodes]
    exact List.mem_append_right below List.mem_cons_self
  obtain ⟨entry, a, he, ha⟩ := (h.climbs hclimb).node hmem
  have hs' : l'.storages[idx]? = some storage := by
    rw [h.rest]
    exact hs
  refine resolveStep_wp hs' he ha (fun _ => h) fun hstale => ⟨hlist _ _ _, fun answer e₁ _ => ?_⟩
  rcases answer with err | objects
  · exact h
  · exact ⟨fun _ => h, fun found _ => h.trans (.setHandle ⟨nodes, top, hclimb, hmem⟩ hstale he
      (Option.isSome_iff_exists.mpr ⟨a, ha⟩) found.handle)⟩

end Rules

end MtpMount
