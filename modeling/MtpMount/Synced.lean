import MtpMount.Loaded
import MtpMount.Paths
import MtpMount.Storages

/-!
# The mount and its device across sessions

A device that tells its storages, each under a name of its own, finds the mount
as it left it: after a reconnect every storage inode stands for the storage that
it stood for.

* `Synced.refreshes`, `Synced.invalidateHandles`, `Synced.adopted`: what the
  recovery does keeps that;
* `PathOf`: the path of an inode as every session has it, and `PathOf.inode`: no
  two inodes have one path;
* `Synced.atPath_iff`: so an object is at the path of an inode in any session, or
  in none.
-/

namespace MtpMount

open Interaction

/-- The storages of the session are those that the device has. -/
def Bound (N : Naming) (stores : List Nat) (l : Link) : Prop :=
  ∃ infos, l.storages = l.device.bindStorages infos ∧ N.Tells stores l.device.session infos

/-- The storage inode stands for this storage of the device, under its name. -/
def Stands (N : Naming) (l : Link) (top st : Nat) : Prop :=
  ∃ entry sid, l.inodes.get top = some entry ∧ entry.kind = .storage sid ∧ entry.name = N.label st ∧
    N.store l.device.session sid = some st ∧ ∃ storage ∈ l.storages, storage.id = sid

/-- The names of the storages tell them apart. -/
def Naming.Distinct (N : Naming) (stores : List Nat) : Prop :=
  ∀ st ∈ stores, ∀ st' ∈ stores, N.label st = N.label st' → st = st'

/-- The tree is `t₀`, and its storages are the device's. -/
structure Synced (N : Naming) (stores : List Nat) (t₀ : InodeTable) (l : Link) : Prop where
  tree : t₀.SameTree l.inodes
  rooted : l.inodes.Rooted
  dated : l.inodes.Dated
  bound : Bound N stores l
  stands : ∀ top ∈ t₀.children FUSE_ROOT_INODE, ∃ st ∈ stores, Stands N l top st

namespace InodeTable

variable {t u : InodeTable}

/-- The maps and the way to the root are a matter of the tree. -/
theorem SameTree.rooted (h : t.SameTree u) (ht : t.Rooted)
    (hroot : u.get FUSE_ROOT_INODE = t.get FUSE_ROOT_INODE) : u.Rooted := by
  have hlookup : u.lookup = t.lookup := by rw [h.rest]; rfl
  have hchildren : u.children = t.children := by rw [h.rest]; rfl
  have hnext : u.nextInode = t.nextInode := by rw [h.rest]
  have hsome : ∀ p, (u.get p).isSome = (t.get p).isSome := by
    intro p
    have hs := congrArg Option.isSome (h.shape p)
    rwa [Option.isSome_map, Option.isSome_map] at hs
  have hchild : ∀ p i, u.IsChild p i ↔ t.IsChild p i := by
    intro p i
    constructor
    · rintro ⟨e, he, hi, hp⟩
      obtain ⟨e', he', hs⟩ := h.symm.get he
      exact ⟨e', he', hi, (InodeEntry.shape_inj hs).1.trans hp⟩
    · rintro ⟨e, he, hi, hp⟩
      obtain ⟨e', he', hs⟩ := h.get he
      exact ⟨e', he', hi, (InodeEntry.shape_inj hs).1.trans hp⟩
  refine ⟨⟨⟨?_, ?_⟩, ?_, ?_, ?_, ?_, ?_⟩, ?_, ?_⟩
  · intro p n i hl
    rw [hlookup] at hl
    obtain ⟨e, he, hp, hn⟩ := ht.sound p n i hl
    obtain ⟨e', he', hs⟩ := h.get he
    obtain ⟨hp', hn', -⟩ := InodeEntry.shape_inj hs
    exact ⟨e', he', hp'.trans hp, hn'.trans hn⟩
  · intro i e he
    obtain ⟨e', he', -⟩ := h.symm.get he
    rw [hnext]
    exact ht.bound i e' he'
  · intro i e he hi
    obtain ⟨e', he', hs⟩ := h.symm.get he
    obtain ⟨hp, hn, -⟩ := InodeEntry.shape_inj hs
    rw [hlookup, ← hp, ← hn]
    exact ht.complete i e' he' hi
  · rw [hlookup]
    exact ht.noRoot
  · intro p hp i
    rw [hsome] at hp
    rw [hchildren, hchild]
    exact ht.children p hp i
  · intro i e he
    obtain ⟨e', he', hs⟩ := h.symm.get he
    rw [hnext, ← (InodeEntry.shape_inj hs).1]
    exact ht.parentBound i e' he'
  · rw [hroot]
    exact ht.root
  · intro p i hi
    rw [hchildren] at hi
    exact (hchild p i).mpr (ht.listed p i hi)
  · intro i e he
    obtain ⟨e', he', hs⟩ := h.symm.get he
    obtain ⟨hp, -, hb⟩ := InodeEntry.shape_inj hs
    rw [← hp, ← ht.top i e' he', ← Option.isNone_iff_eq_none, ← Option.isNone_iff_eq_none,
      ← Option.not_isSome, ← Option.not_isSome, InodeKind.isSome_handle? hb]

theorem Rooted.refreshes {P : Nat → Prop} {l l' : Link} (h : l.inodes.Rooted)
    (hr : Refreshes P l l') : l'.inodes.Rooted := by
  refine (SameTree.refreshes hr).rooted h ?_
  rcases hr.entry FUSE_ROOT_INODE with hsame | ⟨e, a, -, -, he, hk, -⟩
  · exact hsame
  · cases he.symm.trans h.root
    cases hk

end InodeTable

section

variable {N : Naming} {stores : List Nat} {t₀ : InodeTable} {l l' : Link} {top st st' : Nat}

theorem Bound.session (h : Bound N stores l) {storage : Storage} (hs : storage ∈ l.storages) :
    storage.session = l.device.session := by
  obtain ⟨infos, hinfos, -⟩ := h
  rw [hinfos] at hs
  obtain ⟨info, -, rfl⟩ := List.mem_map.mp hs
  rfl

theorem Bound.session_of (h : Bound N stores l) {i : Nat} {storage : Storage}
    (hs : l.storageFor i = some storage) : storage.session = l.device.session := by
  rw [Link.storageFor] at hs
  obtain ⟨idx, -, hget⟩ := Option.bind_eq_some_iff.mp hs
  exact h.session (List.mem_of_getElem? hget)

theorem Stands.store_mem (hb : Bound N stores l) (h : Stands N l top st) : st ∈ stores := by
  obtain ⟨entry, sid, -, -, -, hstore, storage, hmem, rfl⟩ := h
  obtain ⟨infos, hinfos, htells⟩ := hb
  rw [hinfos] at hmem
  obtain ⟨info, hinfo, rfl⟩ := List.mem_map.mp hmem
  obtain ⟨st', hst', hstore', -⟩ := htells.sound info hinfo
  cases hstore.symm.trans hstore'
  exact hst'

namespace Synced

theorem refreshes {P : Nat → Prop} (h : Synced N stores t₀ l) (hr : Refreshes P l l') :
    Synced N stores t₀ l' where
  tree := h.tree.trans (.refreshes hr)
  rooted := h.rooted.refreshes hr
  dated := by
    intro i e he
    rcases hr.entry i with hsame | ⟨e', a, -, -, -, -, hnew⟩
    · rw [hr.generation]
      exact h.dated i e (by rw [← hsame]; exact he)
    · cases hnew.symm.trans he
      exact Nat.le_of_eq hr.generation.symm
  bound := by
    obtain ⟨infos, hinfos, htells⟩ := h.bound
    refine ⟨infos, ?_, ?_⟩
    · rw [hr.rest]
      exact hinfos
    · rw [hr.rest]
      exact htells
  stands := by
    intro top htop
    obtain ⟨st, hst, entry, sid, he, hk, hrest⟩ := h.stands top htop
    refine ⟨st, hst, entry, sid, ?_, hk, ?_⟩
    · rcases hr.entry top with hsame | ⟨e', a, -, -, he', hsome, -⟩
      · rw [hsame, he]
      · cases he.symm.trans he'
        rw [hk] at hsome
        cases hsome
    · rw [hr.rest]
      exact hrest

theorem invalidateHandles (h : Synced N stores t₀ l) : Synced N stores t₀ l.invalidateHandles where
  tree := h.tree.trans (.bumpGeneration _)
  rooted := h.rooted.bumpGeneration
  dated := h.dated.bumpGeneration
  bound := h.bound
  stands := h.stands

/-- The storage of the new session that an inode is matched with has its name. -/
theorem newStorageId_stands {session : Nat} {infos : List StorageInfo} {position : Nat}
    {old : StorageId} (hN : N.Distinct stores) (ht : N.Tells stores session infos)
    (hst : st ∈ stores) :
    N.store session (Link.newStorageId infos (N.label st) position old) = some st ∧
      ∃ info ∈ infos, info.id = Link.newStorageId infos (N.label st) position old := by
  obtain ⟨info, hinfo, hstore⟩ := ht.complete st hst
  obtain ⟨st₁, -, hstore₁, hname₁⟩ := ht.sound info hinfo
  cases hstore.symm.trans hstore₁
  unfold Link.newStorageId
  cases hfind : infos.find? fun info => storageName info == N.label st with
  | none =>
    have hne := List.find?_eq_none.mp hfind info hinfo
    simp [hname₁] at hne
  | some found =>
    have hmem := List.mem_of_find?_eq_some hfind
    obtain ⟨st₂, hst₂, hstore₂, hname₂⟩ := ht.sound found hmem
    have hname : storageName found = N.label st := by
      simpa using List.find?_some hfind
    rw [hN st hst st₂ hst₂ (hname.symm.trans hname₂)]
    exact ⟨hstore₂, found, hmem, rfl⟩

theorem adopted {device : MtpDevice} {infos : List StorageInfo} (h : Synced N stores t₀ l)
    (hnodup : (t₀.children FUSE_ROOT_INODE).Nodup) (hN : N.Distinct stores)
    (ht : N.Tells stores device.session infos) :
    Synced N stores t₀ (l.adopted device (device.bindStorages infos)) where
  tree := h.tree.trans (.adopted l device _)
  rooted := (Link.remapStorages_induction (fun _ ino sid h => h.setStorageId ino sid) _
    h.rooted).bumpGeneration
  dated := (h.dated.operated (Link.remapStorages_operated _ _)).bumpGeneration
  bound := ⟨infos, rfl, ht⟩
  stands := by
    intro top htop
    obtain ⟨st, hst, entry, sid, he, hk, hname, -⟩ := h.stands top htop
    have hchildren : l.inodes.children FUSE_ROOT_INODE = t₀.children FUSE_ROOT_INODE := by
      rw [h.tree.rest]
      rfl
    obtain ⟨k, hk'⟩ := List.mem_iff_getElem?.mp htop
    rw [← hchildren] at hnodup hk'
    have hget := Link.get_adopted device infos hnodup hk'
    rw [he, Option.map_some] at hget
    have hkind : (Link.remapEntry (device.bindStorages infos) k entry).kind =
        .storage (Link.newStorageId infos entry.name k sid) := Link.kind_remapEntry hk
    have hnew : N.store device.session (Link.newStorageId infos (N.label st) k sid) = some st ∧
        ∃ info ∈ infos, info.id = Link.newStorageId infos (N.label st) k sid :=
      newStorageId_stands hN ht hst
    rw [← hname] at hnew
    obtain ⟨hstore, info, hinfo, hid⟩ := hnew
    exact ⟨st, hst, _, _, hget, hkind, (Link.name_remapEntry _ k entry).trans hname, hstore,
      { toStorageInfo := info, session := device.session }, List.mem_map_of_mem hinfo, hid⟩

theorem giveUp (h : Synced N stores t₀ l) (reason : String) : Synced N stores t₀ (l.giveUp reason) :=
  ⟨h.tree, h.rooted, h.dated, h.bound, h.stands⟩

end Synced

/-- The storage of everything below a storage inode. -/
theorem Stands.storageFor (hb : Bound N stores l) {nodes : List Nat} {i : Nat}
    (hc : l.inodes.Climbs i nodes top) (hs : Stands N l top st) :
    ∃ idx storage, findStorageFrom l (walkFuel l.inodes) i = some (some idx) ∧
      l.storages[idx]? = some storage ∧ l.storageFor i = some storage ∧
      storage.session = l.device.session ∧ N.store l.device.session storage.id = some st := by
  obtain ⟨entry, sid, he, hk, -, hstore, storage, hmem, hid⟩ := hs
  have hfind := findStorageFrom_top hc he hk hc.length_lt
  cases hidx : l.storages.findIdx? fun s => s.id == sid with
  | none =>
    have hno := List.findIdx?_eq_none_iff.mp hidx storage hmem
    simp [hid] at hno
  | some idx =>
    rw [hidx] at hfind
    obtain ⟨hlt, hp, -⟩ := List.findIdx?_eq_some_iff_getElem.mp hidx
    have hget := List.getElem?_eq_getElem hlt
    refine ⟨idx, l.storages[idx], hfind, hget, ?_, hb.session (List.getElem_mem hlt), ?_⟩
    · rw [Link.storageFor, hfind]
      exact hget
    · rw [eq_of_beq hp]
      exact hstore

/-- Where the storage is known, an object is at the path of an inode if the names
lead to it there. -/
theorem Stands.atPath_iff (hb : Bound N stores l) {nodes : List Nat} {i o : Nat} {s : Phone}
    (hc : l.inodes.Climbs i nodes top) (hs : Stands N l top st) :
    (∃ storage, AtPath N s l i storage o) ↔ s.Finds st (l.inodes.names nodes) (some o) := by
  obtain ⟨idx, storage, -, -, hstorage, hses, hst⟩ := hs.storageFor hb hc
  rw [← hses] at hst
  constructor
  · rintro ⟨storage', nodes', top', st', hc', hs', hst', hfind⟩
    cases hstorage.symm.trans hs'
    cases hst.symm.trans hst'
    rwa [(hc.unique hc').1]
  · intro hfind
    exact ⟨storage, nodes, top, st, hc, hstorage, hst, hfind⟩

/-! ## Paths in every session -/

/-- The storage inode of the storage with this name. -/
def IsStorageOf (N : Naming) (stores : List Nat) (t : InodeTable) (top st : Nat) : Prop :=
  st ∈ stores ∧ ∃ entry, t.get top = some entry ∧ (∃ sid, entry.kind = .storage sid) ∧
    entry.name = N.label st

/-- The way from a storage to the inode, the last name first. -/
def PathOf (N : Naming) (stores : List Nat) (t : InodeTable) (i st : Nat) (names : List String) :
    Prop :=
  ∃ nodes top, t.Climbs i nodes top ∧ IsStorageOf N stores t top st ∧ names = t.names nodes

/-- The inode's path leads to the folder or object. -/
def LeadsTo (N : Naming) (stores : List Nat) (t : InodeTable) (s : Phone) (i : Nat)
    (r : Option Nat) : Prop :=
  ∃ st names, PathOf N stores t i st names ∧ s.Finds st names r

end

section

variable {N : Naming} {stores : List Nat} {t t₀ u : InodeTable} {l : Link}
  {i j top top' st st' : Nat} {name : String} {names names' : List String}

theorem InodeKind.eq_root {k : InodeKind} (h : k.bare = .root) : k = .root := by
  cases k <;> first | rfl | cases h

theorem InodeKind.eq_storage {k : InodeKind} (h : k.bare = .storage ⟨0⟩) : ∃ sid, k = .storage sid := by
  cases k with
  | storage sid => exact ⟨sid, rfl⟩
  | _ => cases h

namespace InodeTable.SameTree

theorem names_eq (h : t.SameTree u) (nodes : List Nat) : u.names nodes = t.names nodes := by
  unfold InodeTable.names
  refine congrArg (fun f => nodes.filterMap f) (funext fun j => ?_)
  have hs := congrArg (Option.map fun x : Nat × String × InodeKind => x.2.1) (h.shape j)
  rwa [Option.map_map, Option.map_map] at hs

theorem isStorageOf (h : t.SameTree u) (hs : IsStorageOf N stores t top st) :
    IsStorageOf N stores u top st := by
  obtain ⟨hst, e, he, ⟨sid, hk⟩, hname⟩ := hs
  obtain ⟨e', he', hshape⟩ := h.get he
  obtain ⟨-, hn, hb⟩ := InodeEntry.shape_inj hshape
  rw [hk] at hb
  exact ⟨hst, e', he', InodeKind.eq_storage hb, hn.trans hname⟩

theorem pathOf (h : t.SameTree u) (hp : PathOf N stores t i st names) :
    PathOf N stores u i st names := by
  obtain ⟨nodes, top, hc, hs, rfl⟩ := hp
  exact ⟨nodes, top, h.climbs hc, h.isStorageOf hs, (h.names_eq nodes).symm⟩

end InodeTable.SameTree

theorem IsStorageOf.unique (hN : N.Distinct stores) (h : IsStorageOf N stores t top st)
    (h' : IsStorageOf N stores t top st') : st = st' := by
  obtain ⟨hst, e, he, -, hname⟩ := h
  obtain ⟨hst', e', he', -, hname'⟩ := h'
  cases he.symm.trans he'
  exact hN st hst st' hst' (hname.symm.trans hname')

/-- A storage has one inode. -/
theorem IsStorageOf.inode (ht : t.Rooted) (h : IsStorageOf N stores t top st)
    (h' : IsStorageOf N stores t top' st) : top = top' := by
  obtain ⟨-, e, he, ⟨sid, hk⟩, hname⟩ := h
  obtain ⟨-, e', he', ⟨sid', hk'⟩, hname'⟩ := h'
  have hne : ∀ {i e sid}, t.get i = some e → e.kind = .storage sid → i ≠ FUSE_ROOT_INODE := by
    rintro i e sid he hk rfl
    cases he.symm.trans ht.root
    cases hk
  have hp := (ht.top top e he).mp (by rw [hk]; rfl)
  have hp' := (ht.top top' e' he').mp (by rw [hk']; rfl)
  have hl := ht.complete top e he (hne he hk)
  have hl' := ht.complete top' e' he' (hne he' hk')
  rw [hp, hname] at hl
  rw [hp', hname'] at hl'
  exact Option.some.inj (hl.symm.trans hl')

theorem PathOf.unique (hN : N.Distinct stores) (h : PathOf N stores t i st names)
    (h' : PathOf N stores t i st' names') : st = st' ∧ names = names' := by
  obtain ⟨nodes, top, hc, hs, rfl⟩ := h
  obtain ⟨nodes', top', hc', hs', rfl⟩ := h'
  obtain ⟨rfl, rfl⟩ := hc.unique hc'
  exact ⟨hs.unique hN hs', rfl⟩

/-- The last step of a path. -/
theorem PathOf.last (h : PathOf N stores t i st (name :: names)) :
    ∃ e, t.get i = some e ∧ e.kind.handle?.isSome = true ∧ e.name = name ∧
      PathOf N stores t e.parent st names := by
  obtain ⟨nodes, top, hc, hs, hnames⟩ := h
  cases hc with
  | top _ => cases hnames
  | up he hk hc =>
    rw [InodeTable.names_cons he] at hnames
    cases hnames
    exact ⟨_, he, hk, rfl, _, _, hc, hs, rfl⟩

/-- A node on the way up is at the rest of the path. -/
theorem PathOf.node {below above : List Nat} (h : PathOf N stores t i st names)
    (hc : t.Climbs i (below ++ j :: above) top) : PathOf N stores t j st (t.names (j :: above)) := by
  obtain ⟨nodes, top', hc', hs, -⟩ := h
  obtain ⟨rfl, rfl⟩ := hc'.unique hc
  exact ⟨_, _, hc.suffix, hs, rfl⟩

/-- The folder right above has the path that is left. -/
theorem PathOf.node_above {above : List Nat} (h : PathOf N stores t i st names)
    (hc : t.Climbs i (i :: j :: above) top) : PathOf N stores t j st (t.names (j :: above)) :=
  h.node (show t.Climbs i ([i] ++ j :: above) top from hc)

/-- The path of a folder above is shorter. -/
theorem PathOf.onChain (h : PathOf N stores t i st names) (hj : OnChain t i j) (hne : j ≠ i) :
    ∃ names', PathOf N stores t j st names' ∧ names'.length < names.length := by
  obtain ⟨nodes, top, hc, hmem⟩ := hj
  obtain ⟨below, above, rfl⟩ := List.append_of_mem hmem
  refine ⟨_, h.node hc, ?_⟩
  obtain ⟨nodes', top', hc', -, rfl⟩ := h
  obtain ⟨rfl, -⟩ := hc'.unique hc
  cases below with
  | nil =>
    cases hc
    exact absurd rfl hne
  | cons b below =>
    cases hc with
    | up he _ _ =>
      have hnames : t.names (i :: below ++ j :: above) =
          t.names (i :: below) ++ t.names (j :: above) := List.filterMap_append
      rw [hnames, InodeTable.names_cons he, List.length_append, List.length_cons]
      omega

/-- A storage has the empty path, and nothing else has. -/
theorem PathOf.isTop (h : PathOf N stores t i st names) : t.IsTop i ↔ names = [] := by
  obtain ⟨nodes, top, hc, hs, rfl⟩ := h
  cases hc with
  | top ht => exact ⟨fun _ => rfl, fun _ => ht⟩
  | @up _ _ nodes e he hk _ =>
    rw [InodeTable.isTop_iff he, InodeTable.names_cons he]
    constructor
    · intro hnone
      rw [hnone] at hk
      cases hk
    · nofun

/-- No two inodes have one path. -/
theorem PathOf.inode (ht : t.Rooted) (h : PathOf N stores t i st names)
    (h' : PathOf N stores t j st names) : i = j := by
  induction names generalizing i j with
  | nil =>
    have htop := h.isTop.mpr rfl
    have htop' := h'.isTop.mpr rfl
    obtain ⟨nodes, top, hc, hs, -⟩ := h
    obtain ⟨nodes', top', hc', hs', -⟩ := h'
    obtain ⟨-, rfl⟩ := hc.unique (.top htop)
    obtain ⟨-, rfl⟩ := hc'.unique (.top htop')
    exact hs.inode ht hs'
  | cons name names ih =>
    obtain ⟨e, he, hk, hname, hp⟩ := h.last
    obtain ⟨e', he', hk', hname', hp'⟩ := h'.last
    have hne : ∀ {i e}, t.get i = some e → e.kind.handle?.isSome = true → i ≠ FUSE_ROOT_INODE := by
      rintro i e he hk rfl
      cases he.symm.trans ht.root
      cases hk
    have hl := ht.complete i e he (hne he hk)
    have hl' := ht.complete j e' he' (hne he' hk')
    rw [ih hp hp', hname] at hl
    rw [hname'] at hl'
    exact Option.some.inj (hl.symm.trans hl')

theorem Stands.isStorageOf (hb : Bound N stores l) (h : Stands N l top st) :
    IsStorageOf N stores l.inodes top st := by
  have hst := h.store_mem hb
  obtain ⟨entry, sid, he, hk, hname, -⟩ := h
  exact ⟨hst, entry, he, ⟨sid, hk⟩, hname⟩

namespace Synced

/-- The walk for a storage finds none at the root. -/
theorem findStorageFrom_root (h : Synced N stores t₀ l) (ht : t₀.Rooted) {fuel : Nat}
    {r : Option Nat} (hr : findStorageFrom l fuel FUSE_ROOT_INODE = some r) : r = none := by
  obtain ⟨e, he, hshape⟩ := h.tree.get ht.root
  obtain ⟨hp, -, hb⟩ := InodeEntry.shape_inj hshape
  have hk : e.kind = .root := InodeKind.eq_root hb
  cases fuel with
  | zero => cases hr
  | succ fuel =>
    rw [findStorageFrom, he] at hr
    simpa [hk, show e.parent = FUSE_ROOT_INODE from hp] using hr.symm

/-- The inode of a storage stands for one. -/
theorem stands_of_kind (h : Synced N stores t₀ l) (ht : t₀.Rooted) {e : InodeEntry}
    {sid : StorageId} (he : l.inodes.get top = some e) (hk : e.kind = .storage sid) :
    ∃ st, Stands N l top st := by
  obtain ⟨e₀, he₀, hshape⟩ := h.tree.symm.get he
  have hb₀ := (InodeEntry.shape_inj hshape).2.2
  rw [hk] at hb₀
  obtain ⟨sid₀, hk₀⟩ := InodeKind.eq_storage hb₀
  have hp := (ht.top top e₀ he₀).mp (by rw [hk₀]; rfl)
  have hmem : top ∈ t₀.children FUSE_ROOT_INODE := by
    refine (ht.children _ (by rw [ht.root]; rfl) top).mpr ⟨e₀, he₀, ?_, hp⟩
    rintro rfl
    cases he₀.symm.trans ht.root
    cases hk₀
  obtain ⟨st, -, hst⟩ := h.stands top hmem
  exact ⟨st, hst⟩

/-- An inode with a storage lies below the inode of that storage. -/
theorem stands_of_storageFor {storage : Storage} {nodes : List Nat} (h : Synced N stores t₀ l)
    (ht : t₀.Rooted) (hc : l.inodes.Climbs i nodes top) (hs : l.storageFor i = some storage) :
    ∃ st, Stands N l top st := by
  obtain ⟨e, he, hk⟩ := hc.isTop
  obtain ⟨e₀, he₀, hshape⟩ := h.tree.symm.get he
  obtain ⟨hp₀, -, hb₀⟩ := InodeEntry.shape_inj hshape
  have hk₀ : e₀.kind.handle? = none := by
    have hsome := InodeKind.isSome_handle? hb₀
    rw [hk] at hsome
    exact Option.isNone_iff_eq_none.mp (Option.isSome_eq_false_iff.mp hsome)
  have hp := (ht.top top e₀ he₀).mp hk₀
  cases hkind : e.kind with
  | storage sid => exact h.stands_of_kind ht he hkind
  | root =>
    exfalso
    rw [Link.storageFor] at hs
    cases hfind : findStorageFrom l (walkFuel l.inodes) i with
    | none =>
      rw [hfind] at hs
      cases hs
    | some r =>
      have htop := findStorageFrom_onTop hc hfind
      rw [hfind] at hs
      have hr : r = none := by
        cases hfuel : walkFuel l.inodes with
        | zero =>
          rw [hfuel] at htop
          cases htop
        | succ fuel =>
          rw [hfuel, findStorageFrom, he] at htop
          dsimp only at htop
          rw [hkind] at htop
          dsimp only at htop
          split at htop
          · exact (Option.some.inj htop).symm
          · rw [← hp₀, hp] at htop
            exact h.findStorageFrom_root ht htop
      rw [hr] at hs
      cases hs
  | directory a => rw [hkind] at hk; cases hk
  | file a => rw [hkind] at hk; cases hk

/-- The storage inode of the tree stands for its storage in this session. -/
theorem stands_of (h : Synced N stores t₀ l) (ht : t₀.Rooted) (hN : N.Distinct stores)
    (hs : IsStorageOf N stores t₀ top st) : Stands N l top st := by
  obtain ⟨-, e, he, ⟨sid, hk⟩, -⟩ := h.tree.isStorageOf hs
  obtain ⟨st', hst'⟩ := h.stands_of_kind ht he hk
  have hs' := h.tree.symm.isStorageOf (hst'.isStorageOf h.bound)
  rwa [hs.unique hN hs']

variable {s : Phone} {r : Option Nat} {o : Nat}

/-- The storage that the source's walk finds for an inode with a path. -/
theorem storageFor (h : Synced N stores t₀ l) (ht : t₀.Rooted) (hN : N.Distinct stores)
    (hp : PathOf N stores t₀ i st names) :
    ∃ idx storage, findStorageFrom l (walkFuel l.inodes) i = some (some idx) ∧
      l.storages[idx]? = some storage ∧ l.storageFor i = some storage ∧
      storage.session = l.device.session ∧ N.store l.device.session storage.id = some st := by
  obtain ⟨nodes, top, hc, hs, -⟩ := hp
  exact (h.stands_of ht hN hs).storageFor h.bound (h.tree.climbs hc)

/-- A path that the source's walk begins, is the path of the tree. -/
theorem pathOf (h : Synced N stores t₀ l) (ht : t₀.Rooted) {nodes : List Nat} {storage : Storage}
    (hc : l.inodes.Climbs i nodes top) (hs : l.storageFor i = some storage)
    (hst : N.store storage.session storage.id = some st) :
    PathOf N stores t₀ i st (l.inodes.names nodes) := by
  obtain ⟨st', hst'⟩ := h.stands_of_storageFor ht hc hs
  obtain ⟨idx, storage', -, -, hs', hses, hstore⟩ := hst'.storageFor h.bound hc
  cases hs.symm.trans hs'
  rw [hses] at hst
  cases hst.symm.trans hstore
  exact h.tree.symm.pathOf ⟨nodes, top, hc, hst'.isStorageOf h.bound, rfl⟩

/-- The path of a node on the way up, and its place in the tree. -/
theorem pathOf_node (h : Synced N stores t₀ l) (ht : t₀.Rooted) {below above : List Nat}
    {entry : InodeEntry} {storage : Storage} (hc : l.inodes.Climbs i (below ++ j :: above) top)
    (he : l.inodes.get j = some entry) (hs : l.storageFor i = some storage)
    (hst : N.store storage.session storage.id = some st) :
    PathOf N stores t₀ j st (entry.name :: t₀.names above) ∧ OnChain t₀ i j ∧
      t₀.Climbs j (j :: above) top := by
  have hmem : j ∈ below ++ j :: above := List.mem_append_right _ List.mem_cons_self
  obtain ⟨idx, hidx, hget⟩ : ∃ idx, findStorageFrom l (walkFuel l.inodes) i = some (some idx) ∧
      l.storages[idx]? = some storage := by
    rw [Link.storageFor] at hs
    obtain ⟨idx, hjoin, hget⟩ := Option.bind_eq_some_iff.mp hs
    exact ⟨idx, Option.join_eq_some_iff.mp hjoin, hget⟩
  have hp := h.pathOf ht hc.suffix (storageFor_onChain hc hidx hget hmem) hst
  rw [InodeTable.names_cons he, h.tree.names_eq] at hp
  exact ⟨hp, ⟨_, _, h.tree.symm.climbs hc, hmem⟩, h.tree.symm.climbs hc.suffix⟩

/-- One place in every session. -/
theorem atPath_iff (h : Synced N stores t₀ l) (ht : t₀.Rooted) (hN : N.Distinct stores) :
    (∃ storage, AtPath N s l i storage o) ↔ LeadsTo N stores t₀ s i (some o) := by
  constructor
  · rintro ⟨storage, nodes, top, st, hc, hs, hst, hfind⟩
    exact ⟨st, _, h.pathOf ht hc hs hst, hfind⟩
  · rintro ⟨st, names, hp, hfind⟩
    obtain ⟨idx, storage, -, -, hs, hses, hst⟩ := h.storageFor ht hN hp
    obtain ⟨nodes, top, hc, -, rfl⟩ := hp
    refine ⟨storage, nodes, top, st, h.tree.climbs hc, hs, ?_, ?_⟩
    · rw [hses]
      exact hst
    · rw [h.tree.names_eq]
      exact hfind

/-- Two inodes lie in one storage if the source's walk finds one for both. -/
theorem storageFor_eq_iff (h : Synced N stores t₀ l) (ht : t₀.Rooted) (hN : N.Distinct stores)
    (hp : PathOf N stores t₀ i st names) (hp' : PathOf N stores t₀ j st' names') :
    l.storageFor i = l.storageFor j ↔ st = st' := by
  obtain ⟨idx, storage, -, -, hs, hses, hst⟩ := h.storageFor ht hN hp
  obtain ⟨idx', storage', -, -, hs', hses', hst'⟩ := h.storageFor ht hN hp'
  constructor
  · intro heq
    rw [hs, hs'] at heq
    cases heq
    exact Option.some.inj (hst.symm.trans hst')
  · rintro rfl
    obtain ⟨nodes, top, hc, hst₀, -⟩ := hp
    obtain ⟨nodes', top', hc', hst₀', -⟩ := hp'
    have htop := hst₀.inode ht hst₀'
    subst htop
    obtain ⟨e, sid, he, hk, -⟩ := h.stands_of ht hN hst₀
    have hfind := findStorageFrom_top (h.tree.climbs hc) he hk (h.tree.climbs hc).length_lt
    have hfind' := findStorageFrom_top (h.tree.climbs hc') he hk (h.tree.climbs hc').length_lt
    rw [Link.storageFor, Link.storageFor, hfind, hfind']

end Synced

end

end MtpMount
