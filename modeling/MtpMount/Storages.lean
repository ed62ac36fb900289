import MtpMount.InodeIndex
import MtpMount.LinkRules

/-!
# Storages across a reconnect

What `adopt` does to the storage inodes. The inode of a storage that the new
session does not name takes the storage in its position, whatever that one is
called, and with no storage there it keeps an id of the old session.

* `Link.findStorage_adopted`: the storage that each storage inode resolves to;
* `storages_adopted`: every storage inode resolves to a storage of its name or
  to none exactly when each has a storage of its name, or no storage in its
  position and a number that the new session does not use;
* `storages_swapped`: two storage inodes that resolve to one storage.
-/

namespace MtpMount

namespace Link

/-- The storage that a reconnect gives to the inode in a position, if any. -/
def matchedStorage (storages : List Storage) (name : String) (position : Nat) : Option Storage :=
  (storages.find? fun s => storageName s.toStorageInfo == name).or storages[position]?

/-- The entry of a storage inode after the remap. -/
def remapEntry (storages : List Storage) (position : Nat) (entry : InodeEntry) : InodeEntry :=
  match matchedStorage storages entry.name position, entry.kind with
  | some storage, .storage _ => { entry with kind := .storage storage.id }
  | _, _ => entry

/-- `find_storage_index` of an inode is this one. -/
def ResolvesTo (l : Link) (inode k : Nat) : Prop :=
  findStorageFrom l (walkFuel l.inodes) inode = some (some k)

/-- The inode stands for a storage that was known by this number. -/
def IsStorage (l : Link) (inode : Nat) (entry : InodeEntry) (sid : StorageId) : Prop :=
  inode ∈ l.inodes.children FUSE_ROOT_INODE ∧ l.inodes.get inode = some entry ∧
    entry.kind = .storage sid

section

variable (storages : List Storage) {t : InodeTable} {i j : Nat}

theorem get_remapStorage (t : InodeTable) (i position j : Nat) :
    (remapStorage storages t i position).get j =
      if j = i then (t.get i).map (remapEntry storages position) else t.get j := by
  unfold remapStorage
  cases hi : t.get i with
  | none =>
    by_cases h : j = i
    · simp [h, hi]
    · simp [h]
  | some entry =>
    have hm : (storages.find? fun s => storageName s.toStorageInfo == entry.name).or
        storages[position]? = matchedStorage storages entry.name position := rfl
    simp only [hm]
    cases h : matchedStorage storages entry.name position with
    | none =>
      by_cases hj : j = i
      · simp [hj, hi, remapEntry, h]
      · simp [hj]
    | some storage =>
      unfold InodeTable.setStorageId
      rw [InodeTable.get_getMut]
      by_cases hj : j = i
      · cases hk : entry.kind <;> simp [hj, hi, remapEntry, h, hk]
      · simp [hj]

/-- One pass over the children touches no other inode. -/
theorem get_remap_of_not_mem (cs : List Nat) (n : Nat) (t : InodeTable) (hj : j ∉ cs) :
    ((cs.zipIdx n).foldl (fun t c => remapStorage storages t c.1 c.2) t).get j = t.get j := by
  induction cs generalizing n t with
  | nil => rfl
  | cons c cs ih =>
    have ⟨hc, hcs⟩ : j ≠ c ∧ j ∉ cs := by simpa using hj
    rw [List.zipIdx_cons, List.foldl_cons, ih _ _ hcs, get_remapStorage, if_neg hc]

theorem get_remap (cs : List Nat) (hcs : cs.Nodup) (n k : Nat) (t : InodeTable)
    (hi : cs[k]? = some i) :
    ((cs.zipIdx n).foldl (fun t c => remapStorage storages t c.1 c.2) t).get i =
      (t.get i).map (remapEntry storages (n + k)) := by
  induction cs generalizing n k t with
  | nil => simp at hi
  | cons c cs ih =>
    obtain ⟨hc, hnodup⟩ := List.nodup_cons.mp hcs
    rw [List.zipIdx_cons, List.foldl_cons]
    cases k with
    | zero =>
      have hci : c = i := by simpa using hi
      subst hci
      rw [get_remap_of_not_mem storages cs _ _ hc, get_remapStorage, if_pos rfl, Nat.add_zero]
    | succ k =>
      have hi : cs[k]? = some i := by simpa using hi
      have hne : i ≠ c := by
        rintro rfl
        exact hc (List.mem_of_getElem? hi)
      rw [ih hnodup _ k _ hi, get_remapStorage, if_neg hne, Nat.add_right_comm, Nat.add_assoc]

theorem children_remapStorages (t : InodeTable) :
    (remapStorages storages t).children = t.children :=
  remapStorages_induction (P := fun u => u.children = t.children) (fun _ _ _ h => h) storages rfl

end

theorem resolvesTo_iff {l : Link} {i k : Nat} {entry : InodeEntry} {sid : StorageId}
    (hi : l.inodes.get i = some entry) (hk : entry.kind = .storage sid) :
    l.ResolvesTo i k ↔ l.storages.findIdx? (fun s => s.id == sid) = some k := by
  simp [ResolvesTo, walkFuel, findStorageFrom, hi, hk]

variable {l : Link} {device : MtpDevice} {infos : List StorageInfo}

variable (device infos) in
theorem get_adopted (hcs : (l.inodes.children FUSE_ROOT_INODE).Nodup) {i k : Nat}
    (hi : (l.inodes.children FUSE_ROOT_INODE)[k]? = some i) :
    (l.adopted device (device.bindStorages infos)).inodes.get i =
      (l.inodes.get i).map (remapEntry (device.bindStorages infos) k) := by
  have h := get_remap (device.bindStorages infos) _ hcs 0 k l.inodes hi
  rw [Nat.zero_add] at h
  exact h

theorem name_remapEntry (storages : List Storage) (k : Nat) (entry : InodeEntry) :
    (remapEntry storages k entry).name = entry.name := by
  unfold remapEntry
  split <;> rfl

/-- The number that the inode of a storage, in a position, has afterwards. -/
def newStorageId (infos : List StorageInfo) (name : String) (position : Nat) (old : StorageId) :
    StorageId :=
  match (infos.find? fun info => storageName info == name).or infos[position]? with
  | some info => info.id
  | none => old

variable (device infos) in
theorem matchedStorage_bindStorages (name : String) (k : Nat) :
    (matchedStorage (device.bindStorages infos) name k).map Storage.toStorageInfo =
      (infos.find? fun info => storageName info == name).or infos[k]? := by
  have hinfo : Storage.toStorageInfo ∘
      (fun info => ({ toStorageInfo := info, session := device.session } : Storage)) = id := rfl
  rw [matchedStorage, Option.map_or, MtpDevice.bindStorages, List.find?_map, Option.map_map,
    List.getElem?_map, Option.map_map, hinfo, Option.map_id]
  rfl

theorem kind_remapEntry {k : Nat} {entry : InodeEntry} {sid : StorageId}
    (hk : entry.kind = .storage sid) :
    (remapEntry (device.bindStorages infos) k entry).kind =
      .storage (newStorageId infos entry.name k sid) := by
  have hm := matchedStorage_bindStorages device infos entry.name k
  unfold remapEntry newStorageId
  rw [← hm]
  cases matchedStorage (device.bindStorages infos) entry.name k <;> simp [hk]

/-- A storage inode resolves to the first storage with the number that it has
afterwards. -/
theorem findStorage_adopted (hcs : (l.inodes.children FUSE_ROOT_INODE).Nodup) {i k : Nat}
    {entry : InodeEntry} {sid : StorageId}
    (hi : (l.inodes.children FUSE_ROOT_INODE)[k]? = some i) (he : l.inodes.get i = some entry)
    (hk : entry.kind = .storage sid) (n : Nat) :
    (l.adopted device (device.bindStorages infos)).ResolvesTo i n ↔
      infos.findIdx? (fun info => info.id == newStorageId infos entry.name k sid) = some n := by
  have hget := get_adopted device infos hcs hi
  rw [he, Option.map_some] at hget
  rw [resolvesTo_iff hget (kind_remapEntry hk)]
  have hstorages : (l.adopted device (device.bindStorages infos)).storages =
      device.bindStorages infos := rfl
  rw [hstorages, MtpDevice.bindStorages, List.findIdx?_map]
  rfl

/-- Every storage inode resolves to a storage of its name or to none, and no two
resolve to one. -/
structure NamesKept (l : Link) : Prop where
  named : ∀ i entry sid, l.IsStorage i entry sid → ∀ k, l.ResolvesTo i k →
    ∃ st, l.storages[k]? = some st ∧ storageName st.toStorageInfo = entry.name
  apart : ∀ i entry sid j entry' sid', l.IsStorage i entry sid → l.IsStorage j entry' sid' →
    ∀ k, l.ResolvesTo i k → l.ResolvesTo j k → i = j

/-- The new session has a storage of the name, the first of the name and of its
number; or none of the name, none in the position, and none with the old number. -/
def Recognizes (infos : List StorageInfo) (name : String) (position : Nat) (old : StorageId) :
    Prop :=
  (∃ info, (infos.find? fun i => storageName i == name) = some info ∧
      (infos.find? fun i => i.id == info.id) = some info) ∨
    ((∀ info ∈ infos, storageName info ≠ name) ∧ infos.length ≤ position ∧
      ∀ info ∈ infos, info.id ≠ old)

/-- Every storage inode is recognized. -/
def Recognized (l : Link) (infos : List StorageInfo) : Prop :=
  ∀ (k i : Nat) entry sid, (l.inodes.children FUSE_ROOT_INODE)[k]? = some i →
    l.inodes.get i = some entry → entry.kind = .storage sid →
    Recognizes infos entry.name k sid

/-- Two firsts that have each other's property are the same. -/
theorem eq_of_find? {α : Type} {xs : List α} {p q : α → Bool} {a b : α}
    (ha : xs.find? p = some a) (hb : xs.find? q = some b) (hpb : p b = true) (hqa : q a = true) :
    a = b := by
  induction xs with
  | nil => simp at ha
  | cons x xs ih =>
    rw [List.find?_cons] at ha hb
    cases hp : p x <;> cases hq : q x <;> simp only [hp, hq, Option.some.injEq] at ha hb
    · exact ih ha hb
    · rw [← hb, hp] at hpb
      cases hpb
    · rw [← ha, hq] at hqa
      cases hqa
    · exact ha.symm.trans hb

/-- Recognized is an inode whose number leads to its name. -/
theorem recognizes_iff (name : String) (k : Nat) (old : StorageId) :
    Recognizes infos name k old ↔
      ∀ info, (infos.find? fun i => i.id == newStorageId infos name k old) = some info →
        storageName info = name := by
  cases hnamed : infos.find? fun i => storageName i == name with
  | some info₀ =>
    have hname : storageName info₀ = name := by simpa using List.find?_some hnamed
    have hmem := List.mem_of_find?_eq_some hnamed
    have hnew : newStorageId infos name k old = info₀.id := by
      simp [newStorageId, hnamed]
    rw [hnew]
    constructor
    · rintro (⟨info, hinfo, hfirst⟩ | ⟨hno, -⟩)
      · intro info' hinfo'
        cases hnamed.symm.trans hinfo
        cases hinfo'.symm.trans hfirst
        exact hname
      · exact absurd hname (hno info₀ hmem)
    · intro h
      have hsome : (infos.find? fun i => i.id == info₀.id).isSome = true := by
        rw [List.find?_isSome]
        exact ⟨info₀, hmem, by simp⟩
      obtain ⟨info, hinfo⟩ := Option.isSome_iff_exists.mp hsome
      -- the first of the number has the name, and the first of the name the number
      have hsame : info = info₀ := by
        have hinfoName := h info hinfo
        have hid : info.id = info₀.id := by simpa using List.find?_some hinfo
        exact eq_of_find? hinfo hnamed (by simp) (by simp [hinfoName])
      exact .inl ⟨info₀, hnamed, hsame ▸ hinfo⟩
  | none =>
    have hno : ∀ info ∈ infos, storageName info ≠ name := by
      simpa using List.find?_eq_none.mp hnamed
    constructor
    · rintro (⟨info, hinfo, -⟩ | ⟨-, hlen, hunused⟩)
      · rw [hnamed] at hinfo
        cases hinfo
      · intro info hinfo
        have hat : infos[k]? = none := List.getElem?_eq_none hlen
        have hnew : newStorageId infos name k old = old := by
          simp [newStorageId, hnamed, hat]
        rw [hnew] at hinfo
        have hid : info.id = old := by simpa using List.find?_some hinfo
        exact absurd hid (hunused info (List.mem_of_find?_eq_some hinfo))
    · intro h
      -- a storage with the new number would have to have the name
      have hunused : ∀ info ∈ infos, info.id ≠ newStorageId infos name k old := by
        intro info hmem hid
        have hsome : (infos.find? fun i => i.id == newStorageId infos name k old).isSome = true := by
          rw [List.find?_isSome]
          exact ⟨info, hmem, by simp [hid]⟩
        obtain ⟨info', hinfo'⟩ := Option.isSome_iff_exists.mp hsome
        exact hno info' (List.mem_of_find?_eq_some hinfo') (h info' hinfo')
      cases hat : infos[k]? with
      | some info =>
        have hnew : newStorageId infos name k old = info.id := by
          simp [newStorageId, hnamed, hat]
        exact absurd hnew.symm (hunused info (List.mem_of_getElem? hat))
      | none =>
        have hnew : newStorageId infos name k old = old := by
          simp [newStorageId, hnamed, hat]
        exact .inr ⟨hno, by simpa using hat, hnew ▸ hunused⟩

theorem children_adopted : (l.adopted device (device.bindStorages infos)).inodes.children =
    l.inodes.children := children_remapStorages _ l.inodes

/-- A storage inode afterwards was one before. -/
theorem isStorage_adopted (hcs : (l.inodes.children FUSE_ROOT_INODE).Nodup) {i : Nat}
    {entry' : InodeEntry} {sid' : StorageId}
    (h : (l.adopted device (device.bindStorages infos)).IsStorage i entry' sid') :
    ∃ (k : Nat) (entry : InodeEntry) (sid : StorageId),
      (l.inodes.children FUSE_ROOT_INODE)[k]? = some i ∧
      l.inodes.get i = some entry ∧ entry.kind = .storage sid ∧ entry'.name = entry.name := by
  obtain ⟨hmem, hget, hkind⟩ := h
  rw [children_adopted] at hmem
  obtain ⟨k, hk⟩ := List.mem_iff_getElem?.mp hmem
  rw [get_adopted device infos hcs hk] at hget
  obtain ⟨entry, he, rfl⟩ := Option.map_eq_some_iff.mp hget
  cases hentry : entry.kind with
  | storage sid => exact ⟨k, entry, sid, hk, he, hentry, name_remapEntry ..⟩
  | _ =>
    have hsame : (remapEntry (device.bindStorages infos) k entry).kind = entry.kind := by
      unfold remapEntry
      cases matchedStorage (device.bindStorages infos) entry.name k <;> simp [hentry]
    rw [hsame, hentry] at hkind
    cases hkind

variable (device infos) in
theorem isStorage_of_adopted (hcs : (l.inodes.children FUSE_ROOT_INODE).Nodup) {i k : Nat}
    {entry : InodeEntry} {sid : StorageId}
    (hi : (l.inodes.children FUSE_ROOT_INODE)[k]? = some i) (he : l.inodes.get i = some entry)
    (hk : entry.kind = .storage sid) :
    ∃ entry' sid', (l.adopted device (device.bindStorages infos)).IsStorage i entry' sid' ∧
      entry'.name = entry.name := by
  refine ⟨remapEntry (device.bindStorages infos) k entry, _, ⟨?_, ?_, kind_remapEntry hk⟩,
    name_remapEntry ..⟩
  · rw [children_adopted]
    exact List.mem_of_getElem? hi
  · rw [get_adopted device infos hcs hi, he]
    rfl

/-- What an inode resolves to is the first storage with its number. -/
theorem named_adopted_iff (hcs : (l.inodes.children FUSE_ROOT_INODE).Nodup) {i k : Nat}
    {entry : InodeEntry} {sid : StorageId}
    (hi : (l.inodes.children FUSE_ROOT_INODE)[k]? = some i) (he : l.inodes.get i = some entry)
    (hk : entry.kind = .storage sid) (name : String) :
    (∀ n, (l.adopted device (device.bindStorages infos)).ResolvesTo i n →
      ∃ st, (device.bindStorages infos)[n]? = some st ∧ storageName st.toStorageInfo = name) ↔
      ∀ info, (infos.find? fun i => i.id == newStorageId infos entry.name k sid) = some info →
        storageName info = name := by
  have hat : ∀ n : Nat, (device.bindStorages infos)[n]? = (infos[n]?).map fun info =>
      ({ toStorageInfo := info, session := device.session } : Storage) := by
    intro n
    rw [MtpDevice.bindStorages, List.getElem?_map]
  simp only [findStorage_adopted hcs hi he hk, List.find?_eq_bind_findIdx?_getElem?,
    Option.bind_eq_some_iff, hat]
  constructor
  · rintro h info ⟨n, hn, hinfo⟩
    obtain ⟨st, hst, hname⟩ := h n hn
    rw [hinfo] at hst
    cases hst
    exact hname
  · intro h n hn
    obtain ⟨hlt, -⟩ := List.findIdx?_eq_some_iff_getElem.mp hn
    have hinfo : infos[n]? = some infos[n] := List.getElem?_eq_getElem hlt
    exact ⟨_, by rw [hinfo]; rfl, h infos[n] ⟨n, hn, hinfo⟩⟩

end Link

open Link

/-- After a reconnect every storage inode resolves to a storage of its name or to
none, and no two to one, exactly when each was recognized. -/
theorem storages_adopted {l : Link} {device : MtpDevice} {infos : List StorageInfo}
    (hcs : (l.inodes.children FUSE_ROOT_INODE).Nodup)
    (hnames : ∀ i entry sid j entry' sid', l.IsStorage i entry sid → l.IsStorage j entry' sid' →
      entry.name = entry'.name → i = j) :
    (l.adopted device (device.bindStorages infos)).NamesKept ↔ l.Recognized infos := by
  constructor
  · intro hkept k i entry sid hi he hk
    obtain ⟨entry', sid', hst, hname⟩ := isStorage_of_adopted device infos
      hcs hi he hk
    rw [recognizes_iff, ← named_adopted_iff hcs hi he hk]
    intro n hn
    rw [← hname]
    exact hkept.named i entry' sid' hst n hn
  · intro hrec
    have hnamed : ∀ i entry' sid', (l.adopted device (device.bindStorages infos)).IsStorage i
        entry' sid' → ∀ n, (l.adopted device (device.bindStorages infos)).ResolvesTo i n →
        ∃ st, (device.bindStorages infos)[n]? = some st ∧
          storageName st.toStorageInfo = entry'.name := by
      intro i entry' sid' hst
      obtain ⟨k, entry, sid, hi, he, hk, hname⟩ := isStorage_adopted hcs hst
      rw [hname, named_adopted_iff hcs hi he hk, ← recognizes_iff]
      exact hrec k i entry sid hi he hk
    refine ⟨hnamed, ?_⟩
    intro i entry₁ sid₁ j entry₂ sid₂ hi hj n hni hnj
    obtain ⟨st, hst, hname⟩ := hnamed i entry₁ sid₁ hi n hni
    obtain ⟨st', hst', hname'⟩ := hnamed j entry₂ sid₂ hj n hnj
    obtain ⟨k, e, sid, hk, he, hkind, hsame⟩ := isStorage_adopted hcs hi
    obtain ⟨k', e', sid', hk', he', hkind', hsame'⟩ := isStorage_adopted hcs hj
    have hst : st = st' := Option.some.inj (hst.symm.trans hst')
    have hentries : e.name = e'.name := by
      rw [← hsame, ← hsame', ← hname, ← hname', hst]
    exact hnames i e sid j e' sid' ⟨List.mem_of_getElem? hk, he, hkind⟩
      ⟨List.mem_of_getElem? hk', he', hkind'⟩ hentries

/-- A phone with internal storage and a card in it. -/
def twoStorages : Link where
  policy := ⟨0⟩
  describe := "phone"
  device := ⟨1, true, true⟩
  storages := []
  inodes := ((InodeTable.new.addStorageAt ⟨1⟩ "Internal" 0).2.addStorageAt ⟨2⟩ "Card" 0).2
  dirsLoaded := ∅
  eventEpoch := 0
  shutdown := none

/-- The phone comes back with its card under a new number, and without it. -/
theorem storages_adopted_renumbered :
    (twoStorages.adopted ⟨2, true, true⟩
      (MtpDevice.bindStorages ⟨2, true, true⟩ [⟨⟨7⟩, "Internal", 0, 0⟩])).NamesKept := by
  have hchildren : twoStorages.inodes.children FUSE_ROOT_INODE = [2, 3] := by decide
  refine (storages_adopted (by decide) ?_).mpr ?_
  · rintro i e sid j e' sid' ⟨hi, he, -⟩ ⟨hj, he', -⟩ hname
    rw [hchildren] at hi hj
    have hi : i = 2 ∨ i = 3 := by simpa using hi
    have hj : j = 2 ∨ j = 3 := by simpa using hj
    rcases hi with rfl | rfl <;> rcases hj with rfl | rfl <;> cases he <;> cases he' <;>
      first | rfl | exact absurd hname (by decide)
  · intro k i e sid hi he hk
    rw [hchildren] at hi
    match k with
    | 0 =>
      cases hi
      cases he
      exact .inl ⟨⟨⟨7⟩, "Internal", 0, 0⟩, by decide, by decide⟩
    | 1 =>
      cases hi
      cases he
      cases hk
      exact .inr (by decide)
    | k + 2 => cases hi

/-- The card is all that comes back: the inode of the internal storage is first,
as the card is now. -/
theorem storages_swapped : ¬ (twoStorages.adopted ⟨2, true, true⟩
    (MtpDevice.bindStorages ⟨2, true, true⟩ [⟨⟨2⟩, "Card", 0, 0⟩])).NamesKept := by
  intro h
  have hi : (2 : Nat) = 3 := h.apart 2 _ ⟨2⟩ 3 _ ⟨2⟩ ⟨by decide, rfl, rfl⟩ ⟨by decide, rfl, rfl⟩ 0
    (by unfold ResolvesTo; decide) (by unfold ResolvesTo; decide)
  cases hi

end MtpMount
