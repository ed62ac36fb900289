import Mathlib.Data.List.Induction
import MtpMount.FsRules
import MtpMount.InodeRuns
import MtpMount.Storages

/-!
# The storages of a new mount

`init` puts one inode below the root for each storage of the device, under the
storage's name. A name that comes again takes the place of the earlier one.

* `init_reaches_storages`: every storage has its inode, and is found from it,
  exactly when no two of them share a name;
* `init_loses_storage`: two cards of one name.
-/

namespace MtpMount

open Interaction

/-- The storages that `init` adds, each at the time the clock gave for it. -/
def InodeTable.addStorageList (t : InodeTable) (xs : List (StorageInfo × SystemTime)) :
    InodeTable :=
  xs.foldl (fun t x => (t.addStorageAt x.1.id (storageName x.1) x.2).2) t

/-- What the table of a new mount has below the root. -/
structure HoldsStorages (infos : List StorageInfo) (t : InodeTable) : Prop where
  consistent : t.Consistent
  next : t.nextInode = FUSE_ROOT_INODE + 1 + infos.length
  /-- An inode below the root is that of the storage in its position. -/
  entry : ∀ i e, t.get i = some e → i ≠ FUSE_ROOT_INODE →
    ∃ k info, i = FUSE_ROOT_INODE + 1 + k ∧ infos[k]? = some info ∧
      e.parent = FUSE_ROOT_INODE ∧ e.name = storageName info ∧ e.kind = .storage info.id

/-- None of the storages was pushed out by a later one. -/
structure HoldsAll (infos : List StorageInfo) (t : InodeTable) : Prop where
  live : ∀ k, k < infos.length → (t.get (FUSE_ROOT_INODE + 1 + k)).isSome
  children : t.children FUSE_ROOT_INODE = List.range' (FUSE_ROOT_INODE + 1) infos.length

namespace HoldsStorages

variable {infos : List StorageInfo} {t : InodeTable} {info : StorageInfo} {now : SystemTime}

theorem new : HoldsStorages [] .new where
  consistent := InodeTable.consistent_new
  next := rfl
  entry := by
    intro i e he hi
    rw [InodeTable.get_new, if_neg hi] at he
    cases he

theorem addStorageAt (h : HoldsStorages infos t) :
    HoldsStorages (infos ++ [info]) (t.addStorageAt info.id (storageName info) now).2 where
  consistent := h.consistent.addStorageAt info.id (storageName info) now
  next := by
    have hn : (t.addStorageAt info.id (storageName info) now).2.nextInode = t.nextInode + 1 :=
      InodeTable.nextInode_insert ..
    rw [hn, h.next, List.length_append]
    rfl
  entry := by
    intro i e he hi
    rw [InodeTable.addStorageAt, InodeTable.get_insert] at he
    split at he
    · rename_i hnew
      cases he
      refine ⟨infos.length, info, hnew.trans h.next, ?_, rfl, rfl, rfl⟩
      exact List.getElem?_concat_length
    · have he' : t.get i = some e := InodeTable.get_of_get_evictName (t := t.allocInode.2) he
      obtain ⟨k, old, hk, hold, hrest⟩ := h.entry i e he' hi
      have hlt : k < infos.length := (List.getElem?_eq_some_iff.mp hold).1
      exact ⟨k, old, hk, (List.getElem?_append_left hlt).trans hold, hrest⟩

/-- A name that was not there yet pushes nothing out. -/
theorem evictName_new (h : HoldsStorages infos t) (hn : storageName info ∉ infos.map storageName)
    (keep : Nat) : t.allocInode.2.evictName FUSE_ROOT_INODE (storageName info) keep =
      t.allocInode.2 := by
  rcases InodeTable.evictName_cases t.allocInode.2 FUSE_ROOT_INODE (storageName info) keep with
    ⟨hsame, -⟩ | ⟨old, hold, -, -⟩
  · exact hsame
  · exfalso
    obtain ⟨e, he, -, hname⟩ := h.consistent.sound _ _ _ hold
    have hne : old ≠ FUSE_ROOT_INODE := by
      rintro rfl
      exact h.consistent.noRoot _ _ hold
    obtain ⟨k, other, -, hk, -, hother, -⟩ := h.entry old e he hne
    refine hn (List.mem_map.mpr ⟨other, List.mem_of_getElem? hk, ?_⟩)
    rw [← hother, hname]

theorem holdsAll (h : HoldsStorages infos t) (ha : HoldsAll infos t)
    (hn : storageName info ∉ infos.map storageName) :
    HoldsAll (infos ++ [info]) (t.addStorageAt info.id (storageName info) now).2 where
  live := by
    intro k hk
    rw [InodeTable.addStorageAt, InodeTable.get_insert]
    split
    · rfl
    · rename_i hnew
      rw [h.evictName_new hn]
      refine ha.live k ?_
      have hne : FUSE_ROOT_INODE + 1 + k ≠ FUSE_ROOT_INODE + 1 + infos.length :=
        fun he => hnew (he.trans h.next.symm)
      rw [List.length_append, List.length_singleton] at hk
      omega
  children := by
    rw [InodeTable.addStorageAt, InodeTable.children_insert, if_pos rfl, h.evictName_new hn]
    have hc : t.allocInode.2.children FUSE_ROOT_INODE =
        List.range' (FUSE_ROOT_INODE + 1) infos.length := ha.children
    have hi : t.allocInode.1 = FUSE_ROOT_INODE + 1 + infos.length := h.next
    rw [hc, hi, List.length_append, List.length_singleton, List.range'_concat, Nat.one_mul]

end HoldsStorages

theorem holdsStorages_addStorageList (xs : List (StorageInfo × SystemTime)) :
    HoldsStorages (xs.map Prod.fst) (InodeTable.new.addStorageList xs) := by
  induction xs using List.reverseRecOn with
  | nil => exact .new
  | append_singleton xs x ih =>
    unfold InodeTable.addStorageList
    rw [List.foldl_append, List.map_append]
    exact ih.addStorageAt

theorem holdsAll_addStorageList (xs : List (StorageInfo × SystemTime))
    (hn : ((xs.map Prod.fst).map storageName).Nodup) :
    HoldsAll (xs.map Prod.fst) (InodeTable.new.addStorageList xs) := by
  induction xs using List.reverseRecOn with
  | nil => exact ⟨nofun, rfl⟩
  | append_singleton xs x ih =>
    have hprior := holdsStorages_addStorageList xs
    unfold InodeTable.addStorageList at hprior ih ⊢
    rw [List.map_append, List.map_append] at hn
    obtain ⟨hxs, -, hx⟩ := List.nodup_append.mp hn
    rw [List.foldl_append, List.map_append]
    exact hprior.holdsAll (ih hxs) fun hmem => hx _ hmem _ List.mem_cons_self rfl

/-! ## After `init` -/

/-- The root has one child for each of the `n` storages, and each of them is
found from its inode. -/
def ReachesStorages (l : Link) (n : Nat) : Prop :=
  l.inodes.children FUSE_ROOT_INODE = List.range' (FUSE_ROOT_INODE + 1) n ∧
    ∀ i, i < n → l.ResolvesTo (FUSE_ROOT_INODE + 1 + i) i

section Init

variable {l : Link} {device : MtpDevice} {infos : List StorageInfo}

theorem findIdx?_bindStorages (hids : (infos.map StorageInfo.id).Nodup) {i : Nat}
    {info : StorageInfo} (hi : infos[i]? = some info) :
    (device.bindStorages infos).findIdx? (fun s => s.id == info.id) = some i := by
  obtain ⟨hlt, rfl⟩ := List.getElem?_eq_some_iff.mp hi
  refine List.findIdx?_eq_some_iff_getElem.mpr
    ⟨(List.length_map _).symm ▸ hlt, beq_iff_eq.mpr (by simp [MtpDevice.bindStorages]), ?_⟩
  intro j hj hsame
  have hids' := List.pairwise_iff_getElem.mp hids j i (by simp; omega) (by simpa using hlt) hj
  simp [MtpDevice.bindStorages] at hsame hids'
  exact hids' hsame

theorem bindStorages_injective : Function.Injective device.bindStorages := by
  intro as bs h
  have hback : ∀ infos, (device.bindStorages infos).map Storage.toStorageInfo = infos := by
    intro infos
    simp [MtpDevice.bindStorages, Function.comp_def]
  rw [← hback as, h, hback bs]

/-- With distinct names every storage is reached, otherwise some is not. -/
theorem reachesStorages_iff (h : HoldsStorages infos l.inodes)
    (ha : (infos.map storageName).Nodup → HoldsAll infos l.inodes)
    (hs : l.storages = device.bindStorages infos) (hids : (infos.map StorageInfo.id).Nodup) :
    ReachesStorages l infos.length ↔ (infos.map storageName).Nodup := by
  have hentry : ∀ i e, l.inodes.get (FUSE_ROOT_INODE + 1 + i) = some e →
      ∃ info, infos[i]? = some info ∧ e.parent = FUSE_ROOT_INODE ∧ e.name = storageName info ∧
        e.kind = .storage info.id := by
    intro i e he
    obtain ⟨k, info, hk, hinfo⟩ := h.entry _ e he (by omega)
    obtain rfl : i = k := by omega
    exact ⟨info, hinfo⟩
  constructor
  · rintro ⟨-, hfound⟩
    refine List.pairwise_iff_getElem.mpr fun i j hi hj hij hname => ?_
    rw [List.length_map] at hi hj
    -- both inodes are live, under one name
    have hlive : ∀ k, (hk : k < infos.length) →
        ∃ e, l.inodes.get (FUSE_ROOT_INODE + 1 + k) = some e ∧ e.parent = FUSE_ROOT_INODE ∧
          e.name = storageName infos[k] := by
      intro k hk
      cases he : l.inodes.get (FUSE_ROOT_INODE + 1 + k) with
      | none =>
        have hr := hfound k hk
        rw [Link.ResolvesTo, walkFuel, findStorageFrom, he] at hr
        cases hr
      | some e =>
        obtain ⟨info, hinfo, hp, hn, -⟩ := hentry k e he
        obtain ⟨_, hat⟩ := List.getElem?_eq_some_iff.mp hinfo
        exact ⟨e, rfl, hp, by rw [hn, hat]⟩
    obtain ⟨e, he, hp, hn⟩ := hlive i hi
    obtain ⟨e', he', hp', hn'⟩ := hlive j hj
    have hl := h.consistent.complete _ e he (by omega)
    have hl' := h.consistent.complete _ e' he' (by omega)
    rw [List.getElem_map, List.getElem_map] at hname
    rw [hp, hn, hname, ← hn', ← hp', hl'] at hl
    have := Option.some.inj hl
    omega
  · intro hnames
    refine ⟨(ha hnames).children, fun i hi => ?_⟩
    obtain ⟨e, he⟩ := Option.isSome_iff_exists.mp ((ha hnames).live i hi)
    obtain ⟨info, hinfo, -, -, hk⟩ := hentry i e he
    rw [Link.resolvesTo_iff he hk, hs]
    exact findIdx?_bindStorages hids hinfo

variable {E : Type} {R : Answers Call Answer E} {G : E → Call → Prop} {X : Errno → MtpFs → E → Prop}

theorem addStorages_wp (hG : ∀ e, G e .now) (infos : List StorageInfo) {fs : MtpFs} {e : E} :
    Attempt.wp R G (addStorages infos)
      (fun _ fs' _ => ∃ xs : List (StorageInfo × SystemTime), xs.map Prod.fst = infos ∧
        fs' = fs.withInodes (fs.link.inodes.addStorageList xs)) X fs e := by
  induction infos generalizing fs e with
  | nil => exact ⟨[], rfl, rfl⟩
  | cons info rest ih =>
    unfold addStorages
    rw [Attempt.wp_bind]
    refine tell_wp.mpr ⟨hG e, fun now e₁ _ => ?_⟩
    rw [Attempt.wp_bind, Attempt.wp_modify]
    refine Attempt.wp_mono ih ?_ fun _ _ _ h => h
    rintro _ fs' e' ⟨xs, hxs, rfl⟩
    exact ⟨(info, now) :: xs, by rw [List.map_cons, hxs], rfl⟩

/-- What `init` leaves: the storages it was told, and an inode for each. -/
theorem init_wp (fs : MtpFs) (e : E) :
    Attempt.wp R (fun _ _ => True) init
      (fun _ fs' _ => ∃ infos, fs'.link.storages = fs.link.device.bindStorages infos ∧
        ∃ xs : List (StorageInfo × SystemTime), xs.map Prod.fst = infos ∧
          fs'.link.inodes = fs.link.inodes.addStorageList xs)
      (fun _ _ _ => True) fs e := by
  unfold init
  rw [Attempt.wp_bind, Attempt.wp_get, Attempt.wp_bind]
  refine orIoError_wp.mpr (wp_call.mpr ⟨trivial, fun answer e₁ _ => ?_⟩)
  rcases answer with err | infos
  · trivial
  · dsimp only
    rw [Attempt.wp_bind]
    refine Attempt.wp_mono (addStorages_wp (X := fun _ _ _ => True) (fun _ => trivial) infos) ?_
      fun _ _ _ _ => trivial
    rintro _ fs' e' ⟨xs, hxs, rfl⟩
    rw [Attempt.wp_bind, Attempt.wp_modify, Attempt.wp_bind, Attempt.wp_get, Attempt.wp_bind]
    exact tell_wp.mpr ⟨trivial, fun _ _ _ => ⟨infos, rfl, xs, hxs, rfl⟩⟩

end Init

/-- After a successful `init` of a new mount, every storage is reached exactly
when no two of them show up under one name. -/
theorem init_reaches_storages {device : MtpDevice} {describe : String} {config : MtpFsConfig}
    {fs : MtpFs} {tr : List Event} {infos : List StorageInfo}
    (hends : Prog.Ends AnyAnswer (dispatch .init (.new device describe config)) [] (.ok, fs) tr)
    (hs : fs.link.storages = device.bindStorages infos)
    (hids : (infos.map StorageInfo.id).Nodup) :
    ReachesStorages fs.link infos.length ↔ (infos.map storageName).Nodup := by
  have hwp : Act.wp AnyAnswer (fun _ _ => True) (dispatch .init)
      (fun r fs' _ => r = .ok → ∃ infos, fs'.link.storages = device.bindStorages infos ∧
        ∃ xs : List (StorageInfo × SystemTime), xs.map Prod.fst = infos ∧
          fs'.link.inodes = InodeTable.new.addStorageList xs)
      (.new device describe config) [] :=
    dispatch_wp.mpr (Attempt.wp_mono (init_wp _ _) (fun _ _ _ h _ => h) fun _ _ _ _ => nofun)
  obtain ⟨infos', hs', xs, rfl, ht⟩ := Act.wp_ends hwp hends rfl
  obtain rfl : infos = xs.map Prod.fst := bindStorages_injective (hs.symm.trans hs')
  refine reachesStorages_iff ?_ ?_ hs hids
  · rw [ht]
    exact holdsStorages_addStorageList xs
  · rw [ht]
    exact holdsAll_addStorageList xs

/-- A phone whose storages are described as it is told. -/
def phoneWith (infos : List StorageInfo) (_ : List Event) : (c : Call) → Option (Answer c)
  | .storages _ => some (.ok infos)
  | c => undisturbed c

/-- What a scripted `init` leaves. -/
theorem init_of_test (infos : List StorageInfo) (test : MtpFs → Bool)
    (ht : (((dispatch .init) writableMount).runWith (script (phoneWith infos)) []).any
      (fun x => decide (x.1.1 = .ok) && decide (x.1.2.link.storages =
        writableMount.link.device.bindStorages infos) && test x.1.2) = true) :
    ∃ fs tr, Prog.Ends AnyAnswer (dispatch .init writableMount) [] (.ok, fs) tr ∧
      fs.link.storages = writableMount.link.device.bindStorages infos ∧ test fs = true := by
  obtain ⟨⟨⟨r, fs⟩, tr⟩, hrun, ht⟩ := (Option.any_eq_true _ _).mp ht
  simp only [Bool.and_eq_true, decide_eq_true_eq] at ht
  obtain ⟨⟨rfl, hs⟩, ht⟩ := ht
  exact ⟨fs, tr, Prog.runWith_ends (anyAnswer_of_script _) hrun, hs, ht⟩

/-- A phone with internal storage and a card. -/
theorem init_reaches_storages_phone : ∃ fs tr,
    Prog.Ends AnyAnswer (dispatch .init writableMount) [] (.ok, fs) tr ∧
      ReachesStorages fs.link 2 := by
  obtain ⟨fs, tr, hends, hs, -⟩ := init_of_test
    [⟨⟨1⟩, "Internal shared storage", 100, 50⟩, ⟨⟨2⟩, "", 100, 50⟩] (fun _ => true)
    (by rfl)
  exact ⟨fs, tr, hends, (init_reaches_storages hends hs (by decide)).mpr (by decide)⟩

/-- Two cards of one name: the first is not reached. -/
theorem init_loses_storage : ∃ infos fs tr, (infos.map StorageInfo.id).Nodup ∧
    Prog.Ends AnyAnswer (dispatch .init writableMount) [] (.ok, fs) tr ∧
    fs.link.storages = writableMount.link.device.bindStorages infos ∧
    ¬ ReachesStorages fs.link infos.length := by
  obtain ⟨fs, tr, hends, hs, hc⟩ := init_of_test
    [⟨⟨1⟩, "Card", 100, 50⟩, ⟨⟨2⟩, "Card", 100, 50⟩]
    (fun fs => decide (fs.link.inodes.children FUSE_ROOT_INODE = [3])) (by rfl)
  refine ⟨_, fs, tr, by decide, hends, hs, fun h => ?_⟩
  have hc' := h.1
  rw [of_decide_eq_true hc] at hc'
  cases hc'

end MtpMount
