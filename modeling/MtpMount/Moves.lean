import MtpMount.Attempts
import MtpMount.FsRules

/-!
# A rename and its device

A rename is up to two requests, the new name and the new folder, each tried again
after a lost session or a stale handle, with the handles looked up by the old
name. Any of them may take effect although its answer is lost.

* `Near`, `Astray`: how far the object of the inode may have come;
* `renameObject_moves`, `moveObject_moves`: what either request leaves;
* `rename_moves`: what the callback leaves, whether it succeeds or fails.
-/

namespace MtpMount

open Interaction

/-! ## The device -/

namespace Naming

variable (N : Naming)

/-- Where a move goes: to the root of the storage that it is called on, or into
another object that does not lie in the moved one. -/
inductive Destination (s : Phone) (session o : Nat) : ObjectHandle → Option Nat → Prop
  | root : Destination s session o .ROOT none
  | folder {a : ObjectHandle} {x : Nat} :
      N.object session a = some x → ¬ s.Within o x → Destination s session o a (some x)

/-- The request takes effect. A move keeps the object in the storage that it is
called on. -/
inductive Does (s : Phone) : Call → Phone → Prop
  | rename {storage : Storage} {a : ObjectHandle} {newName : String} {o : Nat} {obj : DeviceObject} :
      N.object storage.session a = some o → s.objects o = some obj →
      Does s (.rename storage a newName)
        (s.put o { obj with name := newName } (.rename storage a newName))
  | move {storage : Storage} {a newParent : ObjectHandle} {folder : Option Nat} {o st : Nat}
      {obj : DeviceObject} :
      N.object storage.session a = some o → s.objects o = some obj →
      N.store storage.session storage.id = some st →
      N.Destination s storage.session o newParent folder →
      Does s (.moveObject storage a newParent)
        (s.put o { obj with storage := st, parent := folder } (.moveObject storage a newParent))

/-- The device tells the truth, and does what it is asked or refuses it. What was
done may be answered with an error. -/
def Obeys (stores : List Nat) (s : Phone) (c : Call) (a : Answer c) (s' : Phone) : Prop :=
  match c, a with
  | .listObjects storage parent, answer =>
    s' = s ∧ ∀ objects, answer = .ok objects → N.Reports s storage parent objects
  | .storages device, answer =>
    s' = s ∧ ∀ infos, answer = .ok infos → N.Tells stores device.session infos
  | .rename storage a newName, answer =>
    N.Does s (.rename storage a newName) s' ∨ s' = s ∧ ∃ err, answer = .error err
  | .moveObject storage a newParent, answer =>
    N.Does s (.moveObject storage a newParent) s' ∨ s' = s ∧ ∃ err, answer = .error err
  | .upload .., _ | .delete .., _ | .createFolder .., _ => True
  | _, _ => s' = s

end Naming

/-! ## Trying again -/

section OnTrack

variable (N : Naming) (stores : List Nat) (t : InodeTable) (D : Nat → Phone → Nat → ObjectHandle → Prop)
  (J K : Phone → Prop)

/-- The fresh handles are right for what has come of the device; or `K`, and they
do not matter any more. -/
def OnTrack (l : Link) (s : Phone) : Prop :=
  Synced N stores t l ∧ (J s ∧ l.Denotes (fun _ => D l.device.session s) s ∨ K s)

variable {N stores t D J K} {α : Type} {attempt : MtpM α} {Q : α → Link → Phone → Prop} {l : Link}
  {s : Phone}

/-- Handles were looked up, and that is all that happened. -/
theorem resolved_onTrack {P : Nat → Prop} {l' : Link} {s' : Phone} (hs : Synced N stores t l)
    (hres : Resolved (fun s s' => s' = s) (fun _ => D l.device.session s) P l s l' s') :
    s' = s ∧ Synced N stores t l' ∧ l'.device = l.device ∧ l'.storages = l.storages ∧
      l'.Denotes (fun _ => D l'.device.session s') s' := by
  obtain rfl : s' = s := hres.env
  exact ⟨rfl, resolved_onCourse (D := fun session _ => D session s') hs hres⟩

/-- Nothing is asked of the handles. -/
theorem looksUp_blind (l : Link) (s : Phone) (inode : Nat) :
    LooksUp (N.Obeys stores) (fun _ _ => True) (fun s s' => s' = s) (fun _ _ _ => True)
      (fun _ => True) l s inode :=
  looksUp_still (fun hr => hr.1) l trivial (fun _ _ => trivial) inode

theorem Naming.comesBack_obeys : ComesBack N stores (N.Obeys stores) := by
  refine ⟨fun {s s' c a} hc hr => ?_, fun hr => hr.2 _ rfl⟩
  cases c with
  | storages device => exact hr.1
  | isUnplugged | sleep _ | openDevice | invalidated | spawnEventLoop _ _ => exact hr
  | _ => cases hc

/-- What every attempt keeps, also when it fails, trying again keeps. -/
theorem withRecovery_onTrack (hnodup : (t.children FUSE_ROOT_INODE).Nodup) (hN : N.Distinct stores)
    (hattempt : ∀ l s, OnTrack N stores t D J K l s →
      Attempt.wp (N.Obeys stores) (fun _ _ => True) attempt Q
        (fun _ l' s' => OnTrack N stores t D J K l' s') l s)
    (h : OnTrack N stores t D J K l s) :
    Attempt.wp (N.Obeys stores) (fun _ _ => True) (withRecovery attempt) Q
      (fun _ l' s' => OnTrack N stores t D J K l' s') l s :=
  withRecovery_onCourse (D := D) N.comesBack_obeys hnodup hN hattempt h

end OnTrack

/-! ## The rename and where its object is -/

/-- A rename as it is asked for, with the inode that it moves and the object that
this inode stands for. -/
structure Renaming where
  parent : Nat
  name : String
  newParent : Nat
  newName : String
  ino : Nat
  object : Nat

namespace Renaming

/-- The mount and the device as the rename finds them. The path of the inode leads
to its object alone, and what is fresh on the way is up to date. The kernel has
refused to move a directory into itself or over one that it lies in. -/
structure Starts (N : Naming) (stores : List Nat) (r : Renaming) (l : Link) (s : Phone) : Prop where
  consistent : l.inodes.Consistent
  synced : Synced N stores l.inodes l
  distinct : N.Distinct stores
  root : ∀ session, N.object session .ROOT = none
  child : l.inodes.lookup r.parent r.name = some r.ino
  found : ∃ storage, AtPath N s l r.ino storage r.object
  only : ∀ storage o, AtPath N s l r.ino storage o → o = r.object
  denotes : ∀ j entry a,
    OnChain l.inodes r.ino j ∨ j = r.newParent ∨ OnChain l.inodes r.newParent j →
    l.inodes.get j = some entry → l.inodes.isFresh j = true → entry.kind.handle? = some a →
    Denoting N l s j a
  notInside : ¬ OnChain l.inodes r.newParent r.ino
  notAbove : ∀ d, l.inodes.lookup r.newParent r.newName = some d → OnChain l.inodes r.ino d →
    d = r.ino

/-- The place of the object before. -/
structure Home (N : Naming) (stores : List Nat) (r : Renaming) (t : InodeTable) (s : Phone)
    (st : Nat) (above : List String) (folder : Option Nat) (obj : DeviceObject) : Prop where
  path : PathOf N stores t r.ino st (r.name :: above)
  parent : PathOf N stores t r.parent st above
  finds : s.Finds st above folder
  object : s.objects r.object = some obj
  place : obj.storage = st ∧ obj.parent = folder ∧ obj.name = r.name
  only : ∀ folder' y, s.Finds st above folder' → s.At st folder' r.name y → y = r.object

variable {N : Naming} {stores : List Nat} {r : Renaming} {l₀ l l' : Link} {s₀ s s' : Phone}
  {st : Nat} {above : List String} {folder : Option Nat} {obj : DeviceObject} {K : Phone → Prop}

theorem Starts.rooted (h : Starts N stores r l₀ s₀) : l₀.inodes.Rooted := h.synced.rooted

theorem Starts.home (h : Starts N stores r l₀ s₀) :
    ∃ st above folder obj, Home N stores r l₀.inodes s₀ st above folder obj := by
  obtain ⟨entry, he, hparent, hname⟩ := h.consistent.sound _ _ _ h.child
  obtain ⟨st, names, hp, hfind⟩ := (h.synced.atPath_iff h.rooted h.distinct).mp h.found
  cases hfind with
  | @child above folder name o hfolder hat =>
    obtain ⟨e, he', -, hname', hpath⟩ := hp.last
    cases he.symm.trans he'
    obtain ⟨obj, hobj, hplace⟩ := id hat
    rw [hname] at hname'
    subst hname'
    rw [hparent] at hpath
    refine ⟨st, above, folder, obj, hp, hpath, hfolder, hobj, hplace, fun folder' y hf hy => ?_⟩
    obtain ⟨storage, hat'⟩ := (h.synced.atPath_iff h.rooted h.distinct).mpr ⟨st, _, hp, .child hf hy⟩
    exact h.only storage y hat'

theorem Home.onChain {t : InodeTable} (h : Home N stores r t s st above folder obj) :
    OnChain t r.ino r.ino := by
  obtain ⟨nodes, top, hc, -, hnames⟩ := h.path
  cases hc with
  | top _ => cases hnames
  | up he hk hc => exact ⟨_, _, .up he hk hc, List.mem_cons_self⟩

/-! ### How far it has come -/

section Stages

variable (N : Naming) (stores : List Nat) (r : Renaming) (t : InodeTable) (s₀ : Phone) (st : Nat)
  (obj : DeviceObject)

/-- The folder that the new parent stands for, as far as a move there keeps the
object on the way that the table has for it. -/
def Target (folder : Option Nat) : Prop :=
  ∃ st' names, PathOf N stores t r.newParent st' names ∧ s₀.Finds st' names folder ∧
    (∀ x, folder = some x → ¬ s₀.Within r.object x) ∧ (folder = none → st' = st)

/-- The object has its new name in the new folder. -/
structure Moved (folder : Option Nat) (s : Phone) : Prop where
  parent : r.parent ≠ r.newParent
  target : Target N stores r t s₀ st folder
  only : s₀.Only s r.object { obj with parent := folder, name := r.newName }
  done : s₀.done.length < s.done.length

/-- The object is at home, has its new name there, or has been moved. -/
inductive Near (s : Phone) : Prop
  | home : s = s₀ → Near s
  | renamed : r.name ≠ r.newName → s₀.Only s r.object { obj with name := r.newName } →
      s₀.done.length < s.done.length → Near s
  | moved {folder : Option Nat} : Moved N stores r t s₀ st obj folder s → Near s

/-- Asked to move to the root of another storage, the device has moved the object
to the root of its own. -/
structure Astray (s : Phone) : Prop where
  parent : r.parent ≠ r.newParent
  target : ∃ st', PathOf N stores t r.newParent st' [] ∧ st' ≠ st
  object : s.objects r.object = some { obj with parent := none, name := r.newName }
  done : s₀.done.length < s.done.length

/-- The object has its new name. -/
def Named (s : Phone) : Prop := ∃ obj, s.objects r.object = some obj ∧ obj.name = r.newName

/-- How a rename that succeeds leaves the object. -/
inductive Ended (s : Phone) : Prop
  | stayed : r.parent = r.newParent → Near N stores r t s₀ st obj s → Named r s → Ended s
  | moved {folder : Option Nat} : Moved N stores r t s₀ st obj folder s → Ended s
  | astray : Astray N stores r t s₀ st obj s → Ended s

/-- What a handle of the inode may stand for: the inode for the object, a folder
above it for the one at its path, a folder above the new parent also for something
in the object. -/
structure Points (s : Phone) (j x : Nat) : Prop where
  inode : j = r.ino → x = r.object
  above : OnChain t r.ino j → j ≠ r.ino → LeadsTo N stores t s₀ j (some x)
  target : j = r.newParent ∨ OnChain t r.newParent j →
    LeadsTo N stores t s₀ j (some x) ∨ s.Within r.object x

/-- Of other inodes nothing is known. -/
def Knows (session : Nat) (s : Phone) (j : Nat) (a : ObjectHandle) : Prop :=
  OnChain t r.ino j ∨ j = r.newParent ∨ OnChain t r.newParent j →
    ∃ x, N.object session a = some x ∧ Points N stores r t s₀ s j x

end Stages

/-- Two paths to the folder that it is moved to. -/
theorem Target.path {folder' : Option Nat} {names : List String}
    (ht : Target N stores r l₀.inodes s₀ st folder') (hf : s₀.Finds st names folder') :
    PathOf N stores l₀.inodes r.newParent st names := by
  obtain ⟨st', names', hp, hf', -, hroot⟩ := ht
  cases folder' with
  | none =>
    rw [hf.eq_none_iff.mp rfl, ← hroot rfl]
    rwa [hf'.eq_none_iff.mp rfl] at hp
  | some x =>
    obtain ⟨rfl, rfl⟩ := hf'.path hf (by nofun)
    exact hp

/-- A change of the object leaves what the handles stand for. -/
theorem denotes_put {session : Nat} {obj₁ obj' : DeviceObject} {c : Call}
    (hobj : s.objects r.object = some obj₁)
    (hD : l.Denotes (fun _ => Knows N stores r l₀.inodes s₀ session s) s) :
    l.Denotes (fun _ => Knows N stores r l₀.inodes s₀ session (s.put r.object obj' c))
      (s.put r.object obj' c) := by
  intro j entry a he hf ha hj
  obtain ⟨x, hx, hp⟩ := hD j entry a he hf ha hj
  have hput := (Phone.Only.refl hobj).put obj' c
  exact ⟨x, hx, hp.inode, hp.above, fun hj => (hp.target hj).imp id hput.within⟩

section

variable (hr : Starts N stores r l₀ s₀) (hh : Home N stores r l₀.inodes s₀ st above folder obj)

include hh

theorem Near.only (hn : Near N stores r l₀.inodes s₀ st obj s) : ∃ obj', s₀.Only s r.object obj' := by
  cases hn with
  | home hs =>
    rw [hs]
    exact ⟨obj, .refl hh.object⟩
  | renamed _ h _ => exact ⟨_, h⟩
  | moved h => exact ⟨_, h.only⟩

include hr

/-- No folder above the inode is the object, whatever has become of it. -/
theorem Near.ne_object (hn : Near N stores r l₀.inodes s₀ st obj s) {j y : Nat} {name : String}
    {names : List String} {folder' : Option Nat} (hj : OnChain l₀.inodes r.ino j) (hne : j ≠ r.ino)
    (hp : PathOf N stores l₀.inodes j st (name :: names)) (hlen : names.length < above.length)
    (hf : s₀.Finds st names folder') (hat : s.At st folder' name y) : y ≠ r.object := by
  rintro rfl
  obtain ⟨hst, hfolder, hname⟩ := hh.place
  cases hn with
  | home hs =>
    rw [hs] at hat
    have hpath := (hh.finds.child ⟨obj, hh.object, hh.place⟩).path (hf.child hat) (by nofun)
    have hlen' := congrArg List.length hpath.2
    simp at hlen'
    omega
  | renamed _ h _ =>
    obtain ⟨-, hparent, -⟩ := h.at_self.mp hat
    have hsame : folder = folder' := hfolder.symm.trans hparent
    subst hsame
    cases folder with
    | none =>
      rw [hh.finds.eq_none_iff.mp rfl] at hlen
      exact absurd hlen (Nat.not_lt_zero _)
    | some x =>
      have hlen' := congrArg List.length (hf.path hh.finds (by nofun)).2
      omega
  | moved h =>
    obtain ⟨-, hparent, hnew⟩ := h.only.at_self.mp hat
    have hsame : folder' = _ := hparent.symm
    subst hsame
    obtain ⟨e, he, hk, hename, hparent⟩ := hp.last
    have hpi := (h.target.path hf).inode hr.rooted hparent
    have hroot : j ≠ FUSE_ROOT_INODE := by
      rintro rfl
      cases he.symm.trans hr.rooted.root
      cases hk
    have hl := hr.consistent.complete j e he hroot
    rw [← hpi, hename, ← show r.newName = name from hnew] at hl
    exact hne (hr.notAbove j hl hj)

/-- What is found in a folder on the way to either inode. -/
theorem Near.points (hn : Near N stores r l₀.inodes s₀ st obj s) {j top st' y : Nat}
    {name : String} {nodes : List Nat} {folder' : Option Nat}
    (hp : PathOf N stores l₀.inodes j st' (name :: l₀.inodes.names nodes))
    (hc : l₀.inodes.Climbs j (j :: nodes) top)
    (hf : FolderAt (Points N stores r l₀.inodes s₀ s) nodes folder')
    (hat : s.At st' folder' name y) : Points N stores r l₀.inodes s₀ s j y := by
  obtain ⟨obj', honly⟩ := hn.only hh
  -- the folder is the one of the path, if its inode lies above the moved one
  have hexact : OnChain l₀.inodes r.ino j → s₀.Finds st' (l₀.inodes.names nodes) folder' := by
    intro hj
    cases nodes with
    | nil =>
      rw [show folder' = none from hf]
      exact .root
    | cons k rest =>
      obtain ⟨x, rfl, hx⟩ := hf
      obtain ⟨hk, hne⟩ := hj.above hc List.mem_cons_self
      obtain ⟨st₁, names, hp₁, hfind⟩ := hx.above hk hne
      have hk' := PathOf.node_above hp hc
      obtain ⟨rfl, rfl⟩ := hp₁.unique hr.distinct hk'
      exact hfind
  refine ⟨?_, ?_, ?_⟩
  · rintro rfl
    obtain ⟨rfl, hnames⟩ := hp.unique hr.distinct hh.path
    cases hnames
    have hino : OnChain l₀.inodes r.ino r.ino := ⟨_, _, hc, List.mem_cons_self⟩
    by_contra hy
    exact hy (hh.only folder' y (hexact hino) ((honly.at_iff hy).mp hat))
  · intro hj hne
    obtain ⟨names, hp', hlen⟩ := hh.path.onChain hj hne
    obtain ⟨rfl, rfl⟩ := hp'.unique hr.distinct hp
    have hy := hn.ne_object hr hh hj hne hp (Nat.succ_lt_succ_iff.mp hlen) (hexact hj) hat
    exact ⟨_, _, hp, .child (hexact hj) ((honly.at_iff hy).mp hat)⟩
  · intro hj
    replace hj : OnChain l₀.inodes r.newParent j := by
      rcases hj with rfl | hj
      · exact ⟨_, _, hc, List.mem_cons_self⟩
      · exact hj
    by_cases hy : y = r.object
    · rw [hy]
      exact .inr .self
    cases nodes with
    | nil =>
      rw [show folder' = none from hf] at hat
      exact .inl ⟨_, _, hp, .child .root ((honly.at_iff hy).mp hat)⟩
    | cons k rest =>
      obtain ⟨x, rfl, hx⟩ := hf
      rcases hx.target (.inr (hj.above hc List.mem_cons_self).1) with ⟨st₁, names, hp₁, hfind⟩ | hin
      · have hk' := PathOf.node_above hp hc
        obtain ⟨rfl, rfl⟩ := hp₁.unique hr.distinct hk'
        exact .inl ⟨_, _, hp, .child hfind ((honly.at_iff hy).mp hat)⟩
      · obtain ⟨obj₁, hobj, -, hparent, -⟩ := hat
        exact .inr (.child hobj hparent hin)

/-- Handles that are looked up now. -/
theorem Near.looksUp (hn : Near N stores r l₀.inodes s₀ st obj s) (hs : Synced N stores l₀.inodes l)
    {inode : Nat} (hi : inode = r.ino ∨ inode = r.newParent) :
    LooksUp (N.Obeys stores) (fun _ _ => True) (fun s s' => s' = s)
      (fun _ => Knows N stores r l₀.inodes s₀ l.device.session s) (fun _ => True) l s inode := by
  have hT : TrueListings N id (N.Obeys stores) (fun _ _ => True) fun _ => True := by
    refine ⟨trivial, fun {e e' storage parent answer} h => ⟨h.1, ?_⟩⟩
    rcases answer with err | objects
    · trivial
    · exact h.2 objects rfl
  refine looksUp_objects hT trivial ?_
    (fun _ => trivial) ?_ ?_ (.inl trivial)
  · intro j hj
    obtain ⟨nodes, top, hc, hmem⟩ := hj
    rcases hi with rfl | rfl
    · exact .inl ⟨nodes, top, hs.tree.symm.climbs hc, hmem⟩
    · exact .inr (.inr ⟨nodes, top, hs.tree.symm.climbs hc, hmem⟩)
  · intro storage hstorage
    exact hs.bound.session_of hstorage
  · rintro nodes top below node nodes' entry storage st' folder' y hc rfl he hstorage hst hf hat
    rw [← hs.bound.session_of hstorage] at hst
    obtain ⟨hp, -, hc'⟩ := hs.pathOf_node hr.rooted hc he hstorage hst
    exact hn.points hr hh hp hc' hf hat

omit hh in
/-- It begins with the object at home. -/
theorem onTrack_start {J : Phone → Prop} (hJ : J s₀) :
    OnTrack N stores l₀.inodes (Knows N stores r l₀.inodes s₀) J K l₀ s₀ := by
  refine ⟨hr.synced, .inl ⟨hJ, fun j entry a he hf ha hj => ?_⟩⟩
  obtain ⟨storage, x, hat, hx⟩ := hr.denotes j entry a hj he hf ha
  have hlead := (hr.synced.atPath_iff hr.rooted hr.distinct).mp ⟨storage, hat⟩
  have hses : storage.session = l₀.device.session := by
    obtain ⟨nodes, top, st', -, hs, -⟩ := hat
    exact hr.synced.bound.session_of hs
  rw [hses] at hx
  refine ⟨x, hx, ?_, fun _ _ => hlead, fun _ => .inl hlead⟩
  rintro rfl
  exact hr.only storage x hat

omit hr in
/-- A rename of the object. -/
theorem Near.rename (hn : Near N stores r l₀.inodes s₀ st obj s) (hne : r.name ≠ r.newName)
    {obj' : DeviceObject} (hobj : s.objects r.object = some obj') (c : Call) :
    Near N stores r l₀.inodes s₀ st obj (s.put r.object { obj' with name := r.newName } c) := by
  have hdone : s.done.length < (s.put r.object { obj' with name := r.newName } c).done.length := by
    simp [Phone.put]
  cases hn with
  | home hs =>
    subst hs
    cases hobj.symm.trans hh.object
    exact .renamed hne ((Phone.Only.refl hobj).put _ c) hdone
  | renamed _ h hlt =>
    cases hobj.symm.trans h.self
    exact .renamed hne (h.put _ c) (Nat.lt_trans hlt hdone)
  | moved h =>
    cases hobj.symm.trans h.only.self
    exact .moved ⟨h.parent, h.target, h.only.put _ c, Nat.lt_trans h.done hdone⟩

omit hr in
/-- The object under its new name, in another folder. -/
theorem Near.record (hn : Near N stores r l₀.inodes s₀ st obj s) {obj' : DeviceObject}
    (hobj : s.objects r.object = some obj') (hname : obj'.name = r.newName) (folder' : Option Nat) :
    ({ obj' with storage := st, parent := folder' } : DeviceObject) =
      { obj with parent := folder', name := r.newName } := by
  obtain ⟨hst, -, -⟩ := hh.place
  cases hn with
  | home hs =>
    subst hs
    cases hobj.symm.trans hh.object
    rw [← hst, ← hname]
  | renamed _ h _ =>
    cases hobj.symm.trans h.self
    rw [← hst]
  | moved h =>
    cases hobj.symm.trans h.only.self
    rw [← hst]

omit hr hh in
theorem Near.done_le (hn : Near N stores r l₀.inodes s₀ st obj s) :
    s₀.done.length ≤ s.done.length := by
  cases hn with
  | home hs => rw [hs]
  | renamed _ _ hlt => exact Nat.le_of_lt hlt
  | moved h => exact Nat.le_of_lt h.done

theorem renameObject_moves (hne : r.name ≠ r.newName)
    (h : OnTrack N stores l₀.inodes (Knows N stores r l₀.inodes s₀)
      (Near N stores r l₀.inodes s₀ st obj) (fun _ => False) l s) :
    Attempt.wp (N.Obeys stores) (fun _ _ => True) (renameObject r.ino r.newName)
      (fun _ => OnTrack N stores l₀.inodes (Knows N stores r l₀.inodes s₀)
        (fun s => Near N stores r l₀.inodes s₀ st obj s ∧ Named r s) fun _ => False)
      (fun _ => OnTrack N stores l₀.inodes (Knows N stores r l₀.inodes s₀)
        (Near N stores r l₀.inodes s₀ st obj) fun _ => False) l s := by
  have hnodup := hr.consistent.nodup FUSE_ROOT_INODE (by rw [hr.consistent.root]; rfl)
  refine withRecovery_onTrack hnodup hr.distinct ?_ h
  rintro l s ⟨hs, ⟨hn, hD⟩ | hK⟩
  · rw [Attempt.wp_bind]
    refine Attempt.wp_mono (objectHandle_resolves (hn.looksUp hr hh hs (.inl rfl)) hD trivial) ?_ ?_
    · rintro a l₁ s₁ ⟨hres, hka, -⟩
      obtain ⟨rfl, hs₁, hdev, -, hD₁⟩ := resolved_onTrack hs hres
      have hfail : OnTrack N stores l₀.inodes (Knows N stores r l₀.inodes s₀)
        (Near N stores r l₀.inodes s₀ st obj) (fun _ => False) l₁ s₁ := ⟨hs₁, .inl ⟨hn, hD₁⟩⟩
      rw [Attempt.wp_bind]
      refine storageOf_wp (fun _ => trivial) (fun storage hmem => ?_) hfail
      rw [Attempt.wp_mk]
      refine wp_call.mpr ⟨trivial, fun answer s' ha => ?_⟩
      obtain ⟨x, hx, hp⟩ := hka (.inl hh.onChain)
      obtain rfl := hp.inode rfl
      rcases ha with hdoes | ⟨rfl, err, rfl⟩
      · cases hdoes with
        | @rename _ _ _ o obj' ho hobj =>
          rw [hs₁.bound.session hmem, hdev] at ho
          cases hx.symm.trans ho
          have hn' := hn.rename hh hne hobj (.rename storage a r.newName)
          rcases answer with err | _
          · exact ⟨hs₁, .inl ⟨hn', denotes_put hobj hD₁⟩⟩
          · have hput := (Phone.Only.refl hobj).put { obj' with name := r.newName }
              (.rename storage a r.newName)
            exact ⟨hs₁, .inl ⟨⟨hn', _, hput.self, rfl⟩, denotes_put hobj hD₁⟩⟩
      · exact hfail
    · rintro err l₁ s₁ ⟨hres, -⟩
      obtain ⟨rfl, hs₁, hdev, -, hD₁⟩ := resolved_onTrack hs hres
      exact ⟨hs₁, .inl ⟨hn, hD₁⟩⟩
  · exact hK.elim

omit hr in
/-- Where the object is after a move that took effect. -/
theorem Near.does_move (hn : Near N stores r l₀.inodes s₀ st obj s) (hnamed : Named r s)
    (hparent : r.parent ≠ r.newParent) {storage : Storage} {a newParent : ObjectHandle}
    (ha : N.object storage.session a = some r.object)
    (hst : N.store storage.session storage.id = some st)
    (htop : newParent = .ROOT → ∃ st', PathOf N stores l₀.inodes r.newParent st' [])
    (hfolder : ∀ x, N.object storage.session newParent = some x →
      LeadsTo N stores l₀.inodes s₀ r.newParent (some x) ∨ s.Within r.object x)
    (hdoes : N.Does s (.moveObject storage a newParent) s') :
    (∃ obj', s' = s.put r.object obj' (.moveObject storage a newParent)) ∧
      ((∃ folder', Moved N stores r l₀.inodes s₀ st obj folder' s') ∨
        Astray N stores r l₀.inodes s₀ st obj s') := by
  obtain ⟨obj₁, honly⟩ := hn.only hh
  cases hdoes with
  | @move _ _ _ folder' o st₁ obj' ho hobj hst₁ hdest =>
    cases ha.symm.trans ho
    cases hst.symm.trans hst₁
    refine ⟨⟨_, rfl⟩, ?_⟩
    have hname : obj'.name = r.newName := by
      obtain ⟨obj₂, hobj₂, hname⟩ := hnamed
      cases hobj.symm.trans hobj₂
      exact hname
    have hput := honly.put { obj' with storage := st, parent := folder' }
      (.moveObject storage a newParent)
    have hdone : s₀.done.length < (s.put r.object { obj' with storage := st, parent := folder' }
        (.moveObject storage a newParent)).done.length := by
      have hle := hn.done_le
      simp only [Phone.put, List.length_append, List.length_singleton]
      omega
    rw [hn.record hh hobj hname] at hput hdone ⊢
    cases hdest with
    | root =>
      obtain ⟨st', hp⟩ := htop rfl
      by_cases hsame : st' = st
      · refine .inl ⟨none, hparent, ⟨st', [], hp, .root, ?_, fun _ => hsame⟩, hput, hdone⟩
        intro x hx
        cases hx
      · exact .inr ⟨hparent, ⟨st', hp, hsame⟩, hput.self, hdone⟩
    | folder hx hin =>
      obtain ⟨st', names, hp, hfind⟩ := (hfolder _ hx).resolve_right hin
      refine .inl ⟨_, hparent, ⟨st', names, hp, hfind, ?_, ?_⟩, hput, hdone⟩
      · rintro x ⟨⟩ hin₀
        exact hin (honly.within hin₀)
      · intro hx
        cases hx

omit hr in
/-- Once it is astray, no further move brings it back. -/
theorem Astray.does_move (hk : Astray N stores r l₀.inodes s₀ st obj s) {storage : Storage}
    {a : ObjectHandle} (hroot : N.object storage.session .ROOT = none)
    (hst : N.store storage.session storage.id = some st)
    (hdoes : N.Does s (.moveObject storage a .ROOT) s') :
    Astray N stores r l₀.inodes s₀ st obj s' := by
  obtain ⟨hplace, -, -⟩ := hh.place
  cases hdoes with
  | @move _ _ _ folder' o st₁ obj' ho hobj hst₁ hdest =>
    cases hst.symm.trans hst₁
    have hfolder : folder' = none := by
      cases hdest with
      | root => rfl
      | folder hx _ =>
        rw [hroot] at hx
        cases hx
    subst hfolder
    refine ⟨hk.parent, hk.target, ?_, ?_⟩
    · by_cases heq : r.object = o
      · subst heq
        cases hobj.symm.trans hk.object
        simp [Phone.put, hplace]
      · simp only [Phone.put, if_neg heq]
        exact hk.object
    · have hlt := hk.done
      simp only [Phone.put, List.length_append, List.length_singleton]
      omega

/-- One attempt to move, down to the request. -/
theorem moveOnce_wp {D : Nat → ObjectHandle → Prop} {Q : Unit → Link → Phone → Prop}
    {X : Error → Link → Phone → Prop}
    (hL : ∀ l', Synced N stores l₀.inodes l' → l'.device = l.device → ∀ inode,
      inode = r.ino ∨ inode = r.newParent → LooksUp (N.Obeys stores) (fun _ _ => True)
        (fun s s' => s' = s) (fun _ => D) (fun _ => True) l' s inode)
    (hs : Synced N stores l₀.inodes l) (hD : l.Denotes (fun _ => D) s)
    (hX : ∀ err l', Synced N stores l₀.inodes l' → l'.device = l.device →
      l'.Denotes (fun _ => D) s → X err l' s)
    (hQ : ∀ l' storage a p, Synced N stores l₀.inodes l' → l'.device = l.device →
      l'.Denotes (fun _ => D) s → D r.ino a → IsParent (fun _ => D) s l'.inodes r.newParent p →
      storage.session = l.device.session → N.store storage.session storage.id = some st →
      ∀ (answer : Except Error Unit) s',
        N.Obeys stores s (.moveObject storage a (p.getD .ROOT)) answer s' → match answer with
          | .ok u => Q u l' s'
          | .error err => X err l' s') :
    Attempt.wp (N.Obeys stores) (fun _ _ => True) (do
      let handle ← objectHandle r.ino
      let storageIdx ← storageIndex r.ino
      let newMtpParent ← parentHandle r.newParent
      let storage ← storageAt storageIdx
      ExceptT.mk (call (.moveObject storage handle (newMtpParent.getD ObjectHandle.ROOT)))) Q X l s := by
  rw [Attempt.wp_bind]
  refine Attempt.wp_mono (objectHandle_resolves (hL l hs rfl _ (.inl rfl)) hD trivial) ?_ ?_
  · rintro a l₁ s₁ ⟨hres, ha, -⟩
    obtain rfl : s₁ = s := hres.env
    have hs₁ := hs.refreshes hres.refreshes
    have hdev₁ : l₁.device = l.device := by rw [hres.refreshes.rest]
    rw [Attempt.wp_bind]
    obtain ⟨idx, storage, hidx, hget, -, hses, hst⟩ := hs₁.storageFor hr.rooted hr.distinct hh.path
    refine storageIndex_wp (fun _ => trivial) (fun i hi => ?_) fun hi => ?_
    · cases hidx.symm.trans hi
      rw [Attempt.wp_bind]
      refine Attempt.wp_mono (parentHandle_resolves (hL l₁ hs₁ hdev₁ _ (.inr rfl)) hres.denotes
        (.inr trivial)) ?_ ?_
      · rintro p l₂ s₂ ⟨hres₂, hp⟩
        obtain rfl : s₂ = s₁ := hres₂.env
        have hdev₂ : l₂.device = l.device := by rw [hres₂.refreshes.rest, ← hdev₁]
        have hget₂ : l₂.storages[idx]? = some storage := by rw [hres₂.refreshes.rest, ← hget]
        rw [Attempt.wp_bind]
        refine storageAt_wp hget₂ ?_
        rw [Attempt.wp_mk]
        refine wp_call.mpr ⟨trivial, fun answer s' hans => ?_⟩
        rw [← hses] at hst
        rw [hdev₁] at hses
        have hout := hQ l₂ storage a p (hs₁.refreshes hres₂.refreshes) hdev₂ hres₂.denotes ha hp
          hses hst answer s' hans
        rcases answer with err | u
        · exact hout
        · exact hout
      · rintro err l₂ s₂ ⟨hres₂, -⟩
        obtain rfl : s₂ = s₁ := hres₂.env
        exact hX err l₂ (hs₁.refreshes hres₂.refreshes) (by rw [hres₂.refreshes.rest, ← hdev₁])
          hres₂.denotes
    · cases hidx.symm.trans hi
  · rintro err l₁ s₁ ⟨hres, -⟩
    obtain rfl : s₁ = s := hres.env
    exact hX err l₁ (hs.refreshes hres.refreshes) (by rw [hres.refreshes.rest]) hres.denotes

omit hh in
/-- The new parent is the root of a storage if a move names none of its folders. -/
theorem pathOf_of_isParent {D : Nat → ObjectHandle → Prop} (hs : Synced N stores l₀.inodes l)
    (hp : IsParent (fun _ => D) s l.inodes r.newParent none) :
    ∃ st', PathOf N stores l₀.inodes r.newParent st' [] := by
  obtain ⟨e, he, ⟨sid, hk, -⟩ | ⟨a, -, hnone, -⟩⟩ := hp
  · obtain ⟨st', hst⟩ := hs.stands_of_kind hr.rooted he hk
    have htop : l.inodes.IsTop r.newParent := ⟨e, he, by rw [hk]; rfl⟩
    exact ⟨st', hs.tree.symm.pathOf ⟨[], _, .top htop, hst.isStorageOf hs.bound, rfl⟩⟩
  · cases hnone

theorem moveObject_moves (hparent : r.parent ≠ r.newParent)
    (h : OnTrack N stores l₀.inodes (Knows N stores r l₀.inodes s₀)
      (fun s => Near N stores r l₀.inodes s₀ st obj s ∧ Named r s)
      (Astray N stores r l₀.inodes s₀ st obj) l s) :
    Attempt.wp (N.Obeys stores) (fun _ _ => True) (moveObject r.ino r.newParent)
      (fun _ l' s' => Synced N stores l₀.inodes l' ∧
        ((∃ folder', Moved N stores r l₀.inodes s₀ st obj folder' s') ∨
          Astray N stores r l₀.inodes s₀ st obj s'))
      (fun _ => OnTrack N stores l₀.inodes (Knows N stores r l₀.inodes s₀)
        (fun s => Near N stores r l₀.inodes s₀ st obj s ∧ Named r s)
        (Astray N stores r l₀.inodes s₀ st obj)) l s := by
  have hnodup := hr.consistent.nodup FUSE_ROOT_INODE (by rw [hr.consistent.root]; rfl)
  refine withRecovery_onTrack hnodup hr.distinct ?_ h
  rintro l s ⟨hs, ⟨⟨hn, hnamed⟩, hD⟩ | hk⟩
  · refine moveOnce_wp hr hh (fun l' hs' hdev inode hi => ?_) hs hD ?_ ?_
    · rw [← hdev]
      exact hn.looksUp hr hh hs' hi
    · intro err l' hs' hdev hD'
      rw [← hdev] at hD'
      exact ⟨hs', .inl ⟨⟨hn, hnamed⟩, hD'⟩⟩
    · intro l' storage a p hs' hdev hD' ha hp hses hst answer s' hans
      rw [← hdev] at hD'
      obtain ⟨x, hx, hpoints⟩ := ha (.inl hh.onChain)
      obtain rfl := hpoints.inode rfl
      rcases hans with hdoes | ⟨rfl, err, rfl⟩
      · rw [← hses] at hx
        have hdest : (p.getD .ROOT = .ROOT → ∃ st', PathOf N stores l₀.inodes r.newParent st' []) ∧
            ∀ x, N.object storage.session (p.getD .ROOT) = some x →
              LeadsTo N stores l₀.inodes s₀ r.newParent (some x) ∨ s.Within r.object x := by
          cases p with
          | none =>
            refine ⟨fun _ => pathOf_of_isParent hr hs' hp, fun x hx => ?_⟩
            cases (hr.root _).symm.trans hx
          | some b =>
            obtain ⟨e, -, ⟨sid, -, hnone⟩ | ⟨b', -, hb, hknows⟩⟩ := hp
            · cases hnone
            cases hb
            obtain ⟨y, hy, hpoints⟩ := hknows (.inr (.inl rfl))
            rw [← hses] at hy
            refine ⟨fun hroot => ?_, fun x hx => ?_⟩
            · rw [show b = .ROOT from hroot, hr.root] at hy
              cases hy
            · cases hy.symm.trans hx
              exact hpoints.target (.inl rfl)
        obtain ⟨⟨obj', rfl⟩, hout⟩ := hn.does_move hh hnamed hparent hx hst hdest.1 hdest.2 hdoes
        obtain ⟨obj₁, hobj₁⟩ : ∃ obj₁, s.objects r.object = some obj₁ := by
          obtain ⟨obj₁, honly⟩ := hn.only hh
          exact ⟨obj₁, honly.self⟩
        rcases answer with err | u
        · refine ⟨hs', hout.imp (fun ⟨folder', hm⟩ => ?_) id⟩
          exact ⟨⟨.moved hm, _, hm.only.self, rfl⟩, denotes_put hobj₁ hD'⟩
        · exact ⟨hs', hout⟩
      · exact ⟨hs', .inl ⟨⟨hn, hnamed⟩, hD'⟩⟩
  · refine moveOnce_wp hr hh (D := fun _ _ => True) (fun l' hs' hdev inode hi => ?_) hs ?_ ?_ ?_
    · exact looksUp_blind l' s inode
    · exact fun _ _ _ _ _ _ => trivial
    · exact fun err l' hs' _ _ => ⟨hs', .inr hk⟩
    · intro l' storage a p hs' hdev _ _ hp hses hst answer s' hans
      have hnone : p = none := by
        obtain ⟨st', htarget, -⟩ := hk.target
        obtain ⟨e', he', hk'⟩ := (hs'.tree.pathOf htarget).isTop.mpr rfl
        obtain ⟨e, he, ⟨sid, -, hnone⟩ | ⟨b, hb, -, -⟩⟩ := hp
        · exact hnone
        · cases he.symm.trans he'
          rw [hb] at hk'
          cases hk'
      subst hnone
      rcases hans with hdoes | ⟨rfl, err, rfl⟩
      · have hk' := hk.does_move hh (hr.root _) hst hdoes
        rcases answer with err | u
        · exact ⟨hs', .inr hk'⟩
        · exact ⟨hs', .inr hk'⟩
      · exact ⟨hs', .inr hk⟩

/-- Both requests, as far as they are made. -/
theorem renameOnDevice_moves {fs : MtpFs} (hl : fs.link = l₀) :
    Attempt.wp (N.Obeys stores) (fun _ _ => True)
      (renameOnDevice r.ino r.parent r.newParent r.name r.newName)
      (fun _ fs' s' => Synced N stores l₀.inodes fs'.link ∧ Ended N stores r l₀.inodes s₀ st obj s')
      (fun _ fs' s' => Synced N stores l₀.inodes fs'.link ∧
        (Near N stores r l₀.inodes s₀ st obj s' ∨ Astray N stores r l₀.inodes s₀ st obj s')) fs s₀ := by
  have hmove : ∀ {l s}, OnTrack N stores l₀.inodes (Knows N stores r l₀.inodes s₀)
      (fun s => Near N stores r l₀.inodes s₀ st obj s ∧ Named r s) (fun _ => False) l s →
      Attempt.wp (N.Obeys stores) (fun _ _ => True)
      (if r.parent = r.newParent then pure () else orIoError (moveObject r.ino r.newParent))
      (fun _ fs' s' => Synced N stores l₀.inodes fs'.link ∧ Ended N stores r l₀.inodes s₀ st obj s')
      (fun _ fs' s' => Synced N stores l₀.inodes fs'.link ∧
        (Near N stores r l₀.inodes s₀ st obj s' ∨ Astray N stores r l₀.inodes s₀ st obj s'))
      { fs with link := l } s := by
    rintro l s ⟨hs, ⟨⟨hn, hnamed⟩, hD⟩ | hfalse⟩
    · split
      · rename_i hparent
        exact ⟨hs, .stayed hparent hn hnamed⟩
      · rename_i hparent
        rw [orIoError_wp]
        refine Attempt.wp_mono (moveObject_moves hr hh hparent ⟨hs, .inl ⟨⟨hn, hnamed⟩, hD⟩⟩) ?_ ?_
        · rintro _ l' s' ⟨hs', ⟨folder', hm⟩ | hk⟩
          · exact ⟨hs', .moved hm⟩
          · exact ⟨hs', .astray hk⟩
        · rintro err l' s' ⟨hs', hout⟩
          exact ⟨hs', hout.imp (fun h => h.1.1) id⟩
    · exact hfalse.elim
  unfold renameOnDevice
  rw [Attempt.wp_bind]
  subst hl
  split
  · rename_i hname
    refine hmove (onTrack_start hr ⟨.home rfl, obj, hh.object, ?_⟩)
    rw [hh.place.2.2, hname]
  · rename_i hname
    rw [orIoError_wp]
    refine Attempt.wp_mono (renameObject_moves hr hh hname (onTrack_start hr (.home rfl))) ?_ ?_
    · intro _ l s h
      exact hmove h
    · rintro err l s ⟨hs, ⟨hn, -⟩ | hfalse⟩
      · exact ⟨hs, .inl hn⟩
      · exact hfalse.elim

/-- The whole callback. It touches the table only after a success. -/
theorem rename_moves {fs : MtpFs} (hl : fs.link = l₀) :
    Attempt.wp (N.Obeys stores) (fun _ _ => True)
      (rename r.parent (some r.name) r.newParent (some r.newName))
      (fun _ fs' s' => ∃ l, Synced N stores l₀.inodes l ∧
        fs'.link = { l with inodes := l.inodes.rename r.ino r.newParent r.newName } ∧
        Ended N stores r l₀.inodes s₀ st obj s')
      (fun _ fs' s' => Synced N stores l₀.inodes fs'.link ∧
        (Near N stores r l₀.inodes s₀ st obj s' ∨ Astray N stores r l₀.inodes s₀ st obj s')) fs s₀ := by
  have hrefused : Synced N stores l₀.inodes fs.link ∧
      (Near N stores r l₀.inodes s₀ st obj s₀ ∨ Astray N stores r l₀.inodes s₀ st obj s₀) := by
    rw [hl]
    exact ⟨hr.synced, .inl (.home rfl)⟩
  unfold rename
  simp only [Attempt.wp_bind, guardWritable_wp]
  refine ⟨fun _ => hrefused, fun _ => ?_⟩
  refine nameOr_wp (fun n hn => ?_) hrefused
  cases hn
  refine nameOr_wp (fun n hn => ?_) hrefused
  cases hn
  refine childOf_wp _ _ (fun n ino hn hlookup => ?_) hrefused
  cases hn
  obtain rfl : r.ino = ino := by
    rw [hl, hr.child] at hlookup
    exact Option.some.inj hlookup
  simp only [Attempt.wp_get, refuseIf_wp]
  refine ⟨fun _ => hrefused, fun _ => ?_⟩
  have hend : Attempt.wp (N.Obeys stores) (fun _ _ => True)
      (renameOnDevice r.ino r.parent r.newParent r.name r.newName)
      (fun _ fs' s' => ∃ l, Synced N stores l₀.inodes l ∧
        (fs'.withInodes (fs'.link.inodes.rename r.ino r.newParent r.newName)).link =
          { l with inodes := l.inodes.rename r.ino r.newParent r.newName } ∧
        Ended N stores r l₀.inodes s₀ st obj s') _ fs s₀ :=
    Attempt.wp_mono (renameOnDevice_moves hr hh hl)
      (fun _ fs' s' h => ⟨fs'.link, h.1, rfl, h.2⟩) fun _ _ _ h => h
  split
  · exact hend
  · unfold guardDir
    simp only [Attempt.wp_bind, Attempt.wp_get, refuseIf_wp]
    exact ⟨fun _ => hrefused, fun _ => hend⟩

end

end Renaming

end MtpMount
