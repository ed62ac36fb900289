import MtpMount.Device

/-!
# The device at the other end

What the device is taken to do with the requests of a mount. Objects lie in
folders under names, which several of them may share; every session names them
by handles of its own. A listing that comes in is true and complete. A request
that changes something is refused, or takes effect, whatever its answer says:
the reply may be lost.
-/

namespace MtpMount

open Interaction

/-- `parent` is the folder, none at the root of a storage; a folder has no content. -/
structure DeviceObject where
  storage : Nat
  parent : Option Nat
  name : String
  content : Option Bytes

/-- The objects on the device, and the requests that took effect, in order. -/
structure Phone where
  objects : Nat → Option DeviceObject
  done : List Call

namespace Phone

variable {s : Phone} {st : Nat} {folder : Option Nat} {name : String} {names : List String}
  {o x y : Nat}

def put (s : Phone) (o : Nat) (obj : DeviceObject) (c : Call) : Phone where
  objects := fun x => if x = o then some obj else s.objects x
  done := s.done ++ [c]

/-- The object is in the folder under the name. -/
def At (s : Phone) (st : Nat) (folder : Option Nat) (name : String) (o : Nat) : Prop :=
  ∃ obj, s.objects o = some obj ∧ obj.storage = st ∧ obj.parent = folder ∧ obj.name = name

/-- `x` is `o` or lies somewhere in it. -/
inductive Within (s : Phone) (o : Nat) : Nat → Prop
  | self : Within s o o
  | child {x y : Nat} {obj : DeviceObject} :
      s.objects x = some obj → obj.parent = some y → Within s o y → Within s o x

/-- A path from the root of a storage, its last name first, leads to the folder or object. -/
inductive Finds (s : Phone) (st : Nat) : List String → Option Nat → Prop
  | root : Finds s st [] none
  | child {names : List String} {folder : Option Nat} {name : String} {o : Nat} :
      Finds s st names folder → s.At st folder name o → Finds s st (name :: names) (some o)

/-- No folder has two objects of one name. -/
def UniqueNames (s : Phone) : Prop :=
  ∀ st folder name o o', s.At st folder name o → s.At st folder name o' → o = o'

theorem Finds.unique (hs : s.UniqueNames) {r r' : Option Nat} (h : s.Finds st names r)
    (h' : s.Finds st names r') : r = r' := by
  induction h generalizing r' with
  | root =>
    cases h' with
    | root => rfl
  | child _ ha ih =>
    cases h' with
    | child hf' ha' =>
      cases ih hf'
      rw [hs _ _ _ _ _ ha ha']

/-- A path to the root has no names. -/
theorem Finds.eq_none_iff {r : Option Nat} (h : s.Finds st names r) : r = none ↔ names = [] := by
  cases h with
  | root => simp
  | child _ _ => simp

/-- The same path, and at each step the one object of its name. -/
inductive FindsOnly (s : Phone) (st : Nat) : List String → Option Nat → Prop
  | root : FindsOnly s st [] none
  | child {names : List String} {folder : Option Nat} {name : String} {o : Nat} :
      FindsOnly s st names folder → s.At st folder name o →
      (∀ o', s.At st folder name o' → o' = o) → FindsOnly s st (name :: names) (some o)

theorem FindsOnly.finds {r : Option Nat} (h : s.FindsOnly st names r) : s.Finds st names r := by
  induction h with
  | root => exact .root
  | child _ ha _ ih => exact .child ih ha

theorem FindsOnly.unique {r r' : Option Nat} (h : s.FindsOnly st names r)
    (h' : s.Finds st names r') : r' = r := by
  induction h generalizing r' with
  | root =>
    cases h' with
    | root => rfl
  | child _ _ honly ih =>
    cases h' with
    | child hf' ha' =>
      cases ih hf'
      rw [honly _ ha']

/-- The last step of a path. -/
theorem FindsOnly.last {r : Option Nat} (h : s.FindsOnly st (name :: names) r) :
    ∃ folder o, r = some o ∧ s.FindsOnly st names folder ∧ s.At st folder name o ∧
      ∀ o', s.At st folder name o' → o' = o := by
  cases h with
  | child hf ha honly => exact ⟨_, _, rfl, hf, ha, honly⟩

/-- A path begins with a path. -/
theorem FindsOnly.suffix {below : List String} {r : Option Nat}
    (h : s.FindsOnly st (below ++ names) r) : ∃ r', s.FindsOnly st names r' := by
  induction below generalizing r with
  | nil => exact ⟨r, h⟩
  | cons name below ih =>
    obtain ⟨folder, o, -, hf, -⟩ := h.last
    exact ih hf

/-- An object has one path. -/
theorem Finds.path {st' : Nat} {names' : List String} {r : Option Nat} (h : s.Finds st names r)
    (h' : s.Finds st' names' r) (hr : r ≠ none) : st = st' ∧ names = names' := by
  induction h generalizing names' with
  | root => exact absurd rfl hr
  | @child names folder name o hf ha ih =>
    cases h' with
    | @child names' folder' name' _ hf' ha' =>
      obtain ⟨obj, hobj, rfl, rfl, rfl⟩ := ha
      obtain ⟨obj', hobj', rfl, hfolder, rfl⟩ := ha'
      cases hobj.symm.trans hobj'
      subst hfolder
      cases hparent : obj.parent with
      | none =>
        rw [hparent] at hf hf'
        cases hf
        cases hf'
        exact ⟨rfl, rfl⟩
      | some y =>
        obtain ⟨-, hnames⟩ := ih hf' (by rw [hparent]; nofun)
        exact ⟨rfl, by rw [hnames]⟩

/-- What lies in an object has no shorter path. -/
theorem Within.length_le {names' : List String} (h : s.Within o x)
    (ho : s.Finds st names (some o)) (hx : s.Finds st names' (some x)) :
    names.length ≤ names'.length := by
  induction h generalizing names' with
  | self => rw [(ho.path hx (by nofun)).2]
  | child hobj hparent _ ih =>
    cases hx with
    | child hf ha =>
      obtain ⟨obj', hobj', -, hfolder, -⟩ := ha
      cases hobj.symm.trans hobj'
      rw [hparent] at hfolder
      subst hfolder
      exact Nat.le_succ_of_le (ih hf)

/-- No object but `o` is different, and `o` is now this. -/
structure Only (s₀ s : Phone) (o : Nat) (obj : DeviceObject) : Prop where
  self : s.objects o = some obj
  other : ∀ x, x ≠ o → s.objects x = s₀.objects x

section Only

variable {s₀ : Phone} {obj obj' : DeviceObject}

theorem Only.refl (h : s.objects o = some obj) : Only s s o obj := ⟨h, fun _ _ => rfl⟩

theorem Only.symm (h : Only s₀ s o obj) (h₀ : s₀.objects o = some obj') : Only s s₀ o obj' :=
  ⟨h₀, fun x hx => (h.other x hx).symm⟩

theorem Only.put (h : Only s₀ s o obj) (obj' : DeviceObject) (c : Call) :
    Only s₀ (s.put o obj' c) o obj' where
  self := by simp [Phone.put]
  other := by
    intro x hx
    simp only [Phone.put, if_neg hx]
    exact h.other x hx

theorem Only.at_self (h : Only s₀ s o obj) :
    s.At st folder name o ↔ obj.storage = st ∧ obj.parent = folder ∧ obj.name = name := by
  simp [At, h.self]

theorem Only.at_iff (h : Only s₀ s o obj) (hx : x ≠ o) :
    s.At st folder name x ↔ s₀.At st folder name x := by
  rw [At, At, h.other x hx]

theorem Only.within (h : Only s₀ s o obj) (hx : s₀.Within o x) : s.Within o x := by
  induction hx with
  | self => exact .self
  | @child x y obj' hobj hparent _ ih =>
    by_cases hx : x = o
    · rw [hx]
      exact .self
    · rw [← h.other x hx] at hobj
      exact .child hobj hparent ih

/-- A path leads where it led, unless it now comes through `o`. -/
theorem Only.finds (h : Only s₀ s o obj) {r : Option Nat} (hf : s.Finds st names r) :
    s₀.Finds st names r ∨ ∃ x, r = some x ∧ s.Within o x := by
  induction hf with
  | root => exact .inl .root
  | @child names folder name x hfolder hat ih =>
    by_cases hx : x = o
    · rw [hx]
      exact .inr ⟨o, rfl, .self⟩
    · rcases ih with hfolder₀ | ⟨y, rfl, hy⟩
      · exact .inl (.child hfolder₀ ((h.at_iff hx).mp hat))
      · obtain ⟨obj', hobj, -, hparent, -⟩ := hat
        exact .inr ⟨x, rfl, .child hobj hparent hy⟩

end Only

end Phone

/-- What the handles and the storage ids of each session stand for, and the names
that the storages go by. -/
structure Naming where
  object : Nat → ObjectHandle → Option Nat
  store : Nat → StorageId → Option Nat
  label : Nat → String

namespace Naming

variable (N : Naming)

/-- The folder that a request names; without a handle it is the root. -/
def Folder (s : Phone) (session : Nat) (parent : Option ObjectHandle) (folder : Option Nat) : Prop :=
  parent = none ∧ folder = none ∨
    ∃ a x, parent = some a ∧ folder = some x ∧ N.object session a = some x ∧
      (s.objects x).isSome = true

theorem Folder.unique {N : Naming} {s : Phone} {session : Nat} {parent : Option ObjectHandle}
    {f f' : Option Nat} (h : N.Folder s session parent f) (h' : N.Folder s session parent f') :
    f = f' := by
  rcases h with ⟨rfl, rfl⟩ | ⟨a, x, rfl, rfl, hx, -⟩
  · rcases h' with ⟨-, rfl⟩ | ⟨a, x, hp, -⟩
    · rfl
    · cases hp
  · rcases h' with ⟨hp, -⟩ | ⟨b, y, hp, rfl, hy, -⟩
    · cases hp
    · cases hp
      rw [← hx, hy]

/-- A listing says what is in the folder, and all of it. -/
structure Reports (s : Phone) (storage : Storage) (parent : Option ObjectHandle)
    (objects : List ObjectInfo) : Prop where
  intro ::
  folder : ∃ st folder, N.store storage.session storage.id = some st ∧
    N.Folder s storage.session parent folder ∧
    (∀ info ∈ objects, ∃ o, N.object storage.session info.handle = some o ∧
      s.At st folder info.filename o ∧
      ∃ obj, s.objects o = some obj ∧ info.isFolder = obj.content.isNone) ∧
    ∀ name o, s.At st folder name o →
      ∃ info ∈ objects, info.filename = name ∧ N.object storage.session info.handle = some o

/-- What a listing has under a name, is there. -/
theorem Reports.find {N : Naming} {s : Phone} {storage : Storage} {parent : Option ObjectHandle}
    {objects : List ObjectInfo} {name : String} {found : ObjectInfo}
    (h : N.Reports s storage parent objects)
    (hfind : objects.find? (fun obj => obj.filename == name) = some found) :
    ∃ st folder o, N.store storage.session storage.id = some st ∧
      N.Folder s storage.session parent folder ∧ N.object storage.session found.handle = some o ∧
      s.At st folder name o := by
  obtain ⟨st, folder, hstore, hfolder, hsound, -⟩ := h.folder
  obtain ⟨o, hobj, hat, -⟩ := hsound found (List.mem_of_find?_eq_some hfind)
  have hname : found.filename = name := by
    simpa using List.find?_some hfind
  rw [hname] at hat
  exact ⟨st, folder, o, hstore, hfolder, hobj, hat⟩

/-- What is there, a listing has. -/
theorem Reports.find_ne_none {N : Naming} {s : Phone} {storage : Storage}
    {parent : Option ObjectHandle} {objects : List ObjectInfo} {name : String}
    (h : N.Reports s storage parent objects)
    (hat : ∀ st folder, N.store storage.session storage.id = some st →
      N.Folder s storage.session parent folder → ∃ o, s.At st folder name o) :
    objects.find? (fun obj => obj.filename == name) ≠ none := by
  obtain ⟨st, folder, hstore, hfolder, -, hcomplete⟩ := h.folder
  obtain ⟨o, ho⟩ := hat st folder hstore hfolder
  obtain ⟨info, hinfo, hname, -⟩ := hcomplete name o ho
  intro hnone
  have hne := List.find?_eq_none.mp hnone info hinfo
  simp [hname] at hne

/-- The storages that the device has, each under its name. -/
structure Tells (stores : List Nat) (session : Nat) (infos : List StorageInfo) : Prop where
  sound : ∀ info ∈ infos, ∃ st ∈ stores, N.store session info.id = some st ∧
    storageName info = N.label st
  complete : ∀ st ∈ stores, ∃ info ∈ infos, N.store session info.id = some st

/-- The device as it is, in every listing that comes in. -/
def Truthful (s : Phone) (c : Call) (a : Answer c) (s' : Phone) : Prop :=
  s' = s ∧ match c, a with
    | .listObjects storage parent, .ok objects => N.Reports s storage parent objects
    | _, _ => True

end Naming

end MtpMount
