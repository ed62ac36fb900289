import MtpMount.Denotes
import MtpMount.Phone
import MtpMount.Relist

/-!
# Handles and paths

The path of an inode are the names on its way up, in the storage that the walk
finds. A stale handle is looked up again by that path.

* `ensureFresh_denotes`: after a success the inode stands for the object at its
  path, and so does every folder above it when the inode was stale; nothing else
  changes, whatever the device answers;
* `ensureFresh_leaves_stale`: under a fresh inode a folder may stay stale.
-/

namespace MtpMount

open Interaction

/-- The names on the way up. -/
def InodeTable.names (t : InodeTable) (nodes : List Nat) : List String :=
  nodes.filterMap fun j => (t.get j).map InodeEntry.name

/-- The storage that an inode is in. -/
def Link.storageFor (l : Link) (i : Nat) : Option Storage :=
  (findStorageFrom l (walkFuel l.inodes) i).join.bind fun idx => l.storages[idx]?

/-- The object is at the path of the inode. -/
def AtPath (N : Naming) (s : Phone) (l : Link) (i : Nat) (storage : Storage) (o : Nat) : Prop :=
  ∃ nodes top st, l.inodes.Climbs i nodes top ∧ l.storageFor i = some storage ∧
    N.store storage.session storage.id = some st ∧ s.Finds st (l.inodes.names nodes) (some o)

/-- The handle is one of the object at the path of the inode. -/
def Denoting (N : Naming) (l : Link) (s : Phone) (i : Nat) (a : ObjectHandle) : Prop :=
  ∃ storage o, AtPath N s l i storage o ∧ N.object storage.session a = some o

section

variable {N : Naming} {l : Link} {s : Phone} {i inode : Nat}

theorem InodeTable.names_cons {t : InodeTable} {node : Nat} {above : List Nat} {e : InodeEntry}
    (he : t.get node = some e) : t.names (node :: above) = e.name :: t.names above := by
  simp [InodeTable.names, he]

theorem AtPath.unique (hs : s.UniqueNames) {storage storage' : Storage} {o o' : Nat}
    (h : AtPath N s l i storage o) (h' : AtPath N s l i storage' o') : o = o' := by
  obtain ⟨nodes, top, st, hc, hst, hstore, hfind⟩ := h
  obtain ⟨nodes', top', st', hc', hst', hstore', hfind'⟩ := h'
  cases hst.symm.trans hst'
  cases hstore.symm.trans hstore'
  rw [← (hc.unique hc').1] at hfind'
  exact Option.some.inj (hfind.unique hs hfind')

/-- Everything on the way up is in one storage. -/
theorem storageFor_onChain {nodes : List Nat} {top idx j : Nat} {storage : Storage}
    (hc : l.inodes.Climbs inode nodes top)
    (hidx : findStorageFrom l (walkFuel l.inodes) inode = some (some idx))
    (hs : l.storages[idx]? = some storage) (hj : j ∈ nodes) : l.storageFor j = some storage := by
  rw [Link.storageFor, findStorageFrom_onChain hc hj hidx]
  exact hs

/-- A child of what is at a path is at the longer path. -/
theorem AtPath.child {above : List Nat} {top node st o : Nat} {folder : Option Nat}
    {storage : Storage} {entry : InodeEntry} (hc : l.inodes.Climbs node (node :: above) top)
    (hnode : l.storageFor node = some storage) (he : l.inodes.get node = some entry)
    (hstore : N.store storage.session storage.id = some st)
    (hfind : s.Finds st (l.inodes.names above) folder) (hat : s.At st folder entry.name o) :
    AtPath N s l node storage o := by
  refine ⟨node :: above, top, st, hc, hnode, hstore, ?_⟩
  rw [InodeTable.names_cons he]
  exact .child hfind hat

/-- The folder above a node, as the request names it and as the path has it. -/
theorem finds_above {above : List Nat} {top node st : Nat} {storage : Storage}
    {parent : Option ObjectHandle} {folder : Option Nat}
    (hc : l.inodes.Climbs node (node :: above) top)
    (hst : ∀ j ∈ above, l.storageFor j = some storage)
    (hstore : N.store storage.session storage.id = some st)
    (hfolder : N.Folder s storage.session parent folder)
    (habove : Above (fun s j a => Denoting N l s j a) s above parent) :
    s.Finds st (l.inodes.names above) folder := by
  cases above with
  | nil =>
    cases habove
    rcases hfolder with ⟨-, rfl⟩ | ⟨a, x, hp, -⟩
    · exact .root
    · cases hp
  | cons j rest =>
    obtain ⟨a, rfl, storage', o, ⟨nodes, top', st', hc', hst', hstore', hfind⟩, hobj⟩ := habove
    cases hst'.symm.trans (hst j List.mem_cons_self)
    cases hstore'.symm.trans hstore
    have hself : l.inodes.Climbs node ([node] ++ j :: rest) top := hc
    have hnodes : nodes = j :: rest := (hc'.unique hself.suffix).1
    rcases hfolder with ⟨hp, -⟩ | ⟨b, x, hp, rfl, hx, -⟩
    · cases hp
    · cases hp
      cases hobj.symm.trans hx
      rw [← hnodes]
      exact hfind

/-! ## The walk down a device -/

/-- Where the nodes above lead, when each stands for an object as `P` has it. -/
def FolderAt (P : Nat → Nat → Prop) : List Nat → Option Nat → Prop
  | [], folder => folder = none
  | j :: _, folder => ∃ x, folder = some x ∧ P j x

section Objects

variable {E : Type} {R : Answers Call Answer E} {G : E → Call → Prop} {Err : Error → Prop}
  {phone : E → Phone} {C : Nat → Prop} {P : Nat → Nat → Prop} {session : Nat} {e₀ : E}

/-- A listing is truthful and changes nothing. -/
structure TrueListings (N : Naming) (phone : E → Phone) (R : Answers Call Answer E)
    (G : E → Call → Prop) (Err : Error → Prop) : Prop where
  asked : ∀ {e storage parent}, G e (.listObjects storage parent)
  listing : ∀ {e e' storage parent} {answer : Except Error (List ObjectInfo)},
    R e (.listObjects storage parent) answer e' → phone e' = phone e ∧ match answer with
      | .error err => Err err
      | .ok objects => N.Reports (phone e) storage parent objects

/-- Handles of a session stand for the objects that `P` has for their inodes, if
what is found in a folder keeps to `P`. Of inodes out of `C` nothing is said. -/
theorem looksUp_objects (hT : TrueListings N phone R G Err) (hang : G e₀ .hang)
    (hC : ∀ j, OnChain l.inodes inode j → C j)
    (hmissing : (∀ nodes top idx, l.inodes.Climbs inode nodes top →
      findStorageFrom l (walkFuel l.inodes) inode ≠ some (some idx)) → Err .notFound)
    (hsession : ∀ storage, l.storageFor inode = some storage → storage.session = session)
    (hstep : ∀ {nodes top below node above entry storage st folder y},
      l.inodes.Climbs inode nodes top → nodes = below ++ node :: above →
      l.inodes.get node = some entry → l.storageFor inode = some storage →
      N.store session storage.id = some st → FolderAt P above folder →
      (phone e₀).At st folder entry.name y → P node y)
    (hfound : Err .notFound ∨ ∀ {nodes top below node above entry storage st folder},
      l.inodes.Climbs inode nodes top → nodes = below ++ node :: above →
      l.inodes.get node = some entry → l.storageFor inode = some storage →
      N.store session storage.id = some st → FolderAt P above folder →
      ∃ y, (phone e₀).At st folder entry.name y) :
    LooksUp R G (fun e e' => phone e' = phone e)
      (fun _ j a => C j → ∃ x, N.object session a = some x ∧ P j x) Err l e₀ inode where
  refl := fun _ => rfl
  trans := fun h h' => h'.trans h
  keeps := fun _ h => h
  hang := hang
  missing := hmissing
  listing := by
    intro nodes top idx storage below node above entry parent e hphone hc hidx hs hnodes he habove
    have hstorage : l.storageFor inode = some storage := by
      rw [Link.storageFor, hidx]
      exact hs
    have hses := hsession storage hstorage
    have hat : ∀ {folder}, N.Folder (phone e) storage.session parent folder →
        FolderAt P above folder := by
      intro folder hfolder
      cases above with
      | nil =>
        cases habove
        rcases hfolder with ⟨-, rfl⟩ | ⟨a, x, hp, -⟩
        · rfl
        · cases hp
      | cons j rest =>
        obtain ⟨a, rfl, hD⟩ := habove
        have hj : j ∈ nodes := by
          rw [hnodes]
          simp
        obtain ⟨x, hx, hP⟩ := hD (hC j ⟨nodes, top, hc, hj⟩)
        rcases hfolder with ⟨hp, -⟩ | ⟨b, y, hp, rfl, hy, -⟩
        · cases hp
        · cases hp
          rw [hses] at hy
          cases hx.symm.trans hy
          exact ⟨x, rfl, hP⟩
    refine ⟨hT.asked, fun answer e' hr => ?_⟩
    obtain ⟨hsame, hans⟩ := hT.listing hr
    refine ⟨hsame, ?_⟩
    rcases answer with err | objects
    · exact hans
    · refine ⟨fun hnone => hfound.resolve_right fun hex => ?_, fun found hfind => ?_⟩
      · refine hans.find_ne_none (fun st folder hstore hfolder => ?_) hnone
        rw [hses] at hstore
        rw [hphone]
        exact hex hc hnodes he hstorage hstore (hat hfolder)
      · obtain ⟨st, folder, o, hstore, hfolder, hobj, ho⟩ := hans.find hfind
        rw [hses] at hstore hobj
        rw [hphone] at ho
        exact fun _ => ⟨o, hobj, hstep hc hnodes he hstorage hstore (hat hfolder) ho⟩

end Objects

/-- A truthful listing gives the handle of the object at the node's path. -/
theorem looksUp_denoting (N : Naming) (l : Link) (s : Phone) (inode : Nat) :
    LooksUp N.Truthful (fun _ _ => True) (fun s s' => s' = s)
      (fun s j a => OnChain l.inodes inode j → Denoting N l s j a) (fun _ => True) l s inode where
  refl := fun _ => rfl
  trans := fun h h' => h'.trans h
  keeps := by
    rintro s s' j a rfl h
    exact h
  hang := trivial
  missing := fun _ => trivial
  listing := by
    rintro nodes top idx storage below node above entry parent s₁ rfl hc hidx hs hnodes he habove
    refine ⟨trivial, fun answer s₂ hr => ?_⟩
    obtain ⟨rfl, hans⟩ := hr
    refine ⟨rfl, ?_⟩
    rcases answer with err | objects
    · trivial
    · refine ⟨fun _ => trivial, fun found hfound _ => ?_⟩
      obtain ⟨st, folder, o, hstore, hfolder, hobj, hat⟩ := hans.find hfound
      have hin : ∀ j ∈ node :: above, l.storageFor j = some storage ∧ OnChain l.inodes inode j := by
        intro j hj
        have hmem : j ∈ nodes := by
          rw [hnodes]
          exact List.mem_append_right below hj
        exact ⟨storageFor_onChain hc hidx hs hmem, nodes, top, hc, hmem⟩
      rw [hnodes] at hc
      have habove' : Above (fun s j a => Denoting N l s j a) s₂ above parent := by
        cases above with
        | nil => exact habove
        | cons j rest =>
          obtain ⟨a, hp, hD⟩ := habove
          exact ⟨a, hp, hD (hin j (List.mem_cons_of_mem _ List.mem_cons_self)).2⟩
      have hfind := finds_above hc.suffix (fun j hj => (hin j (List.mem_cons_of_mem _ hj)).1)
        hstore hfolder habove'
      exact ⟨storage, o,
        .child hc.suffix (hin node List.mem_cons_self).1 he hstore hfind hat, hobj⟩

/-- The inode has a fresh handle, of the one object at its path. -/
def Located (N : Naming) (l : Link) (s : Phone) (l' : Link) (j : Nat) : Prop :=
  l'.inodes.isFresh j = true ∧ ∃ entry a storage o, l'.inodes.get j = some entry ∧
    entry.kind.handle? = some a ∧ AtPath N s l j storage o ∧
    (∀ storage' o', AtPath N s l j storage' o' → o' = o) ∧ N.object storage.session a = some o

theorem Located.of_denotes (hs : s.UniqueNames) {l' : Link} {j : Nat}
    (hj : OnChain l'.inodes inode j) (hf : l'.inodes.isFresh j = true)
    (hD : ∀ entry a, l'.inodes.get j = some entry → l'.inodes.isFresh j = true →
      entry.kind.handle? = some a → Denoting N l s j a) : Located N l s l' j := by
  obtain ⟨nodes, top, hc, hmem⟩ := hj
  obtain ⟨entry, a, he, ha⟩ := hc.node hmem
  obtain ⟨storage, o, hpath, hobj⟩ := hD entry a he hf ha
  exact ⟨hf, entry, a, storage, o, he, ha, hpath, fun _ _ h => h.unique hs hpath, hobj⟩

/-- On a device with unique names, resolving an inode whose fresh ancestors stand
for the objects at their paths makes it stand for the object at its own. Whatever
the device answers, only handles of stale nodes on the way change. -/
theorem ensureFresh_denotes (N : Naming) (l : Link) (s : Phone) (inode : Nat) :
    (s.UniqueNames →
      (∀ j entry a, OnChain l.inodes inode j → l.inodes.get j = some entry →
        l.inodes.isFresh j = true → entry.kind.handle? = some a → Denoting N l s j a) →
      ∀ l' s', Prog.Ends N.Truthful ((ensureFresh inode).run l) s (.ok (), l') s' →
        (l.inodes.isFresh inode = true → l' = l) ∧
        ∀ j, OnChain l.inodes inode j → j = inode ∨ ¬ l.inodes.isFresh inode = true →
          Located N l s l' j) ∧
    ∀ tr r l' tr', Prog.Ends AnyAnswer ((ensureFresh inode).run l) tr (r, l') tr' →
      Refreshes (OnChain l.inodes inode) l l' := by
  constructor
  · intro hs hfresh l' s' hends
    have hwp := ensureFresh_resolves (looksUp_denoting N l s inode) (l := l) (e := s)
      fun j entry a he hf ha hj => hfresh j entry a hj he hf ha
    obtain ⟨hres, hf, hchain, hsame⟩ := Attempt.wp_ok hwp hends
    refine ⟨hsame, fun j hj hor => ?_⟩
    obtain ⟨rfl, hD⟩ : s' = s ∧ l'.Denotes _ s' := ⟨hres.env, hres.denotes⟩
    have hj' : OnChain l'.inodes inode j := by
      obtain ⟨nodes, top, hc, hmem⟩ := hj
      exact ⟨nodes, top, hres.refreshes.climbs hc, hmem⟩
    have hfj : l'.inodes.isFresh j = true := by
      rcases hor with rfl | hstale
      · exact hf
      · exact hchain hstale j hj
    exact .of_denotes hs hj' hfj fun entry a he hf ha => hD j entry a he hf ha hj
  · intro tr r l' tr' hends
    have hwp : Attempt.wp AnyAnswer (fun _ _ => True) (ensureFresh inode) _ _ l tr :=
      ensureFresh_refreshes inode (fun _ _ _ => trivial) fun _ _ => trivial
    rcases r with err | _
    · have hr := Attempt.wp_error hwp hends
      exact hr
    · have hr := Attempt.wp_ok hwp hends
      exact hr

end

/-! ## A fresh file in a stale folder -/

/-- The folder `d` with a file `a` in it, found in a later session than `d`. -/
def mixedLink : Link :=
  { staleCard with inodes :=
      ((((InodeTable.new.addStorageAt ⟨1⟩ "Card" 0).2.addObject 2 ⟨7⟩ "d" true 0
        0).2.bumpGeneration).addObject 3 ⟨8⟩ "a" false 3 0).2 }

/-- Its device: the storage 5 with the folder 70 and the file 80 in it. -/
def mixedPhone : Phone where
  objects := fun o =>
    if o = 70 then some ⟨5, none, "d", none⟩
    else if o = 80 then some ⟨5, some 70, "a", some [1, 2, 3]⟩
    else none
  done := []

def mixedNames : Naming where
  object := fun _ a => if a = ⟨7⟩ then some 70 else if a = ⟨8⟩ then some 80 else none
  store := fun _ _ => some 5
  label := fun _ => "Card"

theorem mixedPhone_cases {st o : Nat} {folder : Option Nat} {name : String}
    (h : mixedPhone.At st folder name o) :
    o = 70 ∧ folder = none ∧ name = "d" ∨ o = 80 ∧ folder = some 70 ∧ name = "a" := by
  obtain ⟨obj, hobj, -, rfl, rfl⟩ := h
  simp only [mixedPhone] at hobj
  split at hobj
  · cases hobj
    exact .inl ⟨‹_›, rfl, rfl⟩
  · split at hobj
    · cases hobj
      exact .inr ⟨‹_›, rfl, rfl⟩
    · cases hobj

theorem uniqueNames_mixedPhone : mixedPhone.UniqueNames := by
  intro st folder name o o' h h'
  rcases mixedPhone_cases h with ⟨rfl, rfl, rfl⟩ | ⟨rfl, rfl, rfl⟩
  · rcases mixedPhone_cases h' with ⟨rfl, -⟩ | ⟨-, hf, -⟩
    · rfl
    · cases hf
  · rcases mixedPhone_cases h' with ⟨-, hf, -⟩ | ⟨rfl, -⟩
    · cases hf
    · rfl

theorem climbs_mixedLink : mixedLink.inodes.Climbs 4 [4, 3] 2 := by
  have h₄ : mixedLink.inodes.get 4 = some ⟨4, 3, "a", .file ⟨8⟩, 3, 0, 0, 1⟩ := by rfl
  have h₃ : mixedLink.inodes.get 3 = some ⟨3, 2, "d", .directory ⟨7⟩, 0, 0, 0, 0⟩ := by
    rfl
  have h₂ : mixedLink.inodes.get 2 = some ⟨2, 1, "Card", .storage ⟨1⟩, 0, 0, 0, 0⟩ := by
    rfl
  exact .up h₄ rfl (.up h₃ rfl (.top ⟨_, h₂, rfl⟩))

theorem finds_mixedPhone : mixedPhone.Finds 5 ["a", "d"] (some 80) :=
  .child (.child .root ⟨_, rfl, rfl, rfl, rfl⟩) ⟨_, rfl, rfl, rfl, rfl⟩

/-- The listings of that device. -/
def mixedAnswers (s : Phone) : (c : Call) → Option (Answer c × Phone)
  | .listObjects _ none => some (.ok [⟨⟨7⟩, "d", true, 0, none⟩], s)
  | .listObjects _ (some a) => if a = ⟨7⟩ then some (.ok [⟨⟨8⟩, "a", false, 3, none⟩], s) else none
  | _ => none

theorem mixedAnswers_truthful {s s' : Phone} {c : Call} {a : Answer c} (hs : s = mixedPhone)
    (h : mixedAnswers s c = some (a, s')) : mixedNames.Truthful s c a s' ∧ s' = mixedPhone := by
  subst hs
  cases c with
  | listObjects storage parent =>
    cases parent with
    | none =>
      cases h
      refine ⟨⟨rfl, ⟨5, none, rfl, .inl ⟨rfl, rfl⟩, fun info hinfo => ?_, fun name o hat => ?_⟩⟩, rfl⟩
      · cases List.mem_singleton.mp hinfo
        exact ⟨70, rfl, ⟨_, rfl, rfl, rfl, rfl⟩, _, rfl, rfl⟩
      · rcases mixedPhone_cases hat with ⟨rfl, -, rfl⟩ | ⟨-, hf, -⟩
        · exact ⟨_, List.mem_singleton.mpr rfl, rfl, rfl⟩
        · cases hf
    | some b =>
      simp only [mixedAnswers] at h
      split at h
      · rename_i hb
        cases h
        subst hb
        refine ⟨⟨rfl, ⟨5, some 70, rfl, .inr ⟨_, 70, rfl, rfl, rfl, rfl⟩, fun info hinfo => ?_,
          fun name o hat => ?_⟩⟩, rfl⟩
        · cases List.mem_singleton.mp hinfo
          exact ⟨80, rfl, ⟨_, rfl, rfl, rfl, rfl⟩, _, rfl, rfl⟩
        · rcases mixedPhone_cases hat with ⟨-, hf, -⟩ | ⟨rfl, -, rfl⟩
          · cases hf
          · exact ⟨_, List.mem_singleton.mpr rfl, rfl, rfl⟩
      · cases h
  | _ => cases h

/-- With both of them stale, the file and the folder are found again. -/
theorem ensureFresh_denotes_mixed : ∃ l' : Link,
    Located mixedNames mixedLink.invalidateHandles mixedPhone l' 4 ∧
      Located mixedNames mixedLink.invalidateHandles mixedPhone l' 3 := by
  have ht : (((ensureFresh 4).run mixedLink.invalidateHandles).runWith mixedAnswers mixedPhone).any
      (fun x => x.1.1.isOk) = true := by rfl
  obtain ⟨⟨⟨r, l'⟩, s'⟩, hrun, hok⟩ := (Option.any_eq_true _ _).mp ht
  have hends := Prog.runWith_ends_of (R := mixedNames.Truthful) (I := fun s => s = mixedPhone)
    (fun _ _ _ _ hs h => mixedAnswers_truthful hs h) rfl hrun
  have hstale : ∀ j, OnChain mixedLink.invalidateHandles.inodes 4 j →
      ¬ mixedLink.invalidateHandles.inodes.isFresh j = true := by
    rintro j ⟨nodes, top, hc, hj⟩
    have hnodes := (hc.unique (InodeTable.SameTree.climbs (.bumpGeneration _) climbs_mixedLink)).1
    rw [hnodes] at hj
    rcases List.mem_cons.mp hj with rfl | hj
    · decide
    · rw [List.mem_singleton.mp hj]
      decide
  have hclimb : mixedLink.invalidateHandles.inodes.Climbs 4 [4, 3] 2 :=
    InodeTable.SameTree.climbs (.bumpGeneration _) climbs_mixedLink
  rcases r with err | u
  · cases hok
  · have h := ((ensureFresh_denotes mixedNames mixedLink.invalidateHandles mixedPhone 4).1
      uniqueNames_mixedPhone (fun j _ _ hj _ hf _ => absurd hf (hstale j hj)) l' s' hends).2
    have hmem : ∀ j ∈ [4, 3], OnChain mixedLink.invalidateHandles.inodes 4 j :=
      fun j hj => ⟨_, _, hclimb, hj⟩
    exact ⟨l', h 4 (hmem 4 (by simp)) (.inl rfl),
      h 3 (hmem 3 (by simp)) (.inr (hstale 4 (hmem 4 (by simp))))⟩

/-- The file stands for its object. -/
theorem denotes_mixedLink : mixedLink.Denotes (fun s => Denoting mixedNames mixedLink s) mixedPhone := by
  intro j entry a he hf ha
  have hkeys : mixedLink.inodes.entries.keys = [4, 3, 2, 1] := by rfl
  have hj : j ∈ mixedLink.inodes.entries.keys := by
    refine AList.mem_keys.mp (AList.lookup_isSome.mp ?_)
    rw [show mixedLink.inodes.entries.lookup j = some entry from he]
    rfl
  rw [hkeys] at hj
  have hcases : j = 4 ∨ j = 3 ∨ j = 2 ∨ j = 1 := by simpa using hj
  have hhandle : ((mixedLink.inodes.get j).bind fun e => e.kind.handle?) = some a := by
    rw [he]
    exact ha
  rcases hcases with rfl | rfl | rfl | rfl
  · have hstorage : mixedLink.storageFor 4 = some ⟨⟨⟨1⟩, "Card", 100, 50⟩, 0⟩ := by rfl
    have hnames : mixedLink.inodes.names [4, 3] = ["a", "d"] := by rfl
    have hh : ((mixedLink.inodes.get 4).bind fun e => e.kind.handle?) = some ⟨8⟩ := by rfl
    cases hh.symm.trans hhandle
    exact ⟨_, 80, ⟨_, 2, 5, climbs_mixedLink, hstorage, rfl, hnames ▸ finds_mixedPhone⟩, rfl⟩
  · exact absurd hf (by decide)
  · have hh : ((mixedLink.inodes.get 2).bind fun e => e.kind.handle?) = none := by rfl
    cases hh.symm.trans hhandle
  · have hh : ((mixedLink.inodes.get 1).bind fun e => e.kind.handle?) = none := by rfl
    cases hh.symm.trans hhandle

theorem ensureFresh_of_isFresh {l : Link} {i : Nat} (h : l.inodes.isFresh i = true) :
    (ensureFresh i).run l = .done (.ok (), l) := by
  unfold ensureFresh
  change (if l.inodes.isFresh i = true then _ else _ : MtpM Unit) l = _
  rw [if_pos h]
  rfl

/-- A success may leave an ancestor stale: the file is fresh, so nothing is looked up. -/
theorem ensureFresh_leaves_stale : ¬ ∀ (N : Naming) (l : Link) (s : Phone) (inode : Nat)
    (nodes : List Nat) (top : Nat), l.inodes.Climbs inode nodes top → s.UniqueNames →
      l.Denotes (fun s => Denoting N l s) s →
      ∀ l' s', Prog.Ends N.Truthful ((ensureFresh inode).run l) s (.ok (), l') s' →
        ∀ j ∈ nodes, l'.inodes.isFresh j = true := by
  intro hclaim
  have hends : Prog.Ends mixedNames.Truthful ((ensureFresh 4).run mixedLink) mixedPhone
      (.ok (), mixedLink) mixedPhone := by
    rw [ensureFresh_of_isFresh (by rfl)]
    exact .done _ _
  have hfresh := hclaim mixedNames mixedLink mixedPhone 4 [4, 3] 2 climbs_mixedLink
    uniqueNames_mixedPhone denotes_mixedLink _ _ hends 3 (by simp)
  exact absurd hfresh (by decide)

end MtpMount
