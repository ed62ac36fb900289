import MtpMount.Attempts
import MtpMount.FsRules

/-!
# The way to one object

An operation finds the object of an inode by the names on the way to it, before
every attempt again. As long as these lead where they led, it finds the same one.

* `Reached`: an inode whose path leads to one folder or object;
* `Reached.Trying`: what holds before and after each attempt that fails;
* `Reached.parentHandle_wp`, `Reached.fileHandle_wp`, `Reached.objectHandle_wp`:
  handles that are looked up lead there, while nothing on the way changes.
-/

namespace MtpMount

open Interaction

variable {E : Type} {R : Answers Call Answer E} {N : Naming} {stores : List Nat} {phone : E → Phone}

/-- The mount and the device as a callback finds them. The path of the inode leads to
`r` alone, and what is fresh on the way is up to date. -/
structure Reached (N : Naming) (stores : List Nat) (l : Link) (s : Phone) (i st : Nat)
    (names : List String) (r : Option Nat) : Prop where
  consistent : l.inodes.Consistent
  synced : Synced N stores l.inodes l
  distinct : N.Distinct stores
  path : PathOf N stores l.inodes i st names
  finds : s.Finds st names r
  only : ∀ r', s.Finds st names r' → r' = r
  denotes : ∀ j entry a, OnChain l.inodes i j → l.inodes.get j = some entry →
    l.inodes.isFresh j = true → entry.kind.handle? = some a → Denoting N l s j a

/-- The handle is one of what was at the path of its inode at the start. Of inodes out of
`C` nothing is said. -/
def Leads (N : Naming) (stores : List Nat) (t : InodeTable) (s₀ : Phone) (C : Nat → Prop)
    (session : Nat) (_ : E) (j : Nat) (a : ObjectHandle) : Prop :=
  C j → ∃ x, N.object session a = some x ∧ LeadsTo N stores t s₀ j (some x)

/-- What is found on the way was there at the start. -/
def Untouched (s₀ s : Phone) (st : Nat) (names : List String) : Prop :=
  ∀ above folder name y, name :: above <:+ names → s₀.Finds st above folder →
    s.At st folder name y → s₀.At st folder name y

/-- A listing tells the truth, and changes nothing. -/
structure TellsTruth (N : Naming) (phone : E → Phone) (R : Answers Call Answer E) : Prop where
  still : ∀ {e e' storage parent} {answer : Except Error (List ObjectInfo)},
    R e (.listObjects storage parent) answer e' → e' = e
  reports : ∀ {e e' storage parent objects}, R e (.listObjects storage parent) (.ok objects) e' →
    N.Reports (phone e) storage parent objects

/-- The paths on the way to an inode are the ends of its own. -/
theorem PathOf.suffix {t : InodeTable} {i j st st' : Nat} {names names' : List String}
    (hN : N.Distinct stores) (h : PathOf N stores t i st names) (hj : OnChain t i j)
    (h' : PathOf N stores t j st' names') : st' = st ∧ names' <:+ names := by
  obtain ⟨nodes, top, hc, hmem⟩ := hj
  obtain ⟨below, above, rfl⟩ := List.append_of_mem hmem
  obtain ⟨rfl, rfl⟩ := h'.unique hN (h.node hc)
  obtain ⟨nodes', top', hc', -, rfl⟩ := h
  obtain ⟨rfl, -⟩ := hc'.unique hc
  have hnames : t.names (below ++ j :: above) = t.names below ++ t.names (j :: above) :=
    List.filterMap_append
  rw [hnames]
  exact ⟨rfl, List.suffix_append _ _⟩

section

variable {l l' : Link} {e e' : E} {s₀ : Phone} {t : InodeTable} {i st : Nat} {names : List String}
  {C : Nat → Prop} {J K : E → Prop} {G : E → Call → Prop} {Err : Error → Prop}
  {D : Nat → E → Nat → ObjectHandle → Prop}

/-- What is looked up on the way to an inode, while what is found there was there at the
start. Nothing is missing if it is there now. -/
theorem looksUp_leads (hR : TellsTruth N phone R)
    (herr : ∀ {e e' storage parent err}, R e (.listObjects storage parent) (.error err) e' → Err err)
    (hs : Synced N stores t l) (ht : t.Rooted) (hN : N.Distinct stores)
    (hp : PathOf N stores t i st names) (hC : ∀ j, OnChain t i j → C j)
    (hw : Untouched s₀ (phone e) st names)
    (hway : Err .notFound ∨ ∀ above folder name, name :: above <:+ names →
      s₀.Finds st above folder → ∃ y, (phone e).At st folder name y) :
    LooksUp R (fun _ _ => True) (fun e e' => phone e' = phone e)
      (Leads N stores t s₀ C l.device.session) Err l e i := by
  have hT : TrueListings N phone R (fun _ _ => True) Err := by
    refine ⟨trivial, fun {e e' storage parent answer} hr => ⟨congrArg phone (hR.still hr), ?_⟩⟩
    rcases answer with err | objects
    · exact herr hr
    · exact hR.reports hr
  -- where a node of the way is, and the folder above it
  have hplace : ∀ {nodes top below node above entry storage st' folder},
      l.inodes.Climbs i nodes top → nodes = below ++ node :: above →
      l.inodes.get node = some entry → l.storageFor i = some storage →
      N.store l.device.session storage.id = some st' →
      FolderAt (fun j x => LeadsTo N stores t s₀ j (some x)) above folder →
      st' = st ∧ PathOf N stores t node st (entry.name :: t.names above) ∧
        entry.name :: t.names above <:+ names ∧ s₀.Finds st (t.names above) folder := by
    rintro nodes top below node above entry storage st' folder hc rfl he hstorage hst hf
    rw [← hs.bound.session_of hstorage] at hst
    obtain ⟨hp', hon, hc'⟩ := hs.pathOf_node ht hc he hstorage hst
    obtain ⟨rfl, hsuffix⟩ := hp.suffix hN hon hp'
    refine ⟨rfl, hp', hsuffix, ?_⟩
    cases above with
    | nil =>
      rw [show folder = none from hf]
      exact .root
    | cons k rest =>
      obtain ⟨x, rfl, st₁, names₁, hp₁, hfind⟩ := hf
      obtain ⟨rfl, rfl⟩ := hp₁.unique hN (hp'.node_above hc')
      exact hfind
  refine looksUp_objects hT trivial ?_ (fun hno => ?_) ?_ ?_ (hway.imp id fun hway => ?_)
  · rintro j ⟨nodes, top, hc, hj⟩
    exact hC j ⟨nodes, top, hs.tree.symm.climbs hc, hj⟩
  · obtain ⟨idx, storage, hidx, -⟩ := hs.storageFor ht hN hp
    obtain ⟨nodes, top, hc, -⟩ := hp
    exact absurd hidx (hno nodes top idx (hs.tree.climbs hc))
  · intro storage hstorage
    exact hs.bound.session_of hstorage
  · intro nodes top below node above entry storage st' folder y hc hnodes he hstorage hst hf hat
    obtain ⟨rfl, hp', hsuffix, hfolder⟩ := hplace hc hnodes he hstorage hst hf
    exact ⟨_, _, hp', .child hfolder (hw _ _ _ _ hsuffix hfolder hat)⟩
  · intro nodes top below node above entry storage st' folder hc hnodes he hstorage hst hf
    obtain ⟨rfl, -, hsuffix, hfolder⟩ := hplace hc hnodes he hstorage hst hf
    exact hway _ _ _ hsuffix hfolder

/-- An inode with a handle is on its own way up. -/
theorem PathOf.onChain_self {entry : InodeEntry} {a : ObjectHandle} (hp : PathOf N stores t i st names)
    (hs : Synced N stores t l) (he : l.inodes.get i = some entry) (ha : entry.kind.handle? = some a) :
    OnChain t i i := by
  obtain ⟨nodes, top, hc, -⟩ := hp
  cases hc with
  | top htop =>
    obtain ⟨entry', he', hk'⟩ := (hs.tree.climbs (.top htop)).isTop
    cases he.symm.trans he'
    cases hk'.symm.trans ha
  | up he' hk' hc => exact ⟨_, _, .up he' hk' hc, List.mem_cons_self⟩

/-- The folder that a request names for an inode, its path leads to. -/
theorem IsParent.leadsTo {s : Phone} {p : Option ObjectHandle} {folder : Option Nat}
    (h : IsParent (Leads N stores t s₀ C l.device.session) e l.inodes i p)
    (hp : PathOf N stores t i st names) (hs : Synced N stores t l) (hC : ∀ j, OnChain t i j → C j)
    (hf : N.Folder s l.device.session p folder) : LeadsTo N stores t s₀ i folder := by
  obtain ⟨entry, he, ⟨sid, hk, rfl⟩ | ⟨a, hk, rfl, ha⟩⟩ := h
  · -- a storage: the path has no names
    have htop : l.inodes.IsTop i := ⟨entry, he, by rw [hk]; rfl⟩
    obtain rfl := (hs.tree.pathOf hp).isTop.mp htop
    rcases hf with ⟨-, rfl⟩ | ⟨b, x, hb, -⟩
    · exact ⟨st, [], hp, .root⟩
    · cases hb
  · obtain ⟨x, hx, hlead⟩ := ha (hC i (hp.onChain_self hs he (by rw [hk]; rfl)))
    rcases hf with ⟨hb, -⟩ | ⟨b, y, hb, rfl, hy, -⟩
    · cases hb
    · cases hb
      cases hx.symm.trans hy
      exact hlead

/-- What a getter finds out, and that nothing else happened. -/
theorem lookedUp {α : Type} {getter : MtpM α} {P P' : α → Link → E → Prop}
    (ht : OnCourse N stores t D J K l e) (hK : ¬ K e)
    (hD : ∀ j a, Leads N stores t s₀ C l.device.session e j a → D l.device.session e j a)
    (hstill : Attempt.wp R G getter
      (fun b l' e' => Resolved (fun e e' => e' = e) (fun _ _ _ => True) (OnChain l.inodes i) l e l' e' ∧
        P' b l' e')
      (fun _ l' e' => Resolved (fun e e' => e' = e) (fun _ _ _ => True) (OnChain l.inodes i) l e l' e' ∧
        True) l e)
    (hleads : Attempt.wp R (fun _ _ => True) getter
      (fun b l' e' => Resolved (fun e e' => phone e' = phone e)
        (Leads N stores t s₀ C l.device.session) (OnChain l.inodes i) l e l' e' ∧ P b l' e')
      (fun err l' e' => Resolved (fun e e' => phone e' = phone e)
        (Leads N stores t s₀ C l.device.session) (OnChain l.inodes i) l e l' e' ∧ Err err) l e) :
    Attempt.wp R G getter
      (fun b l' e' => e' = e ∧ OnCourse N stores t D J K l' e ∧
        (l'.device = l.device ∧ l'.storages = l.storages) ∧ P b l' e)
      (fun err l' e' => e' = e ∧ OnCourse N stores t D J K l' e ∧ l'.device = l.device ∧ Err err)
      l e := by
  obtain ⟨hs, hcourse⟩ := ht
  obtain ⟨hJ, -⟩ := hcourse.resolve_right hK
  have hdone : ∀ {l' : Link}, Resolved (fun e e' => phone e' = phone e)
      (Leads N stores t s₀ C l.device.session) (OnChain l.inodes i) l e l' e →
      OnCourse N stores t D J K l' e ∧ l'.device = l.device ∧ l'.storages = l.storages := by
    intro l' hres
    obtain ⟨hs', hdev, hstorages, -⟩ := resolved_onCourse (D := fun _ =>
      Leads N stores t s₀ C l.device.session) hs hres
    refine ⟨⟨hs', .inl ⟨hJ, ?_⟩⟩, hdev, hstorages⟩
    rw [hdev]
    exact fun j entry a he hf ha => hD j a (hres.denotes j entry a he hf ha)
  refine Attempt.wp_mono (Attempt.wp_and hstill hleads) ?_ ?_
  · rintro b l' e' ⟨⟨hres', -⟩, ⟨hres, hP⟩⟩
    obtain rfl : e' = e := hres'.env
    obtain ⟨hcourse', hrest⟩ := hdone hres
    exact ⟨rfl, hcourse', hrest, hP⟩
  · rintro err l' e' ⟨⟨hres', -⟩, ⟨hres, herr⟩⟩
    obtain rfl : e' = e := hres'.env
    obtain ⟨hcourse', hdev, -⟩ := hdone hres
    exact ⟨rfl, hcourse', hdev, herr⟩

end

namespace Reached

variable {l₀ l : Link} {s₀ : Phone} {i st : Nat} {names : List String} {r : Option Nat} {e : E}
  {C : Nat → Prop} {J : E → Prop} {G : E → Call → Prop} (h : Reached N stores l₀ s₀ i st names r)

/-- The attempts of an operation, until one succeeds. -/
abbrev Trying (N : Naming) (stores : List Nat) (l₀ : Link) (s₀ : Phone) (C : Nat → Prop)
    (J : E → Prop) : Link → E → Prop :=
  OnCourse N stores l₀.inodes (Leads N stores l₀.inodes s₀ C) J fun _ => False

include h

theorem nodup : (l₀.inodes.children FUSE_ROOT_INODE).Nodup :=
  h.consistent.nodup FUSE_ROOT_INODE (by rw [h.consistent.root]; rfl)

/-- What a path of the inode leads to. -/
theorem eq_of_leadsTo {r' : Option Nat} (hr : LeadsTo N stores l₀.inodes s₀ i r') : r' = r := by
  obtain ⟨st', names', hp, hf⟩ := hr
  obtain ⟨rfl, rfl⟩ := hp.unique h.distinct h.path
  exact h.only _ hf

theorem start (hJ : J e) : Trying N stores l₀ s₀ (OnChain l₀.inodes i) J l₀ e := by
  refine ⟨h.synced, .inl ⟨hJ, fun j entry a he hf ha hj => ?_⟩⟩
  obtain ⟨storage, x, hat, hx⟩ := h.denotes j entry a hj he hf ha
  have hses : storage.session = l₀.device.session := by
    obtain ⟨nodes, top, st', -, hs, -⟩ := hat
    exact h.synced.bound.session_of hs
  rw [hses] at hx
  exact ⟨x, hx, (h.synced.atPath_iff h.synced.rooted h.distinct).mp ⟨storage, hat⟩⟩

theorem looksUp (hR : TellsTruth N phone R) (hC : ∀ j, OnChain l₀.inodes i j → C j)
    (hs : Synced N stores l₀.inodes l) (hw : Untouched s₀ (phone e) st names) :
    LooksUp R (fun _ _ => True) (fun e e' => phone e' = phone e)
      (Leads N stores l₀.inodes s₀ C l.device.session) (fun _ => True) l e i :=
  looksUp_leads hR (fun _ => trivial) hs h.synced.rooted h.distinct h.path hC hw (.inl trivial)

/-- A handle of the inode is one of what its path leads to. -/
theorem object_eq {session : Nat} {entry : InodeEntry} {a : ObjectHandle}
    (hC : ∀ j, OnChain l₀.inodes i j → C j) (hs : Synced N stores l₀.inodes l)
    (he : l.inodes.get i = some entry) (ha : entry.kind.handle? = some a)
    (hD : Leads N stores l₀.inodes s₀ C session e i a) :
    ∃ x, N.object session a = some x ∧ r = some x := by
  obtain ⟨x, hx, hlead⟩ := hD (hC i (h.path.onChain_self hs he ha))
  exact ⟨x, hx, (h.eq_of_leadsTo hlead).symm⟩

/-! ### The getters -/

variable (hR : TellsTruth N phone R) (hG : ∀ c, G e c) (hC : ∀ j, OnChain l₀.inodes i j → C j)
  (ht : Trying N stores l₀ s₀ C J l e) (hw : Untouched s₀ (phone e) st names)

include hR hG hC ht hw

theorem parentHandle_wp : Attempt.wp R G (parentHandle i)
    (fun p l' e' => e' = e ∧ Trying N stores l₀ s₀ C J l' e ∧
      (l'.device = l.device ∧ l'.storages = l.storages) ∧
      ∀ s folder, N.Folder s l'.device.session p folder → folder = r)
    (fun _ l' e' => e' = e ∧ Trying N stores l₀ s₀ C J l' e ∧ l'.device = l.device) l e := by
  have hD := (ht.2.resolve_right id).2
  refine Attempt.wp_mono (lookedUp ht id (fun _ _ => id)
    (parentHandle_resolves (looksUp_still hR.still l (hG _) (fun _ _ => hG _) i)
      (fun _ _ _ _ _ _ => trivial) (.inr trivial))
    (parentHandle_resolves (h.looksUp hR hC ht.1 hw) hD (.inr trivial))) ?_ fun _ _ _ h' =>
      ⟨h'.1, h'.2.1, h'.2.2.1⟩
  rintro p l' e' ⟨rfl, ht', ⟨hdev, hstorages⟩, hp⟩
  refine ⟨rfl, ht', ⟨hdev, hstorages⟩, fun s folder hfolder => ?_⟩
  rw [← hdev] at hp
  exact h.eq_of_leadsTo (hp.leadsTo h.path ht'.1 hC hfolder)

theorem fileHandle_wp : Attempt.wp R G (fileHandle i)
    (fun a l' e' => e' = e ∧ Trying N stores l₀ s₀ C J l' e ∧
      (l'.device = l.device ∧ l'.storages = l.storages) ∧
      ∃ x, N.object l'.device.session a = some x ∧ r = some x)
    (fun _ l' e' => e' = e ∧ Trying N stores l₀ s₀ C J l' e ∧ l'.device = l.device) l e := by
  have hD := (ht.2.resolve_right id).2
  refine Attempt.wp_mono (lookedUp ht id (fun _ _ => id)
    (fileHandle_resolves (looksUp_still hR.still l (hG _) (fun _ _ => hG _) i)
      (fun _ _ _ _ _ _ => trivial) (.inr trivial))
    (fileHandle_resolves (h.looksUp hR hC ht.1 hw) hD (.inr trivial))) ?_ fun _ _ _ h' =>
      ⟨h'.1, h'.2.1, h'.2.2.1⟩
  rintro a l' e' ⟨rfl, ht', ⟨hdev, hstorages⟩, ha, entry, he, hk⟩
  refine ⟨rfl, ht', ⟨hdev, hstorages⟩, ?_⟩
  rw [hdev]
  exact h.object_eq hC ht'.1 he (by rw [hk]; rfl) ha

theorem objectHandle_wp : Attempt.wp R G (objectHandle i)
    (fun a l' e' => e' = e ∧ Trying N stores l₀ s₀ C J l' e ∧
      (l'.device = l.device ∧ l'.storages = l.storages) ∧
      ∃ x, N.object l'.device.session a = some x ∧ r = some x)
    (fun _ l' e' => e' = e ∧ Trying N stores l₀ s₀ C J l' e ∧ l'.device = l.device) l e := by
  have hD := (ht.2.resolve_right id).2
  refine Attempt.wp_mono (lookedUp ht id (fun _ _ => id)
    (objectHandle_resolves (looksUp_still hR.still l (hG _) (fun _ _ => hG _) i)
      (fun _ _ _ _ _ _ => trivial) trivial)
    (objectHandle_resolves (h.looksUp hR hC ht.1 hw) hD trivial)) ?_ fun _ _ _ h' =>
      ⟨h'.1, h'.2.1, h'.2.2.1⟩
  rintro a l' e' ⟨rfl, ht', ⟨hdev, hstorages⟩, ha, -, entry, he, hk⟩
  refine ⟨rfl, ht', ⟨hdev, hstorages⟩, ?_⟩
  rw [hdev]
  exact h.object_eq hC ht'.1 he hk ha

end Reached

end MtpMount
