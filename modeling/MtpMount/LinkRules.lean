import MtpMount.InodeTokens
import MtpMount.ParentWalks

/-!
# Rules for the device operations

One rule for every function of the recovery layer. `Resolving R G I K` collects
what an invariant `I` of the link has to withstand when handles are refreshed or
the device is reopened, `Queries R G I K` adds what a listing does. `K` are the
handles that requests may carry.

* `withRecovery_wp`: what an attempt keeps, its retries keep;
* `ensureFresh_wp`, `fileHandle_wp`, `objectHandle_wp`, `parentHandle_wp`: the
  getters keep `I` and give known handles only;
* `loadDir_wp`, `listIntoTable_wp`: the listings.
-/

namespace MtpMount

open Interaction

variable {E σ α : Type} {R : Answers Call Answer E} {G : E → Call → Prop}

theorem wp_call {c : Call} {Q : Answer c → σ → E → Prop} {s : σ} {e : E} :
    Act.wp R G (call c) Q s e ↔ G e c ∧ ∀ a e', R e c a e' → Q a s e' := Iff.rfl

@[simp] theorem wp_hangs {Q : α → σ → E → Prop} {s : σ} {e : E} :
    Act.wp R G (hangs : Act Call Answer σ α) Q s e ↔ G e .hang :=
  ⟨fun h => h.1, fun h => ⟨h, fun a => nomatch a⟩⟩

@[simp] theorem wp_panics {Q : α → σ → E → Prop} {s : σ} {e : E} :
    Act.wp R G (panics : Act Call Answer σ α) Q s e ↔ G e .panic :=
  ⟨fun h => h.1, fun h => ⟨h, fun a => nomatch a⟩⟩

/-! ## Looking up storages -/

section Storages

variable {Q : Storage → Link → E → Prop} {X : Error → Link → E → Prop} {l : Link} {e : E}

theorem findStorageFrom_lt {fuel inode i : Nat}
    (h : findStorageFrom l fuel inode = some (some i)) : i < l.storages.length := by
  induction fuel generalizing inode with
  | zero => cases h
  | succ fuel ih =>
    rw [findStorageFrom] at h
    split at h
    · cases h
    · split at h
      · exact (List.findIdx?_eq_some_iff_findIdx_eq.mp (Option.some.inj h)).1
      · split at h
        · cases h
        · exact ih h

theorem storageIndex_wp {inode : Nat} {Q : Nat → Link → E → Prop}
    (hang : ¬ l.inodes.Grounded inode → G e .hang)
    (hQ : ∀ i, findStorageFrom l (walkFuel l.inodes) inode = some (some i) → Q i l e)
    (hX : findStorageFrom l (walkFuel l.inodes) inode = some none → X .notFound l e) :
    Attempt.wp R G (storageIndex inode) Q X l e := by
  unfold storageIndex
  simp only [Attempt.wp_bind, Attempt.wp_get]
  split
  · rename_i hnone
    simpa using hang fun h => h.findStorageFrom hnone
  · exact hX ‹_›
  · exact hQ _ ‹_›

theorem storageAt_wp {idx : Nat} {storage : Storage} (h : l.storages[idx]? = some storage)
    (hQ : Q storage l e) : Attempt.wp R G (storageAt idx) Q X l e := by
  unfold storageAt
  simp only [Attempt.wp_bind, Attempt.wp_get, h, Attempt.wp_pure]
  exact hQ

theorem storageOf_wp {inode : Nat} (hang : ¬ l.inodes.Grounded inode → G e .hang) (hQ : ∀ st ∈ l.storages, Q st l e)
    (hX : X .notFound l e) : Attempt.wp R G (storageOf inode) Q X l e := by
  unfold storageOf
  rw [Attempt.wp_bind]
  refine storageIndex_wp hang (fun i hi => ?_) fun _ => hX
  obtain ⟨st, hst⟩ := List.getElem?_eq_some_iff.mpr ⟨findStorageFrom_lt hi, rfl⟩ |> fun h =>
    (⟨_, h⟩ : ∃ st, l.storages[i]? = some st)
  exact storageAt_wp hst (hQ st (List.mem_of_getElem? hst))

end Storages

/-- A remap only sets storage ids. -/
theorem Link.remapStorages_induction {P : InodeTable → Prop}
    (hs : ∀ t ino sid, P t → P (t.setStorageId ino sid)) (storages : List Storage) {t : InodeTable}
    (h : P t) : P (Link.remapStorages storages t) := by
  unfold Link.remapStorages
  induction (t.children FUSE_ROOT_INODE).zipIdx generalizing t with
  | nil => exact h
  | cons c rest ih =>
    refine ih ?_
    dsimp only [Link.remapStorage]
    split
    · exact h
    · split
      · exact hs _ _ _ h
      · exact h

/-! ## What an invariant has to withstand -/

/-- A handle of a file or directory that was resolved in the current generation. -/
def Link.Token (l : Link) (handle : ObjectHandle) : Prop :=
  ∃ i entry, l.inodes.get i = some entry ∧ l.inodes.isFresh i = true ∧
    entry.kind.handle? = some handle

/-- The invariant `I` survives what a mount does to resolve handles and to get
the device back. -/
structure Resolving (R : Answers Call Answer E) (G : E → Call → Prop) (I : Link → E → Prop)
    (K : E → ObjectHandle → Prop) : Prop where
  /-- Fresh handles are known. -/
  token : ∀ {l e h}, I l e → l.Token h → K e h
  aside : ∀ {l e c}, c.isAside = true → I l e →
    G e c ∧ ∀ a e', R e c a e' → I l e' ∧ ∀ h, K e h → K e' h
  query : ∀ {l e c storage handles}, c.isMutation = false → c.target? = some (storage, handles) →
    I l e → storage ∈ l.storages → (∀ h ∈ handles, K e h) →
    G e c ∧ ∀ a e', R e c a e' → I l e' ∧ (∀ h, K e h → K e' h) ∧ ∀ h ∈ c.handed a, K e' h
  setHandle : ∀ {l e node h}, I l e → K e h → I { l with inodes := l.inodes.setHandle node h } e
  giveUp : ∀ {l e reason}, I l e → I (l.giveUp reason) e
  invalidate : ∀ {l e}, I l e →
    G e .invalidated ∧ ∀ a e', R e .invalidated a e' → I l.invalidateHandles e'
  /-- A reopening, up to where it fails or the device is taken over. -/
  reopen : ∀ {l e}, I l e → G e .openDevice ∧ ∀ a e₁, R e .openDevice a e₁ → I l e₁ ∧
    ∀ device, a = .ok device → G e₁ (.storages device) ∧
      ∀ b e₂, R e₁ (.storages device) b e₂ → I l e₂ ∧ ∀ infos, b = .ok infos →
        G e₂ .invalidated ∧ ∀ u e₃, R e₂ .invalidated u e₃ →
          G e₃ (.spawnEventLoop device (l.eventEpoch + 1)) ∧
          ∀ u e₄, R e₃ (.spawnEventLoop device (l.eventEpoch + 1)) u e₄ →
            I (l.adopted device (device.bindStorages infos)) e₄

/-- A storage, or a directory in one. -/
def IsFolder (l : Link) (i : Nat) : Prop :=
  ∃ e, l.inodes.get i = some e ∧ e.isDir = true ∧ e.kind ≠ .root

/-- A folder that the walk up leads from to a storage of the session. -/
def Lists (l : Link) (i : Nat) : Prop :=
  IsFolder l i ∧ ∃ idx, findStorageFrom l (walkFuel l.inodes) i = some (some idx)

/-- The invariant `I` survives everything a mount does that only asks. -/
structure Queries (R : Answers Call Answer E) (G : E → Call → Prop) (I : Link → E → Prop)
    (K : E → ObjectHandle → Prop) : Prop extends Resolving R G I K where
  syncChildren : ∀ {l e parent children}, I l e → Lists l parent → (∀ c ∈ children, K e c.handle) →
    I { l with inodes := l.inodes.syncChildren parent children } e
  /-- The directory is marked after its listing came in. -/
  loaded : ∀ {l e parent children}, I l e → Lists l parent → (∀ c ∈ children, K e c.handle) →
    I { l with
      inodes := l.inodes.syncChildren parent children
      dirsLoaded := l.dirsLoaded.insert parent true } e
  rootLoaded : ∀ {l e}, I l e →
    I { l with dirsLoaded := l.dirsLoaded.insert FUSE_ROOT_INODE true } e
  forget : ∀ {l e dirs}, (∀ p, dirs.lookup p = some true → l.dirsLoaded.lookup p = some true) →
    I l e → I { l with dirsLoaded := dirs } e

theorem queries_const (hG : ∀ e c, c.isMutation = false → G e c) (p : Prop) :
    Queries R G (fun _ _ => p) (fun _ _ => True) where
  token := fun _ _ => trivial
  aside := fun hc h => ⟨hG _ _ (Call.isMutation_of_isAside hc), fun _ _ _ => ⟨h, fun _ h => h⟩⟩
  query := fun hc _ h _ _ => ⟨hG _ _ hc, fun _ _ _ => ⟨h, fun _ h => h, fun _ _ => trivial⟩⟩
  setHandle := fun h _ => h
  giveUp := fun h => h
  invalidate := fun h => ⟨hG _ _ rfl, fun _ _ _ => h⟩
  reopen := fun h => ⟨hG _ _ rfl, fun _ _ _ => ⟨h, fun _ _ => ⟨hG _ _ rfl, fun _ _ _ => ⟨h,
    fun _ _ => ⟨hG _ _ rfl, fun _ _ _ => ⟨hG _ _ rfl, fun _ _ _ => h⟩⟩⟩⟩⟩⟩
  syncChildren := fun h _ _ => h
  loaded := fun h _ _ => h
  rootLoaded := fun h => h
  forget := fun _ h => h

/-- What a refreshed handle and a reopening leave as it is, withstands all of that. -/
theorem Resolving.and {I : Link → E → Prop} {K : E → ObjectHandle → Prop}
    (hI : Resolving R G I K) {P : Link → Prop}
    (hset : ∀ l node h, P l → P { l with inodes := l.inodes.setHandle node h })
    (hgive : ∀ l reason, P l → P (l.giveUp reason))
    (hinv : ∀ l, P l → P l.invalidateHandles)
    (hadopt : ∀ l device storages, P l → P (l.adopted device storages)) :
    Resolving R G (fun l e => I l e ∧ P l) K where
  token := fun h => hI.token h.1
  aside := fun hc h =>
    have ⟨hG, hR⟩ := hI.aside hc h.1
    ⟨hG, fun a e' hr => ⟨⟨(hR a e' hr).1, h.2⟩, (hR a e' hr).2⟩⟩
  query := fun hc ht h hs hk =>
    have ⟨hG, hR⟩ := hI.query hc ht h.1 hs hk
    ⟨hG, fun a e' hr => ⟨⟨(hR a e' hr).1, h.2⟩, (hR a e' hr).2⟩⟩
  setHandle := fun h hk => ⟨hI.setHandle h.1 hk, hset _ _ _ h.2⟩
  giveUp := fun h => ⟨hI.giveUp h.1, hgive _ _ h.2⟩
  invalidate := fun h =>
    have ⟨hG, hR⟩ := hI.invalidate h.1
    ⟨hG, fun a e' hr => ⟨hR a e' hr, hinv _ h.2⟩⟩
  reopen := fun h =>
    have ⟨hG, hR⟩ := hI.reopen h.1
    ⟨hG, fun a e₁ hr₁ => ⟨⟨(hR a e₁ hr₁).1, h.2⟩, fun device ha =>
      have ⟨hG₁, hR₁⟩ := (hR a e₁ hr₁).2 device ha
      ⟨hG₁, fun b e₂ hr₂ => ⟨⟨(hR₁ b e₂ hr₂).1, h.2⟩, fun infos hb =>
        have ⟨hG₂, hR₂⟩ := (hR₁ b e₂ hr₂).2 infos hb
        ⟨hG₂, fun u e₃ hr₃ => ⟨(hR₂ u e₃ hr₃).1, fun w e₄ hr₄ =>
          ⟨(hR₂ u e₃ hr₃).2 w e₄ hr₄, hadopt _ _ _ h.2⟩⟩⟩⟩⟩⟩⟩

theorem Resolving.and_const {I : Link → E → Prop} {K : E → ObjectHandle → Prop}
    (hI : Resolving R G I K) (p : Prop) : Resolving R G (fun l e => I l e ∧ p) K :=
  hI.and (fun _ _ _ h => h) (fun _ _ h => h) (fun _ h => h) fun _ _ _ h => h

/-- The names stay what they are. -/
theorem Resolving.and_lookup {I : Link → E → Prop} {K : E → ObjectHandle → Prop}
    (hI : Resolving R G I K) (names : Nat → String → Option Nat) :
    Resolving R G (fun l e => I l e ∧ l.inodes.lookup = names) K :=
  hI.and (P := fun l => l.inodes.lookup = names) (fun _ _ _ h => h) (fun _ _ h => h) (fun _ h => h)
    fun _ _ storages h =>
      Link.remapStorages_induction (P := fun t => t.lookup = names) (fun _ _ _ h => h) storages h

/-- The inode is a file. -/
def IsFile (l : Link) (i : Nat) : Prop :=
  ∃ e a, l.inodes.get i = some e ∧ e.kind = .file a

/-- A live file or directory. -/
def HasToken (l : Link) (i : Nat) : Prop :=
  ∃ e a, l.inodes.get i = some e ∧ e.kind.handle? = some a

theorem IsFile.hasToken {l : Link} {i : Nat} (h : IsFile l i) : HasToken l i := by
  obtain ⟨e, a, he, hk⟩ := h
  exact ⟨e, a, he, by rw [hk]; rfl⟩

/-- What resolving handles leaves as it was. -/
structure Kept (K : E → ObjectHandle → Prop) (l : Link) (e : E) (l' : Link) (e' : E) : Prop where
  known : ∀ h, K e h → K e' h
  storages : l'.storages = l.storages
  device : l'.device = l.device
  fresh : ∀ i, l.inodes.isFresh i = true → l'.inodes.isFresh i = true
  lookup : l'.inodes.lookup = l.inodes.lookup
  place : ∀ i, (l'.inodes.get i).map InodeEntry.place = (l.inodes.get i).map InodeEntry.place

section Kept

variable {K : E → ObjectHandle → Prop} {l l₁ l₂ : Link} {e e₁ e₂ : E}

theorem Kept.refl (K : E → ObjectHandle → Prop) (l : Link) (e : E) : Kept K l e l e where
  known := fun _ h => h
  storages := rfl
  device := rfl
  fresh := fun _ h => h
  lookup := rfl
  place := fun _ => rfl

theorem Kept.get (h : Kept K l e l₁ e₁) {i : Nat} {entry : InodeEntry}
    (he : l.inodes.get i = some entry) :
    ∃ entry', l₁.inodes.get i = some entry' ∧ entry'.place = entry.place := by
  have hp := h.place i
  rw [he, Option.map_some] at hp
  exact Option.map_eq_some_iff.mp hp

theorem Kept.isFile (h : Kept K l e l₁ e₁) {i : Nat} (hi : IsFile l i) : IsFile l₁ i := by
  obtain ⟨entry, a, he, hk⟩ := hi
  obtain ⟨entry', he', hp⟩ := h.get he
  obtain ⟨b, hb⟩ := InodeEntry.file_of_place hp hk
  exact ⟨entry', b, he', hb⟩

theorem Kept.hasToken (h : Kept K l e l₁ e₁) {i : Nat} (hi : HasToken l i) : HasToken l₁ i := by
  obtain ⟨entry, a, he, hk⟩ := hi
  obtain ⟨entry', he', hp⟩ := h.get he
  obtain ⟨b, hb⟩ := InodeEntry.token_of_place hp hk
  exact ⟨entry', b, he', hb⟩

end Kept

/-- The chain that a walk collects has the inode in it where the walk began. -/
theorem mem_chainFrom {t : InodeTable} {fuel current i : Nat} {below chain : List Nat}
    (h : chainFrom t fuel current below = some (.ok chain))
    (hi : i ∈ below ∨ i = current ∧ ¬ t.isFresh current = true) : i ∈ chain := by
  induction fuel generalizing current below with
  | zero => cases h
  | succ fuel ih =>
    rw [chainFrom] at h
    split at h
    · cases h
    · rename_i entry hget
      -- the walk ends at the root or a storage, which are always fresh
      have hend : (∀ a, entry.kind.handle? ≠ some a) → below = chain → i ∈ chain := by
        rintro hk rfl
        rcases hi with hi | ⟨rfl, hf⟩
        · exact hi
        · obtain ⟨a, ha⟩ := InodeTable.handle?_of_not_isFresh hget hf
          exact absurd ha (hk a)
      split at h
      · rename_i hk
        exact hend (fun a ha => by rw [hk] at ha; cases ha) (Except.ok.inj (Option.some.inj h))
      · rename_i hk
        exact hend (fun a ha => by rw [hk] at ha; cases ha) (Except.ok.inj (Option.some.inj h))
      · split at h
        · cases h
        · refine ih h (.inl ?_)
          rcases hi with hi | ⟨rfl, -⟩
          · exact List.mem_cons_of_mem _ hi
          · exact List.mem_cons_self

section Rules

variable {I : Link → E → Prop} {K : E → ObjectHandle → Prop} (hI : Resolving R G I K)
  {l : Link} {e : E}

include hI

/-! ## Resolving handles -/

theorem Resolving.hang (h : I l e) : G e .hang := (hI.aside rfl h).1

theorem resolveChain_wp {idx : Nat} {storage : Storage} (chain : List Nat)
    (parent : Option ObjectHandle) (h : I l e) (hs : l.storages[idx]? = some storage)
    (hp : ∀ a ∈ parent.toList, K e a) :
    Attempt.wp R G (resolveChain idx chain parent)
      (fun _ l' e' => I l' e' ∧ Kept K l e l' e' ∧ ∀ n ∈ chain, l'.inodes.isFresh n = true)
      (fun _ l' e' => I l' e') l e := by
  induction chain generalizing l e parent with
  | nil => exact ⟨h, .refl K l e, fun _ hn => nomatch hn⟩
  | cons node rest ih =>
    unfold resolveChain
    simp only [Attempt.wp_bind, Attempt.wp_get]
    split
    · exact h
    · rename_i entry hget
      split
      · rename_i hfresh
        split
        · rename_i a ha
          have hk : K e a := hI.token h ⟨node, entry, hget, hfresh, ha⟩
          refine Attempt.wp_mono (ih (some a) h hs ?_) ?_ fun _ _ _ h' => h'
          · intro b hb
            cases List.mem_singleton.mp hb
            exact hk
          · rintro _ l' e' ⟨h', hk', hr⟩
            refine ⟨h', hk', fun n hn => ?_⟩
            rcases List.mem_cons.mp hn with rfl | hn
            · exact hk'.fresh n hfresh
            · exact hr n hn
        · exact h
      · rename_i hstale
        obtain ⟨a, ha⟩ := InodeTable.handle?_of_not_isFresh hget hstale
        rw [Attempt.wp_bind]
        refine storageAt_wp hs ?_
        rw [Attempt.wp_bind, Attempt.wp_mk]
        obtain ⟨hG, hR⟩ := hI.query (c := .listObjects storage parent) rfl rfl h
          (List.mem_of_getElem? hs) hp
        refine wp_call.mpr ⟨hG, fun answer e₁ hr => ?_⟩
        obtain ⟨h₁, hmono, hnew⟩ := hR answer e₁ hr
        rcases answer with err | objects
        · exact h₁
        · dsimp only
          split
          · exact h₁
          · rename_i found hfound
            have hk : K e₁ found.handle := hnew _ (List.mem_map_of_mem (List.mem_of_find?_eq_some hfound))
            simp only [Attempt.wp_bind, Attempt.wp_modify]
            have hset := InodeTable.isFresh_setHandle hget ha found.handle
            refine Attempt.wp_mono (ih (some found.handle) (hI.setHandle h₁ hk) hs ?_) ?_
              fun _ _ _ h' => h'
            · intro b hb
              cases List.mem_singleton.mp hb
              exact hk
            · rintro _ l' e' ⟨h', hk', hrest⟩
              have hkept : Kept K l e l' e' := by
                refine ⟨fun b hb => hk'.known b (hmono b hb), hk'.storages, hk'.device,
                  fun i hi => hk'.fresh i ?_, hk'.lookup,
                  fun i => (hk'.place i).trans (l.inodes.place_setHandle node found.handle i)⟩
                rw [hset]
                split
                · rfl
                · exact hi
              refine ⟨h', hkept, fun n hn => ?_⟩
              rcases List.mem_cons.mp hn with rfl | hn
              · exact hk'.fresh n (by rw [hset, if_pos rfl])
              · exact hrest n hn

/-- After a success the inode is fresh. -/
theorem ensureFresh_wp (inode : Nat) (h : I l e) :
    Attempt.wp R G (ensureFresh inode)
      (fun _ l' e' => I l' e' ∧ Kept K l e l' e' ∧ l'.inodes.isFresh inode = true)
      (fun _ l' e' => I l' e') l e := by
  unfold ensureFresh
  simp only [Attempt.wp_bind, Attempt.wp_get]
  split
  · exact ⟨h, .refl K l e, ‹_›⟩
  · rename_i hstale
    split
    · simpa using hI.hang h
    · exact h
    · rename_i chain hchain
      rw [Attempt.wp_bind]
      refine storageIndex_wp (fun _ => hI.hang h) (fun i hi => ?_) fun _ => h
      have hlt := findStorageFrom_lt hi
      refine Attempt.wp_mono
        (resolveChain_wp hI chain none h (List.getElem?_eq_getElem hlt) fun _ hb => by cases hb) ?_
        fun _ _ _ h' => h'
      rintro _ l' e' ⟨h', hk, hf⟩
      exact ⟨h', hk, hf inode (mem_chainFrom hchain (.inr ⟨rfl, hstale⟩))⟩

/-- What the handle getters have in common: a fresh inode's handle is known. -/
theorem known_of_isFresh {inode : Nat} {k : InodeKind} {a : ObjectHandle} (h : I l e)
    (hf : l.inodes.isFresh inode = true) (hk : (l.inodes.get inode).map InodeEntry.kind = some k)
    (ha : k.handle? = some a) : K e a := by
  obtain ⟨entry, hget, rfl⟩ := Option.map_eq_some_iff.mp hk
  exact hI.token h ⟨inode, entry, hget, hf, ha⟩

theorem fileHandle_wp (inode : Nat) (h : I l e) :
    Attempt.wp R G (fileHandle inode)
      (fun a l' e' => I l' e' ∧ Kept K l e l' e' ∧ K e' a ∧ IsFile l' inode)
      (fun _ l' e' => I l' e') l e := by
  unfold fileHandle
  rw [Attempt.wp_bind]
  refine Attempt.wp_mono (ensureFresh_wp hI inode h) ?_ fun _ _ _ h' => h'
  rintro _ l' e' ⟨h', hk, hf⟩
  simp only [Attempt.wp_bind, Attempt.wp_get]
  split
  · rename_i a ha
    obtain ⟨entry, hget, hkind⟩ := Option.map_eq_some_iff.mp ha
    exact ⟨h', hk, known_of_isFresh hI h' hf ha rfl, entry, a, hget, hkind⟩
  · exact h'

/-- The object of the inode: a live file or directory, resolved just now. -/
theorem objectHandle_wp (inode : Nat) (h : I l e) :
    Attempt.wp R G (objectHandle inode)
      (fun a l' e' => I l' e' ∧ Kept K l e l' e' ∧ K e' a ∧ HasToken l' inode ∧
        l'.inodes.isFresh inode = true)
      (fun _ l' e' => I l' e') l e := by
  unfold objectHandle
  rw [Attempt.wp_bind]
  refine Attempt.wp_mono (ensureFresh_wp hI inode h) ?_ fun _ _ _ h' => h'
  rintro _ l' e' ⟨h', hk, hf⟩
  have hlive : ∀ {k a}, (l'.inodes.get inode).map InodeEntry.kind = some k → k.handle? = some a →
      HasToken l' inode := by
    intro k a hkind ha
    obtain ⟨entry, hget, rfl⟩ := Option.map_eq_some_iff.mp hkind
    exact ⟨entry, a, hget, ha⟩
  simp only [Attempt.wp_bind, Attempt.wp_get]
  split
  · exact ⟨h', hk, known_of_isFresh hI h' hf ‹_› rfl, hlive ‹_› rfl, hf⟩
  · exact ⟨h', hk, known_of_isFresh hI h' hf ‹_› rfl, hlive ‹_› rfl, hf⟩
  · exact h'

theorem parentHandle_wp (inode : Nat) (h : I l e) :
    Attempt.wp R G (parentHandle inode)
      (fun p l' e' => I l' e' ∧ Kept K l e l' e' ∧ (∀ a ∈ p.toList, K e' a) ∧ IsFolder l' inode)
      (fun _ l' e' => I l' e') l e := by
  unfold parentHandle
  rw [Attempt.wp_bind]
  refine Attempt.wp_mono (ensureFresh_wp hI inode h) ?_ fun _ _ _ h' => h'
  rintro _ l' e' ⟨h', hk, hf⟩
  simp only [Attempt.wp_bind, Attempt.wp_get]
  split
  · rename_i hs
    obtain ⟨entry, hget, hkind⟩ := Option.map_eq_some_iff.mp hs
    refine ⟨h', hk, ?_, entry, hget, ?_, ?_⟩
    · intro a ha
      cases ha
    · rw [InodeEntry.isDir, hkind]
    · rw [hkind]
      exact InodeKind.noConfusion
  · rename_i hs
    obtain ⟨entry, hget, hkind⟩ := Option.map_eq_some_iff.mp hs
    refine ⟨h', hk, fun a ha => ?_, entry, hget, ?_, ?_⟩
    · cases List.mem_singleton.mp ha
      exact known_of_isFresh hI h' hf ‹_› rfl
    · rw [InodeEntry.isDir, hkind]
    · rw [hkind]
      exact InodeKind.noConfusion
  · exact h'

omit hI in
/-- What the getters of a handle do to any invariant. -/
def GetsHandle (R : Answers Call Answer E) (G : E → Call → Prop) (K : E → ObjectHandle → Prop)
    (handleOf : Nat → MtpM ObjectHandle) (ino : Nat) : Prop :=
  ∀ I : Link → E → Prop, Resolving R G I K → ∀ l e, I l e →
    Attempt.wp R G (handleOf ino)
      (fun a l' e' => I l' e' ∧ Kept K l e l' e' ∧ K e' a ∧ HasToken l' ino)
      (fun _ l' e' => I l' e') l e

omit hI in
theorem getsHandle_fileHandle (ino : Nat) : GetsHandle R G K fileHandle ino := by
  intro I hI l e h
  refine Attempt.wp_mono (fileHandle_wp hI ino h) ?_ fun _ _ _ h' => h'
  rintro a l' e' ⟨h', hk, ha, hfile⟩
  exact ⟨h', hk, ha, hfile.hasToken⟩

omit hI in
theorem getsHandle_objectHandle (ino : Nat) : GetsHandle R G K objectHandle ino := by
  intro I hI l e h
  refine Attempt.wp_mono (objectHandle_wp hI ino h) ?_ fun _ _ _ h' => h'
  rintro a l' e' ⟨h', hk, ha, htok, -⟩
  exact ⟨h', hk, ha, htok⟩

/-! ## Reconnecting -/

omit hI in
theorem adopt_wp {device : MtpDevice} {e₁ : E}
    (hs : G e₁ (.storages device) ∧
      ∀ b e₂, R e₁ (.storages device) b e₂ → I l e₂ ∧ ∀ infos, b = .ok infos →
        G e₂ .invalidated ∧ ∀ u e₃, R e₂ .invalidated u e₃ →
          G e₃ (.spawnEventLoop device (l.eventEpoch + 1)) ∧
          ∀ u e₄, R e₃ (.spawnEventLoop device (l.eventEpoch + 1)) u e₄ →
            I (l.adopted device (device.bindStorages infos)) e₄) :
    Attempt.wp R G (adopt device) (fun _ l' e' => I l' e') (fun _ l' e' => I l' e') l e₁ := by
  unfold adopt
  simp only [Attempt.wp_bind, Attempt.wp_mk, Attempt.wp_modify, Attempt.wp_get, Attempt.wp_lift]
  refine wp_call.mpr ⟨hs.1, fun b e₂ hb => ?_⟩
  obtain ⟨h₂, hok⟩ := hs.2 b e₂ hb
  rcases b with err | infos
  · exact h₂
  · exact hok infos rfl

theorem reconnectAfter_wp (delays : List Nat) (h : I l e) :
    Attempt.wp R G (reconnectAfter delays) (fun _ l' e' => I l' e') (fun _ l' e' => I l' e') l e := by
  induction delays generalizing l e with
  | nil =>
    unfold reconnectAfter
    simp only [Attempt.wp_bind, Attempt.wp_modify, Attempt.wp_throw]
    exact hI.giveUp h
  | cons delay rest ih =>
    unfold reconnectAfter
    simp only [Attempt.wp_bind, Attempt.wp_lift]
    have hsleep := hI.aside (c := .sleep delay) rfl h
    refine wp_call.mpr ⟨hsleep.1, fun _ e₁ hr₁ => ?_⟩
    have h₁ := (hsleep.2 _ _ hr₁).1
    have hplug := hI.aside (c := .isUnplugged) rfl h₁
    refine wp_call.mpr ⟨hplug.1, fun out e₂ hr₂ => ?_⟩
    have h₂ := (hplug.2 _ _ hr₂).1
    split
    · exact ih h₂
    · simp only [Attempt.wp_bind, Attempt.wp_outcome, Attempt.wp_mk]
      obtain ⟨hG, hopen⟩ := hI.reopen h₂
      refine wp_call.mpr ⟨hG, fun a e₃ hr₃ => ?_⟩
      obtain ⟨h₃, hadopt⟩ := hopen a e₃ hr₃
      rcases a with err | device
      · exact ih h₃
      · dsimp only
        refine Attempt.wp_mono (adopt_wp (hadopt device rfl)) ?_ ?_
        · intro _ l' e' h'
          exact h'
        · intro _ l' e' h'
          exact ih h'

theorem reconnect_wp (h : I l e) :
    Attempt.wp R G reconnect (fun _ l' e' => I l' e') (fun _ l' e' => I l' e') l e := by
  unfold reconnect
  simp only [Attempt.wp_bind, Attempt.wp_get]
  split
  · simp only [Attempt.wp_bind, Attempt.wp_modify, Attempt.wp_throw]
    exact hI.giveUp h
  · exact reconnectAfter_wp hI _ h

end Rules

/-! ## Recovery -/

section Recovery

variable [HasLink σ]

@[simp] theorem wp_onLink {x : LinkM α} {Q : α → σ → E → Prop} {s : σ} {e : E} :
    Act.wp R G (onLink x) Q s e ↔
      Act.wp R G x (fun a l e' => Q a (HasLink.setLink s l) e') (HasLink.link s) e :=
  Act.wp_focus _ _ x

@[simp] theorem wp_onLinkM {x : MtpM α} {Q : α → σ → E → Prop} {X : Error → σ → E → Prop}
    {s : σ} {e : E} :
    Attempt.wp R G (onLinkM x) Q X s e ↔
      Attempt.wp R G x (fun a l e' => Q a (HasLink.setLink s l) e')
        (fun err l e' => X err (HasLink.setLink s l) e') (HasLink.link s) e := by
  unfold onLinkM
  rw [Attempt.wp_mk, wp_onLink]
  exact Iff.rfl

/-- The invariant of a larger state survives what happens to its link. -/
abbrev QueriesOn (R : Answers Call Answer E) (G : E → Call → Prop) (I : σ → E → Prop)
    (K : E → ObjectHandle → Prop) : Prop :=
  ∀ s, Queries R G (fun l e => I (HasLink.setLink s l) e) K

/-- The same without the listings. -/
abbrev ResolvingOn (R : Answers Call Answer E) (G : E → Call → Prop) (I : σ → E → Prop)
    (K : E → ObjectHandle → Prop) : Prop :=
  ∀ s, Resolving R G (fun l e => I (HasLink.setLink s l) e) K

variable {I : σ → E → Prop} {K : E → ObjectHandle → Prop} (hI : ResolvingOn R G I K)
  {attempt : Attempt Call Answer σ Error α} {Q : α → σ → E → Prop}
  (hattempt : ∀ s e, I s e → Attempt.wp R G attempt Q (fun _ s' e' => I s' e') s e)
  {s : σ} {e : E}

theorem at_link (h : I s e) : I (HasLink.setLink s (HasLink.link s)) e := by
  rwa [HasLink.setLink_link]

include hI

theorem invalidateHandles_wp (h : I s e) :
    Act.wp R G (onLink invalidateHandles : Act Call Answer σ Unit) (fun _ s' e' => I s' e') s e := by
  rw [wp_onLink]
  unfold invalidateHandles
  rw [Act.wp_bind]
  obtain ⟨hG, hR⟩ := (hI s).invalidate (at_link h)
  exact wp_call.mpr ⟨hG, hR⟩

include hattempt

theorem recoveryTurn_wp {retry : Error → Act Call Answer σ (Option (Except Error α))}
    (hretry : ∀ err s e, I s e → Act.wp R G (retry err) (fun r s' e' => match r with
      | some (.ok a) => Q a s' e'
      | _ => I s' e') s e) (h : I s e) :
    Act.wp R G (recoveryTurn attempt retry) (fun r s' e' => match r with
      | some (.ok a) => Q a s' e'
      | _ => I s' e') s e := by
  unfold recoveryTurn
  rw [Act.wp_bind]
  have hplug := (hI s).aside (c := .isUnplugged) rfl (at_link h)
  refine wp_call.mpr ⟨hplug.1, fun out e₁ hr => ?_⟩
  have h₁ : I s e₁ := by
    have := (hplug.2 _ _ hr).1
    rwa [HasLink.setLink_link] at this
  split
  · exact h₁
  · rw [Act.wp_bind, Attempt.wp_run]
    refine Attempt.wp_mono (hattempt s e₁ h₁) (fun a s' e' hq => hq) fun err s' e' h' => ?_
    dsimp only
    split
    · exact hretry err s' e' h'
    · split
      · exact h'
      · exact h'

theorem sessionLoop_wp (staleRetries : Nat) (h : I s e) :
    Act.wp R G (sessionLoop attempt staleRetries) (fun r s' e' => match r with
      | some (.ok a) => Q a s' e'
      | _ => I s' e') s e := by
  induction staleRetries generalizing s e with
  | zero => exact recoveryTurn_wp hI hattempt (fun err s' e' h' => h') h
  | succ n ih =>
    refine recoveryTurn_wp hI hattempt (fun err s' e' h' => ?_) h
    rw [Act.wp_bind]
    exact Act.wp_mono (invalidateHandles_wp hI h') fun _ s₁ e₁ h₁ => ih h₁

theorem recoveryRounds_wp (rounds : Nat) (h : I s e) :
    Attempt.wp R G (recoveryRounds attempt rounds) Q (fun _ s' e' => I s' e') s e := by
  induction rounds generalizing s e with
  | zero => exact h
  | succ n ih =>
    unfold recoveryRounds
    rw [Attempt.wp_bind, Attempt.wp_lift]
    refine Act.wp_mono (sessionLoop_wp hI hattempt MAX_STALE_RETRIES h) fun r s₁ e₁ h₁ => ?_
    rcases r with _ | err | a
    · rw [Attempt.wp_bind, wp_onLinkM]
      refine Attempt.wp_mono (reconnect_wp (hI s₁) (at_link h₁)) ?_ ?_
      · intro _ l e' h'
        exact ih h'
      · intro _ l e' h'
        exact h'
    · exact h₁
    · exact h₁

/-- What every attempt keeps, also when it fails, the retries of it keep. -/
theorem withRecovery_wp (h : I s e) :
    Attempt.wp R G (withRecovery attempt) Q (fun _ s' e' => I s' e') s e :=
  recoveryRounds_wp hI hattempt MAX_ATTEMPTS h

end Recovery

/-! ## Listings -/

section Listings

variable {I : Link → E → Prop} {K : E → ObjectHandle → Prop} (hI : Queries R G I K)
  {l : Link} {e : E}

include hI

/-- A listing that came in may be marked. -/
theorem listIntoTable_wp (parentInode : Nat) (h : I l e) :
    Attempt.wp R G (listIntoTable parentInode)
      (fun _ l' e' => I l' e' ∧ I { l' with dirsLoaded := l'.dirsLoaded.insert parentInode true } e')
      (fun _ l' e' => I l' e') l e := by
  have hres := hI.toResolving
  unfold listIntoTable
  rw [Attempt.wp_bind]
  refine Attempt.wp_mono (parentHandle_wp hres parentInode h) ?_ fun _ _ _ h' => h'
  rintro p l₁ e₁ ⟨h₁, -, hp, hfolder⟩
  unfold storageOf
  simp only [Attempt.wp_bind]
  refine storageIndex_wp (fun _ => hres.hang h₁) (fun idx hidx => ?_) fun _ => h₁
  have hi := findStorageFrom_lt hidx
  refine storageAt_wp (List.getElem?_eq_getElem hi) ?_
  rw [Attempt.wp_mk]
  obtain ⟨hG, hR⟩ := hres.query (c := .listObjects l₁.storages[idx] p) rfl rfl h₁
    (List.getElem_mem hi) hp
  refine wp_call.mpr ⟨hG, fun a e₂ hr => ?_⟩
  obtain ⟨h₂, -, hnew⟩ := hR a e₂ hr
  rcases a with err | objects
  · exact h₂
  · have hlists : Lists l₁ parentInode := ⟨hfolder, idx, hidx⟩
    have hknown : ∀ c ∈ objects.map childInfo, K e₂ c.handle := by
      intro c hc
      obtain ⟨obj, hobj, rfl⟩ := List.mem_map.mp hc
      exact hnew _ (List.mem_map_of_mem hobj)
    exact ⟨hI.syncChildren h₂ hlists hknown, hI.loaded h₂ hlists hknown⟩

theorem loadDir_wp (parentInode : Nat) (h : I l e) :
    Act.wp R G (loadDir parentInode) (fun _ l' e' => I l' e') l e := by
  unfold loadDir
  simp only [Act.wp_bind, Act.wp_get]
  split
  · exact h
  · split
    · rename_i hroot
      rw [hroot]
      exact hI.rootLoaded h
    · rw [Act.wp_bind, Attempt.wp_run]
      have hw := withRecovery_wp (fun _ => hI.toResolving)
        (fun _ _ h' => listIntoTable_wp hI parentInode h') h
      refine Attempt.wp_mono hw ?_ ?_
      · intro _ l' e' h'
        exact h'.2
      · intro _ l' e' h'
        exact h'

end Listings

end MtpMount
