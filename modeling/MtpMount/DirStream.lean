import MtpMount.FsRules
import MtpMount.Lib.Cursor

/-!
# A directory stream

`readdir` numbers the entries by their position in the child list of the moment,
and `opendir` gives a stream nothing that would hold the list for it. A removal
before the offset moves every later child up by one.

* `readdir_once_iff`: a child that is there at every call is delivered once
  exactly when the changes between the calls take it across the offset as often
  one way as the other;
* `readdir_skips`: an `unlink` of a delivered file hides the next one.
-/

namespace MtpMount

open Interaction Cursor

/-! ## The child lists -/

namespace InodeTable

variable {t u : InodeTable} {i p : Nat} {e : InodeEntry}

/-- The child lists have live entries of their directory, each once. -/
structure Listed (t : InodeTable) : Prop where
  bound : ∀ i e, t.get i = some e → i < t.nextInode
  child : ∀ p i, i ∈ t.children p → ∃ e, t.get i = some e ∧ e.parent = p
  nodup : ∀ p, (t.children p).Nodup

theorem listed_new : Listed new where
  bound := fun i e he => by
    rw [get_new] at he
    split at he
    · rename_i hi
      rw [hi]
      decide
    · cases he
  child := fun p i h => by simp [new, InodeTable.children] at h
  nodup := fun p => by simp [new, InodeTable.children]

namespace Listed

theorem getMut (h : Listed t) (i : Nat) {f : InodeEntry → InodeEntry}
    (hf : ∀ e, (f e).parent = e.parent) : Listed (t.getMut i f) where
  bound := fun j e he => by
    rw [get_getMut] at he
    split at he
    · rename_i hj
      obtain ⟨e', he', -⟩ := Option.map_eq_some_iff.mp he
      rw [hj]
      exact h.bound i e' he'
    · exact h.bound j e he
  child := fun p j hj => by
    obtain ⟨e, he, hp⟩ := h.child p j hj
    rw [get_getMut]
    split
    · rename_i hji
      rw [← hji, he]
      exact ⟨f e, rfl, (hf e).trans hp⟩
    · exact ⟨e, he, hp⟩
  nodup := h.nodup

theorem setHandle (h : Listed t) (i : Nat) (a : ObjectHandle) : Listed (t.setHandle i a) := by
  refine h.getMut i fun e => ?_
  cases e.kind <;> rfl

theorem setStorageId (h : Listed t) (i : Nat) (sid : StorageId) : Listed (t.setStorageId i sid) := by
  refine h.getMut i fun e => ?_
  cases e.kind <;> rfl

theorem bumpGeneration (h : Listed t) : Listed t.bumpGeneration := ⟨h.bound, h.child, h.nodup⟩

/-- A number is in the list of its own directory only. -/
theorem parent_eq (h : Listed t) (hi : i ∈ t.children p) (he : t.get i = some e) : e.parent = p := by
  obtain ⟨e', he', hp⟩ := h.child p i hi
  cases he.symm.trans he'
  exact hp

theorem remove (h : Listed t) (i : Nat) : Listed (t.remove i) := by
  cases hg : t.get i with
  | none => rwa [remove_of_none hg]
  | some e =>
    refine ⟨fun j e' he' => ?_, fun p j hj => ?_, fun p => ?_⟩
    · rw [nextInode_remove]
      exact h.bound j e' (get_of_get_remove he').2
    · rw [children_remove hg] at hj
      split at hj
      · cases hj
      · have hold : j ∈ t.children p ∧ j ≠ i := by
          split at hj
          · simpa using hj
          · rename_i hpe
            refine ⟨hj, ?_⟩
            rintro rfl
            exact hpe (h.parent_eq hj hg).symm
        obtain ⟨e', he', hp⟩ := h.child p j hold.1
        exact ⟨e', by rw [get_remove, if_neg hold.2, he'], hp⟩
    · rw [children_remove hg]
      split
      · exact List.nodup_nil
      · split
        · exact (h.nodup p).filter _
        · exact h.nodup p

theorem evictName (h : Listed t) (p : Nat) (n : String) (keep : Nat) :
    Listed (t.evictName p n keep) := by
  rcases evictName_cases t p n keep with ⟨h', -⟩ | ⟨i, -, -, h'⟩
  · rwa [h']
  · rw [h']
    exact h.remove i

theorem placed (h : Listed t) (hi : e.inode = t.nextInode) (hu : Placed t e u) : Listed u := by
  have hnew : ∀ j e', t.get j = some e' → j ≠ e.inode := by
    intro j e' he'
    have hlt := h.bound j e' he'
    omega
  refine ⟨fun j e' he' => ?_, fun p j hj => ?_, fun p => ?_⟩
  · rw [hu.nextInode]
    rw [hu.get] at he'
    split at he'
    · omega
    · have hlt := h.bound j e' he'
      omega
  · rw [hu.children] at hj
    rcases List.mem_append.mp hj with hj | hj
    · obtain ⟨e', he', hp⟩ := h.child p j hj
      exact ⟨e', by rw [hu.get, if_neg (hnew j e' he'), he'], hp⟩
    · split at hj
      · rename_i hp
        rw [List.mem_singleton.mp hj, hu.get, if_pos rfl]
        exact ⟨e, rfl, hp.symm⟩
      · cases hj
  · rw [hu.children]
    refine List.nodup_append.mpr ⟨h.nodup p, ?_, ?_⟩
    · split <;> simp
    · rintro j hj k hk rfl
      obtain ⟨e', he', -⟩ := h.child p j hj
      split at hk
      · exact hnew j e' he' (List.mem_singleton.mp hk)
      · cases hk

theorem insert_alloc (h : Listed t) (hi : e.inode = t.nextInode) :
    Listed (t.allocInode.2.insert e) :=
  (h.evictName ..).placed (by rw [nextInode_evictName, hi]) (placed_insert hi)

theorem addStorageAt (h : Listed t) (sid : StorageId) (name : String) (now : SystemTime) :
    Listed (t.addStorageAt sid name now).2 := h.insert_alloc rfl

theorem addObject (h : Listed t) (parent : Nat) (a : ObjectHandle) (name : String) (isDir : Bool)
    (size : Nat) (mtime : SystemTime) : Listed (t.addObject parent a name isDir size mtime).2 :=
  h.insert_alloc rfl

theorem syncChild (h : Listed t) (p : Nat) (c : ChildInfo) : Listed (t.syncChild p c) := by
  unfold InodeTable.syncChild
  split
  · split
    · exact h.getMut _ fun _ => rfl
    · exact (h.remove _).addObject ..
  · exact h.addObject ..

theorem removeAll (h : Listed t) (is : List Nat) : Listed (t.removeAll is) := by
  induction is generalizing t with
  | nil => exact h
  | cons i is ih => exact ih (h.remove i)

theorem syncChildren (h : Listed t) (p : Nat) (cs : List ChildInfo) : Listed (t.syncChildren p cs) := by
  have hfold : Listed (cs.foldl (fun t c => t.syncChild p c) t) := by
    induction cs generalizing t with
    | nil => exact h
    | cons c cs ih => exact ih (h.syncChild p c)
  exact hfold.removeAll _

theorem renamed {p' : Nat} {n' : String} (h : Listed t) (he : t.get i = some e)
    (hu : Renamed t i e p' n' u) : Listed u := by
  have hold : ∀ p j, j ∈ (if p = e.parent then (t.children p).filter (· ≠ i) else t.children p) →
      j ∈ t.children p ∧ j ≠ i := by
    intro p j hj
    split at hj
    · simpa using hj
    · rename_i hpe
      refine ⟨hj, ?_⟩
      rintro rfl
      exact hpe (h.parent_eq hj he).symm
  refine ⟨fun j e' he' => ?_, fun p j hj => ?_, fun p => ?_⟩
  · rw [hu.nextInode]
    rw [hu.get] at he'
    split at he'
    · rename_i hj
      rw [hj]
      exact h.bound i e he
    · exact h.bound j e' he'
  · rw [hu.children] at hj
    rcases List.mem_append.mp hj with hj | hj
    · obtain ⟨hj, hji⟩ := hold p j hj
      obtain ⟨e', he', hp⟩ := h.child p j hj
      exact ⟨e', by rw [hu.get, if_neg hji, he'], hp⟩
    · split at hj
      · rename_i hp
        rw [List.mem_singleton.mp hj, hu.get, if_pos rfl]
        exact ⟨_, rfl, hp.symm⟩
      · cases hj
  · rw [hu.children]
    refine List.nodup_append.mpr ⟨?_, ?_, ?_⟩
    · split
      · exact (h.nodup p).filter _
      · exact h.nodup p
    · split <;> simp
    · rintro j hj k hk rfl
      split at hk
      · exact (hold p j hj).2 (List.mem_singleton.mp hk)
      · cases hk

theorem rename (h : Listed t) (i p' : Nat) (n' : String) : Listed (t.rename i p' n') := by
  rcases rename_cases t i p' n' with ⟨-, hr⟩ | ⟨e, he, hr⟩
  · rwa [hr]
  · exact (h.evictName ..).renamed (by rw [get_evictName, he]) hr

end Listed

end InodeTable

/-- The child lists stay in order whatever the mount is asked and the device answers. -/
theorem linkInvariant_listed {E : Type} {R : Answers Call Answer E} :
    LinkInvariant R (fun _ _ => True) (fun l _ => l.inodes.Listed) (fun _ _ => True) where
  token := fun _ _ => trivial
  aside := fun _ h => ⟨trivial, fun _ _ _ => ⟨h, fun _ h => h⟩⟩
  query := fun _ _ h _ _ => ⟨trivial, fun _ _ _ => ⟨h, fun _ h => h, fun _ _ => trivial⟩⟩
  setHandle := fun h _ => h.setHandle _ _
  syncChildren := fun h _ _ => h.syncChildren _ _
  loaded := fun h _ _ => h.syncChildren _ _
  rootLoaded := fun h => h
  forget := fun _ h => h
  giveUp := fun h => h
  invalidate := fun h => ⟨trivial, fun _ _ _ => h.bumpGeneration⟩
  reopen := fun h => ⟨trivial, fun _ _ _ => ⟨h, fun _ _ => ⟨trivial, fun _ _ _ => ⟨h, fun _ _ =>
    ⟨trivial, fun _ _ _ => ⟨trivial, fun _ _ _ => (Link.remapStorages_induction
      (fun _ ino sid h => h.setStorageId ino sid) _ h).bumpGeneration⟩⟩⟩⟩⟩⟩
  mutation := fun _ _ _ h _ _ =>
    ⟨trivial, fun _ _ _ => ⟨h, fun _ h => h, fun _ _ => trivial⟩⟩
  record := fun inode h _ _ _ _ _ => h.getMut inode fun _ => rfl
  init := fun h => ⟨trivial, fun _ _ _ => h⟩
  addStorage := fun sid name now h => h.addStorageAt sid name now
  setStorages := fun _ h => h
  spawn := fun h => ⟨trivial, fun _ _ _ => h⟩
  addObject := fun parent a name isDir now h _ _ => h.addObject parent a name isDir 0 now
  remove := fun ino h _ => h.remove ino
  rename := fun ino newParent newName h _ => h.rename ino newParent newName
  panic := fun _ _ _ => trivial

/-! ## The entries -/

/-- What stands at each position of a stream: the two dots, then the children. -/
def positions (t : InodeTable) (p : Nat) : List (Option Nat) :=
  none :: none :: (t.children p).map some

/-- The child that an entry is about; the dots have the offsets 1 and 2. -/
def DirEntry.child? (d : DirEntry) : Option Nat := if d.offset ≤ 2 then none else some d.ino

section Entries

variable {t : InodeTable} {p : Nat}

theorem childEntries_of_live {is : List Nat} (h : ∀ i ∈ is, ∃ e, t.get i = some e) (k : Nat) :
    ∃ ds : List DirEntry, ((is.zipIdx k).filterMap fun c => (t.get c.1).map fun child =>
        (⟨c.1, c.2 + 3, fileTypeOf child, child.name⟩ : DirEntry)) = ds ∧
      ds.map DirEntry.child? = is.map some ∧
      ds.map DirEntry.offset = List.range' (k + 3) is.length := by
  refine ⟨_, rfl, ?_⟩
  induction is generalizing k with
  | nil => exact ⟨rfl, rfl⟩
  | cons i is ih =>
    obtain ⟨e, he⟩ := h i List.mem_cons_self
    obtain ⟨hchild, hoffset⟩ := ih (fun j hj => h j (List.mem_cons_of_mem i hj)) (k + 1)
    rw [show k + 1 + 3 = k + 3 + 1 by omega] at hoffset
    constructor
    · simp [List.zipIdx_cons, he, hchild, DirEntry.child?]
    · simp [List.zipIdx_cons, he, hoffset, List.range'_succ]

/-- The entries are in the order of the positions, and an offset is that of the next one. -/
theorem dirEntries_positions (h : t.Listed) (p : Nat) :
    (dirEntries t p).map DirEntry.child? = positions t p ∧
      (dirEntries t p).map DirEntry.offset = List.range' 1 (positions t p).length := by
  have hlive : ∀ i ∈ t.children p, ∃ e, t.get i = some e := fun i hi =>
    (h.child p i hi).imp fun _ he => he.1
  obtain ⟨ds, hds, hchild, hoffset⟩ := childEntries_of_live hlive 0
  unfold dirEntries positions
  dsimp only
  rw [hds]
  constructor
  · simp [hchild, DirEntry.child?]
  · simp [hoffset, List.range'_succ]

theorem count_positions (h : t.Listed) {x : Nat} (hx : x ∈ t.children p) :
    (positions t p).count (some x) = 1 := by
  have hnodup : ((t.children p).map some).Nodup := (h.nodup p).map (fun _ _ h => Option.some.inj h)
  have hmem : some x ∈ (t.children p).map some := List.mem_map.mpr ⟨x, hx, rfl⟩
  simp [positions, List.count_eq_one_of_mem hnodup hmem]

/-- Where a call starts, its last entry says where the next one does. -/
theorem offset_getLast {pos room : Nat} (h : t.Listed)
    (hd : (((dirEntries t p).drop pos).take room) ≠ []) :
    (((dirEntries t p).drop pos).take room).getLast?.map DirEntry.offset =
      some ((⟨positions t p, room⟩ : Look (Option Nat)).next pos) := by
  obtain ⟨hchild, hoffset⟩ := dirEntries_positions h p
  have hlen : (((dirEntries t p).drop pos).take room).length =
      ((⟨positions t p, room⟩ : Look (Option Nat)).taken pos).length := by
    simp [Look.taken, ← hchild]
  have hpos := List.length_pos_iff.mpr hd
  rw [Look.next, ← hlen, ← List.getLast?_map, List.map_take, List.map_drop, hoffset,
    List.getLast?_eq_getElem?]
  have hlen' := congrArg List.length hchild
  simp only [List.length_map, List.length_take, List.length_drop, List.length_range'] at hlen' hpos ⊢
  rw [List.getElem?_take_of_lt (by omega), List.getElem?_drop, List.getElem?_range' (by omega)]
  congr 1
  omega

end Entries

/-! ## The stream -/

/-- One call of a stream: the room in the reply, the table it read, and its entries. -/
structure DirCall where
  room : Nat
  inodes : InodeTable
  entries : List DirEntry

/-- Everything that the calls delivered. -/
def delivered (calls : List DirCall) : List DirEntry := calls.flatMap DirCall.entries

/-- The offset of the last entry delivered. -/
def offsetAfter (calls : List DirCall) : Nat :=
  ((delivered calls).getLast?.map DirEntry.offset).getD 0

/-- How often the child was delivered. -/
def deliveries (x : Nat) (calls : List DirCall) : Nat :=
  ((delivered calls).map DirEntry.child?).count (some x)

/-- The stream came to its end. -/
def Finished (calls : List DirCall) : Prop := ∃ before c, calls = before ++ [c] ∧ c.entries = []

/-- A stream over the directory `p` while `P` holds of the table: calls with room for an
entry at least, each at the offset of the last entry, and other callbacks in between. -/
inductive DirStream {E : Type} (R : Answers Call Answer E) (p : Nat) (P : InodeTable → Prop)
    (fs₀ : MtpFs) (e₀ : E) : List DirCall → MtpFs → E → Prop
  | opened : P fs₀.link.inodes → DirStream R p P fs₀ e₀ [] fs₀ e₀
  | other {calls : List DirCall} {fs fs' : MtpFs} {e e' : E} {c : Callback} {r : Reply} :
      DirStream R p P fs₀ e₀ calls fs e → Prog.Ends R (dispatch c fs) e (r, fs') e' →
      P fs'.link.inodes → DirStream R p P fs₀ e₀ calls fs' e'
  | look {calls : List DirCall} {fs fs' : MtpFs} {e e' : E} {room : Nat}
      {entries : List DirEntry} : DirStream R p P fs₀ e₀ calls fs e → 0 < room →
      Prog.Ends R (dispatch (.readdir p (offsetAfter calls) room) fs) e
        (.directory entries, fs') e' →
      P fs'.link.inodes → DirStream R p P fs₀ e₀ (calls ++ [⟨room, fs'.link.inodes, entries⟩]) fs' e'

/-- The calls as looks at the positions. -/
def looks (p : Nat) (calls : List DirCall) : List (Look (Option Nat)) :=
  calls.map fun c => ⟨positions c.inodes p, c.room⟩

section Stream

variable {E : Type} {R : Answers Call Answer E} {p : Nat} {P : InodeTable → Prop}
  {fs₀ fs fs' : MtpFs} {e₀ e e' : E} {calls : List DirCall}

theorem listed_of_ends {c : Callback} {r : Reply} (h : fs.link.inodes.Listed)
    (hends : Prog.Ends R (dispatch c fs) e (r, fs') e') : fs'.link.inodes.Listed :=
  Act.wp_ends (dispatch_keeps linkInvariant_listed.mount c h) hends

/-- A `readdir` replies what fits of the entries from its offset on. -/
theorem readdir_replies {offset room : Nat} {r : Reply} (h : fs.link.inodes.Listed)
    (hends : Prog.Ends R (dispatch (.readdir p offset room) fs) e (r, fs') e') :
    r = .directory (((dirEntries fs'.link.inodes p).drop offset).take room) := by
  have hwp : Act.wp R (fun _ _ => True) (dispatch (.readdir p offset room))
      (fun r fs' _ => r = .directory (((dirEntries fs'.link.inodes p).drop offset).take room))
      fs e := by
    refine dispatch_wp.mpr ?_
    show Attempt.wp R _ (readdir p offset room) _ _ fs e
    unfold readdir
    rw [Attempt.wp_bind]
    have hload := keeps_loadListing (linkInvariant_listed (R := R)).mount.asking p fs e h
    refine (Attempt.wp_lift _).mpr (Act.wp_mono ((Attempt.wp_lift _).mp hload) fun _ fs₁ e₁ _ => ?_)
    rw [Attempt.wp_bind, Attempt.wp_get]
    rfl
  exact Act.wp_ends hwp hends

/-- Calls that each read the entries at the offset after the ones before. -/
inductive StreamCalls (p : Nat) : List DirCall → Prop
  | nil : StreamCalls p []
  | append {calls : List DirCall} {c : DirCall} : StreamCalls p calls → c.inodes.Listed → 0 < c.room →
      c.entries = ((dirEntries c.inodes p).drop (offsetAfter calls)).take c.room →
      StreamCalls p (calls ++ [c])

theorem StreamCalls.last {before : List DirCall} {c : DirCall} (h : StreamCalls p (before ++ [c])) :
    StreamCalls p before ∧ c.inodes.Listed ∧ 0 < c.room ∧
      c.entries = ((dirEntries c.inodes p).drop (offsetAfter before)).take c.room := by
  generalize hcalls : before ++ [c] = calls at h
  cases h with
  | nil => simp at hcalls
  | append hs hl hroom hc =>
    obtain ⟨rfl, heq⟩ := List.append_inj' hcalls rfl
    cases heq
    exact ⟨hs, hl, hroom, hc⟩

/-- What a call reads is what the look at its position takes. -/
theorem child?_entries {c : DirCall} {offset : Nat} (hl : c.inodes.Listed)
    (hc : c.entries = ((dirEntries c.inodes p).drop offset).take c.room) :
    c.entries.map DirEntry.child? =
      (⟨positions c.inodes p, c.room⟩ : Look (Option Nat)).taken offset := by
  rw [hc, List.map_take, List.map_drop, (dirEntries_positions hl p).1]
  rfl

/-- The calls deliver what looks by position take, and an offset is a position. -/
theorem StreamCalls.looks (h : StreamCalls p calls) :
    (delivered calls).map DirEntry.child? = taken 0 (looks p calls) ∧
      offsetAfter calls = endPos 0 (looks p calls) := by
  induction h with
  | nil => exact ⟨rfl, rfl⟩
  | @append calls c _ hl hroom hc ih =>
    obtain ⟨hdelivered, hoffset⟩ := ih
    have hchild := child?_entries hl hc
    have hcalls : delivered (calls ++ [c]) = delivered calls ++ c.entries := by simp [delivered]
    have hlooks : MtpMount.looks p (calls ++ [c]) =
        MtpMount.looks p calls ++ [⟨positions c.inodes p, c.room⟩] := by simp [MtpMount.looks]
    constructor
    · rw [hcalls, List.map_append, hdelivered, hchild, hlooks, taken_append, hoffset]
    · rw [hlooks, endPos_append, ← hoffset]
      show ((delivered (calls ++ [c])).getLast?.map DirEntry.offset).getD 0 = _
      rw [hcalls]
      by_cases hnil : c.entries = []
      · rw [Look.next, ← hchild, hnil, List.append_nil]
        rfl
      · rw [List.getLast?_append_of_ne_nil _ hnil, hc, offset_getLast hl (by rwa [← hc])]
        rfl

namespace DirStream

theorem listed (hs : DirStream R p P fs₀ e₀ calls fs e) (h : fs₀.link.inodes.Listed) :
    fs.link.inodes.Listed := by
  induction hs with
  | opened _ => exact h
  | other _ hends _ ih => exact listed_of_ends ih hends
  | look _ _ hends _ ih => exact listed_of_ends ih hends

theorem streamCalls (hs : DirStream R p P fs₀ e₀ calls fs e) (h : fs₀.link.inodes.Listed) :
    StreamCalls p calls := by
  induction hs with
  | opened _ => exact .nil
  | other _ _ _ ih => exact ih
  | look hs hroom hends _ ih =>
    refine ih.append (listed_of_ends (hs.listed h) hends) hroom ?_
    cases readdir_replies (hs.listed h) hends
    rfl

theorem holds (hs : DirStream R p P fs₀ e₀ calls fs e) : ∀ c ∈ calls, P c.inodes := by
  induction hs with
  | opened _ => exact fun _ hc => nomatch hc
  | other _ _ _ ih => exact ih
  | look _ _ _ hP ih =>
    intro c hc
    rcases List.mem_append.mp hc with hc | hc
    · exact ih c hc
    · cases List.mem_singleton.mp hc
      exact hP

end DirStream

end Stream

/-! ## Playing a stream -/

/-- A step of a stream: a call of its own, or another callback. -/
inductive StreamStep where
  | look (room : Nat)
  | other (c : Callback)

section Play

variable {p : Nat} (test : InodeTable → Bool) (dev : List Event → (c : Call) → Option (Answer c))

/-- Plays a stream against a scripted device while the test passes. -/
def playStream (p : Nat) : List StreamStep → List DirCall → MtpFs → List Event →
    Option (List DirCall × MtpFs × List Event)
  | [], calls, fs, tr => some (calls, fs, tr)
  | .other c :: steps, calls, fs, tr =>
    match (dispatch c fs).runWith (script dev) tr with
    | some ((_, fs'), tr') =>
      if test fs'.link.inodes then playStream p steps calls fs' tr' else none
    | none => none
  | .look room :: steps, calls, fs, tr =>
    match (dispatch (.readdir p (offsetAfter calls) room) fs).runWith (script dev) tr with
    | some ((.directory entries, fs'), tr') =>
      if test fs'.link.inodes ∧ 0 < room then
        playStream p steps (calls ++ [⟨room, fs'.link.inodes, entries⟩]) fs' tr'
      else none
    | _ => none

variable {test dev}

theorem DirStream.play {P : InodeTable → Prop} (hP : ∀ t, test t = true → P t)
    {fs₀ fs fs' : MtpFs} {tr₀ tr tr' : List Event} {calls calls' : List DirCall}
    {steps : List StreamStep} (hplay : playStream test dev p steps calls fs tr = some (calls', fs', tr'))
    (hs : DirStream AnyAnswer p P fs₀ tr₀ calls fs tr) :
    DirStream AnyAnswer p P fs₀ tr₀ calls' fs' tr' := by
  induction steps generalizing calls fs tr with
  | nil =>
    cases hplay
    exact hs
  | cons step steps ih =>
    cases step with
    | other c =>
      rw [playStream] at hplay
      split at hplay
      · rename_i hrun
        split at hplay
        · rename_i hok
          exact ih hplay (hs.other (Prog.runWith_ends (anyAnswer_of_script dev) hrun) (hP _ hok))
        · cases hplay
      · cases hplay
    | look room =>
      rw [playStream] at hplay
      split at hplay
      · rename_i hrun
        split at hplay
        · rename_i hok
          exact ih hplay
            (hs.look hok.2 (Prog.runWith_ends (anyAnswer_of_script dev) hrun) (hP _ hok.1))
        · cases hplay
      · cases hplay

end Play

/-- A card with three files. -/
def threeFiles (_ : List Event) : (c : Call) → Option (Answer c)
  | .storages _ => some (.ok [⟨⟨1⟩, "Card", 100, 50⟩])
  | .listObjects .. => some (.ok [⟨⟨7⟩, "a", false, 3, none⟩, ⟨⟨8⟩, "b", false, 3, none⟩,
      ⟨⟨9⟩, "c", false, 3, none⟩])
  | .delete .. => some (.ok ())
  | c => undisturbed c

/-- The first call takes three entries, the file among them is unlinked, and two more
calls read on. -/
def unlinkBetween : List StreamStep :=
  [.look 3, .other (.unlink 2 (some "a")), .look 9, .look 9]

/-- That stream, for a child that is there throughout. -/
theorem DirStream.of_unlink (x n : Nat)
    (ht : (Interaction.serveAll (script threeFiles) dispatch []
      [.init, .opendir 2, .lookup 2 (some "a")] writableMount []).any
        (fun r => decide (x ∈ r.2.1.link.inodes.children 2) &&
          (playStream (fun t => decide (x ∈ t.children 2)) threeFiles 2 unlinkBetween []
            r.2.1 r.2.2).any
              (fun q => decide (deliveries x q.1 = n ∧ (q.1.getLast?.map DirCall.entries) = some []))) =
        true) :
    ∃ h fs₀ tr₀ calls fs tr, MountRun AnyAnswer writableMount h fs₀ tr₀ ∧
      DirStream AnyAnswer 2 (fun t => x ∈ t.children 2) fs₀ tr₀ calls fs tr ∧ Finished calls ∧
      deliveries x calls = n := by
  obtain ⟨⟨h, fs₀, tr₀⟩, hrun, ht⟩ := (Option.any_eq_true _ _).mp ht
  obtain ⟨hx, ht⟩ := (Bool.and_eq_true _ _).mp ht
  obtain ⟨⟨calls, fs, tr⟩, hplay, ht⟩ := (Option.any_eq_true _ _).mp ht
  obtain ⟨hn, hlast⟩ := of_decide_eq_true ht
  have hserved : MountRun AnyAnswer writableMount h fs₀ tr₀ :=
    Served.serveAll (anyAnswer_of_script threeFiles) (fun _ _ _ _ _ => trivial) .start hrun
  have hs := DirStream.play (P := fun t => x ∈ t.children 2) (fun _ ht => of_decide_eq_true ht) hplay
    (.opened (of_decide_eq_true hx))
  obtain ⟨c, hc, hnil⟩ := Option.map_eq_some_iff.mp hlast
  obtain ⟨before, hbefore⟩ := List.getLast?_eq_some_iff.mp hc
  exact ⟨h, fs₀, tr₀, calls, fs, tr, hserved, hs, ⟨before, c, hbefore, hnil⟩, hn⟩

/-! ## Once, unless it crossed the offset -/

/-- How often a child that is in the directory throughout the stream is delivered. -/
theorem readdir_once_iff {E : Type} {R : Answers Call Answer E} {device : MtpDevice}
    {describe : String} {config : MtpFsConfig}
    {ok : List (Callback × Reply) → MtpFs → E → Callback → Prop} {h : List (Callback × Reply)}
    {fs₀ fs : MtpFs} {e₀ e₁ e : E} {p x : Nat} {calls : List DirCall}
    (hr : Served R dispatch ok (.new device describe config) e₀ h fs₀ e₁)
    (hs : DirStream R p (fun t => x ∈ t.children p) fs₀ e₁ calls fs e) (hf : Finished calls) :
    (deliveries x calls = 1 ↔
      skips (some x) [] 0 (looks p calls) = repeats (some x) [] 0 (looks p calls)) ∧
    (Steady [] 0 (looks p calls) → deliveries x calls = 1) := by
  have h₀ : (MtpFs.new device describe config).link.inodes.Listed := InodeTable.listed_new
  have hlisted := (linkInvariant_listed.mount.served h₀ hr).1
  have hstreams := hs.streamCalls hlisted
  obtain ⟨before, c, rfl, hnil⟩ := hf
  obtain ⟨hbefore, hl, hroom, hc⟩ := hstreams.last
  have hx : x ∈ c.inodes.children p := hs.holds c (List.mem_append_right before List.mem_cons_self)
  have hend : (⟨positions c.inodes p, c.room⟩ : Look (Option Nat)).taken
      (endPos 0 (looks p before)) = [] := by
    rw [← hbefore.looks.2, ← child?_entries hl hc, hnil]
    rfl
  have hiff := taken_eq_one_iff (some x) hroom hend (count_positions hl hx)
  have hlooks : looks p (before ++ [c]) = looks p before ++ [⟨positions c.inodes p, c.room⟩] := by
    simp [looks]
  rw [← hlooks, ← hstreams.looks.1] at hiff
  refine ⟨hiff, fun hsteady => hiff.mpr ?_⟩
  obtain ⟨hskips, hrepeats⟩ := hsteady.no_crossings (some x)
  rw [hskips, hrepeats]

theorem readdir_once_iff_unlinked : ∃ calls, Finished calls ∧ deliveries 5 calls = 1 ∧
    (deliveries 5 calls = 1 ↔
      skips (some 5) [] 0 (looks 2 calls) = repeats (some 5) [] 0 (looks 2 calls)) ∧
    (Steady [] 0 (looks 2 calls) → deliveries 5 calls = 1) := by
  obtain ⟨h, fs₀, tr₀, calls, fs, tr, hr, hs, hf, hn⟩ := DirStream.of_unlink 5 1 (by rfl)
  exact ⟨calls, hf, hn, readdir_once_iff hr hs hf⟩

/-- The second file is never delivered: it moved up when the first was unlinked. -/
theorem readdir_skips : ∃ h fs₀ tr₀ calls fs tr, MountRun AnyAnswer writableMount h fs₀ tr₀ ∧
    DirStream AnyAnswer 2 (fun t => 4 ∈ t.children 2) fs₀ tr₀ calls fs tr ∧ Finished calls ∧
    deliveries 4 calls = 0 := DirStream.of_unlink 4 0 (by rfl)

end MtpMount
