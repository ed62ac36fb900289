import MtpMount.Fs

/-!
# getattr and the order of the handles

`getattr` looks for a buffered size at the first handle of the inode that an
iteration of the open handles meets, and at no other.

* `getattr_run`: what it replies, for one order;
* `getattr_order_iff`: when the reply depends on the order.
-/

namespace MtpMount

open Interaction

/-- The mount, with its open handles iterated in the order of `m`. -/
def MtpFs.iterating (fs : MtpFs) (m : HashMap Nat Nat) : MtpFs :=
  { fs with files := { fs.files with fhToInode := m } }

/-- `getattr` replies these attributes at once, and changes nothing. -/
def RepliesAttr (fs : MtpFs) (ino : Nat) (attr : FileAttr) : Prop :=
  dispatch (.getattr ino) fs = Prog.done (.attr attr, fs)

/-- The handle is open on the inode. -/
abbrev MtpFs.IsOpenOn (fs : MtpFs) (ino fh : Nat) : Prop := fs.files.fhToInode.lookup fh = some ino

/-- The size that `getattr` takes from a handle of an inode: that of its buffer, else
that of the table. -/
def MtpFs.sizeAt (fs : MtpFs) (entry : InodeEntry) (fh : Nat) : Nat :=
  (fs.writeBuf.size fh).getD entry.size

/-! ## One order -/

/-- Only the first handle of the inode counts. -/
theorem bufferedSize_eq (w : WriteBuffer) (ino : Nat) (handles : List ((_ : Nat) × Nat)) :
    bufferedSize w ino handles =
      (handles.find? fun b => b.2 = ino).bind fun b => w.size b.1 := by
  induction handles with
  | nil => rfl
  | cons b rest ih =>
    rw [bufferedSize, List.find?_cons]
    by_cases h : b.2 = ino
    · rw [if_pos h, decide_eq_true h]
      rfl
    · rw [if_neg h, decide_eq_false h]
      exact ih

/-- What it replies for an inode that is there. -/
def getattrReply (fs : MtpFs) (ino : Nat) (entry : InodeEntry) : FileAttr :=
  match bufferedSize fs.writeBuf ino fs.files.fhToInode.entries with
  | some size => (inodeToFileAttr entry).withSize size
  | none => inodeToFileAttr entry

/-- `getattr` of the mount that it reads. -/
def getattrOf (fs : MtpFs) (ino : Nat) : FsM Reply :=
  match fs.link.inodes.get ino with
  | none => throw .enoent
  | some entry =>
    match bufferedSize fs.writeBuf ino fs.files.fhToInode.entries with
    | some size => pure (.attr ((inodeToFileAttr entry).withSize size))
    | none => pure (.attr (inodeToFileAttr entry))

/-- What `dispatch` makes of the outcome of a callback. -/
def replyOf : Except Errno Reply → Act Call Answer MtpFs Reply
  | .ok reply => pure reply
  | .error e => pure (.error e)

theorem getattr_run (fs : MtpFs) (ino : Nat) :
    dispatch (.getattr ino) fs = Prog.done
      (match fs.link.inodes.get ino with
        | none => .error .enoent
        | some entry => .attr (getattrReply fs ino entry), fs) := by
  have hdispatch : dispatch (.getattr ino) fs =
      ((getattrOf fs ino).run fs).bind fun r => replyOf r.1 r.2 := rfl
  rw [hdispatch]
  unfold getattrOf getattrReply
  split
  · rfl
  · split <;> rfl

theorem size_getattrReply (fs : MtpFs) (ino : Nat) (entry : InodeEntry) :
    (getattrReply fs ino entry).size =
      (((fs.files.fhToInode.entries.find? fun b => b.2 = ino).map fun b =>
        fs.sizeAt entry b.1)).getD entry.size := by
  unfold getattrReply MtpFs.sizeAt
  rw [bufferedSize_eq]
  cases fs.files.fhToInode.entries.find? fun b => b.2 = ino with
  | none => rfl
  | some b => cases hs : fs.writeBuf.size b.1 <;> simp [hs, FileAttr.withSize, inodeToFileAttr]

/-- A reply of `getattr` for some order of the handles. -/
theorem repliesAttr_iff {fs : MtpFs} {ino : Nat} {m : HashMap Nat Nat} {attr : FileAttr} :
    RepliesAttr (fs.iterating m) ino attr ↔ ∃ entry, fs.link.inodes.get ino = some entry ∧
      attr = getattrReply (fs.iterating m) ino entry := by
  unfold RepliesAttr
  rw [getattr_run]
  show Prog.done (match fs.link.inodes.get ino with
    | none => Reply.error .enoent
    | some entry => .attr (getattrReply (fs.iterating m) ino entry), _) = _ ↔ _
  cases fs.link.inodes.get ino with
  | none => exact ⟨nofun, nofun⟩
  | some entry =>
    constructor
    · intro h
      cases h
      exact ⟨entry, rfl, rfl⟩
    · rintro ⟨entry', he, rfl⟩
      cases he
      rfl

/-! ## Every order -/

/-- `m` is an order of the open handles. -/
def MtpFs.OrderOf (fs : MtpFs) (m : HashMap Nat Nat) : Prop :=
  m.entries.Perm fs.files.fhToInode.entries

section Order

variable {fs : MtpFs} {ino fh : Nat} {m : HashMap Nat Nat}

/-- The size is that of some open handle, when there is one. -/
theorem size_of_order (entry : InodeEntry) (hm : fs.OrderOf m) (hopen : fs.IsOpenOn ino fh) :
    ∃ fh₁, fs.IsOpenOn ino fh₁ ∧
      (getattrReply (fs.iterating m) ino entry).size = fs.sizeAt entry fh₁ := by
  rw [size_getattrReply]
  have hmem : (⟨fh, ino⟩ : (_ : Nat) × Nat) ∈ m.entries :=
    hm.mem_iff.mpr (HashMap.lookup_eq_some_iff.mp hopen)
  show ∃ fh₁, fs.IsOpenOn ino fh₁ ∧ (((m.entries.find? fun b => b.2 = ino).map fun b =>
    fs.sizeAt entry b.1)).getD entry.size = _
  cases hf : m.entries.find? fun b => b.2 = ino with
  | none => exact absurd (decide_eq_true rfl) (List.find?_eq_none.mp hf _ hmem)
  | some b =>
    have hfound := List.find?_some hf
    have hb : b.2 = ino := of_decide_eq_true hfound
    have hin : (⟨b.1, ino⟩ : (_ : Nat) × Nat) ∈ fs.files.fhToInode.entries :=
      hb ▸ hm.mem_iff.mp (List.mem_of_find?_eq_some hf)
    exact ⟨b.1, HashMap.lookup_eq_some_iff.mpr hin, rfl⟩

/-- Without an open handle it is the size in the table. -/
theorem size_of_closed {entry : InodeEntry} (hm : fs.OrderOf m)
    (hclosed : ∀ fh, ¬ fs.IsOpenOn ino fh) :
    (getattrReply (fs.iterating m) ino entry).size = entry.size := by
  rw [size_getattrReply]
  show ((m.entries.find? fun b => decide (b.2 = ino)).map fun b => fs.sizeAt entry b.1).getD
    entry.size = entry.size
  rw [List.find?_eq_none.mpr]
  · rfl
  · intro b hb hino
    have hin := hm.mem_iff.mp hb
    rw [show b = ⟨b.1, ino⟩ by rw [← of_decide_eq_true hino]] at hin
    exact hclosed b.1 (HashMap.lookup_eq_some_iff.mpr hin)

/-- Every open handle is the first one in some order. -/
theorem exists_order (entry : InodeEntry) (hopen : fs.IsOpenOn ino fh) : ∃ m, fs.OrderOf m ∧
    (getattrReply (fs.iterating m) ino entry).size = fs.sizeAt entry fh := by
  obtain ⟨m, rest, hperm, hfront⟩ := HashMap.exists_front hopen
  refine ⟨m, hperm, ?_⟩
  rw [size_getattrReply]
  show (((m.entries.find? fun b => b.2 = ino).map fun b => fs.sizeAt entry b.1)).getD entry.size = _
  rw [hfront, List.find?_cons, decide_eq_true rfl]
  rfl

end Order

/-- The size that `getattr` replies does not depend on the order of the handles. -/
def OneSize (fs : MtpFs) (ino : Nat) : Prop :=
  ∀ m₁ m₂, fs.OrderOf m₁ → fs.OrderOf m₂ → ∀ attr₁ attr₂,
    RepliesAttr (fs.iterating m₁) ino attr₁ → RepliesAttr (fs.iterating m₂) ino attr₂ →
    attr₁.size = attr₂.size

/-- Where one open handle of the inode has a buffer, and no other, it is the length
of that. -/
def BufferedSize (fs : MtpFs) (ino : Nat) : Prop :=
  ∀ fh b, fs.IsOpenOn ino fh → fs.writeBuf.buffers.lookup fh = some b →
    (∀ fh', fs.IsOpenOn ino fh' → fs.writeBuf.isOpen fh' = true → fh' = fh) →
    ∀ m, fs.OrderOf m → ∀ attr, RepliesAttr (fs.iterating m) ino attr → attr.size = b.len

/-- When both hold: all open handles of the inode have buffers of one length, the
table's own size standing for a missing one. -/
theorem getattr_order_iff (fs : MtpFs) (ino : Nat) :
    OneSize fs ino ∧ BufferedSize fs ino ↔
      ∀ entry, fs.link.inodes.get ino = some entry → ∀ fh fh', fs.IsOpenOn ino fh →
        fs.IsOpenOn ino fh' → fs.sizeAt entry fh = fs.sizeAt entry fh' := by
  constructor
  · rintro ⟨hone, -⟩ entry he fh fh' hfh hfh'
    obtain ⟨m, hm, hsize⟩ := exists_order entry hfh
    obtain ⟨m', hm', hsize'⟩ := exists_order entry hfh'
    have heq := hone m m' hm hm' _ _ (repliesAttr_iff.mpr ⟨entry, he, rfl⟩)
      (repliesAttr_iff.mpr ⟨entry, he, rfl⟩)
    rwa [hsize, hsize'] at heq
  · intro hsame
    constructor
    · intro m₁ m₂ hm₁ hm₂ attr₁ attr₂ hr₁ hr₂
      obtain ⟨entry, he, rfl⟩ := repliesAttr_iff.mp hr₁
      obtain ⟨entry', he', rfl⟩ := repliesAttr_iff.mp hr₂
      obtain rfl := Option.some.inj (he.symm.trans he')
      by_cases hopen : ∃ fh, fs.IsOpenOn ino fh
      · obtain ⟨fh, hfh⟩ := hopen
        obtain ⟨fh₁, hopen₁, hsize₁⟩ := size_of_order entry hm₁ hfh
        obtain ⟨fh₂, hopen₂, hsize₂⟩ := size_of_order entry hm₂ hfh
        rw [hsize₁, hsize₂]
        exact hsame entry he fh₁ fh₂ hopen₁ hopen₂
      · have hclosed : ∀ fh, ¬ fs.IsOpenOn ino fh := fun fh hfh => hopen ⟨fh, hfh⟩
        rw [size_of_closed hm₁ hclosed, size_of_closed hm₂ hclosed]
    · intro fh b hfh hb _ m hm attr hr
      obtain ⟨entry, he, rfl⟩ := repliesAttr_iff.mp hr
      obtain ⟨fh₁, hopen₁, hsize₁⟩ := size_of_order entry hm hfh
      rw [hsize₁, hsame entry he fh₁ fh hopen₁ hfh]
      unfold MtpFs.sizeAt WriteBuffer.size
      rw [hb]
      rfl

/-- A phone with a file of three bytes. -/
def threeByteFile (_ : List Event) : (c : Call) → Option (Answer c)
  | .storages _ => some (.ok [⟨⟨1⟩, "Card", 100, 50⟩])
  | .listObjects .. => some (.ok [⟨⟨7⟩, "a", false, 3, none⟩])
  | c => undisturbed c

/-- The file is open for reading and for writing, and five bytes of it are written: the
one order gives the length of the buffer, the other the size in the table. -/
theorem getattr_two_sizes : ∃ h fs tr, MountRun AnyAnswer writableMount h fs tr ∧
    ¬ OneSize fs 3 ∧ ¬ BufferedSize fs 3 := by
  obtain ⟨h, fs, tr, hr, ht⟩ := MountRun.of_test (anyAnswer_of_script threeByteFile) writableMount
    [.init, .lookup 2 (some "a"), .openFile 3 .readOnly, .openFile 3 .writeOnly,
      .write 3 2 0 [1, 2, 3, 4, 5]]
    (fun fs _ => decide (fs.IsOpenOn 3 1 ∧ fs.IsOpenOn 3 2) &&
      (fs.link.inodes.get 3).any fun entry =>
        decide (fs.sizeAt entry 1 = 3 ∧ fs.sizeAt entry 2 = 5 ∧ fs.writeBuf.buffers.keys = [2] ∧
          (fs.writeBuf.size 2) = some 5))
    (by rfl)
  obtain ⟨hopen, ht⟩ := (Bool.and_eq_true _ _).mp ht
  obtain ⟨hopen₁, hopen₂⟩ := of_decide_eq_true hopen
  obtain ⟨entry, he, ht⟩ := (Option.any_eq_true _ _).mp ht
  obtain ⟨hsize₁, hsize₂, hkeys, hbuf⟩ := of_decide_eq_true ht
  obtain ⟨m₁, hm₁, hfirst₁⟩ := exists_order entry hopen₁
  obtain ⟨m₂, hm₂, hfirst₂⟩ := exists_order entry hopen₂
  have hr₁ : RepliesAttr (fs.iterating m₁) 3 _ := repliesAttr_iff.mpr ⟨entry, he, rfl⟩
  have hr₂ : RepliesAttr (fs.iterating m₂) 3 _ := repliesAttr_iff.mpr ⟨entry, he, rfl⟩
  refine ⟨h, fs, tr, hr, fun hone => ?_, fun hbuffered => ?_⟩
  · have heq := hone m₁ m₂ hm₁ hm₂ _ _ hr₁ hr₂
    omega
  · obtain ⟨b, hb, hlen⟩ := Option.map_eq_some_iff.mp hbuf
    have heq := hbuffered 2 b hopen₂ hb (fun fh' _ hfh' => by
      have hmem : fh' ∈ fs.writeBuf.buffers.keys :=
        AList.mem_keys.mpr (AList.lookup_isSome.mp hfh')
      rw [hkeys] at hmem
      exact List.mem_singleton.mp hmem) m₁ hm₁ _ hr₁
    omega

end MtpMount
