import Mathlib.Data.List.Lex
import Mathlib.Data.Prod.Lex
import Mathlib.Data.String.Basic
import MtpMount.DeviceFacts

/-!
# The mounts of the daemon

The loop of the supervisor taken one command at a time: which entry each arrival
makes and each departure takes out, and at which path.

* `Supervisor.follows`: under every schedule, the supervisor's map is the one
  that this loop makes of the changes the watch has sent, in the order sent;
* `departure_own_key`: a departure takes down a mount that was made for a device
  with its key;
* `departure_own`: it is its own device's, if no other device with its key is
  plugged in when a device leaves;
* `departure_other`: two devices that report one serial.
-/

namespace MtpMount

/-! ## Paths -/

/-- A component of a path, in the order in which components compare. -/
inductive Component where
  | rootDir
  | curDir
  | parentDir
  | normal (name : String)
  deriving DecidableEq, Repr

namespace Component

def rank : Component → Nat ×ₗ String
  | .rootDir => toLex (0, "")
  | .curDir => toLex (1, "")
  | .parentDir => toLex (2, "")
  | .normal name => toLex (3, name)

theorem rank_injective : Function.Injective rank := by
  intro a b h
  cases a <;> cases b <;> simp_all [rank]

instance : LinearOrder Component := LinearOrder.lift' rank rank_injective

end Component

/-- A path is what it compares by: its components. -/
abbrev PathBuf := List Component

/-- Joins a name that is one component. -/
def PathBuf.join (p : PathBuf) (name : String) : PathBuf := p ++ [.normal name]

/-! ## The loop -/

/-- One device's mount, and where it is. -/
structure DeviceMount where
  path : PathBuf
  label : String
  session : Nat
  deriving DecidableEq

/-- What a command came to. -/
inductive Effect where
  | mounted (session : Nat) (path : PathBuf)
  /-- A device with its key is mounted already. -/
  | ignored
  | failed
  | unmounted (session : Nat) (path : PathBuf)
  | nothing
  deriving DecidableEq

structure MountTable where
  mountRoot : PathBuf
  mounts : HashMap String DeviceMount
  nextSession : Nat

namespace MountTable

def new (mountRoot : PathBuf) : MountTable := ⟨mountRoot, ∅, 0⟩

def mount (t : MountTable) (ident : DeviceIdent) (outcome : Outcome) : MountTable × Effect :=
  match t.mounts.lookup ident.key with
  | some _ => (t, .ignored)
  | none =>
    let path := t.mountRoot.join ident.key
    match outcome with
    | .spawned =>
      ({ t with
        mounts := t.mounts.insert ident.key ⟨path, ident.label, t.nextSession⟩
        nextSession := t.nextSession + 1 }, .mounted t.nextSession path)
    | _ => (t, .failed)

def unmount (t : MountTable) (key : String) : MountTable × Effect :=
  match t.mounts.lookup key with
  | none => (t, .nothing)
  | some mount =>
    ({ t with mounts := t.mounts.erase key }, .unmounted mount.session mount.path)

end MountTable

/-- What the loop has dealt with, with the devices as the watch tells them apart. -/
inductive Handled (Device : Type) where
  | arrived (device : Device) (outcome : Outcome)
  | left (device : Device)
  /-- A give-up, or the end of the daemon. -/
  | unmount (key : String)
  deriving DecidableEq

variable {Device : Type}

def MountTable.handle (ident : Device → DeviceIdent) (t : MountTable) :
    Handled Device → MountTable × Effect
  | .arrived device outcome => t.mount (ident device) outcome
  | .left device => t.unmount (ident device).key
  | .unmount key => t.unmount key

/-- What was dealt with and what came of it, in order. -/
abbrev Log (Device : Type) := List (Handled Device × Effect)

def MountTable.logged (ident : Device → DeviceIdent) (r : MountTable × Log Device)
    (x : Handled Device) : MountTable × Log Device :=
  ((r.1.handle ident x).1, r.2 ++ [(x, (r.1.handle ident x).2)])

/-- The loop from its start. -/
def MountTable.run (ident : Device → DeviceIdent) (mountRoot : PathBuf) (xs : List (Handled Device)) :
    MountTable × Log Device :=
  xs.foldl (logged ident) (.new mountRoot, [])

namespace MountTable

variable {ident : Device → DeviceIdent} {mountRoot : PathBuf}

@[simp] theorem run_nil : run ident mountRoot [] = (.new mountRoot, []) := rfl

@[simp] theorem run_concat (xs : List (Handled Device)) (x : Handled Device) :
    run ident mountRoot (xs ++ [x]) = logged ident (run ident mountRoot xs) x :=
  List.foldl_concat ..

/-! ## Which device a mount was made for -/

/-- Every mount, and every one taken down, is accounted for by an arrival in the log. -/
structure Accounted (ident : Device → DeviceIdent) (r : MountTable × Log Device) : Prop where
  live : ∀ key m, r.1.mounts.lookup key = some m →
    ∃ d o, (.arrived d o, .mounted m.session m.path) ∈ r.2 ∧ (ident d).key = key
  fresh : ∀ x n p, (x, .mounted n p) ∈ r.2 → n < r.1.nextSession
  once : ∀ x n p x' p', (x, .mounted n p) ∈ r.2 → (x', .mounted n p') ∈ r.2 → x = x'
  taken : ∀ d n p, (.left d, .unmounted n p) ∈ r.2 →
    ∃ d' o, (.arrived d' o, .mounted n p) ∈ r.2 ∧ (ident d').key = (ident d).key

variable {r : MountTable × Log Device}

theorem accounted_new : Accounted ident (.new mountRoot, []) where
  live := fun key m h => by simp [new] at h
  fresh := fun _ _ _ h => nomatch h
  once := fun _ _ _ _ _ h => nomatch h
  taken := fun _ _ _ h => nomatch h

/-- Nothing was mounted, and if something was taken down, it was the entry of a
key, for a departure of that key. -/
theorem Accounted.fewer (h : Accounted ident r) {t : MountTable} {x : Handled Device} {e : Effect}
    (hm : ∀ key m, t.mounts.lookup key = some m → r.1.mounts.lookup key = some m)
    (hn : t.nextSession = r.1.nextSession) (he : ∀ n p, e ≠ .mounted n p)
    (ht : ∀ d n p, x = .left d → e = .unmounted n p →
      ∃ m, r.1.mounts.lookup (ident d).key = some m ∧ m.session = n ∧ m.path = p) :
    Accounted ident (t, r.2 ++ [(x, e)]) := by
  have hold : ∀ y n p, (y, Effect.mounted n p) ∈ r.2 ++ [(x, e)] → (y, .mounted n p) ∈ r.2 := by
    intro y n p hy
    rcases List.mem_append.mp hy with hy | hy
    · exact hy
    · cases List.mem_singleton.mp hy
      exact absurd rfl (he n p)
  constructor
  · intro key m hl
    obtain ⟨d, o, hd, hk⟩ := h.live key m (hm key m hl)
    exact ⟨d, o, List.mem_append_left _ hd, hk⟩
  · intro y n p hy
    exact hn ▸ h.fresh y n p (hold y n p hy)
  · intro y n p y' p' hy hy'
    exact h.once y n p y' p' (hold y n p hy) (hold y' n p' hy')
  · intro d n p hd
    rcases List.mem_append.mp hd with hd | hd
    · obtain ⟨d', o, hd', hk⟩ := h.taken d n p hd
      exact ⟨d', o, List.mem_append_left _ hd', hk⟩
    · cases List.mem_singleton.mp hd
      obtain ⟨m, hl, rfl, rfl⟩ := ht d n p rfl rfl
      obtain ⟨d', o, hd', hk⟩ := h.live _ m hl
      exact ⟨d', o, List.mem_append_left _ hd', hk⟩

theorem Accounted.unmount (h : Accounted ident r) (x : Handled Device) (key : String)
    (hx : ∀ d, x = .left d → (ident d).key = key) :
    Accounted ident ((r.1.unmount key).1, r.2 ++ [(x, (r.1.unmount key).2)]) := by
  unfold MountTable.unmount
  split
  · exact h.fewer (fun _ _ hl => hl) rfl (by simp) (by simp)
  · rename_i m hl
    refine h.fewer (fun k m' hl' => ?_) rfl (by simp) fun d n p hd he => ?_
    · dsimp only at hl'
      rw [HashMap.lookup_erase] at hl'
      split at hl'
      · cases hl'
      · exact hl'
    · cases he
      exact ⟨m, by rw [hx d hd, hl], rfl, rfl⟩

theorem Accounted.mount (h : Accounted ident r) (d : Device) (outcome : Outcome) :
    Accounted ident ((r.1.mount (ident d) outcome).1,
      r.2 ++ [(.arrived d outcome, (r.1.mount (ident d) outcome).2)]) := by
  unfold MountTable.mount
  split
  · exact h.fewer (fun _ _ hl => hl) rfl (by simp) (by simp)
  · dsimp only
    split
    · constructor
      · intro key m hl
        dsimp only at hl
        rw [HashMap.lookup_insert] at hl
        split at hl
        · rename_i hk
          cases hl
          exact ⟨d, .spawned, by simp, hk.symm⟩
        · obtain ⟨d', o, hd', hk⟩ := h.live key m hl
          exact ⟨d', o, List.mem_append_left _ hd', hk⟩
      · intro y n p hy
        rcases List.mem_append.mp hy with hy | hy
        · exact Nat.lt_succ_of_lt (h.fresh y n p hy)
        · cases List.mem_singleton.mp hy
          exact Nat.lt_succ_self _
      · intro y n p y' p' hy hy'
        rcases List.mem_append.mp hy with hy | hy <;> rcases List.mem_append.mp hy' with hy' | hy'
        · exact h.once y n p y' p' hy hy'
        · cases List.mem_singleton.mp hy'
          exact absurd (h.fresh y _ p hy) (Nat.lt_irrefl _)
        · cases List.mem_singleton.mp hy
          exact absurd (h.fresh y' _ p' hy') (Nat.lt_irrefl _)
        · cases List.mem_singleton.mp hy
          cases List.mem_singleton.mp hy'
          rfl
      · intro d' n p hd'
        rcases List.mem_append.mp hd' with hd' | hd'
        · obtain ⟨d'', o, hd'', hk⟩ := h.taken d' n p hd'
          exact ⟨d'', o, List.mem_append_left _ hd'', hk⟩
        · cases List.mem_singleton.mp hd'
    · exact h.fewer (fun _ _ hl => hl) rfl (by simp) (by simp)

theorem Accounted.logged (h : Accounted ident r) (x : Handled Device) :
    Accounted ident (logged ident r x) := by
  cases x with
  | arrived d outcome => exact h.mount d outcome
  | left d => exact h.unmount (.left d) (ident d).key (by simp)
  | unmount key => exact h.unmount (.unmount key) key (by simp)

variable (ident mountRoot) in
theorem run_accounted (xs : List (Handled Device)) : Accounted ident (run ident mountRoot xs) := by
  induction xs using List.reverseRecOn with
  | nil => exact accounted_new
  | append_singleton xs x ih =>
    rw [run_concat]
    exact ih.logged x

/-- A departure takes down a mount that was made for a device with its key. -/
theorem departure_own_key {xs : List (Handled Device)} {d d' : Device} {o : Outcome} {n : Nat}
    {p p' : PathBuf} (hd : (.arrived d o, .mounted n p) ∈ (run ident mountRoot xs).2)
    (hd' : (.left d', .unmounted n p') ∈ (run ident mountRoot xs).2) :
    (ident d').key = (ident d).key := by
  have h := run_accounted ident mountRoot xs
  obtain ⟨d'', o', hd'', hk⟩ := h.taken d' n p' hd'
  cases h.once _ n p _ p' hd hd''
  exact hk.symm

end MountTable

open MountTable

/-! ## Devices with one key -/

/-- The devices that are plugged in after one more command. -/
def Handled.plugged (ds : List DeviceFacts) : Handled DeviceFacts → List DeviceFacts
  | .arrived d _ => d :: ds.filter fun d' => d'.address ≠ d.address
  | .left d => ds.filter fun d' => d'.address ≠ d.address
  | .unmount _ => ds

/-- The devices that are plugged in after these commands. -/
def pluggedIn (xs : List (Handled DeviceFacts)) : List DeviceFacts := xs.foldl Handled.plugged []

@[simp] theorem pluggedIn_concat (xs : List (Handled DeviceFacts)) (x : Handled DeviceFacts) :
    pluggedIn (xs ++ [x]) = x.plugged (pluggedIn xs) := List.foldl_concat ..

/-- Whatever is plugged in with the key of a device that leaves, is that device. -/
def Handled.LeavesAlone (ds : List DeviceFacts) : Handled DeviceFacts → Prop
  | .left d => ∀ d' ∈ ds, d'.key = d.key → d'.address = d.address
  | _ => True

instance (ds : List DeviceFacts) : (x : Handled DeviceFacts) → Decidable (x.LeavesAlone ds)
  | .left d => inferInstanceAs (Decidable (∀ d' ∈ ds, d'.key = d.key → d'.address = d.address))
  | .arrived .. | .unmount _ => instDecidableTrue

/-- No device leaves while another one with its key is plugged in. -/
def LeaveAlone (xs : List (Handled DeviceFacts)) : Prop :=
  ∀ n, (h : n < xs.length) → (xs[n]).LeavesAlone (pluggedIn (xs.take n))

theorem LeaveAlone.concat {xs : List (Handled DeviceFacts)} {x : Handled DeviceFacts}
    (h : LeaveAlone (xs ++ [x])) : LeaveAlone xs ∧ x.LeavesAlone (pluggedIn xs) := by
  constructor
  · intro n hn
    have hprefix := h n (by rw [List.length_append]; omega)
    rw [List.getElem_append_left hn, List.take_append_of_le_length (by omega)] at hprefix
    exact hprefix
  · have hlast := h xs.length (by simp)
    rw [List.getElem_concat_length (by rfl), List.take_left] at hlast
    exact hlast

/-- The device of that address is plugged in. -/
def IsPlugged (ds : List DeviceFacts) (d : DeviceFacts) : Prop := ∃ d' ∈ ds, d'.address = d.address

theorem IsPlugged.arrived {ds : List DeviceFacts} {d : DeviceFacts} (h : IsPlugged ds d)
    (d₁ : DeviceFacts) (o : Outcome) : IsPlugged ((Handled.arrived d₁ o).plugged ds) d := by
  obtain ⟨d', hd', ha⟩ := h
  by_cases hsame : d'.address = d₁.address
  · exact ⟨d₁, List.mem_cons_self, hsame.symm.trans ha⟩
  · exact ⟨d', List.mem_cons_of_mem _ (List.mem_filter.mpr ⟨hd', decide_eq_true hsame⟩), ha⟩

/-- A device of another key stays. -/
theorem IsPlugged.left {ds : List DeviceFacts} {d d₁ : DeviceFacts} (h : IsPlugged ds d)
    (hkey : d.key ≠ d₁.key) : IsPlugged ((Handled.left d₁).plugged ds) d := by
  obtain ⟨d', hd', ha⟩ := h
  refine ⟨d', List.mem_filter.mpr ⟨hd', decide_eq_true fun hsame => hkey ?_⟩, ha⟩
  exact DeviceFacts.key_of_address (ha.symm.trans hsame)

/-- Every mount is of a device that is plugged in, and every departure took down the
mount of its own device. -/
structure Owned (ds : List DeviceFacts) (r : MountTable × Log DeviceFacts) : Prop where
  live : ∀ key m, r.1.mounts.lookup key = some m →
    ∃ d o, (.arrived d o, .mounted m.session m.path) ∈ r.2 ∧ d.key = key ∧ IsPlugged ds d
  taken : ∀ d n p, (.left d, .unmounted n p) ∈ r.2 →
    ∃ d' o, (.arrived d' o, .mounted n p) ∈ r.2 ∧ d'.address = d.address

namespace Owned

variable {ds : List DeviceFacts} {r : MountTable × Log DeviceFacts}

theorem new (mountRoot : PathBuf) : Owned [] (.new mountRoot, []) where
  live := fun key m h => by simp [MountTable.new] at h
  taken := fun _ _ _ h => nomatch h

/-- The log is longer, and nothing else was taken down for a departure. -/
theorem step (h : Owned ds r) {ds' : List DeviceFacts} {t : MountTable} {x : Handled DeviceFacts}
    {e : Effect}
    (hlive : ∀ key m, t.mounts.lookup key = some m →
      (∃ d o, (.arrived d o, .mounted m.session m.path) ∈ r.2 ++ [(x, e)] ∧ d.key = key ∧
        IsPlugged ds' d))
    (htaken : ∀ d n p, x = .left d → e = .unmounted n p →
      ∃ d' o, (.arrived d' o, .mounted n p) ∈ r.2 ∧ d'.address = d.address) :
    Owned ds' (t, r.2 ++ [(x, e)]) where
  live := hlive
  taken := by
    intro d n p hd
    rcases List.mem_append.mp hd with hd | hd
    · obtain ⟨d', o, hd', ha⟩ := h.taken d n p hd
      exact ⟨d', o, List.mem_append_left _ hd', ha⟩
    · cases List.mem_singleton.mp hd
      obtain ⟨d', o, hd', ha⟩ := htaken d n p rfl rfl
      exact ⟨d', o, List.mem_append_left _ hd', ha⟩

theorem arrived (h : Owned ds r) (d : DeviceFacts) (outcome : Outcome) :
    Owned ((Handled.arrived d outcome).plugged ds)
      (logged DeviceFacts.ident r (.arrived d outcome)) := by
  have hold : ∀ {e : Effect} {key : String} {m : DeviceMount},
      r.1.mounts.lookup key = some m → ∃ d' o, (.arrived d' o, .mounted m.session m.path) ∈
        r.2 ++ [(.arrived d outcome, e)] ∧ d'.key = key ∧
        IsPlugged ((Handled.arrived d outcome).plugged ds) d' := by
    intro e key m hl
    obtain ⟨d', o, hd', hk, hp⟩ := h.live key m hl
    exact ⟨d', o, List.mem_append_left _ hd', hk, hp.arrived d outcome⟩
  show Owned _ ((r.1.mount d.ident outcome).1, r.2 ++ [(_, (r.1.mount d.ident outcome).2)])
  unfold MountTable.mount
  split
  · exact h.step (fun _ _ hl => hold hl) (by simp)
  · dsimp only
    split
    · refine h.step (fun key m hl => ?_) (by simp)
      dsimp only at hl
      rw [HashMap.lookup_insert] at hl
      split at hl
      · rename_i hk
        cases hl
        exact ⟨d, .spawned, by simp, hk.symm, d, List.mem_cons_self, rfl⟩
      · exact hold hl
    · exact h.step (fun _ _ hl => hold hl) (by simp)

theorem unmount (h : Owned ds r) (x : Handled DeviceFacts) (key : String)
    (hplugged : ∀ d, IsPlugged ds d → d.key ≠ key → IsPlugged (x.plugged ds) d)
    (hown : ∀ d, x = .left d → d.key = key ∧ ∀ d', IsPlugged ds d' → d'.key = key →
      d'.address = d.address) :
    Owned (x.plugged ds) ((r.1.unmount key).1, r.2 ++ [(x, (r.1.unmount key).2)]) := by
  unfold MountTable.unmount
  split
  · rename_i hl
    refine h.step (fun k m hm => ?_) (by simp)
    obtain ⟨d, o, hd, hk, hp⟩ := h.live k m hm
    refine ⟨d, o, List.mem_append_left _ hd, hk, hplugged d hp ?_⟩
    rintro rfl
    rw [hk, hm] at hl
    cases hl
  · rename_i mount hl
    refine h.step (fun k m hm => ?_) fun d n p hx he => ?_
    · dsimp only at hm
      rw [HashMap.lookup_erase] at hm
      split at hm
      · cases hm
      · rename_i hne
        obtain ⟨d, o, hd, rfl, hp⟩ := h.live k m hm
        exact ⟨d, o, List.mem_append_left _ hd, rfl, hplugged d hp hne⟩
    · cases he
      obtain ⟨d', o, hd', hk, hp⟩ := h.live key mount hl
      exact ⟨d', o, hd', (hown d hx).2 d' hp hk⟩

theorem logged (h : Owned ds r) {x : Handled DeviceFacts} (hx : x.LeavesAlone ds) :
    Owned (x.plugged ds) (MountTable.logged DeviceFacts.ident r x) := by
  cases x with
  | arrived d outcome => exact h.arrived d outcome
  | left d =>
    refine h.unmount (.left d) d.key (fun _ hp hne => hp.left hne) fun d₁ hd₁ => ?_
    cases hd₁
    refine ⟨rfl, ?_⟩
    rintro d' ⟨d₂, hd₂, ha⟩ hk
    exact ha.symm.trans (hx d₂ hd₂ ((DeviceFacts.key_of_address ha).trans hk))
  | unmount key => exact h.unmount (.unmount key) key (fun _ hp _ => hp) (by simp)

end Owned

/-- In a run in which devices leave alone. -/
theorem run_owned (mountRoot : PathBuf) {xs : List (Handled DeviceFacts)} (h : LeaveAlone xs) :
    Owned (pluggedIn xs) (run DeviceFacts.ident mountRoot xs) := by
  induction xs using List.reverseRecOn with
  | nil => exact .new mountRoot
  | append_singleton xs x ih =>
    rw [run_concat, pluggedIn_concat]
    exact (ih h.concat.1).logged h.concat.2

/-- A departure takes down its own device's mount only, if no device leaves while
another one with its key is plugged in. -/
theorem departure_own {mountRoot : PathBuf} {xs : List (Handled DeviceFacts)} (hk : LeaveAlone xs)
    {d d' : DeviceFacts} {o : Outcome} {n : Nat} {p p' : PathBuf}
    (hd : (.arrived d o, .mounted n p) ∈ (run DeviceFacts.ident mountRoot xs).2)
    (hd' : (.left d', .unmounted n p') ∈ (run DeviceFacts.ident mountRoot xs).2) :
    d'.address = d.address := by
  obtain ⟨d₁, o₁, hd₁, ha⟩ := (run_owned mountRoot hk).taken d' n p' hd'
  cases (run_accounted DeviceFacts.ident mountRoot xs).once _ n p _ p' hd hd₁
  exact ha.symm

/-- A player, and another one with its serial in another port. -/
def player : DeviceFacts := ⟨some " PL-7 ", 0x0bb4, 0x0c02, 6, "Player"⟩
def otherPlayer : DeviceFacts := { player with locationId := 7 }

/-- One after the other, they are never plugged in together. -/
def oneAfterAnother : List (Handled DeviceFacts) :=
  [.arrived player .spawned, .left player, .arrived otherPlayer .spawned,
    .left { otherPlayer with label := "" }]

theorem departure_own_players : ∃ n p p',
    (.arrived otherPlayer .spawned, .mounted n p) ∈
        (run DeviceFacts.ident [.rootDir] oneAfterAnother).2 ∧
      (.left { otherPlayer with label := "" }, .unmounted n p') ∈
        (run DeviceFacts.ident [.rootDir] oneAfterAnother).2 ∧
      { otherPlayer with label := "" }.address = otherPlayer.address ∧
      otherPlayer.key = player.key := by
  have hk : LeaveAlone oneAfterAnother := by
    unfold LeaveAlone
    decide +kernel
  have hmount : (.arrived otherPlayer .spawned, .mounted 1 [.rootDir, .normal "PL-7"]) ∈
      (run DeviceFacts.ident [.rootDir] oneAfterAnother).2 := by decide +kernel
  have hgone : (.left { otherPlayer with label := "" },
      .unmounted 1 [.rootDir, .normal "PL-7"]) ∈
      (run DeviceFacts.ident [.rootDir] oneAfterAnother).2 := by decide +kernel
  exact ⟨1, _, _, hmount, hgone, departure_own hk hmount hgone, by decide +kernel⟩

/-- Two players that report one serial: the second one is ignored, and takes the
first one's mount down when it leaves. -/
theorem departure_other : ∃ (xs : List (Handled DeviceFacts)) (d d' : DeviceFacts) (n : Nat)
    (p : PathBuf), (.arrived d .spawned, .mounted n p) ∈ (run DeviceFacts.ident [.rootDir] xs).2 ∧
      (.left d', .unmounted n p) ∈ (run DeviceFacts.ident [.rootDir] xs).2 ∧
      d'.address ≠ d.address := by
  refine ⟨[.arrived player .spawned, .arrived otherPlayer .spawned, .left otherPlayer], player,
    otherPlayer, 0, [.rootDir, .normal "PL-7"], ?_⟩
  decide

/-! ## The supervisor's thread -/

def DeviceMount.active (m : DeviceMount) : ActiveMount := ⟨m.label, m.session⟩

def Handled.change? : Handled DeviceIdent → Option DeviceChange
  | .arrived ident _ => some (.arrived ident)
  | .left ident => some (.left ident)
  | .unmount _ => none

def Command.change? : Command → Option DeviceChange
  | .device change => some change
  | _ => none

def Turn.change? : Turn → Option DeviceChange
  | .hotplug change => some change
  | _ => none

/-- The arrival that the supervisor's thread is busy with. -/
def Phase.pending : Phase → Option DeviceIdent
  | .opening ident | .entering ident _ => some ident
  | _ => none

namespace Supervisor

/-- A step, with the changes that the watch has sent so far. -/
def watched (r : Supervisor × List DeviceChange) (t : Turn) :
    Option (Supervisor × List DeviceChange) :=
  (r.1.step t).map fun s => (s, r.2 ++ t.change?.toList)

/-- The loop has handled `xs`: its map is the supervisor's, and `xs` are the
changes sent, as far as they are neither in the channel nor being dealt with. -/
structure Follows (mountRoot : PathBuf) (s : Supervisor) (sent : List DeviceChange)
    (xs : List (Handled DeviceIdent)) : Prop where
  mounts : ∀ key, s.mounts.lookup key =
    ((run id mountRoot xs).1.mounts.lookup key).map DeviceMount.active
  next : s.nextSession = (run id mountRoot xs).1.nextSession + s.phase.entered.toList.length
  entered : ∀ e ∈ s.phase.entered, e.2 = (run id mountRoot xs).1.nextSession
  pending : ∀ ident ∈ s.phase.pending, s.mounts.lookup ident.key = none
  order : sent = xs.filterMap Handled.change? ++ (s.phase.pending.map .arrived).toList ++
    s.commands.filterMap Command.change?
  left : ∀ session ident, s.phase.takesDown = some (session, .device (.left ident)) →
    ∃ p, (.left ident, .unmounted session p) ∈ (run id mountRoot xs).2

variable {mountRoot : PathBuf} {s s' : Supervisor} {sent : List DeviceChange}
  {xs : List (Handled DeviceIdent)}

theorem follows_new : Follows mountRoot .new [] [] where
  mounts := fun key => by simp [new, MountTable.new]
  next := rfl
  entered := fun e he => nomatch he
  pending := fun ident hi => nomatch hi
  order := rfl
  left := fun _ _ ht => nomatch ht

/-- The loop has nothing to do with a step that leaves its map and its place alone. -/
theorem Follows.frame (h : Follows mountRoot s sent xs) (s' : Supervisor) (hm : s'.mounts = s.mounts)
    (hn : s'.nextSession = s.nextSession) (hp : s'.phase = s.phase) {sent' : List DeviceChange}
    (ho : sent' = xs.filterMap Handled.change? ++ (s.phase.pending.map .arrived).toList ++
      s'.commands.filterMap Command.change?) : Follows mountRoot s' sent' xs where
  mounts := by rw [hm]; exact h.mounts
  next := by rw [hn, hp]; exact h.next
  entered := by rw [hp]; exact h.entered
  pending := by rw [hp, hm]; exact h.pending
  order := by rw [hp]; exact ho
  left := by rw [hp]; exact h.left

/-- The thread goes on to a place where it is not busy with an arrival. -/
theorem Follows.rest (h : Follows mountRoot s sent xs) (hm : s'.mounts = s.mounts)
    (hn : s'.nextSession = s.nextSession) (hc : s'.commands = s.commands)
    (hs : s.phase.pending = none) (hp : s'.phase.pending = none)
    (he : s'.phase.entered = s.phase.entered)
    (hl : ∀ session ident, s'.phase.takesDown = some (session, .device (.left ident)) →
      s.phase.takesDown = some (session, .device (.left ident))) :
    Follows mountRoot s' sent xs where
  mounts := by rw [hm]; exact h.mounts
  next := by rw [hn, he]; exact h.next
  entered := by rw [he]; exact h.entered
  pending := fun ident hi => by rw [hp] at hi; cases hi
  order := by rw [hc, hp, ← hs]; exact h.order
  left := fun session ident ht => h.left session ident (hl session ident ht)

/-- `unmount`, for the command that was just taken off the channel, or at the end. -/
theorem Follows.unmount (h : Follows mountRoot s sent xs) {key : String} {cause : Command}
    {x : Handled DeviceIdent} {cs : List Command} (hp : s.phase.entered = none)
    (hpend : s.phase.pending = none)
    (hx : MountTable.handle id (run id mountRoot xs).1 x = (run id mountRoot xs).1.unmount key)
    (hl : ∀ ident, cause = .device (.left ident) → x = .left ident)
    (ho : s.commands.filterMap Command.change? = x.change?.toList ++ cs.filterMap Command.change?)
    (hdown : s.mounts.lookup key = none → s.phase.takesDown = none) :
    Follows mountRoot ({ s with commands := cs }.unmount key cause) sent (xs ++ [x]) := by
  have hlk := h.mounts key
  have hr : (run id mountRoot (xs ++ [x])) =
      (((run id mountRoot xs).1.unmount key).1,
        (run id mountRoot xs).2 ++ [(x, ((run id mountRoot xs).1.unmount key).2)]) := by
    rw [run_concat, logged, hx]
  have hsent : sent = (xs ++ [x]).filterMap Handled.change? ++ cs.filterMap Command.change? := by
    rw [h.order, hpend, ho]
    cases hc : x.change? <;> simp [hc]
  unfold Supervisor.unmount
  cases hm : (run id mountRoot xs).1.mounts.lookup key with
  | none =>
    rw [hm] at hlk
    have hnone : s.mounts.lookup key = none := hlk
    have hsame : (run id mountRoot xs).1.unmount key = ((run id mountRoot xs).1, .nothing) := by
      simp only [MountTable.unmount, hm]
    simp only [hnone]
    rw [hsame] at hr
    refine ⟨?_, ?_, ?_, ?_, ?_, ?_⟩
    · rw [hr]; exact h.mounts
    · rw [hr]; exact h.next
    · rw [hr]; exact h.entered
    · exact h.pending
    · simpa [hpend] using hsent
    · intro session ident ht
      rw [hdown hnone] at ht
      cases ht
  | some m =>
    rw [hm] at hlk
    have hsome : s.mounts.lookup key = some m.active := hlk
    have hgone : (run id mountRoot xs).1.unmount key =
        ({ (run id mountRoot xs).1 with mounts := (run id mountRoot xs).1.mounts.erase key },
          .unmounted m.session m.path) := by
      simp only [MountTable.unmount, hm]
    simp only [hsome]
    rw [hgone] at hr
    refine ⟨?_, ?_, ?_, ?_, ?_, ?_⟩
    · intro k
      rw [hr]
      dsimp only
      rw [HashMap.lookup_erase, HashMap.lookup_erase, h.mounts k]
      split
      · rfl
      · rfl
    · have hnext := h.next
      rw [hp] at hnext
      rw [hr]
      exact hnext
    · intro e he
      cases he
    · intro ident hi
      cases hi
    · simpa [Phase.pending] using hsent
    · intro session ident ht
      simp only [Phase.takesDown, Option.some.injEq, Prod.mk.injEq] at ht
      obtain ⟨rfl, hcause⟩ := ht
      rw [hr, hl ident hcause]
      exact ⟨m.path, by simp [DeviceMount.active]⟩

/-- `run` has taken a command off the channel. -/
theorem Follows.handle (h : Follows mountRoot s sent xs) (hp : s.phase = .receiving) {c : Command}
    {cs : List Command} (hc : s.commands = c :: cs) :
    ∃ xs, Follows mountRoot ({ s with commands := cs }.handle c) sent xs := by
  have hentered : s.phase.entered = none := by rw [hp]; rfl
  have hpend : s.phase.pending = none := by rw [hp]; rfl
  have hdown : s.phase.takesDown = none := by rw [hp]; rfl
  cases c with
  | device change =>
    cases change with
    | arrived ident =>
      simp only [Supervisor.handle]
      split
      · rename_i mount hl
        refine ⟨xs ++ [.arrived ident .spawned], ?_⟩
        obtain ⟨m, hm, -⟩ := Option.map_eq_some_iff.mp ((h.mounts ident.key).symm.trans hl)
        have hr : run id mountRoot (xs ++ [.arrived ident .spawned]) =
            ((run id mountRoot xs).1,
              (run id mountRoot xs).2 ++ [(.arrived ident .spawned, .ignored)]) := by
          rw [run_concat, logged]
          simp [MountTable.handle, MountTable.mount, hm]
        refine ⟨?_, ?_, ?_, ?_, ?_, ?_⟩
        · rw [hr]; exact h.mounts
        · rw [hr]; exact h.next
        · rw [hr]; exact h.entered
        · exact h.pending
        · have horder := h.order
          rw [hpend, hc] at horder
          rw [hpend]
          simpa [Handled.change?, Command.change?] using horder
        · intro session ident' ht
          rw [hdown] at ht
          cases ht
      · rename_i hl
        refine ⟨xs, h.mounts, ?_, ?_, ?_, ?_, ?_⟩
        · have hnext := h.next
          rw [hentered] at hnext
          exact hnext
        · intro e he
          cases he
        · rintro _ ⟨⟩
          exact hl
        · have horder := h.order
          rw [hpend, hc] at horder
          simpa [Phase.pending, Command.change?] using horder
        · intro session ident' ht
          cases ht
    | left ident =>
      exact ⟨_, h.unmount (x := .left ident) hentered hpend rfl
        (by rintro _ ⟨⟩; rfl) (by rw [hc]; rfl) fun _ => hdown⟩
  | giveUp key reason origin =>
    exact ⟨_, h.unmount (x := .unmount key) hentered hpend rfl
      (by rintro _ ⟨⟩) (by rw [hc]; rfl) fun _ => hdown⟩
  | stop reason =>
    refine ⟨xs, h.mounts, ?_, ?_, ?_, ?_, ?_⟩
    · have hnext := h.next
      rw [hentered] at hnext
      exact hnext
    · intro e he
      cases he
    · intro ident hi
      cases hi
    · have horder := h.order
      rw [hpend, hc] at horder
      exact horder
    · intro session ident' ht
      cases ht

/-- The opening of a device fails. -/
theorem Follows.failed (h : Follows mountRoot s sent xs) {ident : DeviceIdent}
    (hp : s.phase = .opening ident) {outcome : Outcome} (ho : outcome ≠ .spawned) :
    Follows mountRoot { s with phase := .receiving } sent (xs ++ [.arrived ident outcome]) := by
  have hnone : s.mounts.lookup ident.key = none := h.pending ident (by rw [hp]; rfl)
  have hm : (run id mountRoot xs).1.mounts.lookup ident.key = none :=
    Option.map_eq_none_iff.mp ((h.mounts ident.key).symm.trans hnone)
  have hr : run id mountRoot (xs ++ [.arrived ident outcome]) =
      ((run id mountRoot xs).1,
        (run id mountRoot xs).2 ++ [(.arrived ident outcome, .failed)]) := by
    rw [run_concat, logged]
    cases outcome <;> simp_all [MountTable.handle, MountTable.mount]
  refine ⟨?_, ?_, ?_, ?_, ?_, ?_⟩
  · rw [hr]; exact h.mounts
  · have hnext := h.next
    rw [hp] at hnext
    rw [hr]
    exact hnext
  · intro e he
    cases he
  · intro ident' hi
    cases hi
  · have horder := h.order
    rw [hp] at horder
    simpa [Phase.pending, Handled.change?] using horder
  · intro session ident' ht
    cases ht

/-- The session is entered. -/
theorem Follows.enter (h : Follows mountRoot s sent xs) {ident : DeviceIdent} {session : Nat}
    (hp : s.phase = .entering ident session) :
    Follows mountRoot
      { s with mounts := s.mounts.insert ident.key ⟨ident.label, session⟩, phase := .receiving }
      sent (xs ++ [.arrived ident .spawned]) := by
  have hnone : s.mounts.lookup ident.key = none := h.pending ident (by rw [hp]; rfl)
  have hm : (run id mountRoot xs).1.mounts.lookup ident.key = none :=
    Option.map_eq_none_iff.mp ((h.mounts ident.key).symm.trans hnone)
  have hsession : session = (run id mountRoot xs).1.nextSession :=
    h.entered (ident, session) (by rw [hp]; rfl)
  have hr : (run id mountRoot (xs ++ [.arrived ident .spawned])).1 =
      { (run id mountRoot xs).1 with
        mounts := (run id mountRoot xs).1.mounts.insert ident.key
          ⟨(run id mountRoot xs).1.mountRoot.join ident.key, ident.label, session⟩
        nextSession := session + 1 } := by
    rw [run_concat, logged, hsession]
    simp [MountTable.handle, MountTable.mount, hm]
  refine ⟨?_, ?_, ?_, ?_, ?_, ?_⟩
  · intro key
    rw [hr]
    dsimp only
    rw [HashMap.lookup_insert, HashMap.lookup_insert, h.mounts key]
    split
    · rfl
    · rfl
  · have hnext := h.next
    rw [hp, ← hsession] at hnext
    rw [hr]
    exact hnext
  · intro e he
    cases he
  · intro ident' hi
    cases hi
  · have horder := h.order
    rw [hp] at horder
    simpa [Phase.pending, Handled.change?] using horder
  · intro session' ident' ht
    cases ht

theorem Follows.supervisorStep (h : Follows mountRoot s sent xs) {outcome : Outcome}
    (hs : s.supervisorStep outcome = some s') : ∃ xs, Follows mountRoot s' sent xs := by
  unfold Supervisor.supervisorStep at hs
  split at hs
  · rename_i hp
    split at hs
    · cases hs
    · rename_i c cs hc
      cases hs
      exact h.handle hp hc
  · rename_i ident hp
    split at hs
    · cases hs
      have hnext := h.next
      have horder := h.order
      have hnone := h.pending
      rw [hp] at hnext horder hnone
      refine ⟨xs, h.mounts, congrArg (· + 1) hnext, ?_, hnone, horder, ?_⟩
      · rintro _ ⟨⟩
        exact hnext
      · intro session ident' ht
        cases ht
    · rename_i ho
      cases hs
      exact ⟨_, h.failed hp ho⟩
  · rename_i ident session hp
    cases hs
    exact ⟨_, h.enter hp⟩
  · rename_i session cause hp
    cases hs
    exact ⟨xs, h.rest rfl rfl rfl (by rw [hp]; rfl) rfl (by rw [hp]; rfl) fun session' ident ht => by
      rw [hp]; exact ht⟩
  · rename_i session cause hp
    split at hs <;>
    · cases hs
      exact ⟨xs, h.rest rfl rfl rfl (by rw [hp]; rfl) rfl (by rw [hp]; rfl) fun _ _ ht => nomatch ht⟩
  · rename_i reason hp
    split at hs
    · cases hs
      exact ⟨xs, h.rest rfl rfl rfl (by rw [hp]; rfl) rfl (by rw [hp]; rfl) fun _ _ ht => nomatch ht⟩
    · rename_i key keys hk
      cases hs
      have hmem : key ∈ s.mounts := by
        rw [AList.mem_keys, hk]
        exact List.mem_cons_self
      exact ⟨_, h.unmount (x := .unmount key) (by rw [hp]; rfl) (by rw [hp]; rfl) rfl
        (by rintro _ ⟨⟩) rfl fun hnone => absurd hmem (AList.lookup_eq_none.mp hnone)⟩
  · cases hs

theorem Follows.step (h : Follows mountRoot s sent xs) {t : Turn} (hs : s.step t = some s') :
    ∃ xs, Follows mountRoot s' (sent ++ t.change?.toList) xs := by
  have hquiet : ∀ id v, ∃ xs, Follows mountRoot (s.setSession id v) (sent ++ []) xs := by
    intro id v
    refine ⟨xs, h.frame (s.setSession id v) rfl rfl rfl ?_⟩
    rw [List.append_nil]
    exact h.order
  have hsend : ∀ s₁ : Supervisor, s₁.mounts = s.mounts → s₁.nextSession = s.nextSession →
      s₁.phase = s.phase → s₁.commands = s.commands → ∀ c : Command,
      ∃ xs, Follows mountRoot (s₁.send c) (sent ++ c.change?.toList) xs := by
    intro s₁ hm hn hp hc c
    refine ⟨xs, h.frame (s₁.send c) hm hn hp ?_⟩
    rw [h.order, send, hc, List.filterMap_append, List.append_assoc]
    cases hchange : c.change? <;> simp [hchange]
  cases t with
  | hotplug change =>
    cases hs
    exact hsend s rfl rfl rfl rfl (.device change)
  | signal reason =>
    cases hs
    exact hsend s rfl rfl rfl rfl (.stop reason)
  | request id reason =>
    simp only [Supervisor.step] at hs
    split at hs
    · cases hs
    · split at hs
      · cases hs
      · cases hs
        exact hquiet id _
  | watcher id =>
    simp only [Supervisor.step] at hs
    split at hs
    · cases hs
    · rename_i v hv
      unfold Supervisor.watcherStep at hs
      split at hs
      · split at hs
        · cases hs
          exact hquiet id _
        · cases hs
          exact hquiet id _
      · rename_i reason hw
        cases hs
        exact hsend (s.setSession id _) rfl rfl rfl rfl (.giveUp v.key reason id)
      · cases hs
        exact hquiet id _
      · cases hs
  | join id =>
    simp only [Supervisor.step] at hs
    split at hs
    · cases hs
    · split at hs
      · cases hs
        exact hquiet id _
      · cases hs
  | supervisor outcome =>
    simpa [Turn.change?] using h.supervisorStep hs

/-- Under every schedule the supervisor's map is the one its loop makes, one
command at a time, of the changes the watch has sent, in the order sent. -/
theorem follows (mountRoot : PathBuf) {allowed : Supervisor × List DeviceChange → Turn → Prop}
    {r : Supervisor × List DeviceChange} (h : Transitions.Run watched allowed (.new, []) r) :
    ∃ xs, Follows mountRoot r.1 r.2 xs := by
  induction h with
  | start => exact ⟨[], follows_new⟩
  | next _ _ hs ih =>
    obtain ⟨xs, ih⟩ := ih
    obtain ⟨s', hstep, rfl⟩ := Option.map_eq_some_iff.mp hs
    exact ih.step hstep

end Supervisor

end MtpMount
