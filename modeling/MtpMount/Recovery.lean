import Mathlib.Data.List.Chain
import Mathlib.Logic.Relation
import MtpMount.InodeRuns
import MtpMount.LinkRules

/-!
# The recovery loop, step by step

A run of `withRecovery` taken apart: looks at the switch, attempts,
invalidations and reconnects, each with the state it starts in. `Follows` says
which of them may come next; what the loop promises is read off that.

* `reconnect_does`: a reconnect takes over a device, or leaves all but the reason
  to go away;
* `recovery_discipline`: at most so many attempts, a result only from the last
  of them, no reopening for a stale handle, no retry with an old one.
-/

namespace MtpMount

open Interaction

/-! ## What the operations of a table leave -/

namespace InodeTable

variable {t u : InodeTable}

/-- An operation of the table, or an edit of an entry in place, which never
touches its generation. -/
inductive Operates (t : InodeTable) : InodeTable → Prop
  | apply (o : TableOp) : Operates t (o.apply t)
  | getMut (i : Nat) (f : InodeEntry → InodeEntry) :
      (∀ e, (f e).generation = e.generation) → Operates t (t.getMut i f)

/-- Any number of them. -/
abbrev Operated : InodeTable → InodeTable → Prop := Relation.ReflTransGen Operates

/-- No entry is newer than the table. -/
def Dated (t : InodeTable) : Prop := ∀ i e, t.get i = some e → e.generation ≤ t.generation

/-- No file or directory has a handle of the current generation. -/
def NothingFresh (t : InodeTable) : Prop :=
  ∀ i e h, t.get i = some e → e.kind.handle? = some h → t.isFresh i = false

theorem Dated.fed (h : t.Dated) {P : ObjectHandle → Prop} (hf : Fed P t u) : u.Dated := by
  intro i e he
  rw [hf.generation]
  rcases hf.entry i e he with ⟨j, e', hj, hg, -⟩ | ⟨hg, -⟩
  · exact hg ▸ h j e' hj
  · exact Nat.le_of_eq hg

theorem Dated.bumpGeneration (h : t.Dated) : t.bumpGeneration.Dated :=
  fun i e he => Nat.le_succ_of_le (h i e he)

theorem Dated.apply (h : t.Dated) (o : TableOp) : (o.apply t).Dated := by
  cases o with
  | addStorageAt sid name now => exact h.fed (.addStorageAt (fun _ => True) t sid name now)
  | addObject parent handle name isDir size mtime =>
    exact h.fed (.addObject (P := fun _ => True) t parent trivial name isDir size mtime)
  | syncChildren parent children =>
    exact h.fed (.syncChildren (P := fun _ => True) t parent fun _ _ => trivial)
  | remove inode => exact h.fed (.remove (fun _ => True) t inode)
  | rename inode newParent newName => exact h.fed (.rename (fun _ => True) t inode newParent newName)
  | setHandle inode handle => exact h.fed (.setHandle (P := fun _ => True) t inode trivial)
  | setStorageId inode sid => exact h.fed (.setStorageId (fun _ => True) t inode sid)
  | bumpGeneration => exact h.bumpGeneration

theorem Dated.operates (h : t.Dated) (ho : Operates t u) : u.Dated := by
  cases ho with
  | apply o => exact h.apply o
  | getMut i f hf =>
    intro j e he
    rw [get_getMut] at he
    split at he
    · obtain ⟨e', he', rfl⟩ := Option.map_eq_some_iff.mp he
      rw [hf e']
      exact h i e' he'
    · exact h j e he

theorem Dated.operated (h : t.Dated) (ho : Operated t u) : u.Dated := by
  induction ho with
  | refl => exact h
  | tail _ hs ih => exact ih.operates hs

theorem dated_new : new.Dated := (tokens_new fun _ => True).bound

/-- A bump leaves nothing fresh. -/
theorem Dated.nothingFresh (h : t.Dated) : t.bumpGeneration.NothingFresh := by
  intro i e a he ha
  have hlt : e.generation < t.generation + 1 := Nat.lt_succ_of_le (h i e he)
  refine Bool.eq_false_iff.mpr fun hf => ?_
  have hg := (isFresh_iff he ha).mp hf
  exact absurd hg (Nat.ne_of_lt hlt)

end InodeTable

theorem Link.remapStorages_operated (storages : List Storage) (t : InodeTable) :
    t.Operated (Link.remapStorages storages t) :=
  Link.remapStorages_induction (P := fun u => t.Operated u)
    (fun _ ino sid h => h.tail (.apply (.setStorageId ino sid))) storages .refl

variable {E σ α : Type} {R : Answers Call Answer E} {G : E → Call → Prop}

/-! ## What a reconnect does -/

/-- What the recovery itself asks, an attempt aside. -/
def Call.isRecovery : Call → Bool
  | isUnplugged | sleep _ | openDevice | storages _ | invalidated | spawnEventLoop .. => true
  | _ => false

/-- What it asks while there is no device yet. -/
def Call.isReopening : Call → Bool
  | isUnplugged | sleep _ | openDevice | storages _ | invalidated => true
  | _ => false

/-- The requests of a reopening keep `P`, and the last of them leads to `P'`. `V` holds of
what they say of the device. -/
structure Readopts (R : Answers Call Answer E) (G : E → Call → Prop) (P P' : E → Prop)
    (V : MtpDevice → List StorageInfo → Prop) : Prop where
  request : ∀ {e c}, c.isReopening = true → P e → G e c ∧ ∀ a e', R e c a e' → P e'
  opened : ∀ {e e₁ e₂ device infos}, P e → R e .openDevice (.ok device) e₁ →
    R e₁ (.storages device) (.ok infos) e₂ → V device infos
  resumed : ∀ {e} device epoch, P e → G e (.spawnEventLoop device epoch) ∧
    ∀ a e', R e (.spawnEventLoop device epoch) a e' → P' e'

/-- The requests of a reopening keep `P`, and `V` holds of what they say of the
device. -/
structure Reopens (R : Answers Call Answer E) (G : E → Call → Prop) (P : E → Prop)
    (V : MtpDevice → List StorageInfo → Prop) : Prop where
  request : ∀ {e c}, c.isRecovery = true → P e → G e c ∧ ∀ a e', R e c a e' → P e'
  opened : ∀ {e e₁ e₂ device infos}, P e → R e .openDevice (.ok device) e₁ →
    R e₁ (.storages device) (.ok infos) e₂ → V device infos

theorem Reopens.readopts {P : E → Prop} {V : MtpDevice → List StorageInfo → Prop}
    (h : Reopens R G P V) : Readopts R G P P V where
  request := fun {e c} hc => h.request (by cases c <;> first | rfl | cases hc)
  opened := h.opened
  resumed := fun _ _ => h.request rfl

section Reconnect

variable {P P' : E → Prop} {V : MtpDevice → List StorageInfo → Prop} (hP : Readopts R G P P' V)
  {l : Link} {e : E}

include hP

theorem adopt_brings {device : MtpDevice} (hp : P e)
    (hV : ∀ infos e', R e (.storages device) (.ok infos) e' → V device infos) :
    Attempt.wp R G (adopt device)
      (fun _ l' e' => P' e' ∧ ∃ infos, V device infos ∧
        l' = l.adopted device (device.bindStorages infos))
      (fun _ l' e' => P e' ∧ l' = l) l e := by
  unfold adopt
  simp only [Attempt.wp_bind, Attempt.wp_mk, Attempt.wp_modify, Attempt.wp_get, Attempt.wp_lift]
  have hs := hP.request (c := .storages device) rfl hp
  refine wp_call.mpr ⟨hs.1, fun answer e₁ hr₁ => ?_⟩
  have hp₁ := hs.2 answer e₁ hr₁
  rcases answer with err | infos
  · exact ⟨hp₁, rfl⟩
  · have hi := hP.request (c := .invalidated) rfl hp₁
    refine wp_call.mpr ⟨hi.1, fun _ e₂ hr₂ => ?_⟩
    have hl := hP.resumed device (l.eventEpoch + 1) (hi.2 _ e₂ hr₂)
    exact wp_call.mpr ⟨hl.1, fun _ e₃ hr₃ => ⟨hl.2 _ e₃ hr₃, infos, hV infos e₁ hr₁, rfl⟩⟩

theorem reconnectAfter_brings (delays : List Nat) (hp : P e) :
    Attempt.wp R G (reconnectAfter delays)
      (fun _ l' e' => P' e' ∧ ∃ device infos, V device infos ∧
        l' = l.adopted device (device.bindStorages infos))
      (fun err l' e' => P e' ∧ err = .disconnected ∧ ∃ reason, l' = l.giveUp reason) l e := by
  induction delays generalizing e with
  | nil =>
    unfold reconnectAfter
    simp only [Attempt.wp_bind, Attempt.wp_modify, Attempt.wp_throw]
    exact ⟨hp, trivial, _, rfl⟩
  | cons delay rest ih =>
    unfold reconnectAfter
    simp only [Attempt.wp_bind, Attempt.wp_lift]
    have hsleep := hP.request (c := .sleep delay) rfl hp
    refine wp_call.mpr ⟨hsleep.1, fun _ e₁ hr₁ => ?_⟩
    have hplug := hP.request (c := .isUnplugged) rfl (hsleep.2 _ e₁ hr₁)
    refine wp_call.mpr ⟨hplug.1, fun out e₂ hr₂ => ?_⟩
    have hp₂ := hplug.2 _ e₂ hr₂
    split
    · exact ih hp₂
    · simp only [Attempt.wp_bind, Attempt.wp_outcome, Attempt.wp_mk]
      have hopen := hP.request (c := .openDevice) rfl hp₂
      refine wp_call.mpr ⟨hopen.1, fun answer e₃ hr₃ => ?_⟩
      have hp₃ := hopen.2 _ e₃ hr₃
      rcases answer with err | device
      · exact ih hp₃
      · refine Attempt.wp_mono
          (adopt_brings hP hp₃ fun infos e₄ hr₄ => hP.opened hp₂ hr₃ hr₄) ?_ ?_
        · rintro _ l' e' ⟨hp', infos, hv, rfl⟩
          exact ⟨hp', device, infos, hv, rfl⟩
        · rintro err l' e' ⟨hp', rfl⟩
          exact ih hp'

/-- A reconnect ends with a device taken over, or with a reason to go away. -/
theorem reconnect_adopts (hp : P e) :
    Attempt.wp R G reconnect
      (fun _ l' e' => P' e' ∧ ∃ device infos, V device infos ∧
        l' = l.adopted device (device.bindStorages infos))
      (fun err l' e' => P e' ∧ err = .disconnected ∧ ∃ reason, l' = l.giveUp reason) l e := by
  unfold reconnect
  simp only [Attempt.wp_bind, Attempt.wp_get]
  split
  · simp only [Attempt.wp_bind, Attempt.wp_modify, Attempt.wp_throw]
    exact ⟨hp, trivial, _, rfl⟩
  · exact reconnectAfter_brings hP _ hp

omit hP in
/-- The same when every request keeps `P`. -/
theorem reconnect_brings (hP : Reopens R G P V) (hp : P e) :
    Attempt.wp R G reconnect
      (fun _ l' e' => P e' ∧ ∃ device infos, V device infos ∧
        l' = l.adopted device (device.bindStorages infos))
      (fun err l' e' => P e' ∧ err = .disconnected ∧ ∃ reason, l' = l.giveUp reason) l e :=
  reconnect_adopts hP.readopts hp

omit hP in
/-- The same of the link alone. -/
theorem reconnect_does (hG : ∀ e c, c.isRecovery = true → G e c) :
    Attempt.wp R G reconnect
      (fun _ l' _ => ∃ device infos, l' = l.adopted device (device.bindStorages infos))
      (fun err l' _ => err = .disconnected ∧ ∃ reason, l' = l.giveUp reason) l e := by
  have hR : Reopens R G (fun _ => True) (fun _ _ => True) :=
    ⟨fun hc _ => ⟨hG _ _ hc, fun _ _ _ => trivial⟩, fun _ _ _ => trivial⟩
  refine Attempt.wp_mono (reconnect_brings hR trivial) ?_ fun _ _ _ h => h.2
  rintro _ l' e' ⟨-, device, infos, -, h⟩
  exact ⟨device, infos, h⟩

end Reconnect

/-! ## The steps of the loop -/

section Steps

/-- What `with_recovery` does, one thing at a time. -/
inductive RecoveryStep (α : Type) where
  /-- The switch reads unplugged. -/
  | unplugged
  /-- The switch reads plugged in, and an attempt is made. -/
  | attempt (outcome : Except Error α)
  | invalidated
  | reconnected (outcome : Except Error Unit)

namespace RecoveryStep

def isAttempt : RecoveryStep α → Bool
  | attempt _ => true
  | _ => false

/-- The session is gone, or is told to be. -/
def LosesSession : RecoveryStep α → Prop
  | unplugged => True
  | attempt (.error err) => err.isStaleHandle = false ∧ isLinkLost err = true
  | _ => False

/-- Every handle is stale afterwards. -/
def Renews : RecoveryStep α → Prop
  | invalidated | reconnected (.ok _) => True
  | _ => False

/-- `b` may come right after `a`. -/
def Follows (a b : RecoveryStep α) : Prop :=
  match b with
  | unplugged | attempt _ => a.Renews
  | invalidated => ∃ err, a = attempt (.error err) ∧ err.isStaleHandle = true
  | reconnected _ => a.LosesSession

/-- A session begins with a look at the switch. -/
def Begins : RecoveryStep α → Prop
  | unplugged | attempt _ => True
  | _ => False

theorem Begins.follows {a b : RecoveryStep α} (hb : b.Begins) (ha : a.Renews) : Follows a b := by
  cases b with
  | unplugged => exact ha
  | attempt outcome => exact ha
  | invalidated => cases hb
  | reconnected outcome => cases hb

end RecoveryStep

open RecoveryStep (Follows)

/-- One step of the loop, from state to state. -/
inductive Advances [HasLink σ] (R : Answers Call Answer E)
    (attempt : Attempt Call Answer σ Error α) :
    RecoveryStep α → σ → E → σ → E → Prop
  | unplugged {s : σ} {e e' : E} : R e .isUnplugged true e' → Advances R attempt .unplugged s e s e'
  | attempt {s s' : σ} {e e₁ e' : E} {r : Except Error α} :
      R e .isUnplugged false e₁ → Prog.Ends R (attempt.run s) e₁ (r, s') e' →
      Advances R attempt (.attempt r) s e s' e'
  | invalidated {s s' : σ} {e e' : E} {u : Unit} :
      Prog.Ends R ((onLink invalidateHandles : Act Call Answer σ Unit) s) e (u, s') e' →
      Advances R attempt .invalidated s e s' e'
  | reconnected {s s' : σ} {e e' : E} {r : Except Error Unit} :
      Prog.Ends R ((onLinkM reconnect : Attempt Call Answer σ Error Unit).run s) e (r, s') e' →
      Advances R attempt (.reconnected r) s e s' e'

/-- The steps of a run in order, each with the state it starts in. -/
inductive Steps [HasLink σ] (R : Answers Call Answer E)
    (attempt : Attempt Call Answer σ Error α) :
    σ → E → List (σ × RecoveryStep α) → σ → E → Prop
  | nil {s : σ} {e : E} : Steps R attempt s e [] s e
  | cons {s s₁ s' : σ} {e e₁ e' : E} {step : RecoveryStep α} {rest : List (σ × RecoveryStep α)} :
      Advances R attempt step s e s₁ e₁ → Steps R attempt s₁ e₁ rest s' e' →
      Steps R attempt s e ((s, step) :: rest) s' e'

variable {attempt : Attempt Call Answer σ Error α} {s s₁ s' : σ} {e e₁ e' : E}
  {steps rest : List (σ × RecoveryStep α)}

theorem Steps.append [HasLink σ] (h : Steps R attempt s e steps s₁ e₁)
    (h' : Steps R attempt s₁ e₁ rest s' e') :
    Steps R attempt s e (steps ++ rest) s' e' := by
  induction h with
  | nil => exact h'
  | cons ht _ ih => exact .cons ht (ih h')

/-- The steps on one session, with `n` stale handles to forgive; `none` leaves
it for a reconnect. -/
inductive OneSession : Nat → List (σ × RecoveryStep α) → Option (Except Error α) → Prop
  | unplugged {n : Nat} {s : σ} : OneSession n [(s, .unplugged)] none
  | value {n : Nat} {s : σ} (v : α) : OneSession n [(s, .attempt (.ok v))] (some (.ok v))
  | failed {n : Nat} {s : σ} {err : Error} : err.isStaleHandle = false → isLinkLost err = false →
      OneSession n [(s, .attempt (.error err))] (some (.error err))
  | lost {n : Nat} {s : σ} {err : Error} : err.isStaleHandle = false → isLinkLost err = true →
      OneSession n [(s, .attempt (.error err))] none
  | stale {s : σ} {err : Error} : err.isStaleHandle = true →
      OneSession 0 [(s, .attempt (.error err))] (some (.error err))
  | again {n : Nat} {s s₁ : σ} {err : Error} {steps : List (σ × RecoveryStep α)}
      {r : Option (Except Error α)} : err.isStaleHandle = true → OneSession n steps r →
      OneSession (n + 1) ((s, .attempt (.error err)) :: (s₁, .invalidated) :: steps) r

/-- All the steps of a run with `n` rounds. -/
inductive Rounds : Nat → List (σ × RecoveryStep α) → Except Error α → Prop
  | exhausted : Rounds 0 [] (.error .disconnected)
  | done {n : Nat} {steps : List (σ × RecoveryStep α)} {r : Except Error α} :
      OneSession MAX_STALE_RETRIES steps (some r) → Rounds (n + 1) steps r
  | gaveUp {n : Nat} {steps : List (σ × RecoveryStep α)} {s : σ} {err : Error} :
      OneSession MAX_STALE_RETRIES steps none →
      Rounds (n + 1) (steps ++ [(s, .reconnected (.error err))]) (.error err)
  | resumed {n : Nat} {steps rest : List (σ × RecoveryStep α)} {s : σ} {u : Unit}
      {r : Except Error α} : OneSession MAX_STALE_RETRIES steps none → Rounds n rest r →
      Rounds (n + 1) (steps ++ (s, .reconnected (.ok u)) :: rest) r

/-- What the steps of a session have in common. -/
structure InSession (n : Nat) (steps : List (σ × RecoveryStep α)) (r : Option (Except Error α)) :
    Prop where
  chain : steps.IsChain fun a b => Follows a.2 b.2
  bounded : steps.countP (fun x => x.2.isAttempt) ≤ n + 1
  begins : ∀ x ∈ steps.head?, x.2.Begins
  ends : ∃ x ∈ steps.getLast?, match r with
    | none => x.2.LosesSession
    | some outcome => x.2 = .attempt outcome

theorem InSession.single {n : Nat} {step : RecoveryStep α} {r : Option (Except Error α)}
    (hb : step.Begins) (he : match r with
      | none => step.LosesSession
      | some outcome => step = .attempt outcome) : InSession n [(s, step)] r where
  chain := .singleton _
  bounded := by
    rw [List.countP_singleton]
    split <;> omega
  begins := by
    rintro x ⟨⟩
    exact hb
  ends := ⟨_, rfl, he⟩

/-- A forgiven stale handle, before the rest of the session. -/
theorem InSession.stale {n : Nat} {r : Option (Except Error α)} {err : Error}
    (h : InSession n steps r) (hst : err.isStaleHandle = true) :
    InSession (n + 1) ((s, .attempt (.error err)) :: (s₁, .invalidated) :: steps) r where
  chain := by
    refine .cons_cons ⟨err, rfl, hst⟩ ?_
    refine List.isChain_cons.mpr ⟨fun x hx => (h.begins x hx).follows trivial, h.chain⟩
  bounded := by
    have hb := h.bounded
    rw [List.countP_cons_of_pos rfl, List.countP_cons_of_neg Bool.false_ne_true]
    omega
  begins := by
    rintro x ⟨⟩
    exact trivial
  ends := by
    obtain ⟨x, hx, hr⟩ := h.ends
    refine ⟨x, ?_, hr⟩
    rw [List.getLast?_cons, List.getLast?_cons, hx]
    rfl

theorem OneSession.inSession {n : Nat} {r : Option (Except Error α)} (h : OneSession n steps r) :
    InSession n steps r := by
  induction h with
  | unplugged => exact .single trivial trivial
  | value v => exact .single trivial rfl
  | failed _ _ => exact .single trivial rfl
  | lost hst hlost => exact .single trivial ⟨hst, hlost⟩
  | stale _ => exact .single trivial rfl
  | again hst _ ih => exact ih.stale hst

/-- What the steps of the rounds have in common. -/
structure InRounds (n : Nat) (steps : List (σ × RecoveryStep α)) (r : Except Error α) : Prop where
  chain : steps.IsChain fun a b => Follows a.2 b.2
  bounded : steps.countP (fun x => x.2.isAttempt) ≤ n * (1 + MAX_STALE_RETRIES)
  begins : ∀ x ∈ steps.head?, x.2.Begins
  value : ∀ v, r = .ok v → ∃ x ∈ steps.getLast?, x.2 = .attempt (.ok v)
  last : ∀ x ∈ steps.getLast?, ∀ outcome, x.2 = .attempt outcome → r = outcome

/-- A failed reconnect ends the run. -/
theorem InRounds.failed {n : Nat} {err : Error} :
    InRounds n ([] : List (σ × RecoveryStep α)) (.error err) where
  chain := .nil
  bounded := Nat.zero_le _
  begins := nofun
  value := nofun
  last := nofun

theorem InSession.done {n : Nat} {r : Except Error α}
    (h : InSession MAX_STALE_RETRIES steps (some r)) : InRounds (n + 1) steps r where
  chain := h.chain
  bounded := by
    have hb := h.bounded
    rw [Nat.succ_mul]
    omega
  begins := h.begins
  value := by
    rintro v rfl
    exact h.ends
  last := by
    intro x hx outcome ho
    obtain ⟨y, hy, hr⟩ := h.ends
    cases Option.mem_unique hx hy
    cases hr.symm.trans ho
    rfl

/-- A session that was left, and how its reconnect ended, before the rounds after it. -/
theorem InSession.reconnected {n : Nat} {r : Except Error α} {outcome : Except Error Unit}
    (h : InSession MAX_STALE_RETRIES steps none) (hr : InRounds n rest r)
    (ho : ∀ x ∈ rest.head?, ∃ u, outcome = .ok u) :
    InRounds (n + 1) (steps ++ (s, .reconnected outcome) :: rest) r where
  chain := by
    refine h.chain.append ?_ ?_
    · refine List.isChain_cons.mpr ⟨fun x hx => ?_, hr.chain⟩
      obtain ⟨u, rfl⟩ := ho x hx
      exact (hr.begins x hx).follows trivial
    · rintro x hx y ⟨⟩
      obtain ⟨z, hz, hl⟩ := h.ends
      cases Option.mem_unique hx hz
      exact hl
  bounded := by
    have hb := h.bounded
    have hb' := hr.bounded
    rw [List.countP_append, List.countP_cons_of_neg Bool.false_ne_true, Nat.succ_mul]
    omega
  begins := by
    intro x hx
    obtain ⟨y, hy, -⟩ := h.ends
    rw [List.head?_append_of_ne_nil _ (by rintro rfl; cases hy)] at hx
    exact h.begins x hx
  value := by
    intro v hv
    obtain ⟨x, hx, hx'⟩ := hr.value v hv
    refine ⟨x, ?_, hx'⟩
    rw [List.getLast?_append, List.getLast?_cons, hx]
    rfl
  last := by
    intro x hx out ho'
    rw [List.getLast?_append, List.getLast?_cons] at hx
    cases hl : rest.getLast? with
    | none =>
      rw [hl] at hx
      cases hx
      cases ho'
    | some y =>
      rw [hl] at hx
      cases hx
      exact hr.last y hl out ho'

theorem Rounds.inRounds {n : Nat} {r : Except Error α} (h : Rounds n steps r) :
    InRounds n steps r := by
  induction h with
  | exhausted => exact .failed
  | done h => exact h.inSession.done
  | gaveUp h => exact h.inSession.reconnected .failed nofun
  | resumed h _ ih => exact h.inSession.reconnected ih fun _ _ => ⟨_, rfl⟩

/-! ## Runs of the loop -/

section Runs

/-- A run of which the calls are known to be allowed ends where it ends. -/
theorem ends_wp {x : Act Call Answer σ α} (h : Act.wp R G x (fun _ _ _ => True) s e) :
    Act.wp R G x (fun a s' e' => Prog.Ends R (x s) e (a, s') e') s e :=
  (Prog.wp_iff _ _ _ _ _).mpr ⟨fun _ _ hm => Prog.wp_makes h hm, fun _ _ h' => h'⟩

variable [HasLink σ] (hG : ∀ e c, c.isRecovery = true → G e c)
  (hattempt : ∀ s e, (attempt.run s).wp R G (fun _ _ => True) e)

include hG

theorem invalidateHandles_ends (attempt : Attempt Call Answer σ Error α) :
    Act.wp R G (onLink invalidateHandles : Act Call Answer σ Unit)
      (fun _ s' e' => Advances R attempt .invalidated s e s' e') s e := by
  refine Act.wp_mono (ends_wp ?_) fun _ _ _ h => .invalidated h
  rw [wp_onLink]
  unfold invalidateHandles
  rw [Act.wp_bind]
  exact wp_call.mpr ⟨hG _ _ rfl, fun _ _ _ => trivial⟩

theorem reconnect_ends (attempt : Attempt Call Answer σ Error α) :
    Attempt.wp R G (onLinkM reconnect : Attempt Call Answer σ Error Unit)
      (fun u s' e' => Advances R attempt (.reconnected (.ok u)) s e s' e')
      (fun err s' e' => Advances R attempt (.reconnected (.error err)) s e s' e') s e := by
  refine (Attempt.wp_run _ fun r s' e' => Advances R attempt (.reconnected r) s e s' e').mp
    (Act.wp_mono (ends_wp ?_) fun _ _ _ h => .reconnected h)
  rw [Attempt.wp_run, wp_onLinkM]
  exact Attempt.wp_mono (reconnect_does hG) (fun _ _ _ _ => trivial) fun _ _ _ _ => trivial

include hattempt

/-- A turn looks at the switch, makes an attempt, and leaves, ends or retries. -/
theorem recoveryTurn_steps {n : Nat} {retry : Error → Act Call Answer σ (Option (Except Error α))}
    (hretry : ∀ err s' e', err.isStaleHandle = true →
      Advances R attempt (.attempt (.error err)) s e s' e' →
      Act.wp R G (retry err) (fun r s'' e'' => ∃ steps,
        Steps R attempt s e steps s'' e'' ∧ OneSession n steps r) s' e') :
    Act.wp R G (recoveryTurn attempt retry) (fun r s'' e'' => ∃ steps,
      Steps R attempt s e steps s'' e'' ∧ OneSession n steps r) s e := by
  unfold recoveryTurn
  rw [Act.wp_bind]
  refine wp_call.mpr ⟨hG _ _ rfl, fun out e₁ hr => ?_⟩
  cases out with
  | true => exact ⟨_, .cons (.unplugged hr) .nil, .unplugged⟩
  | false =>
    rw [if_neg Bool.false_ne_true, Act.wp_bind]
    refine Act.wp_mono (ends_wp (hattempt s e₁)) fun r s' e' hends => ?_
    have ht : Advances R attempt (.attempt r) s e s' e' := .attempt hr hends
    rcases r with err | v
    · dsimp only
      split
      · exact hretry err s' e' ‹_› ht
      · rename_i hst
        have hst : err.isStaleHandle = false := Bool.eq_false_iff.mpr hst
        split
        · rename_i hlost
          exact ⟨_, .cons ht .nil, .failed hst (by simpa using hlost)⟩
        · rename_i hlost
          exact ⟨_, .cons ht .nil, .lost hst (by simpa using hlost)⟩
    · exact ⟨_, .cons ht .nil, .value v⟩

theorem sessionLoop_steps (n : Nat) :
    Act.wp R G (sessionLoop attempt n) (fun r s' e' => ∃ steps,
      Steps R attempt s e steps s' e' ∧ OneSession n steps r) s e := by
  induction n generalizing s e with
  | zero =>
    exact recoveryTurn_steps hG hattempt fun err s' e' hst ht =>
      ⟨_, .cons ht .nil, .stale hst⟩
  | succ n ih =>
    refine recoveryTurn_steps hG hattempt fun err s' e' hst ht => ?_
    rw [Act.wp_bind]
    refine Act.wp_mono (invalidateHandles_ends hG attempt) fun _ s₁ e₁ hinv => ?_
    refine Act.wp_mono ih ?_
    rintro r s₂ e₂ ⟨steps, hsteps, hin⟩
    exact ⟨_, .cons ht (.cons hinv hsteps), .again hst hin⟩

theorem recoveryRounds_steps (n : Nat) :
    Act.wp R G (recoveryRounds attempt n).run (fun r s' e' => ∃ steps,
      Steps R attempt s e steps s' e' ∧ Rounds n steps r) s e := by
  induction n generalizing s e with
  | zero => exact ⟨[], .nil, .exhausted⟩
  | succ n ih =>
    unfold recoveryRounds
    rw [Attempt.wp_run, Attempt.wp_bind, Attempt.wp_lift]
    refine Act.wp_mono (sessionLoop_steps hG hattempt MAX_STALE_RETRIES) ?_
    rintro (_ | err | v) s₁ e₁ ⟨steps, hsteps, hin⟩
    · dsimp only
      rw [Attempt.wp_bind]
      refine Attempt.wp_mono (reconnect_ends hG attempt) (fun u s₂ e₂ hrec => ?_)
        fun err s₂ e₂ hrec => ?_
      · have hrest := (Attempt.wp_run _ fun r s' e' => ∃ rest,
          Steps R attempt s₂ e₂ rest s' e' ∧ Rounds n rest r).mp ih
        refine Attempt.wp_mono hrest ?_ ?_
        · rintro v s₃ e₃ ⟨rest, hrest, hrounds⟩
          exact ⟨_, hsteps.append (.cons hrec hrest), .resumed hin hrounds⟩
        · rintro err s₃ e₃ ⟨rest, hrest, hrounds⟩
          exact ⟨_, hsteps.append (.cons hrec hrest), .resumed hin hrounds⟩
      · exact ⟨_, hsteps.append (.cons hrec .nil), .gaveUp hin⟩
    · exact ⟨steps, hsteps, .done hin⟩
    · exact ⟨steps, hsteps, .done hin⟩

end Runs

/-! ## The discipline -/

section Discipline

variable [HasLink σ]

/-- What the steps of a run with the result `r` promise. -/
structure Disciplined (steps : List (σ × RecoveryStep α)) (r : Except Error α) : Prop where
  bounded : steps.countP (fun x => x.2.isAttempt) ≤ MAX_ATTEMPTS * (1 + MAX_STALE_RETRIES)
  /-- A value comes from the last attempt, and nothing is done after it. -/
  value : ∀ v, r = .ok v → ∃ before s, steps = before ++ [(s, .attempt (.ok v))]
  /-- Any other error ends the run as it is. -/
  other : ∀ before s err after, steps = before ++ (s, .attempt (.error err)) :: after →
    err.isStaleHandle = false → isLinkLost err = false → after = [] ∧ r = .error err
  /-- The device is reopened right after it was lost, or found unplugged. -/
  reopened : ∀ before s outcome after, steps = before ++ (s, .reconnected outcome) :: after →
    ∃ earlier s' step, before = earlier ++ [(s', step)] ∧ step.LosesSession
  /-- A retry resolves every handle again. -/
  renewed : ∀ before s outcome after, steps = before ++ (s, .attempt outcome) :: after →
    (∃ x ∈ before, x.2.isAttempt = true) → (HasLink.link s).inodes.NothingFresh

/-- The attempt changes the table by operations of the table only. -/
def OperatesOn (R : Answers Call Answer E) (attempt : Attempt Call Answer σ Error α) : Prop :=
  ∀ s e r s' e', Prog.Ends R (attempt.run s) e (r, s') e' →
    (HasLink.link s).inodes.Operated (HasLink.link s').inodes

/-- What a step does to the link, whatever an attempt does. -/
def RecoveryStep.Does (l : Link) : RecoveryStep α → Link → Prop
  | .unplugged, l' => l' = l
  | .attempt _, _ => True
  | .invalidated, l' => l' = l.invalidateHandles
  | .reconnected (.ok _), l' => ∃ device infos, l' = l.adopted device (device.bindStorages infos)
  | .reconnected (.error _), l' => ∃ reason, l' = l.giveUp reason

theorem Advances.does {step : RecoveryStep α} (ht : Advances R attempt step s e s' e') :
    step.Does (HasLink.link s) (HasLink.link s') := by
  cases ht with
  | unplugged => rfl
  | attempt _ _ => trivial
  | invalidated hends =>
    have hwp : Act.wp R (fun _ _ => True) (onLink invalidateHandles : Act Call Answer σ Unit)
        (fun _ s' _ => HasLink.link s' = (HasLink.link s).invalidateHandles) s e := by
      rw [wp_onLink]
      unfold invalidateHandles
      rw [Act.wp_bind]
      refine wp_call.mpr ⟨trivial, fun _ _ _ => ?_⟩
      rw [Act.wp_modify, HasLink.link_setLink]
    have hlink := Act.wp_ends hwp hends
    exact hlink
  | @reconnected _ _ _ _ r hends =>
    have hwp : Attempt.wp R (fun _ _ => True) (onLinkM reconnect : Attempt Call Answer σ Error Unit)
        (fun _ s' _ => ∃ device infos,
          HasLink.link s' = (HasLink.link s).adopted device (device.bindStorages infos))
        (fun _ s' _ => ∃ reason, HasLink.link s' = (HasLink.link s).giveUp reason) s e := by
      rw [wp_onLinkM]
      refine Attempt.wp_mono (reconnect_does fun _ _ _ => trivial) ?_ ?_
      · rintro _ l e' ⟨device, infos, rfl⟩
        exact ⟨device, infos, HasLink.link_setLink _ _⟩
      · rintro _ l e' ⟨-, reason, rfl⟩
        exact ⟨reason, HasLink.link_setLink _ _⟩
    rcases r with err | u
    · have hlink := Attempt.wp_error hwp hends
      exact hlink
    · have hlink := Attempt.wp_ok hwp hends
      exact hlink

/-- A renewing step leaves nothing fresh. -/
theorem Advances.nothingFresh {step : RecoveryStep α} (ht : Advances R attempt step s e s' e')
    (hn : step.Renews) (hd : (HasLink.link s).inodes.Dated) :
    (HasLink.link s').inodes.NothingFresh := by
  have hdoes := ht.does
  rcases step with _ | _ | _ | (err | u)
  · cases hn
  · cases hn
  · rw [hdoes]
    exact hd.nothingFresh
  · cases hn
  · obtain ⟨device, infos, hl⟩ := hdoes
    rw [hl]
    exact (hd.operated (Link.remapStorages_operated _ _)).nothingFresh

theorem Advances.operated {step : RecoveryStep α} (ht : Advances R attempt step s e s' e')
    (hop : OperatesOn R attempt) : (HasLink.link s).inodes.Operated (HasLink.link s').inodes := by
  have hdoes := ht.does
  rcases step with _ | r | _ | (err | u)
  · rw [show HasLink.link s' = HasLink.link s from hdoes]
  · cases ht with
    | attempt _ hends => exact hop _ _ _ _ _ hends
  · rw [hdoes]
    exact .single (.apply .bumpGeneration)
  · obtain ⟨reason, hl⟩ := hdoes
    rw [hl]
    exact .refl
  · obtain ⟨device, infos, hl⟩ := hdoes
    rw [hl]
    exact (Link.remapStorages_operated _ _).tail (.apply .bumpGeneration)

/-- Where a renewing step is followed by another, that one starts with nothing fresh. -/
theorem Steps.nothingFresh (h : Steps R attempt s e steps s' e') (hop : OperatesOn R attempt)
    (hd : (HasLink.link s).inodes.Dated) {before after : List (σ × RecoveryStep α)}
    {x y : σ × RecoveryStep α} (hs : steps = before ++ x :: y :: after) (hx : x.2.Renews) :
    (HasLink.link y.1).inodes.NothingFresh := by
  induction before generalizing s e steps with
  | nil =>
    subst hs
    cases h with
    | cons ht h =>
      cases h with
      | cons _ _ => exact ht.nothingFresh hx hd
  | cons z before ih =>
    subst hs
    cases h with
    | cons ht h => exact ih h (hd.operated (ht.operated hop)) rfl

/-- The rounds of a run are disciplined. -/
theorem InRounds.disciplined {r : Except Error α} (hin : InRounds MAX_ATTEMPTS steps r)
    (h : Steps R attempt s e steps s' e') (hop : OperatesOn R attempt)
    (hd : (HasLink.link s).inodes.Dated) : Disciplined steps r where
  bounded := hin.bounded
  value := by
    intro v hv
    obtain ⟨⟨s, step⟩, hx, hstep⟩ := hin.value v hv
    obtain ⟨before, rfl⟩ := List.getLast?_eq_some_iff.mp hx
    cases hstep
    exact ⟨before, s, rfl⟩
  other := by
    rintro before s err after rfl hst hlost
    cases after with
    | nil => exact ⟨rfl, hin.last _ List.getLast?_concat _ rfl⟩
    | cons x after =>
      exfalso
      have hf := (List.isChain_append_cons_cons.mp hin.chain).2.1
      obtain ⟨s', step⟩ := x
      cases step with
      | unplugged => exact hf
      | attempt outcome => exact hf
      | invalidated =>
        obtain ⟨err', he, hst'⟩ := hf
        cases he
        rw [hst] at hst'
        cases hst'
      | reconnected outcome =>
        have hlost' := hf.2
        rw [hlost] at hlost'
        cases hlost'
  reopened := by
    rintro before s outcome after rfl
    rcases List.eq_nil_or_concat before with rfl | ⟨earlier, ⟨s', step⟩, rfl⟩
    · exact absurd (hin.begins _ rfl) id
    · rw [List.concat_eq_append, List.append_assoc] at hin
      exact ⟨earlier, s', step, List.concat_eq_append,
        (List.isChain_append_cons_cons.mp hin.chain).2.1⟩
  renewed := by
    rintro before s outcome after rfl ⟨z, hz, -⟩
    rcases List.eq_nil_or_concat before with rfl | ⟨earlier, x, rfl⟩
    · cases hz
    · rw [List.concat_eq_append, List.append_assoc] at hin h
      exact h.nothingFresh hop hd rfl (List.isChain_append_cons_cons.mp hin.chain).2.1

/-- Every call of the run gets an answer. -/
def Answered (R : Answers Call Answer E) (e : E) (c : Call) : Prop := ∃ a e', R e c a e'

/-- Whatever an attempt runs into, the recovery around it comes to an end when
the attempts do, and keeps to its steps. -/
theorem recovery_discipline (attempt : Attempt Call Answer σ Error α) (hop : OperatesOn R attempt)
    (s : σ) (e : E) (hs : InodeTable.Operated .new (HasLink.link s).inodes) :
    ((∀ e c, c.isRecovery = true → Answered R e c) →
      (∀ s e, (attempt.run s).wp R (Answered R) (fun _ _ => True) e) →
      ((withRecovery attempt).run s).wp R (Answered R) (fun _ _ => True) e) ∧
    ∀ r s' e', Prog.Ends R ((withRecovery attempt).run s) e (r, s') e' →
      ∃ steps, Steps R attempt s e steps s' e' ∧ Disciplined steps r := by
  constructor
  · intro hR hattempt
    exact Act.wp_mono (recoveryRounds_steps hR hattempt MAX_ATTEMPTS) fun _ _ _ _ => trivial
  · intro r s' e' hends
    have hall : ∀ s e, (attempt.run s).wp R (fun _ _ => True) (fun _ _ => True) e :=
      fun s e => Prog.wp_of_forall _ (fun _ _ => trivial) e
    have hwp := recoveryRounds_steps (R := R) (s := s) (e := e) (fun _ _ _ => trivial) hall MAX_ATTEMPTS
    obtain ⟨steps, hsteps, hin⟩ := Act.wp_ends hwp hends
    exact ⟨steps, hsteps, hin.inRounds.disciplined hsteps hop (InodeTable.dated_new.operated hs)⟩

end Discipline

end Steps

/-! ## The attempts of the mount -/

theorem queries_operated (t : InodeTable) :
    Queries R (fun _ _ => True) (fun l _ => t.Operated l.inodes) (fun _ _ => True) where
  token := fun _ _ => trivial
  aside := fun _ h => ⟨trivial, fun _ _ _ => ⟨h, fun _ h => h⟩⟩
  query := fun _ _ h _ _ => ⟨trivial, fun _ _ _ => ⟨h, fun _ h => h, fun _ _ => trivial⟩⟩
  setHandle := fun {_ _ node a} h _ => h.tail (.apply (.setHandle node a))
  giveUp := fun h => h
  invalidate := fun h => ⟨trivial, fun _ _ _ => h.tail (.apply .bumpGeneration)⟩
  reopen := fun h => ⟨trivial, fun _ _ _ => ⟨h, fun _ _ => ⟨trivial, fun _ _ _ => ⟨h, fun _ _ =>
    ⟨trivial, fun _ _ _ => ⟨trivial, fun _ _ _ =>
      (h.trans (Link.remapStorages_operated _ _)).tail (.apply .bumpGeneration)⟩⟩⟩⟩⟩⟩
  syncChildren := fun {_ _ parent children} h _ _ => h.tail (.apply (.syncChildren parent children))
  loaded := fun {_ _ parent children} h _ _ => h.tail (.apply (.syncChildren parent children))
  rootLoaded := fun h => h
  forget := fun _ h => h

theorem operatesOn_listIntoTable (parentInode : Nat) : OperatesOn R (listIntoTable parentInode) := by
  intro l e r l' e' hends
  have hwp := listIntoTable_wp (queries_operated (R := R) l.inodes) parentInode
    (l := l) (e := e) (.refl : l.inodes.Operated l.inodes)
  have hpost := Act.wp_ends hwp hends
  rcases r with err | u
  · exact hpost
  · exact hpost.1

/-- A phone whose first session is gone when a folder of it is listed. -/
def listingDropped (_ : List Event) : (c : Call) → Option (Answer c)
  | .storages _ => some (.ok [⟨⟨1⟩, "Card", 100, 50⟩])
  | .listObjects storage _ => some (if storage.session = 0 then .error .deviceReset else .ok [])
  | .openDevice => some (.ok ⟨1, true, true⟩)
  | c => undisturbed c

def cardLink : Link where
  policy := ⟨1000⟩
  describe := "phone"
  device := ⟨0, true, true⟩
  storages := MtpDevice.bindStorages ⟨0, true, true⟩ [⟨⟨1⟩, "Card", 100, 50⟩]
  inodes := (InodeTable.new.addStorageAt ⟨1⟩ "Card" 0).2
  dirsLoaded := ∅
  eventEpoch := 0
  shutdown := none

/-- The listing of the card, across that loss. -/
theorem recovery_discipline_reopened : ∃ steps l' tr',
    Steps AnyAnswer (listIntoTable 2) cardLink [] steps l' tr' ∧ Disciplined steps (.ok ()) ∧
      l'.device.session = 1 := by
  have ht : (((withRecovery (listIntoTable 2)).run cardLink).runWith (script listingDropped) []).any
      (fun x => x.1.1.isOk && x.1.2.device.session == 1) = true := by rfl
  obtain ⟨⟨⟨r, l'⟩, tr'⟩, hrun, htest⟩ := (Option.any_eq_true _ _).mp ht
  have hends := Prog.runWith_ends (anyAnswer_of_script listingDropped) hrun
  obtain ⟨hok, hsession⟩ := Bool.and_eq_true_iff.mp htest
  have hcard : InodeTable.Operated .new cardLink.inodes :=
    .single (.apply (.addStorageAt ⟨1⟩ "Card" 0))
  obtain ⟨steps, hsteps, hd⟩ := (recovery_discipline (listIntoTable 2)
    (operatesOn_listIntoTable 2) cardLink [] hcard).2 r l' tr' hends
  rcases r with err | u
  · cases hok
  · exact ⟨steps, l', tr', hsteps, hd, eq_of_beq hsession⟩

end MtpMount
